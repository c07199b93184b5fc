import Qboot.Smbios.Walk

/-!
`smbios_next` on a table of arbitrary bytes. Every call reads inside the table
and moves up, so the loop of `extract_smbios` ends, as long as no pointer that
the last test forms passes the end of the address space.
-/

namespace Qboot

open Bytes ByteMemory

/-! ### What is read of the table -/

/-- The bytes that `skipStrings` reads; `||` reads the second only if the first
is NUL. -/
def skipStringsReads (m : Mem) (end_ : BitVec 32) : Nat → BitVec 32 → List (BitVec 32)
  | 0, _ => []
  | n + 1, ptr =>
    if ptr < end_ then
      if m (ptr - 1#32) ≠ 0#8 then
        (ptr - 1#32) :: skipStringsReads m end_ n (ptr + 1#32)
      else if m (ptr - 2#32) ≠ 0#8 then
        (ptr - 1#32) :: (ptr - 2#32) :: skipStringsReads m end_ n (ptr + 1#32)
      else [ptr - 1#32, ptr - 2#32]
    else []

/-- The last test reads the length byte once the header is known to fit. -/
def headerReads (end_ ptr : BitVec 32) : List (BitVec 32) :=
  if ptr ≥ end_ ∨ ptr + 4#32 ≥ end_ then [] else [ptr + 1#32]

/-- The bytes of the table that `smbios_next` reads, in its order. -/
def smbiosNextReads (m : Mem) (ep hdr : BitVec 32) : List (BitVec 32) :=
  if ep = 0#32 then []
  else if hdr = 0#32 then headerReads (smbiosEnd m ep) (smbiosStart m ep)
  else if hdr + 4#32 > smbiosEnd m ep then []
  else
    let ptr := hdr + ((m (hdr + 1#32)).setWidth 32 + 2#32)
    let n := (smbiosEnd m ep).toNat - ptr.toNat
    (hdr + 1#32) :: (skipStringsReads m (smbiosEnd m ep) n ptr ++
      headerReads (smbiosEnd m ep) (skipStrings m (smbiosEnd m ep) n ptr))

/-- The header at `hdr`, its four bytes and its declared length lie inside the
table. -/
structure HeaderInside (m : Mem) (ep hdr : BitVec 32) : Prop where
  above : (smbiosStart m ep).toNat ≤ hdr.toNat
  header : hdr.toNat + 4 ≤ (smbiosStart m ep).toNat + smbiosLength m ep
  declared : hdr.toNat + (m (hdr + 1#32)).toNat ≤ (smbiosStart m ep).toNat + smbiosLength m ep

/-- The calls from `hdr` on end with NULL after the headers `hs`. -/
structure SafeWalk (m : Mem) (ep hdr : BitVec 32) (hs : List (BitVec 32)) : Prop where
  walk : SmbiosWalk m ep hdr hs
  increasing : hs.Pairwise (· < ·)
  inside : ∀ hdr' ∈ hs, HeaderInside m ep hdr'
  reads : ∀ hdr' ∈ hdr :: hs, ∀ a ∈ smbiosNextReads m ep hdr',
    Within (smbiosStart m ep) (smbiosLength m ep) a

/-! ### The reads decide the result -/

theorem skipStrings_congr {m m' : Mem} {end_ : BitVec 32} (n : Nat) :
    ∀ {ptr : BitVec 32}, (∀ a ∈ skipStringsReads m end_ n ptr, m' a = m a) →
      skipStrings m' end_ n ptr = skipStrings m end_ n ptr := by
  induction n with
  | zero => exact fun _ => rfl
  | succ n ih =>
    intro ptr hreads
    rw [skipStringsReads] at hreads
    rw [skipStrings, skipStrings]
    by_cases hlt : ptr < end_
    · rw [if_pos hlt] at hreads
      by_cases hone : m (ptr - 1#32) = 0#8
      · rw [if_neg (not_not.mpr hone)] at hreads
        by_cases htwo : m (ptr - 2#32) = 0#8
        · rw [if_neg (not_not.mpr htwo)] at hreads
          rw [hreads (ptr - 1#32) (by simp), hreads (ptr - 2#32) (by simp)]
          simp [hone, htwo]
        · rw [if_pos htwo] at hreads
          rw [hreads (ptr - 1#32) (by simp), hreads (ptr - 2#32) (by simp),
            ih fun a ha => hreads a (by simp [ha])]
      · rw [if_pos hone] at hreads
        have hsame := hreads (ptr - 1#32) (by simp)
        rw [if_pos ⟨hlt, Or.inl (hsame ▸ hone)⟩, if_pos ⟨hlt, Or.inl hone⟩]
        exact ih fun a ha => hreads a (by simp [ha])
    · rw [if_neg fun h => hlt h.1, if_neg fun h => hlt h.1]

theorem headerOrNull_congr {m m' : Mem} {end_ ptr : BitVec 32}
    (hreads : ∀ a ∈ headerReads end_ ptr, m' a = m a) :
    headerOrNull m' end_ ptr = headerOrNull m end_ ptr := by
  rw [headerReads] at hreads
  rw [headerOrNull, headerOrNull]
  by_cases hout : ptr ≥ end_ ∨ ptr + 4#32 ≥ end_
  · rw [if_pos (by tauto), if_pos (by tauto)]
  · rw [if_neg hout] at hreads
    rw [hreads (ptr + 1#32) (by simp)]

theorem smbiosNextReads_eq (m : Mem) (ep hdr : BitVec 32) :
    smbiosNextReads m ep hdr =
      if ep = 0#32 then []
      else if hdr = 0#32 then headerReads (smbiosEnd m ep) (smbiosStart m ep)
      else if hdr + 4#32 > smbiosEnd m ep then []
      else (hdr + 1#32) :: (skipStringsReads m (smbiosEnd m ep)
          ((smbiosEnd m ep).toNat - (stringsFrom m hdr).toNat) (stringsFrom m hdr) ++
        headerReads (smbiosEnd m ep) (stringsEnd m (smbiosEnd m ep) hdr)) := rfl

/-- Memories that agree on the bytes read give the same header. -/
theorem smbiosNext_congr {m m' : Mem} {ep hdr : BitVec 32}
    (hstart : smbiosStart m' ep = smbiosStart m ep)
    (hlength : smbiosLength m' ep = smbiosLength m ep)
    (hreads : ∀ a ∈ smbiosNextReads m ep hdr, m' a = m a) :
    smbiosNext m' ep hdr = smbiosNext m ep hdr := by
  have hend : smbiosEnd m' ep = smbiosEnd m ep := by rw [smbiosEnd, hstart, hlength, smbiosEnd]
  rw [smbiosNextReads_eq] at hreads
  rw [smbiosNext_eq, smbiosNext_eq, hstart, hend]
  split_ifs at hreads ⊢ with hep hnull hroom
  · rfl
  · exact headerOrNull_congr hreads
  · rfl
  · have hfrom : stringsFrom m' hdr = stringsFrom m hdr := by
      rw [stringsFrom, hreads (hdr + 1#32) (by simp), stringsFrom]
    have hstop : stringsEnd m' (smbiosEnd m ep) hdr = stringsEnd m (smbiosEnd m ep) hdr := by
      rw [stringsEnd, hfrom]
      exact skipStrings_congr _ fun a ha => hreads a (by simp [ha])
    rw [hstop]
    exact headerOrNull_congr fun a ha => hreads a (by simp [ha])

/-! ### One call -/

section Step

variable {m : Mem} {end_ : BitVec 32}

/-- The search ends before its steps run out. -/
theorem skipStrings_stops (n : Nat) :
    ∀ {ptr : BitVec 32}, end_.toNat - ptr.toNat ≤ n →
      ¬ (skipStrings m end_ n ptr < end_ ∧
        (m (skipStrings m end_ n ptr - 1#32) ≠ 0#8 ∨
          m (skipStrings m end_ n ptr - 2#32) ≠ 0#8)) := by
  induction n with
  | zero =>
    rintro ptr hn ⟨hlt, -⟩
    rw [skipStrings, BitVec.lt_def] at hlt
    omega
  | succ n ih =>
    intro ptr hn
    rw [skipStrings]
    split
    · rename_i hgo
      have hlt : ptr.toNat < end_.toNat := hgo.1
      have hnext : (ptr + 1#32).toNat = ptr.toNat + 1 := toNat_add_ofNat (by omega)
      exact ih (by omega)
    · rename_i hstop
      exact hstop

/-- The search moves up, and not past the end of the table. -/
theorem skipStrings_between (n : Nat) :
    ∀ {ptr : BitVec 32}, ptr.toNat ≤ (skipStrings m end_ n ptr).toNat ∧
      (skipStrings m end_ n ptr).toNat ≤ max ptr.toNat end_.toNat := by
  induction n with
  | zero => exact ⟨le_rfl, le_max_left _ _⟩
  | succ n ih =>
    intro ptr
    rw [skipStrings]
    split
    · rename_i hgo
      have hlt : ptr.toNat < end_.toNat := hgo.1
      have hnext : (ptr + 1#32).toNat = ptr.toNat + 1 := toNat_add_ofNat (by omega)
      obtain ⟨hlow, hhigh⟩ := @ih (ptr + 1#32)
      omega
    · exact ⟨le_rfl, le_max_left _ _⟩

/-- The search reads from two bytes below its first pointer up to the end. -/
theorem skipStringsReads_between (n : Nat) :
    ∀ {ptr : BitVec 32}, 2 ≤ ptr.toNat → ∀ a ∈ skipStringsReads m end_ n ptr,
      ptr.toNat - 2 ≤ a.toNat ∧ a.toNat < end_.toNat := by
  induction n with
  | zero =>
    intro ptr _ a ha
    cases ha
  | succ n ih =>
    intro ptr hptr a ha
    rw [skipStringsReads] at ha
    split at ha
    · rename_i hgo
      have hlt : ptr.toNat < end_.toNat := hgo
      have hnext : (ptr + 1#32).toNat = ptr.toNat + 1 := toNat_add_ofNat (by omega)
      have hone : (ptr - 1#32).toNat = ptr.toNat - 1 :=
        BitVec.toNat_sub_of_le (by rw [BitVec.le_def]; change 1 ≤ _; omega)
      have htwo : (ptr - 2#32).toNat = ptr.toNat - 2 :=
        BitVec.toNat_sub_of_le (by rw [BitVec.le_def]; exact hptr)
      have hrest (h : a ∈ skipStringsReads m end_ n (ptr + 1#32)) :
          ptr.toNat - 2 ≤ a.toNat ∧ a.toNat < end_.toNat := by
        obtain ⟨hlow, hhigh⟩ := ih (by omega) a h
        omega
      have hfirst (h : a = ptr - 1#32) : ptr.toNat - 2 ≤ a.toNat ∧ a.toNat < end_.toNat := by
        rw [h]
        omega
      have hsecond (h : a = ptr - 2#32) : ptr.toNat - 2 ≤ a.toNat ∧ a.toNat < end_.toNat := by
        rw [h]
        omega
      split_ifs at ha
      · rcases List.mem_cons.mp ha with h | h
        exacts [hfirst h, hrest h]
      · rcases List.mem_cons.mp ha with h | h
        · exact hfirst h
        · rcases List.mem_cons.mp h with h | h
          exacts [hsecond h, hrest h]
      · rcases List.mem_cons.mp ha with h | h
        exacts [hfirst h, hsecond (List.mem_singleton.mp h)]
    · cases ha

/-- A header that passes the last test fits before the end, with its formatted
area, if no pointer formed there passes the end of the address space. -/
theorem headerOrNull_fits (hend : end_.toNat + 250 < 2 ^ 32) {ptr : BitVec 32}
    (hne : headerOrNull m end_ ptr ≠ 0#32) :
    headerOrNull m end_ ptr = ptr ∧ ptr.toNat + 4 < end_.toNat ∧
      ptr.toNat + (m (ptr + 1#32)).toNat < end_.toNat := by
  rw [headerOrNull] at hne ⊢
  split_ifs at hne ⊢ with hout
  · exact absurd rfl hne
  · obtain ⟨hptr, hrest⟩ := not_or.mp hout
    obtain ⟨hheader, hdeclared⟩ := not_or.mp hrest
    have hbyte := (m (ptr + 1#32)).isLt
    have hlt : ptr.toNat < end_.toNat := by simpa [BitVec.le_def] using hptr
    have hfour : (ptr + 4#32).toNat = ptr.toNat + 4 := toNat_add_ofNat (by omega)
    have hlt4 : ptr.toNat + 4 < end_.toNat := by
      rw [← hfour]
      simpa [BitVec.le_def] using hheader
    have hlength : (ptr + (m (ptr + 1#32)).setWidth 32).toNat =
        ptr.toNat + (m (ptr + 1#32)).toNat := by
      rw [BitVec.toNat_add, BitVec.toNat_setWidth, Nat.mod_eq_of_lt (by omega : _ < 2 ^ 32),
        Nat.mod_eq_of_lt (by omega)]
    refine ⟨rfl, hlt4, ?_⟩
    rw [← hlength]
    simpa [BitVec.le_def] using hdeclared

theorem headerReads_between (hend : end_.toNat + 250 < 2 ^ 32) {ptr : BitVec 32} :
    ∀ a ∈ headerReads end_ ptr, ptr.toNat ≤ a.toNat ∧ a.toNat < end_.toNat := by
  intro a ha
  rw [headerReads] at ha
  split_ifs at ha with hout
  · cases ha
  · obtain ⟨hptr, hheader⟩ := not_or.mp hout
    have hlt : ptr.toNat < end_.toNat := by simpa [BitVec.le_def] using hptr
    have hfour : (ptr + 4#32).toNat = ptr.toNat + 4 := toNat_add_ofNat (by omega)
    have hone : (ptr + 1#32).toNat = ptr.toNat + 1 := toNat_add_ofNat (by omega)
    have hlt4 : ptr.toNat + 4 < end_.toNat := by
      rw [← hfour]
      simpa [BitVec.le_def] using hheader
    rw [List.mem_singleton.mp ha]
    omega

end Step

section Table

variable {m : Mem} {ep hdr : BitVec 32}
  (htop : (smbiosStart m ep).toNat + smbiosLength m ep + 250 < 2 ^ 32)

include htop

theorem toNat_smbiosEnd :
    (smbiosEnd m ep).toNat = (smbiosStart m ep).toNat + smbiosLength m ep :=
  toNat_add_ofNat (by omega)

/-- The cursor behind the formatted area of a header inside the table. -/
theorem toNat_stringsFrom (hin : HeaderInside m ep hdr) :
    (stringsFrom m hdr).toNat = hdr.toNat + (m (hdr + 1#32)).toNat + 2 := by
  have hdeclared := hin.declared
  have hbyte := (m (hdr + 1#32)).isLt
  have hwidth : (m (hdr + 1#32)).setWidth 32 + 2#32 =
      BitVec.ofNat 32 ((m (hdr + 1#32)).toNat + 2) := by
    rw [BitVec.ofNat_add, ← BitVec.ofNat_toNat]
  rw [stringsFrom, hwidth, toNat_add_ofNat (by omega)]
  omega

/-- The first call returns NULL or a header inside the table. -/
theorem smbiosNext_first : smbiosNext m ep 0#32 ≠ 0#32 →
    HeaderInside m ep (smbiosNext m ep 0#32) := by
  have hend := toNat_smbiosEnd htop
  intro hne
  rw [smbiosNext_eq, if_pos rfl] at hne ⊢
  split_ifs at hne ⊢ with hep
  · exact absurd rfl hne
  · obtain ⟨hptr, hheader, hdeclared⟩ := headerOrNull_fits (by omega) hne
    rw [hptr]
    exact { above := le_rfl, header := by omega, declared := by omega }

/-- A later call returns NULL or a header inside the table, further up. -/
theorem smbiosNext_later (hin : HeaderInside m ep hdr) (hhdr : hdr ≠ 0#32)
    (hne : smbiosNext m ep hdr ≠ 0#32) :
    HeaderInside m ep (smbiosNext m ep hdr) ∧ hdr < smbiosNext m ep hdr := by
  have hend := toNat_smbiosEnd htop
  have hfrom := toNat_stringsFrom htop hin
  have habove := hin.above
  rw [smbiosNext_eq] at hne ⊢
  split_ifs at hne ⊢ with hep hroom
  · exact absurd rfl hne
  · exact absurd rfl hne
  · obtain ⟨hptr, hheader, hdeclared⟩ := headerOrNull_fits (by omega) hne
    have hup : (stringsFrom m hdr).toNat ≤ (stringsEnd m (smbiosEnd m ep) hdr).toNat :=
      (skipStrings_between _).1
    rw [hptr, BitVec.lt_def]
    exact ⟨{ above := by omega, header := by omega, declared := by omega }, by omega⟩

theorem smbiosNextReads_first : ∀ a ∈ smbiosNextReads m ep 0#32,
    Within (smbiosStart m ep) (smbiosLength m ep) a := by
  have hend := toNat_smbiosEnd htop
  intro a ha
  rw [smbiosNextReads_eq, if_pos rfl] at ha
  rw [within_iff (by omega)]
  split_ifs at ha with hep
  · cases ha
  · have hbetween := headerReads_between (by omega) a ha
    omega

theorem smbiosNextReads_later (hin : HeaderInside m ep hdr) (hhdr : hdr ≠ 0#32) :
    ∀ a ∈ smbiosNextReads m ep hdr, Within (smbiosStart m ep) (smbiosLength m ep) a := by
  have hend := toNat_smbiosEnd htop
  have hfrom := toNat_stringsFrom htop hin
  have habove := hin.above
  have hheader := hin.header
  intro a ha
  rw [smbiosNextReads_eq] at ha
  rw [within_iff (by omega)]
  split_ifs at ha with hep hroom
  · cases ha
  · cases ha
  · rcases List.mem_cons.mp ha with rfl | ha
    · have hone : (hdr + 1#32).toNat = hdr.toNat + 1 := toNat_add_ofNat (by omega)
      omega
    · rcases List.mem_append.mp ha with ha | ha
      · have hbetween := skipStringsReads_between _ (by omega) a ha
        omega
      · have hbetween := headerReads_between (by omega) a ha
        have hup : (stringsFrom m hdr).toNat ≤ (stringsEnd m (smbiosEnd m ep) hdr).toNat :=
          (skipStrings_between _).1
        omega

/-! ### The whole walk -/

/-- From a header inside the table the walk ends, after at most one call for each
byte that is left. -/
theorem safeWalk_later (n : Nat) :
    ∀ {hdr : BitVec 32}, HeaderInside m ep hdr → hdr ≠ 0#32 →
      (smbiosEnd m ep).toNat - hdr.toNat ≤ n + 1 →
      ∃ hs, SafeWalk m ep hdr hs ∧ (∀ hdr' ∈ hs, hdr < hdr') ∧ hs.length ≤ n := by
  have hend := toNat_smbiosEnd htop
  induction n with
  | zero =>
    intro hdr hin _ hn
    have hheader := hin.header
    omega
  | succ n ih =>
    intro hdr hin hhdr hn
    have hreads := smbiosNextReads_later htop hin hhdr
    by_cases hne : smbiosNext m ep hdr = 0#32
    · refine ⟨[], ⟨SmbiosWalk.done hne, List.Pairwise.nil, by simp, ?_⟩, by simp, by simp⟩
      simpa using hreads
    · obtain ⟨hin', hlt⟩ := smbiosNext_later htop hin hhdr hne
      have hup : hdr.toNat < (smbiosNext m ep hdr).toNat := hlt
      obtain ⟨hs, hsafe, habove, hlen⟩ := ih hin' hne (by omega)
      refine ⟨_ :: hs, ⟨SmbiosWalk.next rfl hne hsafe.walk, ?_, ?_, ?_⟩, ?_, ?_⟩
      · exact List.Pairwise.cons habove hsafe.increasing
      · exact List.forall_mem_cons.mpr ⟨hin', hsafe.inside⟩
      · exact List.forall_mem_cons.mpr ⟨hreads, hsafe.reads⟩
      · exact List.forall_mem_cons.mpr ⟨hlt, fun x hx => BitVec.lt_trans hlt (habove x hx)⟩
      · exact Nat.succ_le_succ hlen

theorem safeWalk_null : ∃ hs, SafeWalk m ep 0#32 hs ∧ hs.length < 65536 := by
  have hend := toNat_smbiosEnd htop
  have hreads := smbiosNextReads_first htop
  have hlength : smbiosLength m ep < 65536 := loadLE_lt m _ 2
  by_cases hne : smbiosNext m ep 0#32 = 0#32
  · refine ⟨[], ⟨SmbiosWalk.done hne, List.Pairwise.nil, by simp, ?_⟩, by simp⟩
    simpa using hreads
  · have hin := smbiosNext_first htop hne
    have habove := hin.above
    have hheader := hin.header
    obtain ⟨hs, hsafe, hup, hlen⟩ := safeWalk_later htop
      ((smbiosEnd m ep).toNat - (smbiosNext m ep 0#32).toNat - 1) hin hne (by omega)
    refine ⟨_ :: hs, ⟨SmbiosWalk.next rfl hne hsafe.walk, ?_, ?_, ?_⟩, ?_⟩
    · exact List.Pairwise.cons hup hsafe.increasing
    · exact List.forall_mem_cons.mpr ⟨hin, hsafe.inside⟩
    · exact List.forall_mem_cons.mpr ⟨hreads, hsafe.reads⟩
    · rw [List.length_cons]
      omega

/-- On a table of any content the calls end with NULL. Every header returned
lies above the one before and inside the table with its declared length, no call
reads a byte outside the table, and the inner search always ends. So does the
loop of `extract_smbios`, after at most 65535 headers. -/
theorem smbiosNext_safe :
    ∃ hs, SafeWalk m ep 0#32 hs ∧
      (∀ n : Nat, 65536 ≤ n → needT0 m ep n 0#32 = hs.all fun hdr => m hdr ≠ 0#8) ∧
      ∀ hdr, ¬ (stringsEnd m (smbiosEnd m ep) hdr < smbiosEnd m ep ∧
        (m (stringsEnd m (smbiosEnd m ep) hdr - 1#32) ≠ 0#8 ∨
          m (stringsEnd m (smbiosEnd m ep) hdr - 2#32) ≠ 0#8)) := by
  obtain ⟨hs, hsafe, hlen⟩ := safeWalk_null htop
  exact ⟨hs, hsafe, fun n hn => hsafe.walk.needT0_eq (by omega),
    fun hdr => skipStrings_stops _ le_rfl⟩

end Table

/-- An entry point at 0x1000 for a table of five bytes 0xff at `start`. -/
def fullBytesMem (start : BitVec 32) : Mem :=
  store (store (fun _ => 0xff#8) (epStructureTableLength 0x1000#32) (toLE 2 5))
    (epStructureTableAddress 0x1000#32) (toLE 4 start.toNat)

/-- Three headers with damaged lengths and strings, and one that is longer than
the rest of the table. -/
def tornTable : List Byte :=
  [1#8, 4#8, 0#8, 0#8, 0x41#8, 0#8, 0#8] ++ [2#8, 2#8, 0#8, 0#8] ++
    [3#8, 5#8, 1#8, 0#8, 9#8, 0x42#8, 0x43#8, 0#8, 0#8] ++ [4#8, 200#8, 0#8, 0#8]

def tornMem : Mem :=
  store (store (store (fun _ => 0xff#8) (epStructureTableLength 0x1000#32) (toLE 2 24))
    (epStructureTableAddress 0x1000#32) (toLE 4 0xf0000)) 0xf0000#32 tornTable

theorem smbiosNext_safe_torn : ∃ hs,
    hs = [0xf0000#32, 0xf0007#32, 0xf000b#32] ∧ SafeWalk tornMem 0x1000#32 0#32 hs ∧
      ∀ n : Nat, 65536 ≤ n → needT0 tornMem 0x1000#32 n 0#32 = true := by
  obtain ⟨hs, hsafe, hloop, -⟩ := @smbiosNext_safe tornMem 0x1000#32 (by decide +kernel)
  have hwalk : SmbiosWalk tornMem 0x1000#32 0#32 [0xf0000#32, 0xf0007#32, 0xf000b#32] :=
    .next (by decide +kernel) (by decide) (.next (by decide +kernel) (by decide)
      (.next (by decide +kernel) (by decide) (.done (by decide +kernel))))
  obtain rfl := hsafe.walk.unique hwalk
  exact ⟨_, rfl, hsafe, fun n hn => (hloop n hn).trans (by decide +kernel)⟩

/-- Five bytes from 0xffffff01 on do not wrap, but the sum of the address and the
declared length 255 does: the first call returns a header that passes the end. -/
theorem smbiosNext_passes_end :
    (smbiosStart (fullBytesMem 0xffffff01#32) 0x1000#32).toNat +
        smbiosLength (fullBytesMem 0xffffff01#32) 0x1000#32 + 250 = 2 ^ 32 ∧
      smbiosNext (fullBytesMem 0xffffff01#32) 0x1000#32 0#32 = 0xffffff01#32 ∧
      ¬ HeaderInside (fullBytesMem 0xffffff01#32) 0x1000#32 0xffffff01#32 := by
  refine ⟨by decide +kernel, by decide +kernel, fun hin => ?_⟩
  have hdeclared := hin.declared
  revert hdeclared
  decide +kernel

end Qboot
