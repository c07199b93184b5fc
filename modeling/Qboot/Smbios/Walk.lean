import Qboot.Smbios.Structures
import Qboot.Smbios.Extract

/-!
`smbios_next` on a table that is a sequence of structures: it returns the
address of each structure in turn, so the loop of `extract_smbios` sees every
type byte.
-/

namespace Qboot

open Bytes ByteMemory

/-- Start, length and end of the table that the entry point at `ep` describes. -/
def smbiosStart (m : Mem) (ep : BitVec 32) : BitVec 32 :=
  BitVec.ofNat 32 (loadLE m (epStructureTableAddress ep) 4)

def smbiosLength (m : Mem) (ep : BitVec 32) : Nat := loadLE m (epStructureTableLength ep) 2

def smbiosEnd (m : Mem) (ep : BitVec 32) : BitVec 32 :=
  smbiosStart m ep + BitVec.ofNat 32 (smbiosLength m ep)

/-- The pointer from which `smbios_next` looks for the end of the string set. -/
def stringsFrom (m : Mem) (hdr : BitVec 32) : BitVec 32 :=
  hdr + ((m (hdr + 1#32)).setWidth 32 + 2#32)

/-- Where the search from the header at `hdr` ends. -/
def stringsEnd (m : Mem) (end_ hdr : BitVec 32) : BitVec 32 :=
  skipStrings m end_ (end_.toNat - (stringsFrom m hdr).toNat) (stringsFrom m hdr)

theorem smbiosNext_eq (m : Mem) (ep hdr : BitVec 32) :
    smbiosNext m ep hdr =
      if ep = 0#32 then 0#32
      else if hdr = 0#32 then headerOrNull m (smbiosEnd m ep) (smbiosStart m ep)
      else if hdr + 4#32 > smbiosEnd m ep then 0#32
      else headerOrNull m (smbiosEnd m ep) (stringsEnd m (smbiosEnd m ep) hdr) := rfl

/-- The entry point at `ep` describes the structures `table`, which lie at `q`
without passing the end of the address space. -/
structure TableAt (m : Mem) (ep q : BitVec 32) (table : List SmbiosStructure) : Prop where
  ep_ne : ep ≠ 0#32
  address : loadLE m (epStructureTableAddress ep) 4 = q.toNat
  length : loadLE m (epStructureTableLength ep) 2 = (encodeTable table).length
  start_pos : 0 < q.toNat
  end_lt : q.toNat + (encodeTable table).length < 2 ^ 32
  bytes : load m q (encodeTable table).length = encodeTable table

/-- From `hdr` on, calls of `smbios_next` that are each given the last result
return the headers `hs`, and then NULL. -/
inductive SmbiosWalk (m : Mem) (ep : BitVec 32) : BitVec 32 → List (BitVec 32) → Prop
  | done {hdr : BitVec 32} : smbiosNext m ep hdr = 0#32 → SmbiosWalk m ep hdr []
  | next {hdr hdr' : BitVec 32} {hs : List (BitVec 32)} : smbiosNext m ep hdr = hdr' →
      hdr' ≠ 0#32 → SmbiosWalk m ep hdr' hs → SmbiosWalk m ep hdr (hdr' :: hs)

/-- The calls decide the walk. -/
theorem SmbiosWalk.unique {m : Mem} {ep hdr : BitVec 32} {hs hs' : List (BitVec 32)}
    (h : SmbiosWalk m ep hdr hs) (h' : SmbiosWalk m ep hdr hs') : hs = hs' := by
  induction h generalizing hs' with
  | done hend =>
    cases h' with
    | done => rfl
    | next hnext hne => exact absurd (hnext.symm.trans hend) hne
  | next hnext hne _ ih =>
    cases h' with
    | done hend => exact absurd (hnext.symm.trans hend) hne
    | next hnext' _ hrest =>
      obtain rfl := hnext.symm.trans hnext'
      rw [ih hrest]

/-- The loop of `extract_smbios` looks at the type of each header. -/
theorem SmbiosWalk.needT0_eq {m : Mem} {ep hdr : BitVec 32} {hs : List (BitVec 32)}
    (h : SmbiosWalk m ep hdr hs) {n : Nat} (hn : hs.length < n) :
    needT0 m ep n hdr = hs.all fun hdr' => m hdr' ≠ 0#8 := by
  induction h generalizing n with
  | done hend =>
    obtain ⟨n, rfl⟩ : ∃ k, n = k + 1 := ⟨n - 1, by omega⟩
    rw [needT0, hend]
    rfl
  | @next hdr hdr' hs hnext hne hrest ih =>
    obtain ⟨n, rfl⟩ : ∃ k, n = k + 1 := ⟨n - 1, by omega⟩
    rw [needT0, hnext, if_neg hne, ih (by simpa using hn)]
    by_cases htype : m hdr' = 0#8
    · simp [htype]
    · simp [htype]

/-- The addresses of structures that lie one behind the other from `q` on. -/
def structureAddresses (q : BitVec 32) : List SmbiosStructure → List (BitVec 32)
  | [] => []
  | x :: table => q :: structureAddresses (q + BitVec.ofNat 32 x.encode.length) table

theorem length_structureAddresses (table : List SmbiosStructure) :
    ∀ q : BitVec 32, (structureAddresses q table).length = table.length := by
  induction table with
  | nil => exact fun q => rfl
  | cons x table ih => exact fun q => congrArg (· + 1) (ih _)

theorem toNat_add_ofNat {q : BitVec 32} {k : Nat} (h : q.toNat + k < 2 ^ 32) :
    (q + BitVec.ofNat 32 k).toNat = q.toNat + k := by
  rw [BitVec.toNat_add, BitVec.toNat_ofNat, Nat.mod_eq_of_lt (by omega : k < 2 ^ 32),
    Nat.mod_eq_of_lt h]

theorem add_ofNat_sub (q : BitVec 32) {k j : Nat} (h : j ≤ k) :
    q + BitVec.ofNat 32 k - BitVec.ofNat 32 j = q + BitVec.ofNat 32 (k - j) := by
  have hsplit : BitVec.ofNat 32 k = BitVec.ofNat 32 (k - j) + BitVec.ofNat 32 j := by
    rw [← BitVec.ofNat_add, Nat.sub_add_cancel h]
  rw [hsplit]
  ring

/-- A table starts at the cursor behind no structure. -/
theorem cursor_nil (q : BitVec 32) : q + BitVec.ofNat 32 (encodeTable []).length = q :=
  BitVec.add_zero q

/-- A byte of a string in memory. -/
theorem mem_of_load {m : Mem} {q : BitVec 32} {bs : List Byte} (h : load m q bs.length = bs)
    {k : Nat} (hk : k < bs.length) : m (q + BitVec.ofNat 32 k) = bs.getD k 0 := by
  have hk' : k < (load m q bs.length).length := by rwa [h]
  have hget := getElem_load m q hk'
  simp only [h] at hget
  rw [← hget, List.getD_eq_getElem?_getD, List.getElem?_eq_getElem hk, Option.getD_some]

theorem getD_middle (before bs after : List Byte) {k : Nat} (hk : k < bs.length) :
    (before ++ bs ++ after).getD (before.length + k) 0 = bs.getD k 0 := by
  simp only [List.getD_eq_getElem?_getD, List.append_assoc]
  rw [List.getElem?_append_right (by omega), Nat.add_sub_cancel_left,
    List.getElem?_append_left hk]

/-- From anywhere behind the second byte, the search for two NULs ends behind
the string set. -/
theorem skipStrings_stringSet {m : Mem} {q end_ : BitVec 32} {bs before body after : List Byte}
    (hload : load m q bs.length = bs) (hbs : bs = before ++ (body ++ [0#8]) ++ after)
    (hchain : NoDoubleNul body) (hlast : body.getLast? = some 0#8)
    (hend : end_.toNat = q.toNat + bs.length) (fuel j : Nat) (hj : 2 ≤ j)
    (hjbody : j ≤ body.length + 1) (hfuel : body.length + 1 - j ≤ fuel) :
    skipStrings m end_ fuel (q + BitVec.ofNat 32 (before.length + j)) =
      q + BitVec.ofNat 32 (before.length + (body.length + 1)) := by
  have hendLt := end_.isLt
  have hlen : bs.length = before.length + (body.length + 1) + after.length := by
    rw [hbs]
    simp only [List.length_append, List.length_singleton]
  have hbyte (i : Nat) (hi : i < body.length + 1) :
      m (q + BitVec.ofNat 32 (before.length + i)) = (body ++ [0#8]).getD i 0 := by
    rw [mem_of_load hload (by omega)]
    conv_lhs => rw [hbs]
    exact getD_middle before _ after (by simpa using hi)
  have hleft (i : Nat) (hi : i < body.length) : (body ++ [0#8]).getD i 0 = body.getD i 0 := by
    simp only [List.getD_eq_getElem?_getD, List.getElem?_append_left hi]
  induction fuel generalizing j with
  | zero =>
    have hall : j = body.length + 1 := by omega
    rw [skipStrings, hall]
  | succ fuel ih =>
    have hone : m (q + BitVec.ofNat 32 (before.length + j) - 1#32) =
        (body ++ [0#8]).getD (j - 1) 0 := by
      rw [← hbyte (j - 1) (by omega), ← Nat.add_sub_assoc (by omega)]
      exact congrArg m (add_ofNat_sub q (by omega))
    have htwo : m (q + BitVec.ofNat 32 (before.length + j) - 2#32) =
        (body ++ [0#8]).getD (j - 2) 0 := by
      rw [← hbyte (j - 2) (by omega), ← Nat.add_sub_assoc (by omega)]
      exact congrArg m (add_ofNat_sub q (by omega))
    rw [skipStrings, hone, htwo]
    rcases Nat.lt_or_eq_of_le hjbody with hin | hall
    · have hpair : ¬ (body.getD (j - 2) 0 = 0#8 ∧ body.getD (j - 1) 0 = 0#8) := by
        have hchainAt := List.isChain_iff_getElem.mp hchain (j - 2) (by omega)
        have hnext : j - 2 + 1 = j - 1 := by omega
        simp only [hnext] at hchainAt
        have h1 : j - 1 < body.length := by omega
        have h2 : j - 2 < body.length := by omega
        simpa [List.getD_eq_getElem?_getD, h1, h2] using hchainAt
      have hlt : q + BitVec.ofNat 32 (before.length + j) < end_ := by
        rw [BitVec.lt_def, toNat_add_ofNat (by omega), hend]
        omega
      have hnext : q + BitVec.ofNat 32 (before.length + j) + 1#32 =
          q + BitVec.ofNat 32 (before.length + (j + 1)) := by
        rw [BitVec.add_assoc, ← BitVec.ofNat_add]
        rfl
      rw [if_pos ⟨hlt, by rw [hleft _ (by omega), hleft _ (by omega)]; tauto⟩, hnext]
      exact ih (j + 1) (by omega) (by omega) (by omega)
    · subst hall
      have hnul : (body ++ [0#8]).getD (body.length + 1 - 1) 0 = 0#8 := by simp
      have hnulBefore : (body ++ [0#8]).getD (body.length + 1 - 2) 0 = 0#8 := by
        have hidx : body.length + 1 - 2 = body.length - 1 := by omega
        rw [hidx, hleft _ (by omega), List.getD_eq_getElem?_getD, ← List.getLast?_eq_getElem?,
          hlast, Option.getD_some]
      rw [if_neg]
      rintro ⟨-, h | h⟩
      · exact h hnul
      · exact h hnulBefore

/-- From a structure on, `smbios_next` goes to the first byte behind it, whatever
the table holds there. -/
theorem smbiosNext_structure {m : Mem} {ep hdr : BitVec 32} {x : SmbiosStructure}
    (hep : ep ≠ 0#32) (hhdr : hdr ≠ 0#32) (hload : load m hdr x.encode.length = x.encode)
    (hroom : hdr.toNat + x.encode.length ≤ (smbiosEnd m ep).toNat) :
    smbiosNext m ep hdr =
      headerOrNull m (smbiosEnd m ep) (hdr + BitVec.ofNat 32 x.encode.length) := by
  have hendLt := (smbiosEnd m ep).isLt
  have hpos := x.two_le_stringSet
  have hx := x.length_encode
  have hsize : x.length < 256 := x.formatted_lt
  have hfour : 4 ≤ x.length := Nat.le_add_left 4 x.formatted.length
  obtain ⟨body, hset, hchain, hlast⟩ := x.stringSet_eq
  have hsetLen : x.stringSet.length = body.length + 1 := by
    rw [hset, List.length_append, List.length_singleton]
  -- the bytes up to the string set, and what follows it
  let front := [x.type, BitVec.ofNat 8 x.length] ++ toLE 2 x.handle.toNat ++ x.formatted
  let rest := load m (hdr + BitVec.ofNat 32 x.encode.length)
    ((smbiosEnd m ep).toNat - (hdr.toNat + x.encode.length))
  have hfront : front.length = x.length := by
    simp only [front, List.length_append, length_toLE, List.length_cons, List.length_nil,
      SmbiosStructure.length]
    omega
  have hencode : x.encode = front ++ (body ++ [0#8]) := by
    rw [SmbiosStructure.encode, hset]
  have hall : (x.encode ++ rest).length = (smbiosEnd m ep).toNat - hdr.toNat := by
    rw [List.length_append, length_load]
    omega
  have hbytes : load m hdr (x.encode ++ rest).length = x.encode ++ rest := by
    rw [List.length_append, length_load, load_append, hload]
  have hlength : m (hdr + 1#32) = BitVec.ofNat 8 x.length := by
    have hone : 1 < x.encode.length := by omega
    have hbyte := mem_of_load hload hone
    exact hbyte
  have hfrom : stringsFrom m hdr = hdr + BitVec.ofNat 32 (front.length + 2) := by
    have hwidth : (BitVec.ofNat 8 x.length).setWidth 32 = BitVec.ofNat 32 x.length := by
      apply BitVec.eq_of_toNat_eq
      rw [BitVec.toNat_setWidth, BitVec.toNat_ofNat, BitVec.toNat_ofNat]
      omega
    rw [stringsFrom, hlength, hwidth, hfront, BitVec.ofNat_add]
  have hcursor : (hdr + BitVec.ofNat 32 (front.length + 2)).toNat =
      hdr.toNat + (front.length + 2) := toNat_add_ofNat (by omega)
  have hend : (smbiosEnd m ep).toNat = hdr.toNat + (x.encode ++ rest).length := by omega
  have hskip := skipStrings_stringSet hbytes (by rw [hencode]) hchain hlast hend
    ((smbiosEnd m ep).toNat - (hdr + BitVec.ofNat 32 (front.length + 2)).toNat) 2 le_rfl (by omega)
    (by omega)
  have hstop : stringsEnd m (smbiosEnd m ep) hdr = hdr + BitVec.ofNat 32 x.encode.length := by
    rw [stringsEnd, hfrom, hskip, hx, hsetLen, hfront]
  have hheader : ¬ hdr + 4#32 > smbiosEnd m ep := by
    have hnext : (hdr + 4#32).toNat = hdr.toNat + 4 := toNat_add_ofNat (by omega)
    rw [gt_iff_lt, BitVec.lt_def, hnext]
    omega
  rw [smbiosNext_eq, if_neg hep, if_neg hhdr, if_neg hheader, hstop]

namespace TableAt

variable {m : Mem} {ep q : BitVec 32} {table : List SmbiosStructure}

/-- The end pointer `smbios_next` computes. -/
theorem end_toNat (h : TableAt m ep q table) :
    (q + BitVec.ofNat 32 (loadLE m (epStructureTableLength ep) 2)).toNat =
      q.toNat + (encodeTable table).length := by
  rw [h.length, toNat_add_ofNat h.end_lt]

theorem start (h : TableAt m ep q table) :
    BitVec.ofNat 32 (loadLE m (epStructureTableAddress ep) 4) = q := by
  rw [h.address, BitVec.ofNat_toNat, BitVec.setWidth_eq]

/-- No address of the table is NULL. -/
theorem address_ne (h : TableAt m ep q table) {k : Nat} (hk : k ≤ (encodeTable table).length) :
    ¬ q + BitVec.ofNat 32 k = 0#32 := by
  have hpos := h.start_pos
  have hlt := h.end_lt
  have haddr : (q + BitVec.ofNat 32 k).toNat = q.toNat + k := toNat_add_ofNat (by omega)
  intro e
  rw [e] at haddr
  change 0 = _ at haddr
  omega

/-- The bytes of a structure in the table. -/
theorem load_structure (h : TableAt m ep q table) {before after : List SmbiosStructure}
    {x : SmbiosStructure} (ht : table = before ++ x :: after) :
    load m (q + BitVec.ofNat 32 (encodeTable before).length) x.encode.length = x.encode := by
  have hbytes : encodeTable table = encodeTable before ++ x.encode ++ encodeTable after := by
    rw [ht, encodeTable_append, encodeTable_cons, List.append_assoc]
  have hlen : (encodeTable table).length =
      (encodeTable before).length + x.encode.length + (encodeTable after).length := by
    rw [hbytes, List.length_append, List.length_append]
  rw [← slice_load m q (by omega : _ + x.encode.length ≤ (encodeTable table).length), h.bytes,
    hbytes]
  exact slice_append_middle (encodeTable before) x.encode (encodeTable after)

/-- The type and the length byte of a structure in the table. -/
theorem header (h : TableAt m ep q table) {before : List SmbiosStructure} {x : SmbiosStructure}
    {after : List SmbiosStructure} (ht : table = before ++ x :: after) :
    m (q + BitVec.ofNat 32 (encodeTable before).length) = x.type ∧
      m (q + BitVec.ofNat 32 (encodeTable before).length + 1#32) = BitVec.ofNat 8 x.length := by
  have hpos := x.two_le_stringSet
  have hx := x.length_encode
  have hload := h.load_structure ht
  have hzero := mem_of_load hload (by omega : 0 < x.encode.length)
  have hone := mem_of_load hload (by omega : 1 < x.encode.length)
  rw [BitVec.add_zero] at hzero
  exact ⟨hzero, hone⟩

/-- A cursor between two structures is returned, a cursor at the end is not. -/
theorem headerOrNull_apply (h : TableAt m ep q table) {before after : List SmbiosStructure}
    (ht : table = before ++ after) {end_ : BitVec 32}
    (hend : end_.toNat = q.toNat + (encodeTable table).length) :
    headerOrNull m end_ (q + BitVec.ofNat 32 (encodeTable before).length) =
      if after = [] then 0#32 else q + BitVec.ofNat 32 (encodeTable before).length := by
  have hlt := h.end_lt
  have hlen : (encodeTable table).length =
      (encodeTable before).length + (encodeTable after).length := by
    rw [ht, encodeTable_append, List.length_append]
  have hptr : (q + BitVec.ofNat 32 (encodeTable before).length).toNat =
      q.toNat + (encodeTable before).length := toNat_add_ofNat (by omega)
  cases after with
  | nil =>
    have hnil : (encodeTable []).length = 0 := rfl
    rw [if_pos rfl, headerOrNull, if_pos]
    left
    rw [ge_iff_le, BitVec.le_def, hptr, hend]
    omega
  | cons x after =>
    have hpos := x.two_le_stringSet
    have hx := x.length_encode
    have hsize : x.length < 256 := x.formatted_lt
    have hfour : 4 ≤ x.length := by
      unfold SmbiosStructure.length
      omega
    have hcons : (encodeTable (x :: after)).length =
        x.encode.length + (encodeTable after).length := by
      rw [encodeTable_cons, List.length_append]
    have hheader : (q + BitVec.ofNat 32 (encodeTable before).length + 4#32).toNat =
        q.toNat + (encodeTable before).length + 4 := by
      rw [BitVec.toNat_add, hptr]
      exact Nat.mod_eq_of_lt (by change _ + 4 < _; omega)
    have hformatted : (q + BitVec.ofNat 32 (encodeTable before).length +
        (BitVec.ofNat 8 x.length).setWidth 32).toNat =
        q.toNat + (encodeTable before).length + x.length := by
      have hwidth : ((BitVec.ofNat 8 x.length).setWidth 32).toNat = x.length := by
        rw [BitVec.toNat_setWidth, BitVec.toNat_ofNat]
        omega
      rw [BitVec.toNat_add, hptr, hwidth, Nat.mod_eq_of_lt (by omega)]
    rw [headerOrNull, (h.header ht).2, if_neg, if_neg (List.cons_ne_nil _ _)]
    simp only [ge_iff_le, BitVec.le_def, hptr, hheader, hformatted, hend]
    omega

/-- The first call returns the start of the table. -/
theorem smbiosNext_null (h : TableAt m ep q table) :
    smbiosNext m ep 0#32 = if table = [] then 0#32 else q := by
  have hstart := h.headerOrNull_apply (List.nil_append table).symm h.end_toNat
  rw [cursor_nil] at hstart
  rw [smbiosNext, if_neg h.ep_ne]
  simp only [h.start, if_true]
  exact hstart

/-- A cursor in the table, and the cursor behind the structure there. -/
theorem cursor_cons (q : BitVec 32) (before : List SmbiosStructure) (x : SmbiosStructure) :
    q + BitVec.ofNat 32 (encodeTable (before ++ [x])).length =
      q + BitVec.ofNat 32 (encodeTable before).length + BitVec.ofNat 32 x.encode.length := by
  have hlen : (encodeTable (before ++ [x])).length =
      (encodeTable before).length + x.encode.length := by
    rw [encodeTable_append, List.length_append, encodeTable_cons, List.length_append]
    rfl
  rw [hlen, BitVec.ofNat_add, BitVec.add_assoc]

/-- A call with the address of a structure returns the next one. -/
theorem smbiosNext_apply (h : TableAt m ep q table) {before : List SmbiosStructure}
    {x : SmbiosStructure} {after : List SmbiosStructure} (ht : table = before ++ x :: after) :
    smbiosNext m ep (q + BitVec.ofNat 32 (encodeTable before).length) =
      if after = [] then 0#32
      else q + BitVec.ofNat 32 (encodeTable (before ++ [x])).length := by
  have hlt := h.end_lt
  have hend : (smbiosEnd m ep).toNat = q.toNat + (encodeTable table).length := by
    rw [smbiosEnd, smbiosStart, h.start]
    exact h.end_toNat
  have hlen : (encodeTable table).length =
      (encodeTable before).length + (x.encode.length + (encodeTable after).length) := by
    rw [ht, encodeTable_append, List.length_append, encodeTable_cons, List.length_append]
  have hhdr : (q + BitVec.ofNat 32 (encodeTable before).length).toNat =
      q.toNat + (encodeTable before).length := toNat_add_ofNat (by omega)
  have hnext := smbiosNext_structure h.ep_ne (h.address_ne (by omega)) (h.load_structure ht)
    (by omega)
  rw [← cursor_cons] at hnext
  rw [hnext]
  exact h.headerOrNull_apply (by rw [ht, List.append_assoc]; rfl) hend

/-- From a structure on, the walk goes through the rest of the table. -/
theorem walk_after (h : TableAt m ep q table) (after : List SmbiosStructure) :
    ∀ {before : List SmbiosStructure} {x : SmbiosStructure}, table = before ++ x :: after →
      SmbiosWalk m ep (q + BitVec.ofNat 32 (encodeTable before).length)
        (structureAddresses (q + BitVec.ofNat 32 (encodeTable (before ++ [x])).length) after) := by
  induction after with
  | nil =>
    intro before x ht
    exact SmbiosWalk.done ((h.smbiosNext_apply ht).trans (if_pos rfl))
  | cons y after ih =>
    intro before x ht
    have ht' : table = (before ++ [x]) ++ y :: after := by rw [ht, List.append_assoc]; rfl
    have hne := h.address_ne (k := (encodeTable (before ++ [x])).length) (by
      rw [ht', encodeTable_append _ (y :: after), List.length_append]
      omega)
    have hrest := ih ht'
    rw [cursor_cons q (before ++ [x]) y] at hrest
    exact SmbiosWalk.next ((h.smbiosNext_apply ht).trans (if_neg (List.cons_ne_nil _ _))) hne hrest

/-- From NULL on, the walk returns each structure of the table. -/
theorem walk (h : TableAt m ep q table) : SmbiosWalk m ep 0#32 (structureAddresses q table) := by
  have hfirst := h.smbiosNext_null
  cases table with
  | nil => exact SmbiosWalk.done (hfirst.trans (if_pos rfl))
  | cons x after =>
    have hne := h.address_ne (Nat.zero_le _)
    have hrest := h.walk_after after (List.nil_append (x :: after)).symm
    rw [cursor_cons, cursor_nil] at hrest
    rw [BitVec.add_zero] at hne
    exact SmbiosWalk.next (hfirst.trans (if_neg (List.cons_ne_nil _ _))) hne hrest

/-- The type bytes at the addresses of the structures. -/
theorem all_types (h : TableAt m ep q table) (p : Byte → Bool) (after : List SmbiosStructure) :
    ∀ {before : List SmbiosStructure}, table = before ++ after →
      (structureAddresses (q + BitVec.ofNat 32 (encodeTable before).length) after).all
        (fun hdr => p (m hdr)) = after.all fun x => p x.type := by
  induction after with
  | nil => exact fun _ => rfl
  | cons x after ih =>
    intro before ht
    have hrest := ih (ht.trans (List.append_assoc before [x] after).symm)
    rw [cursor_cons] at hrest
    rw [structureAddresses, List.all_cons, List.all_cons, (h.header ht).1, hrest]

/-- The loop finds out whether the table has a BIOS information structure. -/
theorem needT0_null (h : TableAt m ep q table) {n : Nat} (hn : table.length < n) :
    needT0 m ep n 0#32 = table.all fun y => y.type ≠ 0#8 := by
  have htypes := h.all_types (fun b => decide (b ≠ 0#8)) table (List.nil_append table).symm
  rw [cursor_nil] at htypes
  rw [h.walk.needT0_eq (by rwa [length_structureAddresses])]
  exact htypes

/-- Each address is that of its structure. -/
theorem structures_at (h : TableAt m ep q table) (after : List SmbiosStructure) :
    ∀ {before : List SmbiosStructure}, table = before ++ after →
      List.Forall₂ (fun hdr x => load m hdr x.encode.length = x.encode)
        (structureAddresses (q + BitVec.ofNat 32 (encodeTable before).length) after) after := by
  induction after with
  | nil => exact fun _ => List.Forall₂.nil
  | cons x after ih =>
    intro before ht
    have hrest := ih (ht.trans (List.append_assoc before [x] after).symm)
    rw [cursor_cons] at hrest
    exact List.Forall₂.cons (h.load_structure ht) hrest

end TableAt

/-- Structures lie above the address where their sequence starts. -/
theorem le_of_mem_structureAddresses (table : List SmbiosStructure) :
    ∀ {q : BitVec 32}, q.toNat + (encodeTable table).length < 2 ^ 32 →
      ∀ hdr ∈ structureAddresses q table, q ≤ hdr := by
  induction table with
  | nil =>
    intro q _ hdr hmem
    cases hmem
  | cons x table ih =>
    intro q hlt hdr hmem
    rw [encodeTable_cons, List.length_append] at hlt
    have hnext : (q + BitVec.ofNat 32 x.encode.length).toNat = q.toNat + x.encode.length :=
      toNat_add_ofNat (by omega)
    rcases List.mem_cons.mp hmem with rfl | hrest
    · exact BitVec.le_refl _
    · have hle := ih (by omega) hdr hrest
      rw [BitVec.le_def, hnext] at hle
      rw [BitVec.le_def]
      omega

theorem pairwise_structureAddresses (table : List SmbiosStructure) :
    ∀ {q : BitVec 32}, q.toNat + (encodeTable table).length < 2 ^ 32 →
      (structureAddresses q table).Pairwise (· < ·) := by
  induction table with
  | nil => exact fun _ => List.Pairwise.nil
  | cons x table ih =>
    intro q hlt
    rw [encodeTable_cons, List.length_append] at hlt
    have hpos := x.two_le_stringSet
    have hsize := x.length_encode
    have hnext : (q + BitVec.ofNat 32 x.encode.length).toNat = q.toNat + x.encode.length :=
      toNat_add_ofNat (by omega)
    refine List.Pairwise.cons (fun hdr hmem => ?_) (ih (by omega))
    have hle := le_of_mem_structureAddresses table (by omega) hdr hmem
    rw [BitVec.le_def, hnext] at hle
    rw [BitVec.lt_def]
    omega

/-- On a table that is a sequence of structures the walk is exact: the calls
return the address of each structure, in order and each once, and then NULL. -/
theorem smbiosNext_wellFormed {m : Mem} {ep q : BitVec 32} {table : List SmbiosStructure}
    (h : TableAt m ep q table) :
    SmbiosWalk m ep 0#32 (structureAddresses q table) ∧
      (structureAddresses q table).Pairwise (· < ·) ∧
      List.Forall₂ (fun hdr x => load m hdr x.encode.length = x.encode)
        (structureAddresses q table) table := by
  have hat := h.structures_at table (List.nil_append table).symm
  rw [cursor_nil] at hat
  exact ⟨h.walk, pairwise_structureAddresses table h.end_lt, hat⟩

/-- A structure with no strings and the least formatted area, behind one with
two strings. -/
def twoStructures : List SmbiosStructure :=
  [{ type := 1#8, handle := 0x100#16, formatted := [0#8, 0#8, 2#8]
     strings := [[0x41#8], [0x42#8, 0x43#8]], formatted_lt := by decide, strings_ok := by decide },
   { type := 127#8, handle := 0#16, formatted := [], strings := []
     formatted_lt := by decide, strings_ok := by decide }]

/-- The two structures at 0xf0020, and an entry point at 0xf0000. -/
def twoStructuresMem : Mem :=
  store (store (store (fun _ => 0xff#8) 0xf0020#32 (encodeTable twoStructures))
    (epStructureTableLength 0xf0000#32) (toLE 2 (encodeTable twoStructures).length))
    (epStructureTableAddress 0xf0000#32) (toLE 4 0xf0020)

theorem smbiosNext_wellFormed_two :
    SmbiosWalk twoStructuresMem 0xf0000#32 0#32 (structureAddresses 0xf0020#32 twoStructures) ∧
      (structureAddresses 0xf0020#32 twoStructures).Pairwise (· < ·) ∧
      List.Forall₂ (fun hdr x => load twoStructuresMem hdr x.encode.length = x.encode)
        (structureAddresses 0xf0020#32 twoStructures) twoStructures := by
  have hat : TableAt twoStructuresMem 0xf0000#32 0xf0020#32 twoStructures :=
    { ep_ne := by decide
      address := by decide +kernel
      length := by decide +kernel
      start_pos := by decide
      end_lt := by decide +kernel
      bytes := by decide +kernel }
  exact smbiosNext_wellFormed hat

end Qboot
