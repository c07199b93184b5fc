import Qboot.E820

/-!
The memory map as sets of addresses. The fixed entries take the first MiB, the
low RAM entry of the file gives it up, and everything else stays as the file
has it; if the file's entries do not overlap, neither do those of the map.
-/

namespace Qboot

open Bytes ByteMemory

/-! ### Address ranges -/

/-- The addresses of an entry. -/
def E820Entry.range (e : E820Entry) : Set Nat :=
  Set.Ico e.addr.toNat (e.addr.toNat + e.size.toNat)

/-- No address lies in two entries. -/
def NoOverlap (es : List E820Entry) : Prop := es.Pairwise fun e f => Disjoint e.range f.range

/-- The addresses of all entries. -/
def covered (es : List E820Entry) : Set Nat := {x | ∃ e ∈ es, x ∈ e.range}

theorem covered_append (es fs : List E820Entry) : covered (es ++ fs) = covered es ∪ covered fs := by
  ext x
  simp only [covered, List.mem_append, Set.mem_ofPred_eq, Set.mem_union, or_and_right, exists_or]

theorem covered_cons (e : E820Entry) (es : List E820Entry) :
    covered (e :: es) = e.range ∪ covered es := by
  ext x
  simp only [covered, List.mem_cons, Set.mem_ofPred_eq, Set.mem_union, exists_eq_or_imp]

/-- What the entries below an address cover does not meet what those above it
cover. -/
theorem disjoint_of_split {e f : E820Entry} {x : Nat} (he : e.range ⊆ Set.Iio x)
    (hf : f.range ⊆ Set.Ici x) : Disjoint e.range f.range :=
  Set.disjoint_of_subset he hf (Set.Iio_disjoint_Ici le_rfl)

/-! ### The low RAM entry -/

/-- Low RAM without its first MiB. -/
def highRam (low : E820Entry) : E820Entry :=
  { low with addr := 0x100000#64, size := low.size - 0x100000#64 }

/-- The entries of a file that do not overlap, with one entry at address zero,
of at least 1 MiB and less than 4 GiB. -/
structure LowRam (before : List E820Entry) (low : E820Entry) (after : List E820Entry) : Prop where
  noOverlap : NoOverlap (before ++ low :: after)
  zero : low.addr = 0#64
  unique : ∀ e ∈ before ++ after, e.addr ≠ 0#64
  large : 0x100000 ≤ low.size.toNat
  narrow : low.size.toNat < 2 ^ 32

namespace LowRam

variable {before after : List E820Entry} {low : E820Entry}

theorem rebaseFirst_eq (h : LowRam before low after) (later : List E820Entry) :
    rebaseFirst (before ++ low :: after ++ later) = before ++ highRam low :: after ++ later := by
  have hne : ∀ e ∈ before, e.addr ≠ 0#64 := fun e he => h.unique e (by simp [he])
  have hzero := h.zero
  clear h
  induction before with
  | nil =>
    rw [List.nil_append, List.nil_append, List.cons_append, rebaseFirst, if_pos hzero]
    rfl
  | cons e before ih =>
    have hrest := ih fun f hf => hne f (by simp [hf])
    simp only [List.cons_append] at hrest ⊢
    rw [rebaseFirst, if_neg (hne e (by simp)), hrest]

theorem lowmemAfter_eq (h : LowRam before low after) (old : BitVec 32) (later : List E820Entry) :
    lowmemAfter old (before ++ low :: after ++ later) = low.size.setWidth 32 := by
  have hne : ∀ e ∈ before, e.addr ≠ 0#64 := fun e he => h.unique e (by simp [he])
  have hzero := h.zero
  clear h
  induction before with
  | nil => rw [List.nil_append, List.cons_append, lowmemAfter, if_pos hzero]
  | cons e before ih =>
    have hrest := ih fun f hf => hne f (by simp [hf])
    simp only [List.cons_append] at hrest ⊢
    rw [lowmemAfter, if_neg (hne e (by simp)), hrest]

theorem low_range (h : LowRam before low after) : low.range = Set.Ico 0 low.size.toNat := by
  rw [E820Entry.range, h.zero]
  simp

theorem high_range (h : LowRam before low after) :
    (highRam low).range = Set.Ico 0x100000 low.size.toNat := by
  have hle : 0x100000#64 ≤ low.size := h.large
  have hsize : (low.size - 0x100000#64).toNat = low.size.toNat - 0x100000 :=
    BitVec.toNat_sub_of_le hle
  have hlarge := h.large
  change Set.Ico 0x100000 (0x100000 + (low.size - 0x100000#64).toNat) = _
  rw [hsize, Nat.add_sub_cancel' hlarge]

/-- The low RAM entry meets no other entry. -/
theorem low_disjoint (h : LowRam before low after) {e : E820Entry} (he : e ∈ before ++ after) :
    Disjoint e.range low.range := by
  obtain ⟨-, htail, hcross⟩ := List.pairwise_append.mp h.noOverlap
  obtain ⟨hlow, -⟩ := List.pairwise_cons.mp htail
  obtain he | he := List.mem_append.mp he
  · exact hcross e he low (by simp)
  · exact (hlow e he).symm

/-- The other entries lie above low RAM. -/
theorem above (h : LowRam before low after) {e : E820Entry} (he : e ∈ before ++ after) :
    e.range ⊆ Set.Ici low.size.toNat := by
  intro x hx
  have hdisj := h.low_disjoint he
  rw [h.low_range] at hdisj
  by_contra hbelow
  rw [Set.mem_Ici, not_le] at hbelow
  exact Set.disjoint_left.mp hdisj hx ⟨Nat.zero_le x, hbelow⟩

/-- All entries of the file lie above the first MiB, once it is given up. -/
theorem written_above (h : LowRam before low after) {e : E820Entry}
    (he : e ∈ before ++ highRam low :: after) : e.range ⊆ Set.Ici 0x100000 := by
  have hother : ∀ f ∈ before ++ after, f.range ⊆ Set.Ici 0x100000 := fun f hf =>
    (h.above hf).trans (Set.Ici_subset_Ici.mpr h.large)
  obtain hb | ha := List.mem_append.mp he
  · exact hother e (by simp [hb])
  · obtain rfl | ha := List.mem_cons.mp ha
    · rw [h.high_range]
      exact Set.Ico_subset_Ici_self
    · exact hother e (by simp [ha])

theorem high_subset (h : LowRam before low after) : (highRam low).range ⊆ low.range := by
  rw [h.high_range, h.low_range]
  exact Set.Ico_subset_Ico_left (by decide)

/-- The entries still do not overlap. -/
theorem written_noOverlap (h : LowRam before low after) :
    NoOverlap (before ++ highRam low :: after) := by
  obtain ⟨hbefore, htail, hcross⟩ := List.pairwise_append.mp h.noOverlap
  obtain ⟨hlow, hafter⟩ := List.pairwise_cons.mp htail
  refine List.pairwise_append.mpr ⟨hbefore, List.pairwise_cons.mpr ⟨?_, hafter⟩, ?_⟩
  · intro e he
    exact Set.disjoint_of_subset_left h.high_subset (hlow e he)
  · intro e he f hf
    obtain rfl | hf := List.mem_cons.mp hf
    · exact Set.disjoint_of_subset_right h.high_subset (hcross e he low (by simp))
    · exact hcross e he f (by simp [hf])

/-- The file's entries lose the first MiB and nothing else. -/
theorem covered_eq (h : LowRam before low after) :
    covered (before ++ highRam low :: after) =
      covered (before ++ low :: after) \ Set.Ico 0 0x100000 := by
  have hrest : covered before ∪ covered after = covered (before ++ after) :=
    (covered_append before after).symm
  have habove : covered (before ++ after) \ Set.Ico 0 0x100000 = covered (before ++ after) := by
    refine sdiff_eq_left.mpr (Set.disjoint_left.mpr ?_)
    rintro x ⟨e, he, hx⟩ ⟨-, hlt⟩
    have hge : low.size.toNat ≤ x := h.above he hx
    have hlarge := h.large
    omega
  have hhigh : low.range \ Set.Ico 0 0x100000 = (highRam low).range := by
    rw [h.low_range, h.high_range]
    ext x
    simp only [Set.mem_sdiff, Set.mem_Ico]
    omega
  rw [covered_append, covered_cons, covered_append, covered_cons, Set.union_left_comm, hrest,
    Set.union_left_comm, hrest, Set.union_sdiff_distrib, hhigh, habove]

end LowRam

/-! ### The whole map -/

theorem fixedEntries_noOverlap : NoOverlap fixedEntries := by
  simp [NoOverlap, fixedEntries, E820Entry.range, Set.Ico_disjoint_Ico]

theorem fixedEntries_below {e : E820Entry} (he : e ∈ fixedEntries) :
    e.range ⊆ Set.Iio 0x100000 := by
  simp only [fixedEntries, List.mem_cons, List.not_mem_nil, or_false] at he
  obtain rfl | rfl | rfl | rfl := he <;>
    exact Set.Ico_subset_Iio_self.trans (Set.Iio_subset_Iio (by decide))

theorem mmconfig_above : mmconfigEntry.range ⊆ Set.Ici 0x100000 :=
  Set.Ico_subset_Ici_self.trans (Set.Ici_subset_Ici.mpr (by decide))

/-- With entries that do not meet the MMCONFIG window, nothing in the map
overlaps. -/
theorem LowRam.map_noOverlap {before after : List E820Entry} {low : E820Entry}
    (h : LowRam before low after) {mmconfig : Bool}
    (hmm : mmconfig = true → ∀ e ∈ before ++ low :: after, Disjoint e.range mmconfigEntry.range) :
    NoOverlap (fixedEntries ++ mmconfigEntries mmconfig ++ (before ++ highRam low :: after)) := by
  have hextra : ∀ e ∈ mmconfigEntries mmconfig, mmconfig = true ∧ e = mmconfigEntry := by
    intro e he
    cases mmconfig with
    | true => exact ⟨rfl, List.mem_singleton.mp he⟩
    | false => cases he
  refine List.pairwise_append.mpr ⟨List.pairwise_append.mpr ⟨fixedEntries_noOverlap, ?_, ?_⟩,
    h.written_noOverlap, ?_⟩
  · cases mmconfig with
    | true => exact List.pairwise_singleton _ _
    | false => exact List.Pairwise.nil
  · intro e he f hf
    obtain ⟨-, rfl⟩ := hextra f hf
    exact disjoint_of_split (fixedEntries_below he) mmconfig_above
  · intro e he f hf
    obtain he | he := List.mem_append.mp he
    · exact disjoint_of_split (fixedEntries_below he) (h.written_above hf)
    · obtain ⟨htrue, rfl⟩ := hextra e he
      have hfile := hmm htrue
      obtain hb | ha := List.mem_append.mp hf
      · exact (hfile f (by simp [hb])).symm
      · obtain rfl | ha := List.mem_cons.mp ha
        · exact (Set.disjoint_of_subset_left h.high_subset (hfile low (by simp))).symm
        · exact (hfile f (by simp [ha])).symm

/-- The map `extract_e820` writes has no overlaps and accounts for all of the
file's memory but the first MiB. -/
theorem extractE820_accounts {s : Firmware} {i : Nat}
    (hfile : fileIndex s.files e820Name = some i) (hmult : e820EntryBytes ∣ s.fileSize i)
    (hfit : 104 + s.fileSize i < 2 ^ 32) {before after : List E820Entry} {low : E820Entry}
    (hentries : entriesOf (s.fileContent i) = before ++ low :: after)
    (hlow : LowRam before low after)
    (hmm : s.haveMmconfig = true →
      ∀ e ∈ before ++ low :: after, Disjoint e.range mmconfigEntry.range) :
    ∃ s' high, extractE820 s = .ok () s' ∧
      let written := fixedEntries ++ mmconfigEntries s.haveMmconfig ++ (before ++ high :: after)
      load s'.mem (mapEntry s'.e820 0) (e820EntryBytes * written.length) =
        encodeEntries written ∧
      NoOverlap written ∧
      s'.lowmem.toNat = low.size.toNat ∧
      high.range = Set.Ico 0x100000 low.size.toNat ∧ high.type = low.type ∧
      covered (before ++ high :: after) =
        covered (before ++ low :: after) \ Set.Ico 0 0x100000 := by
  have hlt := fileIndex_lt hfile
  have hcontent := length_fileContent hlt
  have hbytes : e820EntryBytes = 20 := rfl
  obtain ⟨dev, hrun⟩ := extractE820_apply hfile hfit
  obtain ⟨later, hscanned⟩ := @e820Scanned_starts s (s.fileContent i) (by rwa [hcontent])
    (by rwa [hcontent])
  rw [hentries] at hscanned
  have hlen := length_e820Scanned s (s.fileContent i)
  have hmem := store_e820Final s (s.fileContent i) (by rwa [hcontent]) (by rwa [hcontent])
  rw [hscanned, hlow.rebaseFirst_eq, hcontent, ← List.append_assoc] at hmem
  rw [hscanned, hcontent] at hlen
  refine ⟨_, highRam low, hrun, ?_⟩
  intro written
  refine ⟨?_, hlow.map_noOverlap hmm, ?_, hlow.high_range, rfl, hlow.covered_eq⟩
  · have hhead : (toLE 4 (s.fileSize i / e820EntryBytes + 5)).length = 4 := length_toLE 4 _
    have hbound : (toLE 4 (s.fileSize i / e820EntryBytes + 5) ++
        (encodeEntries written ++ encodeEntries later)).length ≤ 2 ^ 32 := by
      simp only [List.length_append, List.length_cons] at hlen
      simp only [List.length_append, length_toLE, length_encodeEntries, written, List.length_cons,
        show fixedEntries.length = 4 from rfl, hbytes]
      rw [hbytes] at hlen
      omega
    have hin : 4 + e820EntryBytes * written.length ≤ (toLE 4 (s.fileSize i / e820EntryBytes + 5) ++
        (encodeEntries written ++ encodeEntries later)).length := by
      simp only [List.length_append, length_toLE, length_encodeEntries]
      omega
    have hload := load_store_inside s.mem (s.e820Block (s.fileSize i)).base hin hbound
    have hslice := slice_append_middle (toLE 4 (s.fileSize i / e820EntryBytes + 5))
      (encodeEntries written) (encodeEntries later)
    rw [hhead, length_encodeEntries, List.append_assoc] at hslice
    rw [hslice, ← encodeEntries_append] at hload
    change load (store (s.e820Filled (s.fileContent i)) _ (encodeEntries (rebaseFirst
      (s.e820Scanned (s.fileContent i))))) _ _ = _
    rw [hscanned, hlow.rebaseFirst_eq, hmem]
    exact hload
  · change (lowmemAfter s.lowmem (s.e820Scanned (s.fileContent i))).toNat = _
    rw [hscanned, hlow.lowmemAfter_eq, BitVec.toNat_setWidth, Nat.mod_eq_of_lt hlow.narrow]

/-- Memory from 4 GiB on, 2 GiB of low memory, and the flash. -/
def splitEntries : List E820Entry :=
  [{ addr := 0x100000000#64, size := 0x40000000#64, type := E820_RAM },
   { addr := 0#64, size := 0x80000000#64, type := E820_RAM },
   { addr := 0xfffc0000#64, size := 0x40000#64, type := E820_RESERVED }]

def splitMachine : Firmware :=
  { Firmware.initial { entry := fun _ => encodeEntries splitEntries, key := 0#16, pos := 0 }
      (fun _ => 0xaa#8) 0xf0000#32 0xf4000#32 with
    files := [{ size := 60#32, select := 0x20#16, name := paddedName e820Name }]
    haveMmconfig := true }

/-- Low memory is the second entry of the file. -/
theorem extractE820_accounts_split : ∃ s' high,
    extractE820 splitMachine = .ok () s' ∧ s'.lowmem.toNat = 0x80000000 ∧
      high.range = Set.Ico 0x100000 0x80000000 ∧
      let written := fixedEntries ++ [mmconfigEntry] ++
        (splitEntries.take 1 ++ high :: splitEntries.drop 2)
      load s'.mem (mapEntry s'.e820 0) (20 * 8) = encodeEntries written ∧ NoOverlap written := by
  have hentries : entriesOf (splitMachine.fileContent 0) = splitEntries.take 1 ++
      { addr := 0#64, size := 0x80000000#64, type := E820_RAM } :: splitEntries.drop 2 := by
    decide +kernel
  have hlow : LowRam (splitEntries.take 1)
      { addr := 0#64, size := 0x80000000#64, type := E820_RAM } (splitEntries.drop 2) := by
    refine ⟨?_, rfl, ?_, by decide, by decide⟩
    · simp [NoOverlap, splitEntries, E820Entry.range, Set.Ico_disjoint_Ico]
    · simp [splitEntries]
  obtain ⟨s', high, hrun, hload, hover, hlowmem, hrange, -, -⟩ := extractE820_accounts
    (s := splitMachine) (i := 0) (by decide +kernel) (by decide) (by decide) hentries hlow (by
      simp [splitEntries, E820Entry.range, mmconfigEntry, PCIE_MMCONFIG_BASE, PCIE_MMCONFIG_SIZE,
        Set.Ico_disjoint_Ico])
  exact ⟨s', high, hrun, hlowmem, hrange, hload, hover⟩

/-! ### A file that fills the address space -/

def hugeLow : E820Entry := { addr := 0#64, size := 0x100000#64, type := E820_RAM }

/-- One reserved byte above 4 GiB. -/
def hugeEntry (i : Nat) : E820Entry :=
  { addr := BitVec.ofNat 64 (2 ^ 32 + i), size := 1#64, type := E820_RESERVED }

def hugeEntries (n : Nat) : List E820Entry := (List.range n).map hugeEntry

section Huge

variable {n : Nat}

theorem length_hugeEntries : (hugeEntries n).length = n := by
  rw [hugeEntries, List.length_map, List.length_range]

theorem mem_hugeEntries {e : E820Entry} : e ∈ hugeEntries n ↔ ∃ i < n, hugeEntry i = e := by
  simp only [hugeEntries, List.mem_map, List.mem_range]

theorem hugeEntry_addr {i : Nat} (hi : i < 2 ^ 32) : (hugeEntry i).addr.toNat = 2 ^ 32 + i := by
  rw [hugeEntry, BitVec.toNat_ofNat, Nat.mod_eq_of_lt (by omega)]

theorem hugeEntry_range {i : Nat} (hi : i < 2 ^ 32) :
    (hugeEntry i).range = Set.Ico (2 ^ 32 + i) (2 ^ 32 + i + 1) := by
  rw [E820Entry.range, hugeEntry_addr hi]
  rfl

theorem hugeEntries_above (hn : n < 2 ^ 32) {e : E820Entry} (he : e ∈ hugeEntries n) :
    e.range ⊆ Set.Ici (2 ^ 32) := by
  obtain ⟨i, hi, rfl⟩ := mem_hugeEntries.mp he
  rw [hugeEntry_range (hi.trans hn)]
  exact Set.Ico_subset_Ici_self.trans (Set.Ici_subset_Ici.mpr (Nat.le_add_right _ _))

theorem huge_lowRam (hn : n < 2 ^ 32) : LowRam [] hugeLow (hugeEntries n) := by
  refine ⟨?_, rfl, ?_, by decide, by decide⟩
  · refine List.pairwise_cons.mpr ⟨fun e he => ?_, ?_⟩
    · have hlow : hugeLow.range = Set.Ico 0 0x100000 := rfl
      rw [hlow]
      exact Set.disjoint_of_subset (Set.Ico_subset_Iio_self.trans (Set.Iio_subset_Iio (by decide)))
        (hugeEntries_above hn he) (Set.Iio_disjoint_Ici le_rfl)
    · refine List.pairwise_map.mpr (List.pairwise_lt_range.imp_of_mem ?_)
      intro i j hi hj hij
      rw [hugeEntry_range ((List.mem_range.mp hi).trans hn),
        hugeEntry_range ((List.mem_range.mp hj).trans hn)]
      exact Set.disjoint_of_subset Set.Ico_subset_Iio_self Set.Ico_subset_Ici_self
        (Set.Iio_disjoint_Ici (by omega))
  · intro e he hzero
    obtain ⟨i, hi, rfl⟩ := mem_hugeEntries.mp he
    have haddr := hugeEntry_addr (hi.trans hn)
    rw [hzero, BitVec.toNat_zero] at haddr
    omega

theorem huge_mmconfig (hn : n < 2 ^ 32) :
    ∀ e ∈ [] ++ hugeLow :: hugeEntries n, Disjoint e.range mmconfigEntry.range := by
  intro e he
  have hbelow : mmconfigEntry.range ⊆ Set.Iio (2 ^ 32) :=
    Set.Ico_subset_Iio_self.trans (Set.Iio_subset_Iio (by decide))
  obtain rfl | he := List.mem_cons.mp he
  · exact disjoint_of_split Set.Ico_subset_Iio_self mmconfig_above
  · exact (Set.disjoint_of_subset hbelow (hugeEntries_above hn he)
      (Set.Iio_disjoint_Ici le_rfl)).symm

/-- The upper half of the size of an entry is zero. -/
theorem huge_slice {k : Nat} (hk : k < n) :
    slice (encodeEntries (hugeLow :: hugeEntries n)) (20 * (k + 1) + 12) 4 =
      [0#8, 0#8, 0#8, 0#8] := by
  have hlen : ∀ r ∈ (hugeLow :: hugeEntries n).map E820Entry.encode, r.length = 20 := by
    simp [e820EntryBytes]
  have hin : k + 1 < ((hugeLow :: hugeEntries n).map E820Entry.encode).length := by
    rw [List.length_map, List.length_cons, length_hugeEntries]
    omega
  have hrecord : slice (encodeEntries (hugeLow :: hugeEntries n)) (20 * (k + 1)) 20 =
      (hugeEntry k).encode := by
    have h := slice_flatten (by decide) hlen hin
    rw [← List.flatMap_def, List.getElem_map, List.getElem_cons_succ] at h
    refine h.trans ?_
    simp only [hugeEntries, List.getElem_map, List.getElem_range]
  have hsize : toLE 8 (hugeEntry k).size.toNat = [1#8, 0#8, 0#8, 0#8] ++ [0#8, 0#8, 0#8, 0#8] := by
    have hone : (hugeEntry k).size = 1#64 := rfl
    rw [hone]
    rfl
  have hpart := slice_append_middle (toLE 8 (hugeEntry k).addr.toNat ++ [1#8, 0#8, 0#8, 0#8])
    [0#8, 0#8, 0#8, 0#8] (toLE 4 (hugeEntry k).type.toNat)
  rw [List.length_append, length_toLE] at hpart
  rw [← slice_slice _ (show 12 + 4 ≤ 20 by decide), hrecord, E820Entry.encode, hsize,
    ← List.append_assoc]
  exact hpart

end Huge

/-- A Q35 machine with 1 MiB of memory and a file of `n + 1` entries. -/
def hugeMachine (n : Nat) : Firmware :=
  { Firmware.initial
      { entry := fun _ => encodeEntries (hugeLow :: hugeEntries n), key := 0#16, pos := 0 }
      (fun _ => 0#8) 0xf0000#32 0xf4000#32 with
    files := [{ size := BitVec.ofNat 32 (20 * (n + 1)), select := 0x20#16,
                name := paddedName e820Name }]
    haveMmconfig := true }

theorem hugeMachine_file (n : Nat) : fileIndex (hugeMachine n).files e820Name = some 0 := by
  have hname : filenamecmpFrom 55 e820Name (padTo 56 e820Name) = 0 := by decide +kernel
  simp [fileIndex, filenamecmp, hugeMachine, paddedName, List.findIdx?_cons, hname]

theorem hugeMachine_content {n : Nat} (hn : 20 * (n + 1) < 2 ^ 32) :
    (hugeMachine n).fileSize 0 = 20 * (n + 1) ∧
      (hugeMachine n).fileContent 0 = encodeEntries (hugeLow :: hugeEntries n) := by
  have hsize : (BitVec.ofNat 32 (20 * (n + 1))).toNat = 20 * (n + 1) := by
    rw [BitVec.toNat_ofNat, Nat.mod_eq_of_lt hn]
  have hlen : (encodeEntries (hugeLow :: hugeEntries n)).length = 20 * (n + 1) := by
    rw [length_encodeEntries, List.length_cons, length_hugeEntries]
    rfl
  have hall := entryBytes_all (encodeEntries (hugeLow :: hugeEntries n))
  rw [hlen] at hall
  refine ⟨hsize, Eq.trans ?_ hall⟩
  change entryBytes _ 0 (BitVec.ofNat 32 (20 * (n + 1))).toNat = _
  rw [hsize]
  rfl

/-- The end of a file of almost 4 GiB is written over the start of the map, so
the loop that looks for low RAM does not run. -/
theorem hugeMachine_lowmem {n : Nat} (hn : n = 214748363) :
    ∃ s', extractE820 (hugeMachine n) = .ok () s' ∧ s'.lowmem = 0#32 := by
  obtain ⟨hsize, hcontent⟩ := hugeMachine_content (n := n) (by omega)
  obtain ⟨dev, hrun⟩ := extractE820_loop (hugeMachine_file n)
  have hextra : (mmconfigEntries (hugeMachine n).haveMmconfig).length = 1 := rfl
  rw [hcontent, hextra] at hrun
  have hlen : (encodeEntries (hugeLow :: hugeEntries n)).length = 20 * (n + 1) := by
    rw [length_encodeEntries, List.length_cons, length_hugeEntries]
    rfl
  have hcount (m : Mem) (base : BitVec 32) :
      loadLE (store m (mapEntry base (4 + 1)) (encodeEntries (hugeLow :: hugeEntries n))) base 4 =
        0 := by
    have hbase : mapEntry base (4 + 1) + BitVec.ofNat 32 (20 * (214748358 + 1) + 12) = base := by
      have hwrap : BitVec.ofNat 32 (4 + e820EntryBytes * (4 + 1)) +
          BitVec.ofNat 32 (20 * (214748358 + 1) + 12) = 0#32 := by decide
      rw [mapEntry, BitVec.add_assoc, hwrap, BitVec.add_zero]
    have hload := load_store_inside m (mapEntry base (4 + 1))
      (show 20 * (214748358 + 1) + 12 + 4 ≤ _ by rw [hlen]; omega) (by rw [hlen]; omega)
    rw [hbase, huge_slice (by omega)] at hload
    rw [loadLE, hload]
    rfl
  rw [hcount] at hrun
  exact ⟨_, hrun, rfl⟩

/-- For a file that leaves no room for the rest of the map in the address
space, `lowmem` is not the size of low RAM. -/
theorem extractE820_accounts_huge :
    ∃ s : Firmware, ∃ before low after, fileIndex s.files e820Name = some 0 ∧
      entriesOf (s.fileContent 0) = before ++ low :: after ∧ LowRam before low after ∧
      (∀ e ∈ before ++ low :: after, Disjoint e.range mmconfigEntry.range) ∧
      ∃ s', extractE820 s = .ok () s' ∧ s'.lowmem.toNat ≠ low.size.toNat := by
  obtain ⟨n, hn⟩ : ∃ n, n = 214748363 := ⟨_, rfl⟩
  obtain ⟨s', hrun, hlowmem⟩ := hugeMachine_lowmem hn
  refine ⟨hugeMachine n, [], hugeLow, hugeEntries n, hugeMachine_file n, ?_,
    huge_lowRam (by omega), huge_mmconfig (by omega), s', hrun, ?_⟩
  · rw [(hugeMachine_content (n := n) (by omega)).2, entriesOf_encodeEntries, List.nil_append]
  · rw [hlowmem]
    decide

end Qboot
