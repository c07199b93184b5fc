import Qboot.FwCfg.Directory

/-!
Lookup by name over arbitrary name fields, with a NUL in the 56 bytes or
without one. The comparison runs to the end of the field, and at its last byte
it returns before it has looked whether the name ends there too.
-/

namespace Qboot

open Bytes ByteMemory

/-! ### What a lookup has to find -/

/-- The name that a field holds: its bytes up to the first NUL, or all of them. -/
def nameString (field : List Byte) : List Byte := field.takeWhile fun c => decide (c ≠ 0)

def FwCfgFile.nameString (f : FwCfgFile) : List Byte := Qboot.nameString f.name.toList

/-- `id` is the least index of a file with this name, and -1 when there is none. -/
def IsFileId (files : List FwCfgFile) (name : List Byte) (id : Int) : Prop :=
  (∃ (i : Nat) (h : i < files.length), id = i ∧ files[i].nameString = name ∧
    ∀ (j : Nat) (hj : j < i), files[j].nameString ≠ name) ∨
  (id = -1 ∧ ∀ f ∈ files, f.nameString ≠ name)

theorem nameString_nul (field : List Byte) : nameString (0 :: field) = [] :=
  List.takeWhile_cons_of_neg (by decide)

theorem nameString_cons {c : Byte} (h : c ≠ 0) (field : List Byte) :
    nameString (c :: field) = c :: nameString field :=
  List.takeWhile_cons_of_pos (by simpa using h)

theorem nameString_noNul {field : List Byte} (h : 0 ∉ field) : nameString field = field := by
  refine List.takeWhile_eq_self_iff.mpr fun c hc => decide_eq_true ?_
  rintro rfl
  exact h hc

/-- A name as long as its field leaves no room for a NUL. -/
theorem noNul_of_nameString {field : List Byte} (h : nameString field = field) : 0 ∉ field := by
  intro hmem
  have hkept := List.takeWhile_eq_self_iff.mp h 0 hmem
  simp at hkept

/-! ### The comparison -/

/-- The indexes of the name field that the loop of `filenamecmp` reads, from index
`i` on with `k + 1` bytes of the field left. The byte that ends the loop is read
once more for the difference, except when the field ends first. -/
def filenamecmpReads : Nat → Nat → List Byte → List Byte → List Nat
  | i, k, a, b =>
    if a.headD 0 = b.headD 0 then
      if a.headD 0 = 0 then [i, i]
      else
        match k with
        | 0 => [i]
        | k + 1 => i :: filenamecmpReads (i + 1) k a.tail b.tail
    else [i, i]

theorem filenamecmpReads_lt (k : Nat) :
    ∀ (i : Nat) (a b : List Byte), ∀ r ∈ filenamecmpReads i k a b, r < i + k + 1 := by
  induction k with
  | zero =>
    intro i a b r hr
    rw [filenamecmpReads] at hr
    split_ifs at hr <;> simp at hr <;> omega
  | succ k ih =>
    intro i a b r hr
    rw [filenamecmpReads] at hr
    split_ifs at hr
    · simp at hr
      omega
    · rcases List.mem_cons.mp hr with rfl | hrest
      · omega
      · have h := ih (i + 1) a.tail b.tail r hrest
        omega
    · simp at hr
      omega

/-- At the last byte of the field an equal byte is returned as it is. -/
theorem filenamecmpFrom_last {x : Byte} (h : ¬ x = 0) (a b : List Byte) :
    filenamecmpFrom 0 (x :: a) (x :: b) = x.toInt := by
  rw [filenamecmpFrom.eq_def]
  exact (if_pos rfl).trans (if_neg h)

theorem toInt_sub_ne_zero {x y : Byte} (h : ¬ x = y) : ¬ x.toInt - y.toInt = 0 := fun hzero =>
  h (BitVec.eq_of_toInt_eq (sub_eq_zero.mp hzero))

/-- The comparison finds the name of a field that holds a NUL, and nothing else. -/
theorem filenamecmpFrom_exact (after : List Byte) (k : Nat) :
    ∀ {a b : List Byte}, 0 ∉ a → b.length = k + 1 →
      (filenamecmpFrom k (a ++ 0 :: after) b = 0 ↔ 0 ∈ b ∧ a = nameString b) := by
  induction k with
  | zero =>
    intro a b ha hb
    obtain ⟨y, rfl⟩ := List.length_eq_one_iff.mp hb
    cases a with
    | nil =>
      by_cases hy : y = 0
      · subst hy
        exact iff_of_true (filenamecmpFrom_nul _ _ _) ⟨by simp, (nameString_nul _).symm⟩
      · rw [List.nil_append, filenamecmpFrom_of_ne _ _ _ fun h => hy h.symm]
        refine iff_of_false (toInt_sub_ne_zero fun h => hy h.symm) ?_
        rintro ⟨hmem, -⟩
        exact hy (List.mem_singleton.mp hmem).symm
    | cons x a =>
      obtain ⟨hx, -⟩ := not_or.mp (mt List.mem_cons.mpr ha)
      have hx' : ¬ x = 0 := fun h => hx h.symm
      rw [List.cons_append]
      by_cases hxy : x = y
      · subst hxy
        rw [filenamecmpFrom_last hx']
        refine iff_of_false (fun h => hx' (BitVec.eq_of_toInt_eq h)) ?_
        rintro ⟨hmem, -⟩
        exact hx (List.mem_singleton.mp hmem)
      · rw [filenamecmpFrom_of_ne _ _ _ hxy]
        refine iff_of_false (toInt_sub_ne_zero hxy) ?_
        rintro ⟨hmem, hname⟩
        obtain rfl := List.mem_singleton.mp hmem
        rw [nameString_nul] at hname
        cases hname
  | succ k ih =>
    intro a b ha hb
    cases b with
    | nil => cases hb
    | cons y b =>
      have hlen : b.length = k + 1 := by simpa using hb
      cases a with
      | nil =>
        by_cases hy : y = 0
        · subst hy
          exact iff_of_true (filenamecmpFrom_nul _ _ _) ⟨by simp, (nameString_nul _).symm⟩
        · rw [List.nil_append, filenamecmpFrom_of_ne _ _ _ fun h => hy h.symm,
            nameString_cons hy]
          refine iff_of_false (toInt_sub_ne_zero fun h => hy h.symm) ?_
          rintro ⟨-, hname⟩
          cases hname
      | cons x a =>
        obtain ⟨hx, ha⟩ := not_or.mp (mt List.mem_cons.mpr ha)
        have hx' : ¬ x = 0 := fun h => hx h.symm
        rw [List.cons_append]
        by_cases hxy : x = y
        · subst hxy
          rw [filenamecmpFrom_succ _ _ _ hx', nameString_cons hx', ih ha hlen, List.mem_cons,
            or_iff_right hx, List.cons_inj_right]
        · rw [filenamecmpFrom_of_ne _ _ _ hxy]
          refine iff_of_false (toInt_sub_ne_zero hxy) ?_
          rintro ⟨-, hname⟩
          by_cases hy : y = 0
          · rw [hy, nameString_nul] at hname
            cases hname
          · rw [nameString_cons hy] at hname
            exact hxy (List.cons.inj hname).1

theorem FwCfgFile.length_name (f : FwCfgFile) : f.name.toList.length = 56 := by
  simp

variable {name : List Byte}

theorem filenamecmp_eq_zero (hname : 0 ∉ name) (after : List Byte) (f : FwCfgFile) :
    filenamecmp (name ++ 0 :: after) f = 0 ↔ 0 ∈ f.name.toList ∧ name = f.nameString :=
  filenamecmpFrom_exact after 55 hname f.length_name

/-- The comparison is exact unless the name fills the field to its last byte. -/
theorem filenamecmp_exact (hname : 0 ∉ name) (after : List Byte) (f : FwCfgFile) :
    (filenamecmp (name ++ 0 :: after) f = 0 ↔ name = f.nameString) ↔ f.name.toList ≠ name := by
  rw [filenamecmp_eq_zero hname]
  constructor
  · rintro hexact rfl
    have hself : f.nameString = f.name.toList := nameString_noNul hname
    exact hname (hexact.mpr hself.symm).1
  · intro hne
    refine ⟨And.right, fun heq => ⟨?_, heq⟩⟩
    by_contra hfull
    exact hne ((nameString_noNul hfull).symm.trans heq.symm)

/-! ### The lookup -/

/-- The index found is that of the first file whose field holds a NUL and the name. -/
theorem fwCfgFileId_eq (hname : 0 ∉ name) (after : List Byte) (s : Firmware) :
    (∃ (i : Nat) (h : i < s.files.length), fwCfgFileId (name ++ 0 :: after) s = .ok i s ∧
      (0 ∈ s.files[i].name.toList ∧ name = s.files[i].nameString) ∧
      ∀ (j : Nat) (hj : j < i), ¬ (0 ∈ s.files[j].name.toList ∧ name = s.files[j].nameString)) ∨
    (fwCfgFileId (name ++ 0 :: after) s = .ok (-1) s ∧
      ∀ f ∈ s.files, ¬ (0 ∈ f.name.toList ∧ name = f.nameString)) := by
  cases hfound : fileIndex s.files (name ++ 0 :: after) with
  | some i =>
    obtain ⟨hlt, hmatch, hbefore⟩ := List.findIdx?_eq_some_iff_getElem.mp hfound
    refine Or.inl ⟨i, hlt, fwCfgFileId_some hfound, ?_, fun j hj => ?_⟩
    · exact (filenamecmp_eq_zero hname after _).mp (of_decide_eq_true hmatch)
    · have hno := hbefore j hj
      rw [decide_eq_true_iff] at hno
      exact fun h => hno ((filenamecmp_eq_zero hname after _).mpr h)
  | none =>
    refine Or.inr ⟨fwCfgFileId_none hfound, fun f hf h => ?_⟩
    have hno := List.findIdx?_eq_none_iff.mp hfound f hf
    rw [decide_eq_false_iff_not] at hno
    exact hno ((filenamecmp_eq_zero hname after f).mpr h)

/-- The lookup returns the least index of the name, unless some field is the name
without a NUL behind it: such a file is never found. -/
theorem fwCfgFileId_exact (hname : 0 ∉ name) (after : List Byte) (s : Firmware) :
    (∃ id, fwCfgFileId (name ++ 0 :: after) s = .ok id s ∧ IsFileId s.files name id) ↔
      ∀ f ∈ s.files, f.name.toList ≠ name := by
  have hfull {f : FwCfgFile} (h : f.name.toList = name) : f.nameString = name ∧
      0 ∉ f.name.toList := by
    subst h
    exact ⟨nameString_noNul hname, hname⟩
  -- a file with a field of 56 bytes that are the name can share the name only with its likes
  have hlikes {f g : FwCfgFile} (hf : f.name.toList = name) (hg : g.nameString = name) :
      0 ∉ g.name.toList := by
    refine noNul_of_nameString (List.IsPrefix.eq_of_length (List.takeWhile_prefix _) ?_)
    change g.nameString.length = g.name.toList.length
    rw [hg, ← hf, FwCfgFile.length_name, FwCfgFile.length_name]
  have hsplit := fwCfgFileId_eq hname after s
  constructor
  · rintro ⟨id, hrun, hid⟩ f hf hfield
    obtain ⟨hshown, -⟩ := hfull hfield
    rcases hid with ⟨i, hi, rfl, hsame, -⟩ | ⟨-, hnone⟩
    · rcases hsplit with ⟨i', hi', hrun', ⟨hnul, -⟩, -⟩ | ⟨hrun', -⟩
      · have hsameRun := hrun.symm.trans hrun'
        injection hsameRun with hindex
        obtain rfl : i = i' := by exact_mod_cast hindex
        exact hlikes hfield hsame hnul
      · have hsameRun := hrun.symm.trans hrun'
        injection hsameRun with hindex
        omega
    · exact hnone f hf hshown
  · intro hfields
    have hnul {f : FwCfgFile} (hf : f ∈ s.files) (hsame : name = f.nameString) :
        0 ∈ f.name.toList := by
      by_contra h
      exact hfields f hf ((nameString_noNul h).symm.trans hsame.symm)
    rcases hsplit with ⟨i, hi, hrun, ⟨-, hsame⟩, hbefore⟩ | ⟨hrun, hnone⟩
    · refine ⟨i, hrun, Or.inl ⟨i, hi, rfl, hsame.symm, fun j hj heq => ?_⟩⟩
      exact hbefore j hj ⟨hnul (List.getElem_mem _) heq.symm, heq.symm⟩
    · exact ⟨-1, hrun, Or.inr ⟨rfl, fun f hf heq => hnone f hf ⟨hnul hf heq.symm, heq.symm⟩⟩⟩

/-- A comparison with a NUL-terminated name reads only the 56 bytes of the field,
and it is exact except on a field that is the name without a NUL behind it. So
the lookup of the name is exact on a directory with no such field, and on no
other. -/
theorem nameLookup_exact_iff (hname : 0 ∉ name) (after : List Byte) :
    (∀ f : FwCfgFile,
      ((filenamecmp (name ++ 0 :: after) f = 0 ↔ name = f.nameString) ∧
        ∀ r ∈ filenamecmpReads 0 55 (name ++ 0 :: after) f.name.toList, r < 56) ↔
      f.name.toList ≠ name) ∧
    ∀ s : Firmware,
      (∃ id, fwCfgFileId (name ++ 0 :: after) s = .ok id s ∧ IsFileId s.files name id) ↔
      ∀ f ∈ s.files, f.name.toList ≠ name := by
  refine ⟨fun f => ?_, fwCfgFileId_exact hname after⟩
  rw [← filenamecmp_exact hname after f]
  exact and_iff_left (filenamecmpReads_lt 55 0 _ _)

/-- A field of 56 letters with no NUL. -/
def fullField : FwCfgFile where
  size := 7#32
  select := 0x20#16
  name := Vector.replicate 56 65#8

def fullDirectory : Firmware :=
  { Firmware.initial { entry := fun _ => [], key := 0#16, pos := 0 } (fun _ => 0#8)
      0xf0000#32 0xf4000#32 with files := [fullField] }

theorem nameLookup_exact_short :
    ∃ id, fwCfgFileId ([65#8] ++ 0 :: []) fullDirectory = .ok id fullDirectory ∧
      IsFileId fullDirectory.files [65#8] id :=
  ((nameLookup_exact_iff (by decide) []).2 fullDirectory).mpr (by decide)

/-- The file whose name fills its field is not found under that name. -/
theorem fullField_not_found :
    0 ∉ List.replicate 56 65#8 ∧ fullField.nameString = List.replicate 56 65#8 ∧
      filenamecmp (List.replicate 56 65#8 ++ [0]) fullField ≠ 0 ∧
      fwCfgFileId (List.replicate 56 65#8 ++ [0]) fullDirectory = .ok (-1) fullDirectory ∧
      ¬ IsFileId fullDirectory.files (List.replicate 56 65#8) (-1) := by
  have hname : fullField.nameString = List.replicate 56 65#8 := by decide +kernel
  refine ⟨by decide, hname, by decide +kernel, fwCfgFileId_none (by decide +kernel), ?_⟩
  rintro (⟨i, hi, h, -⟩ | ⟨-, hnone⟩)
  · omega
  · exact hnone fullField (List.mem_singleton_self _) hname

end Qboot
