import Qboot.Lib.Bytes

/-!
SMBIOS structures as byte strings. A structure is a header, the rest of its
formatted area, and a set of strings that ends in two NULs in a row; no two
NULs follow each other before that.
-/

namespace Qboot

open Bytes

/-- One structure of a table. The formatted area includes the four header
bytes in its length byte. -/
structure SmbiosStructure where
  type : Byte
  handle : BitVec 16
  formatted : List Byte
  strings : List (List Byte)
  formatted_lt : formatted.length + 4 < 256
  strings_ok : ∀ t ∈ strings, t ≠ [] ∧ 0#8 ∉ t

/-- Strings with their NULs, one after the other. -/
def nulTerminated (strings : List (List Byte)) : List Byte :=
  strings.flatMap fun t => t ++ [0#8]

/-- The string set of a structure. -/
def SmbiosStructure.stringSet (x : SmbiosStructure) : List Byte :=
  if x.strings = [] then [0#8, 0#8] else nulTerminated x.strings ++ [0#8]

/-- The length byte of the header. -/
def SmbiosStructure.length (x : SmbiosStructure) : Nat := x.formatted.length + 4

def SmbiosStructure.encode (x : SmbiosStructure) : List Byte :=
  [x.type, BitVec.ofNat 8 x.length] ++ toLE 2 x.handle.toNat ++ x.formatted ++ x.stringSet

/-- The bytes of a table. -/
def encodeTable (table : List SmbiosStructure) : List Byte :=
  table.flatMap SmbiosStructure.encode

/-- The size of the largest structure. -/
def maxStructureSize (table : List SmbiosStructure) : Nat :=
  (table.map fun x => x.encode.length).foldr max 0

/-- Two bytes in a row are not both NUL. -/
abbrev NoDoubleNul (bs : List Byte) : Prop :=
  List.IsChain (fun a b : Byte => ¬ (a = 0#8 ∧ b = 0#8)) bs

theorem noDoubleNul_of_notMem {bs : List Byte} (h : 0#8 ∉ bs) : NoDoubleNul bs := by
  induction bs with
  | nil => exact List.IsChain.nil
  | cons b bs ih =>
    have hb : b ≠ 0#8 := fun e => h (by simp [e])
    have htail := ih fun hin => h (by simp [hin])
    cases bs with
    | nil => exact List.IsChain.singleton b
    | cons c bs => exact List.IsChain.cons_cons (fun e => hb e.1) htail

/-- A string set begins with a byte other than NUL, if it has a string. -/
theorem head_nulTerminated {strings : List (List Byte)}
    (h : ∀ t ∈ strings, t ≠ [] ∧ 0#8 ∉ t) : ∀ b ∈ (nulTerminated strings).head?, b ≠ 0#8 := by
  cases strings with
  | nil => simp [nulTerminated]
  | cons t strings =>
    obtain ⟨hne, hnot⟩ := h t (by simp)
    cases t with
    | nil => exact absurd rfl hne
    | cons c t =>
      rintro b hb rfl
      have hc : c = 0#8 := by simpa [nulTerminated] using hb
      exact hnot (by simp [hc])

/-- Strings that are not empty keep their NULs apart. -/
theorem noDoubleNul_nulTerminated {strings : List (List Byte)}
    (h : ∀ t ∈ strings, t ≠ [] ∧ 0#8 ∉ t) : NoDoubleNul (nulTerminated strings) := by
  induction strings with
  | nil => exact List.IsChain.nil
  | cons t strings ih =>
    have hrest : ∀ u ∈ strings, u ≠ [] ∧ 0#8 ∉ u := fun u hu => h u (by simp [hu])
    obtain ⟨hne, hnot⟩ := h t (by simp)
    have hfirst : NoDoubleNul (t ++ [0#8]) := by
      refine List.isChain_append.mpr
        ⟨noDoubleNul_of_notMem hnot, List.IsChain.singleton _, fun x hx y _ hxy => ?_⟩
      exact hnot (hxy.1 ▸ List.mem_of_getLast? hx)
    have hsplit : nulTerminated (t :: strings) = (t ++ [0#8]) ++ nulTerminated strings := rfl
    rw [hsplit]
    exact List.isChain_append.mpr
      ⟨hfirst, ih hrest, fun x _ y hy hxy => head_nulTerminated hrest y hy hxy.2⟩

/-- A string set ends with its only two NULs in a row. -/
theorem SmbiosStructure.stringSet_eq (x : SmbiosStructure) :
    ∃ body, x.stringSet = body ++ [0#8] ∧ NoDoubleNul body ∧ body.getLast? = some 0#8 := by
  unfold SmbiosStructure.stringSet
  split
  · exact ⟨[0#8], rfl, List.IsChain.singleton _, rfl⟩
  · rename_i hne
    refine ⟨nulTerminated x.strings, rfl, noDoubleNul_nulTerminated x.strings_ok, ?_⟩
    obtain ⟨front, last, hlast⟩ := List.eq_nil_or_concat x.strings |>.resolve_left hne
    rw [hlast, nulTerminated, List.concat_eq_append, List.flatMap_append]
    simp

@[simp] theorem SmbiosStructure.length_encode (x : SmbiosStructure) :
    x.encode.length = x.length + x.stringSet.length := by
  simp only [SmbiosStructure.encode, SmbiosStructure.length, List.length_append, length_toLE,
    List.length_cons, List.length_nil]
  omega

theorem SmbiosStructure.two_le_stringSet (x : SmbiosStructure) : 2 ≤ x.stringSet.length := by
  obtain ⟨body, hset, -, hlast⟩ := x.stringSet_eq
  have hne : body ≠ [] := by
    rintro rfl
    cases hlast
  have hpos := List.length_pos_iff.mpr hne
  rw [hset, List.length_append, List.length_singleton]
  omega

/-- The first two NULs in a row behind the formatted area end the structure. -/
theorem SmbiosStructure.doubleNul_encode (x : SmbiosStructure) {k : Nat} (hk : x.length ≤ k) :
    x.encode[k]? = some 0#8 ∧ x.encode[k + 1]? = some 0#8 ↔ k + 2 = x.encode.length := by
  obtain ⟨body, hset, hchain, hlast⟩ := x.stringSet_eq
  obtain ⟨j, rfl⟩ : ∃ j, k = x.length + j := ⟨k - x.length, by omega⟩
  have hlen : x.encode.length = x.length + (body.length + 1) := by
    rw [x.length_encode, hset, List.length_append, List.length_singleton]
  have hfront : ([x.type, BitVec.ofNat 8 x.length] ++ toLE 2 x.handle.toNat ++
      x.formatted).length = x.length := by
    simp only [List.length_append, length_toLE, List.length_cons, List.length_nil,
      SmbiosStructure.length]
    omega
  have hget (i : Nat) : x.encode[x.length + i]? = (body ++ [0#8])[i]? := by
    rw [SmbiosStructure.encode, hset, List.getElem?_append_right (by omega), hfront,
      Nat.add_sub_cancel_left]
  have hbody (i : Nat) (hi : i < body.length) : (body ++ [0#8])[i]? = some body[i] := by
    rw [List.getElem?_append_left hi, List.getElem?_eq_getElem hi]
  have hzero : (body ++ [0#8])[body.length]? = some 0#8 := by simp
  rw [Nat.add_assoc, hget, hget, hlen]
  rcases Nat.lt_trichotomy (j + 1) body.length with hlt | heq | hgt
  · have hpair := List.isChain_iff_getElem.mp hchain j hlt
    rw [hbody j (by omega), hbody (j + 1) hlt]
    simp only [Option.some.injEq]
    exact iff_of_false hpair (by omega)
  · have hend : body[j]? = some 0#8 := by
      rw [← hlast, List.getLast?_eq_getElem?]
      congr 1
      omega
    rw [List.getElem?_append_left (by omega), hend, heq, hzero]
    exact iff_of_true ⟨rfl, rfl⟩ (by omega)
  · have hpast : (body ++ [0#8])[j + 1]? = none := by
      rw [List.getElem?_eq_none_iff, List.length_append, List.length_singleton]
      omega
    rw [hpast]
    refine iff_of_false (fun h => ?_) (by omega)
    cases h.2

theorem encodeTable_cons (x : SmbiosStructure) (table : List SmbiosStructure) :
    encodeTable (x :: table) = x.encode ++ encodeTable table := rfl

theorem encodeTable_append (table rest : List SmbiosStructure) :
    encodeTable (table ++ rest) = encodeTable table ++ encodeTable rest := List.flatMap_append

end Qboot
