import Qboot.Lib.Bytes

/-!
Byte memories with `w`-bit addresses. A block is a start address and a byte
count; the position of an address in the block is the modular distance from
the start, so a block may run past the top of the address space and continue
at address zero. The lemmas describe how stores compose, what a load sees of
a store, and when two blocks do not meet.
-/

namespace ByteMemory

open Bytes

variable {w : Nat}

abbrev Memory (w : Nat) := BitVec w → Byte

/-- Position of address `a` in a block that starts at `p`. -/
def offset (p a : BitVec w) : Nat := (a - p).toNat

/-- `a` is one of the `n` addresses from `p` on. -/
abbrev Within (p : BitVec w) (n : Nat) (a : BitVec w) : Prop := offset p a < n

/-- Write the bytes `bs` at `p`, `p + 1`, and so on. -/
def store (m : Memory w) (p : BitVec w) (bs : List Byte) : Memory w :=
  fun a => bs.getD (offset p a) (m a)

/-- The `n` bytes from `p` on. -/
def load (m : Memory w) (p : BitVec w) (n : Nat) : List Byte :=
  (List.range n).map fun i => m (p + BitVec.ofNat w i)

theorem offset_lt (p a : BitVec w) : offset p a < 2 ^ w := (a - p).isLt

@[simp] theorem offset_self (p : BitVec w) : offset p p = 0 := by
  simp [offset]

theorem offset_add (p : BitVec w) {i : Nat} (hi : i < 2 ^ w) :
    offset p (p + BitVec.ofNat w i) = i := by
  have hsub : p + BitVec.ofNat w i - p = BitVec.ofNat w i := by ring
  rw [offset, hsub, BitVec.toNat_ofNat, Nat.mod_eq_of_lt hi]

theorem add_offset (p a : BitVec w) : p + BitVec.ofNat w (offset p a) = a := by
  rw [offset, BitVec.ofNat_toNat, BitVec.setWidth_eq]
  ring

/-- Moving the start of a block forward by `k` lowers positions by `k`. -/
theorem offset_shift {p a : BitVec w} {k : Nat} (hk : k ≤ offset p a) :
    offset (p + BitVec.ofNat w k) a = offset p a - k := by
  have hlt : k < 2 ^ w := lt_of_le_of_lt hk (offset_lt p a)
  have hsub : a - (p + BitVec.ofNat w k) = (a - p) - BitVec.ofNat w k := by ring
  have hle : BitVec.ofNat w k ≤ a - p := by
    rw [BitVec.le_def, BitVec.toNat_ofNat, Nat.mod_eq_of_lt hlt]
    exact hk
  rw [offset, hsub, BitVec.toNat_sub_of_le hle, BitVec.toNat_ofNat, Nat.mod_eq_of_lt hlt]
  rfl

/-- An address before position `k` is at the far end of the block that starts
at position `k`. -/
theorem offset_shift_before {p a : BitVec w} {k : Nat} (hk : offset p a < k) (hlt : k < 2 ^ w) :
    offset (p + BitVec.ofNat w k) a = 2 ^ w - (k - offset p a) := by
  have hsub : a - (p + BitVec.ofNat w k) = (a - p) - BitVec.ofNat w k := by ring
  have hmod : BitVec.toNat (BitVec.ofNat w k) = k := by
    rw [BitVec.toNat_ofNat, Nat.mod_eq_of_lt hlt]
  rw [offset, hsub, BitVec.toNat_sub, hmod]
  change (2 ^ w - k + offset p a) % 2 ^ w = _
  rw [Nat.mod_eq_of_lt (by omega)]
  omega

theorem within_shift {p a : BitVec w} {k n : Nat} (hkn : k + n ≤ 2 ^ w) (hn : 0 < n) :
    Within (p + BitVec.ofNat w k) n a ↔ k ≤ offset p a ∧ offset p a < k + n := by
  unfold Within
  by_cases hk : k ≤ offset p a
  · rw [offset_shift hk]
    omega
  · rw [offset_shift_before (by omega) (by omega)]
    omega

/-- A block that does not pass the top of the address space is an interval. -/
theorem within_iff {p a : BitVec w} {n : Nat} (h : p.toNat + n ≤ 2 ^ w) :
    Within p n a ↔ p.toNat ≤ a.toNat ∧ a.toNat < p.toNat + n := by
  have ha := a.isLt
  unfold Within offset
  by_cases hle : p ≤ a
  · rw [BitVec.toNat_sub_of_le hle]
    have : p.toNat ≤ a.toNat := hle
    omega
  · have hlt : a.toNat < p.toNat := by
      simpa [BitVec.le_def] using hle
    rw [BitVec.toNat_sub, Nat.mod_eq_of_lt (by omega)]
    omega

/-! ### Stores -/

@[simp] theorem store_nil (m : Memory w) (p : BitVec w) : store m p [] = m := by
  funext a
  simp [store]

theorem store_of_not_within (m : Memory w) {p a : BitVec w} {bs : List Byte}
    (h : ¬ Within p bs.length a) : store m p bs a = m a := by
  simp only [Within, not_lt] at h
  simp [store, List.getElem?_eq_none h]

theorem store_of_within (m : Memory w) {p a : BitVec w} {bs : List Byte}
    (h : offset p a < bs.length) : store m p bs a = bs[offset p a] := by
  simp only [store, List.getD_eq_getElem?_getD, List.getElem?_eq_getElem h, Option.getD_some]

/-- A store of one byte changes one address. -/
theorem store_singleton (m : Memory w) (p : BitVec w) (v : Byte) :
    store m p [v] = Function.update m p v := by
  funext a
  by_cases ha : a = p
  · subst ha
    rw [Function.update_self, store, offset_self]
    rfl
  · have hout : ¬ Within p [v].length a := by
      intro hin
      have hzero : offset p a = 0 := Nat.lt_one_iff.mp hin
      have hback := add_offset p a
      rw [hzero, BitVec.add_zero] at hback
      exact ha hback.symm
    rw [Function.update_of_ne ha, store_of_not_within m hout]

/-- A store only depends on the old memory outside its block. -/
theorem store_congr {m m' : Memory w} {p : BitVec w} {bs : List Byte}
    (h : ∀ a, ¬ Within p bs.length a → m a = m' a) : store m p bs = store m' p bs := by
  funext a
  by_cases ha : Within p bs.length a
  · rw [store_of_within m ha, store_of_within m' ha]
  · rw [store_of_not_within m ha, store_of_not_within m' ha, h a ha]

/-- A store that covers an earlier one hides it. -/
theorem store_store_cover (m : Memory w) (p : BitVec w) {bs cs : List Byte}
    (h : bs.length ≤ cs.length) : store (store m p bs) p cs = store m p cs :=
  store_congr fun _ ha => store_of_not_within m fun hb => ha (lt_of_lt_of_le hb h)

/-- A second store inside the block of the first one changes its bytes. -/
theorem store_store_inside (m : Memory w) (p : BitVec w) {bs cs : List Byte} {k : Nat}
    (hk : k + cs.length ≤ bs.length) (hlen : bs.length ≤ 2 ^ w) :
    store (store m p bs) (p + BitVec.ofNat w k) cs =
      store m p (patch bs k cs) := by
  rcases Nat.eq_zero_or_pos cs.length with hzero | hpos
  · have hnil : cs = [] := List.length_eq_zero_iff.mp hzero
    subst hnil
    simp
  have hlength : (patch bs k cs).length = bs.length := length_patch hk
  funext a
  by_cases hin : Within (p + BitVec.ofNat w k) cs.length a
  · obtain ⟨hlo, hhi⟩ := (within_shift (by omega) hpos).mp hin
    have hall : Within p (patch bs k cs).length a := by omega
    rw [store_of_within _ hin, store_of_within _ hall, getElem_patch_inside hk hlo hhi]
    simp only [offset_shift hlo]
  · have hout : offset p a < k ∨ k + cs.length ≤ offset p a := by
      by_contra hboth
      exact hin ((within_shift (by omega) hpos).mpr (by omega))
    rw [store_of_not_within _ hin]
    by_cases hb : Within p bs.length a
    · have hall : Within p (patch bs k cs).length a := by omega
      rw [store_of_within _ hb, store_of_within _ hall, getElem_patch_outside hk hout hb hall]
    · have hall : ¬ Within p (patch bs k cs).length a := by omega
      rw [store_of_not_within _ hb, store_of_not_within _ hall]

/-- A store that starts where another one ends continues its block. -/
theorem store_append (m : Memory w) (p : BitVec w) {bs cs : List Byte}
    (hlen : bs.length + cs.length ≤ 2 ^ w) :
    store (store m p bs) (p + BitVec.ofNat w bs.length) cs = store m p (bs ++ cs) := by
  rcases Nat.eq_zero_or_pos cs.length with hzero | hpos
  · have hnil : cs = [] := List.length_eq_zero_iff.mp hzero
    subst hnil
    simp
  funext a
  by_cases hin : Within (p + BitVec.ofNat w bs.length) cs.length a
  · obtain ⟨hlo, hhi⟩ := (within_shift (by omega) hpos).mp hin
    have hall : Within p (bs ++ cs).length a := by
      simp only [Within, List.length_append]
      omega
    rw [store_of_within _ hin, store_of_within _ hall, List.getElem_append_right hlo]
    simp only [offset_shift hlo]
  · have hpos' : ¬ (bs.length ≤ offset p a ∧ offset p a < bs.length + cs.length) := fun h =>
      hin ((within_shift (by omega) hpos).mpr h)
    rw [store_of_not_within _ hin]
    by_cases hb : Within p bs.length a
    · have hoff : offset p a < bs.length := hb
      have hall : Within p (bs ++ cs).length a := by
        simp only [Within, List.length_append]
        omega
      rw [store_of_within _ hb, store_of_within _ hall, List.getElem_append_left hoff]
    · have hoff : ¬ offset p a < bs.length := hb
      have hall : ¬ Within p (bs ++ cs).length a := by
        simp only [Within, List.length_append]
        omega
      rw [store_of_not_within _ hb, store_of_not_within _ hall]

/-- A byte, and the following bytes behind it. -/
theorem store_cons (m : Memory w) (p : BitVec w) (b : Byte) {bs : List Byte}
    (hlen : bs.length + 1 ≤ 2 ^ w) :
    store (store m p [b]) (p + 1#w) bs = store m p (b :: bs) := by
  have hall : [b].length + bs.length ≤ 2 ^ w := by
    rw [List.length_singleton]
    omega
  exact store_append m p hall

/-- Stores to blocks that do not meet commute. -/
theorem store_comm (m : Memory w) {p q : BitVec w} {bs cs : List Byte}
    (h : ∀ a, Within p bs.length a → ¬ Within q cs.length a) :
    store (store m p bs) q cs = store (store m q cs) p bs := by
  funext a
  by_cases hq : Within q cs.length a
  · have hp : ¬ Within p bs.length a := fun hp => h a hp hq
    rw [store_of_within _ hq, store_of_not_within _ hp, store_of_within _ hq]
  · rw [store_of_not_within _ hq]
    by_cases hp : Within p bs.length a
    · rw [store_of_within _ hp, store_of_within _ hp]
    · rw [store_of_not_within _ hp, store_of_not_within _ hp, store_of_not_within _ hq]

/-! ### Fields of a block -/

/-- Stores of fields, each at its position in the block at `p`. -/
def storeFields (m : Memory w) (p : BitVec w) (fields : List (Nat × List Byte)) : Memory w :=
  fields.foldl (fun m f => store m (p + BitVec.ofNat w f.1) f.2) m

/-- A byte string with fields replaced one after the other. -/
def patchFields (bs : List Byte) (fields : List (Nat × List Byte)) : List Byte :=
  fields.foldl (fun bs f => patch bs f.1 f.2) bs

theorem length_patchFields {bs : List Byte} {fields : List (Nat × List Byte)}
    (h : ∀ f ∈ fields, f.1 + f.2.length ≤ bs.length) :
    (patchFields bs fields).length = bs.length := by
  induction fields generalizing bs with
  | nil => rfl
  | cons f fields ih =>
    have hf := h f (by simp)
    have hlen : (patch bs f.1 f.2).length = bs.length := length_patch hf
    have hrest : ∀ g ∈ fields, g.1 + g.2.length ≤ (patch bs f.1 f.2).length := by
      intro g hg
      rw [hlen]
      exact h g (by simp [hg])
    exact (ih hrest).trans hlen

theorem patchFields_append_left {bs cs : List Byte} {fields : List (Nat × List Byte)}
    (h : ∀ f ∈ fields, f.1 + f.2.length ≤ bs.length) :
    patchFields (bs ++ cs) fields = patchFields bs fields ++ cs := by
  induction fields generalizing bs with
  | nil => rfl
  | cons f fields ih =>
    have hf := h f (by simp)
    have hlen : (patch bs f.1 f.2).length = bs.length := length_patch hf
    have hrest := ih fun g hg => hlen.symm ▸ h g (by simp [hg])
    rw [← patch_append_left hf] at hrest
    exact hrest

/-- Fields in the first or in the second of two byte strings change each of them
on its own. -/
theorem patchFields_append_split {bs cs : List Byte} {fields : List (Nat × List Byte)}
    (h : ∀ f ∈ fields, f.1 < bs.length → f.1 + f.2.length ≤ bs.length) :
    patchFields (bs ++ cs) fields =
      patchFields bs (fields.filter fun f => f.1 < bs.length) ++
        patchFields cs ((fields.filter fun f => ¬ f.1 < bs.length).map
          fun f => (f.1 - bs.length, f.2)) := by
  induction fields generalizing bs cs with
  | nil => rfl
  | cons f fields ih =>
    by_cases hf : f.1 < bs.length
    · have hin := h f (by simp) hf
      have hlen : (patch bs f.1 f.2).length = bs.length := length_patch hin
      have hrest := @ih (patch bs f.1 f.2) cs fun g hg => hlen ▸ h g (by simp [hg])
      rw [hlen, ← patch_append_left hin] at hrest
      rw [List.filter_cons_of_pos (by simpa using hf), List.filter_cons_of_neg (by simpa using hf)]
      exact hrest
    · have hsplit : patch (bs ++ cs) f.1 f.2 = bs ++ patch cs (f.1 - bs.length) f.2 := by
        have hright := patch_append_right bs cs f.2 (f.1 - bs.length)
        rwa [Nat.add_sub_of_le (by omega)] at hright
      have hrest := @ih bs (patch cs (f.1 - bs.length) f.2)
        fun g hg => h g (by simp [hg])
      rw [← hsplit] at hrest
      rw [List.filter_cons_of_neg (by simpa using hf), List.filter_cons_of_pos (by simpa using hf)]
      exact hrest

/-- Fields one behind the other, from position `k` on. -/
def consecutive : Nat → List (List Byte) → List (Nat × List Byte)
  | _, [] => []
  | k, cs :: rest => (k, cs) :: consecutive (k + cs.length) rest

/-- Fields one behind the other fill a byte string from its start. -/
theorem patchFields_consecutive (rest : List (List Byte)) :
    ∀ {as bs : List Byte}, rest.flatten.length ≤ bs.length →
      patchFields (as ++ bs) (consecutive as.length rest) =
        as ++ rest.flatten ++ bs.drop rest.flatten.length := by
  induction rest with
  | nil =>
    intro as bs _
    simp [consecutive, patchFields]
  | cons cs rest ih =>
    intro as bs hlen
    rw [List.flatten_cons, List.length_append] at hlen
    have hfirst : patch (as ++ bs) as.length cs = (as ++ cs) ++ bs.drop cs.length := by
      have hright := patch_append_right as bs cs 0
      rw [Nat.add_zero] at hright
      rw [hright, patch]
      simp
    have hrest := @ih (as ++ cs) (bs.drop cs.length) (by
      rw [List.length_drop]
      omega)
    rw [List.length_append, ← hfirst, List.drop_drop] at hrest
    rw [List.flatten_cons, List.length_append, ← List.append_assoc as]
    exact hrest

/-- Fields that cover a byte string, apart from positions where two strings
agree, leave nothing of their difference. -/
theorem patchFields_of_cover {bs cs : List Byte} {fields : List (Nat × List Byte)}
    (hlen : bs.length = cs.length) (hin : ∀ f ∈ fields, f.1 + f.2.length ≤ bs.length)
    (h : ∀ i, (hb : i < bs.length) → (hc : i < cs.length) →
      (∃ f ∈ fields, f.1 ≤ i ∧ i < f.1 + f.2.length) ∨ bs[i] = cs[i]) :
    patchFields bs fields = patchFields cs fields := by
  induction fields generalizing bs cs with
  | nil =>
    refine List.ext_getElem hlen fun i hb hc => ?_
    obtain ⟨f, hf, -⟩ | hsame := h i hb hc
    · cases hf
    · exact hsame
  | cons f fields ih =>
    have hf := hin f (by simp)
    have hf' := hlen ▸ hf
    have hbs : (patch bs f.1 f.2).length = bs.length := length_patch hf
    have hcs : (patch cs f.1 f.2).length = cs.length := length_patch hf'
    refine ih (by rw [hbs, hcs, hlen]) (fun g hg => hbs ▸ hin g (by simp [hg])) fun i hb hc => ?_
    have hib : i < bs.length := hbs ▸ hb
    have hic : i < cs.length := hcs ▸ hc
    by_cases hfi : f.1 ≤ i ∧ i < f.1 + f.2.length
    · right
      rw [getElem_patch_inside hf hfi.1 hfi.2, getElem_patch_inside hf' hfi.1 hfi.2]
    · obtain ⟨g, hg, hgi⟩ | hsame := h i hib hic
      · obtain rfl | hg := List.mem_cons.mp hg
        · exact absurd hgi hfi
        · exact Or.inl ⟨g, hg, hgi⟩
      · right
        rw [getElem_patch_outside hf (by omega) hib, getElem_patch_outside hf' (by omega) hic,
          hsame]

theorem patchFields_append (bs : List Byte) (fields fields' : List (Nat × List Byte)) :
    patchFields bs (fields ++ fields') = patchFields (patchFields bs fields) fields' :=
  List.foldl_append

/-- A position outside all fields keeps its byte. -/
theorem getElem_patchFields_outside {bs : List Byte} {fields : List (Nat × List Byte)}
    (h : ∀ f ∈ fields, f.1 + f.2.length ≤ bs.length) {i : Nat}
    (hout : ∀ f ∈ fields, i < f.1 ∨ f.1 + f.2.length ≤ i) (hi : i < bs.length)
    (hi' : i < (patchFields bs fields).length) : (patchFields bs fields)[i] = bs[i] := by
  induction fields generalizing bs with
  | nil => rfl
  | cons f fields ih =>
    have hf := h f (by simp)
    have hlen : (patch bs f.1 f.2).length = bs.length := length_patch hf
    have hrest := ih (fun g hg => hlen ▸ h g (by simp [hg])) (fun g hg => hout g (by simp [hg]))
      (hlen ▸ hi) hi'
    exact hrest.trans (getElem_patch_outside hf (hout f (by simp)) hi _)

theorem slice_patchFields_outside {bs : List Byte} {fields : List (Nat × List Byte)} {k n : Nat}
    (h : ∀ f ∈ fields, f.1 + f.2.length ≤ bs.length)
    (hout : ∀ f ∈ fields, k + n ≤ f.1 ∨ f.1 + f.2.length ≤ k) (hn : k + n ≤ bs.length) :
    slice (patchFields bs fields) k n = slice bs k n := by
  induction fields generalizing bs with
  | nil => rfl
  | cons f fields ih =>
    have hf := h f (by simp)
    have hlen : (patch bs f.1 f.2).length = bs.length := length_patch hf
    have hrest := ih (fun g hg => hlen ▸ h g (by simp [hg])) (fun g hg => hout g (by simp [hg]))
      (hlen ▸ hn)
    exact hrest.trans (slice_patch_outside hf (hout f (by simp)) hn)

/-- Replacing the same fields again changes nothing. -/
theorem patchFields_patchFields {bs : List Byte} {fields : List (Nat × List Byte)}
    (h : ∀ f ∈ fields, f.1 + f.2.length ≤ bs.length) :
    patchFields (patchFields bs fields) fields = patchFields bs fields := by
  have hlen := length_patchFields h
  refine patchFields_of_cover hlen (fun f hf => hlen.symm ▸ h f hf) fun i hb hc => ?_
  by_cases hout : ∀ f ∈ fields, i < f.1 ∨ f.1 + f.2.length ≤ i
  · exact Or.inr (getElem_patchFields_outside h hout hc hb)
  · left
    push Not at hout
    exact hout

/-- A field that no later one touches is found in the patched bytes. -/
theorem slice_patchFields_self {bs cs : List Byte} {fields later : List (Nat × List Byte)} {k : Nat}
    (h : ∀ f ∈ fields ++ (k, cs) :: later, f.1 + f.2.length ≤ bs.length)
    (hout : ∀ f ∈ later, k + cs.length ≤ f.1 ∨ f.1 + f.2.length ≤ k) :
    slice (patchFields bs (fields ++ (k, cs) :: later)) k cs.length = cs := by
  have hlen : (patchFields bs fields).length = bs.length :=
    length_patchFields fun f hf => h f (by simp [hf])
  have hk : k + cs.length ≤ (patchFields bs fields).length := hlen ▸ h (k, cs) (by simp)
  have hpatch : (patch (patchFields bs fields) k cs).length = bs.length :=
    (length_patch hk).trans hlen
  rw [patchFields_append]
  have hbeside := @slice_patchFields_outside (patch (patchFields bs fields) k cs) later k cs.length
    (fun f hf => hpatch ▸ h f (by simp [hf])) hout (by rw [hpatch]; exact hlen ▸ hk)
  exact hbeside.trans (slice_patch_self hk)

/-- Writing fields into a stored block is storing the patched block. -/
theorem storeFields_store (m : Memory w) (p : BitVec w) {bs : List Byte}
    {fields : List (Nat × List Byte)} (h : ∀ f ∈ fields, f.1 + f.2.length ≤ bs.length)
    (hlen : bs.length ≤ 2 ^ w) :
    storeFields (store m p bs) p fields = store m p (patchFields bs fields) := by
  induction fields generalizing bs with
  | nil => rfl
  | cons f fields ih =>
    have hf := h f (by simp)
    have hpatch : (patch bs f.1 f.2).length = bs.length := length_patch hf
    have hrest : ∀ g ∈ fields, g.1 + g.2.length ≤ (patch bs f.1 f.2).length := by
      intro g hg
      rw [hpatch]
      exact h g (by simp [hg])
    have hstep := ih hrest (by rwa [hpatch])
    rw [← store_store_inside m p hf hlen] at hstep
    exact hstep

/-! ### Loads -/

@[simp] theorem length_load (m : Memory w) (p : BitVec w) (n : Nat) :
    (load m p n).length = n := by
  simp [load]

@[simp] theorem load_zero (m : Memory w) (p : BitVec w) : load m p 0 = [] := rfl

theorem getElem_load (m : Memory w) (p : BitVec w) {n i : Nat} (h : i < (load m p n).length) :
    (load m p n)[i] = m (p + BitVec.ofNat w i) := by
  simp [load]

theorem load_append (m : Memory w) (p : BitVec w) (n k : Nat) :
    load m p (n + k) = load m p n ++ load m (p + BitVec.ofNat w n) k := by
  simp only [load, List.range_add, List.map_append, List.map_map]
  congr 1
  apply List.map_congr_left
  intro i _
  simp only [Function.comp_apply, BitVec.ofNat_add]
  congr 1
  ring

/-- A slice of a loaded block is a load from inside the block. -/
theorem slice_load (m : Memory w) (p : BitVec w) {n k j : Nat} (h : k + j ≤ n) :
    slice (load m p n) k j = load m (p + BitVec.ofNat w k) j := by
  have hlen : k + j ≤ (load m p n).length := by simpa using h
  apply List.ext_getElem
  · rw [length_slice hlen, length_load]
  · intro i hi hi'
    have hadd : p + BitVec.ofNat w k + BitVec.ofNat w i = p + BitVec.ofNat w (k + i) := by
      rw [BitVec.ofNat_add]
      ring
    rw [getElem_load, hadd]
    simp [slice, getElem_load]

/-- A block of which one part is known to be replaced. -/
theorem load_patch {m : Memory w} {p : BitVec w} {bs cs : List Byte} {k n : Nat}
    (hlen : bs.length = k + cs.length + n) (hfront : load m p k = slice bs 0 k)
    (hmiddle : load m (p + BitVec.ofNat w k) cs.length = cs)
    (hback : load m (p + BitVec.ofNat w (k + cs.length)) n = slice bs (k + cs.length) n) :
    load m p bs.length = patch bs k cs := by
  have htake : slice bs 0 k = bs.take k := by rw [slice, List.drop_zero]
  have hdrop : slice bs (k + cs.length) n = bs.drop (k + cs.length) :=
    List.take_of_length_le (by rw [List.length_drop]; omega)
  rw [hlen, load_append, load_append, hfront, hmiddle, hback, patch, htake, hdrop]

/-- Storing what a block holds changes nothing. -/
theorem store_load (m : Memory w) (p : BitVec w) (n : Nat) : store m p (load m p n) = m := by
  funext a
  by_cases ha : Within p (load m p n).length a
  · rw [store_of_within _ ha, getElem_load, add_offset]
  · rw [store_of_not_within _ ha]

/-- Two memories that agree on a block load the same bytes from it. -/
theorem load_congr {m m' : Memory w} {p : BitVec w} {n : Nat} (hn : n ≤ 2 ^ w)
    (h : ∀ a, Within p n a → m a = m' a) : load m p n = load m' p n := by
  apply List.map_congr_left
  intro i hi
  have hlt : i < n := List.mem_range.mp hi
  apply h
  rw [Within, offset_add p (by omega)]
  exact hlt

/-- Loading any part of a stored block gives that part of the bytes. -/
theorem load_store_inside (m : Memory w) (p : BitVec w) {bs : List Byte} {k n : Nat}
    (hk : k + n ≤ bs.length) (hlen : bs.length ≤ 2 ^ w) :
    load (store m p bs) (p + BitVec.ofNat w k) n = slice bs k n := by
  apply List.ext_getElem
  · rw [length_load, length_slice hk]
  · intro i hi hi'
    have hin : i < n := by simpa using hi
    have hadd : p + BitVec.ofNat w k + BitVec.ofNat w i = p + BitVec.ofNat w (k + i) := by
      rw [BitVec.ofNat_add]
      ring
    rw [getElem_load, hadd]
    have hoff : offset p (p + BitVec.ofNat w (k + i)) = k + i := offset_add p (by omega)
    have hw : Within p bs.length (p + BitVec.ofNat w (k + i)) := by
      unfold Within
      omega
    rw [store_of_within _ hw]
    simp [hoff, slice]

/-- The end of a stored block. -/
theorem load_store_right (m : Memory w) (p : BitVec w) {bs cs : List Byte}
    (hlen : bs.length + cs.length ≤ 2 ^ w) :
    load (store m p (bs ++ cs)) (p + BitVec.ofNat w bs.length) cs.length = cs := by
  have hall : bs.length + cs.length ≤ (bs ++ cs).length := by rw [List.length_append]
  rw [load_store_inside m p hall (by rwa [List.length_append]), slice_append_right]

/-- A stored block is read back as it was written. -/
theorem load_store (m : Memory w) (p : BitVec w) {bs : List Byte} (hlen : bs.length ≤ 2 ^ w) :
    load (store m p bs) p bs.length = bs := by
  have hall : 0 + bs.length ≤ bs.length := by omega
  have h := load_store_inside m p hall hlen
  simpa [slice] using h

/-- A store outside a block does not change what is loaded from it. -/
theorem load_store_outside (m : Memory w) {p q : BitVec w} {bs : List Byte} {n : Nat}
    (hn : n ≤ 2 ^ w) (h : ∀ a, Within p n a → ¬ Within q bs.length a) :
    load (store m q bs) p n = load m p n :=
  load_congr hn fun a ha => store_of_not_within m (h a ha)

/-- Storing back a changed part of a block is a change of the loaded bytes. -/
theorem load_store_part (m : Memory w) (p : BitVec w) {bs : List Byte} {k n : Nat}
    (hk : k + bs.length ≤ n) (hn : n ≤ 2 ^ w) :
    load (store m (p + BitVec.ofNat w k) bs) p n =
      patch (load m p n) k bs := by
  conv_lhs => rw [← store_load m p n]
  have hk' : k + bs.length ≤ (load m p n).length := by simpa using hk
  have hlen : (patch (load m p n) k bs).length = n := by
    rw [length_patch hk', length_load]
  rw [store_store_inside m p hk' (by simpa using hn)]
  have hload := load_store m p (hlen.le.trans hn)
  rwa [hlen] at hload

/-- Bytes in front of a store that the memory already holds can be added to it. -/
theorem store_append_load {m : Memory w} {p : BitVec w} {bs cs : List Byte}
    (hload : load m p bs.length = bs) (hlen : bs.length + cs.length ≤ 2 ^ w) :
    store m (p + BitVec.ofNat w bs.length) cs = store m p (bs ++ cs) := by
  have hself := store_load m p bs.length
  rw [hload] at hself
  conv_lhs => rw [← hself]
  exact store_append m p hlen

/-- Bytes behind a store that the memory already holds can be added to it. -/
theorem store_load_append {m : Memory w} {p : BitVec w} {bs cs : List Byte}
    (hload : load m (p + BitVec.ofNat w bs.length) cs.length = cs)
    (hlen : bs.length + cs.length ≤ 2 ^ w) : store m p bs = store m p (bs ++ cs) := by
  have hout : ∀ a, Within (p + BitVec.ofNat w bs.length) cs.length a →
      ¬ Within p bs.length a := by
    intro a ha hb
    have hpos : 0 < cs.length := by
      unfold Within at ha
      omega
    have hshift := (within_shift hlen hpos).mp ha
    unfold Within at hb
    omega
  have hself := store_load (store m p bs) (p + BitVec.ofNat w bs.length) cs.length
  rw [load_store_outside m (by omega) hout, hload, store_append m p hlen] at hself
  exact hself.symm

/-! ### Blocks that do not meet -/

/-- No address lies in both blocks. -/
def Apart (p : BitVec w) (n : Nat) (q : BitVec w) (k : Nat) : Prop :=
  ∀ a, Within p n a → ¬ Within q k a

theorem Apart.symm {p q : BitVec w} {n k : Nat} (h : Apart p n q k) : Apart q k p n :=
  fun a hq hp => h a hp hq

theorem apart_of_le {p q : BitVec w} {n k : Nat} (hp : p.toNat + n ≤ q.toNat)
    (hq : q.toNat + k ≤ 2 ^ w) : Apart p n q k := by
  intro a ha hb
  have h1 := (within_iff (by omega)).mp ha
  have h2 := (within_iff hq).mp hb
  omega

/-- Writing fields into a stored block does not disturb a later store that is
apart from it. -/
theorem storeFields_store_store (m : Memory w) {p q : BitVec w} {bs cs : List Byte}
    {fields : List (Nat × List Byte)} (h : ∀ f ∈ fields, f.1 + f.2.length ≤ bs.length)
    (hlen : bs.length ≤ 2 ^ w) (happ : Apart p bs.length q cs.length) :
    storeFields (store (store m p bs) q cs) p fields =
      store (store m p (patchFields bs fields)) q cs := by
  have happ' : Apart p (patchFields bs fields).length q cs.length := by
    rwa [length_patchFields h]
  have hswap : store (store m p bs) q cs = store (store m q cs) p bs := store_comm m happ
  have hback : store (store m p (patchFields bs fields)) q cs =
      store (store m q cs) p (patchFields bs fields) := store_comm m happ'
  rw [hswap, storeFields_store _ _ h hlen, hback]

/-- Two parts of one block that do not overlap. -/
theorem apart_parts (p : BitVec w) {i j k n : Nat} (h : i + j ≤ k ∨ k + n ≤ i)
    (hi : i + j ≤ 2 ^ w) (hk : k + n ≤ 2 ^ w) :
    Apart (p + BitVec.ofNat w i) j (p + BitVec.ofNat w k) n := by
  intro a ha hb
  have hj : 0 < j := by
    unfold Within at ha
    omega
  have hn : 0 < n := by
    unfold Within at hb
    omega
  have h1 := (within_shift hi hj).mp ha
  have h2 := (within_shift hk hn).mp hb
  omega

/-- A part of a block is apart from whatever the block is apart from. -/
theorem Apart.part {p q : BitVec w} {n k i j : Nat} (h : Apart p n q k) (hij : i + j ≤ n)
    (hn : n ≤ 2 ^ w) : Apart (p + BitVec.ofNat w i) j q k := by
  intro a ha
  have hpos : 0 < j := by
    unfold Within at ha
    omega
  apply h a
  have hshift := (within_shift (by omega) hpos).mp ha
  unfold Within
  omega

/-! ### Several blocks -/

/-- Stores of blocks, one after the other. -/
def storeBlocks (m : Memory w) (blocks : List (BitVec w × List Byte)) : Memory w :=
  blocks.foldl (fun m b => store m b.1 b.2) m

theorem storeBlocks_cons (m : Memory w) (p : BitVec w) (bs : List Byte)
    (blocks : List (BitVec w × List Byte)) :
    storeBlocks m ((p, bs) :: blocks) = storeBlocks (store m p bs) blocks := rfl

/-- Blocks beside a range leave it. -/
theorem load_storeBlocks_outside (m : Memory w) {blocks : List (BitVec w × List Byte)}
    {p : BitVec w} {n : Nat} (hn : n ≤ 2 ^ w) (h : ∀ b ∈ blocks, Apart p n b.1 b.2.length) :
    load (storeBlocks m blocks) p n = load m p n := by
  induction blocks generalizing m with
  | nil => rfl
  | cons b blocks ih =>
    have hrest := ih (store m b.1 b.2) fun c hc => h c (by simp [hc])
    exact hrest.trans (load_store_outside m hn (h b (by simp)))

/-- Blocks that do not meet each other are all there in the end. -/
theorem load_storeBlocks (m : Memory w) {blocks : List (BitVec w × List Byte)}
    (h : blocks.Pairwise fun b c => Apart b.1 b.2.length c.1 c.2.length)
    (hlen : ∀ b ∈ blocks, b.2.length ≤ 2 ^ w) {b : BitVec w × List Byte} (hb : b ∈ blocks) :
    load (storeBlocks m blocks) b.1 b.2.length = b.2 := by
  induction blocks generalizing m with
  | nil => cases hb
  | cons c blocks ih =>
    obtain ⟨hfirst, hrest⟩ := List.pairwise_cons.mp h
    rcases List.mem_cons.mp hb with rfl | hmem
    · exact (load_storeBlocks_outside (store m b.1 b.2) (hlen b hb) hfirst).trans
        (load_store m b.1 (hlen b hb))
    · exact ih (store m c.1 c.2) hrest (fun d hd => hlen d (by simp [hd])) hmem

/-! ### Numbers in memory -/

/-- Add `a` to the little-endian number in the `n` bytes at `p`. -/
def addLE (m : Memory w) (p : BitVec w) (n a : Nat) : Memory w :=
  store m p (toLE n (ofLE (load m p n) + a))

/-- Two additions to one number are one addition. -/
theorem addLE_addLE (m : Memory w) (p : BitVec w) {n : Nat} (hn : n ≤ 2 ^ w) (a b : Nat) :
    addLE (addLE m p n a) p n b = addLE m p n (a + b) := by
  have hload : load (addLE m p n a) p n = toLE n (ofLE (load m p n) + a) := by
    have hlen : (toLE n (ofLE (load m p n) + a)).length ≤ 2 ^ w := by rwa [length_toLE]
    have h := load_store m p hlen
    rwa [length_toLE] at h
  have hsum : toLE n ((ofLE (load m p n) + a) % 256 ^ n + b) =
      toLE n (ofLE (load m p n) + (a + b)) := by
    apply toLE_congr
    rw [Nat.mod_add_mod, Nat.add_assoc]
  rw [addLE, hload, ofLE_toLE, hsum]
  exact store_store_cover m p (by rw [length_toLE, length_toLE])

theorem addLE_comm_self (m : Memory w) (p : BitVec w) {n : Nat} (hn : n ≤ 2 ^ w) (a b : Nat) :
    addLE (addLE m p n a) p n b = addLE (addLE m p n b) p n a := by
  rw [addLE_addLE m p hn, addLE_addLE m p hn, Nat.add_comm]

/-- Additions to numbers that share no byte commute. -/
theorem addLE_comm_apart (m : Memory w) {p q : BitVec w} {n k : Nat} (hn : n ≤ 2 ^ w)
    (hk : k ≤ 2 ^ w) (h : Apart p n q k) (a b : Nat) :
    addLE (addLE m p n a) q k b = addLE (addLE m q k b) p n a := by
  have hq : load (addLE m p n a) q k = load m q k :=
    load_store_outside m hk (by rw [length_toLE]; exact h.symm)
  have hp : load (addLE m q k b) p n = load m p n :=
    load_store_outside m hn (by rw [length_toLE]; exact h)
  have hcomm : store (store m p (toLE n (ofLE (load m p n) + a))) q
        (toLE k (ofLE (load m q k) + b)) =
      store (store m q (toLE k (ofLE (load m q k) + b))) p (toLE n (ofLE (load m p n) + a)) :=
    store_comm m (by rw [length_toLE, length_toLE]; exact h)
  change store (addLE m p n a) q (toLE k (ofLE (load (addLE m p n a) q k) + b)) =
    store (addLE m q k b) p (toLE n (ofLE (load (addLE m q k b) p n) + a))
  rw [hq, hp]
  exact hcomm

end ByteMemory
