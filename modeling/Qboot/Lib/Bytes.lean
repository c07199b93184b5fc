import Mathlib

/-!
Byte strings: little-endian numbers, replacing a field of a string, and sums
modulo 256. Field values are natural numbers; a field of `n` bytes holds its
value modulo `256 ^ n`.
-/

namespace Bytes

abbrev Byte := BitVec 8

/-! ### Little-endian numbers -/

/-- The low `n` bytes of `v`, least significant first. -/
def toLE : Nat → Nat → List Byte
  | 0, _ => []
  | n + 1, v => BitVec.ofNat 8 v :: toLE n (v / 256)

def ofLE : List Byte → Nat
  | [] => 0
  | b :: bs => b.toNat + 256 * ofLE bs

@[simp] theorem length_toLE (n v : Nat) : (toLE n v).length = n := by
  induction n generalizing v with
  | zero => rfl
  | succ n ih => simp [toLE, ih]

/-- The low `n` bytes of `v`, most significant first. -/
def toBE (n v : Nat) : List Byte := (toLE n v).reverse

@[simp] theorem length_toBE (n v : Nat) : (toBE n v).length = n := by
  simp [toBE]

theorem ofLE_toLE (n v : Nat) : ofLE (toLE n v) = v % 256 ^ n := by
  induction n generalizing v with
  | zero => simp [toLE, ofLE, Nat.mod_one]
  | succ n ih =>
    have hmod := Nat.mod_mul (x := v) (a := 256) (b := 256 ^ n)
    rw [toLE, ofLE, ih, BitVec.toNat_ofNat, Nat.pow_succ' (n := n), hmod]

theorem ofLE_toLE_of_lt {n v : Nat} (h : v < 256 ^ n) : ofLE (toLE n v) = v := by
  rw [ofLE_toLE, Nat.mod_eq_of_lt h]

theorem ofLE_lt (bs : List Byte) : ofLE bs < 256 ^ bs.length := by
  induction bs with
  | nil => simp [ofLE]
  | cons b bs ih =>
    have hb := b.isLt
    rw [ofLE, List.length_cons, Nat.pow_succ']
    omega

theorem toLE_ofLE (bs : List Byte) : toLE bs.length (ofLE bs) = bs := by
  induction bs with
  | nil => rfl
  | cons b bs ih =>
    have hb := b.isLt
    have hdiv : (b.toNat + 256 * ofLE bs) / 256 = ofLE bs := by omega
    have hbyte : BitVec.ofNat 8 (b.toNat + 256 * ofLE bs) = b := by
      apply BitVec.eq_of_toNat_eq
      rw [BitVec.toNat_ofNat]
      omega
    rw [ofLE, List.length_cons, toLE, hdiv, hbyte, ih]

/-- Only the value modulo `256 ^ n` reaches an `n`-byte field. -/
theorem toLE_mod (n v : Nat) : toLE n (v % 256 ^ n) = toLE n v := by
  have h := toLE_ofLE (toLE n v)
  rwa [length_toLE, ofLE_toLE] at h

theorem toLE_congr {n a b : Nat} (h : a % 256 ^ n = b % 256 ^ n) : toLE n a = toLE n b := by
  rw [← toLE_mod n a, h, toLE_mod]

/-- A wider accumulator does not change the low `n` bytes. -/
theorem toLE_mod_of_le {n k v : Nat} (h : n ≤ k) : toLE n (v % 256 ^ k) = toLE n v :=
  toLE_congr (Nat.mod_mod_of_dvd v (Nat.pow_dvd_pow 256 h))

/-! ### Replacing a field -/

/-- `bs` with the bytes from position `k` on replaced by `cs`. -/
def patch (bs : List Byte) (k : Nat) (cs : List Byte) : List Byte :=
  bs.take k ++ cs ++ bs.drop (k + cs.length)

theorem length_patch {bs cs : List Byte} {k : Nat} (h : k + cs.length ≤ bs.length) :
    (patch bs k cs).length = bs.length := by
  simp only [patch, List.length_append, List.length_take, List.length_drop]
  omega

theorem getElem_patch_inside {bs cs : List Byte} {k i : Nat} (h : k + cs.length ≤ bs.length)
    (hlo : k ≤ i) (hhi : i < k + cs.length) (hi : i < (patch bs k cs).length) :
    (patch bs k cs)[i] = cs[i - k] := by
  have htake : (bs.take k).length = k := by
    rw [List.length_take]
    omega
  simp only [patch]
  rw [List.getElem_append_left (by simp; omega), List.getElem_append_right (by omega)]
  simp only [htake]

theorem getElem_patch_outside {bs cs : List Byte} {k i : Nat} (h : k + cs.length ≤ bs.length)
    (hout : i < k ∨ k + cs.length ≤ i) (hi : i < bs.length) (hi' : i < (patch bs k cs).length) :
    (patch bs k cs)[i] = bs[i] := by
  simp only [patch]
  rcases hout with hlt | hge
  · rw [List.getElem_append_left (by simp; omega), List.getElem_append_left (by simp; omega),
      List.getElem_take]
  · rw [List.getElem_append_right (by simp; omega)]
    simp only [List.length_append, List.length_take, List.getElem_drop]
    congr 1
    omega

theorem patch_append_left {as bs cs : List Byte} {k : Nat} (h : k + cs.length ≤ as.length) :
    patch (as ++ bs) k cs = patch as k cs ++ bs := by
  have htake : (as ++ bs).take k = as.take k := List.take_append_of_le_length (by omega)
  have hdrop : (as ++ bs).drop (k + cs.length) = as.drop (k + cs.length) ++ bs :=
    List.drop_append_of_le_length h
  simp only [patch, htake, hdrop, List.append_assoc]

theorem patch_append_right (as bs cs : List Byte) (k : Nat) :
    patch (as ++ bs) (as.length + k) cs = as ++ patch bs k cs := by
  have hdrop : (as ++ bs).drop (as.length + k + cs.length) = bs.drop (k + cs.length) := by
    rw [Nat.add_assoc, List.drop_length_add_append]
  simp only [patch, List.take_length_add_append, hdrop, List.append_assoc]

@[simp] theorem patch_nil {bs : List Byte} {k : Nat} : patch bs k [] = bs := by
  simp [patch]

/-- The `n` bytes of `bs` from position `k` on. -/
def slice (bs : List Byte) (k n : Nat) : List Byte := (bs.drop k).take n

theorem length_slice {bs : List Byte} {k n : Nat} (h : k + n ≤ bs.length) :
    (slice bs k n).length = n := by
  simp only [slice, List.length_take, List.length_drop]
  omega

theorem toLE_ofLE_slice {bs : List Byte} {k n : Nat} (h : k + n ≤ bs.length) :
    toLE n (ofLE (slice bs k n)) = slice bs k n := by
  have hback := toLE_ofLE (slice bs k n)
  rwa [length_slice h] at hback

/-- A field is recovered from the word it decodes to. -/
theorem toLE_word {bs : List Byte} (k n : Nat) (h : k + n ≤ bs.length) :
    toLE n (BitVec.ofNat (8 * n) (ofLE (slice bs k n))).toNat = slice bs k n := by
  have hpow : 2 ^ (8 * n) = 256 ^ n := Nat.pow_mul 2 8 n
  rw [BitVec.toNat_ofNat, hpow, toLE_mod, toLE_ofLE_slice h]

/-- A word is recovered from the field it is stored in. -/
theorem ofNat_ofLE_toLE (n : Nat) (v : BitVec (8 * n)) :
    BitVec.ofNat (8 * n) (ofLE (toLE n v.toNat)) = v := by
  have hlt : v.toNat < 256 ^ n := by
    have h := v.isLt
    rwa [Nat.pow_mul 2 8 n] at h
  rw [ofLE_toLE_of_lt hlt, BitVec.ofNat_toNat, BitVec.setWidth_eq]

theorem slice_append_slice (bs : List Byte) (k n j : Nat) :
    slice bs k n ++ slice bs (k + n) j = slice bs k (n + j) := by
  rw [slice, slice, slice, List.take_add, List.drop_drop]

theorem slice_slice (bs : List Byte) {k n j i : Nat} (h : j + i ≤ n) :
    slice (slice bs k n) j i = slice bs (k + j) i := by
  rw [slice, slice, slice, List.drop_take, List.drop_drop, List.take_take,
    Nat.min_eq_left (by omega)]

@[simp] theorem slice_zero (bs : List Byte) : slice bs 0 bs.length = bs := by
  simp [slice]

theorem slice_append_middle (as bs cs : List Byte) :
    slice (as ++ bs ++ cs) as.length bs.length = bs := by
  simp [slice]

theorem slice_append_right (as bs : List Byte) :
    slice (as ++ bs) as.length bs.length = bs := by
  simp [slice]

/-- A field inside a slice can be replaced before or after slicing. -/
theorem slice_patch {bs cs : List Byte} {k n j : Nat} (hlo : k ≤ j) (hhi : j + cs.length ≤ k + n)
    (hn : k + n ≤ bs.length) : slice (patch bs j cs) k n = patch (slice bs k n) (j - k) cs := by
  have hj : j + cs.length ≤ bs.length := by omega
  have hlen : k + n ≤ (patch bs j cs).length := by rwa [length_patch hj]
  have hslice : (j - k) + cs.length ≤ (slice bs k n).length := by
    rw [length_slice hn]
    omega
  apply List.ext_getElem
  · rw [length_slice hlen, length_patch hslice, length_slice hn]
  · intro i hi hi'
    have hin : i < n := by rwa [length_slice hlen] at hi
    have hget : (slice (patch bs j cs) k n)[i] = (patch bs j cs)[k + i] := by
      simp [slice]
    rw [hget]
    by_cases hc : j ≤ k + i ∧ k + i < j + cs.length
    · rw [getElem_patch_inside hj hc.1 hc.2, getElem_patch_inside hslice (by omega) (by omega)]
      congr 1
      omega
    · rw [getElem_patch_outside hj (by omega) (by omega),
        getElem_patch_outside hslice (by omega) (by rw [length_slice hn]; exact hin)]
      simp [slice]

/-- A field beside a replaced one is as before. -/
theorem slice_patch_outside {bs cs : List Byte} {k n j : Nat} (h : j + cs.length ≤ bs.length)
    (hout : k + n ≤ j ∨ j + cs.length ≤ k) (hn : k + n ≤ bs.length) :
    slice (patch bs j cs) k n = slice bs k n := by
  have hlen : k + n ≤ (patch bs j cs).length := by rwa [length_patch h]
  apply List.ext_getElem
  · rw [length_slice hlen, length_slice hn]
  · intro i hi hi'
    have hin : i < n := by rwa [length_slice hlen] at hi
    have hget : (slice (patch bs j cs) k n)[i] = (patch bs j cs)[k + i] := by
      simp [slice]
    rw [hget, getElem_patch_outside h (by omega) (by omega)]
    simp [slice]

/-- The replaced field is the new one. -/
theorem slice_patch_self {bs cs : List Byte} {k : Nat} (h : k + cs.length ≤ bs.length) :
    slice (patch bs k cs) k cs.length = cs := by
  have hk : (bs.take k).length = k := by
    rw [List.length_take]
    omega
  have hmiddle := slice_append_middle (bs.take k) cs (bs.drop (k + cs.length))
  rwa [hk] at hmiddle

/-! ### Tables of records -/

/-- The whole records of `n` bytes at the start of `bs`. -/
def records (n : Nat) (bs : List Byte) : List (List Byte) :=
  (List.range (bs.length / n)).map fun i => slice bs (n * i) n

@[simp] theorem length_records (n : Nat) (bs : List Byte) :
    (records n bs).length = bs.length / n := by
  simp [records]

theorem length_of_mem_records {n : Nat} {bs r : List Byte} (h : r ∈ records n bs) :
    r.length = n := by
  simp only [records, List.mem_map, List.mem_range] at h
  obtain ⟨i, hi, rfl⟩ := h
  apply length_slice
  have hmul : n * (i + 1) ≤ n * (bs.length / n) := Nat.mul_le_mul_left n hi
  have hdiv := Nat.mul_div_le bs.length n
  rw [Nat.mul_add, Nat.mul_one] at hmul
  omega

theorem records_cons {n : Nat} (hn : 0 < n) {r bs : List Byte} (hr : r.length = n) :
    records n (r ++ bs) = r :: records n bs := by
  have hdiv : (r ++ bs).length / n = bs.length / n + 1 := by
    rw [List.length_append, hr, Nat.add_div_left _ hn]
  simp only [records, hdiv, List.range_succ_eq_map, List.map_cons, List.map_map]
  congr 1
  · simp [slice, ← hr]
  · apply List.map_congr_left
    intro i _
    have hpos : n * (i + 1) = r.length + n * i := by
      rw [hr]
      ring
    simp only [Function.comp_apply, slice, Nat.succ_eq_add_one, hpos, ← List.drop_drop,
      List.drop_left]

/-- A string of whole records is its records one after the other. -/
theorem flatten_records {n : Nat} (hn : 0 < n) {bs : List Byte} (h : n ∣ bs.length) :
    (records n bs).flatten = bs := by
  obtain ⟨k, hk⟩ := h
  induction k generalizing bs with
  | zero =>
    have hnil : bs = [] := List.length_eq_zero_iff.mp (by omega)
    subst hnil
    simp [records]
  | succ k ih =>
    have htake : (bs.take n).length = n := by
      rw [List.length_take, Nat.mul_succ] at *
      omega
    have hdrop : (bs.drop n).length = n * k := by
      rw [List.length_drop, hk, Nat.mul_succ]
      omega
    conv_lhs => rw [← List.take_append_drop n bs]
    rw [records_cons hn htake, List.flatten_cons, ih hdrop, List.take_append_drop]

/-- The records of a table that was written record by record. -/
theorem records_flatten {n : Nat} (hn : 0 < n) {rs : List (List Byte)}
    (h : ∀ r ∈ rs, r.length = n) : records n rs.flatten = rs := by
  induction rs with
  | nil => simp [records]
  | cons r rs ih =>
    rw [List.flatten_cons, records_cons hn (h r (by simp)), ih fun r hr => h r (by simp [hr])]

theorem slice_flatten {n : Nat} (hn : 0 < n) {rs : List (List Byte)}
    (h : ∀ r ∈ rs, r.length = n) {i : Nat} (hi : i < rs.length) :
    slice rs.flatten (n * i) n = rs[i] := by
  have hrecords := records_flatten hn h
  have hlen : i < (records n rs.flatten).length := by rwa [hrecords]
  have hget : (records n rs.flatten)[i] = slice rs.flatten (n * i) n := by simp [records]
  rw [← hget]
  simp only [hrecords]

/-- Whole records in front of other bytes. -/
theorem records_append {n : Nat} (hn : 0 < n) {as : List Byte} (h : n ∣ as.length)
    (bs : List Byte) : records n (as ++ bs) = records n as ++ records n bs := by
  have hlen : ∀ r ∈ records n as, r.length = n := fun r hr => length_of_mem_records hr
  have hsplit : records n ((records n as).flatten ++ bs) = records n as ++ records n bs := by
    generalize records n as = rs at hlen
    induction rs with
    | nil => rfl
    | cons r rs ih =>
      rw [List.flatten_cons, List.append_assoc, records_cons hn (hlen r (by simp)),
        ih fun r hr => hlen r (by simp [hr]), List.cons_append]
  rwa [flatten_records hn h] at hsplit

theorem length_flatten_records {n : Nat} {rs : List (List Byte)} (h : ∀ r ∈ rs, r.length = n) :
    rs.flatten.length = n * rs.length := by
  rw [List.length_flatten, List.map_congr_left h, List.map_const', List.sum_replicate, smul_eq_mul,
    Nat.mul_comm]

/-! ### Sums modulo 256 -/

/-- Changing one byte changes the sum by the difference. -/
theorem sum_patch_byte {bs : List Byte} {k : Nat} (hk : k < bs.length) (c : Byte) :
    (patch bs k [c]).sum = bs.sum - bs[k] + c := by
  have hsplit : bs = bs.take k ++ [bs[k]] ++ bs.drop (k + 1) := by simp
  have hsum : bs.sum = (bs.take k).sum + bs[k] + (bs.drop (k + 1)).sum := by
    conv_lhs => rw [hsplit]
    simp only [List.sum_append, List.sum_singleton]
  simp only [patch, List.sum_append, List.sum_singleton, List.length_singleton]
  rw [hsum]
  ring

theorem sum_append (bs cs : List Byte) : (bs ++ cs).sum = bs.sum + cs.sum :=
  List.sum_append

/-- The byte at `k` is lowered by `sum`. -/
def lowerByte (bs : List Byte) (k : Nat) (sum : Byte) : List Byte :=
  patch bs k [bs.getD k 0 - sum]

theorem sum_lowerByte {bs : List Byte} {k : Nat} (hk : k < bs.length) (sum : Byte) :
    (lowerByte bs k sum).sum = bs.sum - sum := by
  have hget : bs.getD k 0 = bs[k] := by simp [hk]
  rw [lowerByte, sum_patch_byte hk, hget]
  ring

end Bytes
