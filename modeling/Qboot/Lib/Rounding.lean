import Mathlib

/-!
Rounding a word with the mask `-a`. For a power of two the mask clears the
low bits; for any other `a` it clears scattered bits. In both cases the word
drops by a part of `a - 1`, which is all that keeping allocations apart needs.
-/

namespace Rounding

variable {w : Nat}

/-- What the mask `-a` removes from `x`. -/
theorem and_neg (x a : BitVec w) : x &&& -a = x - (x &&& (a - 1#w)) := by
  have hneg : -a = ~~~(a - 1#w) := by
    rw [← BitVec.not_neg, BitVec.not_not]
  have hzero : (x &&& ~~~(a - 1#w)) &&& (x &&& (a - 1#w)) = 0#w := by
    ext i hi
    simp
    grind
  have hsum : (x &&& ~~~(a - 1#w)) + (x &&& (a - 1#w)) = x := by
    rw [BitVec.add_eq_or_of_and_eq_zero _ _ hzero]
    ext i hi
    simp
    grind
  rw [hneg]
  exact eq_sub_of_add_eq hsum

theorem and_neg_le (x a : BitVec w) : (x &&& -a).toNat ≤ x.toNat := by
  rw [BitVec.toNat_and]
  exact Nat.and_le_left

theorem toNat_sub_one {a : BitVec w} (ha : 0 < a.toNat) : (a - 1#w).toNat = a.toNat - 1 := by
  have hw : 0 < w := by
    rcases Nat.eq_zero_or_pos w with rfl | h
    · have := a.isLt
      omega
    · exact h
  have hone : (1#w).toNat = 1 := by
    rw [BitVec.toNat_ofNat, Nat.mod_eq_of_lt (Nat.one_lt_two_pow (by omega))]
  rw [BitVec.toNat_sub_of_le (by rw [BitVec.le_def, hone]; exact ha), hone]

theorem toNat_add_sub_one {x a : BitVec w} (ha : 0 < a.toNat)
    (hwrap : x.toNat + a.toNat - 1 < 2 ^ w) : (x + a - 1#w).toNat = x.toNat + a.toNat - 1 := by
  have hassoc : x + a - 1#w = x + (a - 1#w) := by ring
  rw [hassoc, BitVec.toNat_add, toNat_sub_one ha, Nat.mod_eq_of_lt (by omega)]
  omega

/-- The part of `a - 1` by which the mask lowers `x`. -/
theorem toNat_and_neg {x a : BitVec w} (ha : 0 < a.toNat) :
    (x &&& -a).toNat = x.toNat - (x.toNat &&& (a.toNat - 1)) := by
  have hx : (x &&& (a - 1#w)).toNat ≤ x.toNat := by
    rw [BitVec.toNat_and]
    exact Nat.and_le_left
  rw [and_neg, BitVec.toNat_sub_of_le hx, BitVec.toNat_and, toNat_sub_one ha]

/-- Rounding down loses less than `a`. -/
theorem lt_and_neg_add {x a : BitVec w} (ha : 0 < a.toNat) :
    x.toNat < (x &&& -a).toNat + a.toNat := by
  have hx : x.toNat &&& (a.toNat - 1) ≤ x.toNat := Nat.and_le_left
  have hpart : x.toNat &&& (a.toNat - 1) ≤ a.toNat - 1 := Nat.and_le_right
  rw [toNat_and_neg ha]
  omega

/-- Adding `a - 1` before the mask never rounds below the start. -/
theorem le_add_and_neg {x a : BitVec w} (ha : 0 < a.toNat)
    (hwrap : x.toNat + a.toNat - 1 < 2 ^ w) :
    x.toNat ≤ ((x + a - 1#w) &&& -a).toNat ∧
      ((x + a - 1#w) &&& -a).toNat ≤ x.toNat + a.toNat - 1 := by
  have hadd := toNat_add_sub_one ha hwrap
  have hlt := lt_and_neg_add (x := x + a - 1#w) ha
  have hle := and_neg_le (x + a - 1#w) a
  omega

/-- For a power of two the mask leaves a multiple. -/
theorem dvd_and_neg {x a : BitVec w} {k : Nat} (ha : a.toNat = 2 ^ k) :
    a.toNat ∣ (x &&& -a).toNat := by
  have hpos : 0 < a.toNat := by
    rw [ha]
    exact Nat.two_pow_pos k
  have hlow : x.toNat &&& (a.toNat - 1) = x.toNat % a.toNat := by
    rw [ha, Nat.and_two_pow_sub_one_eq_mod]
  rw [toNat_and_neg hpos, hlow]
  exact Nat.dvd_sub_mod x.toNat

end Rounding
