import Mathlib

/-!
Machine words read as signed numbers. While a sum or a difference is in the
range of the width, it is the one of the integers.
-/

namespace Signed

variable {w : Nat}

theorem toInt_add_of_range {x y : BitVec w} (hlo : -(2 : Int) ^ w ≤ (x.toInt + y.toInt) * 2)
    (hhi : (x.toInt + y.toInt) * 2 < 2 ^ w) : (x + y).toInt = x.toInt + y.toInt := by
  rw [BitVec.toInt_add]
  exact Int.bmod_eq_of_le_mul_two (by push_cast; exact hlo) (by push_cast; exact hhi)

theorem toInt_sub_of_range {x y : BitVec w} (hlo : -(2 : Int) ^ w ≤ (x.toInt - y.toInt) * 2)
    (hhi : (x.toInt - y.toInt) * 2 < 2 ^ w) : (x - y).toInt = x.toInt - y.toInt := by
  rw [BitVec.toInt_sub]
  exact Int.bmod_eq_of_le_mul_two (by push_cast; exact hlo) (by push_cast; exact hhi)

theorem toInt_neg_of_range {x : BitVec w} (h : -(2 : Int) ^ w < x.toInt * 2) :
    (-x).toInt = -x.toInt := by
  have hlt := @BitVec.two_mul_toInt_lt w x
  rw [BitVec.toInt_neg]
  exact Int.bmod_eq_of_le_mul_two (by push_cast; omega) (by push_cast; omega)

theorem toInt_ofNat_of_lt {n : Nat} (h : n * 2 < 2 ^ w) : (BitVec.ofNat w n).toInt = n := by
  rw [BitVec.toInt_ofNat']
  exact Int.bmod_eq_of_le_mul_two (by omega) (by exact_mod_cast h)

/-- A positive counter goes down by one. -/
theorem toInt_sub_one {x : BitVec w} (h : 0 < x.toInt) : (x - 1#w).toInt = x.toInt - 1 := by
  have hlt := @BitVec.two_mul_toInt_lt w x
  have hone : (1#w).toInt = 1 := toInt_ofNat_of_lt (by
    have hpow : (2 : Int) < 2 ^ w := by omega
    exact_mod_cast hpow)
  rw [toInt_sub_of_range (by omega) (by omega), hone]

/-- A negative counter goes up by one. -/
theorem toInt_add_one {x : BitVec w} (hw : 1 < w) (h : x.toInt < 0) :
    (x + 1#w).toInt = x.toInt + 1 := by
  have hle := BitVec.le_two_mul_toInt (x := x)
  have hpow : (2 : Nat) ^ 2 ≤ 2 ^ w := Nat.pow_le_pow_right (by decide) hw
  have hone : (1#w).toInt = 1 := toInt_ofNat_of_lt (by omega)
  rw [toInt_add_of_range (by omega) (by omega), hone]

end Signed
