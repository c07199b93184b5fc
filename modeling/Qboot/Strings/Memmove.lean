import Qboot.Lib.ByteCopy
import Qboot.Machine

/-!
`memmove` of string.c. The copy runs upwards when the destination starts at or
before the source and downwards otherwise. Either way the byte read next has
not been overwritten, so the memory after each iteration is a copy of the part
done so far.
-/

namespace Qboot

open ByteMemory

/-- `while (n--) *d++ = *s++;` -/
def memmoveUp : Nat → Mem → BitVec 32 → BitVec 32 → Mem
  | 0, m, _, _ => m
  | n + 1, m, d, s => memmoveUp n (store m d [m s]) (d + 1#32) (s + 1#32)

/-- `while (n--) *--d = *--s;` -/
def memmoveDown : Nat → Mem → BitVec 32 → BitVec 32 → Mem
  | 0, m, _, _ => m
  | n + 1, m, d, s => memmoveDown n (store m (d - 1#32) [m (s - 1#32)]) (d - 1#32) (s - 1#32)

/-- `memmove`: the returned pointer and the memory. -/
def memmove (m : Mem) (dest src n : BitVec 32) : BitVec 32 × Mem :=
  if dest ≤ src then (dest, memmoveUp n.toNat m dest src)
  else (dest, memmoveDown n.toNat m (dest + n) (src + n))

/-- Upwards, with the first `k` bytes copied and `n` to go. -/
theorem memmoveUp_copy (m : Mem) {dest src : BitVec 32} (hle : dest ≤ src) {k n : Nat}
    (hd : dest.toNat + (k + n) ≤ 2 ^ 32) (hs : src.toNat + (k + n) ≤ 2 ^ 32) :
    memmoveUp n (copy m dest src k) (dest + BitVec.ofNat 32 k) (src + BitVec.ofNat 32 k) =
      copy m dest src (k + n) := by
  induction n generalizing k with
  | zero => rfl
  | succ n ih =>
    have hunread : ¬ Within dest k (src + BitVec.ofNat 32 k) := by
      intro hin
      have hwritten := (within_iff (by omega)).mp hin
      have hread : (src + BitVec.ofNat 32 k).toNat = src.toNat + k := by
        rw [BitVec.toNat_add, BitVec.toNat_ofNat]
        omega
      have hle' : dest.toNat ≤ src.toNat := hle
      omega
    have hstep := copy_up m (by omega) hunread
    have hnext : ∀ p : BitVec 32, p + BitVec.ofNat 32 k + 1#32 = p + BitVec.ofNat 32 (k + 1) := by
      intro p
      rw [BitVec.ofNat_add, ← BitVec.add_assoc]
    rw [memmoveUp, hstep, hnext, hnext, ih (by omega) (by omega)]
    congr 1
    omega

/-- Downwards, with the last `n` bytes copied and `k` to go. -/
theorem memmoveDown_copy (m : Mem) {dest src : BitVec 32} (hlt : src < dest) {k n : Nat}
    (hd : dest.toNat + (k + n) ≤ 2 ^ 32) (hs : src.toNat + (k + n) ≤ 2 ^ 32) :
    memmoveDown k (copy m (dest + BitVec.ofNat 32 k) (src + BitVec.ofNat 32 k) n)
        (dest + BitVec.ofNat 32 k) (src + BitVec.ofNat 32 k) =
      copy m dest src (k + n) := by
  induction k generalizing n with
  | zero => simp [memmoveDown]
  | succ k ih =>
    have hunread : ¬ Within (dest + BitVec.ofNat 32 k + 1#32) n (src + BitVec.ofNat 32 k) := by
      intro hin
      have hlt' : src.toNat < dest.toNat := hlt
      have hread : (src + BitVec.ofNat 32 k).toNat = src.toNat + k := by
        rw [BitVec.toNat_add, BitVec.toNat_ofNat]
        omega
      rcases Nat.eq_zero_or_pos n with rfl | hpos
      · exact absurd hin (Nat.not_lt_zero _)
      · have hnext : (dest + BitVec.ofNat 32 k + 1#32).toNat = dest.toNat + k + 1 := by
          rw [BitVec.toNat_add, BitVec.toNat_add, BitVec.toNat_ofNat, BitVec.toNat_ofNat]
          omega
        have hwritten := (within_iff (by omega)).mp hin
        omega
    have hstep := copy_down m (by omega) hunread
    have hprev : ∀ p : BitVec 32, p + BitVec.ofNat 32 (k + 1) - 1#32 = p + BitVec.ofNat 32 k := by
      intro p
      rw [BitVec.ofNat_add]
      ring
    have hnext : ∀ p : BitVec 32, p + BitVec.ofNat 32 (k + 1) = p + BitVec.ofNat 32 k + 1#32 := by
      intro p
      rw [BitVec.ofNat_add, BitVec.add_assoc]
    rw [memmoveDown, hprev, hprev, hnext, hnext, hstep, ih (by omega) (by omega)]
    congr 1
    omega

/-- `memmove` is the copy that reads everything first. -/
theorem memmove_eq_copy (m : Mem) {dest src n : BitVec 32}
    (hd : dest.toNat + n.toNat ≤ 2 ^ 32) (hs : src.toNat + n.toNat ≤ 2 ^ 32) :
    memmove m dest src n = (dest, copy m dest src n.toNat) := by
  unfold memmove
  split
  · rename_i hle
    have hup := @memmoveUp_copy m dest src hle 0 n.toNat (by omega) (by omega)
    rw [copy_zero, Nat.zero_add] at hup
    simpa using hup
  · rename_i hnle
    have hlt : src < dest := BitVec.not_le.mp hnle
    have hdown := @memmoveDown_copy m dest src hlt n.toNat 0 (by omega) (by omega)
    rw [copy_zero, Nat.add_zero] at hdown
    simpa using hdown

/-- Every byte of the destination is the byte the source had before, and no
other byte changes. -/
theorem memmove_simultaneous (m : Mem) {dest src n : BitVec 32}
    (hd : dest.toNat + n.toNat ≤ 2 ^ 32) (hs : src.toNat + n.toNat ≤ 2 ^ 32) :
    (memmove m dest src n).1 = dest ∧
      (∀ i < n.toNat, (memmove m dest src n).2 (dest + BitVec.ofNat 32 i) =
        m (src + BitVec.ofNat 32 i)) ∧
      ∀ a : BitVec 32, ¬ (dest.toNat ≤ a.toNat ∧ a.toNat < dest.toNat + n.toNat) →
        (memmove m dest src n).2 a = m a := by
  rw [memmove_eq_copy m hd hs]
  refine ⟨rfl, fun i hi => copy_inside m dest src hi (by omega), fun a ha => ?_⟩
  exact copy_outside m fun hin => ha ((within_iff hd).mp hin)

/-- Three bytes moved up by one, over two of their own sources. -/
theorem memmove_simultaneous_overlap :
    (memmove (fun a => a.setWidth 8) 11#32 10#32 3#32).2 13#32 = 12#8 ∧
      (memmove (fun a => a.setWidth 8) 11#32 10#32 3#32).2 10#32 = 10#8 := by
  have hmove := @memmove_simultaneous (fun a => a.setWidth 8) 11#32 10#32 3#32 (by decide)
    (by decide)
  exact ⟨hmove.2.1 2 (by decide), hmove.2.2 10#32 (by decide)⟩

end Qboot
