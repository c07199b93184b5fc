import Qboot.Lib.ByteMemory

/-!
Copies of blocks. `copy` reads the whole source before it writes anything. A
loop that moves one byte at a time makes the same memory as long as no byte is
overwritten before it is read; the two step rules say when a copy of `n` bytes
grows by one byte at its end or at its start.
-/

namespace ByteMemory

open Bytes

variable {w : Nat}

/-- The `n` bytes at `src` written to `dest`, all read before any is written. -/
def copy (m : Memory w) (dest src : BitVec w) (n : Nat) : Memory w :=
  store m dest (load m src n)

@[simp] theorem copy_zero (m : Memory w) (dest src : BitVec w) : copy m dest src 0 = m := by
  simp [copy]

theorem copy_inside (m : Memory w) (dest src : BitVec w) {n i : Nat} (hi : i < n)
    (hn : n ≤ 2 ^ w) :
    copy m dest src n (dest + BitVec.ofNat w i) = m (src + BitVec.ofNat w i) := by
  have hoff : offset dest (dest + BitVec.ofNat w i) = i := offset_add dest (by omega)
  have hin : offset dest (dest + BitVec.ofNat w i) < (load m src n).length := by
    rw [hoff, length_load]
    exact hi
  rw [copy, store_of_within m hin, getElem_load, hoff]

theorem copy_outside (m : Memory w) {dest src a : BitVec w} {n : Nat} (ha : ¬ Within dest n a) :
    copy m dest src n a = m a :=
  store_of_not_within m (by rwa [length_load])

/-- One more byte at the end, if the copy so far has not written its source. -/
theorem copy_up (m : Memory w) {dest src : BitVec w} {n : Nat} (hn : n + 1 ≤ 2 ^ w)
    (hunread : ¬ Within dest n (src + BitVec.ofNat w n)) :
    store (copy m dest src n) (dest + BitVec.ofNat w n)
        [copy m dest src n (src + BitVec.ofNat w n)] =
      copy m dest src (n + 1) := by
  have hload : load m src (n + 1) = load m src n ++ [m (src + BitVec.ofNat w n)] := by
    rw [load_append]
    simp [load]
  have hlen : (load m src n).length + [m (src + BitVec.ofNat w n)].length ≤ 2 ^ w := by
    rw [length_load]
    exact hn
  have happend := store_append m dest hlen
  rw [length_load] at happend
  rw [copy_outside m hunread, copy, happend, copy, hload]

/-- One more byte at the start, if the copy so far has not written its source. -/
theorem copy_down (m : Memory w) {dest src : BitVec w} {n : Nat} (hn : n + 1 ≤ 2 ^ w)
    (hunread : ¬ Within (dest + 1#w) n src) :
    store (copy m (dest + 1#w) (src + 1#w) n) dest [copy m (dest + 1#w) (src + 1#w) n src] =
      copy m dest src (n + 1) := by
  have hload : load m src (n + 1) = m src :: load m (src + 1#w) n := by
    rw [Nat.add_comm, load_append]
    simp [load]
  have hapart : Apart (dest + 1#w) (load m (src + 1#w) n).length dest [m src].length := by
    have hparts := @apart_parts w dest 1 n 0 1 (Or.inr le_rfl) (by omega) (by omega)
    simpa using hparts
  have hlen : (load m (src + 1#w) n).length + 1 ≤ 2 ^ w := by rwa [length_load]
  rw [copy_outside m hunread, copy, store_comm m hapart, store_cons m dest _ hlen, copy, hload]

end ByteMemory
