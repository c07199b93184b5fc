import Qboot.Lib.ByteMemory

/-!
Blocks of little-endian words, as a descending stack builds them: a block that
is stored right in front of another one joins it, and each word of a block can
be read and replaced by its index.
-/

namespace ByteMemory

open Bytes

variable {w : Nat}

/-- Words of `n` bytes, one behind the other. -/
def wordBytes (n : Nat) (ws : List Nat) : List Byte := (ws.map (toLE n)).flatten

@[simp] theorem length_wordBytes (n : Nat) (ws : List Nat) :
    (wordBytes n ws).length = n * ws.length := by
  have hall : ∀ r ∈ ws.map (toLE n), r.length = n := by
    intro r hr
    obtain ⟨v, -, rfl⟩ := List.mem_map.mp hr
    exact length_toLE n v
  rw [wordBytes, length_flatten_records hall, List.length_map]

@[simp] theorem wordBytes_nil (n : Nat) : wordBytes n [] = [] := rfl

theorem wordBytes_cons (n v : Nat) (ws : List Nat) :
    wordBytes n (v :: ws) = toLE n v ++ wordBytes n ws := rfl

theorem wordBytes_append (n : Nat) (vs ws : List Nat) :
    wordBytes n (vs ++ ws) = wordBytes n vs ++ wordBytes n ws := by
  simp [wordBytes]

/-- Bytes that fill whole words are words. -/
theorem exists_wordBytes {n : Nat} (hn : 0 < n) {bs : List Byte} (h : n ∣ bs.length) :
    ∃ ws, wordBytes n ws = bs := by
  refine ⟨(records n bs).map ofLE, ?_⟩
  have hback : ∀ r ∈ records n bs, toLE n (ofLE r) = r := by
    intro r hr
    have hword := toLE_ofLE r
    rwa [length_of_mem_records hr] at hword
  have hmap : ((records n bs).map ofLE).map (toLE n) = records n bs := by
    rw [List.map_map]
    exact (List.map_congr_left hback).trans (List.map_id _)
  rw [wordBytes, hmap, flatten_records hn h]

/-- Some of the words are replaced by one value. -/
def setEach {α : Type} (ws : List α) (l : List Nat) (v : α) : List α :=
  l.foldl (fun ws i => ws.set i v) ws

@[simp] theorem length_setEach {α : Type} (ws : List α) (l : List Nat) (v : α) :
    (setEach ws l v).length = ws.length := by
  induction l generalizing ws with
  | nil => rfl
  | cons i l ih => exact (ih (ws.set i v)).trans List.length_set

theorem getElem?_setEach {α : Type} {ws : List α} {l : List Nat} {v : α} {i : Nat}
    (hi : i < ws.length) : (setEach ws l v)[i]? = if i ∈ l then some v else ws[i]? := by
  induction l generalizing ws with
  | nil => simp [setEach]
  | cons j l ih =>
    have hrest := @ih (ws.set j v) (by rwa [List.length_set])
    refine hrest.trans ?_
    by_cases hl : i ∈ l
    · simp [hl]
    · by_cases hj : i = j
      · subst hj
        simp [hl, hi]
      · simp [hl, hj, List.getElem?_set_ne (Ne.symm hj)]

section Index

variable {n i : Nat} {ws : List Nat}

theorem wordBytes_split (hi : i < ws.length) :
    wordBytes n ws = wordBytes n (ws.take i) ++ toLE n ws[i] ++ wordBytes n (ws.drop (i + 1)) := by
  have hsplit : ws = ws.take i ++ ws[i] :: ws.drop (i + 1) := by simp
  conv_lhs => rw [hsplit, wordBytes_append, wordBytes_cons, ← List.append_assoc]

theorem slice_wordBytes (hi : i < ws.length) (rest : List Byte) :
    slice (wordBytes n ws ++ rest) (n * i) n = toLE n ws[i] := by
  have hfront : (wordBytes n (ws.take i)).length = n * i := by
    rw [length_wordBytes, List.length_take, Nat.min_eq_left hi.le]
  have hslice := slice_append_middle (wordBytes n (ws.take i)) (toLE n ws[i])
    (wordBytes n (ws.drop (i + 1)) ++ rest)
  rw [hfront, length_toLE, ← List.append_assoc, ← wordBytes_split hi] at hslice
  exact hslice

theorem patch_wordBytes (hi : i < ws.length) (v : Nat) (rest : List Byte) :
    patch (wordBytes n ws ++ rest) (n * i) (toLE n v) = wordBytes n (ws.set i v) ++ rest := by
  have hfront : (wordBytes n (ws.take i)).length = n * i := by
    rw [length_wordBytes, List.length_take, Nat.min_eq_left hi.le]
  have hset : ws.set i v = ws.take i ++ v :: ws.drop (i + 1) := by
    rw [List.set_eq_take_append_cons_drop, if_pos hi]
  have hpatch : patch (toLE n ws[i] ++ (wordBytes n (ws.drop (i + 1)) ++ rest)) 0 (toLE n v) =
      toLE n v ++ (wordBytes n (ws.drop (i + 1)) ++ rest) := by
    simp [patch]
  have hright := patch_append_right (wordBytes n (ws.take i))
    (toLE n ws[i] ++ (wordBytes n (ws.drop (i + 1)) ++ rest)) (toLE n v) 0
  rw [hpatch, hfront, Nat.add_zero] at hright
  rw [wordBytes_split hi, hset, wordBytes_append, wordBytes_cons]
  simp only [List.append_assoc] at hright ⊢
  exact hright

variable (m : Memory w) (p : BitVec w) {rest : List Byte}

/-- A word of a stored block. -/
theorem load_word (hi : i < ws.length) (hlen : n * ws.length + rest.length ≤ 2 ^ w) :
    load (store m p (wordBytes n ws ++ rest)) (p + BitVec.ofNat w (n * i)) n = toLE n ws[i] := by
  have hin : n * i + n ≤ n * ws.length := by
    rw [← Nat.mul_succ]
    exact Nat.mul_le_mul_left n hi
  have hall : n * i + n ≤ (wordBytes n ws ++ rest).length := by
    rw [List.length_append, length_wordBytes]
    omega
  rw [load_store_inside m p hall (by rwa [List.length_append, length_wordBytes]),
    slice_wordBytes hi]

/-- A word of a stored block is replaced. -/
theorem store_word (hi : i < ws.length) (hlen : n * ws.length + rest.length ≤ 2 ^ w) (v : Nat) :
    store (store m p (wordBytes n ws ++ rest)) (p + BitVec.ofNat w (n * i)) (toLE n v) =
      store m p (wordBytes n (ws.set i v) ++ rest) := by
  have hin : n * i + n ≤ n * ws.length := by
    rw [← Nat.mul_succ]
    exact Nat.mul_le_mul_left n hi
  have hall : n * i + (toLE n v).length ≤ (wordBytes n ws ++ rest).length := by
    rw [List.length_append, length_wordBytes, length_toLE]
    omega
  rw [store_store_inside m p hall (by rwa [List.length_append, length_wordBytes]),
    patch_wordBytes hi]

end Index

/-- A block stored right in front of another one. -/
theorem store_before (m : Memory w) (p : BitVec w) {bs cs : List Byte}
    (hlen : cs.length + bs.length ≤ 2 ^ w) :
    store (store m (p + BitVec.ofNat w cs.length) bs) p cs = store m p (cs ++ bs) := by
  have happ : Apart (p + BitVec.ofNat w cs.length) bs.length p cs.length := by
    have hparts := @apart_parts w p cs.length bs.length 0 cs.length (Or.inr (by omega)) hlen
      (by omega)
    simpa using hparts
  rw [store_comm m happ, store_append m p hlen]

end ByteMemory
