import Mathlib

/-!
Positional numerals, the most significant digit first. Programs produce the
digits from the other end and turn them round in place, so the second part is
about the loop that swaps the ends of a list.
-/

namespace Numerals

/-! ### The numeral of a number -/

/-- What a reader of the digits gets. -/
def readBack (base : Nat) (ds : List Nat) : Nat := ds.foldl (fun acc d => acc * base + d) 0

/-- A numeral: digits of the base, without leading zeros, that read as `n`. -/
structure IsNumeral (base : Nat) (ds : List Nat) (n : Nat) : Prop where
  nonempty : ds ≠ []
  digit : ∀ d ∈ ds, d < base
  leading : ∀ d rest, ds = d :: rest → d = 0 → rest = []
  value : readBack base ds = n

/-- The numeral of a number. -/
def numeral (base n : Nat) : List Nat := if n = 0 then [0] else (Nat.digits base n).reverse

theorem readBack_reverse (base : Nat) (ds : List Nat) :
    readBack base ds.reverse = Nat.ofDigits base ds := by
  rw [readBack, List.foldl_reverse, Nat.ofDigits_eq_foldr]
  congr 1
  funext d acc
  rw [Nat.mul_comm, Nat.add_comm]
  rfl

variable {base : Nat}

theorem isNumeral_numeral (hbase : 1 < base) (n : Nat) : IsNumeral base (numeral base n) n := by
  unfold numeral
  split
  · rename_i hzero
    subst hzero
    refine ⟨by simp, fun d hd => ?_, fun d rest heq _ => ?_, by simp [readBack]⟩
    · rw [List.mem_singleton] at hd
      omega
    · exact (List.cons.inj heq).2.symm
  · rename_i hn
    have hne : Nat.digits base n ≠ [] := Nat.digits_ne_nil_iff_ne_zero.mpr hn
    have hrev : (Nat.digits base n).reverse ≠ [] := List.reverse_ne_nil_iff.mpr hne
    refine ⟨hrev, fun d hd => ?_, fun d rest heq hd => ?_, ?_⟩
    · exact Nat.digits_lt_base hbase (List.mem_reverse.mp hd)
    · have hlast := Nat.getLast_digit_ne_zero base hn
      have hhead : (Nat.digits base n).getLast hne = d := by
        rw [← List.head_reverse hrev]
        simp [heq]
      exact absurd (hhead.trans hd) hlast
    · rw [readBack_reverse, Nat.ofDigits_digits]

/-- A number has one numeral only. -/
theorem IsNumeral.unique (hbase : 1 < base) {ds : List Nat} {n : Nat} (h : IsNumeral base ds n) :
    ds = numeral base n := by
  cases ds with
  | nil => exact absurd rfl h.nonempty
  | cons d rest =>
    rcases Nat.eq_zero_or_pos d with hzero | hpos
    · have hrest := h.leading d rest rfl hzero
      subst hzero hrest
      have hn : n = 0 := by
        rw [← h.value]
        simp [readBack]
      rw [numeral, if_pos hn]
    · have hofDigits : Nat.ofDigits base (d :: rest).reverse = n := by
        rw [← readBack_reverse, List.reverse_reverse, h.value]
      have hdigits : Nat.digits base n = (d :: rest).reverse := by
        rw [← hofDigits]
        refine Nat.digits_ofDigits base hbase _ (fun l hl => h.digit l (List.mem_reverse.mp hl)) ?_
        intro _
        simp only [List.reverse_cons, List.getLast_append, List.getLast_singleton]
        simp
        omega
      have hn : n ≠ 0 := by
        rintro rfl
        simp at hdigits
      rw [numeral, if_neg hn, hdigits, List.reverse_reverse]

theorem length_numeral_le (hbase : 1 < base) {n k : Nat} (hk : 0 < k) (hn : n < base ^ k) :
    (numeral base n).length ≤ k := by
  unfold numeral
  split
  · exact hk
  · rw [List.length_reverse]
    exact (Nat.digits_length_le_iff hbase n).mpr hn

/-! ### Turning a list round in place -/

variable {α : Type}

/-- Exchange two elements. -/
def swapAt (xs : List α) (i j : Nat) : List α :=
  match xs[i]?, xs[j]? with
  | some a, some b => (xs.set i b).set j a
  | _, _ => xs

/-- `for (; n; --n, ++i)` exchange the element at `i` with its counterpart from
the other end. -/
def swapEnds : Nat → Nat → List α → List α
  | 0, _, xs => xs
  | n + 1, i, xs => swapEnds n (i + 1) (swapAt xs i (xs.length - 1 - i))

theorem length_swapAt (xs : List α) (i j : Nat) : (swapAt xs i j).length = xs.length := by
  unfold swapAt
  split <;> simp

theorem getElem?_swapAt {xs : List α} {i j k : Nat} (hi : i < xs.length) (hj : j < xs.length) :
    (swapAt xs i j)[k]? = if k = j then xs[i]? else if k = i then xs[j]? else xs[k]? := by
  have hswap : swapAt xs i j = (xs.set i xs[j]).set j xs[i] := by
    rw [swapAt, List.getElem?_eq_getElem hi, List.getElem?_eq_getElem hj]
  rw [hswap, List.getElem?_set, List.getElem?_set]
  grind

/-- The ends up to `i` are exchanged, the middle is as it was. -/
def EndsSwapped (xs ys : List α) (i : Nat) : Prop :=
  ys.length = xs.length ∧ ∀ k, k < xs.length →
    ys[k]? = if k < i ∨ xs.length ≤ k + i then xs[xs.length - 1 - k]? else xs[k]?

theorem EndsSwapped.step {xs ys : List α} {i : Nat} (h : EndsSwapped xs ys i)
    (hi : 2 * i + 1 < xs.length) : EndsSwapped xs (swapAt ys i (ys.length - 1 - i)) (i + 1) := by
  obtain ⟨hlen, hget⟩ := h
  refine ⟨(length_swapAt ..).trans hlen, fun k hk => ?_⟩
  rw [getElem?_swapAt (by omega) (by omega), hlen]
  have hleft := hget i (by omega)
  have hright := hget (xs.length - 1 - i) (by omega)
  have hmiddle := hget k hk
  grind

theorem swapEnds_endsSwapped {xs : List α} {n i : Nat} {ys : List α} (h : EndsSwapped xs ys i)
    (hn : 2 * (i + n) ≤ xs.length) : EndsSwapped xs (swapEnds n i ys) (i + n) := by
  induction n generalizing i ys with
  | zero => exact h
  | succ n ih =>
    have hstep := h.step (by omega)
    have hrest := ih hstep (by omega)
    rwa [Nat.add_right_comm, Nat.add_assoc] at hrest

/-- The loop over half of the list turns it round. -/
theorem swapEnds_half (xs : List α) : swapEnds (xs.length / 2) 0 xs = xs.reverse := by
  have hstart : EndsSwapped xs xs 0 := by
    refine ⟨rfl, fun k hk => ?_⟩
    rw [if_neg (by omega)]
  obtain ⟨hlen, hget⟩ := swapEnds_endsSwapped (n := xs.length / 2) hstart (by omega)
  apply List.ext_getElem?
  intro k
  by_cases hk : k < xs.length
  · rw [hget k hk, List.getElem?_reverse hk]
    split
    · rfl
    · have hmiddle : k = xs.length - 1 - k := by omega
      rw [← hmiddle]
  · rw [List.getElem?_eq_none (by omega), List.getElem?_eq_none (by simpa using hk)]

end Numerals
