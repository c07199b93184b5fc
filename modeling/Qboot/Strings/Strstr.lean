import Qboot.Lib.Occurrence
import Qboot.StringOps

/-!
`strstr` of string.c. A string is the list of its bytes from the pointer on,
the NUL included, and the list ends there, so a read behind the terminator is
a fault. The other fault is the step of the length counter below zero. On
strings in a 32-bit address space there is neither, and the answer is the first
occurrence.
-/

namespace Qboot

open Bytes Occurrence

/-- What `strstr` must not run into. -/
inductive StringFault where
  /-- A byte behind the end of a string is read, or a pointer is moved past it. -/
  | overread
  /-- `l1--` with `l1 = 0`. -/
  | counterWrap
deriving DecidableEq

/-- The loop of `memcmp`, with the bytes from `a` and from `b` on. -/
def memcmpLoop : Nat → List Byte → List Byte → Int → Except StringFault Int
  | 0, _, _, ret => .ok ret
  | n + 1, a :: as, b :: bs, _ =>
    let ret := (a.toNat : Int) - (b.toNat : Int)
    if ret ≠ 0 then .ok ret else memcmpLoop n as bs ret
  | _ + 1, _, _, _ => .error .overread

/-- The loop of `strstr`, with `s1` moved on by `pos` bytes. -/
def strstrLoop (s2 : List Byte) (l2 : BitVec 32) :
    List Byte → Nat → BitVec 32 → Except StringFault (Option Nat)
  | s1, pos, l1 =>
    if l1 < l2 then .ok none
    else if l1 = 0#32 then .error .counterWrap
    else
      match memcmpLoop l2.toNat s1 s2 0 with
      | .error fault => .error fault
      | .ok ret =>
        if ret = 0 then .ok (some pos)
        else
          match s1 with
          | [] => .error .overread
          | _ :: s1 => strstrLoop s2 l2 s1 (pos + 1) (l1 - 1#32)

/-- `strstr`: the position in `s1` of the returned pointer, or none for NULL. -/
def strstr (s1 s2 : List Byte) : Except StringFault (Option Nat) :=
  if strlen s2 = 0#32 then .ok (some 0)
  else strstrLoop s2 (strlen s2) s1 0 (strlen s1)

/-- The characters in front of the NUL of a string in a 32-bit address space. -/
structure IsString (chars : List Byte) : Prop where
  noNul : 0#8 ∉ chars
  addressable : chars.length < 2 ^ 32

theorem IsString.toNat_strlen {chars : List Byte} (h : IsString chars) :
    (strlen (chars ++ [0#8])).toNat = chars.length := by
  rw [strlen_append h.noNul, BitVec.toNat_ofNat, Nat.mod_eq_of_lt h.addressable]

/-! ### The comparison -/

/-- With `n` bytes on both sides, the loop is the comparison of these bytes. -/
theorem memcmpLoop_eq {n : Nat} {as bs : List Byte} (ha : n ≤ as.length) (hb : n ≤ bs.length) :
    memcmpLoop n as bs 0 = .ok (memcmp (as.take n) (bs.take n)) := by
  induction n generalizing as bs with
  | zero => simp [memcmpLoop, memcmp]
  | succ n ih =>
    cases as with
    | nil => exact absurd ha (Nat.not_succ_le_zero n)
    | cons a as =>
      cases bs with
      | nil => exact absurd hb (Nat.not_succ_le_zero n)
      | cons b bs =>
        have hrest := ih (Nat.le_of_succ_le_succ ha) (Nat.le_of_succ_le_succ hb)
        simp only [memcmpLoop, List.take_succ_cons, memcmp]
        split
        · rfl
        · rename_i hret
          rw [not_ne_iff.mp hret, hrest]

/-- Byte strings of one length compare equal exactly when they are. -/
theorem memcmp_eq_zero_iff {as bs : List Byte} (hlen : as.length = bs.length) :
    memcmp as bs = 0 ↔ as = bs := by
  induction as generalizing bs with
  | nil =>
    cases bs with
    | nil => simp [memcmp]
    | cons b bs => cases hlen
  | cons a as ih =>
    cases bs with
    | nil => cases hlen
    | cons b bs =>
      have hrest := ih (Nat.succ.inj hlen)
      have hbyte : (a.toNat : Int) - (b.toNat : Int) = 0 ↔ a = b := by
        rw [Int.sub_eq_zero, Int.natCast_inj, BitVec.toNat_inj]
      simp only [memcmp]
      split
      · rename_i hne
        have hab : a ≠ b := fun hab => hne (hbyte.mpr hab)
        simp [hne, hab]
      · rename_i heq
        have hab : a = b := hbyte.mp (not_ne_iff.mp heq)
        rw [hrest, hab, List.cons_inj_right]

/-- Comparing a whole string with what stands at the pointer: no terminator is
passed, and equality means that the string stands there. -/
theorem memcmpLoop_string {rest s2 : List Byte} (hlen : s2.length ≤ rest.length) :
    ∃ ret, memcmpLoop s2.length (rest ++ [0#8]) (s2 ++ [0#8]) 0 = .ok ret ∧
      (ret = 0 ↔ s2 <+: rest) := by
  have hrest : (rest ++ [0#8]).take s2.length = rest.take s2.length :=
    List.take_append_of_le_length hlen
  have hs2 : (s2 ++ [0#8]).take s2.length = s2 := List.take_left
  have hloop := memcmpLoop_eq (by simp; omega : s2.length ≤ (rest ++ [0#8]).length)
    (by simp : s2.length ≤ (s2 ++ [0#8]).length)
  rw [hrest, hs2] at hloop
  refine ⟨_, hloop, ?_⟩
  rw [memcmp_eq_zero_iff (by simp [hlen]), List.prefix_iff_eq_take]
  exact eq_comm

/-! ### The search -/

/-- The loop at `rest`, with `l1` bytes left and no occurrence in front of it. -/
theorem strstrLoop_isFirst {s2 : List Byte} {l2 : BitVec 32} (hl2 : l2.toNat = s2.length)
    (hpos : 0 < s2.length) {front rest : List Byte} {l1 : BitVec 32} (hl1 : l1.toNat = rest.length)
    (hbefore : ∀ q < front.length, ¬ OccursAt s2 (front ++ rest) q) :
    ∃ r, strstrLoop (s2 ++ [0#8]) l2 (rest ++ [0#8]) front.length l1 = .ok r ∧
      IsFirst s2 (front ++ rest) r := by
  induction rest generalizing front l1 with
  | nil =>
    have hlt : l1 < l2 := by
      rw [BitVec.lt_def, hl1, hl2]
      exact hpos
    refine ⟨none, by rw [List.nil_append, strstrLoop, if_pos hlt], fun p hp => ?_⟩
    have hle := hp.le_length
    rw [List.append_nil] at hle
    exact hbefore p (by omega) hp
  | cons c rest ih =>
    by_cases hlt : l1 < l2
    · refine ⟨none, by rw [List.cons_append, strstrLoop, if_pos hlt], fun p hp => ?_⟩
      have hle := hp.le_length
      rw [BitVec.lt_def, hl1, hl2] at hlt
      rw [List.length_append] at hle
      exact hbefore p (by omega) hp
    · have hnonzero : l1 ≠ 0#32 := by
        rintro rfl
        simp at hl1
      have hfits : s2.length ≤ (c :: rest).length := by
        rw [← hl1, ← hl2]
        exact Nat.le_of_not_lt hlt
      obtain ⟨ret, hcmp, hret⟩ := memcmpLoop_string hfits
      rw [List.cons_append] at hcmp
      rw [List.cons_append, strstrLoop, if_neg hlt, if_neg hnonzero, hl2, hcmp]
      by_cases hzero : ret = 0
      · refine ⟨some front.length, by simp [hzero], ?_, hbefore⟩
        exact occursAt_append_iff.mpr (hret.mp hzero)
      · have hhere : ¬ OccursAt s2 (front ++ c :: rest) front.length := fun hocc =>
          hzero (hret.mpr (occursAt_append_iff.mp hocc))
        have hshift : front ++ c :: rest = (front ++ [c]) ++ rest := by simp
        have hnext : (l1 - 1#32).toNat = rest.length := by
          have hone : 1#32 ≤ l1 := by
            rw [BitVec.le_def, hl1]
            simp
          rw [BitVec.toNat_sub_of_le hone, hl1]
          simp
        have hrejected : ∀ q < (front ++ [c]).length,
            ¬ OccursAt s2 ((front ++ [c]) ++ rest) q := by
          intro q hq
          rw [← hshift]
          rw [List.length_append, List.length_singleton] at hq
          rcases Nat.lt_succ_iff_lt_or_eq.mp hq with hlt | rfl
          · exact hbefore q hlt
          · exact hhere
        obtain ⟨r, hrun, hfirst⟩ := ih hnext hrejected
        rw [List.length_append, List.length_singleton] at hrun
        refine ⟨r, ?_, by rwa [hshift]⟩
        simpa [hzero] using hrun

/-- `strstr` ends without a fault and finds the first occurrence. -/
theorem strstr_first {s1 s2 : List Byte} (h1 : IsString s1) (h2 : IsString s2) :
    ∃ r, strstr (s1 ++ [0#8]) (s2 ++ [0#8]) = .ok r ∧
      (∀ p, r = some p ↔ OccursAt s2 s1 p ∧ ∀ q < p, ¬ OccursAt s2 s1 q) ∧
      (r = none ↔ ∀ p, ¬ OccursAt s2 s1 p) ∧ (s2 = [] → r = some 0) := by
  have hl2 := h2.toNat_strlen
  rcases List.eq_nil_or_concat s2 with rfl | ⟨body, last, hs2⟩
  · have hfirst : IsFirst [] s1 (some 0) :=
      ⟨occursAt_nil s1, fun q hq => absurd hq (Nat.not_lt_zero q)⟩
    exact ⟨some 0, rfl, hfirst.eq_some_iff, hfirst.eq_none_iff, fun _ => rfl⟩
  · have hpos : 0 < s2.length := by
      rw [hs2]
      simp
    have hnonzero : strlen (s2 ++ [0#8]) ≠ 0#32 := by
      intro hzero
      rw [hzero] at hl2
      simp at hl2
      omega
    obtain ⟨r, hrun, hfirst⟩ := @strstrLoop_isFirst s2 _ hl2 hpos [] s1 _ h1.toNat_strlen
      (fun q hq => absurd hq (Nat.not_lt_zero q))
    rw [List.nil_append] at hfirst
    refine ⟨r, ?_, hfirst.eq_some_iff, hfirst.eq_none_iff, ?_⟩
    · rw [strstr, if_neg hnonzero]
      exact hrun
    · intro hnil
      rw [hnil] at hpos
      exact absurd hpos (lt_irrefl 0)

/-- `ab` in `aab`: the first position agrees in one byte only. -/
theorem strstr_first_second : strstr [0x61#8, 0x61#8, 0x62#8, 0#8] [0x61#8, 0x62#8, 0#8] =
    .ok (some 1) := by
  obtain ⟨r, hrun, hsome, -⟩ := @strstr_first [0x61#8, 0x61#8, 0x62#8] [0x61#8, 0x62#8]
    ⟨by decide, by decide⟩ ⟨by decide, by decide⟩
  have hone : r = some 1 := by
    refine (hsome 1).mpr ⟨⟨[0x61#8], [], rfl, rfl⟩, fun q hq => ?_⟩
    obtain rfl := Nat.lt_one_iff.mp hq
    rintro ⟨front, back, happ, hlen⟩
    rw [List.length_eq_zero_iff.mp hlen] at happ
    simp at happ
  rw [hone] at hrun
  exact hrun

end Qboot
