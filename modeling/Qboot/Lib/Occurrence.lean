import Mathlib.Data.List.Infix

/-!
Occurrences of one list in another, by their positions, and what a search from
the left has to answer.
-/

namespace Occurrence

variable {α : Type*}

/-- `needle` stands in `hay` from position `p` on. -/
def OccursAt (needle hay : List α) (p : Nat) : Prop :=
  ∃ front back, hay = front ++ needle ++ back ∧ front.length = p

/-- The answer of a search from the left: the first position, or none at all. -/
def IsFirst (needle hay : List α) : Option Nat → Prop
  | some p => OccursAt needle hay p ∧ ∀ q < p, ¬ OccursAt needle hay q
  | none => ∀ p, ¬ OccursAt needle hay p

theorem occursAt_nil (hay : List α) : OccursAt [] hay 0 := ⟨[], hay, rfl, rfl⟩

theorem OccursAt.le_length {needle hay : List α} {p : Nat} (h : OccursAt needle hay p) :
    p + needle.length ≤ hay.length := by
  obtain ⟨front, back, rfl, rfl⟩ := h
  simp only [List.length_append]
  omega

/-- At the end of a known front, an occurrence is a prefix of what follows. -/
theorem occursAt_append_iff {needle front rest : List α} :
    OccursAt needle (front ++ rest) front.length ↔ needle <+: rest := by
  constructor
  · rintro ⟨front', back, happ, hlen⟩
    rw [List.append_assoc] at happ
    obtain ⟨-, hrest⟩ := List.append_inj happ hlen.symm
    exact ⟨back, hrest.symm⟩
  · rintro ⟨back, rfl⟩
    exact ⟨front, back, (List.append_assoc _ _ _).symm, rfl⟩

theorem IsFirst.eq_some_iff {needle hay : List α} {r : Option Nat} (h : IsFirst needle hay r)
    (p : Nat) : r = some p ↔ OccursAt needle hay p ∧ ∀ q < p, ¬ OccursAt needle hay q := by
  constructor
  · rintro rfl
    exact h
  · rintro ⟨hp, hbefore⟩
    cases r with
    | none => exact absurd hp (h p)
    | some q =>
      obtain ⟨hq, hfirst⟩ := h
      rcases Nat.lt_trichotomy q p with hlt | rfl | hgt
      · exact absurd hq (hbefore q hlt)
      · rfl
      · exact absurd hp (hfirst p hgt)

theorem IsFirst.eq_none_iff {needle hay : List α} {r : Option Nat} (h : IsFirst needle hay r) :
    r = none ↔ ∀ p, ¬ OccursAt needle hay p := by
  cases r with
  | none => exact ⟨fun _ => h, fun _ => rfl⟩
  | some p =>
    refine ⟨fun hnone => absurd hnone (Option.some_ne_none p), fun hnever => ?_⟩
    exact absurd h.1 (hnever p)

end Occurrence
