import Mathlib

/-!
Runs of programs that read and write a state and may stop early. A stopped
run keeps the state in which it stopped. The first part says what each
constructor of a program does to a state, the second part gives the rules for
an invariant that every state of a run keeps, whether the run returns or
stops.
-/

namespace StateRun

variable {ε σ α β : Type}

@[simp] theorem pure_apply (a : α) (s : σ) : (pure a : EStateM ε σ α) s = .ok a s := rfl

@[simp] theorem get_apply (s : σ) : (get : EStateM ε σ σ) s = .ok s s := rfl

@[simp] theorem set_apply (s t : σ) : (set t : EStateM ε σ PUnit) s = .ok ⟨⟩ t := rfl

@[simp] theorem modify_apply (f : σ → σ) (s : σ) :
    (modify f : EStateM ε σ PUnit) s = .ok ⟨⟩ (f s) := rfl

@[simp] theorem modifyGet_apply (f : σ → α × σ) (s : σ) :
    (modifyGet f : EStateM ε σ α) s = .ok (f s).1 (f s).2 := rfl

@[simp] theorem throw_apply (e : ε) (s : σ) : (throw e : EStateM ε σ α) s = .error e s := rfl

theorem ite_apply (c : Prop) [Decidable c] (x y : EStateM ε σ α) (s : σ) :
    (if c then x else y) s = if c then x s else y s := by
  split <;> rfl

theorem bind_apply (x : EStateM ε σ α) (f : α → EStateM ε σ β) (s : σ) :
    (x >>= f) s = match x s with
      | .ok a t => f a t
      | .error e t => .error e t := rfl

/-- A sequence returns exactly when both of its parts return. -/
theorem bind_ok {x : EStateM ε σ α} {f : α → EStateM ε σ β} {s s' : σ} {b : β} :
    (x >>= f) s = .ok b s' ↔ ∃ a t, x s = .ok a t ∧ f a t = .ok b s' := by
  rw [bind_apply]
  cases x s <;> simp

/-- A sequence stops in its first part or in its second part. -/
theorem bind_error {x : EStateM ε σ α} {f : α → EStateM ε σ β} {s s' : σ} {e : ε} :
    (x >>= f) s = .error e s' ↔
      x s = .error e s' ∨ ∃ a t, x s = .ok a t ∧ f a t = .error e s' := by
  rw [bind_apply]
  cases x s <;> simp

theorem bind_of_ok {x : EStateM ε σ α} {f : α → EStateM ε σ β} {s t : σ} {a : α}
    (h : x s = .ok a t) : (x >>= f) s = f a t := by
  rw [bind_apply, h]

theorem bind_of_error {x : EStateM ε σ α} {f : α → EStateM ε σ β} {s t : σ} {e : ε}
    (h : x s = .error e t) : (x >>= f) s = .error e t := by
  rw [bind_apply, h]

/-- Sequences whose parts end alike. -/
theorem bind_eq {x y : EStateM ε σ α} {f g : α → EStateM ε σ β} {s t : σ} (h : x s = y t)
    (hfg : ∀ a u, y t = .ok a u → f a u = g a u) : (x >>= f) s = (y >>= g) t := by
  rw [bind_apply, bind_apply, h]
  cases hrun : y t with
  | ok a u => exact hfg a u hrun
  | error e u => rfl

/-- A step that is only taken under a condition. -/
theorem ite_bind_of_ok {c : Prop} [Decidable c] {x : EStateM ε σ PUnit}
    {f : PUnit → EStateM ε σ β} {s t : σ} (hyes : c → x s = .ok ⟨⟩ t) (hno : ¬ c → s = t) :
    (if c then x >>= f else f ⟨⟩) s = f ⟨⟩ t := by
  split
  · rename_i hc
    exact bind_of_ok (hyes hc)
  · rename_i hc
    rw [hno hc]

/-- The state a run ends in. -/
def final : EStateM.Result ε σ α → σ
  | .ok _ s => s
  | .error _ s => s

/-- What a run returned. -/
def value : EStateM.Result ε σ α → Option α
  | .ok a _ => some a
  | .error _ _ => none

/-- Whether a run returned. -/
def returned : EStateM.Result ε σ α → Bool
  | .ok _ _ => true
  | .error _ _ => false

theorem eq_ok_of_returned {r : EStateM.Result ε σ Unit} (h : returned r = true) :
    r = .ok () (final r) := by
  cases r with
  | ok a s => rfl
  | error e s => cases h

/-- The same end of a run, in a changed state. -/
def mapState (f : σ → σ) : EStateM.Result ε σ α → EStateM.Result ε σ α
  | .ok a s => .ok a (f s)
  | .error e s => .error e (f s)

/-- A sequence of two programs that do not see a change of the state does not
see it either. -/
theorem bind_mapState {x : EStateM ε σ α} {g : α → EStateM ε σ β} {f : σ → σ} {s : σ}
    (hx : x (f s) = mapState f (x s))
    (hg : ∀ a t, x s = .ok a t → g a (f t) = mapState f (g a t)) :
    (x >>= g) (f s) = mapState f ((x >>= g) s) := by
  rw [bind_apply, bind_apply, hx]
  cases hrun : x s with
  | ok a t => exact hg a t hrun
  | error e t => rfl

/-! ### Invariants of a run -/

/-- From a state with `I`, the program ends in a state with `I`. -/
def Keeps (I : σ → Prop) (x : EStateM ε σ α) : Prop := ∀ s, I s → I (final (x s))

section Keeps

variable {I : σ → Prop}

theorem Keeps.pure (a : α) : Keeps I (Pure.pure a : EStateM ε σ α) := fun _ h => h

theorem Keeps.get : Keeps I (MonadState.get : EStateM ε σ σ) := fun _ h => h

theorem Keeps.throw (e : ε) : Keeps I (MonadExcept.throw e : EStateM ε σ α) := fun _ h => h

theorem Keeps.modify {f : σ → σ} (h : ∀ s, I s → I (f s)) :
    Keeps I (modify f : EStateM ε σ PUnit) := fun s hs => h s hs

theorem Keeps.modifyGet {f : σ → α × σ} (h : ∀ s, I s → I (f s).2) :
    Keeps I (modifyGet f : EStateM ε σ α) := fun s hs => h s hs

/-- A sequence ends with `I` if its first part does. -/
theorem Keeps.after {x : EStateM ε σ α} {f : α → EStateM ε σ β} (hf : ∀ a, Keeps I (f a)) {s : σ}
    (hx : I (final (x s))) : I (final ((x >>= f) s)) := by
  rw [bind_apply]
  cases hrun : x s with
  | ok a t =>
    rw [hrun] at hx
    exact hf a t hx
  | error e t =>
    rw [hrun] at hx
    exact hx

theorem Keeps.bind {x : EStateM ε σ α} {f : α → EStateM ε σ β} (hx : Keeps I x)
    (hf : ∀ a, Keeps I (f a)) : Keeps I (x >>= f) :=
  fun s hs => Keeps.after hf (hx s hs)

theorem Keeps.ite {c : Prop} [Decidable c] {x y : EStateM ε σ α} (hx : Keeps I x)
    (hy : Keeps I y) : Keeps I (if c then x else y) := by
  split
  · exact hx
  · exact hy

/-- A loop keeps what its body keeps. -/
theorem Keeps.forM {f : α → EStateM ε σ PUnit} (l : List α) (hf : ∀ a ∈ l, Keeps I (f a)) :
    Keeps I (forM l f) := by
  induction l with
  | nil => exact Keeps.pure _
  | cons a l ih =>
    rw [List.forM_cons]
    exact Keeps.bind (hf a (by simp)) fun _ => ih fun b hb => hf b (by simp [hb])

end Keeps

end StateRun
