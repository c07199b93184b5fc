import Qboot.Lib.StateRun

/-!
Programs that write to a sink and never look at it. Such a program writes the
same items into every sink, and returns or stops in the same way, so what the
sink does with its items can be left out of the argument about the program.
-/

namespace Emission

variable {ε σ ι α β : Type}

/-- Items go into the sink one after the other. -/
def sendAll (put : σ → ι → σ) (s : σ) (items : List ι) : σ := items.foldl put s

/-- The program puts `items` into any sink and returns `a`. -/
def Sends (put : σ → ι → σ) (x : EStateM ε σ α) (items : List ι) (a : α) : Prop :=
  ∀ s, x s = .ok a (sendAll put s items)

/-- The program puts `items` into any sink and stops. -/
def Stops (put : σ → ι → σ) (x : EStateM ε σ α) (items : List ι) (e : ε) : Prop :=
  ∀ s, x s = .error e (sendAll put s items)

variable {put : σ → ι → σ} {x : EStateM ε σ α} {f : α → EStateM ε σ β} {items more : List ι}
  {a : α} {b : β} {e : ε}

theorem sendAll_append (s : σ) :
    sendAll put s (items ++ more) = sendAll put (sendAll put s items) more :=
  List.foldl_append

theorem Sends.pure (a : α) : Sends put (Pure.pure a : EStateM ε σ α) [] a := fun _ => rfl

/-- One item. -/
theorem Sends.one (i : ι) : Sends put (modify fun s => put s i : EStateM ε σ PUnit) [i] ⟨⟩ :=
  fun _ => rfl

theorem Sends.bind (hx : Sends put x items a) (hf : Sends put (f a) more b) :
    Sends put (x >>= f) (items ++ more) b := by
  intro s
  rw [StateRun.bind_of_ok (hx s), hf, sendAll_append]

theorem Stops.throw (e : ε) : Stops put (MonadExcept.throw e : EStateM ε σ α) [] e := fun _ => rfl

theorem Stops.bind_left (hx : Stops put x items e) : Stops put (x >>= f) items e :=
  fun s => StateRun.bind_of_error (hx s)

theorem Stops.bind_right (hx : Sends put x items a) (hf : Stops put (f a) more e) :
    Stops put (x >>= f) (items ++ more) e := by
  intro s
  rw [StateRun.bind_of_ok (hx s), hf, sendAll_append]

end Emission
