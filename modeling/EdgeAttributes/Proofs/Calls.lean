import Mathlib

namespace EdgeAttributes

variable {ε σ γ : Type} {call : γ → EStateM ε σ Unit} {s s' : σ} {c : γ}

/-- The state that a call leaves, whether it returns or is refused. -/
def stateAfter (call : γ → EStateM ε σ Unit) (s : σ) (c : γ) : σ :=
  match call c s with
  | .ok () s' => s'
  | .error _ s' => s'

/-- The state that calls leave, one after the other. -/
def stateAfterAll (call : γ → EStateM ε σ Unit) (s : σ) (cs : List γ) : σ :=
  cs.foldl (stateAfter call) s

theorem stateAfter_of_ok (h : call c s = .ok () s') : stateAfter call s c = s' := by
  rw [stateAfter, h]

theorem stateAfter_of_error {e : ε} (h : call c s = .error e s') : stateAfter call s c = s' := by
  rw [stateAfter, h]

theorem stateAfterAll_cons (call : γ → EStateM ε σ Unit) (s : σ) (c : γ) (cs : List γ) :
    stateAfterAll call s (c :: cs) = stateAfterAll call (stateAfter call s c) cs := rfl

/-- What one call keeps true, all of them do, also those that are refused. -/
theorem stateAfterAll_invariant {P : σ → Prop} (hcall : ∀ s c, P s → P (stateAfter call s c))
    (hs : P s) (cs : List γ) : P (stateAfterAll call s cs) := by
  induction cs generalizing s with
  | nil => exact hs
  | cons c cs ih => exact ih (hcall s c hs)

end EdgeAttributes
