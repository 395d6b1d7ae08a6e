import SimpleLang.Diagnostic

/-!
# Outcomes of steps one after another

Reading and checking are both done in steps that succeed or fail and go from state to state.
`Raises` says what the failures of a step have in common.
-/

namespace SimpleLang

variable {ε σ α β : Type} {x : EStateM ε σ α} {f : α → EStateM ε σ β} {a : α} {b : β} {e : ε}
  {s s' : σ}

/-- After a step that succeeds, the rest goes on with its result. -/
theorem bind_of_ok (h : x s = .ok a s') : (x >>= f) s = f a s' := by
  change EStateM.bind x f s = f a s'
  rw [EStateM.bind, h]

/-- After a step that fails, there is no rest. -/
theorem bind_of_error (h : x s = .error e s') : (x >>= f) s = .error e s' := by
  change EStateM.bind x f s = .error e s'
  rw [EStateM.bind, h]

/-- Two steps succeed one after the other if each of them does. -/
theorem bind_eq_ok_iff : (x >>= f) s = .ok b s' ↔ ∃ a t, x s = .ok a t ∧ f a t = .ok b s' := by
  constructor
  · intro h
    cases hx : x s with
    | ok a t =>
      rw [bind_of_ok hx] at h
      exact ⟨a, t, rfl, h⟩
    | error e t =>
      rw [bind_of_error hx] at h
      cases h
  · rintro ⟨a, t, hx, hf⟩
    rw [bind_of_ok hx, hf]

/-- Every failure of a step from a state satisfies `E`. -/
def Raises (s : σ) (x : EStateM ε σ α) (E : ε → σ → Prop) : Prop :=
  ∀ e s', x s = .error e s' → E e s'

namespace Raises

variable {E : ε → σ → Prop}

theorem of_ok (h : x s = .ok a s') : Raises s x E := by
  intro e t hrun
  cases h.symm.trans hrun

theorem of_error (h : x s = .error e s') (he : E e s') : Raises s x E := by
  intro e' t hrun
  cases h.symm.trans hrun
  exact he

/-- One step after another. -/
theorem bind (hx : Raises s x E) (hf : ∀ a s', x s = .ok a s' → Raises s' (f a) E) :
    Raises s (x >>= f) E := by
  intro e t hrun
  cases h : x s with
  | ok a s' =>
    rw [bind_of_ok h] at hrun
    exact hf a s' h e t hrun
  | error e' s' =>
    rw [bind_of_error h] at hrun
    cases hrun
    exact hx _ _ h

end Raises

end SimpleLang
