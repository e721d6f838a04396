import SparseEngine.Lib.Routine

/-!
# Two programs in lockstep

Two calls on related states run in lockstep if they return together with
related values or raise the same exception, and leave related states either
way.  Lockstep composes along `bind`, so it is proved for a method from its
parts.
-/

namespace Routine

variable {σ τ α β γ δ : Type}

/-- Two results are related: both are values that `values` relates, or the same
raise. -/
def SameResult (values : α → β → Prop) : Except PyError α → Except PyError β → Prop
  | .ok a, .ok b => values a b
  | .error e, .error e' => e = e'
  | _, _ => False

/-- From related states the two calls have related results and leave related
states. -/
def Lockstep (states : σ → τ → Prop) (values : α → β → Prop) (first : Routine σ α)
    (second : Routine τ β) : Prop :=
  ∀ left right, states left right →
    SameResult values (first left).1 (second right).1 ∧
      states (first left).2 (second right).2

namespace Lockstep

variable {states : σ → τ → Prop} {values : α → β → Prop}

theorem pure {a : α} {b : β} (hvalues : values a b) :
    Lockstep states values (Pure.pure a) (Pure.pure b) :=
  fun _ _ hstates => ⟨hvalues, hstates⟩

theorem read : Lockstep states states (read : Routine σ σ) (read : Routine τ τ) :=
  fun _ _ hstates => ⟨hstates, hstates⟩

theorem write {update : σ → σ} {update' : τ → τ}
    (hupdate : ∀ left right, states left right → states (update left) (update' right)) :
    Lockstep states (fun _ _ => True) (write update) (write update') :=
  fun left right hstates => ⟨trivial, hupdate left right hstates⟩

theorem raiseIf {condition condition' : Prop} [Decidable condition] [Decidable condition']
    {error error' : PyError} (hcondition : condition ↔ condition') (herror : error = error') :
    Lockstep states (fun _ _ => True) (raiseIf condition error) (raiseIf condition' error') := by
  intro left right hstates
  rw [raiseIf_apply, raiseIf_apply]
  by_cases h : condition
  · rw [if_pos h, if_pos (hcondition.mp h)]
    exact ⟨herror, hstates⟩
  · rw [if_neg h, if_neg fun h' => h (hcondition.mpr h')]
    exact ⟨trivial, hstates⟩

theorem ofExcept {result : Except PyError α} {result' : Except PyError β}
    (hresult : SameResult values result result') :
    Lockstep states values (ofExcept result) (ofExcept result') :=
  fun _ _ hstates => ⟨hresult, hstates⟩

/-- The same computation on both sides. -/
theorem ofExcept_self (result : Except PyError α) :
    Lockstep states Eq (Routine.ofExcept result) (Routine.ofExcept result) := by
  apply ofExcept
  cases result with
  | error error => exact rfl
  | ok a => exact rfl

variable {first : Routine σ α} {second : Routine τ β}

theorem bind {next : α → Routine σ γ} {next' : β → Routine τ δ} {values' : γ → δ → Prop}
    (hfirst : Lockstep states values first second)
    (hnext : ∀ a b, values a b → Lockstep states values' (next a) (next' b)) :
    Lockstep states values' (first >>= next) (second >>= next') := by
  intro left right hstates
  obtain ⟨hresult, hafter⟩ := hfirst left right hstates
  rw [bind_apply, bind_apply]
  rcases hleft : first left with ⟨error | a, leftNext⟩
  · rcases hright : second right with ⟨error' | b, rightNext⟩
    · rw [hleft, hright] at hresult hafter
      exact ⟨hresult, hafter⟩
    · rw [hleft, hright] at hresult
      exact hresult.elim
  · rcases hright : second right with ⟨error' | b, rightNext⟩
    · rw [hleft, hright] at hresult
      exact hresult.elim
    · rw [hleft, hright] at hresult hafter
      exact hnext a b hresult leftNext rightNext hafter

/-- Calls in lockstep leave related states. -/
theorem after {left : σ} {right : τ} (hlockstep : Lockstep states values first second)
    (hstates : states left right) : states (first.after left) (second.after right) :=
  (hlockstep left right hstates).2

end Lockstep

end Routine
