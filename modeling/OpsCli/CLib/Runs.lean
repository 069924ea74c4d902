import Mathlib.Logic.Basic

/-!
# Runs of commands

A command takes a state to the next one, or has no defined result.  What holds
of every step of a run is derived from one step and an invariant.
-/

namespace OpsCli.CLib.Runs

variable {κ σ : Type}

def run (step : κ → σ → Option σ) : List κ → σ → Option σ
  | [], state => some state
  | command :: rest, state => (step command state).bind (run step rest)

/-- Every command of a run has a result and does what is asked of it. -/
def Throughout (step : κ → σ → Option σ) (lawful : κ → σ → σ → Prop) : List κ → σ → Prop
  | [], _ => True
  | command :: rest, state =>
    ∃ next, step command state = some next ∧ lawful command state next ∧
      Throughout step lawful rest next

/-- Every command of a run is allowed in the state before it. -/
def Admitted (step : κ → σ → Option σ) (allowed : κ → σ → Prop) : List κ → σ → Prop
  | [], _ => True
  | command :: rest, state =>
    allowed command state ∧ ∀ next, step command state = some next → Admitted step allowed rest next

variable {step : κ → σ → Option σ} {lawful : κ → σ → σ → Prop} {allowed : κ → σ → Prop}
  {invariant : σ → Prop}
  (keeps : ∀ command state, invariant state → allowed command state →
    ∃ next, step command state = some next ∧ lawful command state next ∧ invariant next)
  {state : σ} {commands : List κ}
include keeps

/-- What one allowed command does in a state with the invariant, all commands
of an admitted run do. -/
theorem throughout_of_admitted (start : invariant state)
    (admitted : Admitted step allowed commands state) : Throughout step lawful commands state := by
  induction commands generalizing state with
  | nil => trivial
  | cons command rest ih =>
    obtain ⟨now, later⟩ := admitted
    obtain ⟨next, ran, law, holds⟩ := keeps command state start now
    exact ⟨next, ran, law, ih holds (later next ran)⟩

omit keeps in
theorem throughout_of_forall (always : ∀ command state, invariant state →
      ∃ next, step command state = some next ∧ lawful command state next ∧ invariant next)
    (commands : List κ) (start : invariant state) : Throughout step lawful commands state := by
  induction commands generalizing state with
  | nil => trivial
  | cons command rest ih =>
    obtain ⟨next, ran, law, holds⟩ := always command state start
    exact ⟨next, ran, law, ih holds⟩

/-- If a lawful command was allowed, the lawful runs are the admitted ones. -/
theorem throughout_iff_admitted (exact : ∀ command state next, invariant state →
      step command state = some next → lawful command state next → allowed command state)
    (start : invariant state) :
    Throughout step lawful commands state ↔ Admitted step allowed commands state := by
  constructor
  · induction commands generalizing state with
    | nil => exact fun _ => trivial
    | cons command rest ih =>
      rintro ⟨next, ran, law, after⟩
      have now := exact command state next start ran law
      obtain ⟨other, ran', _, holds⟩ := keeps command state start now
      cases ran.symm.trans ran'
      refine ⟨now, fun other ranTo => ?_⟩
      cases ran.symm.trans ranTo
      exact ih holds after
  · exact throughout_of_admitted keeps start

end OpsCli.CLib.Runs
