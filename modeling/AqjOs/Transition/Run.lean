import Mathlib.Logic.Basic

/-!
# Runs of event-driven systems

A deterministic system is a step function `σ → ε → σ`; the nondeterminism of
its environment is carried by the events.  A run is a list of events folded
over a start state.  `Along` says that a relation between the state before a
step and its event holds at every step of a run, which is the form both of a
safety property and of a condition that a run is asked to meet.
-/

namespace AqjOs.Transition

universe u v

variable {σ : Type u} {ε : Type v}

/-- The state that a run of `step` reaches from `state`. -/
def run (step : σ → ε → σ) (state : σ) (events : List ε) : σ :=
  events.foldl step state

@[simp]
theorem run_nil (step : σ → ε → σ) (state : σ) : run step state [] = state :=
  rfl

@[simp]
theorem run_cons (step : σ → ε → σ) (state : σ) (event : ε) (events : List ε) :
    run step state (event :: events) = run step (step state event) events :=
  rfl

/-- `relation` holds between the state before each step of the run and the
event of that step. -/
def Along (step : σ → ε → σ) (relation : σ → ε → Prop) : σ → List ε → Prop
  | _, [] => True
  | state, event :: events =>
      relation state event ∧ Along step relation (step state event) events

@[simp]
theorem along_nil (step : σ → ε → σ) (relation : σ → ε → Prop) (state : σ) :
    Along step relation state [] :=
  trivial

@[simp]
theorem along_cons (step : σ → ε → σ) (relation : σ → ε → Prop) (state : σ)
    (event : ε) (events : List ε) :
    Along step relation state (event :: events) ↔
      relation state event ∧ Along step relation (step state event) events :=
  Iff.rfl

instance Along.decidable (step : σ → ε → σ) (relation : σ → ε → Prop)
    [∀ state event, Decidable (relation state event)] :
    (state : σ) → (events : List ε) → Decidable (Along step relation state events)
  | _, [] => isTrue trivial
  | state, event :: events =>
      have := Along.decidable step relation (step state event) events
      inferInstanceAs (Decidable (_ ∧ _))

/-- Relations that agree at every step hold along the same runs. -/
theorem along_congr {step : σ → ε → σ} {first second : σ → ε → Prop}
    (agree : ∀ state event, first state event ↔ second state event) (state : σ)
    (events : List ε) : Along step first state events ↔ Along step second state events := by
  induction events generalizing state with
  | nil => exact Iff.rfl
  | cons event events inductionHypothesis =>
      rw [along_cons, along_cons, agree, inductionHypothesis]

/-- Invariant rule.  An invariant that is preserved by every step meeting
`condition`, and that yields `safe` at every such step, makes every run that
meets `condition` throughout safe throughout. -/
theorem along_of_invariant {step : σ → ε → σ} {invariant : σ → Prop}
    {condition safe : σ → ε → Prop}
    (preserved : ∀ state event, invariant state → condition state event →
      invariant (step state event))
    (safeStep : ∀ state event, invariant state → condition state event →
      safe state event)
    {state : σ} (start : invariant state) {events : List ε}
    (meets : Along step condition state events) :
    Along step safe state events := by
  induction events generalizing state with
  | nil => trivial
  | cons event events inductionHypothesis =>
      obtain ⟨meetsFirst, meetsRest⟩ := meets
      exact ⟨safeStep state event start meetsFirst,
        inductionHypothesis (preserved state event start meetsFirst) meetsRest⟩

end AqjOs.Transition
