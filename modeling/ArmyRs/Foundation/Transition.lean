import Mathlib.Tactic

/-!
# Runs of a partial step function

Every concurrent component is given by a function `step state event` that
answers with the next state, or with nothing when the event cannot happen in
that state.  `Run` collects the finite runs whose steps all meet a guard; an
unguarded run takes the guard that is always true.

`Run.invariant` is the induction over a run, stated once: what holds at the
start and is kept by every guarded step holds in every state reached.
-/

namespace ArmyRs
namespace Foundation

/-- Two actors are numbered by `Fin 2`; its numerals rest on this one fact. -/
instance neZero_two : NeZero (2 : ℕ) := ⟨two_ne_zero⟩

variable {State Event : Type*}

/-- A run from `start` along `events`; the guard holds at each step. -/
inductive Run (step : State → Event → Option State) (guard : State → Event → Prop)
    (start : State) : List Event → State → Prop
  | refl : Run step guard start [] start
  | snoc {events : List Event} {state : State} {event : Event} {next : State}
      (hrun : Run step guard start events state) (hguard : guard state event)
      (hstep : step state event = some next) :
      Run step guard start (events ++ [event]) next

/-- The guard of a run that is free to take any step. -/
def free : State → Event → Prop := fun _ _ => True

section

variable {step : State → Event → Option State} {guard weaker : State → Event → Prop}
  {start middle final : State} {events others : List Event}

/-- What every guarded step keeps holds along the whole run. -/
theorem Run.invariant {Inv : State → Prop} (hrun : Run step guard start events final)
    (hstart : Inv start)
    (hkeep : ∀ state event next, Inv state → guard state event →
      step state event = some next → Inv next) : Inv final := by
  induction hrun with
  | refl => exact hstart
  | snoc hrun hguard hstep ih => exact hkeep _ _ _ ih hguard hstep

/-- A run under a guard is a run under every weaker guard. -/
theorem Run.mono (hweaker : ∀ state event, guard state event → weaker state event)
    (hrun : Run step guard start events final) : Run step weaker start events final := by
  induction hrun with
  | refl => exact .refl
  | snoc hrun hguard hstep ih => exact .snoc ih (hweaker _ _ hguard) hstep

/-- A run under a guard is a run under one that is weaker wherever an invariant of
the run holds, for the steps that can be taken there. -/
theorem Run.mono_of_steps {Inv : State → Prop} (hstart : Inv start)
    (hweaker : ∀ state event next, Inv state → guard state event →
      step state event = some next → weaker state event)
    (hkeep : ∀ state event next, Inv state → guard state event →
      step state event = some next → Inv next)
    (hrun : Run step guard start events final) : Run step weaker start events final := by
  induction hrun with
  | refl => exact .refl
  | snoc hrun hguard hstep ih =>
      have hinv := hrun.invariant hstart hkeep
      exact .snoc ih (hweaker _ _ _ hinv hguard hstep) hstep

/-- The same when the other guard holds of all steps. -/
theorem Run.mono_of_invariant {Inv : State → Prop} (hstart : Inv start)
    (hweaker : ∀ state event, Inv state → guard state event → weaker state event)
    (hkeep : ∀ state event next, Inv state → guard state event →
      step state event = some next → Inv next)
    (hrun : Run step guard start events final) : Run step weaker start events final :=
  hrun.mono_of_steps hstart (fun state event _ hinv hguard _ => hweaker state event hinv hguard)
    hkeep

theorem Run.append (hrun : Run step guard start events middle)
    (hrest : Run step guard middle others final) :
    Run step guard start (events ++ others) final := by
  induction hrest with
  | refl => simpa using hrun
  | snoc hrest hguard hstep ih =>
      rw [← List.append_assoc]
      exact .snoc ih hguard hstep

/-- A simulation: every step is one of another system, and the states stay related. -/
theorem Run.simulate {State' : Type*} {step' : State' → Event → Option State'}
    {related : State → State' → Prop} {start' : State'}
    (hrun : Run step guard start events final) (hstart : related start start')
    (hstep : ∀ state event next state', related state state' → guard state event →
      step state event = some next →
        ∃ next', step' state' event = some next' ∧ related next next') :
    ∃ final', Run step' (fun _ _ => True) start' events final' ∧ related final final' := by
  induction hrun with
  | refl => exact ⟨start', .refl, hstart⟩
  | snoc hrun hguard hnext ih =>
      obtain ⟨state', hrun', hrelated⟩ := ih
      obtain ⟨next', hnext', hrelated'⟩ := hstep _ _ _ _ hrelated hguard hnext
      exact ⟨next', .snoc hrun' trivial hnext', hrelated'⟩

/-- A run that starts with a given step. -/
theorem Run.cons {event : Event} (hguard : guard start event)
    (hstep : step start event = some middle)
    (hrest : Run step guard middle events final) :
    Run step guard start (event :: events) final :=
  Run.append (.snoc .refl hguard hstep) hrest

end

/-- Executes a list of events, checking the guard before each step. -/
def exec (step : State → Event → Option State) (guard : State → Event → Prop)
    [∀ state event, Decidable (guard state event)] : State → List Event → Option State
  | state, [] => some state
  | state, event :: events =>
      if guard state event then
        match step state event with
        | none => none
        | some next => exec step guard next events
      else none

/-- What `exec` computes is a run. -/
theorem run_of_exec {step : State → Event → Option State} {guard : State → Event → Prop}
    [∀ state event, Decidable (guard state event)] {start final : State}
    {events : List Event} (h : exec step guard start events = some final) :
    Run step guard start events final := by
  induction events generalizing start with
  | nil =>
      cases h
      exact .refl
  | cons event events ih =>
      unfold exec at h
      split at h
      · next hguard =>
        split at h
        · cases h
        · next next hstep => exact .cons hguard hstep (ih h)
      · cases h

theorem eq_some_getD {α : Type*} {o : Option α} (other : α) (h : o.isSome = true) :
    o = some (o.getD other) := by
  obtain ⟨a, rfl⟩ := Option.isSome_iff_exists.mp h
  rfl

/-- The same when the final state is read off the execution. -/
theorem run_exec_getD {step : State → Event → Option State} {guard : State → Event → Prop}
    [∀ state event, Decidable (guard state event)] {start : State} {events : List Event}
    (other : State) (h : (exec step guard start events).isSome = true) :
    Run step guard start events ((exec step guard start events).getD other) :=
  run_of_exec (eq_some_getD other h)

instance (state : State) (event : Event) : Decidable (free state event) :=
  inferInstanceAs (Decidable True)

end Foundation
end ArmyRs
