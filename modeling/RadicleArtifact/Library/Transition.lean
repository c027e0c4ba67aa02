import Mathlib

/-!
# Transition systems

A system is a partial step function: `step state event` is the state after the
event, or `none` when the event cannot happen there.  `Reachable` ranges over the
runs all of whose steps a condition permits.
-/

namespace RadicleArtifact.Library

variable {State Event : Type*}

/-- The states that runs from `start` reach by permitted steps. -/
inductive Reachable (step : State → Event → Option State) (permitted : State → Event → Prop)
    (start : State) : State → Prop
  | start : Reachable step permitted start start
  | step {state : State} (event : Event) (next : State)
      (hreachable : Reachable step permitted start state)
      (hpermitted : permitted state event) (hstep : step state event = some next) :
      Reachable step permitted start next

/-- The condition that permits every step. -/
def anyStep : State → Event → Prop :=
  fun _ _ => True

section Rules

variable {step : State → Event → Option State} {permitted : State → Event → Prop}
  {start state : State}

/-- What holds at the start and is preserved by permitted steps holds in every
state reached. -/
theorem Reachable.invariant {holds : State → Prop} (hstart : holds start)
    (hstep : ∀ state event next, holds state → permitted state event →
      step state event = some next → holds next)
    (hreachable : Reachable step permitted start state) : holds state := by
  induction hreachable with
  | start => exact hstart
  | step event next _ hpermitted hnext ih => exact hstep _ event next ih hpermitted hnext

/-- A run: its events one after the other. -/
def run (step : State → Event → Option State) : State → List Event → Option State
  | state, [] => some state
  | state, event :: events => (step state event).bind fun next => run step next events

/-- The steps of a system that a condition permits. -/
def guarded (step : State → Event → Option State) (permitted : State → Event → Prop)
    [∀ state event, Decidable (permitted state event)] (state : State) (event : Event) :
    Option State :=
  if permitted state event then step state event else none

theorem Reachable.of_run_from [∀ state event, Decidable (permitted state event)]
    (hreachable : Reachable step permitted start state) {events : List Event} {final : State}
    (hrun : run (guarded step permitted) state events = some final) :
    Reachable step permitted start final := by
  induction events generalizing state with
  | nil =>
      rw [run, Option.some.injEq] at hrun
      exact hrun ▸ hreachable
  | cons event events ih =>
      rw [run, Option.bind_eq_some_iff] at hrun
      obtain ⟨next, hnext, hrest⟩ := hrun
      rw [guarded] at hnext
      by_cases hpermitted : permitted state event
      · rw [if_pos hpermitted] at hnext
        exact ih (hreachable.step event next hpermitted hnext) hrest
      · rw [if_neg hpermitted] at hnext
        contradiction

/-- A run of permitted steps ends in a reachable state. -/
theorem Reachable.of_run [∀ state event, Decidable (permitted state event)]
    {events : List Event} {final : State}
    (hrun : run (guarded step permitted) start events = some final) :
    Reachable step permitted start final :=
  Reachable.start.of_run_from hrun

/-- When every permitted step lowers a measure, a run is no longer than the measure at its
start. -/
theorem Reachable.length_le_of_run [∀ state event, Decidable (permitted state event)]
    {measure : State → ℕ} (hlower : ∀ state event next, Reachable step permitted start state →
      permitted state event → step state event = some next → measure next < measure state)
    (hreachable : Reachable step permitted start state) {events : List Event} {final : State}
    (hrun : run (guarded step permitted) state events = some final) :
    events.length ≤ measure state := by
  induction events generalizing state with
  | nil => exact Nat.zero_le _
  | cons event events ih =>
      rw [run, Option.bind_eq_some_iff] at hrun
      obtain ⟨next, hnext, hrest⟩ := hrun
      rw [guarded] at hnext
      by_cases hpermitted : permitted state event
      · rw [if_pos hpermitted] at hnext
        have hless := hlower state event next hreachable hpermitted hnext
        exact (ih (hreachable.step event next hpermitted hnext) hrest).trans_lt hless
      · rw [if_neg hpermitted] at hnext
        contradiction

/-- A state with a property, reached by a run of permitted steps. -/
theorem Reachable.exists_of_run [∀ state event, Decidable (permitted state event)]
    {events : List Event} {check : State → Bool}
    (hrun : (run (guarded step permitted) start events).any check = true) :
    ∃ final, Reachable step permitted start final ∧ check final = true := by
  rw [Option.any_eq_true] at hrun
  obtain ⟨final, hfinal, hcheck⟩ := hrun
  exact ⟨final, .of_run hfinal, hcheck⟩

end Rules

instance : ∀ (state : State) (event : Event), Decidable (anyStep state event) :=
  fun _ _ => inferInstanceAs (Decidable True)

end RadicleArtifact.Library
