import Mathlib.Logic.Basic

/-!
# Runs whose steps all meet a guard

A deterministic system is a step function on states.  A run is the list of
events it takes; a guard is a condition on an event in the state it is taken
in.  `Guarded` says that every event of a run meets the guard, and the rules
below carry what one guarded step keeps to what a guarded run keeps.
-/

set_option autoImplicit false

namespace BleBroadcast.Lib

universe u v

variable {State : Type u} {Event : Type v}

/-- The state after the events, taken in order. -/
def run (step : State → Event → State) (start : State) (events : List Event) : State :=
  events.foldl step start

/-- Every event meets `ok` in the state it is taken in. -/
def Guarded (step : State → Event → State) (ok : State → Event → Prop) :
    State → List Event → Prop
  | _, [] => True
  | state, event :: rest => ok state event ∧ Guarded step ok (step state event) rest

instance guardedDecidable (step : State → Event → State) (ok : State → Event → Prop)
    [∀ state event, Decidable (ok state event)] :
    ∀ (state : State) (events : List Event), Decidable (Guarded step ok state events)
  | _, [] => isTrue trivial
  | state, event :: rest =>
      have := guardedDecidable step ok (step state event) rest
      inferInstanceAs (Decidable (ok state event ∧ Guarded step ok (step state event) rest))

variable {step : State → Event → State} {ok : State → Event → Prop}

@[simp] theorem run_nil (start : State) : run step start [] = start := rfl

@[simp] theorem run_cons (start : State) (event : Event) (rest : List Event) :
    run step start (event :: rest) = run step (step start event) rest := rfl

theorem run_preserves (inv : State → Prop)
    (keep : ∀ state event, inv state → inv (step state event))
    {start : State} (initial : inv start) (events : List Event) :
    inv (run step start events) := by
  induction events generalizing start with
  | nil => exact initial
  | cons event rest ih => exact ih (keep start event initial)

@[simp] theorem guarded_nil (start : State) : Guarded step ok start [] := trivial

@[simp] theorem guarded_cons (start : State) (event : Event) (rest : List Event) :
    Guarded step ok start (event :: rest) ↔
      ok start event ∧ Guarded step ok (step start event) rest := Iff.rfl

theorem Guarded.preserves {inv : State → Prop}
    (keep : ∀ state event, inv state → ok state event → inv (step state event))
    {start : State} {events : List Event} (initial : inv start)
    (guarded : Guarded step ok start events) : inv (run step start events) := by
  induction events generalizing start with
  | nil => exact initial
  | cons event rest ih => exact ih (keep start event initial guarded.1) guarded.2

theorem run_append (start : State) (first second : List Event) :
    run step start (first ++ second) = run step (run step start first) second :=
  List.foldl_append

theorem guarded_append {start : State} {first second : List Event} :
    Guarded step ok start (first ++ second) ↔
      Guarded step ok start first ∧ Guarded step ok (run step start first) second := by
  induction first generalizing start with
  | nil => simp
  | cons event rest ih =>
      rw [List.cons_append, guarded_cons, guarded_cons, ih, run_cons, and_assoc]

theorem Guarded.of_prefix {start : State} {events reached : List Event}
    (guarded : Guarded step ok start events) (isPrefix : reached <+: events) :
    Guarded step ok start reached := by
  obtain ⟨rest, rfl⟩ := isPrefix
  exact (guarded_append.mp guarded).1

/-- Where guarded steps keep an invariant under which the guard entails another property of
the step, every step of a guarded run has that property. -/
theorem Guarded.entails {inv : State → Prop} {good : State → Event → Prop}
    (keep : ∀ state event, inv state → ok state event → inv (step state event))
    (entails : ∀ state event, inv state → ok state event → good state event)
    {start : State} {events : List Event} (initial : inv start)
    (guarded : Guarded step ok start events) : Guarded step good start events := by
  induction events generalizing start with
  | nil => trivial
  | cons event rest ih =>
      exact ⟨entails start event initial guarded.1,
        ih (keep start event initial guarded.1) guarded.2⟩

theorem guarded_of_forall {start : State} {events : List Event}
    (free : ∀ event ∈ events, ∀ state, ok state event) : Guarded step ok start events := by
  induction events generalizing start with
  | nil => trivial
  | cons event rest ih =>
      exact ⟨free event List.mem_cons_self start,
        ih fun other member => free other (List.mem_cons_of_mem _ member)⟩

theorem Guarded.forall {good : Event → Prop} {start : State} {events : List Event}
    (guarded : Guarded step (fun _ event => good event) start events) :
    ∀ event ∈ events, good event := by
  induction events generalizing start with
  | nil => exact fun _ member => absurd member List.not_mem_nil
  | cons first rest ih =>
      intro event member
      rcases List.mem_cons.mp member with rfl | later
      · exact guarded.1
      · exact ih guarded.2 event later

/-- Where guarded steps keep an invariant that makes a state good, and every other step
makes it bad, a run is good all along exactly if all its steps are guarded. -/
theorem guarded_iff_always {inv good : State → Prop}
    (keep : ∀ state event, inv state → ok state event → inv (step state event))
    (breaks : ∀ state event, inv state → ¬ ok state event → ¬ good (step state event))
    (sound : ∀ state, inv state → good state) {start : State} (initial : inv start)
    (events : List Event) :
    Guarded step ok start events ↔
      ∀ reached, reached <+: events → good (run step start reached) := by
  constructor
  · intro guarded reached isPrefix
    exact sound _ ((guarded.of_prefix isPrefix).preserves keep initial)
  · intro always
    induction events generalizing start with
    | nil => trivial
    | cons event rest ih =>
        have first : ok start event := Classical.byContradiction fun unguarded =>
          breaks start event initial unguarded (always [event] ⟨rest, List.singleton_append⟩)
        refine ⟨first, ih (keep start event initial first) fun reached isPrefix => ?_⟩
        exact always (event :: reached) (List.cons_prefix_cons.mpr ⟨rfl, isPrefix⟩)

end BleBroadcast.Lib
