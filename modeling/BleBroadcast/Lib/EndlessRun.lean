import Mathlib.Data.Set.Finite.Basic
import Mathlib.Order.Interval.Set.Infinite
import Mathlib.Order.WellFounded
import BleBroadcast.Lib.GuardedRun

/-!
# Endless runs

A system that never stops takes the events of a schedule, one for every number.  Where no
event raises a measure, the events that lower it are finitely many.  A schedule can be
followed for a while and then left for another one.
-/

set_option autoImplicit false

namespace BleBroadcast.Lib

universe u v

variable {State : Type u} {Event : Type v} {step : State → Event → State}

def stateAt (step : State → Event → State) (start : State) (schedule : Nat → Event) :
    Nat → State
  | 0 => start
  | n + 1 => step (stateAt step start schedule n) (schedule n)

/-- Every event meets `ok` in the state it is taken in. -/
def AlwaysGuarded (step : State → Event → State) (ok : State → Event → Prop) (start : State)
    (schedule : Nat → Event) : Prop :=
  ∀ n, ok (stateAt step start schedule n) (schedule n)

def countedAt (step : State → Event → State) (counted : State → Event → Prop) (start : State)
    (schedule : Nat → Event) : Set Nat :=
  {n | counted (stateAt step start schedule n) (schedule n)}

theorem stateAt_preserves {inv : State → Prop} {ok : State → Event → Prop}
    (keep : ∀ state event, inv state → ok state event → inv (step state event)) {start : State}
    (initial : inv start) {schedule : Nat → Event}
    (guarded : AlwaysGuarded step ok start schedule) (n : Nat) :
    inv (stateAt step start schedule n) := by
  induction n with
  | zero => exact initial
  | succ n ih => exact keep _ _ ih (guarded n)

/-! ## Measures -/

theorem finite_falls {measure : Nat → Nat} {falls : Nat → Prop}
    (never : ∀ n, measure (n + 1) ≤ measure n)
    (lower : ∀ n, falls n → measure (n + 1) < measure n) : {n | falls n}.Finite := by
  have below : ∀ n m, measure (n + m) ≤ measure n := by
    intro n m
    induction m with
    | zero => exact Nat.le_refl _
    | succ m ih => exact Nat.le_trans (never (n + m)) ih
  -- the least value is reached, and after it nothing falls
  obtain ⟨least, reached⟩ : ∃ least, ∀ n, measure least ≤ measure n :=
    ⟨Function.argmin measure, fun n => Function.argmin_le measure n⟩
  refine (Set.finite_lt_nat least).subset fun n fallsAt => ?_
  by_contra late
  obtain ⟨m, rfl⟩ := Nat.exists_eq_add_of_le (Nat.le_of_not_lt late)
  have atMost := below least m
  have atLeast := reached (least + m + 1)
  have falling := lower (least + m) fallsAt
  omega

/-- Termination by a variant: where no guarded event raises the measure and every counted one
lowers it, a guarded schedule has finitely many counted events. -/
theorem AlwaysGuarded.finite {inv : State → Prop} {ok counted : State → Event → Prop}
    (measure : State → Nat)
    (keep : ∀ state event, inv state → ok state event → inv (step state event))
    (never : ∀ state event, inv state → ok state event →
      measure (step state event) ≤ measure state)
    (lower : ∀ state event, inv state → ok state event → counted state event →
      measure (step state event) < measure state)
    {start : State} (initial : inv start) {schedule : Nat → Event}
    (guarded : AlwaysGuarded step ok start schedule) :
    (countedAt step counted start schedule).Finite := by
  have kept := stateAt_preserves keep initial guarded
  let measured := fun n => measure (stateAt step start schedule n)
  have falling : ∀ n, measured (n + 1) ≤ measured n :=
    fun n => never _ _ (kept n) (guarded n)
  have lowers : ∀ n, counted (stateAt step start schedule n) (schedule n) →
      measured (n + 1) < measured n := fun n => lower _ _ (kept n) (guarded n)
  exact finite_falls falling lowers

/-! ## Leaving a schedule for another one -/

/-- The first `n` events of one schedule, and then all of another one. -/
def switchAt (n : Nat) (first second : Nat → Event) (i : Nat) : Event :=
  if i < n then first i else second (i - n)

variable {start : State} {first second : Nat → Event} {n : Nat}

theorem switchAt_before {i : Nat} (before : i < n) : switchAt n first second i = first i :=
  if_pos before

theorem switchAt_after (i : Nat) : switchAt n first second (n + i) = second i := by
  rw [switchAt, if_neg (by omega), Nat.add_sub_cancel_left]

theorem stateAt_switchAt_before (step : State → Event → State) (start : State)
    (first second : Nat → Event) {i : Nat} (before : i ≤ n) :
    stateAt step start (switchAt n first second) i = stateAt step start first i := by
  induction i with
  | zero => rfl
  | succ i ih => rw [stateAt, stateAt, ih (by omega), switchAt_before before]

theorem stateAt_switchAt_after (step : State → Event → State) (start : State)
    (first second : Nat → Event) (n i : Nat) :
    stateAt step start (switchAt n first second) (n + i) =
      stateAt step (stateAt step start first n) second i := by
  induction i with
  | zero => exact stateAt_switchAt_before step start first second (Nat.le_refl n)
  | succ i ih => rw [← Nat.add_assoc, stateAt, stateAt, ih, switchAt_after]

theorem AlwaysGuarded.switchAt {ok : State → Event → Prop}
    (before : AlwaysGuarded step ok start first)
    (after : AlwaysGuarded step ok (stateAt step start first n) second) :
    AlwaysGuarded step ok start (switchAt n first second) := by
  intro i
  rcases Nat.lt_or_ge i n with early | late
  · rw [stateAt_switchAt_before step start first second (Nat.le_of_lt early),
      switchAt_before early]
    exact before i
  · obtain ⟨j, rfl⟩ := Nat.exists_eq_add_of_le late
    rw [stateAt_switchAt_after, switchAt_after]
    exact after j

theorem infinite_switchAt {counted : State → Event → Prop}
    (infinite : (countedAt step counted (stateAt step start first n) second).Infinite) :
    (countedAt step counted start (switchAt n first second)).Infinite := by
  intro finite
  apply infinite
  have apart : Set.InjOn (n + ·) (Set.preimage (n + ·)
      (countedAt step counted start (switchAt n first second))) :=
    fun _ _ _ _ same => Nat.add_left_cancel same
  have shifted := finite.preimage apart
  refine shifted.subset fun i isCounted => ?_
  show counted (stateAt step start (switchAt n first second) (n + i))
    (switchAt n first second (n + i))
  rw [stateAt_switchAt_after, switchAt_after]
  exact isCounted

end BleBroadcast.Lib
