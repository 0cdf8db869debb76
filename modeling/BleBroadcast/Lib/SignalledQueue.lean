import Mathlib.Logic.Function.Iterate

/-!
# A queue with one wake-up bit

Producers append to a bounded queue and then, in a second step, set a bit.  The consumer
waits for the bit, which the wait clears, and takes items until it has a batch of a certain
size or finds the queue empty.  The bit does not count: items that were sent before it was
cleared have no other announcement than the batch that the wait began.
-/

set_option autoImplicit false

namespace BleBroadcast.Lib

universe u

/-- `announcing` are the producers that have sent an item and not set the bit yet, and
`received` is the number of items in the batch that the consumer is taking. -/
structure SignalledQueue (α : Type u) where
  queue : List α
  signal : Bool
  announcing : Nat
  received : Option Nat

namespace SignalledQueue

variable {α : Type u}

def empty : SignalledQueue α := ⟨[], false, 0, none⟩

/-- A producer sends an item, if there is room for it. -/
def send (capacity : Nat) (state : SignalledQueue α) (item : α) : SignalledQueue α :=
  if state.queue.length < capacity then
    { state with
      queue := state.queue ++ [item]
      announcing := state.announcing + 1 }
  else state

/-- A producer that has sent its item sets the bit. -/
def announce (state : SignalledQueue α) : SignalledQueue α :=
  { state with
    signal := true
    announcing := state.announcing - 1 }

/-- The wait returns: the bit is cleared and a batch begun. -/
def wake (state : SignalledQueue α) : SignalledQueue α :=
  { state with
    signal := false
    received := some 0 }

/-- The consumer takes the next item, or ends its batch. -/
def receive (limit : Nat) (state : SignalledQueue α) : SignalledQueue α :=
  match state.received with
  | none => state
  | some count =>
      if count < limit then
        match state.queue with
        | [] => { state with received := none }
        | _ :: rest =>
            { state with
              queue := rest
              received := some (count + 1) }
      else { state with received := none }

/-- No item is left that neither the bit, nor a producer, nor a batch will take care of. -/
def Attended (state : SignalledQueue α) : Prop :=
  state.received = none → state.signal = false → state.announcing = 0 → state.queue = []

/-- While no announcement is to come, what is left in the queue fits into the batch. -/
structure Accounted (limit : Nat) (state : SignalledQueue α) : Prop where
  idle : state.Attended
  batch : ∀ count, state.received = some count → state.signal = false → state.announcing = 0 →
    count + state.queue.length ≤ limit

variable {capacity limit : Nat} {state : SignalledQueue α}

theorem accounted_empty (limit : Nat) : (empty : SignalledQueue α).Accounted limit where
  idle := fun _ _ _ => rfl
  batch := fun _ absurd => by contradiction

theorem Accounted.send (accounted : state.Accounted limit) (item : α) :
    (state.send capacity item).Accounted limit := by
  unfold SignalledQueue.send
  split
  · exact ⟨fun _ _ absurd => by contradiction, fun _ _ _ absurd => by contradiction⟩
  · exact accounted

theorem accounted_announce (limit : Nat) : state.announce.Accounted limit where
  idle := fun _ absurd => by contradiction
  batch := fun _ _ absurd => by contradiction

/-- Whatever was announced before, a batch is begun in time if it can take all of the queue. -/
theorem accounted_wake (fits : state.queue.length ≤ limit) : state.wake.Accounted limit where
  idle := fun absurd => by contradiction
  batch := by
    intro count begun _ _
    obtain rfl := Option.some.inj begun
    rw [Nat.zero_add]
    exact fits

theorem Accounted.receive (accounted : state.Accounted limit) :
    (state.receive limit).Accounted limit := by
  unfold SignalledQueue.receive
  cases taking : state.received with
  | none => exact accounted
  | some count =>
      have left := accounted.batch count taking
      simp only
      split
      · cases waiting : state.queue with
        | nil => exact ⟨fun _ _ _ => rfl, fun _ absurd => by contradiction⟩
        | cons item rest =>
            refine ⟨fun absurd => by contradiction, fun more taken clear settled => ?_⟩
            obtain rfl := Option.some.inj taken
            have before := left clear settled
            rw [waiting, List.length_cons] at before
            show count + 1 + rest.length ≤ limit
            omega
      · refine ⟨fun _ clear settled => ?_, fun _ absurd => by contradiction⟩
        have before := left clear settled
        have nothing : state.queue.length = 0 := by omega
        exact List.length_eq_zero_iff.mp nothing

theorem length_send_le (within : state.queue.length ≤ capacity) (item : α) :
    (state.send capacity item).queue.length ≤ capacity := by
  unfold SignalledQueue.send
  split
  · rw [List.length_append, List.length_singleton]
    omega
  · exact within

theorem length_receive_le (limit : Nat) :
    (state.receive limit).queue.length ≤ state.queue.length := by
  unfold SignalledQueue.receive
  split
  · exact Nat.le_refl _
  · split
    · split
      · exact Nat.le_refl _
      · rename_i _ _ waiting
        rw [waiting]
        exact Nat.le_succ _
    · exact Nat.le_refl _

/-! ## A batch that cannot take all -/

theorem receive_iterate {begun : Nat} (taking : state.received = some begun) :
    ∀ count, begun + count ≤ limit → count ≤ state.queue.length →
      (receive limit)^[count] state =
        { state with
          queue := state.queue.drop count
          received := some (begun + count) } := by
  intro count
  induction count with
  | zero =>
      intro _ _
      rw [List.drop_zero, Nat.add_zero, ← taking]
      rfl
  | succ count ih =>
      intro within enough
      have longer : 0 < (state.queue.drop count).length := by
        rw [List.length_drop]
        omega
      obtain ⟨item, rest, left⟩ := List.exists_cons_of_length_pos longer
      have later : state.queue.drop (count + 1) = rest := by
        rw [← List.drop_drop, left]
        rfl
      have room : begun + count < limit := by omega
      rw [Function.iterate_succ_apply', ih (by omega) (by omega)]
      simp only [receive, left, if_pos room, later]
      rfl

theorem receive_overfull (overfull : limit < state.queue.length) :
    (receive limit)^[limit + 1] state.wake =
      { state with
        queue := state.queue.drop limit
        signal := false
        received := none } := by
  have taken : (receive limit)^[limit] state.wake = _ := receive_iterate rfl limit
    (by omega) (Nat.le_of_lt overfull)
  rw [Function.iterate_succ_apply', taken]
  simp [receive, wake]

end SignalledQueue

end BleBroadcast.Lib
