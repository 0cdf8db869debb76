import Mathlib.Data.List.Nodup

/-!
# Deferring work

Items arrive one by one.  An arriving item is handed over, put into a queue or
rejected; a pass over the front of the queue hands over, puts back or drops each
item of it.  The ledger keeps what happened.  Two laws hold over such moves:
nothing is lost or duplicated, and, if the passes respect the order, items are
handed over in the order they arrived in.
-/

set_option autoImplicit false

namespace BleBroadcast.Lib

universe u

/-- The arrived items, where the handed over, rejected and dropped ones went, and the queue. -/
structure Ledger (α : Type u) where
  taken : List α
  handed : List α
  rejected : List α
  dropped : List α
  queue : List α

inductive Arrival where
  | handOver
  | defer
  | reject
  deriving DecidableEq

inductive Outcome where
  | handOver
  | putBack
  | drop
  deriving DecidableEq

variable {α : Type u}

namespace Ledger

def empty : Ledger α := ⟨[], [], [], [], []⟩

def arrive (ledger : Ledger α) (item : α) : Arrival → Ledger α
  | .handOver =>
      { ledger with
        taken := ledger.taken ++ [item]
        handed := ledger.handed ++ [item] }
  | .defer =>
      { ledger with
        taken := ledger.taken ++ [item]
        queue := ledger.queue ++ [item] }
  | .reject =>
      { ledger with
        taken := ledger.taken ++ [item]
        rejected := ledger.rejected ++ [item] }

def settled (outcome : Outcome) (batch : List (α × Outcome)) : List α :=
  (batch.filter fun item => item.2 = outcome).map Prod.fst

/-- A batch from the front of the queue is settled; `rest` was behind it. -/
def pass (ledger : Ledger α) (batch : List (α × Outcome)) (rest : List α) : Ledger α :=
  { ledger with
    handed := ledger.handed ++ settled .handOver batch
    dropped := ledger.dropped ++ settled .drop batch
    queue := rest ++ settled .putBack batch }

@[simp] theorem settled_nil (outcome : Outcome) :
    settled outcome ([] : List (α × Outcome)) = [] := rfl

theorem settled_cons (outcome : Outcome) (first : α × Outcome) (rest : List (α × Outcome)) :
    settled outcome (first :: rest) =
      if first.2 = outcome then first.1 :: settled outcome rest else settled outcome rest := by
  simp only [settled, List.filter_cons, decide_eq_true_eq]
  split <;> rfl

theorem mem_settled {outcome : Outcome} {batch : List (α × Outcome)} {item : α} :
    item ∈ settled outcome batch ↔ (item, outcome) ∈ batch := by
  simp [settled]

theorem settled_map {β : Type u} (f : α → β) (outcome : Outcome) (batch : List (α × Outcome)) :
    settled outcome (batch.map fun item => (f item.1, item.2)) =
      (settled outcome batch).map f := by
  induction batch with
  | nil => rfl
  | cons first rest ih =>
      simp only [List.map_cons, settled_cons, ih]
      split <;> rfl

/-! ## Conservation -/

section Conservation

variable [DecidableEq α]

def Balanced (ledger : Ledger α) : Prop :=
  ∀ item, ledger.taken.count item =
    ledger.handed.count item + ledger.rejected.count item + ledger.dropped.count item +
      ledger.queue.count item

theorem balanced_empty : (empty : Ledger α).Balanced := fun _ => rfl

theorem Balanced.arrive {ledger : Ledger α} (balanced : ledger.Balanced) (item : α)
    (arrival : Arrival) : (ledger.arrive item arrival).Balanced := by
  intro other
  have before := balanced other
  cases arrival <;>
    simp only [Ledger.arrive, List.count_append] <;>
    omega

theorem count_settled (batch : List (α × Outcome)) (item : α) :
    (batch.map Prod.fst).count item =
      (settled .handOver batch).count item + (settled .drop batch).count item +
        (settled .putBack batch).count item := by
  induction batch with
  | nil => rfl
  | cons first rest ih =>
      obtain ⟨one, outcome⟩ := first
      cases outcome <;>
        simp only [settled_cons, List.map_cons, List.count_cons, ih, if_true, reduceCtorEq,
          if_false] <;>
        omega

theorem Balanced.pass {ledger : Ledger α} (balanced : ledger.Balanced)
    {batch : List (α × Outcome)} {rest : List α}
    (front : ledger.queue = batch.map Prod.fst ++ rest) : (ledger.pass batch rest).Balanced := by
  intro item
  have before := balanced item
  have split := count_settled batch item
  rw [front, List.count_append] at before
  simp only [Ledger.pass, List.count_append]
  omega

theorem Balanced.count_eq_one {ledger : Ledger α} (balanced : ledger.Balanced)
    (once : ledger.taken.Nodup) {item : α} (arrived : item ∈ ledger.taken) :
    ledger.handed.count item + ledger.rejected.count item + ledger.dropped.count item +
      ledger.queue.count item = 1 := by
  rw [← balanced item]
  exact List.count_eq_one_of_mem once arrived

end Conservation

/-! ## Order -/

/-- What was handed over and what waits is in the order `before`. -/
def Ordered (before : α → α → Prop) (ledger : Ledger α) : Prop :=
  (ledger.handed ++ ledger.queue).Pairwise before

theorem Ordered.arrive {before : α → α → Prop} {ledger : Ledger α}
    (ordered : ledger.Ordered before) {item : α} {arrival : Arrival}
    (last : ∀ other ∈ ledger.handed ++ ledger.queue, before other item)
    (direct : arrival = .handOver → ledger.queue = []) :
    (ledger.arrive item arrival).Ordered before := by
  have appended : ((ledger.handed ++ ledger.queue) ++ [item]).Pairwise before := by
    apply List.pairwise_append.mpr
    refine ⟨ordered, List.pairwise_singleton before item, fun other member _ single => ?_⟩
    rw [List.mem_singleton.mp single]
    exact last other member
  cases arrival with
  | handOver =>
      have emptyQueue := direct rfl
      simpa [Ordered, Ledger.arrive, emptyQueue] using appended
  | defer => simpa [Ordered, Ledger.arrive] using appended
  | reject => exact ordered

/-- Nothing is handed over after an item of the batch was put back. -/
def RespectsOrder (batch : List (α × Outcome)) : Prop :=
  batch.Pairwise fun first second => ¬ (first.2 = .putBack ∧ second.2 = .handOver)

theorem settled_sublist (outcome : Outcome) (batch : List (α × Outcome)) :
    (settled outcome batch).Sublist (batch.map Prod.fst) :=
  List.filter_sublist.map Prod.fst

theorem handed_then_putBack {batch : List (α × Outcome)} (respects : RespectsOrder batch) :
    (settled .handOver batch ++ settled .putBack batch).Sublist (batch.map Prod.fst) := by
  induction batch with
  | nil => simp
  | cons first rest ih =>
      obtain ⟨item, outcome⟩ := first
      obtain ⟨noLater, respects⟩ := List.pairwise_cons.mp respects
      have sub := ih respects
      cases outcome with
      | handOver => simpa [settled_cons] using sub
      | drop => simpa [settled_cons] using sub.cons item
      | putBack =>
          have none : settled .handOver rest = [] := by
            simp only [settled, List.map_eq_nil_iff, List.filter_eq_nil_iff, decide_eq_true_eq]
            exact fun other member handedOver => noLater other member ⟨rfl, handedOver⟩
          simp only [settled_cons, none, List.nil_append, reduceCtorEq, if_false, if_true,
            List.map_cons] at sub ⊢
          exact sub.cons_cons item

theorem Ordered.pass {before : α → α → Prop} {ledger : Ledger α}
    (ordered : ledger.Ordered before) {batch : List (α × Outcome)} {rest : List α}
    (front : ledger.queue = batch.map Prod.fst ++ rest)
    (respects : RespectsOrder batch)
    (whole : settled .putBack batch ≠ [] → rest = []) :
    (ledger.pass batch rest).Ordered before := by
  rw [Ordered, front] at ordered
  refine ordered.sublist ?_
  simp only [Ledger.pass, List.append_assoc]
  refine List.Sublist.append_left ?_ _
  by_cases none : settled .putBack batch = []
  · rw [none, List.append_nil]
    exact (settled_sublist .handOver batch).append_right rest
  · rw [whole none, List.nil_append, List.append_nil]
    exact handed_then_putBack respects

/-! ## Moves -/

/-- What one step may do to a ledger.  An arriving item is `fresh`, and handed over only
past an empty queue; of the passes only the `allowed` ones are made. -/
inductive Move (fresh : α → Prop) (allowed : List (α × Outcome) → List α → Prop)
    (ledger : Ledger α) : Ledger α → Prop where
  | stay : ledger.Move fresh allowed ledger
  | arrive (item : α) (arrival : Arrival) (new : fresh item)
      (direct : arrival = .handOver → ledger.queue = []) :
      ledger.Move fresh allowed (ledger.arrive item arrival)
  | pass (batch : List (α × Outcome)) (rest : List α)
      (front : ledger.queue = batch.map Prod.fst ++ rest) (ok : allowed batch rest) :
      ledger.Move fresh allowed (ledger.pass batch rest)

def KeepsOrder (batch : List (α × Outcome)) (rest : List α) : Prop :=
  RespectsOrder batch ∧ (settled .putBack batch ≠ [] → rest = [])

instance keepsOrderDecidable [DecidableEq α] (batch : List (α × Outcome)) (rest : List α) :
    Decidable (KeepsOrder batch rest) :=
  inferInstanceAs (Decidable ((batch.Pairwise fun first second =>
    ¬ (first.2 = .putBack ∧ second.2 = .handOver)) ∧ (settled .putBack batch ≠ [] → rest = [])))

variable {before : α → α → Prop} {fresh : α → Prop}
  {allowed : List (α × Outcome) → List α → Prop} {ledger next : Ledger α}

theorem Move.taken_pairwise (move : ledger.Move fresh allowed next)
    (inOrder : ledger.taken.Pairwise before)
    (last : ∀ item, fresh item → ∀ other ∈ ledger.taken, before other item) :
    next.taken.Pairwise before := by
  cases move with
  | stay => exact inOrder
  | pass => exact inOrder
  | arrive item arrival new _ =>
      have appended : (ledger.taken ++ [item]).Pairwise before :=
        List.pairwise_append.mpr ⟨inOrder, List.pairwise_singleton before item,
          fun other member _ single => List.mem_singleton.mp single ▸ last item new other member⟩
      cases arrival <;> exact appended

theorem Move.taken_forall (move : ledger.Move fresh allowed next) {bounded : α → Prop}
    (all : ∀ item ∈ ledger.taken, bounded item) (new : ∀ item, fresh item → bounded item) :
    ∀ item ∈ next.taken, bounded item := by
  cases move with
  | stay => exact all
  | pass => exact all
  | arrive item arrival isNew _ =>
      have appended : ∀ other ∈ ledger.taken ++ [item], bounded other := by
        intro other member
        rcases List.mem_append.mp member with early | single
        · exact all other early
        · exact List.mem_singleton.mp single ▸ new item isNew
      cases arrival <;> exact appended

theorem Move.balanced [DecidableEq α] (move : ledger.Move fresh allowed next)
    (balanced : ledger.Balanced) : next.Balanced := by
  cases move with
  | stay => exact balanced
  | arrive item arrival _ _ => exact balanced.arrive item arrival
  | pass batch rest front _ => exact balanced.pass front

theorem Balanced.mem_taken [DecidableEq α] (balanced : ledger.Balanced) {item : α}
    (member : item ∈ ledger.handed ++ ledger.queue) : item ∈ ledger.taken := by
  have positive : 0 < (ledger.handed ++ ledger.queue).count item := List.count_pos_iff.mpr member
  have all := balanced item
  rw [List.count_append] at positive
  exact List.count_pos_iff.mp (by omega)

theorem Move.ordered [DecidableEq α] (move : ledger.Move fresh KeepsOrder next)
    (ordered : ledger.Ordered before) (balanced : ledger.Balanced)
    (last : ∀ item, fresh item → ∀ other ∈ ledger.taken, before other item) :
    next.Ordered before := by
  cases move with
  | stay => exact ordered
  | arrive item arrival new direct =>
      exact ordered.arrive (fun other member => last item new other (balanced.mem_taken member))
        direct
  | pass batch rest front ok => exact ordered.pass front ok.1 ok.2

end Ledger

end BleBroadcast.Lib
