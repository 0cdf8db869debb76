import Mathlib.Data.List.Basic

/-!
# Comparing the neighbours of a stream in batches

A stream is compared item by item with its neighbour, and an item is selected if the test
with the next one succeeds.  The stream comes in batches, and the last item of each batch
is carried to the next one.  Where the batches end does not matter.
-/

set_option autoImplicit false

namespace BleBroadcast.Lib

universe u v

variable {α : Type u} (test : α → α → Bool)

/-- The items that pass the test with the item after them, in order. -/
def selectedPairs (stream : List α) : List α :=
  ((stream.zip stream.tail).filter fun pair => test pair.1 pair.2).map Prod.fst

@[simp] theorem selectedPairs_nil : selectedPairs test [] = [] := rfl

@[simp] theorem selectedPairs_singleton (item : α) : selectedPairs test [item] = [] := rfl

theorem selectedPairs_cons_cons (first second : α) (rest : List α) :
    selectedPairs test (first :: second :: rest) =
      if test first second then first :: selectedPairs test (second :: rest)
      else selectedPairs test (second :: rest) := by
  simp only [selectedPairs, List.tail_cons, List.zip_cons_cons, List.filter_cons]
  split <;> rfl

theorem mem_of_mem_selectedPairs {stream : List α} {item : α}
    (selected : item ∈ selectedPairs test stream) : item ∈ stream := by
  obtain ⟨pair, member, rfl⟩ := List.mem_map.mp selected
  exact (List.of_mem_zip (List.mem_of_mem_filter member)).1

theorem selectedPairs_sublist (stream : List α) :
    (selectedPairs test stream).Sublist stream.dropLast := by
  induction stream with
  | nil => exact .slnil
  | cons first rest ih =>
      cases rest with
      | nil => exact List.nil_sublist _
      | cons second others =>
          rw [selectedPairs_cons_cons, List.dropLast_cons_cons]
          split
          · exact ih.cons_cons first
          · exact ih.cons first

theorem selectedPairs_eq_dropLast {stream : List α}
    (all : ∀ first ∈ stream, ∀ second ∈ stream, test first second = true) :
    selectedPairs test stream = stream.dropLast := by
  induction stream with
  | nil => rfl
  | cons first rest ih =>
      cases rest with
      | nil => rfl
      | cons second others =>
          have accepted := all first List.mem_cons_self second
            (List.mem_cons_of_mem first List.mem_cons_self)
          rw [selectedPairs_cons_cons, if_pos accepted, List.dropLast_cons_cons, ih]
          exact fun a isA b isB =>
            all a (List.mem_cons_of_mem first isA) b (List.mem_cons_of_mem first isB)

theorem selectedPairs_map {β : Type v} (other : β → β → Bool) (item : β → α) {stream : List β}
    (agree : stream.IsChain fun first second =>
      test (item first) (item second) = other first second) :
    selectedPairs test (stream.map item) = (selectedPairs other stream).map item := by
  induction agree with
  | nil => rfl
  | singleton => rfl
  | cons_cons same _ ih =>
      rw [List.map_cons, List.map_cons, selectedPairs_cons_cons, selectedPairs_cons_cons, same,
        ← List.map_cons, ih]
      split <;> rfl

/-- A stream cut in two: the pair across the cut is found in the second part, with the last
item of the first part carried to it. -/
theorem selectedPairs_append (first second : List α) :
    selectedPairs test (first ++ second) =
      selectedPairs test first ++ selectedPairs test (first.getLast?.toList ++ second) := by
  induction first with
  | nil => rfl
  | cons item rest ih =>
      cases rest with
      | nil => rfl
      | cons next others =>
          have carried : (item :: next :: others).getLast? = (next :: others).getLast? :=
            List.getLast?_cons_cons
          rw [List.cons_append, List.cons_append, selectedPairs_cons_cons,
            selectedPairs_cons_cons, carried, ← List.cons_append, ih]
          split <;> rfl

/-- A batch with the item carried to it: what it carries on, and what it selects. -/
def selectBatch (carried : Option α) (batch : List α) : Option α × List α :=
  ((carried.toList ++ batch).getLast?, selectedPairs test (carried.toList ++ batch))

theorem selectBatch_nil (carried : Option α) : selectBatch test carried [] = (carried, []) := by
  cases carried <;> rfl

/-- Whatever was selected from the stream so far, the next batch adds what it selects. -/
theorem selectBatch_append (stream batch : List α) :
    (selectBatch test stream.getLast? batch).1 = (stream ++ batch).getLast? ∧
    selectedPairs test (stream ++ batch) =
      selectedPairs test stream ++ (selectBatch test stream.getLast? batch).2 := by
  refine ⟨?_, selectedPairs_append test stream batch⟩
  simp only [selectBatch, List.getLast?_append]
  cases stream.getLast? <;> rfl

end BleBroadcast.Lib
