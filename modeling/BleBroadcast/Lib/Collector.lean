import Mathlib.Data.Fintype.Card
import Mathlib.Data.Fintype.Basic

/-!
# Collecting one item for each number

A collector keeps the first item offered under each number.  It is full when it
has one for every number, and how many it has tells when: the count rises by
one with each number that is new, and reaches the number of numbers exactly
when none is missing.
-/

set_option autoImplicit false

namespace BleBroadcast.Lib

universe u v

variable {ι : Type u} {α : Type v}

/-- The item kept under each number, if any. -/
abbrev Collector (ι : Type u) (α : Type v) := ι → Option α

namespace Collector

def empty : Collector ι α := fun _ => none

def Full (collector : Collector ι α) : Prop := ∀ number, (collector number).isSome

section Count

variable [Fintype ι]

def count (collector : Collector ι α) : Nat :=
  (Finset.univ.filter fun number => (collector number).isSome).card

@[simp] theorem count_empty : (empty : Collector ι α).count = 0 := by
  simp [count, empty]

theorem count_eq_card_iff (collector : Collector ι α) :
    collector.count = Fintype.card ι ↔ collector.Full := by
  rw [count, Finset.card_eq_iff_eq_univ, Finset.filter_eq_self]
  simp [Full]

end Count

variable [DecidableEq ι]

def put (collector : Collector ι α) (number : ι) (item : α) : Collector ι α :=
  Function.update collector number (some item)

def offer (collector : Collector ι α) (offered : ι × α) : Collector ι α :=
  if (collector offered.1).isSome then collector else collector.put offered.1 offered.2

def offers (collector : Collector ι α) (offered : List (ι × α)) : Collector ι α :=
  offered.foldl offer collector

theorem offer_isSome (collector : Collector ι α) (offered : ι × α) (number : ι) :
    (collector.offer offered number).isSome ↔
      (collector number).isSome ∨ number = offered.1 := by
  unfold offer
  split
  · rename_i taken
    constructor
    · exact Or.inl
    · rintro (old | rfl)
      · exact old
      · exact taken
  · by_cases same : number = offered.1
    · subst same
      simp [put]
    · simp [put, same]

theorem offers_isSome (collector : Collector ι α) (offered : List (ι × α)) (number : ι) :
    (collector.offers offered number).isSome ↔
      (collector number).isSome ∨ number ∈ offered.map Prod.fst := by
  induction offered generalizing collector with
  | nil => simp [offers]
  | cons first rest ih =>
      have step := ih (collector.offer first)
      simp only [offers, List.foldl_cons, List.map_cons, List.mem_cons] at step ⊢
      rw [step, offer_isSome, or_assoc]

def firsts (offered : List (ι × α)) : Collector ι α := fun number =>
  (offered.find? fun item => item.1 = number).map Prod.snd

@[simp] theorem firsts_nil : (firsts [] : Collector ι α) = empty := rfl

theorem offer_firsts (offered : List (ι × α)) (item : ι × α) :
    (firsts offered).offer item = firsts (offered ++ [item]) := by
  funext number
  by_cases taken : (firsts offered item.1).isSome = true
  · rw [offer, if_pos taken]
    simp only [firsts, List.find?_append]
    cases found : offered.find? fun other => other.1 = number with
    | some first => rfl
    | none =>
        have other : item.1 ≠ number := by
          rintro rfl
          simp [firsts, found] at taken
        simp [other]
  · rw [offer, if_neg taken, put]
    rw [firsts, Option.isSome_map, Option.not_isSome_iff_eq_none] at taken
    by_cases same : number = item.1
    · subst same
      simp [firsts, List.find?_append, taken]
    · have other : item.1 ≠ number := fun absurd => same absurd.symm
      simp [firsts, List.find?_append, same, other]

/-- The collections that are handed over: as soon as something was offered under every number
since the last one, the first item of each is, and collecting starts again. -/
def rounds [Fintype ι] (since : List (ι × α)) : List (ι × α) → List (Collector ι α)
  | [] => []
  | item :: rest =>
      if ∀ number, (firsts (since ++ [item]) number).isSome then
        firsts (since ++ [item]) :: rounds [] rest
      else rounds (since ++ [item]) rest

theorem rounds_cons_missing [Fintype ι] {since : List (ι × α)} {item : ι × α}
    (notFull : ¬ (firsts (since ++ [item])).Full) (rest : List (ι × α)) :
    rounds since (item :: rest) = rounds (since ++ [item]) rest := if_neg notFull

theorem rounds_cons_full [Fintype ι] {since : List (ι × α)} {item : ι × α}
    (full : (firsts (since ++ [item])).Full) (rest : List (ι × α)) :
    rounds since (item :: rest) = firsts (since ++ [item]) :: rounds [] rest := if_pos full

theorem full_offers_iff (offered : List (ι × α)) :
    (empty.offers offered).Full ↔ ∀ number, number ∈ offered.map Prod.fst := by
  simp [Full, offers_isSome, empty]

theorem count_put [Fintype ι] {collector : Collector ι α} {number : ι} (item : α)
    (missing : collector number = none) :
    (collector.put number item).count = collector.count + 1 := by
  have members : (Finset.univ.filter fun other => (collector.put number item other).isSome) =
      insert number (Finset.univ.filter fun other => (collector other).isSome) := by
    ext other
    rw [Finset.mem_insert, Finset.mem_filter, Finset.mem_filter]
    simp only [Finset.mem_univ, true_and, put]
    by_cases same : other = number
    · subst same
      simp
    · simp [same]
  rw [count, members, Finset.card_insert_of_notMem (by simp [missing])]
  rfl

end Collector

end BleBroadcast.Lib
