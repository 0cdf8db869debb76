import Mathlib.Algebra.BigOperators.Group.Finset.Basic
import Mathlib.Data.List.Perm.Subperm
import Mathlib.Data.List.Forall2

/-!
# Items in custody

Items come from a source and are moved from place to place.  As long as no step makes
more of them, what lies in the places is a part of what came from the source, each item
at most as often.  Where items are named by their numbers in a list, using every number
at most once is enough for that.
-/

set_option autoImplicit false

namespace BleBroadcast.Lib

universe u v

variable {α : Type u} {β : Type v}

theorem subperm_iff_countP {held source : List α} :
    held.Subperm source ↔ ∀ kind : α → Bool, held.countP kind ≤ source.countP kind := by
  constructor
  · exact fun part kind => part.countP_le kind
  · intro bound
    classical
    exact List.subperm_ext_iff.mpr fun item _ => bound (· == item)

theorem sum_update {ι : Type v} [Fintype ι] [DecidableEq ι] (held : α → Nat) (places : ι → α)
    (index : ι) (contents : α) :
    ∑ i, held (Function.update places index contents i) + held (places index) =
      ∑ i, held (places i) + held contents := by
  have others : ∑ i ∈ Finset.univ.erase index, held (Function.update places index contents i) =
      ∑ i ∈ Finset.univ.erase index, held (places i) := by
    refine Finset.sum_congr rfl fun i member => ?_
    rw [Function.update_of_ne (Finset.ne_of_mem_erase member)]
  rw [← Finset.add_sum_erase _ _ (Finset.mem_univ index),
    ← Finset.add_sum_erase _ (fun i => held (places i)) (Finset.mem_univ index), others,
    Function.update_self]
  omega

theorem exists_forall₂ {related : β → α → Prop} {events : List β}
    (each : ∀ event ∈ events, ∃ item, related event item) :
    ∃ items, List.Forall₂ related events items := by
  induction events with
  | nil => exact ⟨[], .nil⟩
  | cons event rest ih =>
      obtain ⟨item, holds⟩ := each event List.mem_cons_self
      obtain ⟨items, all⟩ := ih fun other member => each other (List.mem_cons_of_mem _ member)
      exact ⟨item :: items, .cons holds all⟩

theorem subperm_of_numbers {items taken : List α} {numbers : List Nat} (once : numbers.Nodup)
    (each : List.Forall₂ (fun number item => items[number]? = some item) numbers taken) :
    taken.Subperm items := by
  have named : numbers.map (items[·]?) = taken.map some := by
    induction each with
    | nil => rfl
    | cons there _ ih => simp only [List.map_cons, there, ih (List.nodup_cons.mp once).2]
  have inside : numbers ⊆ List.range items.length := by
    intro number member
    have isSome : (items[number]?) ∈ taken.map some := named ▸ List.mem_map_of_mem member
    obtain ⟨item, _, there⟩ := List.mem_map.mp isSome
    exact List.mem_range.mpr (List.getElem?_eq_some_iff.mp there.symm).1
  have whole : (List.range items.length).map (items[·]?) = items.map some := by
    apply List.ext_getElem?
    intro i
    rw [List.getElem?_map, List.getElem?_map]
    by_cases below : i < items.length
    · rw [List.getElem?_range below, List.getElem?_eq_getElem below]
      exact congrArg some (List.getElem?_eq_getElem below)
    · have beyond := Nat.le_of_not_lt below
      rw [List.getElem?_eq_none (by simpa using beyond), List.getElem?_eq_none beyond]
      rfl
  obtain ⟨arranged, permuted, part⟩ := once.subperm inside
  have mapped : (taken.map some).Subperm (items.map some) :=
    ⟨arranged.map (items[·]?), named ▸ permuted.map _, whole ▸ part.map _⟩
  exact (List.map_subperm_map_iff fun _ _ => Option.some.inj).mp mapped

/-- Events with different numbers, each of an item with its number, are of a part of the
items. -/
theorem exists_subperm_of_numbered {items : List α} {number : β → Nat} {related : β → α → Prop}
    {events : List β} (once : (events.map number).Nodup)
    (each : ∀ event ∈ events, ∃ item, items[number event]? = some item ∧ related event item) :
    ∃ taken, taken.Subperm items ∧ List.Forall₂ related events taken := by
  obtain ⟨taken, all⟩ := exists_forall₂ each
  refine ⟨taken, subperm_of_numbers once ?_, all.imp fun _ _ holds => holds.2⟩
  rw [List.forall₂_map_left_iff]
  exact all.imp fun _ _ holds => holds.1

theorem forall₂_of_numbered_in_order {items : List α} {number : β → Nat}
    {related : β → α → Prop} {events : List β}
    (inOrder : events.map number = List.range items.length)
    (each : ∀ event ∈ events, ∃ item, items[number event]? = some item ∧ related event item) :
    List.Forall₂ related events items := by
  have length : events.length = items.length := by
    simpa using congrArg List.length inOrder
  refine List.forall₂_iff_get.mpr ⟨length, fun i inEvents inItems => ?_⟩
  have isNumber : number events[i] = i := by
    have same := congrArg (fun numbers : List Nat => numbers[i]?) inOrder
    simpa [inEvents, inItems] using same
  obtain ⟨item, there, holds⟩ := each events[i] (List.getElem_mem inEvents)
  rw [isNumber, List.getElem?_eq_getElem inItems] at there
  obtain rfl := Option.some.inj there
  exact holds

end BleBroadcast.Lib
