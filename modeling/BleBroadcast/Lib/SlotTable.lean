import Mathlib.Data.Fintype.Card
import Mathlib.Data.Fintype.EquivFin
import Mathlib.Data.Set.Card

/-!
# Tables of slots

A table has a slot for each index, and one item marks the slots that are free.  Two tables
of the same size may admit items at different moments: if everything in the second one is
in the first one too, then whatever the first one has admitted, the second one has it
already or has a slot left for it.
-/

set_option autoImplicit false

namespace BleBroadcast.Lib

universe u v

variable {ι : Type u} {α : Type v} (free : α)

/-- No item lies in two slots, but for the free mark. -/
def Unshared (slots : ι → α) : Prop :=
  ∀ i j, slots i = slots j → slots i ≠ free → i = j

/-- Every item of `slots` was admitted. -/
def Within (slots admitted : ι → α) : Prop :=
  ∀ i, slots i ≠ free → ∃ j, admitted j = slots i

variable {free} {slots admitted : ι → α}

theorem Within.mono {later : ι → α} (within : Within free slots admitted)
    (kept : ∀ j, admitted j ≠ free → later j = admitted j) : Within free slots later := by
  intro i used
  obtain ⟨j, there⟩ := within i used
  exact ⟨j, (kept j (there ▸ used)).trans there⟩

theorem apart_update [DecidableEq ι] (same : α → α → Prop)
    (apart : ∀ i j, same (slots i) (slots j) → i = j) {index : ι} {item : α}
    (onLeft : ∀ i, i ≠ index → ¬ same (slots i) item)
    (onRight : ∀ i, i ≠ index → ¬ same item (slots i)) :
    ∀ i j, same (Function.update slots index item i) (Function.update slots index item j) →
      i = j := by
  intro i j
  by_cases first : i = index <;> by_cases second : j = index
  · intro _
    rw [first, second]
  · subst first
    simp only [Function.update_self, Function.update_of_ne second]
    exact fun absurd => (onRight j second absurd).elim
  · subst second
    simp only [Function.update_self, Function.update_of_ne first]
    exact fun absurd => (onLeft i first absurd).elim
  · simp only [Function.update_of_ne first, Function.update_of_ne second]
    exact apart i j

theorem Unshared.update [DecidableEq ι] (unshared : Unshared free slots) {index : ι} {item : α}
    (fresh : item ≠ free → ∀ i, i ≠ index → slots i ≠ item) :
    Unshared free (Function.update slots index item) := by
  intro i j same used
  refine apart_update (fun first second => first = second ∧ first ≠ free)
    (fun i j both => unshared i j both.1 both.2) ?_ ?_ i j ⟨same, used⟩
  · rintro i other ⟨same, used⟩
    exact fresh (same ▸ used) i other same
  · rintro i other ⟨same, used⟩
    exact fresh used i other same.symm

section
variable [Fintype ι]

/-- Were no slot free, the items of both tables would be the same. -/
theorem exists_free_of_within (unshared : Unshared free slots)
    (within : Within free slots admitted) {item : α} (there : ∃ j, admitted j = item)
    (missing : ∀ i, slots i ≠ item) : ∃ i, slots i = free := by
  refine Classical.byContradiction fun noneFree => ?_
  have used : ∀ i, slots i ≠ free := fun i isFree => noneFree ⟨i, isFree⟩
  have places : ∀ i, ∃ j, admitted j = slots i := fun i => within i (used i)
  choose place isPlace using places
  have injective : Function.Injective place := by
    intro first second same
    refine unshared first second ?_ (used first)
    rw [← isPlace first, ← isPlace second, same]
  obtain ⟨j, isItem⟩ := there
  obtain ⟨i, rfl⟩ := (Finite.injective_iff_surjective.mp injective) j
  exact missing i ((isPlace i).symm.trans isItem)

variable [DecidableEq α]

variable (free) in
def usedCount (slots : ι → α) : Nat :=
  (Finset.univ.filter fun i => slots i ≠ free).card

theorem usedCount_le (slots : ι → α) : usedCount free slots ≤ Fintype.card ι :=
  Finset.card_filter_le _ _

theorem usedCount_lt {i : ι} (isFree : slots i = free) :
    usedCount free slots < Fintype.card ι :=
  Finset.card_lt_univ_of_notMem (x := i) (by simp [isFree])

theorem usedCount_empty (empty : ∀ i, slots i = free) : usedCount free slots = 0 := by
  rw [usedCount, Finset.card_eq_zero, Finset.filter_eq_empty_iff]
  exact fun i _ used => used (empty i)

theorem ncard_items (unshared : Unshared free slots) :
    Set.ncard { item : { item // item ≠ free } | ∃ i, slots i = item } =
      usedCount free slots := by
  have items : Set.image Subtype.val { item : { item // item ≠ free } | ∃ i, slots i = item } =
      ((Finset.univ.filter fun i => slots i ≠ free).image slots : Finset α) := by
    ext item
    simp only [Set.mem_image, Set.mem_ofPred_eq, Finset.coe_image, Finset.coe_filter,
      Finset.mem_univ, true_and]
    constructor
    · rintro ⟨⟨item, used⟩, ⟨i, there⟩, rfl⟩
      exact ⟨i, there ▸ used, there⟩
    · rintro ⟨i, used, rfl⟩
      exact ⟨⟨slots i, used⟩, ⟨i, rfl⟩, rfl⟩
  have oneToOne : Set.InjOn slots (Finset.univ.filter fun i => slots i ≠ free) := by
    intro i used j _ same
    exact unshared i j same (by simpa using used)
  rw [← Set.ncard_image_of_injective _ Subtype.val_injective, items, Set.ncard_coe_finset,
    Finset.card_image_of_injOn oneToOne, usedCount]

theorem usedCount_eq_card_iff :
    usedCount free slots = Fintype.card ι ↔ ∀ i, slots i ≠ free := by
  rw [usedCount, Finset.card_eq_iff_eq_univ, Finset.filter_eq_self]
  simp

variable [DecidableEq ι]

theorem usedCount_claim {i : ι} (isFree : slots i = free) {item : α} (used : item ≠ free) :
    usedCount free (Function.update slots i item) = usedCount free slots + 1 := by
  have more : (Finset.univ.filter fun j => Function.update slots i item j ≠ free) =
      insert i (Finset.univ.filter fun j => slots j ≠ free) := by
    ext j
    by_cases here : j = i
    · subst here
      simp [used]
    · simp [here]
  rw [usedCount, more, Finset.card_insert_of_notMem (by simp [isFree]), usedCount]

theorem usedCount_release {i : ι} (used : slots i ≠ free) :
    usedCount free (Function.update slots i free) + 1 = usedCount free slots := by
  have claimed : usedCount free (Function.update (Function.update slots i free) i (slots i)) =
      usedCount free (Function.update slots i free) + 1 :=
    usedCount_claim (Function.update_self i free slots) used
  rw [Function.update_idem, Function.update_eq_self] at claimed
  exact claimed.symm

end

/-! ## The first items seen -/

section
variable [DecidableEq α]

variable (free) in
/-- A table that took every new item it was shown until no slot was left. -/
structure FirstSeen (slots : ι → α) (seen : Finset α) : Prop where
  unshared : Unshared free slots
  shown : ∀ i, slots i ≠ free → slots i ∈ seen
  proper : free ∉ seen
  taken : (∃ i, slots i = free) → ∀ item ∈ seen, ∃ i, slots i = item

theorem FirstSeen.full_iff [Fintype ι] {seen : Finset α} (first : FirstSeen free slots seen) :
    (∀ i, slots i ≠ free) ↔ Fintype.card ι ≤ seen.card := by
  constructor
  · intro full
    have oneToOne : Function.Injective slots :=
      fun i j same => first.unshared i j same (full i)
    rw [← Finset.card_univ, ← Finset.card_image_of_injective _ oneToOne]
    refine Finset.card_le_card fun item member => ?_
    obtain ⟨i, _, rfl⟩ := Finset.mem_image.mp member
    exact first.shown i (full i)
  · intro many i isFree
    have places : seen ⊆ (Finset.univ.filter fun j => slots j ≠ free).image slots := by
      intro item member
      obtain ⟨j, rfl⟩ := first.taken ⟨i, isFree⟩ item member
      have used : slots j ≠ free := fun absurd => first.proper (absurd ▸ member)
      exact Finset.mem_image_of_mem slots (by simpa using used)
    have fewer : seen.card ≤ usedCount free slots :=
      Nat.le_trans (Finset.card_le_card places) Finset.card_image_le
    have short : usedCount free slots < Fintype.card ι := usedCount_lt isFree
    omega

theorem FirstSeen.claim [DecidableEq ι] {seen : Finset α} (first : FirstSeen free slots seen)
    {i : ι} {item : α} (isFree : slots i = free) (used : item ≠ free) (missing : ∀ j, slots j ≠ item) :
    FirstSeen free (Function.update slots i item) (insert item seen) where
  unshared := first.unshared.update fun _ j _ => missing j
  shown := by
    intro j usedSlot
    by_cases here : j = i
    · subst here
      rw [Function.update_self]
      exact Finset.mem_insert_self item seen
    · rw [Function.update_of_ne here] at usedSlot ⊢
      exact Finset.mem_insert_of_mem (first.shown j usedSlot)
  proper := by
    intro member
    rcases Finset.mem_insert.mp member with isItem | old
    · exact used isItem.symm
    · exact first.proper old
  taken := by
    intro _ other member
    rcases Finset.mem_insert.mp member with rfl | old
    · exact ⟨i, Function.update_self i other slots⟩
    · obtain ⟨j, rfl⟩ := first.taken ⟨i, isFree⟩ other old
      have elsewhere : j ≠ i := by
        rintro rfl
        exact first.proper (isFree ▸ old)
      exact ⟨j, Function.update_of_ne elsewhere item slots⟩

theorem FirstSeen.again {seen : Finset α} (first : FirstSeen free slots seen) {item : α}
    (used : item ≠ free) (kept : (∃ i, slots i = item) ∨ ∀ i, slots i ≠ free) :
    FirstSeen free slots (insert item seen) where
  unshared := first.unshared
  shown := fun i usedSlot => Finset.mem_insert_of_mem (first.shown i usedSlot)
  proper := by
    intro member
    rcases Finset.mem_insert.mp member with isItem | old
    · exact used isItem.symm
    · exact first.proper old
  taken := by
    rintro ⟨i, isFree⟩ other member
    rcases Finset.mem_insert.mp member with rfl | old
    · rcases kept with there | full
      · exact there
      · exact absurd isFree (full i)
    · exact first.taken ⟨i, isFree⟩ other old

end

end BleBroadcast.Lib
