import Mathlib.Data.Finset.Basic
import Mathlib.Order.Interval.Finset.Nat

/-!
# A ledger of allocations

A script decides which request for memory is granted.  The ledger numbers the requests, gives
a granted block the number of its request and remembers the blocks that are held.  A release
takes a pointer that must be the start of a block that is held; any other release stops the
program.
-/

set_option autoImplicit false

namespace BleBroadcast.Lib

@[ext]
structure AllocationLedger where
  attempts : Nat
  live : Finset Nat
  below : ∀ block ∈ live, block < attempts

/-- An element of an array that fills a block. -/
structure BlockPointer where
  block : Nat
  offset : Nat
  deriving DecidableEq

abbrev Allocating := StateT AllocationLedger Option

namespace AllocationLedger

def initial : AllocationLedger where
  attempts := 0
  live := ∅
  below := fun block held => absurd held (Finset.notMem_empty block)

def taken (ledger : AllocationLedger) : AllocationLedger where
  attempts := ledger.attempts + 1
  live := insert ledger.attempts ledger.live
  below := by
    intro block member
    rcases Finset.mem_insert.mp member with rfl | held
    · exact Nat.lt_succ_self _
    · exact Nat.lt_succ_of_lt (ledger.below block held)

/-- Requests that left nothing behind. -/
def spent (ledger : AllocationLedger) (count : Nat) : AllocationLedger where
  attempts := ledger.attempts + count
  live := ledger.live
  below := fun block held => Nat.lt_add_right count (ledger.below block held)

def holding (ledger : AllocationLedger) (count : Nat) : AllocationLedger where
  attempts := ledger.attempts + count
  live := ledger.live ∪ Finset.Ico ledger.attempts (ledger.attempts + count)
  below := by
    intro block member
    rcases Finset.mem_union.mp member with held | fresh
    · exact Nat.lt_add_right count (ledger.below block held)
    · exact (Finset.mem_Ico.mp fresh).2

def released (ledger : AllocationLedger) (block : Nat) : AllocationLedger where
  attempts := ledger.attempts
  live := ledger.live.erase block
  below := fun other held => ledger.below other (Finset.mem_of_mem_erase held)

end AllocationLedger

/-- A request, and what the program does when it is refused and when it is granted. -/
def allocating {α : Type} (grants : Nat → Bool) (refused : Allocating α)
    (granted : Nat → Allocating α) : Allocating α := fun ledger =>
  if grants ledger.attempts then (granted ledger.attempts).run ledger.taken
  else refused.run (ledger.spent 1)

def release (pointer : BlockPointer) : Allocating Unit := fun ledger =>
  if pointer.offset = 0 ∧ pointer.block ∈ ledger.live then
    some ((), ledger.released pointer.block)
  else none

/-- The release of a handle that may be null, by a function that asserts that it is not. -/
def releaseHandle (handle : Option Nat) : Allocating Unit :=
  handle.elim (fun _ => none) fun block => release ⟨block, 0⟩

def releaseAll (blocks : List Nat) : Allocating Unit :=
  blocks.forM fun block => release ⟨block, 0⟩

def Aborts {α : Type} (program : Allocating α) : Prop :=
  ∀ ledger, program.run ledger = none

def Ensures {α : Type} (program : Allocating α) (post : α → AllocationLedger → Prop) : Prop :=
  ∀ ledger value after, program.run ledger = some (value, after) → post value after

def Granted (grants : Nat → Bool) (start count : Nat) : Prop :=
  ∀ k < count, grants (start + k) = true

def FirstRefused (grants : Nat → Bool) (start index : Nat) : Prop :=
  Granted grants start index ∧ grants (start + index) = false

/-- The requests that a program makes that asks one by one and ends at the first refusal. -/
def requestsMade (grants : Nat → Bool) : Nat → Nat → Nat
  | _, 0 => 0
  | start, count + 1 => if grants start then requestsMade grants (start + 1) count + 1 else 1

/-- A program that asks one by one: it has a result, and holds the blocks, exactly if every
request is granted. -/
def Acquires {α : Type} (grants : Nat → Bool) (count : Nat) (program : Allocating (Option α))
    (ledger : AllocationLedger) : Prop :=
  (Granted grants ledger.attempts count →
    ∃ value, program.run ledger = some (some value, ledger.holding count)) ∧
  (¬ Granted grants ledger.attempts count →
    ∃ after, program.run ledger = some (none, after))

def Gone (block : Nat) (ledger : AllocationLedger) : Prop :=
  block < ledger.attempts ∧ block ∉ ledger.live

def GivenUp (pointer : BlockPointer) (ledger : AllocationLedger) : Prop :=
  pointer.offset = 0 ∧ Gone pointer.block ledger

def KeepsGone {α : Type} (program : Allocating α) : Prop :=
  ∀ block ledger value after, Gone block ledger →
    program.run ledger = some (value, after) → Gone block after

instance grantedDecidable (grants : Nat → Bool) (start count : Nat) :
    Decidable (Granted grants start count) :=
  inferInstanceAs (Decidable (∀ k < count, _))

instance firstRefusedDecidable (grants : Nat → Bool) (start index : Nat) :
    Decidable (FirstRefused grants start index) :=
  inferInstanceAs (Decidable (_ ∧ _))

/-! ## Scripts -/

section Scripts

variable {grants : Nat → Bool} {start count index : Nat}

theorem Granted.mono (granted : Granted grants start count) (fewer : index ≤ count) :
    Granted grants start index := by
  intro k below
  exact granted k (by omega)

theorem Granted.shift (granted : Granted grants start count) {offset length : Nat}
    (inside : offset + length ≤ count) : Granted grants (start + offset) length := by
  intro k below
  rw [Nat.add_assoc]
  exact granted (offset + k) (by omega)

theorem FirstRefused.shift (refused : FirstRefused grants start index) {offset : Nat}
    (before : offset ≤ index) : FirstRefused grants (start + offset) (index - offset) := by
  constructor
  · apply refused.1.shift
    omega
  · rw [Nat.add_assoc, Nat.add_sub_cancel' before]
    exact refused.2

theorem granted_or_firstRefused (grants : Nat → Bool) (start count : Nat) :
    Granted grants start count ∨ ∃ index < count, FirstRefused grants start index := by
  induction count with
  | zero => exact Or.inl fun k below => absurd below (Nat.not_lt_zero k)
  | succ count ih =>
      rcases ih with granted | ⟨index, below, refused⟩
      · cases last : grants (start + count) with
        | false => exact Or.inr ⟨count, Nat.lt_succ_self count, granted, last⟩
        | true =>
            apply Or.inl
            intro k below
            rcases Nat.lt_succ_iff_lt_or_eq.mp below with earlier | rfl
            · exact granted k earlier
            · exact last
      · exact Or.inr ⟨index, Nat.lt_succ_of_lt below, refused⟩

theorem granted_succ :
    Granted grants start (count + 1) ↔
      grants start = true ∧ Granted grants (start + 1) count := by
  constructor
  · intro granted
    exact ⟨granted 0 (Nat.succ_pos count), granted.shift (Nat.add_comm 1 count).le⟩
  · rintro ⟨first, later⟩ k below
    cases k with
    | zero => exact first
    | succ k =>
        rw [Nat.add_comm k 1, ← Nat.add_assoc]
        exact later k (by omega)

theorem granted_add {more : Nat} :
    Granted grants start (count + more) ↔
      Granted grants start count ∧ Granted grants (start + count) more := by
  constructor
  · intro granted
    exact ⟨granted.mono (Nat.le_add_right _ _), granted.shift (le_refl _)⟩
  · rintro ⟨first, later⟩ k below
    by_cases early : k < count
    · exact first k early
    · have shifted := later (k - count) (by omega)
      rwa [Nat.add_assoc, Nat.add_sub_cancel' (by omega)] at shifted

theorem granted_zero : Granted grants start 0 :=
  fun k below => absurd below (Nat.not_lt_zero k)

end Scripts

/-! ## Ledgers -/

namespace AllocationLedger

variable {ledger : AllocationLedger} {count more block : Nat}

@[simp] theorem spent_attempts : (ledger.spent count).attempts = ledger.attempts + count := rfl

@[simp] theorem holding_attempts :
    (ledger.holding count).attempts = ledger.attempts + count := rfl

@[simp] theorem mem_holding :
    block ∈ (ledger.holding count).live ↔
      block ∈ ledger.live ∨ ledger.attempts ≤ block ∧ block < ledger.attempts + count := by
  simp [holding]

@[simp] theorem mem_taken :
    block ∈ ledger.taken.live ↔ block = ledger.attempts ∨ block ∈ ledger.live :=
  Finset.mem_insert

@[simp] theorem mem_released {other : Nat} :
    other ∈ (ledger.released block).live ↔ other ≠ block ∧ other ∈ ledger.live :=
  Finset.mem_erase

@[simp] theorem mem_spent : block ∈ (ledger.spent count).live ↔ block ∈ ledger.live := Iff.rfl

theorem ext_mem {first second : AllocationLedger} (attempts : first.attempts = second.attempts)
    (held : ∀ block, block ∈ first.live ↔ block ∈ second.live) : first = second :=
  AllocationLedger.ext attempts (Finset.ext held)

theorem holding_zero : ledger.holding 0 = ledger := by
  apply ext_mem
  · rfl
  · intro block
    rw [mem_holding]
    grind

theorem holding_taken : (ledger.holding count).taken = ledger.holding (count + 1) := by
  apply ext_mem
  · rfl
  · intro block
    rw [mem_taken, mem_holding, mem_holding, holding_attempts]
    grind

theorem holding_holding : (ledger.holding count).holding more = ledger.holding (count + more) := by
  apply ext_mem
  · exact Nat.add_assoc _ _ _
  · intro block
    simp only [mem_holding, holding_attempts]
    grind

theorem taken_eq_holding : ledger.taken = ledger.holding 1 := by
  calc ledger.taken
      = (ledger.holding 0).taken := by rw [holding_zero]
    _ = ledger.holding 1 := holding_taken

theorem not_mem_of_le (fresh : ledger.attempts ≤ block) : block ∉ ledger.live := by
  intro held
  have below := ledger.below block held
  omega

theorem holding_returned :
    ((ledger.holding (count + 1)).spent more).released (ledger.attempts + count) =
      (ledger.holding count).spent (more + 1) := by
  apply ext_mem
  · change ledger.attempts + (count + 1) + more = ledger.attempts + count + (more + 1)
    omega
  · intro block
    have fresh : ledger.attempts + count ∉ ledger.live :=
      not_mem_of_le (Nat.le_add_right _ _)
    simp only [mem_released, mem_spent, mem_holding]
    grind

end AllocationLedger

/-! ## Programs that do not stop -/

section Runs

variable {α β : Type} {grants : Nat → Bool} {ledger after : AllocationLedger}

theorem bind_run {program : Allocating α} {value : α} (rest : α → Allocating β)
    (run : program.run ledger = some (value, after)) :
    (program >>= rest).run ledger = (rest value).run after := by
  rw [StateT.run_bind, run]
  rfl

theorem bind_stopped {program : Allocating α} (rest : α → Allocating β)
    (stopped : program.run ledger = none) : (program >>= rest).run ledger = none := by
  rw [StateT.run_bind, stopped]
  rfl

theorem allocating_granted (refused : Allocating α) (granted : Nat → Allocating α)
    (grant : grants ledger.attempts = true) :
    (allocating grants refused granted).run ledger =
      (granted ledger.attempts).run (ledger.holding 1) := by
  rw [← AllocationLedger.taken_eq_holding]
  exact if_pos grant

theorem allocating_refused (refused : Allocating α) (granted : Nat → Allocating α)
    (refusal : grants ledger.attempts = false) :
    (allocating grants refused granted).run ledger = refused.run (ledger.spent 1) := by
  apply if_neg
  rw [refusal]
  exact Bool.false_ne_true

theorem release_run {block : Nat} (held : block ∈ ledger.live) :
    (release ⟨block, 0⟩).run ledger = some ((), ledger.released block) :=
  if_pos ⟨rfl, held⟩

/-- A release that does not stop was of the start of a block that is held. -/
theorem release_inv {pointer : BlockPointer} {value : Unit}
    (run : (release pointer).run ledger = some (value, after)) :
    pointer.offset = 0 ∧ pointer.block ∈ ledger.live ∧
      after = ledger.released pointer.block := by
  by_cases valid : pointer.offset = 0 ∧ pointer.block ∈ ledger.live
  · have released : (release pointer).run ledger = some ((), ledger.released pointer.block) :=
      if_pos valid
    rw [run] at released
    cases Option.some.inj released
    exact ⟨valid.1, valid.2, rfl⟩
  · have stopped : (release pointer).run ledger = none := if_neg valid
    rw [run] at stopped
    contradiction

theorem releaseAll_run {blocks : List Nat} (distinct : blocks.Nodup)
    (held : ∀ block ∈ blocks, block ∈ ledger.live) :
    ∃ after, (releaseAll blocks).run ledger = some ((), after) ∧
      ∀ block, block ∈ after.live ↔ block ∈ ledger.live ∧ block ∉ blocks := by
  induction blocks generalizing ledger with
  | nil => exact ⟨ledger, rfl, fun block => by simp⟩
  | cons first others ih =>
      obtain ⟨notLater, distinctOthers⟩ := List.nodup_cons.mp distinct
      have othersHeld : ∀ block ∈ others, block ∈ (ledger.released first).live := by
        intro block member
        apply AllocationLedger.mem_released.mpr
        exact ⟨fun same => notLater (same ▸ member), held block (List.mem_cons_of_mem _ member)⟩
      obtain ⟨after, run, left⟩ := ih distinctOthers othersHeld
      refine ⟨after, ?_, ?_⟩
      · change (release ⟨first, 0⟩ >>= fun _ => releaseAll others).run ledger = _
        rw [bind_run _ (release_run (held first List.mem_cons_self)), run]
      · intro block
        rw [left, AllocationLedger.mem_released, List.mem_cons]
        grind

theorem releaseAll_left {blocks : List Nat} {count : Nat} {left : Nat → Prop}
    (distinct : blocks.Nodup)
    (inside : ∀ block ∈ blocks, ledger.attempts ≤ block ∧ block < ledger.attempts + count)
    (rest : ∀ block, left block ↔
      (ledger.attempts ≤ block ∧ block < ledger.attempts + count) ∧ block ∉ blocks) :
    ∃ after, (releaseAll blocks).run (ledger.holding count) = some ((), after) ∧
      ∀ block, block ∈ after.live ↔ block ∈ ledger.live ∨ left block := by
  have held : ∀ block ∈ blocks, block ∈ (ledger.holding count).live := by
    intro block member
    exact AllocationLedger.mem_holding.mpr (Or.inr (inside block member))
  obtain ⟨after, run, live⟩ := releaseAll_run distinct held
  refine ⟨after, run, ?_⟩
  intro block
  have old : block ∈ ledger.live → block ∉ blocks := by
    intro member released
    have below := ledger.below block member
    have fresh := (inside block released).1
    omega
  rw [live, AllocationLedger.mem_holding, rest]
  grind

end Runs

/-! ## Programs that stop -/

section Stops

variable {α β : Type}

theorem Aborts.bind {program : Allocating α} (aborts : Aborts program)
    (rest : α → Allocating β) : Aborts (program >>= rest) :=
  fun ledger => bind_stopped rest (aborts ledger)

theorem Aborts.after (program : Allocating α) {rest : α → Allocating β}
    (aborts : ∀ value, Aborts (rest value)) : Aborts (program >>= rest) := by
  intro ledger
  cases run : program.run ledger with
  | none => exact bind_stopped rest run
  | some result => exact (bind_run rest run).trans (aborts result.1 result.2)

theorem aborts_release_inner {pointer : BlockPointer} (inner : pointer.offset ≠ 0) :
    Aborts (release pointer) :=
  fun _ => if_neg fun base => inner base.1

theorem aborts_releaseHandle_null : Aborts (releaseHandle none) := fun _ => rfl

theorem aborts_forM {entries : List α} {body : α → Allocating Unit} {entry : α}
    (member : entry ∈ entries) (aborts : Aborts (body entry)) : Aborts (entries.forM body) := by
  induction entries with
  | nil => exact absurd member List.not_mem_nil
  | cons first others ih =>
      change Aborts (body first >>= fun _ => others.forM body)
      rcases List.mem_cons.mp member with rfl | later
      · exact aborts.bind _
      · apply Aborts.after
        intro _
        exact ih later

theorem ensures_release (pointer : BlockPointer) :
    Ensures (release pointer) fun _ => GivenUp pointer := by
  intro ledger value after run
  obtain ⟨base, before, rfl⟩ := release_inv run
  exact ⟨base, ledger.below _ before, fun held => (AllocationLedger.mem_released.mp held).1 rfl⟩

theorem Ensures.after (program : Allocating α) {rest : α → Allocating β}
    {post : β → AllocationLedger → Prop} (ensures : ∀ value, Ensures (rest value) post) :
    Ensures (program >>= rest) post := by
  intro ledger value after run
  cases first : program.run ledger with
  | none =>
      rw [bind_stopped rest first] at run
      contradiction
  | some result =>
      rw [bind_run rest first] at run
      exact ensures result.1 result.2 value after run

theorem Ensures.returning {program : Allocating α} {post : AllocationLedger → Prop}
    (ensures : Ensures program fun _ => post) (value : β) :
    Ensures (program >>= fun _ => pure value) fun result ledger =>
      result = value ∧ post ledger := by
  intro ledger result after run
  cases first : program.run ledger with
  | none =>
      rw [bind_stopped _ first] at run
      contradiction
  | some middle =>
      rw [bind_run _ first] at run
      cases Option.some.inj run
      exact ⟨rfl, ensures ledger middle.1 middle.2 first⟩

theorem Ensures.stops {program : Allocating α} {post : α → AllocationLedger → Prop}
    (ensures : Ensures program post) {rest : α → Allocating β}
    (stops : ∀ value ledger, post value ledger → (rest value).run ledger = none) :
    Aborts (program >>= rest) := by
  intro ledger
  cases run : program.run ledger with
  | none => exact bind_stopped rest run
  | some result =>
      rw [bind_run rest run]
      exact stops result.1 result.2 (ensures ledger result.1 result.2 run)

/-- An inner element of an array is never given up. -/
theorem Ensures.aborts_inner {program : Allocating α} {pointer : BlockPointer}
    (ensures : Ensures program fun _ => GivenUp pointer) (inner : pointer.offset ≠ 0) :
    Aborts program := by
  intro ledger
  cases run : program.run ledger with
  | none => rfl
  | some result => exact absurd (ensures ledger result.1 result.2 run).1 inner

theorem release_gone {block : Nat} {ledger : AllocationLedger} (gone : Gone block ledger) :
    (release ⟨block, 0⟩).run ledger = none :=
  if_neg fun valid => gone.2 valid.2

end Stops

/-! ## Programs that ask one by one -/

section Acquisitions

variable {α β : Type} {grants : Nat → Bool} {ledger : AllocationLedger} {count more : Nat}

theorem acquires_pure (value : α) : Acquires grants 0 (pure (some value)) ledger := by
  constructor
  · intro _
    refine ⟨value, ?_⟩
    rw [AllocationLedger.holding_zero]
    rfl
  · intro refused
    exact absurd granted_zero refused

theorem Acquires.allocating {refused : Allocating (Option α)}
    {granted : Nat → Allocating (Option α)}
    (failing : ∃ after, refused.run (ledger.spent 1) = some (none, after))
    (rest : Acquires grants count (granted ledger.attempts) (ledger.holding 1)) :
    Acquires grants (count + 1) (allocating grants refused granted) ledger := by
  constructor
  · intro all
    obtain ⟨first, later⟩ := granted_succ.mp all
    obtain ⟨value, run⟩ := rest.1 later
    refine ⟨value, ?_⟩
    rw [allocating_granted _ _ first, run, AllocationLedger.holding_holding, Nat.add_comm 1]
  · intro notAll
    cases first : grants ledger.attempts with
    | false =>
        obtain ⟨after, run⟩ := failing
        exact ⟨after, (allocating_refused _ _ first).trans run⟩
    | true =>
        have notLater : ¬ Granted grants (ledger.holding 1).attempts count :=
          fun later => notAll (granted_succ.mpr ⟨first, later⟩)
        obtain ⟨after, run⟩ := rest.2 notLater
        exact ⟨after, (allocating_granted _ _ first).trans run⟩

theorem Acquires.bind {program : Allocating (Option α)} {rest : Option α → Allocating (Option β)}
    (first : Acquires grants count program ledger)
    (failing : ∀ after, ∃ final, (rest none).run after = some (none, final))
    (later : ∀ value, Acquires grants more (rest (some value)) (ledger.holding count)) :
    Acquires grants (count + more) (program >>= rest) ledger := by
  by_cases granted : Granted grants ledger.attempts count
  · obtain ⟨value, run⟩ := first.1 granted
    constructor
    · intro all
      obtain ⟨final, restRun⟩ := (later value).1 (granted_add.mp all).2
      refine ⟨final, ?_⟩
      rw [bind_run _ run, restRun, AllocationLedger.holding_holding]
    · intro notAll
      have notLater : ¬ Granted grants (ledger.holding count).attempts more :=
        fun granted' => notAll (granted_add.mpr ⟨granted, granted'⟩)
      obtain ⟨after, restRun⟩ := (later value).2 notLater
      exact ⟨after, (bind_run _ run).trans restRun⟩
  · obtain ⟨after, run⟩ := first.2 granted
    obtain ⟨final, restRun⟩ := failing after
    constructor
    · intro all
      exact absurd (granted_add.mp all).1 granted
    · intro _
      exact ⟨final, (bind_run _ run).trans restRun⟩

end Acquisitions

/-! ## Blocks that are gone -/

section Gone

variable {α β : Type}

theorem keepsGone_pure (value : α) : KeepsGone (pure value) := by
  intro block ledger result after gone run
  cases Option.some.inj run
  exact gone

theorem keepsGone_release (pointer : BlockPointer) : KeepsGone (release pointer) := by
  intro block ledger result after gone run
  obtain ⟨_, _, rfl⟩ := release_inv run
  exact ⟨gone.1, fun held => gone.2 (AllocationLedger.mem_released.mp held).2⟩

theorem KeepsGone.allocating {grants : Nat → Bool} {refused : Allocating α}
    {granted : Nat → Allocating α} (whenRefused : KeepsGone refused)
    (whenGranted : ∀ block, KeepsGone (granted block)) :
    KeepsGone (allocating grants refused granted) := by
  intro block ledger result after gone run
  cases first : grants ledger.attempts with
  | false =>
      rw [allocating_refused _ _ first] at run
      have kept : Gone block (ledger.spent 1) := ⟨Nat.lt_succ_of_lt gone.1, gone.2⟩
      exact whenRefused block (ledger.spent 1) result after kept run
  | true =>
      rw [allocating_granted _ _ first, ← AllocationLedger.taken_eq_holding] at run
      have kept : Gone block ledger.taken := by
        refine ⟨Nat.lt_succ_of_lt gone.1, ?_⟩
        intro held
        rcases AllocationLedger.mem_taken.mp held with rfl | before
        · exact absurd gone.1 (Nat.lt_irrefl _)
        · exact gone.2 before
      exact whenGranted ledger.attempts block ledger.taken result after kept run

theorem KeepsGone.bind {program : Allocating α} {rest : α → Allocating β}
    (first : KeepsGone program) (later : ∀ value, KeepsGone (rest value)) :
    KeepsGone (program >>= rest) := by
  intro block ledger result after gone run
  cases middle : program.run ledger with
  | none =>
      rw [bind_stopped rest middle] at run
      contradiction
  | some reached =>
      rw [bind_run rest middle] at run
      exact later reached.1 block reached.2 result after
        (first block ledger reached.1 reached.2 gone middle) run

/-- A program that releases a block that is gone stops. -/
theorem KeepsGone.stops {program : Allocating α} {rest : α → Allocating β}
    {block : Nat} {ledger : AllocationLedger} (keeps : KeepsGone program)
    (gone : Gone block ledger)
    (stops : ∀ value after, Gone block after → (rest value).run after = none) :
    (program >>= rest).run ledger = none := by
  cases run : program.run ledger with
  | none => exact bind_stopped rest run
  | some reached =>
      rw [bind_run rest run]
      exact stops reached.1 reached.2 (keeps block ledger reached.1 reached.2 gone run)

end Gone

end BleBroadcast.Lib
