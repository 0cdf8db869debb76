import BleBroadcast.Receiver.CacheMap

/-!
# Which key is evicted

The cache under a clock that never goes back, of which it reads the low 32 bits.  A slot
keeps the tick count of its last use and counts how often it has seen the tick count go
down.  `reset_timestamp` resets neither, so the counts of two slots need not have started
together, and a slot counts at most one wrap of the clock from one use to the next.
-/

set_option autoImplicit false

namespace BleBroadcast.Receiver

open BleBroadcast.Core BleBroadcast.Lib

inductive CacheOperation where
  | addKeyToCache (key : Key128b) (keyId : UInt8)
  | removeKeyFromCache (keyId : UInt8)
  | getKeyFromCache (keyId : UInt8)
  | isKeyInCache (keyId : UInt8)
  | removeLruKeyFromCache
  | clearCache

variable {size : Nat}

def operateCache (cache : KeyReconstructionCache size) (tickCount : UInt32) :
    CacheOperation → KeyReconstructionCache size
  | .addKeyToCache key keyId => (addKeyToCache cache key keyId tickCount).2
  | .removeKeyFromCache keyId => removeKeyFromCache cache keyId
  | .getKeyFromCache keyId => (getKeyFromCache cache keyId tickCount).2
  | .isKeyInCache _ => cache
  | .removeLruKeyFromCache => (removeLruKeyFromCache cache).2
  | .clearCache => clearCache cache

/-- The slot in which `add_key_to_cache` puts the key. -/
def storingSlot (cache : KeyReconstructionCache size) (keyId : UInt8) : Option (Fin size) :=
  if keyIsAlreadyInCache cache keyId then none else firstFreeIndex cache

/-- The slot whose key `get_key_from_cache` returns. -/
def hitSlot (cache : KeyReconstructionCache size) (keyId : UInt8) : Option (Fin size) :=
  match cache.lastKeyIndexInMap, decide (cache.lastKeyIdUsed = some keyId) with
  | some index, true => some index
  | _, _ => indexOfKeyId cache keyId

/-- The occupied entry that an operation adds or gets. -/
def touchedEntry (cache : KeyReconstructionCache size) : CacheOperation → Option (Fin size)
  | .addKeyToCache _ keyId => if keyId = 0 then none else storingSlot cache keyId
  | .getKeyFromCache keyId =>
      (hitSlot cache keyId).filter fun index => (cache.map index).keyId != 0
  | _ => none

/-- `now` is the true time in ticks; `lastTouch` is when the entry of a slot was added or
got last. -/
structure ClockedCache (size : Nat) where
  cache : KeyReconstructionCache size
  now : Nat
  lastTouch : Fin size → Nat

inductive ClockedStep where
  | wait (ticks : Nat)
  | call (operation : CacheOperation)

/-- `xTaskGetTickCount`. -/
def ClockedCache.tickCount (state : ClockedCache size) : UInt32 := UInt32.ofNat state.now

def clockedStep (state : ClockedCache size) : ClockedStep → ClockedCache size
  | .wait ticks => { state with now := state.now + ticks }
  | .call operation =>
      { state with
        cache := operateCache state.cache state.tickCount operation
        lastTouch :=
          match touchedEntry state.cache operation with
          | some index => Function.update state.lastTouch index state.now
          | none => state.lastTouch }

def initClockedCache (garbage : Fin size → KeyReconstructionMap) (start : Nat) :
    ClockedCache size where
  cache := initKeyCache (createKeyCache garbage)
  now := start
  lastTouch := fun _ => 0

/-- If an entry is there, `remove_lru_key_from_cache` removes one that was touched no later
than any other. -/
def EvictsLru (state : ClockedCache size) : ClockedStep → Prop
  | .call .removeLruKeyFromCache =>
      (∃ i, (state.cache.map i).keyId ≠ 0) →
        ∃ index, (removeLruKeyFromCache state.cache).1 = some index ∧
          (state.cache.map index).keyId ≠ 0 ∧
          ∀ j, (state.cache.map j).keyId ≠ 0 → state.lastTouch index ≤ state.lastTouch j
  | _ => True

/-- What is saved for a touched entry is after what any other slot holds that was touched
earlier: the wraps counted there are as many, and the tick count is higher, or they are more
(between equals, the index of the slot decides). -/
def SavedInOrder (state : ClockedCache size) : ClockedStep → Prop
  | .call operation =>
      ∀ index ∈ touchedEntry state.cache operation, ∀ j, (state.cache.map j).keyId ≠ 0 →
        j ≠ index → state.lastTouch j < state.now →
          let other := getTimestamp (state.cache.map j).lastUsed
          let saved :=
            getTimestamp (saveTimestamp (state.cache.map index).lastUsed state.tickCount)
          other < saved ∨ other = saved ∧ j ≤ index
  | .wait _ => True

/-! ## What an operation does to the entries -/

theorem addKeyToCache_stores {cache : KeyReconstructionCache size} {keyId : UInt8}
    {index : Fin size} (stores : storingSlot cache keyId = some index) (key : Key128b)
    (tickCount : UInt32) :
    (addKeyToCache cache key keyId tickCount).2.map =
      Function.update cache.map index (storedSlot (cache.map index) key keyId tickCount) := by
  unfold storingSlot at stores
  split at stores
  · contradiction
  · rename_i notAlready
    simp only [addKeyToCache, stores, if_neg notAlready]
    split <;> rfl

theorem addKeyToCache_keeps {cache : KeyReconstructionCache size} {keyId : UInt8}
    (stores : storingSlot cache keyId = none) (key : Key128b) (tickCount : UInt32) :
    (addKeyToCache cache key keyId tickCount).2 = cache := by
  unfold storingSlot at stores
  unfold addKeyToCache
  split at stores
  · rename_i already
    split
    · rfl
    · simp only [if_pos already]
  · simp only [stores]

theorem hitSlot_shortcut {cache : KeyReconstructionCache size} {keyId : UInt8} {index : Fin size}
    (taken : cache.lastKeyIndexInMap = some index)
    (standing : decide (cache.lastKeyIdUsed = some keyId) = true) :
    hitSlot cache keyId = some index := by
  simp only [hitSlot, taken, standing]

theorem hitSlot_search {cache : KeyReconstructionCache size} {keyId : UInt8}
    (missed : ∀ index, cache.lastKeyIndexInMap = some index →
      decide (cache.lastKeyIdUsed = some keyId) = true → False) :
    hitSlot cache keyId = indexOfKeyId cache keyId := by
  unfold hitSlot
  split
  · rename_i index standing taken
    exact (missed index standing taken).elim
  · rfl

theorem getKeyFromCache_hits {cache : KeyReconstructionCache size} {keyId : UInt8}
    {index : Fin size} (hit : hitSlot cache keyId = some index) (tickCount : UInt32) :
    (getKeyFromCache cache keyId tickCount).2.map =
      Function.update cache.map index (touchedSlot (cache.map index) tickCount) := by
  unfold getKeyFromCache
  split
  · rename_i taken standing
    obtain rfl := Option.some.inj ((hitSlot_shortcut taken standing).symm.trans hit)
    rfl
  · rename_i missed
    rw [hitSlot_search missed] at hit
    simp only [hit]
    rfl

theorem getKeyFromCache_misses {cache : KeyReconstructionCache size} {keyId : UInt8}
    (hit : hitSlot cache keyId = none) (tickCount : UInt32) :
    (getKeyFromCache cache keyId tickCount).2 = cache := by
  unfold getKeyFromCache
  split
  · rename_i taken standing
    exact absurd ((hitSlot_shortcut taken standing).symm.trans hit) (Option.some_ne_none _)
  · rename_i missed
    rw [hitSlot_search missed] at hit
    simp only [hit]

/-- The used slots of `next` are as they were. -/
def OnlyFrees (cache next : KeyReconstructionCache size) : Prop :=
  ∀ i, (next.map i).keyId ≠ 0 → next.map i = cache.map i

theorem onlyFrees_update {cache next : KeyReconstructionCache size} {index : Fin size}
    {slot : KeyReconstructionMap} (map : next.map = Function.update cache.map index slot)
    (free : slot.keyId = 0) : OnlyFrees cache next :=
  fun _ used => (usedSlot_of_freed map free used).2

theorem onlyFrees_clearCache (cache : KeyReconstructionCache size) :
    OnlyFrees cache (clearCache cache) := by
  unfold clearCache
  generalize List.finRange size = indices
  induction indices generalizing cache with
  | nil => exact fun _ _ => rfl
  | cons index rest ih =>
      intro i used
      have later := ih (clearSlot cache index) i used
      rw [List.foldl_cons]
      refine later.trans (onlyFrees_update (clearSlot_map cache index) rfl i ?_)
      exact later ▸ used

structure Touches (cache next : KeyReconstructionCache size) (index : Fin size)
    (tickCount : UInt32) (slot : KeyReconstructionMap) : Prop where
  map : next.map = Function.update cache.map index slot
  used : slot.keyId ≠ 0
  saved : slot.lastUsed = saveTimestamp (cache.map index).lastUsed tickCount
  fresh : DistinctIds cache → ∀ i, i ≠ index → (cache.map i).keyId ≠ slot.keyId

theorem operateCache_cases (cache : KeyReconstructionCache size) (tickCount : UInt32)
    (operation : CacheOperation) :
    (∃ index slot, touchedEntry cache operation = some index ∧
      Touches cache (operateCache cache tickCount operation) index tickCount slot) ∨
    (touchedEntry cache operation = none ∧
      OnlyFrees cache (operateCache cache tickCount operation)) := by
  have unchanged : OnlyFrees cache cache := fun _ _ => rfl
  cases operation with
  | addKeyToCache key keyId =>
      cases stores : storingSlot cache keyId with
      | none =>
          refine Or.inr ⟨by simp [touchedEntry, stores], ?_⟩
          rw [operateCache, addKeyToCache_keeps stores]
          exact unchanged
      | some index =>
          have map := addKeyToCache_stores stores key tickCount
          by_cases zero : keyId = 0
          · exact Or.inr ⟨by simp [touchedEntry, zero], onlyFrees_update map zero⟩
          · refine Or.inl ⟨index, storedSlot (cache.map index) key keyId tickCount,
              by simp [touchedEntry, zero, stores], map, zero, rfl, fun _ i other there => ?_⟩
            unfold storingSlot at stores
            split at stores
            · contradiction
            · rename_i notAlready
              refine notAlready (Fin.isSome_find?_of_eq_true (i := i) ?_)
              have elsewhere : index ≠ i := other.symm
              simp only [storedSlot] at there
              simp [stores, elsewhere, there]
  | removeKeyFromCache keyId =>
      refine Or.inr ⟨rfl, ?_⟩
      obtain ⟨index, _, result⟩ | ⟨_, result⟩ := removeKeyFromCache_cases cache keyId
      · rw [operateCache, result]
        exact onlyFrees_update (clearSlot_map cache index) rfl
      · rw [operateCache, result]
        exact unchanged
  | getKeyFromCache keyId =>
      cases hit : hitSlot cache keyId with
      | none =>
          refine Or.inr ⟨by simp [touchedEntry, hit], ?_⟩
          rw [operateCache, getKeyFromCache_misses hit]
          exact unchanged
      | some index =>
          have map := getKeyFromCache_hits hit tickCount
          by_cases zero : (cache.map index).keyId = 0
          · exact Or.inr ⟨by simp [touchedEntry, hit, zero], onlyFrees_update map zero⟩
          · refine Or.inl ⟨index, touchedSlot (cache.map index) tickCount,
              by simp [touchedEntry, hit, zero], map, zero, rfl, fun distinct i other same => ?_⟩
            exact other (distinct index i same.symm zero).symm
  | isKeyInCache keyId => exact Or.inr ⟨rfl, unchanged⟩
  | removeLruKeyFromCache =>
      refine Or.inr ⟨rfl, ?_⟩
      obtain ⟨index, result, _⟩ | result := removeLruKeyFromCache_cases cache
      · rw [operateCache, result]
        exact onlyFrees_update (clearSlot_map cache index) rfl
      · rw [operateCache, result]
        exact unchanged
  | clearCache => exact Or.inr ⟨rfl, onlyFrees_clearCache cache⟩

theorem ShortcutStands.operateCache {cache : KeyReconstructionCache size}
    (stands : ShortcutStands cache) (tickCount : UInt32) (operation : CacheOperation) :
    ShortcutStands (operateCache cache tickCount operation) := by
  cases operation with
  | addKeyToCache key keyId => exact (stands.addKeyToCache key keyId tickCount).1
  | removeKeyFromCache keyId =>
      obtain ⟨index, _, result⟩ | ⟨_, result⟩ := removeKeyFromCache_cases cache keyId
      · rw [Receiver.operateCache, result]
        exact stands.clearSlot index
      · rw [Receiver.operateCache, result]
        exact stands
  | getKeyFromCache keyId => exact stands.getKeyFromCache keyId tickCount
  | isKeyInCache keyId => exact stands
  | removeLruKeyFromCache =>
      obtain ⟨index, result, _⟩ | result := removeLruKeyFromCache_cases cache
      · rw [Receiver.operateCache, result]
        exact stands.clearSlot index
      · rw [Receiver.operateCache, result]
        exact stands
  | clearCache => exact stands.clearCache.1

/-! ## Order of eviction and order of touch -/

structure TouchesOrdered (state : ClockedCache size) : Prop where
  distinct : DistinctIds state.cache
  stamped : ∀ i, (state.cache.map i).keyId ≠ 0 →
    (state.cache.map i).lastUsed.ticks.toNat < 2 ^ 32
  past : ∀ i, (state.cache.map i).keyId ≠ 0 → state.lastTouch i ≤ state.now
  ordered : ∀ i j, (state.cache.map i).keyId ≠ 0 → (state.cache.map j).keyId ≠ 0 →
    state.lastTouch i < state.lastTouch j → EvictedBefore state.cache i j

theorem touchesOrdered_init (garbage : Fin size → KeyReconstructionMap) (start : Nat) :
    TouchesOrdered (initClockedCache garbage start) where
  distinct := fun _ _ _ used => absurd rfl used
  stamped := fun _ used => absurd rfl used
  past := fun _ used => absurd rfl used
  ordered := fun _ _ used => absurd rfl used

theorem TouchesOrdered.freed {state next : ClockedCache size} (ordered : TouchesOrdered state)
    (frees : OnlyFrees state.cache next.cache) (now : state.now ≤ next.now)
    (lastTouch : next.lastTouch = state.lastTouch) : TouchesOrdered next := by
  have was : ∀ i, (next.cache.map i).keyId ≠ 0 → (state.cache.map i).keyId ≠ 0 :=
    fun i used => frees i used ▸ used
  refine ⟨fun i j same used => ?_, fun i used => ?_, fun i used => ?_, fun i j first second => ?_⟩
  · have usedToo : (next.cache.map j).keyId ≠ 0 := same ▸ used
    rw [frees i used, frees j usedToo] at same
    exact ordered.distinct i j same (was i used)
  · rw [frees i used]
    exact ordered.stamped i (was i used)
  · rw [lastTouch]
    exact (ordered.past i (was i used)).trans now
  · rw [lastTouch, EvictedBefore, frees i first, frees j second]
    exact ordered.ordered i j (was i first) (was j second)

theorem TouchesOrdered.touched {state : ClockedCache size} (ordered : TouchesOrdered state)
    {operation : CacheOperation} (saves : SavedInOrder state (.call operation))
    {index : Fin size} (isTouched : touchedEntry state.cache operation = some index)
    {slot : KeyReconstructionMap}
    (touches : Touches state.cache (operateCache state.cache state.tickCount operation) index
      state.tickCount slot) : TouchesOrdered (clockedStep state (.call operation)) := by
  have map := touches.map
  have stays : ∀ i, i ≠ index →
      (operateCache state.cache state.tickCount operation).map i = state.cache.map i :=
    fun i other => by rw [map, Function.update_of_ne other]
  have here : (operateCache state.cache state.tickCount operation).map index = slot := by
    rw [map, Function.update_self]
  simp only [clockedStep, isTouched]
  refine ⟨ordered.distinct.update (fun _ => touches.fresh ordered.distinct) map, fun i used => ?_,
    fun i used => ?_, fun i j first second before => ?_⟩
  · by_cases same : i = index
    · rw [same, here, touches.saved]
      exact saveTimestamp_ticks _ _
    · rw [stays i same] at used ⊢
      exact ordered.stamped i used
  · simp only at used ⊢
    by_cases same : i = index
    · rw [same, Function.update_self]
    · rw [Function.update_of_ne same]
      rw [stays i same] at used
      exact ordered.past i used
  · simp only at first second before ⊢
    by_cases firstTouched : i = index
    · -- nothing was touched later than now
      have late : j ≠ index := by
        rintro rfl
        exact absurd (firstTouched ▸ before) (lt_irrefl _)
      rw [firstTouched, Function.update_self, Function.update_of_ne late] at before
      rw [stays j late] at second
      exact absurd (ordered.past j second) (not_le.mpr before)
    · rw [stays i firstTouched] at first
      rw [Function.update_of_ne firstTouched] at before
      by_cases secondTouched : j = index
      · rw [secondTouched, Function.update_self] at before
        rw [secondTouched, EvictedBefore, stays i firstTouched, here, touches.saved]
        exact saves index isTouched i first firstTouched before
      · rw [stays j secondTouched] at second
        rw [Function.update_of_ne secondTouched] at before
        rw [EvictedBefore, stays i firstTouched, stays j secondTouched]
        exact ordered.ordered i j first second before

theorem TouchesOrdered.step (state : ClockedCache size) (step : ClockedStep)
    (ordered : TouchesOrdered state) (saves : SavedInOrder state step) :
    TouchesOrdered (clockedStep state step) := by
  cases step with
  | wait ticks => exact ordered.freed (fun _ _ => rfl) (Nat.le_add_right _ _) rfl
  | call operation =>
      obtain ⟨index, slot, isTouched, touches⟩ | ⟨untouched, frees⟩ :=
        operateCache_cases state.cache state.tickCount operation
      · exact ordered.touched saves isTouched touches
      · refine ordered.freed frees (le_refl _) ?_
        simp only [clockedStep, untouched]

theorem TouchesOrdered.evictsLru (state : ClockedCache size) (step : ClockedStep)
    (ordered : TouchesOrdered state) : EvictsLru state step := by
  cases step with
  | wait ticks => trivial
  | call operation =>
      cases operation with
      | removeLruKeyFromCache =>
          rintro ⟨i, used⟩
          obtain ⟨index, found, isUsed, before⟩ | ⟨_, largest⟩ := lruIndex_cases state.cache
          · refine ⟨index, by simp only [removeLruKeyFromCache, found], isUsed, fun j usedToo => ?_⟩
            by_contra later
            have other := ordered.ordered j index usedToo isUsed (not_le.mp later)
            have same := (before j usedToo).antisymm other
            exact later (by rw [same])
          · exact absurd (largest i used) (getTimestamp_below (ordered.stamped i used))
      | addKeyToCache key keyId => trivial
      | removeKeyFromCache keyId => trivial
      | getKeyFromCache keyId => trivial
      | isKeyInCache keyId => trivial
      | clearCache => trivial

/-! ## Out of order -/

def removeSlots (cache : KeyReconstructionCache size) (slots : List (Fin size)) :
    List ClockedStep :=
  slots.map fun k => .call (.removeKeyFromCache (cache.map k).keyId)

/-- `state` is `base` with the entries of these slots removed. -/
structure SlotsRemoved (base state : ClockedCache size) (removed : List (Fin size)) : Prop where
  frees : OnlyFrees base.cache state.cache
  gone : ∀ k ∈ removed, (state.cache.map k).keyId = 0
  kept : ∀ k, k ∉ removed → (base.cache.map k).keyId ≠ 0 →
    state.cache.map k = base.cache.map k
  lastTouch : state.lastTouch = base.lastTouch

theorem SlotsRemoved.eq_last {base state : ClockedCache size} {removed : List (Fin size)}
    (was : SlotsRemoved base state removed) {i k : Fin size} (member : i ∈ removed ++ [k])
    (used : (state.cache.map i).keyId ≠ 0) : i = k := by
  rcases List.mem_append.mp member with old | new
  · exact absurd (was.gone i old) used
  · exact List.mem_singleton.mp new

theorem SlotsRemoved.next {base state : ClockedCache size} {removed : List (Fin size)}
    (distinct : DistinctIds base.cache) (was : SlotsRemoved base state removed) (k : Fin size) :
    SlotsRemoved base
      (clockedStep state (.call (.removeKeyFromCache (base.cache.map k).keyId)))
      (removed ++ [k]) := by
  obtain ⟨index, isId, result⟩ | ⟨missing, result⟩ :=
    removeKeyFromCache_cases state.cache (base.cache.map k).keyId
  · have map := clearSlot_map state.cache index
    refine ⟨fun i used => ?_, fun i member => ?_, fun i notRemoved used => ?_, was.lastTouch⟩
    · simp only [clockedStep, operateCache, result] at used ⊢
      obtain ⟨_, same⟩ := usedSlot_of_freed map rfl used
      rw [same] at used ⊢
      exact was.frees i used
    · simp only [clockedStep, operateCache, result]
      by_contra used
      obtain ⟨elsewhere, same⟩ := usedSlot_of_freed map rfl used
      rw [same] at used
      -- the removal found another slot with the id of slot `k`
      obtain rfl := was.eq_last member used
      have usedToo : (state.cache.map index).keyId ≠ 0 := by
        rw [isId, ← was.frees i used]
        exact used
      rw [was.frees i used] at used
      rw [was.frees index usedToo] at isId
      exact elsewhere (distinct index i isId (isId.symm ▸ used)).symm
    · simp only [clockedStep, operateCache, result]
      obtain ⟨notOld, notNew⟩ := not_or.mp (mt List.mem_append.mpr notRemoved)
      have same := was.kept i notOld used
      have elsewhere : i ≠ index := by
        rintro rfl
        rw [same] at isId
        exact notNew (List.mem_singleton.mpr (distinct i k isId used))
      rw [map, Function.update_of_ne elsewhere]
      exact same
  · refine ⟨fun i used => ?_, fun i member => ?_, fun i notRemoved used => ?_, was.lastTouch⟩
    · simp only [clockedStep, operateCache, result] at used ⊢
      exact was.frees i used
    · simp only [clockedStep, operateCache, result]
      by_contra used
      obtain rfl := was.eq_last member used
      exact missing i (congrArg _ (was.frees i used))
    · simp only [clockedStep, operateCache, result]
      exact was.kept i (not_or.mp (mt List.mem_append.mpr notRemoved)).1 used

theorem slotsRemoved_run {base : ClockedCache size} (distinct : DistinctIds base.cache)
    (slots : List (Fin size)) {state : ClockedCache size} {removed : List (Fin size)}
    (was : SlotsRemoved base state removed) :
    SlotsRemoved base (run clockedStep state (removeSlots base.cache slots)) (removed ++ slots) := by
  induction slots generalizing state removed with
  | nil =>
      rw [List.append_nil]
      exact was
  | cons slot rest ih =>
      rw [List.append_cons]
      exact ih (was.next distinct slot)

/-- If an entry is evicted before one that was touched earlier, the removal of all others and
an eviction make that happen. -/
theorem evictsLater {base : ClockedCache size} (distinct : DistinctIds base.cache)
    {i j : Fin size} (usedI : (base.cache.map i).keyId ≠ 0)
    (usedJ : (base.cache.map j).keyId ≠ 0) (earlier : base.lastTouch j < base.lastTouch i)
    (notBefore : ¬ EvictedBefore base.cache j i) :
    ∃ later, ¬ Guarded clockedStep EvictsLru base later := by
  let others := (List.finRange size).filter fun k => k ≠ i ∧ k ≠ j
  refine ⟨removeSlots base.cache others ++ [.call .removeLruKeyFromCache], fun guarded => ?_⟩
  have evicts := (guarded_append.mp guarded).2.1
  have unchanged : SlotsRemoved base base [] :=
    ⟨fun _ _ => rfl, by simp, fun _ _ _ => rfl, rfl⟩
  have removed := slotsRemoved_run distinct others unchanged
  generalize run clockedStep base (removeSlots base.cache others) = last at evicts removed
  have keptI := removed.kept i (by simp [others]) usedI
  have keptJ := removed.kept j (by simp [others]) usedJ
  obtain ⟨index, result, used, least⟩ := evicts ⟨i, keptI ▸ usedI⟩
  have one : index = i ∨ index = j := by
    by_contra other
    obtain ⟨notI, notJ⟩ := not_or.mp other
    exact used (removed.gone index (by simp [others, notI, notJ]))
  rcases one with rfl | rfl
  · have noLater := least j (keptJ ▸ usedJ)
    rw [removed.lastTouch] at noLater
    exact absurd earlier (not_lt.mpr noLater)
  · obtain ⟨lru, found, _, before⟩ | ⟨missing, _⟩ := lruIndex_cases last.cache
    · have isLru : lru = index := by
        simp only [removeLruKeyFromCache, found, Option.some.injEq] at result
        exact result
      have order := before i (keptI ▸ usedI)
      rw [isLru, EvictedBefore, keptI, keptJ] at order
      exact notBefore order
    · simp [removeLruKeyFromCache, missing] at result

/-- A timestamp saved out of order leads to a wrong eviction. -/
theorem TouchesOrdered.evictsWrong {state : ClockedCache size} (ordered : TouchesOrdered state)
    {step : ClockedStep} (outOfOrder : ¬ SavedInOrder state step) :
    ∃ later, ¬ Guarded clockedStep EvictsLru state (step :: later) := by
  cases step with
  | wait ticks => exact absurd trivial outOfOrder
  | call operation =>
      simp only [SavedInOrder, not_forall] at outOfOrder
      obtain ⟨index, isTouched, j, usedJ, other, earlier, notBefore⟩ := outOfOrder
      obtain ⟨touched, slot, same, touches⟩ | ⟨untouched, _⟩ :=
        operateCache_cases state.cache state.tickCount operation
      · have isIndex : touched = index := Option.some.inj (same.symm.trans isTouched)
        subst isIndex
        have distinct : DistinctIds (clockedStep state (.call operation)).cache :=
          ordered.distinct.update (fun _ => touches.fresh ordered.distinct) touches.map
        have here : (clockedStep state (.call operation)).cache.map touched = slot :=
          (congrFun touches.map touched).trans (Function.update_self _ _ _)
        have there : (clockedStep state (.call operation)).cache.map j = state.cache.map j :=
          (congrFun touches.map j).trans (Function.update_of_ne other _ _)
        have last : (clockedStep state (.call operation)).lastTouch =
            Function.update state.lastTouch touched state.now := by
          simp only [clockedStep, same]
        have touchedLater : (clockedStep state (.call operation)).lastTouch j <
            (clockedStep state (.call operation)).lastTouch touched := by
          rw [last, Function.update_self, Function.update_of_ne other]
          exact earlier
        have evictedFirst : ¬ EvictedBefore (clockedStep state (.call operation)).cache j
            touched := by
          rw [EvictedBefore, there, here, touches.saved]
          exact notBefore
        obtain ⟨later, wrong⟩ := evictsLater distinct (here ▸ touches.used) (there ▸ usedJ)
          touchedLater evictedFirst
        exact ⟨later, fun guarded => wrong guarded.2⟩
      · rw [untouched] at isTouched
        contradiction

/-! ## Runs -/

/-- In a run in which every timestamp is saved in order, every eviction takes the entry that
was touched the longest time ago; and as soon as one is saved out of order, some later
operations evict another. -/
theorem evictions_are_lru_when (garbage : Fin size → KeyReconstructionMap) (start : Nat)
    (steps : List ClockedStep)
    (guarded : Guarded clockedStep SavedInOrder (initClockedCache garbage start) steps) :
    Guarded clockedStep EvictsLru (initClockedCache garbage start) steps ∧
    ∀ step, ¬ SavedInOrder (run clockedStep (initClockedCache garbage start) steps) step →
      ∃ later, ¬ Guarded clockedStep EvictsLru (initClockedCache garbage start)
        (steps ++ step :: later) := by
  have initial := touchesOrdered_init garbage start
  refine ⟨guarded.entails TouchesOrdered.step (fun state step ordered _ =>
    ordered.evictsLru state step) initial, fun step outOfOrder => ?_⟩
  obtain ⟨later, wrong⟩ := (guarded.preserves TouchesOrdered.step initial).evictsWrong outOfOrder
  exact ⟨later, fun lru => wrong (guarded_append.mp lru).2⟩

instance savedInOrderDecidable (state : ClockedCache size) :
    ∀ step, Decidable (SavedInOrder state step)
  | .wait _ => isTrue trivial
  | .call operation =>
      inferInstanceAs (Decidable (∀ index ∈ touchedEntry state.cache operation, _))

/-- Two keys are added, the first is got, and the tick count wraps before the first is got
again. -/
def gotAcrossWrap (key : Key128b) : List ClockedStep :=
  [.call (.addKeyToCache key 1), .wait 1, .call (.addKeyToCache key 2), .wait 1,
    .call (.getKeyFromCache 1), .wait 1, .call .removeLruKeyFromCache]

def sameCounts : Fin 2 → KeyReconstructionMap := fun _ => ⟨fun _ => 0, 7, ⟨0, 0⟩⟩

/-- The second key is the one that goes. -/
theorem evictions_are_lru_gotAcrossWrap :
    Guarded clockedStep EvictsLru (initClockedCache sameCounts (2 ^ 32 - 2))
      (gotAcrossWrap fun _ => 0) :=
  (evictions_are_lru_when sameCounts (2 ^ 32 - 2) (gotAcrossWrap fun _ => 0) (by decide)).1

/-- The memory of the first slot had a higher count in it. -/
def differentCounts : Fin 2 → KeyReconstructionMap :=
  fun index => ⟨fun _ => 0, 7, ⟨0, if index.val = 0 then 5 else 0⟩⟩

def addedInTurn (key : Key128b) : List ClockedStep :=
  [.call (.addKeyToCache key 1), .wait 1, .call (.addKeyToCache key 2), .wait 1,
    .call .removeLruKeyFromCache]

/-- The second key is evicted, although the first was added before it and not used since. -/
theorem newer_key_evicted :
    ¬ Guarded clockedStep EvictsLru (initClockedCache differentCounts 1)
      (addedInTurn fun _ => 0) := by
  rintro ⟨-, -, -, -, evicts, -⟩
  obtain ⟨index, result, _, least⟩ := evicts ⟨0, by decide⟩
  have second : index = 1 := by
    refine Option.some.inj (result.symm.trans ?_)
    decide
  subst second
  exact absurd (least 0 (by decide)) (by decide)

end BleBroadcast.Receiver
