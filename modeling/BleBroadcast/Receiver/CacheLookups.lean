import BleBroadcast.Receiver.KeyCache

/-!
# What lookups leave in the cache

A lookup changes no id of a slot, but it moves the shortcut.  The shortcut may stand
on the mark of a free slot, and then it still finds that mark once the slot is taken;
the next lookup that hits another id makes it miss.
-/

set_option autoImplicit false

namespace BleBroadcast.Receiver

open BleBroadcast.Core

variable {size : Nat}

/-- The two caches find the same ids, now and after any lookups: keys and timestamps
aside, they are the same. -/
structure SameLookups (first second : KeyReconstructionCache size) : Prop where
  ids : ∀ i, (first.map i).keyId = (second.map i).keyId
  lastId : first.lastKeyIdUsed = second.lastKeyIdUsed
  lastIndex : first.lastKeyIndexInMap = second.lastKeyIndexInMap

theorem SameLookups.refl (cache : KeyReconstructionCache size) : SameLookups cache cache :=
  ⟨fun _ => rfl, rfl, rfl⟩

theorem SameLookups.symm {first second : KeyReconstructionCache size}
    (same : SameLookups first second) : SameLookups second first :=
  ⟨fun i => (same.ids i).symm, same.lastId.symm, same.lastIndex.symm⟩

theorem SameLookups.trans {first second third : KeyReconstructionCache size}
    (same : SameLookups first second) (next : SameLookups second third) :
    SameLookups first third :=
  ⟨fun i => (same.ids i).trans (next.ids i), same.lastId.trans next.lastId,
    same.lastIndex.trans next.lastIndex⟩

theorem SameLookups.scan {first second : KeyReconstructionCache size}
    (same : SameLookups first second) (keyId : UInt8) :
    indexOfKeyId first keyId = indexOfKeyId second keyId := by
  simp only [indexOfKeyId, same.ids]

theorem SameLookups.cached {first second : KeyReconstructionCache size}
    (same : SameLookups first second) (keyId : UInt8) :
    isKeyInCache first keyId = isKeyInCache second keyId := by
  simp only [isKeyInCache, same.scan keyId, same.lastId, same.lastIndex]

/-! ## The three outcomes of a lookup -/

def OnShortcut (cache : KeyReconstructionCache size) (keyId : UInt8) : Prop :=
  cache.lastKeyIdUsed = some keyId ∧ cache.lastKeyIndexInMap ≠ none

theorem isKeyInCache_cases (cache : KeyReconstructionCache size) (keyId : UInt8) :
    (OnShortcut cache keyId ∧ isKeyInCache cache keyId = true) ∨
    (¬ OnShortcut cache keyId ∧ ∃ index, indexOfKeyId cache keyId = some index ∧
      isKeyInCache cache keyId = true) ∨
    (¬ OnShortcut cache keyId ∧ indexOfKeyId cache keyId = none ∧
      isKeyInCache cache keyId = false) := by
  by_cases shortcut : OnShortcut cache keyId
  · exact Or.inl ⟨shortcut, if_pos shortcut⟩
  · have scanned : isKeyInCache cache keyId = (indexOfKeyId cache keyId).isSome := if_neg shortcut
    cases found : indexOfKeyId cache keyId with
    | some index => exact Or.inr (Or.inl ⟨shortcut, index, rfl, by rw [scanned, found]; rfl⟩)
    | none => exact Or.inr (Or.inr ⟨shortcut, rfl, by rw [scanned, found]; rfl⟩)

theorem getKeyFromCache_onShortcut {cache : KeyReconstructionCache size} {keyId : UInt8}
    (shortcut : OnShortcut cache keyId) (tickCount : UInt32) :
    SameLookups (getKeyFromCache cache keyId tickCount).2 cache := by
  obtain ⟨lastId, lastSlot⟩ := shortcut
  obtain ⟨index, hit⟩ := Option.ne_none_iff_exists'.mp lastSlot
  refine ⟨fun i => (getKeyFromCache_keeps cache keyId tickCount i).1, ?_, ?_⟩ <;>
    simp [getKeyFromCache, hit, lastId, setSlot]

theorem not_onShortcut {cache : KeyReconstructionCache size} {keyId : UInt8}
    (missed : ¬ OnShortcut cache keyId) :
    cache.lastKeyIndexInMap = none ∨ ∃ last, cache.lastKeyIndexInMap = some last ∧
      decide (cache.lastKeyIdUsed = some keyId) = false := by
  cases slot : cache.lastKeyIndexInMap with
  | none => exact Or.inl rfl
  | some last =>
      exact Or.inr ⟨last, rfl, decide_eq_false fun lastId => missed ⟨lastId, by simp [slot]⟩⟩

theorem getKeyFromCache_found {cache : KeyReconstructionCache size} {keyId : UInt8}
    {index : Fin size} (missed : ¬ OnShortcut cache keyId)
    (found : indexOfKeyId cache keyId = some index) (tickCount : UInt32) :
    SameLookups (getKeyFromCache cache keyId tickCount).2
      { cache with
        lastKeyIdUsed := some keyId
        lastKeyIndexInMap := some index } := by
  obtain unset | ⟨last, slot, otherId⟩ := not_onShortcut missed
  · refine ⟨fun i => (getKeyFromCache_keeps cache keyId tickCount i).1, ?_, ?_⟩ <;>
      simp only [getKeyFromCache, unset, found]
  · refine ⟨fun i => (getKeyFromCache_keeps cache keyId tickCount i).1, ?_, ?_⟩ <;>
      simp only [getKeyFromCache, slot, otherId, found]

theorem getKeyFromCache_absent {cache : KeyReconstructionCache size} {keyId : UInt8}
    (absent : isKeyInCache cache keyId = false) (tickCount : UInt32) :
    (getKeyFromCache cache keyId tickCount).2 = cache := by
  obtain ⟨_, cached⟩ | ⟨_, _, _, cached⟩ | ⟨missed, unfound, _⟩ := isKeyInCache_cases cache keyId
  · simp [absent] at cached
  · simp [absent] at cached
  · obtain unset | ⟨last, slot, otherId⟩ := not_onShortcut missed
    · simp only [getKeyFromCache, unset, unfound]
    · simp only [getKeyFromCache, slot, otherId, unfound]

/-! ## The shortcut on used ids -/

/-- The shortcut stands on a slot with its id, if that id is not the mark of a free slot. -/
def ShortcutStands (cache : KeyReconstructionCache size) : Prop :=
  ∀ keyId index, keyId ≠ 0 → cache.lastKeyIdUsed = some keyId →
    cache.lastKeyIndexInMap = some index → (cache.map index).keyId = keyId

theorem ShortcutStands.cached_iff {cache : KeyReconstructionCache size}
    (stands : ShortcutStands cache) {keyId : UInt8} (nonzero : keyId ≠ 0) :
    isKeyInCache cache keyId = true ↔ ∃ i, (cache.map i).keyId = keyId := by
  obtain ⟨⟨lastId, lastSlot⟩, cached⟩ | ⟨_, index, found, cached⟩ | ⟨_, missing, absent⟩ :=
    isKeyInCache_cases cache keyId
  · obtain ⟨index, slot⟩ := Option.ne_none_iff_exists'.mp lastSlot
    exact iff_of_true cached ⟨index, stands keyId index nonzero lastId slot⟩
  · exact iff_of_true cached ⟨index, indexOfKeyId_some found⟩
  · refine iff_of_false (by simp [absent]) ?_
    rintro ⟨i, there⟩
    exact indexOfKeyId_none.mp missing i there

theorem SameLookups.stands {first second : KeyReconstructionCache size}
    (same : SameLookups first second) (stands : ShortcutStands second) : ShortcutStands first := by
  intro keyId index nonzero lastId lastSlot
  rw [same.lastId] at lastId
  rw [same.lastIndex] at lastSlot
  rw [same.ids index]
  exact stands keyId index nonzero lastId lastSlot

theorem ShortcutStands.getKeyFromCache {cache : KeyReconstructionCache size}
    (stands : ShortcutStands cache) (keyId : UInt8) (tickCount : UInt32) :
    ShortcutStands (getKeyFromCache cache keyId tickCount).2 := by
  obtain ⟨shortcut, _⟩ | ⟨missed, index, found, _⟩ | ⟨_, _, absent⟩ :=
    isKeyInCache_cases cache keyId
  · exact (getKeyFromCache_onShortcut shortcut tickCount).stands stands
  · refine (getKeyFromCache_found missed found tickCount).stands ?_
    rintro _ _ _ ⟨⟩ ⟨⟩
    exact indexOfKeyId_some found
  · rw [getKeyFromCache_absent absent]
    exact stands

theorem ShortcutStands.clearSlot {cache : KeyReconstructionCache size}
    (stands : ShortcutStands cache) (index : Fin size) :
    ShortcutStands (clearSlot cache index) := by
  by_cases dropped : cache.lastKeyIdUsed = some (cache.map index).keyId
  · intro keyId last _ lastId
    simp [Receiver.clearSlot, dropped] at lastId
  · intro keyId last nonzero lastId lastSlot
    simp only [Receiver.clearSlot, if_neg dropped] at lastId lastSlot
    have stood := stands keyId last nonzero lastId lastSlot
    have elsewhere : last ≠ index := by
      rintro rfl
      exact dropped (by rw [stood]; exact lastId)
    rw [clearSlot_map, Function.update_of_ne elsewhere]
    exact stood

/-- After `clear_cache` no used id is found. -/
theorem ShortcutStands.clearCache {cache : KeyReconstructionCache size}
    (stands : ShortcutStands cache) :
    ShortcutStands (clearCache cache) ∧ ∀ i, ((clearCache cache).map i).keyId = 0 := by
  have fold : ∀ (slots : List (Fin size)) (cache : KeyReconstructionCache size),
      ShortcutStands cache →
      ShortcutStands (slots.foldl removeKeyFromCacheAtIndex cache) ∧
      ∀ i, i ∈ slots ∨ (cache.map i).keyId = 0 →
        ((slots.foldl removeKeyFromCacheAtIndex cache).map i).keyId = 0 := by
    intro slots
    induction slots with
    | nil => exact fun _ stands => ⟨stands, fun i => by simp⟩
    | cons index rest ih =>
        intro cache stands
        obtain ⟨kept, cleared⟩ := ih _ (stands.clearSlot index)
        refine ⟨kept, fun i reached => cleared i ?_⟩
        by_cases here : i = index
        · simp [here, clearedSlot]
        · rw [clearSlot_map, Function.update_of_ne here]
          exact reached.imp_left fun member => (List.mem_cons.mp member).resolve_left here
  obtain ⟨kept, cleared⟩ := fold (List.finRange size) cache stands
  exact ⟨kept, fun i => cleared i (Or.inl (List.mem_finRange i))⟩

theorem ShortcutStands.addKeyToCache {cache : KeyReconstructionCache size}
    (stands : ShortcutStands cache) (key : Key128b) (keyId : UInt8) (tickCount : UInt32) :
    ShortcutStands (addKeyToCache cache key keyId tickCount).2 ∧
    ∀ i, ((addKeyToCache cache key keyId tickCount).2.map i).keyId = (cache.map i).keyId ∨
      ((addKeyToCache cache key keyId tickCount).2.map i).keyId = keyId := by
  unfold Receiver.addKeyToCache
  cases free : firstFreeIndex cache with
  | none => exact ⟨stands, fun _ => Or.inl rfl⟩
  | some index =>
      have zero : (cache.map index).keyId = 0 := indexOfKeyId_some free
      have ids : ∀ slot : KeyReconstructionMap, slot.keyId = keyId →
          ∀ i, ((setSlot cache index slot).map i).keyId = (cache.map i).keyId ∨
            ((setSlot cache index slot).map i).keyId = keyId := by
        intro slot stored i
        by_cases here : i = index
        · subst here
          exact Or.inr (by rw [setSlot_map_self, stored])
        · exact Or.inl (by rw [setSlot_map_other cache slot here])
      simp only
      split
      · exact ⟨stands, fun _ => Or.inl rfl⟩
      · split
        · refine ⟨?_, ids _ rfl⟩
          rintro _ _ _ ⟨⟩ ⟨⟩
          simp [setSlot]
        · refine ⟨fun last lastIndex nonzero lastId lastSlot => ?_, ids _ rfl⟩
          have stood := stands last lastIndex nonzero lastId lastSlot
          have elsewhere : lastIndex ≠ index := by
            rintro rfl
            exact nonzero (stood.symm.trans zero)
          rw [setSlot_map_other cache _ elsewhere]
          exact stood

theorem ShortcutStands.addOrEvict {cache : KeyReconstructionCache size}
    (stands : ShortcutStands cache) (key : Key128b) (keyId : UInt8) (tickCount : UInt32) :
    ShortcutStands (addOrEvict cache key keyId tickCount).2.2 ∧
    ∀ i, ((addOrEvict cache key keyId tickCount).2.2.map i).keyId = (cache.map i).keyId ∨
      ((addOrEvict cache key keyId tickCount).2.2.map i).keyId = 0 ∨
      ((addOrEvict cache key keyId tickCount).2.2.map i).keyId = keyId := by
  obtain ⟨addedStands, addedIds⟩ := stands.addKeyToCache key keyId tickCount
  simp only [Receiver.addOrEvict]
  split
  · obtain ⟨victim, removed, _⟩ | removed :=
      removeLruKeyFromCache_cases (Receiver.addKeyToCache cache key keyId tickCount).2
    · rw [removed]
      obtain ⟨againStands, againIds⟩ :=
        (addedStands.clearSlot victim).addKeyToCache key keyId tickCount
      refine ⟨againStands, fun i => ?_⟩
      rcases againIds i with same | new
      · rw [same, clearSlot_map]
        by_cases here : i = victim
        · subst here
          exact Or.inr (Or.inl (by simp [clearedSlot]))
        · rw [Function.update_of_ne here]
          exact (addedIds i).imp_right Or.inr
      · exact Or.inr (Or.inr new)
    · rw [removed]
      obtain ⟨againStands, againIds⟩ := addedStands.addKeyToCache key keyId tickCount
      refine ⟨againStands, fun i => ?_⟩
      rcases againIds i with same | new
      · rw [same]
        exact (addedIds i).imp_right Or.inr
      · exact Or.inr (Or.inr new)
  · exact ⟨addedStands, fun i => (addedIds i).imp_right Or.inr⟩

/-! ## Lookups after lookups -/

theorem SameLookups.lookup {first second : KeyReconstructionCache size}
    (same : SameLookups first second) (keyId : UInt8) (tickCount other : UInt32) :
    SameLookups (getKeyFromCache first keyId tickCount).2
      (getKeyFromCache second keyId other).2 := by
  have sameShortcut : OnShortcut first keyId ↔ OnShortcut second keyId := by
    rw [OnShortcut, OnShortcut, same.lastId, same.lastIndex]
  obtain ⟨shortcut, _⟩ | ⟨missed, index, found, _⟩ | ⟨_, _, absent⟩ :=
    isKeyInCache_cases first keyId
  · exact (getKeyFromCache_onShortcut shortcut tickCount).trans
      (same.trans (getKeyFromCache_onShortcut (sameShortcut.mp shortcut) other).symm)
  · have marked : SameLookups
        { first with
          lastKeyIdUsed := some keyId
          lastKeyIndexInMap := some index }
        { second with
          lastKeyIdUsed := some keyId
          lastKeyIndexInMap := some index } := ⟨same.ids, rfl, rfl⟩
    exact (getKeyFromCache_found missed found tickCount).trans (marked.trans
      (getKeyFromCache_found (fun on => missed (sameShortcut.mpr on))
        (same.scan keyId ▸ found) other).symm)
  · rw [getKeyFromCache_absent absent,
      getKeyFromCache_absent ((same.cached keyId).symm.trans absent)]
    exact same

theorem getKeyFromCache_again (cache : KeyReconstructionCache size) (keyId : UInt8)
    (tickCount later : UInt32) :
    SameLookups (getKeyFromCache (getKeyFromCache cache keyId tickCount).2 keyId later).2
      (getKeyFromCache cache keyId tickCount).2 := by
  obtain ⟨shortcut, _⟩ | ⟨missed, index, found, _⟩ | ⟨_, _, absent⟩ :=
    isKeyInCache_cases cache keyId
  · have same := getKeyFromCache_onShortcut shortcut tickCount
    refine getKeyFromCache_onShortcut ⟨same.lastId.trans shortcut.1, ?_⟩ later
    rw [same.lastIndex]
    exact shortcut.2
  · have same := getKeyFromCache_found missed found tickCount
    refine getKeyFromCache_onShortcut ⟨same.lastId, ?_⟩ later
    rw [same.lastIndex]
    exact Option.some_ne_none index
  · rw [getKeyFromCache_absent absent, getKeyFromCache_absent absent]
    exact .refl _

theorem isKeyInCache_of_lookup {cache : KeyReconstructionCache size} {looked keyId : UInt8}
    {tickCount : UInt32}
    (cached : isKeyInCache (getKeyFromCache cache looked tickCount).2 keyId = true) :
    isKeyInCache cache keyId = true := by
  obtain ⟨shortcut, _⟩ | ⟨missed, index, found, there⟩ | ⟨_, _, absent⟩ :=
    isKeyInCache_cases cache looked
  · rwa [(getKeyFromCache_onShortcut shortcut tickCount).cached] at cached
  · by_cases same : looked = keyId
    · exact same ▸ there
    · rw [(getKeyFromCache_found missed found tickCount).cached] at cached
      have scanned : (indexOfKeyId cache keyId).isSome = true := by
        rw [isKeyInCache, if_neg (by simp [same])] at cached
        exact cached
      obtain ⟨_, cached⟩ | ⟨_, _, _, cached⟩ | ⟨_, unfound, _⟩ := isKeyInCache_cases cache keyId
      · exact cached
      · exact cached
      · simp [unfound] at scanned
  · rwa [getKeyFromCache_absent absent] at cached

end BleBroadcast.Receiver
