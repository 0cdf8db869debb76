import BleBroadcast.Lib.GuardedRun
import BleBroadcast.Receiver.CacheLookups

/-!
# The key cache as a bounded map

Any sequence of calls of the cache, with ids of one byte other than 0.  For its callers the
cache is a partial map from ids to keys with at most as many ids as it has slots; which entry
the removal of the least recently used key takes away is left open here.
-/

set_option autoImplicit false

namespace BleBroadcast.Receiver

open BleBroadcast.Core BleBroadcast.Lib

abbrev UsedId := { keyId : UInt8 // keyId ≠ 0 }

inductive CacheCall where
  | addKeyToCache (key : Key128b) (keyId : UsedId) (tickCount : UInt32)
  | removeKeyFromCache (keyId : UsedId)
  | getKeyFromCache (keyId : UsedId) (tickCount : UInt32)
  | isKeyInCache (keyId : UsedId)
  | removeLruKeyFromCache
  | clearCache

inductive CacheResult (size : Nat) where
  | status (code : Int)
  | key (found : Option Key128b)
  | cached (isCached : Bool)
  | evicted (index : Option (Fin size))
  | cleared

variable {size : Nat}

def callCache (cache : KeyReconstructionCache size) :
    CacheCall → CacheResult size × KeyReconstructionCache size
  | .addKeyToCache key keyId tickCount =>
      let (code, next) := addKeyToCache cache key keyId tickCount
      (.status code, next)
  | .removeKeyFromCache keyId => (.status 0, removeKeyFromCache cache keyId)
  | .getKeyFromCache keyId tickCount =>
      let (found, next) := getKeyFromCache cache keyId tickCount
      (.key found, next)
  | .isKeyInCache keyId => (.cached (isKeyInCache cache keyId), cache)
  | .removeLruKeyFromCache =>
      let (index, next) := removeLruKeyFromCache cache
      (.evicted index, next)
  | .clearCache => (.cleared, clearCache cache)

def cacheAfter (garbage : Fin size → KeyReconstructionMap) (calls : List CacheCall) :
    KeyReconstructionCache size :=
  run (fun cache call => (callCache cache call).2) (initKeyCache (createKeyCache garbage)) calls

/-! ## The bounded map -/

abbrev KeyMap := UsedId → Option Key128b

noncomputable def KeyMap.count (keys : KeyMap) : Nat := Set.ncard { keyId | keys keyId ≠ none }

/-- What a call answers, and what it makes of the map, if the map has room for `capacity`
ids.  Full or not, a key that is there already is left as it is. -/
def CallMeets (capacity : Nat) (keys : KeyMap) (call : CacheCall) (result : CacheResult capacity)
    (next : KeyMap) : Prop :=
  match call with
  | .addKeyToCache key keyId _ =>
      (keys.count = capacity → result = .status (-1) ∧ next = keys) ∧
      (keys.count < capacity → result = .status 0 ∧
        (keys keyId = none → next = Function.update keys keyId (some key)) ∧
        (keys keyId ≠ none → next = keys))
  | .removeKeyFromCache keyId => result = .status 0 ∧ next = Function.update keys keyId none
  | .getKeyFromCache keyId _ => result = .key (keys keyId) ∧ next = keys
  | .isKeyInCache keyId => result = .cached (keys keyId).isSome ∧ next = keys
  | .removeLruKeyFromCache =>
      (keys.count = 0 ∧ result = .evicted none ∧ next = keys) ∨
      ∃ keyId index, keys keyId ≠ none ∧ result = .evicted (some index) ∧
        next = Function.update keys keyId none
  | .clearCache => result = .cleared ∧ next = fun _ => none

/-- The map runs from one content to another, with these answers to the calls. -/
inductive MapRun (capacity : Nat) :
    KeyMap → List (CacheCall × CacheResult capacity) → KeyMap → Prop
  | done (keys : KeyMap) : MapRun capacity keys [] keys
  | call {keys next last : KeyMap} {call : CacheCall} {result : CacheResult capacity}
      {rest : List (CacheCall × CacheResult capacity)}
      (meets : CallMeets capacity keys call result next) (later : MapRun capacity next rest last) :
      MapRun capacity keys ((call, result) :: rest) last

def cacheAnswers :
    KeyReconstructionCache size → List CacheCall → List (CacheCall × CacheResult size)
  | _, [] => []
  | cache, call :: rest =>
      (call, (callCache cache call).1) :: cacheAnswers (callCache cache call).2 rest

def cachedKeys (cache : KeyReconstructionCache size) : KeyMap := fun keyId =>
  (indexOfKeyId cache keyId).map fun index => (cache.map index).key

theorem cachedKeys_eq_none {cache : KeyReconstructionCache size} {keyId : UsedId} :
    cachedKeys cache keyId = none ↔ ∀ i, (cache.map i).keyId ≠ keyId := by
  rw [cachedKeys, Option.map_eq_none_iff, indexOfKeyId_none]

theorem cachedKeys_eq_some {cache : KeyReconstructionCache size} (distinct : DistinctIds cache)
    {keyId : UsedId} {key : Key128b} :
    cachedKeys cache keyId = some key ↔
      ∃ i, (cache.map i).keyId = keyId ∧ (cache.map i).key = key := by
  rw [cachedKeys, Option.map_eq_some_iff]
  constructor
  · rintro ⟨index, found, isKey⟩
    exact ⟨index, indexOfKeyId_some found, isKey⟩
  · rintro ⟨i, there, isKey⟩
    cases found : indexOfKeyId cache keyId with
    | none => exact absurd there (indexOfKeyId_none.mp found i)
    | some index =>
        have same : index = i :=
          distinct index i ((indexOfKeyId_some found).trans there.symm)
            (by rw [indexOfKeyId_some found]; exact keyId.property)
        exact ⟨index, rfl, by rw [same]; exact isKey⟩

theorem cachedKeys_of_slot {cache : KeyReconstructionCache size} (distinct : DistinctIds cache)
    {i : Fin size} {keyId : UsedId} (there : (cache.map i).keyId = keyId) :
    cachedKeys cache keyId = some (cache.map i).key :=
  (cachedKeys_eq_some distinct).mpr ⟨i, there, rfl⟩

theorem cachedKeys_congr {cache next : KeyReconstructionCache size}
    (same : ∀ i, (next.map i).keyId = (cache.map i).keyId ∧
      (next.map i).key = (cache.map i).key) : cachedKeys next = cachedKeys cache := by
  funext keyId
  simp only [cachedKeys, indexOfKeyId, fun i => (same i).1, fun i => (same i).2]

theorem cachedKeys_store {cache next : KeyReconstructionCache size}
    (distinct : DistinctIds cache) {index : Fin size} {slot : KeyReconstructionMap}
    {keyId : UsedId} (map : next.map = Function.update cache.map index slot)
    (isId : slot.keyId = keyId) (free : (cache.map index).keyId = 0)
    (missing : ∀ i, (cache.map i).keyId ≠ keyId) :
    cachedKeys next = Function.update (cachedKeys cache) keyId (some slot.key) := by
  have nextDistinct : DistinctIds next :=
    distinct.update (fun _ i _ => by rw [isId]; exact missing i) map
  funext other
  by_cases same : other = keyId
  · subst same
    rw [Function.update_self, cachedKeys_eq_some nextDistinct]
    exact ⟨index, by rw [map, Function.update_self]; exact ⟨isId, rfl⟩⟩
  · rw [Function.update_of_ne same]
    have elsewhere : ∀ i, (next.map i).keyId = other → i ≠ index := by
      rintro i there rfl
      rw [map, Function.update_self, isId] at there
      exact same (Subtype.ext there.symm)
    refine Option.ext fun key => ?_
    rw [cachedKeys_eq_some nextDistinct, cachedKeys_eq_some distinct]
    constructor
    · rintro ⟨i, there, isKey⟩
      have other := elsewhere i there
      rw [map, Function.update_of_ne other] at there isKey
      exact ⟨i, there, isKey⟩
    · rintro ⟨i, there, isKey⟩
      have other : i ≠ index := by
        rintro rfl
        exact other.property (there.symm.trans free)
      exact ⟨i, by rw [map, Function.update_of_ne other]; exact ⟨there, isKey⟩⟩

section Freed

variable {cache next : KeyReconstructionCache size} {index : Fin size}
  {slot : KeyReconstructionMap}

theorem usedSlot_of_freed (map : next.map = Function.update cache.map index slot)
    (freed : slot.keyId = 0) {i : Fin size} (used : (next.map i).keyId ≠ 0) :
    i ≠ index ∧ next.map i = cache.map i := by
  have elsewhere : i ≠ index := by
    rintro rfl
    rw [map, Function.update_self] at used
    exact used freed
  exact ⟨elsewhere, by rw [map, Function.update_of_ne elsewhere]⟩

theorem DistinctIds.freed (distinct : DistinctIds cache)
    (map : next.map = Function.update cache.map index slot) (freed : slot.keyId = 0) :
    DistinctIds next :=
  distinct.update (fun used => absurd freed used) map

theorem cachedKeys_freed (distinct : DistinctIds cache) {keyId : UsedId}
    (map : next.map = Function.update cache.map index slot) (freed : slot.keyId = 0)
    (wasId : (cache.map index).keyId = keyId) :
    cachedKeys next = Function.update (cachedKeys cache) keyId none := by
  funext other
  by_cases same : other = keyId
  · subst same
    rw [Function.update_self, cachedKeys_eq_none]
    intro i there
    have used : (next.map i).keyId ≠ 0 := by
      rw [there]
      exact other.property
    obtain ⟨elsewhere, kept⟩ := usedSlot_of_freed map freed used
    rw [kept] at there used
    exact elsewhere (distinct i index (there.trans wasId.symm) used)
  · rw [Function.update_of_ne same]
    refine Option.ext fun key => ?_
    rw [cachedKeys_eq_some (distinct.freed map freed), cachedKeys_eq_some distinct]
    constructor
    · rintro ⟨i, there, isKey⟩
      obtain ⟨_, kept⟩ := usedSlot_of_freed map freed (by rw [there]; exact other.property)
      rw [kept] at there isKey
      exact ⟨i, there, isKey⟩
    · rintro ⟨i, there, isKey⟩
      have elsewhere : i ≠ index := by
        rintro rfl
        exact same (Subtype.ext (there.symm.trans wasId))
      exact ⟨i, by rw [map, Function.update_of_ne elsewhere]; exact ⟨there, isKey⟩⟩

end Freed

theorem count_cachedKeys {cache : KeyReconstructionCache size} (distinct : DistinctIds cache) :
    (cachedKeys cache).count = usedCount 0 fun i => (cache.map i).keyId := by
  have ids : { keyId | cachedKeys cache keyId ≠ none } =
      { keyId : UsedId | ∃ i, (cache.map i).keyId = keyId } := by
    ext keyId
    simp [cachedKeys_eq_none]
  rw [KeyMap.count, ids]
  exact ncard_items distinct

theorem cachedKeys_full_iff {cache : KeyReconstructionCache size} (distinct : DistinctIds cache) :
    (cachedKeys cache).count = size ↔ ∀ i, (cache.map i).keyId ≠ 0 := by
  rw [count_cachedKeys distinct, ← usedCount_eq_card_iff, Fintype.card_fin]

/-! ## The invariant -/

/-- What every call keeps: the shortcut stands on a slot with its id, no id is in two slots,
and the last use of a key was at a tick count. -/
structure CacheSound (cache : KeyReconstructionCache size) : Prop where
  shortcut : ShortcutSound cache
  paired : cache.lastKeyIndexInMap ≠ none → cache.lastKeyIdUsed ≠ none
  distinct : DistinctIds cache
  stamped : ∀ i, (cache.map i).keyId ≠ 0 → (cache.map i).lastUsed.ticks.toNat < 2 ^ 32

theorem cacheSound_init (garbage : Fin size → KeyReconstructionMap) :
    CacheSound (initKeyCache (createKeyCache garbage)) where
  shortcut := shortcutSound_init garbage
  paired := fun absurd => (absurd rfl).elim
  distinct := fun i _ _ nonzero => absurd (initKeyCache_free (createKeyCache garbage) i) nonzero
  stamped := fun i nonzero => absurd (initKeyCache_free (createKeyCache garbage) i) nonzero

theorem saveTimestamp_ticks (stamp : Timestamp) (tickCount : UInt32) :
    (saveTimestamp stamp tickCount).ticks.toNat < 2 ^ 32 := by
  rw [saveTimestamp, UInt32.toNat_toUInt64]
  exact tickCount.toNat_lt

section Calls

variable {cache : KeyReconstructionCache size} (sound : CacheSound cache)
include sound

theorem CacheSound.clearSlot (index : Fin size) : CacheSound (clearSlot cache index) where
  shortcut := sound.shortcut.clearSlot index
  paired := by
    unfold Receiver.clearSlot
    split
    · exact fun absurd => (absurd rfl).elim
    · exact sound.paired
  distinct := sound.distinct.freed (clearSlot_map cache index) rfl
  stamped := by
    intro i used
    obtain ⟨_, kept⟩ := usedSlot_of_freed (clearSlot_map cache index) rfl used
    rw [kept] at used ⊢
    exact sound.stamped i used

theorem CacheSound.clearCache : CacheSound (clearCache cache) := by
  unfold Receiver.clearCache
  generalize List.finRange size = indices
  induction indices generalizing cache with
  | nil => exact sound
  | cons index rest ih => exact ih (sound.clearSlot index)

theorem CacheSound.stamped_update {next : KeyReconstructionCache size} {index : Fin size}
    {slot : KeyReconstructionMap} {stamp : Timestamp} {tickCount : UInt32}
    (map : next.map = Function.update cache.map index slot)
    (saved : slot.lastUsed = saveTimestamp stamp tickCount) :
    ∀ i, (next.map i).keyId ≠ 0 → (next.map i).lastUsed.ticks.toNat < 2 ^ 32 := by
  intro i used
  rw [map] at used ⊢
  by_cases here : i = index
  · rw [here, Function.update_self, saved]
    exact saveTimestamp_ticks stamp tickCount
  · rw [Function.update_of_ne here] at used ⊢
    exact sound.stamped i used

theorem CacheSound.addKeyToCache (key : Key128b) (keyId : UsedId) (tickCount : UInt32) :
    CacheSound (addKeyToCache cache key keyId tickCount).2 := by
  have paired : (Receiver.addKeyToCache cache key keyId tickCount).2.lastKeyIndexInMap ≠ none →
      (Receiver.addKeyToCache cache key keyId tickCount).2.lastKeyIdUsed ≠ none := by
    unfold Receiver.addKeyToCache
    split
    · exact sound.paired
    · split
      · exact sound.paired
      · split
        · exact fun _ => Option.some_ne_none _
        · exact sound.paired
  obtain ⟨_, result⟩ | ⟨_, result⟩ | ⟨index, free, missing, _, map, keep⟩ :=
    addKeyToCache_cases cache key keyId tickCount
  · rw [result]
    exact sound
  · rw [result]
    exact sound
  · exact ⟨keep sound.shortcut keyId.property, paired, sound.distinct.update (fun _ => missing) map,
      sound.stamped_update map rfl⟩

theorem CacheSound.getKeyFromCache (keyId : UsedId) (tickCount : UInt32) :
    CacheSound (getKeyFromCache cache keyId tickCount).2 := by
  have keeps := getKeyFromCache_keeps cache keyId tickCount
  refine ⟨sound.shortcut.getKeyFromCache tickCount (Or.inl keyId.property), ?_, ?_, ?_⟩
  · unfold Receiver.getKeyFromCache
    split
    · exact sound.paired
    · split
      · exact fun _ => Option.some_ne_none _
      · exact sound.paired
  · intro i j same used
    rw [(keeps i).1] at same used
    rw [(keeps j).1] at same
    exact sound.distinct i j same used
  · obtain ⟨index, _, _, map⟩ | ⟨_, result⟩ :=
      getKeyFromCache_touches sound.shortcut keyId tickCount
    · exact sound.stamped_update map rfl
    · rw [result]
      exact sound.stamped

theorem CacheSound.callCache (call : CacheCall) : CacheSound (callCache cache call).2 := by
  cases call with
  | addKeyToCache key keyId tickCount => exact sound.addKeyToCache key keyId tickCount
  | removeKeyFromCache keyId =>
      obtain ⟨index, _, result⟩ | ⟨_, result⟩ := removeKeyFromCache_cases cache keyId
      · simp only [Receiver.callCache, result]
        exact sound.clearSlot index
      · simp only [Receiver.callCache, result]
        exact sound
  | getKeyFromCache keyId tickCount => exact sound.getKeyFromCache keyId tickCount
  | isKeyInCache keyId => exact sound
  | removeLruKeyFromCache =>
      obtain ⟨index, result, _⟩ | result := removeLruKeyFromCache_cases cache
      · simp only [Receiver.callCache, result]
        exact sound.clearSlot index
      · simp only [Receiver.callCache, result]
        exact sound
  | clearCache => exact sound.clearCache

theorem CacheSound.count_le : (cachedKeys cache).count ≤ size := by
  rw [count_cachedKeys sound.distinct]
  exact (usedCount_le _).trans_eq (Fintype.card_fin size)

theorem CacheSound.removeLruKeyFromCache_used {i : Fin size} (used : (cache.map i).keyId ≠ 0) :
    ∃ index, removeLruKeyFromCache cache = (some index, Receiver.clearSlot cache index) ∧
      (cache.map index).keyId ≠ 0 := by
  obtain ⟨index, found, isUsed, _⟩ | ⟨_, largest⟩ := lruIndex_cases cache
  · exact ⟨index, by simp only [removeLruKeyFromCache, found]; rfl, isUsed⟩
  · exact absurd (largest i used) (getTimestamp_below (sound.stamped i used))

/-! ## What the calls answer -/

theorem CacheSound.meets (call : CacheCall) :
    CallMeets size (cachedKeys cache) call (Receiver.callCache cache call).1
      (cachedKeys (Receiver.callCache cache call).2) := by
  have full := cachedKeys_full_iff sound.distinct
  cases call with
  | addKeyToCache key keyId tickCount =>
      simp only [CallMeets, Receiver.callCache]
      obtain ⟨noneFree, result⟩ | ⟨⟨i, there⟩, result⟩ |
          ⟨index, free, missing, status, map, _⟩ := addKeyToCache_cases cache key keyId tickCount
      · rw [result]
        exact ⟨fun _ => ⟨rfl, rfl⟩, fun room => absurd (full.mpr noneFree) (Nat.ne_of_lt room)⟩
      · have present : cachedKeys cache keyId ≠ none := by
          rw [cachedKeys_of_slot sound.distinct there]
          exact Option.some_ne_none _
        rw [result]
        refine ⟨fun isFull => ?_, fun _ => ⟨rfl, fun absent => absurd absent present, ?_⟩⟩
        · have refused := addKeyToCache_full (full.mp isFull) key keyId tickCount
          rw [result] at refused
          simp at refused
        · exact fun _ => rfl
      · have absent : ∀ i, (cache.map i).keyId ≠ keyId := by
          intro i
          by_cases here : i = index
          · rw [here, free]
            exact keyId.property.symm
          · exact missing i here
        rw [status]
        refine ⟨fun isFull => absurd free (full.mp isFull index), fun _ => ⟨rfl, ?_, ?_⟩⟩
        · exact fun _ => cachedKeys_store sound.distinct map rfl free absent
        · exact fun present => absurd (cachedKeys_eq_none.mpr absent) present
  | removeKeyFromCache keyId =>
      refine ⟨rfl, ?_⟩
      simp only [Receiver.callCache]
      obtain ⟨index, isId, result⟩ | ⟨missing, result⟩ := removeKeyFromCache_cases cache keyId
      · rw [result]
        exact cachedKeys_freed sound.distinct (clearSlot_map cache index) rfl isId
      · rw [result]
        exact (Function.update_eq_self_iff.mpr (cachedKeys_eq_none.mpr missing).symm).symm
  | getKeyFromCache keyId tickCount =>
      refine ⟨?_, cachedKeys_congr (getKeyFromCache_keeps cache keyId tickCount)⟩
      simp only [Receiver.callCache]
      obtain ⟨index, there, found⟩ | ⟨missing, found⟩ :=
        getKeyFromCache_cases sound.shortcut keyId tickCount
      · rw [found, cachedKeys_of_slot sound.distinct there]
      · rw [found, cachedKeys_eq_none.mpr missing]
  | isKeyInCache keyId =>
      refine ⟨?_, rfl⟩
      simp only [Receiver.callCache]
      rw [CacheResult.cached.injEq, Bool.eq_iff_iff, isKeyInCache_iff sound.shortcut,
        Option.isSome_iff_ne_none, ne_eq, cachedKeys_eq_none, not_forall]
      simp only [not_not]
  | removeLruKeyFromCache =>
      by_cases empty : ∀ i, (cache.map i).keyId = 0
      · obtain ⟨index, _, used⟩ | result := removeLruKeyFromCache_cases cache
        · exact absurd (empty index) used
        · simp only [CallMeets, Receiver.callCache, result]
          refine Or.inl ⟨?_, trivial, trivial⟩
          exact (count_cachedKeys sound.distinct).trans (usedCount_empty empty)
      · obtain ⟨i, used⟩ := not_forall.mp empty
        obtain ⟨index, result, indexUsed⟩ := sound.removeLruKeyFromCache_used used
        simp only [CallMeets, Receiver.callCache, result]
        refine Or.inr ⟨⟨(cache.map index).keyId, indexUsed⟩, index, ?_, rfl, ?_⟩
        · rw [cachedKeys_of_slot sound.distinct rfl]
          exact Option.some_ne_none _
        · exact cachedKeys_freed sound.distinct (clearSlot_map cache index) rfl rfl
  | clearCache =>
      refine ⟨rfl, funext fun keyId => cachedKeys_eq_none.mpr fun i there => ?_⟩
      have stands : ShortcutStands cache := fun keyId index _ => sound.shortcut.stands keyId index
      exact keyId.property (there.symm.trans (stands.clearCache.2 i))

end Calls

/-! ## Runs -/

theorem cacheSound_after (garbage : Fin size → KeyReconstructionMap) (calls : List CacheCall) :
    CacheSound (cacheAfter garbage calls) :=
  run_preserves CacheSound (fun _ call sound => sound.callCache call) (cacheSound_init garbage)
    calls

theorem CacheSound.mapRun {cache : KeyReconstructionCache size} (sound : CacheSound cache)
    (calls : List CacheCall) :
    MapRun size (cachedKeys cache) (cacheAnswers cache calls)
      (cachedKeys (run (fun cache call => (Receiver.callCache cache call).2) cache calls)) := by
  induction calls generalizing cache with
  | nil => exact .done _
  | cons call rest ih => exact .call (sound.meets call) (ih (sound.callCache call))

/-- From an empty map, the answers of the cache are those of a bounded map, whose content is
in the slots; at no point more ids than slots, an id in two slots, or a shortcut that stands
elsewhere than on the slot with its id. -/
theorem cache_refines_map (garbage : Fin size → KeyReconstructionMap) (calls : List CacheCall) :
    let cache := cacheAfter garbage calls
    MapRun size (fun _ => none) (cacheAnswers (initKeyCache (createKeyCache garbage)) calls)
      (cachedKeys cache) ∧
    (cachedKeys cache).count ≤ size ∧
    (∀ i j, (cache.map i).keyId = (cache.map j).keyId → (cache.map i).keyId ≠ 0 → i = j) ∧
    ∀ index, cache.lastKeyIndexInMap = some index →
      cache.lastKeyIdUsed = some (cache.map index).keyId := by
  intro cache
  have sound : CacheSound cache := cacheSound_after garbage calls
  have empty : cachedKeys (initKeyCache (createKeyCache garbage)) = fun _ => none :=
    funext fun keyId => cachedKeys_eq_none.mpr fun i there => keyId.property there.symm
  have answers := (cacheSound_init garbage).mapRun calls
  rw [empty] at answers
  refine ⟨answers, sound.count_le, sound.distinct, fun index standing => ?_⟩
  obtain ⟨keyId, lastId⟩ :=
    Option.ne_none_iff_exists'.mp (sound.paired (by rw [standing]; exact Option.some_ne_none _))
  rw [lastId, sound.shortcut.stands keyId index lastId standing]

end BleBroadcast.Receiver
