import Mathlib.Data.Fin.Basic
import BleBroadcast.Lib.SlotTable
import BleBroadcast.Core.Crypto

/-!
# The key cache

Model of `key_cache.c`.  A cache is an array of slots searched linearly; a slot
with id 0 counts as free.  `last_key_id_used` and `last_key_index_in_map` are
-1 or a value, which is `none` or `some` here.  Each reading of the tick count
is an argument.  The mutex is always obtained and no pointer is null.
-/

set_option autoImplicit false

namespace BleBroadcast.Receiver

open BleBroadcast.Core

/-- `last_used_timestamp` and `rollover`, which are always passed together. -/
structure Timestamp where
  ticks : UInt64
  rollover : UInt8
  deriving DecidableEq

def saveTimestamp (stamp : Timestamp) (tickCount : UInt32) : Timestamp where
  ticks := tickCount.toUInt64
  rollover := if tickCount.toUInt64 < stamp.ticks then stamp.rollover + 1 else stamp.rollover

def getTimestamp (stamp : Timestamp) : UInt64 :=
  (stamp.rollover.toUInt64 <<< 32) ||| stamp.ticks

/-- `reset_timestamp` assigns to its own pointer parameters: the stored values stay. -/
def resetTimestamp (stamp : Timestamp) : Timestamp := stamp

structure KeyReconstructionMap where
  key : Key128b
  keyId : UInt8
  lastUsed : Timestamp

structure KeyReconstructionCache (size : Nat) where
  map : Fin size → KeyReconstructionMap
  lastKeyIdUsed : Option UInt8
  lastKeyIndexInMap : Option (Fin size)

variable {size : Nat}

/-- `create_key_cache`: the slots hold whatever `malloc` returned. -/
def createKeyCache (garbage : Fin size → KeyReconstructionMap) : KeyReconstructionCache size where
  map := garbage
  lastKeyIdUsed := none
  lastKeyIndexInMap := none

def clearedSlot (slot : KeyReconstructionMap) : KeyReconstructionMap where
  key := fun _ => 0
  keyId := 0
  lastUsed := resetTimestamp slot.lastUsed

def initKeyCache (cache : KeyReconstructionCache size) : KeyReconstructionCache size :=
  { cache with map := fun i => clearedSlot (cache.map i) }

def setSlot (cache : KeyReconstructionCache size) (index : Fin size)
    (slot : KeyReconstructionMap) : KeyReconstructionCache size :=
  { cache with map := Function.update cache.map index slot }

def indexOfKeyId (cache : KeyReconstructionCache size) (keyId : UInt8) : Option (Fin size) :=
  Fin.find? fun i => (cache.map i).keyId == keyId

/-- `first_free_index` after the loop of `add_key_to_cache`. -/
def firstFreeIndex (cache : KeyReconstructionCache size) : Option (Fin size) :=
  indexOfKeyId cache 0

/-- `key_is_already_in_cache` after the same loop.  The comparison is in the
`else` branch, so the first free slot is not compared. -/
def keyIsAlreadyInCache (cache : KeyReconstructionCache size) (keyId : UInt8) : Bool :=
  (Fin.find? fun i =>
    decide (firstFreeIndex cache ≠ some i) && (cache.map i).keyId == keyId).isSome

def addKeyToCache (cache : KeyReconstructionCache size) (key : Key128b) (keyId : UInt8)
    (tickCount : UInt32) : Int × KeyReconstructionCache size :=
  match firstFreeIndex cache with
  | none => (-1, cache)
  | some index =>
      if keyIsAlreadyInCache cache keyId then (0, cache)
      else
        let stored := setSlot cache index
          { key := key
            keyId := keyId
            lastUsed := saveTimestamp (cache.map index).lastUsed tickCount }
        if cache.lastKeyIdUsed = none ∧ cache.lastKeyIndexInMap = none then
          (0, { stored with
            lastKeyIdUsed := some keyId
            lastKeyIndexInMap := some index })
        else (0, stored)

/-- `get_key_from_cache`: the slot of the last hit is tried before the scan. -/
def getKeyFromCache (cache : KeyReconstructionCache size) (keyId : UInt8) (tickCount : UInt32) :
    Option Key128b × KeyReconstructionCache size :=
  let touch (index : Fin size) :=
    setSlot cache index { cache.map index with
      lastUsed := saveTimestamp (cache.map index).lastUsed tickCount }
  match cache.lastKeyIndexInMap, decide (cache.lastKeyIdUsed = some keyId) with
  | some index, true => (some (cache.map index).key, touch index)
  | _, _ =>
      match indexOfKeyId cache keyId with
      | some index =>
          (some (cache.map index).key,
            { touch index with
              lastKeyIdUsed := some keyId
              lastKeyIndexInMap := some index })
      | none => (none, cache)

def isKeyInCache (cache : KeyReconstructionCache size) (keyId : UInt8) : Bool :=
  if cache.lastKeyIdUsed = some keyId ∧ cache.lastKeyIndexInMap ≠ none then true
  else (indexOfKeyId cache keyId).isSome

/-- The clearing of a slot in `remove_key_from_cache` and `remove_key_from_cache_at_index`:
the shortcut is dropped if it stood on the id of the slot. -/
def clearSlot (cache : KeyReconstructionCache size) (index : Fin size) :
    KeyReconstructionCache size :=
  let cleared := setSlot cache index (clearedSlot (cache.map index))
  if cache.lastKeyIdUsed = some (cache.map index).keyId then
    { cleared with
      lastKeyIdUsed := none
      lastKeyIndexInMap := none }
  else cleared

def removeKeyFromCache (cache : KeyReconstructionCache size) (keyId : UInt8) :
    KeyReconstructionCache size :=
  match indexOfKeyId cache keyId with
  | some index => clearSlot cache index
  | none => cache

/-- `remove_key_from_cache_at_index`.  Both callers pass an index below the cache
size, so its check `index > cache_size` is never met. -/
def removeKeyFromCacheAtIndex (cache : KeyReconstructionCache size) (index : Fin size) :
    KeyReconstructionCache size :=
  clearSlot cache index

/-- `lru_index` after the loop of `remove_lru_key_from_cache`. -/
def lruIndex (cache : KeyReconstructionCache size) : Option (Fin size) :=
  ((List.finRange size).foldl (fun (best : Option (Fin size) × UInt64) i =>
      let combined := getTimestamp (cache.map i).lastUsed
      if combined < best.2 ∧ (cache.map i).keyId ≠ 0 then (some i, combined) else best)
    (none, 0xFFFFFFFFFFFFFFFF)).1

def removeLruKeyFromCache (cache : KeyReconstructionCache size) :
    Option (Fin size) × KeyReconstructionCache size :=
  match lruIndex cache with
  | some index => (some index, removeKeyFromCacheAtIndex cache index)
  | none => (none, cache)

def clearCache (cache : KeyReconstructionCache size) : KeyReconstructionCache size :=
  (List.finRange size).foldl removeKeyFromCacheAtIndex cache

/-- The cache calls of `key_reconstruction_complete` for a key that
`is_key_in_cache` does not report: add it, and if no slot is free, evict the
least recently used key and add it again.  The second component is the evicted slot. -/
def addOrEvict (cache : KeyReconstructionCache size) (key : Key128b) (keyId : UInt8)
    (tickCount : UInt32) : Int × Option (Fin size) × KeyReconstructionCache size :=
  let (status, added) := addKeyToCache cache key keyId tickCount
  if status = -1 then
    let (lru, evicted) := removeLruKeyFromCache added
    let (retried, readded) := addKeyToCache evicted key keyId tickCount
    (retried, lru, readded)
  else (status, none, added)

/-! ## What the operations do to the slots -/

theorem indexOfKeyId_some {cache : KeyReconstructionCache size} {keyId : UInt8}
    {index : Fin size} (found : indexOfKeyId cache keyId = some index) :
    (cache.map index).keyId = keyId := by
  simpa using Fin.eq_true_of_find?_eq_some found

theorem indexOfKeyId_none {cache : KeyReconstructionCache size} {keyId : UInt8} :
    indexOfKeyId cache keyId = none ↔ ∀ i, (cache.map i).keyId ≠ keyId := by
  simp [indexOfKeyId]

@[simp] theorem setSlot_map_self (cache : KeyReconstructionCache size) (index : Fin size)
    (slot : KeyReconstructionMap) : (setSlot cache index slot).map index = slot := by
  simp [setSlot]

theorem setSlot_map_other (cache : KeyReconstructionCache size) {index other : Fin size}
    (slot : KeyReconstructionMap) (different : other ≠ index) :
    (setSlot cache index slot).map other = cache.map other := by
  simp [setSlot, different]

theorem setSlot_keeps {cache : KeyReconstructionCache size} {index : Fin size}
    {slot : KeyReconstructionMap} (keyId : slot.keyId = (cache.map index).keyId)
    (key : slot.key = (cache.map index).key) (other : Fin size) :
    ((setSlot cache index slot).map other).keyId = (cache.map other).keyId ∧
      ((setSlot cache index slot).map other).key = (cache.map other).key := by
  by_cases same : other = index
  · subst same
    simp [keyId, key]
  · simp [setSlot_map_other cache slot same]

/-- The shortcut stands on a slot with its id, and never on the mark of a free slot. -/
structure ShortcutSound (cache : KeyReconstructionCache size) : Prop where
  stands : ∀ keyId index, cache.lastKeyIdUsed = some keyId →
    cache.lastKeyIndexInMap = some index → (cache.map index).keyId = keyId
  used : cache.lastKeyIdUsed ≠ some 0

def DistinctIds (cache : KeyReconstructionCache size) : Prop :=
  ∀ i j, (cache.map i).keyId = (cache.map j).keyId → (cache.map i).keyId ≠ 0 → i = j

theorem shortcutSound_init (garbage : Fin size → KeyReconstructionMap) :
    ShortcutSound (initKeyCache (createKeyCache garbage)) where
  stands := by
    intro keyId index absurd
    simp [initKeyCache, createKeyCache] at absurd
  used := by simp [initKeyCache, createKeyCache]

theorem initKeyCache_free (cache : KeyReconstructionCache size) (index : Fin size) :
    ((initKeyCache cache).map index).keyId = 0 := rfl

/-! ### Lookups -/

theorem getKeyFromCache_keeps (cache : KeyReconstructionCache size) (keyId : UInt8)
    (tickCount : UInt32) (i : Fin size) :
    ((getKeyFromCache cache keyId tickCount).2.map i).keyId = (cache.map i).keyId ∧
      ((getKeyFromCache cache keyId tickCount).2.map i).key = (cache.map i).key := by
  unfold getKeyFromCache
  split
  · exact setSlot_keeps (by rfl) (by rfl) i
  · split
    · exact setSlot_keeps (by rfl) (by rfl) i
    · exact ⟨rfl, rfl⟩

theorem ShortcutSound.getKeyFromCache {cache : KeyReconstructionCache size}
    (sound : ShortcutSound cache) {keyId : UInt8} (tickCount : UInt32)
    (lookedUp : keyId ≠ 0 ∨ ∀ i, (cache.map i).keyId ≠ 0) :
    ShortcutSound (getKeyFromCache cache keyId tickCount).2 := by
  unfold Receiver.getKeyFromCache
  split
  · refine ⟨fun last index lastId lastSlot => ?_, sound.used⟩
    rw [(setSlot_keeps (by rfl) (by rfl) index).1]
    exact sound.stands last index lastId lastSlot
  · split
    · rename_i index found
      have stood := indexOfKeyId_some found
      refine ⟨fun last lastIndex lastId lastSlot => ?_, ?_⟩
      · obtain rfl := Option.some.inj lastId
        obtain rfl := Option.some.inj lastSlot
        exact (setSlot_keeps (by rfl) (by rfl) index).1.trans stood
      · intro zero
        rcases lookedUp with nonzero | noneFree
        · exact nonzero (Option.some.inj zero)
        · exact noneFree index (stood.trans (Option.some.inj zero))
    · exact sound

def touchedSlot (slot : KeyReconstructionMap) (tickCount : UInt32) : KeyReconstructionMap :=
  { slot with lastUsed := saveTimestamp slot.lastUsed tickCount }

theorem getKeyFromCache_touches {cache : KeyReconstructionCache size}
    (sound : ShortcutSound cache) (keyId : UInt8) (tickCount : UInt32) :
    (∃ index, (cache.map index).keyId = keyId ∧
      (getKeyFromCache cache keyId tickCount).1 = some (cache.map index).key ∧
      (getKeyFromCache cache keyId tickCount).2.map =
        Function.update cache.map index (touchedSlot (cache.map index) tickCount)) ∨
    ((∀ i, (cache.map i).keyId ≠ keyId) ∧
      getKeyFromCache cache keyId tickCount = (none, cache)) := by
  unfold getKeyFromCache
  split
  · rename_i index hit shortcut
    exact Or.inl ⟨index, sound.stands keyId index (by simpa using shortcut) hit, rfl, rfl⟩
  · split
    · rename_i index found
      exact Or.inl ⟨index, indexOfKeyId_some found, rfl, rfl⟩
    · rename_i missing
      exact Or.inr ⟨indexOfKeyId_none.mp missing, rfl⟩

theorem getKeyFromCache_cases {cache : KeyReconstructionCache size}
    (sound : ShortcutSound cache) (keyId : UInt8) (tickCount : UInt32) :
    (∃ index, (cache.map index).keyId = keyId ∧
      (getKeyFromCache cache keyId tickCount).1 = some (cache.map index).key) ∨
    ((∀ i, (cache.map i).keyId ≠ keyId) ∧ (getKeyFromCache cache keyId tickCount).1 = none) := by
  obtain ⟨index, there, found, _⟩ | ⟨missing, result⟩ :=
    getKeyFromCache_touches sound keyId tickCount
  · exact Or.inl ⟨index, there, found⟩
  · exact Or.inr ⟨missing, congrArg Prod.fst result⟩

theorem isKeyInCache_iff {cache : KeyReconstructionCache size}
    (sound : ShortcutSound cache) (keyId : UInt8) :
    isKeyInCache cache keyId = true ↔ ∃ i, (cache.map i).keyId = keyId := by
  unfold isKeyInCache
  split
  · rename_i shortcut
    obtain ⟨index, slot⟩ := Option.ne_none_iff_exists'.mp shortcut.2
    exact ⟨fun _ => ⟨index, sound.stands keyId index shortcut.1 slot⟩, fun _ => rfl⟩
  · simp [indexOfKeyId]

/-- A lookup returns a key exactly if `is_key_in_cache` says so. -/
theorem getKeyFromCache_isSome (cache : KeyReconstructionCache size) (keyId : UInt8)
    (tickCount : UInt32) :
    (getKeyFromCache cache keyId tickCount).1.isSome = isKeyInCache cache keyId := by
  simp only [getKeyFromCache, isKeyInCache]
  split
  · rename_i index hit shortcut
    rw [if_pos ⟨by simpa using shortcut, by simp [hit]⟩]
    rfl
  · rename_i missed
    rw [if_neg]
    · cases indexOfKeyId cache keyId <;> rfl
    · rintro ⟨lastId, lastSlot⟩
      obtain ⟨index, hit⟩ := Option.ne_none_iff_exists'.mp lastSlot
      exact missed index hit (by simpa using lastId)

theorem isKeyInCache_getKeyFromCache (cache : KeyReconstructionCache size) (keyId : UInt8)
    (tickCount : UInt32) :
    isKeyInCache (getKeyFromCache cache keyId tickCount).2 keyId =
      isKeyInCache cache keyId := by
  rw [← getKeyFromCache_isSome cache keyId tickCount]
  unfold getKeyFromCache
  split
  · rename_i index hit shortcut
    have lastId : cache.lastKeyIdUsed = some keyId := by simpa using shortcut
    simp [isKeyInCache, setSlot, lastId, hit]
  · cases found : indexOfKeyId cache keyId with
    | some index => simp [isKeyInCache]
    | none =>
        rename_i missed
        have noShortcut :
            ¬ (cache.lastKeyIdUsed = some keyId ∧ cache.lastKeyIndexInMap ≠ none) := by
          rintro ⟨lastId, lastSlot⟩
          obtain ⟨index, hit⟩ := Option.ne_none_iff_exists'.mp lastSlot
          exact missed index hit (by simpa using lastId)
        simp only [isKeyInCache, if_neg noShortcut, found]
        rfl

/-! ### Removals -/

@[simp] theorem clearSlot_map (cache : KeyReconstructionCache size) (index : Fin size) :
    (clearSlot cache index).map =
      Function.update cache.map index (clearedSlot (cache.map index)) := by
  unfold clearSlot
  split <;> rfl

theorem ShortcutSound.clearSlot {cache : KeyReconstructionCache size}
    (sound : ShortcutSound cache) (index : Fin size) : ShortcutSound (clearSlot cache index) := by
  by_cases dropped : cache.lastKeyIdUsed = some (cache.map index).keyId
  · constructor <;> simp [Receiver.clearSlot, dropped]
  · constructor
    · intro keyId lastIndex lastId lastSlot
      simp only [Receiver.clearSlot, if_neg dropped] at lastId lastSlot
      have stood := sound.stands keyId lastIndex lastId lastSlot
      have elsewhere : lastIndex ≠ index := by
        rintro rfl
        exact dropped (by rw [stood]; exact lastId)
      rw [clearSlot_map, Function.update_of_ne elsewhere]
      exact stood
    · simp only [Receiver.clearSlot, if_neg dropped]
      exact sound.used

theorem getTimestamp_toNat {stamp : Timestamp} (ticks : stamp.ticks.toNat < 2 ^ 32) :
    (getTimestamp stamp).toNat = stamp.rollover.toNat * 2 ^ 32 + stamp.ticks.toNat := by
  have rollover := stamp.rollover.toNat_lt
  have shifted : (stamp.rollover.toUInt64 <<< 32).toNat = stamp.rollover.toNat <<< 32 := by
    have bits : (32 : UInt64).toNat % 64 = 32 := rfl
    rw [UInt64.toNat_shiftLeft, bits, UInt8.toNat_toUInt64]
    refine Nat.mod_eq_of_lt ?_
    rw [Nat.shiftLeft_eq]
    omega
  rw [getTimestamp, UInt64.toNat_or, shifted, ← Nat.shiftLeft_add_eq_or_of_lt ticks,
    Nat.shiftLeft_eq]

theorem getTimestamp_below {stamp : Timestamp} (ticks : stamp.ticks.toNat < 2 ^ 32) :
    ¬ 0xFFFFFFFFFFFFFFFF ≤ getTimestamp stamp := by
  have rollover := stamp.rollover.toNat_lt
  have last : (0xFFFFFFFFFFFFFFFF : UInt64).toNat = 2 ^ 64 - 1 := rfl
  rw [UInt64.le_iff_toNat_le, getTimestamp_toNat ticks, last]
  omega

/-- The order in which the slots are evicted: by timestamp, and by index among equal ones. -/
def EvictedBefore (cache : KeyReconstructionCache size) (i j : Fin size) : Prop :=
  getTimestamp (cache.map i).lastUsed < getTimestamp (cache.map j).lastUsed ∨
    getTimestamp (cache.map i).lastUsed = getTimestamp (cache.map j).lastUsed ∧ i ≤ j

theorem EvictedBefore.antisymm {cache : KeyReconstructionCache size} {i j : Fin size}
    (first : EvictedBefore cache i j) (second : EvictedBefore cache j i) : i = j := by
  rcases first with earlier | ⟨same, below⟩
  · rcases second with later | ⟨same, _⟩
    · exact absurd later (UInt64.not_lt.mpr (UInt64.le_of_lt earlier))
    · exact absurd same (UInt64.ne_of_lt earlier).symm
  · rcases second with later | ⟨_, above⟩
    · exact absurd same (UInt64.ne_of_lt later).symm
    · exact le_antisymm below above

def LeastSoFar (cache : KeyReconstructionCache size) (visited : List (Fin size))
    (best : Option (Fin size) × UInt64) : Prop :=
  match best.1 with
  | some index => index ∈ visited ∧ (cache.map index).keyId ≠ 0 ∧
      best.2 = getTimestamp (cache.map index).lastUsed ∧
      ∀ j ∈ visited, (cache.map j).keyId ≠ 0 → EvictedBefore cache index j
  | none => best.2 = 0xFFFFFFFFFFFFFFFF ∧
      ∀ j ∈ visited, (cache.map j).keyId ≠ 0 → best.2 ≤ getTimestamp (cache.map j).lastUsed

theorem LeastSoFar.below {cache : KeyReconstructionCache size} {visited : List (Fin size)}
    {best : Option (Fin size) × UInt64} (least : LeastSoFar cache visited best) {j : Fin size}
    (member : j ∈ visited) (used : (cache.map j).keyId ≠ 0) :
    best.2 ≤ getTimestamp (cache.map j).lastUsed := by
  unfold LeastSoFar at least
  split at least
  · rw [least.2.2.1]
    rcases least.2.2.2 j member used with earlier | ⟨same, _⟩
    · exact UInt64.le_of_lt earlier
    · rw [same]
      exact UInt64.le_refl _
  · exact least.2 j member used

theorem LeastSoFar.next {cache : KeyReconstructionCache size} {visited : List (Fin size)}
    {best : Option (Fin size) × UInt64} (least : LeastSoFar cache visited best) {i : Fin size}
    (later : ∀ j ∈ visited, j < i) :
    LeastSoFar cache (visited ++ [i])
      (if getTimestamp (cache.map i).lastUsed < best.2 ∧ (cache.map i).keyId ≠ 0 then
        (some i, getTimestamp (cache.map i).lastUsed) else best) := by
  have below := fun j member used => @LeastSoFar.below size cache visited best least j member used
  split
  · rename_i better
    refine ⟨by simp, better.2, rfl, fun j member used => ?_⟩
    rcases List.mem_append.mp member with old | new
    · exact Or.inl (UInt64.lt_of_lt_of_le better.1 (below j old used))
    · rw [List.mem_singleton.mp new]
      exact Or.inr ⟨rfl, le_refl i⟩
  · rename_i notBetter
    have notBelow : (cache.map i).keyId ≠ 0 → best.2 ≤ getTimestamp (cache.map i).lastUsed :=
      fun used => UInt64.not_lt.mp fun smaller => notBetter ⟨smaller, used⟩
    unfold LeastSoFar at least ⊢
    split at least
    · obtain ⟨isVisited, isUsed, isBest, before⟩ := least
      refine ⟨List.mem_append_left _ isVisited, isUsed, isBest, fun j member used => ?_⟩
      rcases List.mem_append.mp member with old | new
      · exact before j old used
      · rw [List.mem_singleton.mp new] at used ⊢
        rw [isBest] at notBelow
        rcases UInt64.lt_or_eq_of_le (notBelow used) with earlier | same
        · exact Or.inl earlier
        · exact Or.inr ⟨same, le_of_lt (later _ isVisited)⟩
    · refine ⟨least.1, fun j member used => ?_⟩
      rcases List.mem_append.mp member with old | new
      · exact below j old used
      · rw [List.mem_singleton.mp new] at used ⊢
        exact notBelow used

theorem lruIndex_cases (cache : KeyReconstructionCache size) :
    (∃ index, lruIndex cache = some index ∧ (cache.map index).keyId ≠ 0 ∧
      ∀ j, (cache.map j).keyId ≠ 0 → EvictedBefore cache index j) ∨
    (lruIndex cache = none ∧ ∀ j, (cache.map j).keyId ≠ 0 →
      0xFFFFFFFFFFFFFFFF ≤ getTimestamp (cache.map j).lastUsed) := by
  have scan : ∀ (slots visited : List (Fin size)) (best : Option (Fin size) × UInt64),
      (visited ++ slots).Pairwise (· < ·) → LeastSoFar cache visited best →
      LeastSoFar cache (visited ++ slots)
        (slots.foldl (fun (best : Option (Fin size) × UInt64) i =>
          let combined := getTimestamp (cache.map i).lastUsed
          if combined < best.2 ∧ (cache.map i).keyId ≠ 0 then (some i, combined) else best)
          best) := by
    intro slots
    induction slots with
    | nil =>
        intro visited best _ least
        rw [List.append_nil]
        exact least
    | cons slot rest ih =>
        intro visited best sorted least
        have later : ∀ j ∈ visited, j < slot := fun j member =>
          (List.pairwise_append.mp sorted).2.2 j member slot List.mem_cons_self
        rw [List.append_cons] at sorted ⊢
        rw [List.foldl_cons]
        exact ih _ _ sorted (least.next later)
  have least := scan (List.finRange size) [] (none, 0xFFFFFFFFFFFFFFFF)
    (List.pairwise_lt_finRange size) ⟨rfl, by simp⟩
  unfold lruIndex
  generalize (List.finRange size).foldl _ _ = result at least
  rw [List.nil_append] at least
  unfold LeastSoFar at least
  split at least
  · rename_i index found
    exact Or.inl ⟨index, found, least.2.1, fun j => least.2.2.2 j (List.mem_finRange j)⟩
  · rename_i missing
    refine Or.inr ⟨missing, fun j used => ?_⟩
    rw [← least.1]
    exact least.2 j (List.mem_finRange j) used

theorem lruIndex_used {cache : KeyReconstructionCache size} {index : Fin size}
    (found : lruIndex cache = some index) : (cache.map index).keyId ≠ 0 := by
  obtain ⟨lru, isLru, used, _⟩ | ⟨missing, _⟩ := lruIndex_cases cache
  · rw [Option.some.inj (found.symm.trans isLru)]
    exact used
  · rw [missing] at found
    contradiction

theorem removeKeyFromCache_cases (cache : KeyReconstructionCache size) (keyId : UInt8) :
    (∃ index, (cache.map index).keyId = keyId ∧
      removeKeyFromCache cache keyId = clearSlot cache index) ∨
    ((∀ i, (cache.map i).keyId ≠ keyId) ∧ removeKeyFromCache cache keyId = cache) := by
  unfold removeKeyFromCache
  cases found : indexOfKeyId cache keyId with
  | some index => exact Or.inl ⟨index, indexOfKeyId_some found, rfl⟩
  | none => exact Or.inr ⟨indexOfKeyId_none.mp found, rfl⟩

theorem removeLruKeyFromCache_cases (cache : KeyReconstructionCache size) :
    (∃ index, removeLruKeyFromCache cache = (some index, clearSlot cache index) ∧
      (cache.map index).keyId ≠ 0) ∨
    removeLruKeyFromCache cache = (none, cache) := by
  unfold removeLruKeyFromCache
  cases found : lruIndex cache with
  | none => exact Or.inr rfl
  | some index => exact Or.inl ⟨index, rfl, lruIndex_used found⟩

/-! ### Insertions -/

def storedSlot (slot : KeyReconstructionMap) (key : Key128b) (keyId : UInt8)
    (tickCount : UInt32) : KeyReconstructionMap where
  key := key
  keyId := keyId
  lastUsed := saveTimestamp slot.lastUsed tickCount

/-- The three outcomes of `add_key_to_cache`: no slot is free, the id is there
already, or the key goes into a free slot. -/
theorem addKeyToCache_cases (cache : KeyReconstructionCache size) (key : Key128b) (keyId : UInt8)
    (tickCount : UInt32) :
    ((∀ i, (cache.map i).keyId ≠ 0) ∧ addKeyToCache cache key keyId tickCount = (-1, cache)) ∨
    ((∃ i, (cache.map i).keyId = keyId) ∧ addKeyToCache cache key keyId tickCount = (0, cache)) ∨
    (∃ index, (cache.map index).keyId = 0 ∧ (∀ i, i ≠ index → (cache.map i).keyId ≠ keyId) ∧
      (addKeyToCache cache key keyId tickCount).1 = 0 ∧
      (addKeyToCache cache key keyId tickCount).2.map =
        Function.update cache.map index (storedSlot (cache.map index) key keyId tickCount) ∧
      (ShortcutSound cache → keyId ≠ 0 →
        ShortcutSound (addKeyToCache cache key keyId tickCount).2)) := by
  unfold addKeyToCache
  cases free : firstFreeIndex cache with
  | none => exact Or.inl ⟨indexOfKeyId_none.mp free, rfl⟩
  | some index =>
      have zero : (cache.map index).keyId = 0 := indexOfKeyId_some free
      by_cases already : keyIsAlreadyInCache cache keyId = true
      · simp only [if_pos already]
        refine Or.inr (Or.inl ⟨?_, trivial⟩)
        obtain ⟨i, found⟩ := Fin.exists_eq_true_of_isSome_find? already
        exact ⟨i, by simpa using (Bool.and_eq_true_iff.mp found).2⟩
      · simp only [if_neg already]
        refine Or.inr (Or.inr ⟨index, zero, ?_, ?_, ?_, ?_⟩)
        · intro i other same
          refine already (Fin.isSome_find?_of_eq_true (i := i) ?_)
          simp [free, same, Ne.symm other]
        · split <;> rfl
        · split <;> rfl
        · intro sound nonzero
          split
          · refine ⟨fun last lastIndex lastId lastSlot => ?_, fun absurd => ?_⟩
            · obtain rfl := Option.some.inj lastId
              obtain rfl := Option.some.inj lastSlot
              exact congrArg KeyReconstructionMap.keyId (setSlot_map_self _ _ _)
            · exact nonzero (Option.some.inj absurd)
          · refine ⟨fun last lastIndex lastId lastSlot => ?_, sound.used⟩
            have stood := sound.stands last lastIndex lastId lastSlot
            have elsewhere : lastIndex ≠ index := by
              rintro rfl
              exact sound.used (by rw [← zero, stood]; exact lastId)
            rw [setSlot_map_other cache _ elsewhere]
            exact stood

theorem addKeyToCache_full {cache : KeyReconstructionCache size}
    (noneFree : ∀ i, (cache.map i).keyId ≠ 0) (key : Key128b) (keyId : UInt8)
    (tickCount : UInt32) : addKeyToCache cache key keyId tickCount = (-1, cache) := by
  have free : firstFreeIndex cache = none := indexOfKeyId_none.mpr noneFree
  simp only [addKeyToCache, free]

theorem DistinctIds.update {cache stored : KeyReconstructionCache size}
    (distinct : DistinctIds cache) {index : Fin size} {slot : KeyReconstructionMap}
    (fresh : slot.keyId ≠ 0 → ∀ i, i ≠ index → (cache.map i).keyId ≠ slot.keyId)
    (map : stored.map = Function.update cache.map index slot) : DistinctIds stored := by
  have unshared : Lib.Unshared 0 fun i => (cache.map i).keyId := distinct
  have ids : (fun i => (stored.map i).keyId) =
      Function.update (fun i => (cache.map i).keyId) index slot.keyId := by
    rw [map]
    exact Function.comp_update KeyReconstructionMap.keyId cache.map index slot
  have next : Lib.Unshared 0 fun i => (stored.map i).keyId := by
    rw [ids]
    exact unshared.update fresh
  exact next

/-- For a used id that no slot has, `addOrEvict` stores the key in a free slot,
or in the slot it evicts, or stores nothing because there is nothing to evict. -/
theorem addOrEvict_cases {cache : KeyReconstructionCache size} (sound : ShortcutSound cache)
    (key : Key128b) {keyId : UInt8} (tickCount : UInt32) (nonzero : keyId ≠ 0)
    (missing : ∀ i, (cache.map i).keyId ≠ keyId) :
    (∃ index slot, (cache.map index).keyId = 0 ∧
      (addOrEvict cache key keyId tickCount).1 = 0 ∧
      (addOrEvict cache key keyId tickCount).2.1 = none ∧
      (addOrEvict cache key keyId tickCount).2.2.map =
        Function.update cache.map index (storedSlot slot key keyId tickCount) ∧
      ShortcutSound (addOrEvict cache key keyId tickCount).2.2) ∨
    (∃ index slot, (∀ i, (cache.map i).keyId ≠ 0) ∧
      (addOrEvict cache key keyId tickCount).1 = 0 ∧
      (addOrEvict cache key keyId tickCount).2.1 = some index ∧
      (addOrEvict cache key keyId tickCount).2.2.map =
        Function.update cache.map index (storedSlot slot key keyId tickCount) ∧
      ShortcutSound (addOrEvict cache key keyId tickCount).2.2) ∨
    addOrEvict cache key keyId tickCount = (-1, none, cache) := by
  obtain ⟨noneFree, added⟩ | ⟨⟨i, there⟩, _⟩ | ⟨index, zero, _, status, map, keep⟩ :=
    addKeyToCache_cases cache key keyId tickCount
  · obtain ⟨victim, removed, _⟩ | removed := removeLruKeyFromCache_cases cache
    · obtain ⟨stillFull, _⟩ | ⟨⟨i, there⟩, _⟩ | ⟨index, zero, _, status, map, keep⟩ :=
        addKeyToCache_cases (clearSlot cache victim) key keyId tickCount
      · exact absurd (by simp [clearedSlot]) (stillFull victim)
      · rw [clearSlot_map] at there
        by_cases same : i = victim
        · subst same
          simp [clearedSlot] at there
          exact absurd there.symm nonzero
        · rw [Function.update_of_ne same] at there
          exact absurd there (missing i)
      · have onlyVictim : index = victim := by
          by_contra other
          rw [clearSlot_map, Function.update_of_ne other] at zero
          exact noneFree index zero
        subst onlyVictim
        refine Or.inr (Or.inl ⟨index, (clearSlot cache index).map index, noneFree, ?_⟩)
        simp only [addOrEvict, added, removed, if_pos]
        refine ⟨status, trivial, ?_, keep (sound.clearSlot index) nonzero⟩
        rw [map, clearSlot_map, Function.update_idem]
    · refine Or.inr (Or.inr ?_)
      simp only [addOrEvict, added, removed, if_pos]
  · exact absurd there (missing i)
  · refine Or.inl ⟨index, cache.map index, zero, ?_⟩
    have kept : ¬ (addKeyToCache cache key keyId tickCount).1 = -1 := by
      rw [status]
      decide
    simp only [addOrEvict, if_neg kept]
    exact ⟨status, trivial, map, keep sound nonzero⟩

theorem addOrEvict_failed {cache : KeyReconstructionCache size} {key : Key128b}
    {keyId : UInt8} {tickCount : UInt32}
    (failed : (addOrEvict cache key keyId tickCount).1 ≠ 0) :
    (addOrEvict cache key keyId tickCount).2.2 = cache := by
  obtain ⟨_, full⟩ | ⟨_, there⟩ | ⟨_, _, _, stored, _⟩ :=
    addKeyToCache_cases cache key keyId tickCount
  · simp only [addOrEvict, full, if_true] at failed ⊢
    obtain ⟨victim, removed, _⟩ | removed := removeLruKeyFromCache_cases cache
    · simp only [removed] at failed ⊢
      obtain ⟨stillFull, _⟩ | ⟨_, there⟩ | ⟨_, _, _, stored, _⟩ :=
        addKeyToCache_cases (clearSlot cache victim) key keyId tickCount
      · exact absurd (by simp [clearedSlot]) (stillFull victim)
      · simp [there] at failed
      · exact absurd stored failed
    · simp only [removed, full]
  · simp [addOrEvict, there] at failed
  · have kept : ¬ (addKeyToCache cache key keyId tickCount).1 = -1 := by
      rw [stored]
      decide
    simp only [addOrEvict, if_neg kept] at failed
    exact absurd stored failed

end BleBroadcast.Receiver
