import BleBroadcast.Receiver.CacheMap
import BleBroadcast.Receiver.ReceiverTasks

/-!
# Installing a reconstructed key

What `key_reconstruction_complete` does to the record of a known sender, for a cache of any
size: the key goes into the cache, if need be in place of the least recently used one, and
the deferred frames of the sender are due for another pass.
-/

set_option autoImplicit false

namespace BleBroadcast.Receiver

open BleBroadcast.Core BleBroadcast.Lib

variable {size : Nat}

/-- What is read and written of a record, and whether `EVENT_PROCESS_DEFFERRED_PDUS` is
set. -/
structure KeyStore (size : Nat) where
  keyCache : KeyReconstructionCache size
  processDeferredQRequestPending : Bool
  processDeferredPdus : Bool

/-- The branch in which `key_reconstruction_complete` ends. -/
inductive Installation where
  | keyInCacheAlready
  | keyAdded
  | failedToAddKey
  deriving DecidableEq

/-- `key_reconstruction_complete` from the moment it has the record. -/
def installReconstructedKey (tickCount : UInt32) (keyId : UInt8) (reconstructedKey : Key128b)
    (store : KeyStore size) : Installation × KeyStore size :=
  if isKeyInCache store.keyCache keyId then (.keyInCacheAlready, store)
  else
    let (status, _, cache) := addOrEvict store.keyCache reconstructedKey keyId tickCount
    if status = 0 then
      (.keyAdded,
        { keyCache := cache
          processDeferredQRequestPending := true
          processDeferredPdus := true })
    else (.failedToAddKey, { store with keyCache := cache })

/-! ## The record of a known sender -/

def storeOfRecord (state : SecPduProcessing × Bool) (index : Fin 2) : KeyStore 5 where
  keyCache := (state.1.consumerCollection.arr index).keyCache
  processDeferredQRequestPending :=
    (state.1.consumerCollection.arr index).processDeferredQRequestPending
  processDeferredPdus := state.2

theorem completeAndSignal_installs (tickCount : UInt32) (keyId : UInt8) (key : Key128b)
    {mac : EspBdAddr} {state : SecPduProcessing × Bool} {index : Fin 2}
    (found : getIndexForMacAddr state.1.consumerCollection mac = some index) :
    storeOfRecord (completeAndSignal tickCount keyId key mac state) index =
      (installReconstructedKey tickCount keyId key (storeOfRecord state index)).2 := by
  have own : ((setConsumer state.1.consumerCollection index
      (stampConsumer (state.1.consumerCollection.arr index) tickCount)).arr index) =
        stampConsumer (state.1.consumerCollection.arr index) tickCount :=
    Function.update_self _ _ _
  simp only [completeAndSignal, keyReconstructionComplete, completionSetsEvent,
    getBleConsumerFromCollection, found, own, installReconstructedKey, storeOfRecord]
  by_cases cached : isKeyInCache (state.1.consumerCollection.arr index).keyCache keyId = true
  · simp [setConsumer, stampConsumer, cached]
  · by_cases added :
        (addOrEvict (state.1.consumerCollection.arr index).keyCache key keyId tickCount).1 = 0
    · simp [setConsumer, stampConsumer, cached, added]
    · simp [setConsumer, stampConsumer, cached, added]

/-! ## Adding, evicting and adding again -/

section Sound

variable {cache : KeyReconstructionCache size} (sound : CacheSound cache)
include sound

theorem addOrEvict_keys (slots : 0 < size) {keyId : UsedId}
    (missing : cachedKeys cache keyId = none) (key : Key128b) (tickCount : UInt32) :
    (addOrEvict cache key keyId tickCount).1 = 0 ∧
      ((cachedKeys cache).count < size ∧
          cachedKeys (addOrEvict cache key keyId tickCount).2.2 =
            Function.update (cachedKeys cache) keyId (some key) ∨
        (cachedKeys cache).count = size ∧
          ∃ evicted, cachedKeys cache evicted ≠ none ∧
            cachedKeys (addOrEvict cache key keyId tickCount).2.2 =
              Function.update (Function.update (cachedKeys cache) evicted none) keyId
                (some key)) := by
  have add : ∀ {other : KeyReconstructionCache size}, CacheSound other →
      (cachedKeys other).count < size → cachedKeys other keyId = none →
      (addKeyToCache other key keyId tickCount).1 = 0 ∧
        cachedKeys (addKeyToCache other key keyId tickCount).2 =
          Function.update (cachedKeys other) keyId (some key) := by
    intro other soundOther room absent
    obtain ⟨status, stored, _⟩ :=
      (soundOther.meets (.addKeyToCache key keyId tickCount)).2 room
    exact ⟨CacheResult.status.inj status, stored absent⟩
  obtain room | full := sound.count_le.lt_or_eq
  · obtain ⟨status, stored⟩ := add sound room missing
    have kept : (addKeyToCache cache key keyId tickCount).1 ≠ -1 := by
      rw [status]
      decide
    simp only [addOrEvict, if_neg kept]
    exact ⟨status, Or.inl ⟨room, stored⟩⟩
  · have noneFree := (cachedKeys_full_iff sound.distinct).mp full
    have refused := addKeyToCache_full noneFree key keyId tickCount
    obtain ⟨index, removed, used⟩ := sound.removeLruKeyFromCache_used (noneFree ⟨0, slots⟩)
    have cleared := sound.clearSlot index
    -- the evicted id, and the slot it leaves free for the retry
    let evicted : UsedId := ⟨(cache.map index).keyId, used⟩
    have freed : cachedKeys (clearSlot cache index) =
        Function.update (cachedKeys cache) evicted none :=
      cachedKeys_freed sound.distinct (clearSlot_map cache index) rfl rfl
    have room : (cachedKeys (clearSlot cache index)).count < size := by
      refine cleared.count_le.lt_of_ne fun stillFull => ?_
      have absurd := (cachedKeys_full_iff cleared.distinct).mp stillFull index
      simp [clearedSlot] at absurd
    have stillMissing : cachedKeys (clearSlot cache index) keyId = none := by
      rw [freed, Function.update_apply]
      split
      · rfl
      · exact missing
    obtain ⟨status, stored⟩ := add cleared room stillMissing
    simp only [addOrEvict, refused, removed, if_pos]
    refine ⟨status, Or.inr ⟨full, evicted, ?_, ?_⟩⟩
    · rw [cachedKeys_of_slot sound.distinct rfl]
      exact Option.some_ne_none _
    · rw [stored, freed]

end Sound

/-! ## What is installed -/

/-- The key is under its id, and every other id keeps its key, except at most one, and that
only if no slot was free. -/
structure KeyInstalled (before after : KeyReconstructionCache size) (keyId : UsedId)
    (key : Key128b) : Prop where
  installed : cachedKeys after keyId = some key
  others : ∃ evicted : Option UsedId,
    (evicted ≠ none → ∀ i, (before.map i).keyId ≠ 0) ∧
    ∀ other, other ≠ keyId →
      cachedKeys after other = if evicted = some other then none else cachedKeys before other

theorem CacheSound.keyInstalled {cache : KeyReconstructionCache size} (sound : CacheSound cache)
    (slots : 0 < size) {keyId : UsedId} (missing : cachedKeys cache keyId = none)
    (key : Key128b) (tickCount : UInt32) :
    KeyInstalled cache (addOrEvict cache key keyId tickCount).2.2 keyId key := by
  obtain ⟨_, ⟨_, stored⟩ | ⟨full, evicted, _, stored⟩⟩ :=
    addOrEvict_keys sound slots missing key tickCount
  · refine ⟨by rw [stored, Function.update_self], none, fun absurd => (absurd rfl).elim, ?_⟩
    intro other different
    rw [stored, Function.update_of_ne different]
    rfl
  · refine ⟨by rw [stored, Function.update_self], some evicted, fun _ => ?_, ?_⟩
    · exact (cachedKeys_full_iff sound.distinct).mp full
    · intro other different
      rw [stored, Function.update_of_ne different, Function.update_apply]
      simp only [Option.some.injEq, eq_comm]

/-- Whatever calls were made of a cache with slots, a reconstructed key is never refused: if
its id is there nothing changes, and otherwise it is installed, the flag and the event are
up. -/
theorem reconstructed_key_installed {size : Nat}
    (garbage : Fin (size + 1) → KeyReconstructionMap) (calls : List CacheCall)
    (pending deferredEvent : Bool) (keyId : UsedId) (key : Key128b) (tickCount : UInt32) :
    let before : KeyStore (size + 1) := ⟨cacheAfter garbage calls, pending, deferredEvent⟩
    let (ending, after) := installReconstructedKey tickCount keyId key before
    ending ≠ .failedToAddKey ∧
    (cachedKeys before.keyCache keyId ≠ none → after = before) ∧
    (cachedKeys before.keyCache keyId = none →
      KeyInstalled before.keyCache after.keyCache keyId key ∧
      after.processDeferredQRequestPending = true ∧ after.processDeferredPdus = true) := by
  have sound := cacheSound_after garbage calls
  generalize cacheAfter garbage calls = cache at sound
  have cached := isKeyInCache_iff sound.shortcut keyId
  have slots := Nat.succ_pos size
  by_cases missing : cachedKeys cache keyId = none
  · have notCached : isKeyInCache cache keyId ≠ true := fun there => by
      obtain ⟨i, isId⟩ := cached.mp there
      exact cachedKeys_eq_none.mp missing i isId
    have added := (addOrEvict_keys sound slots missing key tickCount).1
    simp only [installReconstructedKey, if_neg notCached, added, if_true]
    refine ⟨by decide, fun absurd => (absurd missing).elim, fun _ => ⟨?_, trivial, trivial⟩⟩
    exact sound.keyInstalled slots missing key tickCount
  · have there : isKeyInCache cache keyId = true := by
      rw [cached]
      by_contra nowhere
      exact missing (cachedKeys_eq_none.mpr fun i isId => nowhere ⟨i, isId⟩)
    simp only [installReconstructedKey, if_pos there]
    exact ⟨by decide, fun _ => trivial, fun absurd => (missing absurd).elim⟩

end BleBroadcast.Receiver
