import BleBroadcast.Receiver.FragmentFeeding
import BleBroadcast.Receiver.WakeUp

/-!
# Entries for keys that are in the cache

Whether a key is in the cache is looked at when a fragment is queued.  The entry for a
fragment is claimed when it is taken from the queue, without another look.  A surplus
fragment that was queued before its key was complete opens an entry again, and a later
session with the same id byte finds the fragment there.
-/

set_option autoImplicit false

namespace BleBroadcast.Receiver

open BleBroadcast.Core BleBroadcast.Lib

universe u

/-- No key with a used id is both in the cache of a record and collected for its sender. -/
def CacheApart (tasks : ReceiverTasks) : Prop :=
  ∀ index keyId, keyId ≠ 0 →
    isKeyInCache (tasks.receiver.sec.consumerCollection.arr index).keyCache keyId = true →
    isKeyInCollection tasks.receiver.reconstructor.keyCollection
      (tasks.receiver.sec.consumerCollection.arr index).macAddressArr keyId = false

/-- If the key of the next fragment is in the cache of its sender, no entry is free. -/
def OpensNoStaleEntry (tasks : ReceiverTasks) : TaskStep → Prop
  | .nextKeyFragment _ =>
      ∀ element ∈ tasks.fragmentBatch.head?, ∀ index,
        (tasks.receiver.sec.consumerCollection.arr index).macAddressArr =
          element.consumerMacAddress →
        element.keyByte ≠ 0 →
        isKeyInCache (tasks.receiver.sec.consumerCollection.arr index).keyCache
          element.keyByte = true →
        ∀ i, (tasks.receiver.reconstructor.keyCollection i).keyId ≠ 0
  | _ => True

instance opensNoStaleEntryDecidable (tasks : ReceiverTasks) :
    ∀ step, Decidable (OpensNoStaleEntry tasks step)
  | .nextKeyFragment _ => inferInstanceAs (Decidable (∀ element ∈ tasks.fragmentBatch.head?,
      ∀ index, (tasks.receiver.sec.consumerCollection.arr index).macAddressArr =
          element.consumerMacAddress →
        element.keyByte ≠ 0 →
        isKeyInCache (tasks.receiver.sec.consumerCollection.arr index).keyCache
          element.keyByte = true →
        ∀ i, (tasks.receiver.reconstructor.keyCollection i).keyId ≠ 0))
  | .enqueuePdu .. | .waitForEvents | .receivePdus | .nextFrame .. | .processDeferredPdus _
  | .receiveKeyFragments => isTrue trivial

/-! ## Entries -/

variable {size : Nat}

theorem missing_replace {km : KeyReconstructionCollection size} {index : Fin size}
    {replaced : KeyManagement} {mac : EspBdAddr} {keyId : UInt8}
    (missing : getKeyIndexInCollection km mac keyId = none)
    (other : ¬ (replaced.keyId = keyId ∧ replaced.consumerMacAddress = mac)) :
    getKeyIndexInCollection (Function.update km index replaced) mac keyId = none := by
  refine getKeyIndex_none.mpr fun i sameId sameMac => ?_
  by_cases here : i = index
  · subst here
    rw [Function.update_self] at sameId sameMac
    exact other ⟨sameId, sameMac⟩
  · rw [Function.update_of_ne here] at sameId sameMac
    exact getKeyIndex_none.mp missing i sameId sameMac

theorem handleKeyFragment_entries {σ : Type u} (mb : Mbedtls) (cb : KeyReconstructionCompleteCb σ)
    {km : KeyReconstructionCollection size} (opens : ∀ i, (km i).Open)
    (distinct : DistinctEntries km) (state : σ) (element : ReconstructorQueueElement) :
    let result := handleKeyFragment mb (some cb) (km, state) element
    (∀ i, (result.1 i).Open) ∧ DistinctEntries result.1 ∧
    ((result.2 = state ∧ ∀ mac keyId, keyId ≠ 0 → getKeyIndexInCollection km mac keyId = none →
        getKeyIndexInCollection result.1 mac keyId = none ∨
          element.consumerMacAddress = mac ∧ element.keyByte = keyId ∧
            ∃ i, (km i).keyId = 0) ∨
      ∃ key, result.2 = cb element.keyByte key element.consumerMacAddress state ∧
        ∀ mac keyId, keyId ≠ 0 →
          (getKeyIndexInCollection km mac keyId = none ∨
            element.consumerMacAddress = mac ∧ element.keyByte = keyId) →
          getKeyIndexInCollection result.1 mac keyId = none) := by
  intro result
  obtain ⟨_, _, step⟩ | ⟨index, entry, entryFor,
      ⟨_, replaced, isOpen, sameId, sameMac, _, step⟩ | ⟨_, _, step⟩⟩ :=
    handleKeyFragment_collected mb cb opens state element
  · simp only [result, step]
    exact ⟨opens, distinct, Or.inl ⟨trivial, fun _ _ _ missing => Or.inl missing⟩⟩
  · simp only [result, step]
    refine ⟨open_update opens index isOpen, distinct.replace entryFor fun _ => ⟨sameId, sameMac⟩,
      Or.inl ⟨trivial, fun mac keyId _ missing => ?_⟩⟩
    by_cases own : element.consumerMacAddress = mac ∧ element.keyByte = keyId
    · obtain ⟨rfl, rfl⟩ := own
      cases entryFor with
      | there found => simp [missing] at found
      | claimed _ free => exact Or.inr ⟨rfl, rfl, index, free⟩
    · exact Or.inl (missing_replace missing fun both =>
        own ⟨sameMac.symm.trans both.2, sameId.symm.trans both.1⟩)
  · simp only [result, step]
    refine ⟨open_update opens index open_zero,
      distinct.replace entryFor fun used => absurd rfl used,
      Or.inr ⟨_, rfl, fun mac keyId nonzero => ?_⟩⟩
    rintro (missing | ⟨rfl, rfl⟩)
    · exact missing_replace missing fun both => nonzero both.1.symm
    · refine getKeyIndex_none.mpr fun i sameId sameMac => ?_
      by_cases here : i = index
      · rw [here, Function.update_self] at sameId
        exact nonzero sameId.symm
      · rw [Function.update_of_ne here] at sameId sameMac
        exact distinct.separated entryFor here (sameId.trans_ne nonzero) ⟨sameId, sameMac⟩

/-! ## Records -/

/-- How a change of a record leaves the used ids in its cache: it may add those in `gained`,
and it takes none along to another address. -/
structure KeysKept (gained : UInt8 → Prop) (consumer next : BleConsumer) : Prop where
  stands : ShortcutStands next.keyCache
  cached : ∀ keyId, keyId ≠ 0 → isKeyInCache next.keyCache keyId = true →
    next.macAddressArr = consumer.macAddressArr ∧
      (isKeyInCache consumer.keyCache keyId = true ∨ gained keyId)

def noKey (_ : UInt8) : Prop := False

theorem KeysKept.refl {consumer : BleConsumer} (stands : ShortcutStands consumer.keyCache)
    (gained : UInt8 → Prop) : KeysKept gained consumer consumer :=
  ⟨stands, fun _ _ cached => ⟨rfl, Or.inl cached⟩⟩

theorem keysKept_stamp {consumer : BleConsumer} (stands : ShortcutStands consumer.keyCache)
    (gained : UInt8 → Prop) (tickCount : UInt32) :
    KeysKept gained consumer (stampConsumer consumer tickCount) :=
  ⟨stands, fun _ _ cached => ⟨rfl, Or.inl cached⟩⟩

theorem KeysKept.trans {first second third : BleConsumer} (kept : KeysKept noKey first second)
    (next : KeysKept noKey second third) : KeysKept noKey first third where
  stands := next.stands
  cached := by
    intro keyId nonzero cached
    obtain ⟨mac, before⟩ := next.cached keyId nonzero cached
    obtain ⟨sameMac, earlier⟩ := kept.cached keyId nonzero (before.resolve_right id)
    exact ⟨mac.trans sameMac, earlier⟩

theorem keysKept_lookup {consumer next : BleConsumer} (stands : ShortcutStands consumer.keyCache)
    (sameMac : next.macAddressArr = consumer.macAddressArr) {keyId : UInt8} {tickCount : UInt32}
    (looked : next.keyCache = (getKeyFromCache consumer.keyCache keyId tickCount).2) :
    KeysKept noKey consumer next where
  stands := looked ▸ stands.getKeyFromCache keyId tickCount
  cached := fun _ _ cached =>
    ⟨sameMac, Or.inl (isKeyInCache_of_lookup (looked ▸ cached))⟩

theorem lookedUp_stands (items : List DeferredPdu) :
    ∀ {cache : KeyReconstructionCache 5}, ShortcutStands cache →
      ShortcutStands (lookedUp cache items) := by
  induction items with
  | nil => exact id
  | cons item rest ih => exact fun stands => ih (stands.getKeyFromCache _ _)

theorem RecordPassed.keysKept {consumer next : BleConsumer} (passed : RecordPassed consumer next)
    (stands : ShortcutStands consumer.keyCache) : KeysKept noKey consumer next where
  stands := passed.cache.stands (lookedUp_stands _ stands)
  cached := by
    intro keyId _ cached
    rw [passed.cache.cached] at cached
    exact ⟨passed.macAddress, Or.inl (isKeyInCache_of_lookedUp cached)⟩

theorem keysKept_setConsumer (gained : Fin 2 → UInt8 → Prop) {collection : BleConsumerCollection}
    (stands : ∀ i, ShortcutStands (collection.arr i).keyCache) {index : Fin 2}
    {consumer : BleConsumer} (kept : KeysKept (gained index) (collection.arr index) consumer) :
    ∀ i, KeysKept (gained i) (collection.arr i) ((setConsumer collection index consumer).arr i) :=
  (Function.forall_update_iff collection.arr fun i => KeysKept (gained i) (collection.arr i)).mpr
    ⟨kept, fun i _ => .refl (stands i) (gained i)⟩

section
variable {collection : BleConsumerCollection}
  (stands : ∀ i, ShortcutStands (collection.arr i).keyCache)

include stands

theorem consumerForFrame_keysKept (mac : EspBdAddr) (tickCount : UInt32) (i : Fin 2) :
    KeysKept noKey (collection.arr i) ((consumerForFrame collection mac tickCount).2.arr i) := by
  obtain ⟨index, _, result⟩ | ⟨_, index, _, result⟩ | ⟨_, result⟩ :=
    consumerForFrame_cases collection mac tickCount
  · rw [result]
    exact keysKept_setConsumer (fun _ => noKey) stands
      (keysKept_stamp (stands index) noKey tickCount) i
  · have claimed : KeysKept noKey (collection.arr index) (stampConsumer
        { resetBleConsumer (collection.arr index) with macAddressArr := mac } tickCount) := by
      obtain ⟨cleared, free⟩ := (stands index).clearCache
      refine ⟨cleared, fun keyId nonzero cached => ?_⟩
      obtain ⟨slot, there⟩ := (cleared.cached_iff nonzero).mp cached
      exact absurd (there.symm.trans (free slot)) nonzero
    rw [result]
    exact keysKept_setConsumer (fun _ => noKey) stands claimed i
  · rw [result]
    exact KeysKept.refl (stands i) noKey

end

theorem handleDataPdu_keyCache (mb : Mbedtls) (tickCount : UInt32) (consumer : BleConsumer)
    (mac : EspBdAddr) (pdu : BeaconPduData) (arrival : Nat) :
    (handleDataPdu mb tickCount consumer mac pdu arrival).1.macAddressArr =
        consumer.macAddressArr ∧
      (handleDataPdu mb tickCount consumer mac pdu arrival).1.keyCache =
        (getKeyFromCache consumer.keyCache
          (getKeyIdFromKeySessionData pdu.keySessionData).toUInt8 tickCount).2 := by
  simp only [handleDataPdu]
  split
  · exact ⟨rfl, rfl⟩
  · obtain ⟨same, cache⟩ := sameButQueue_addToDeferredQueue
      (hearKeyId tickCount consumer (getKeyIdFromKeySessionData pdu.keySessionData)).2
      ⟨pdu, arrival⟩
    exact ⟨same.macAddress, cache⟩

theorem queueKeyForReconstruction_entries (control : KeyReconstructorControl size)
    (element : ReconstructorQueueElement) :
    (queueKeyForReconstruction control element).2.keyCollection = control.keyCollection := by
  simp only [queueKeyForReconstruction]
  split
  · rfl
  · split
    · rfl
    · split <;> rfl

theorem handleNewFrame_keysKept (mb : Mbedtls) (tickCount : UInt32) (stack : BeaconPduData)
    {receiver : ReceiverState}
    (stands : ∀ i, ShortcutStands (receiver.sec.consumerCollection.arr i).keyCache)
    (frame : BeaconPduDataWithMacAddr) :
    (handleNewFrame mb tickCount stack receiver frame).reconstructor.keyCollection =
        receiver.reconstructor.keyCollection ∧
      ∀ i, KeysKept noKey (receiver.sec.consumerCollection.arr i)
        ((handleNewFrame mb tickCount stack receiver frame).sec.consumerCollection.arr i) := by
  have claimed := consumerForFrame_keysKept stands frame.macAddress tickCount
  simp only [handleNewFrame]
  generalize consumerForFrame receiver.sec.consumerCollection frame.macAddress tickCount = result
    at claimed ⊢
  obtain ⟨found, collection⟩ := result
  have looked : ∀ i, ShortcutStands (collection.arr i).keyCache := fun i => (claimed i).stands
  cases found with
  | none => exact ⟨rfl, claimed⟩
  | some index =>
      simp only
      split
      · obtain ⟨sameMac, cache⟩ := handleDataPdu_keyCache mb tickCount (collection.arr index)
          frame.macAddress (getBeaconPduFromAdvData stack frame.data frame.size)
          receiver.sec.dataFramesTaken
        exact ⟨rfl, fun i => (claimed i).trans
          (keysKept_setConsumer (fun _ => noKey) looked
            (keysKept_lookup (looked index) sameMac cache) i)⟩
      · split
        · have heard : KeysKept noKey (collection.arr index) (hearKeyId tickCount
              (collection.arr index) (fragmentElement (BeaconKeyPduData.overlay frame.data)
                frame.macAddress).keyId).2 := keysKept_lookup (looked index) rfl rfl
          refine ⟨?_, fun i => (claimed i).trans
            (keysKept_setConsumer (fun _ => noKey) looked heard i)⟩
          split
          · exact queueKeyForReconstruction_entries _ _
          · rfl
        · exact ⟨rfl, claimed⟩

theorem keyReconstructionComplete_keysKept (tickCount : UInt32) (keyId : UInt8) (key : Key128b)
    (mac : EspBdAddr) {sec : SecPduProcessing}
    (stands : ∀ i, ShortcutStands (sec.consumerCollection.arr i).keyCache) (i : Fin 2) :
    KeysKept (fun gained => gained = keyId ∧ (sec.consumerCollection.arr i).macAddressArr = mac)
      (sec.consumerCollection.arr i)
      ((keyReconstructionComplete tickCount keyId key mac sec).consumerCollection.arr i) := by
  obtain ⟨_, result⟩ | ⟨index, found, ⟨result, _⟩ | ⟨_, _, result⟩⟩ :=
    keyReconstructionComplete_cases tickCount keyId key mac sec
  · rw [result]
    exact .refl (stands i) _
  · rw [result]
    exact keysKept_setConsumer
      (fun i gained => gained = keyId ∧ (sec.consumerCollection.arr i).macAddressArr = mac)
      stands (keysKept_stamp (stands index) _ tickCount) i
  · rw [result]
    refine keysKept_setConsumer
      (fun i gained => gained = keyId ∧ (sec.consumerCollection.arr i).macAddressArr = mac)
      stands ?_ i
    obtain ⟨added, ids⟩ := (stands index).addOrEvict key keyId tickCount
    refine ⟨added, fun other nonzero cached => ⟨rfl, ?_⟩⟩
    obtain ⟨slot, there⟩ := (added.cached_iff nonzero).mp cached
    rcases ids slot with same | free | new
    · exact Or.inl (((stands index).cached_iff nonzero).mpr ⟨slot, same.symm.trans there⟩)
    · exact absurd (there.symm.trans free) nonzero
    · exact Or.inr ⟨there.symm.trans new, getIndexForMacAddr_some found⟩

/-! ## Steps -/

structure TasksApart (tasks : ReceiverTasks) : Prop where
  records : RecordsSound tasks.receiver.sec.consumerCollection
  opens : ∀ i, (tasks.receiver.reconstructor.keyCollection i).Open
  distinct : DistinctEntries tasks.receiver.reconstructor.keyCollection
  stands : ∀ i, ShortcutStands (tasks.receiver.sec.consumerCollection.arr i).keyCache
  missing : ∀ index keyId, keyId ≠ 0 →
    isKeyInCache (tasks.receiver.sec.consumerCollection.arr index).keyCache keyId = true →
    getKeyIndexInCollection tasks.receiver.reconstructor.keyCollection
      (tasks.receiver.sec.consumerCollection.arr index).macAddressArr keyId = none

theorem TasksApart.cacheApart {tasks : ReceiverTasks} (apart : TasksApart tasks) :
    CacheApart tasks := by
  intro index keyId nonzero cached
  simp [isKeyInCollection, apart.missing index keyId nonzero cached]

theorem tasksApart_start (garbage : Fin 2 → Fin 5 → KeyReconstructionMap) :
    TasksApart (startUpTasks garbage) where
  records := recordsSound_start garbage
  opens := fun _ => open_zero
  distinct := fun _ _ used => absurd rfl used
  stands := by
    intro i keyId index _ lastId
    contradiction
  missing := by
    intro index keyId nonzero cached
    have stands : ShortcutStands (initKeyCache (createKeyCache (garbage index))) := by
      intro keyId index _ lastId
      contradiction
    obtain ⟨slot, there⟩ := (stands.cached_iff nonzero).mp cached
    exact absurd there.symm nonzero

theorem TasksApart.quiet {tasks next : ReceiverTasks} (apart : TasksApart tasks)
    (records : RecordsSound next.receiver.sec.consumerCollection)
    (sameEntries : next.receiver.reconstructor.keyCollection =
      tasks.receiver.reconstructor.keyCollection)
    (kept : ∀ i, KeysKept noKey (tasks.receiver.sec.consumerCollection.arr i)
      (next.receiver.sec.consumerCollection.arr i)) : TasksApart next where
  records := records
  opens := sameEntries ▸ apart.opens
  distinct := sameEntries ▸ apart.distinct
  stands := fun i => (kept i).stands
  missing := by
    intro index keyId nonzero cached
    obtain ⟨sameMac, before⟩ := (kept index).cached keyId nonzero cached
    rw [sameEntries, sameMac]
    exact apart.missing index keyId nonzero (before.resolve_right id)

theorem TasksApart.nextKeyFragment (mb : Mbedtls) (tickCount : UInt32) {tasks : ReceiverTasks}
    (apart : TasksApart tasks) (ok : OpensNoStaleEntry tasks (.nextKeyFragment tickCount)) :
    TasksApart (handleNextKeyFragment mb tickCount tasks) := by
  have records := taskStep_records mb (.nextKeyFragment tickCount) apart.records
  cases batch : tasks.fragmentBatch with
  | nil => simpa only [handleNextKeyFragment, batch] using apart
  | cons element rest =>
      obtain ⟨opens, distinct, entries⟩ := handleKeyFragment_entries mb
        (completeAndSignal tickCount) apart.opens apart.distinct (tasks.receiver.sec, false)
        element
      simp only [taskStep, handleNextKeyFragment, batch] at records ⊢
      generalize handleKeyFragment mb (some (completeAndSignal tickCount)) _ element = result
        at opens distinct entries records ⊢
      obtain ⟨km, sec, again⟩ := result
      obtain ⟨unchanged, missing⟩ | ⟨key, called, missing⟩ := entries
      · obtain ⟨rfl, _⟩ := Prod.mk.inj unchanged
        refine ⟨records, opens, distinct, apart.stands, fun index keyId nonzero cached => ?_⟩
        obtain absent | ⟨sender, rfl, i, free⟩ :=
          missing _ keyId nonzero (apart.missing index keyId nonzero cached)
        · exact absent
        · exact absurd free
            (ok element (by rw [batch]; rfl) index sender.symm nonzero cached i)
      · obtain ⟨rfl, _⟩ := Prod.mk.inj called
        have kept := keyReconstructionComplete_keysKept tickCount element.keyByte key
          element.consumerMacAddress apart.stands
        refine ⟨records, opens, distinct, fun i => (kept i).stands,
          fun index keyId nonzero cached => ?_⟩
        obtain ⟨sameMac, before⟩ := (kept index).cached keyId nonzero cached
        simp only [sameMac]
        refine missing _ keyId nonzero (before.imp (apart.missing index keyId nonzero) ?_)
        exact fun gained => ⟨gained.2.symm, gained.1.symm⟩

theorem TasksApart.step (mb : Mbedtls) {tasks : ReceiverTasks} (step : TaskStep)
    (apart : TasksApart tasks) (ok : OpensNoStaleEntry tasks step) :
    TasksApart (taskStep mb tasks step) := by
  have records := taskStep_records mb step apart.records
  obtain quiet | ⟨tickCount, stack, frame, rest, _, _, result⟩ |
      ⟨tickCount, _, _, result⟩ | ⟨tickCount, rfl, result⟩ := taskStep_cases mb tasks step
  · refine apart.quiet records quiet.entries fun i => ?_
    rw [quiet.consumers]
    exact .refl (apart.stands i) noKey
  · obtain ⟨sameEntries, kept⟩ := handleNewFrame_keysKept mb tickCount stack apart.stands frame
    rw [result] at records ⊢
    exact apart.quiet records sameEntries kept
  · rw [result] at records ⊢
    refine apart.quiet records rfl fun i => ?_
    obtain ⟨_, same⟩ | ⟨_, passed⟩ := processDeferredAndSignal_record mb tickCount apart.records i
    · simp only [same]
      exact .refl (apart.stands i) noKey
    · exact passed.keysKept (apart.stands i)
  · rw [result]
    exact apart.nextKeyFragment mb tickCount ok

/-- In every run in which no fragment whose key is in the cache of its sender finds a free
entry, no key is at any point both in that cache and collected for its sender. -/
theorem cache_apart_when (mb : Mbedtls) (garbage : Fin 2 → Fin 5 → KeyReconstructionMap)
    (steps : List TaskStep)
    (guarded : Guarded (taskStep mb) OpensNoStaleEntry (startUpTasks garbage) steps) :
    ∀ reached, reached <+: steps →
      CacheApart (run (taskStep mb) (startUpTasks garbage) reached) := fun _ isPrefix =>
  ((guarded.of_prefix isPrefix).preserves (fun _ step apart ok => apart.step mb step ok)
    (tasksApart_start garbage)).cacheApart

/-- The four fragments of session 1 come once each, and its key stays closed. -/
theorem cache_apart_session_one :
    isKeyInCache ((run (taskStep tabulated) (startUpTasks blankCaches)
      sessionOneCompletes).receiver.sec.consumerCollection.arr 0).keyCache 1 = true ∧
    ∀ reached, reached <+: sessionOneCompletes →
      CacheApart (run (taskStep tabulated) (startUpTasks blankCaches) reached) :=
  ⟨by decide +kernel, cache_apart_when tabulated blankCaches sessionOneCompletes
    (by decide +kernel)⟩

/-- The fragments 0 to 3 of session 1 and fragment 0 once more are queued before the
reconstructor takes its batch. -/
def surplusFragment : List TaskStep :=
  ((List.finRange 4).map (uniformFragmentArrives 1 1) ++ [uniformFragmentArrives 1 1 0]) ++
    [.waitForEvents, .receivePdus] ++ List.replicate 5 (.nextFrame 7 .zero) ++
    [.receiveKeyFragments] ++ List.replicate 5 (.nextKeyFragment 7)

/-- The batch is finished, the key of session 1 is in the cache, and the surplus fragment
lies in a new entry. -/
theorem surplus_fragment_stays :
    ¬ ∀ (mb : Mbedtls) (garbage : Fin 2 → Fin 5 → KeyReconstructionMap) (steps : List TaskStep),
      (run (taskStep mb) (startUpTasks garbage) steps).fragmentBatch = [] →
      CacheApart (run (taskStep mb) (startUpTasks garbage) steps) := by
  intro always
  have finished : (run (taskStep tabulated) (startUpTasks blankCaches)
      surplusFragment).fragmentBatch.length = 0 := by
    decide +kernel
  have apart := always tabulated blankCaches surplusFragment (List.length_eq_zero_iff.mp finished)
    0 1 (by decide)
  revert apart
  decide +kernel

end BleBroadcast.Receiver
