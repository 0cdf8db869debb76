import BleBroadcast.Lib.SlotTable
import BleBroadcast.Receiver.AdvTimeAuthorize
import BleBroadcast.Receiver.WakeUp

/-!
# The two tables of senders

The callback of the scan gives its entries to the senders it hears first, and the
processing task gives its records to the senders that are authorized first.  A frame is
passed on only with the address of an entry, so the records are never asked for a sender
that has none: while one of the entries is missing among the records, a record is free.
-/

set_option autoImplicit false

namespace BleBroadcast.Receiver

open BleBroadcast.Core BleBroadcast.Lib

/-! ## The receiver with both of its sides -/

/-- `callsMade` of the calls that the authorization task makes have been made. -/
structure ReceiverSystem where
  authorization : AdvTimeAuthorizeStructure
  callsMade : Nat
  tasks : ReceiverTasks

def startUpReceiver (garbage : Fin 2 → Fin 5 → KeyReconstructionMap) : ReceiverSystem where
  authorization := initAdvTimeAuthorizeObject
  callsMade := 0
  tasks := startUpTasks garbage

inductive SystemStep where
  | hear (heard : Hearing)
  | authorize (index : Fin 2)
  | enqueueNext
  | task (step : TaskStep)

/-- The authorization task makes the calls of a batch one after the other, before it goes on
to the next batch.  No other code calls `enqueue_pdu_for_processing`. -/
def systemStep (mb : Mbedtls) (system : ReceiverSystem) : SystemStep → ReceiverSystem
  | .hear heard =>
      { system with authorization := scanCompleteCallback system.authorization heard }
  | .authorize index =>
      if system.callsMade = system.authorization.enqueued.length then
        { system with authorization := authorizeConsumer system.authorization index }
      else system
  | .enqueueNext =>
      match system.authorization.enqueued[system.callsMade]? with
      | none => system
      | some call =>
          { system with
            callsMade := system.callsMade + 1
            tasks := enqueueAndSignal system.tasks call.data call.size call.macAddress }
  | .task (.enqueuePdu _ _ _) => system
  | .task step => { system with tasks := taskStep mb system.tasks step }

/-- The addresses of the entries, and those of the records. -/
def entryAddresses (ao : AdvTimeAuthorizeStructure) : Fin 2 → EspBdAddr :=
  fun i => (ao.consumers i).consumerAddr

def recordAddresses {size cacheSize : Nat}
    (collection : Sized.BleConsumerCollection size cacheSize) : Fin size → EspBdAddr :=
  fun i => (collection.arr i).macAddressArr

/-! ## The entries -/

theorem scanCompleteCallback_keepsAddress (ao : AdvTimeAuthorizeStructure) (heard : Hearing)
    (i : Fin 2) (used : entryAddresses ao i ≠ 0) :
    entryAddresses (scanCompleteCallback ao heard) i = entryAddresses ao i := by
  obtain ⟨_, same | ⟨index, claimed, _, found, entries⟩⟩ := scanCompleteCallback_cases ao heard
  · rw [entryAddresses, same, entryAddresses]
  · have claimedSame : (claimed.consumers i).consumerAddr = (ao.consumers i).consumerAddr := by
      obtain ⟨_, _, result⟩ | ⟨_, free, zero, result⟩ | ⟨_, _, result⟩ :=
        getConsumerIndexForAddr_cases ao heard.macAddress
      · obtain ⟨_, rfl⟩ := Prod.mk.inj (found.symm.trans result)
        rfl
      · obtain ⟨_, rfl⟩ := Prod.mk.inj (found.symm.trans result)
        have elsewhere : i ≠ free := fun here => used (here ▸ zero)
        simp only [setAuthorization, Function.update_of_ne elsewhere]
      · exact absurd (found.symm.trans result) (by simp)
    exact (entries i).1.address.trans claimedSame

theorem authorizeConsumer_address (ao : AdvTimeAuthorizeStructure) (index i : Fin 2) :
    entryAddresses (authorizeConsumer ao index) i = entryAddresses ao i :=
  (authorizeConsumer_entry ao index i).1

theorem authorizeConsumer_enqueued (ao : AdvTimeAuthorizeStructure) (index : Fin 2) :
    ∀ call ∈ (authorizeConsumer ao index).enqueued,
      call ∈ ao.enqueued ∨ call.macAddress = entryAddresses ao index := by
  intro call member
  unfold authorizeConsumer at member
  split at member
  · rcases List.mem_append.mp member with early | late
    · exact Or.inl early
    · exact Or.inr (authorizeBatch_address _ _ call late)
  · exact Or.inl member

/-! ## The records -/

structure SameRecords (sec next : SecPduProcessing) : Prop where
  addresses : recordAddresses next.consumerCollection = recordAddresses sec.consumerCollection
  count : next.consumerCollection.consumersCount = sec.consumerCollection.consumersCount
  processingQueue : next.processingQueue = sec.processingQueue

theorem SameRecords.refl (sec : SecPduProcessing) : SameRecords sec sec := ⟨rfl, rfl, rfl⟩

theorem SameRecords.trans {first second third : SecPduProcessing}
    (same : SameRecords first second) (later : SameRecords second third) :
    SameRecords first third :=
  ⟨later.addresses.trans same.addresses, later.count.trans same.count,
    later.processingQueue.trans same.processingQueue⟩

theorem recordAddresses_setConsumer {size cacheSize : Nat}
    (collection : Sized.BleConsumerCollection size cacheSize) (index : Fin size)
    (consumer : Sized.BleConsumer cacheSize) :
    recordAddresses (setConsumer collection index consumer) =
      Function.update (recordAddresses collection) index consumer.macAddressArr :=
  Function.comp_update Sized.BleConsumer.macAddressArr collection.arr index consumer

theorem sameRecords_setConsumer {sec next : SecPduProcessing} {index : Fin 2}
    {consumer : BleConsumer}
    (collection : next.consumerCollection = setConsumer sec.consumerCollection index consumer)
    (sameMac : consumer.macAddressArr = recordAddresses sec.consumerCollection index)
    (processingQueue : next.processingQueue = sec.processingQueue) : SameRecords sec next where
  addresses := by
    rw [collection, recordAddresses_setConsumer, sameMac, Function.update_eq_self]
  count := by
    rw [collection]
    rfl
  processingQueue := processingQueue

theorem handleDataPdu_macAddress (mb : Mbedtls) (tickCount : UInt32) (consumer : BleConsumer)
    (mac : EspBdAddr) (pdu : BeaconPduData) (number : Nat) :
    (handleDataPdu mb tickCount consumer mac pdu number).1.macAddressArr =
      consumer.macAddressArr := by
  simp only [handleDataPdu, hearKeyId]
  split
  · rfl
  · simp only [addToDeferredQueue]
    split <;> rfl

theorem handleNewFrame_sameRecords (mb : Mbedtls) (tickCount : UInt32) (stack : BeaconPduData)
    (receiver : ReceiverState) (frame : BeaconPduDataWithMacAddr) :
    SameRecords
      { receiver.sec with
        consumerCollection :=
          (consumerForFrame receiver.sec.consumerCollection frame.macAddress tickCount).2 }
      (handleNewFrame mb tickCount stack receiver frame).sec := by
  simp only [handleNewFrame]
  cases consumerForFrame receiver.sec.consumerCollection frame.macAddress tickCount with
  | mk found collection =>
      cases found with
      | none => exact .refl _
      | some index =>
          simp only
          split
          · exact sameRecords_setConsumer rfl (handleDataPdu_macAddress mb tickCount _ _ _ _) rfl
          · split
            · exact sameRecords_setConsumer rfl rfl rfl
            · exact .refl _

theorem processPendingConsumer_sameRecords (mb : Mbedtls) (tickCount : Nat → UInt32)
    {sec : SecPduProcessing} {index : Fin 2}
    (counted : Counted (sec.consumerCollection.arr index)) :
    SameRecords sec (processPendingConsumer mb tickCount sec index) := by
  have same := (sameButQueue_processDeferredQueue mb tickCount counted sec.log).1.macAddress
  simp only [processPendingConsumer]
  split
  · refine sameRecords_setConsumer rfl ?_ rfl
    split <;> exact same
  · exact .refl sec

theorem processDeferredAndSignal_sameRecords (mb : Mbedtls) (tickCount : Fin 2 → Nat → UInt32)
    {sec : SecPduProcessing} (records : RecordsSound sec.consumerCollection) :
    SameRecords sec (processDeferredAndSignal mb tickCount sec).1 := by
  obtain ⟨result, firstSound, _⟩ := processDeferredAndSignal_passes mb tickCount records
  rw [result]
  exact (processPendingConsumer_sameRecords mb (tickCount 0) (records.counted 0)).trans
    (processPendingConsumer_sameRecords mb (tickCount 1) (firstSound.counted 1))

theorem keyReconstructionComplete_sameRecords (tickCount : UInt32) (keyId : UInt8)
    (key : Key128b) (mac : EspBdAddr) (sec : SecPduProcessing) :
    SameRecords sec (keyReconstructionComplete tickCount keyId key mac sec) := by
  obtain ⟨_, result⟩ | ⟨index, _, ⟨result, _⟩ | ⟨_, _, result⟩⟩ :=
    keyReconstructionComplete_cases tickCount keyId key mac sec
  · rw [result]
    exact .refl sec
  · rw [result]
    exact sameRecords_setConsumer rfl rfl rfl
  · rw [result]
    exact sameRecords_setConsumer rfl rfl rfl

theorem handleNextKeyFragment_sameRecords (mb : Mbedtls) (tickCount : UInt32)
    (tasks : ReceiverTasks) :
    SameRecords tasks.receiver.sec (handleNextKeyFragment mb tickCount tasks).receiver.sec := by
  have keep : ∀ keyId key mac (state : SecPduProcessing × Bool),
      SameRecords tasks.receiver.sec state.1 →
      SameRecords tasks.receiver.sec (completeAndSignal tickCount keyId key mac state).1 :=
    fun keyId key mac state same =>
      same.trans (keyReconstructionComplete_sameRecords tickCount keyId key mac state.1)
  obtain ⟨_, same, _⟩ := handleNextKeyFragment_keeps mb keep (.refl tasks.receiver.sec)
  exact same

/-! ## A record for a frame -/

theorem consumerForFrame_room {collection : BleConsumerCollection} {mac : EspBdAddr}
    (missing : getIndexForMacAddr collection mac = none)
    (free : ∃ i, recordAddresses collection i = 0)
    (room : collection.consumersCount.toNat < maxBleConsumers) (tickCount : UInt32) :
    (consumerForFrame collection mac tickCount).1 ≠ none := by
  simp only [consumerForFrame, getBleConsumerFromCollection, missing, getActiveNoConsumers,
    if_pos room, addConsumerToCollection, getFirstFreeIndex]
  cases found : getIndexForMacAddr collection 0 with
  | some index => simp
  | none =>
      obtain ⟨i, zero⟩ := free
      exact absurd zero (getIndexForMacAddr_none.mp found i)

structure RecordsWithin (entries : Fin 2 → EspBdAddr) (collection : BleConsumerCollection) :
    Prop where
  sound : RecordsSound collection
  count : collection.consumersCount.toNat = usedCount 0 (recordAddresses collection)
  within : Within 0 (recordAddresses collection) entries

/-- A sender with an entry has a record, or gets a free one. -/
theorem RecordsWithin.obtain_record {entries : Fin 2 → EspBdAddr}
    {collection : BleConsumerCollection} (records : RecordsWithin entries collection)
    {mac : EspBdAddr} (nonzero : mac ≠ 0) (there : ∃ i, entries i = mac) (tickCount : UInt32) :
    RecordsWithin entries (consumerForFrame collection mac tickCount).2 ∧
    (∃ index, (consumerForFrame collection mac tickCount).1 = some index ∧
      ∀ i, recordAddresses (consumerForFrame collection mac tickCount).2 i = mac ↔ i = index) ∧
    ∀ i, recordAddresses collection i ≠ 0 →
      recordAddresses (consumerForFrame collection mac tickCount).2 i =
        recordAddresses collection i := by
  obtain ⟨soundNext, _, own⟩ := consumerForFrame_spec records.sound mac tickCount
  have alone : ∀ index, (consumerForFrame collection mac tickCount).1 = some index →
      ∀ i, recordAddresses (consumerForFrame collection mac tickCount).2 i = mac ↔ i = index := by
    intro index found i
    constructor
    · intro same
      exact soundNext.distinct i index (same.trans (own index found).symm)
        fun zero => nonzero (same.symm.trans zero)
    · rintro rfl
      exact own i found
  obtain ⟨index, found, result⟩ | ⟨missing, index, zero, result⟩ | ⟨missing, result⟩ :=
    consumerForFrame_cases collection mac tickCount
  · have same : recordAddresses (consumerForFrame collection mac tickCount).2 =
        recordAddresses collection := by
      rw [result, recordAddresses_setConsumer]
      exact Function.update_eq_self _ _
    refine ⟨⟨soundNext, ?_, ?_⟩, ⟨index, by rw [result], alone index (by rw [result])⟩, ?_⟩
    · rw [same, result]
      exact records.count
    · rw [same]
      exact records.within
    · intro i _
      rw [same]
  · have claimed : recordAddresses (consumerForFrame collection mac tickCount).2 =
        Function.update (recordAddresses collection) index mac := by
      rw [result]
      exact recordAddresses_setConsumer collection index _
    refine ⟨⟨soundNext, ?_, ?_⟩, ⟨index, by rw [result], alone index (by rw [result])⟩, ?_⟩
    · have isFree : recordAddresses collection index = 0 := zero
      have room : collection.consumersCount.toNat < maxBleConsumers := by
        rw [records.count]
        exact usedCount_lt isFree
      have one : (1 : UInt8).toNat = 1 := rfl
      rw [claimed, usedCount_claim isFree nonzero, ← records.count, result]
      simp only [UInt8.toNat_add, one]
      unfold maxBleConsumers at room
      omega
    · intro i used
      rw [claimed] at used ⊢
      by_cases here : i = index
      · subst here
        simpa using there
      · simp only [Function.update_of_ne here] at used ⊢
        exact records.within i used
    · intro i used
      have elsewhere : i ≠ index := fun here => used (here ▸ zero)
      rw [claimed, Function.update_of_ne elsewhere]
  · -- some entry is missing among the records, so the table is not full
    obtain ⟨free, isFree⟩ := exists_free_of_within records.sound.distinct records.within there
      (getIndexForMacAddr_none.mp missing)
    have room : collection.consumersCount.toNat < maxBleConsumers := by
      rw [records.count]
      exact usedCount_lt isFree
    exact absurd (by rw [result]) (consumerForFrame_room missing ⟨free, isFree⟩ room tickCount)

/-! ## Runs -/

def waitingFrames (tasks : ReceiverTasks) : List BeaconPduDataWithMacAddr :=
  tasks.pduBatch ++ tasks.receiver.sec.processingQueue

def HasEntry (ao : AdvTimeAuthorizeStructure) (mac : EspBdAddr) : Prop :=
  ∃ i, entryAddresses ao i = mac

structure Admitted (system : ReceiverSystem) : Prop where
  addressed : Addressed system.authorization
  calls : ∀ call ∈ system.authorization.enqueued, HasEntry system.authorization call.macAddress
  frames : ∀ frame ∈ waitingFrames system.tasks,
    frame.macAddress ≠ 0 ∧ HasEntry system.authorization frame.macAddress
  records : RecordsWithin (entryAddresses system.authorization)
    system.tasks.receiver.sec.consumerCollection

theorem admitted_start (garbage : Fin 2 → Fin 5 → KeyReconstructionMap) :
    Admitted (startUpReceiver garbage) where
  addressed := addressed_start
  calls := by simp [startUpReceiver, initAdvTimeAuthorizeObject]
  frames := by simp [startUpReceiver, startUpTasks, startUpSecProcessing, waitingFrames]
  records := ⟨recordsSound_start garbage, (usedCount_empty fun _ => rfl).symm,
    fun _ used => absurd rfl used⟩

section
variable {system : ReceiverSystem}

theorem HasEntry.later {ao next : AdvTimeAuthorizeStructure} {mac : EspBdAddr}
    (hasEntry : HasEntry ao mac) (nonzero : mac ≠ 0)
    (kept : ∀ i, entryAddresses ao i ≠ 0 → entryAddresses next i = entryAddresses ao i) :
    HasEntry next mac := by
  obtain ⟨i, there⟩ := hasEntry
  exact ⟨i, (kept i (there ▸ nonzero)).trans there⟩

theorem Admitted.authorization (admitted : Admitted system) {next : AdvTimeAuthorizeStructure}
    (addressed : Addressed next)
    (kept : ∀ i, entryAddresses system.authorization i ≠ 0 →
      entryAddresses next i = entryAddresses system.authorization i)
    (calls : ∀ call ∈ next.enqueued,
      call ∈ system.authorization.enqueued ∨ HasEntry next call.macAddress) :
    Admitted { system with authorization := next } where
  addressed := addressed
  calls := by
    intro call member
    rcases calls call member with early | hasEntry
    · exact (admitted.calls call early).later (admitted.addressed.enqueued call early) kept
    · exact hasEntry
  frames := by
    intro frame member
    obtain ⟨nonzero, hasEntry⟩ := admitted.frames frame member
    exact ⟨nonzero, hasEntry.later nonzero kept⟩
  records := ⟨admitted.records.sound, admitted.records.count, admitted.records.within.mono kept⟩

theorem Admitted.enqueueNext (admitted : Admitted system) {call : EnqueueCall}
    (made : call ∈ system.authorization.enqueued) (callsMade : Nat) :
    Admitted { system with
      callsMade := callsMade
      tasks := enqueueAndSignal system.tasks call.data call.size call.macAddress } := by
  obtain ⟨addressed, calls, frames, sound, count, within⟩ := admitted
  have move : DataMove anyPass _ _ :=
    enqueuePduForProcessing_move sound call.data call.size call.macAddress
  have collection := enqueuePduForProcessing_consumers system.tasks.receiver.sec call.data
    call.size call.macAddress
  refine ⟨addressed, calls, ?_, move.records, ?_, ?_⟩
  · intro frame member
    have old : frame ∈ waitingFrames system.tasks ∨ frame.macAddress = call.macAddress := by
      simp only [waitingFrames, enqueueAndSignal, enqueuePduForProcessing] at member
      split at member
      · rw [← List.append_assoc] at member
        rcases List.mem_append.mp member with old | new
        · exact Or.inl old
        · exact Or.inr (by rw [List.mem_singleton.mp new])
      · exact Or.inl member
    rcases old with old | new
    · exact frames frame old
    · rw [new]
      exact ⟨addressed.enqueued call made, calls call made⟩
  · simp only [enqueueAndSignal, collection]
    exact count
  · simp only [enqueueAndSignal, collection]
    exact within

theorem Admitted.tasks (admitted : Admitted system) {next : ReceiverTasks}
    (sound : RecordsSound next.receiver.sec.consumerCollection)
    (frames : waitingFrames next ⊆ waitingFrames system.tasks)
    (addresses : recordAddresses next.receiver.sec.consumerCollection =
      recordAddresses system.tasks.receiver.sec.consumerCollection)
    (count : next.receiver.sec.consumerCollection.consumersCount =
      system.tasks.receiver.sec.consumerCollection.consumersCount) :
    Admitted { system with tasks := next } where
  addressed := admitted.addressed
  calls := admitted.calls
  frames := fun frame member => admitted.frames frame (frames member)
  records := ⟨sound, by rw [count, addresses]; exact admitted.records.count,
    by rw [addresses]; exact admitted.records.within⟩

theorem Admitted.quietTasks (admitted : Admitted system) {next : ReceiverTasks}
    (sound : RecordsSound next.receiver.sec.consumerCollection)
    (same : SameRecords system.tasks.receiver.sec next.receiver.sec)
    (sameBatch : next.pduBatch = system.tasks.pduBatch) :
    Admitted { system with tasks := next } := by
  refine admitted.tasks sound ?_ same.addresses same.count
  rw [waitingFrames, sameBatch, same.processingQueue, waitingFrames]
  exact List.Subset.refl _

theorem Admitted.receivePdus (admitted : Admitted system) :
    Admitted { system with tasks := receivePdus system.tasks } := by
  refine admitted.tasks ?_ ?_ ?_ ?_ <;> unfold Receiver.receivePdus <;> split
  · exact admitted.records.sound
  · exact admitted.records.sound
  · intro frame member
    apply List.mem_append_right
    rcases List.mem_append.mp member with taken | left
    · exact List.mem_of_mem_take taken
    · exact List.mem_of_mem_drop left
  · exact List.Subset.refl _
  · rfl
  · rfl
  · rfl
  · rfl

theorem Admitted.frame_record (mb : Mbedtls) (admitted : Admitted system)
    {frame : BeaconPduDataWithMacAddr} {rest : List BeaconPduDataWithMacAddr}
    (batch : system.tasks.pduBatch = frame :: rest) (tickCount : UInt32)
    (stack : BeaconPduData) :
    ∃ index, ∀ i, recordAddresses
      (handleNextFrame mb tickCount stack system.tasks).receiver.sec.consumerCollection i =
        frame.macAddress ↔ i = index := by
  obtain ⟨nonzero, hasEntry⟩ := admitted.frames frame
    (List.mem_append_left _ (by rw [batch]; exact List.mem_cons_self))
  obtain ⟨_, ⟨index, _, alone⟩, _⟩ :=
    admitted.records.obtain_record nonzero hasEntry tickCount
  have same := handleNewFrame_sameRecords mb tickCount stack system.tasks.receiver frame
  simp only [handleNextFrame, batch]
  rw [same.addresses]
  exact ⟨index, alone⟩

theorem Admitted.nextFrame (mb : Mbedtls) (admitted : Admitted system) (tickCount : UInt32)
    (stack : BeaconPduData) :
    Admitted { system with tasks := handleNextFrame mb tickCount stack system.tasks } ∧
    ∀ i, recordAddresses system.tasks.receiver.sec.consumerCollection i ≠ 0 →
      recordAddresses
          (handleNextFrame mb tickCount stack system.tasks).receiver.sec.consumerCollection i =
        recordAddresses system.tasks.receiver.sec.consumerCollection i := by
  cases batch : system.tasks.pduBatch with
  | nil =>
      simp only [handleNextFrame, batch]
      exact ⟨admitted, fun _ _ => trivial⟩
  | cons frame rest =>
      obtain ⟨nonzero, hasEntry⟩ := admitted.frames frame
        (List.mem_append_left _ (by rw [batch]; exact List.mem_cons_self))
      obtain ⟨records, _, kept⟩ := admitted.records.obtain_record nonzero hasEntry tickCount
      have same := handleNewFrame_sameRecords mb tickCount stack system.tasks.receiver frame
      have sound := taskStep_records mb (.nextFrame tickCount stack) admitted.records.sound
      simp only [taskStep, handleNextFrame, batch] at sound ⊢
      refine ⟨⟨admitted.addressed, admitted.calls, fun other member => ?_, sound, ?_, ?_⟩,
        fun i used => ?_⟩
      · apply admitted.frames other
        rw [waitingFrames, batch]
        rw [waitingFrames, same.processingQueue] at member
        exact List.mem_cons_of_mem _ member
      · rw [same.count, same.addresses]
        exact records.count
      · rw [same.addresses]
        exact records.within
      · rw [same.addresses]
        exact kept i used

theorem Admitted.taskStep (mb : Mbedtls) (admitted : Admitted system) (step : TaskStep) :
    let next := systemStep mb system (.task step)
    Admitted next ∧
    ∀ i, recordAddresses system.tasks.receiver.sec.consumerCollection i ≠ 0 →
      recordAddresses next.tasks.receiver.sec.consumerCollection i =
        recordAddresses system.tasks.receiver.sec.consumerCollection i := by
  have quiet : ∀ {next : ReceiverTasks},
      RecordsSound next.receiver.sec.consumerCollection →
      SameRecords system.tasks.receiver.sec next.receiver.sec →
      next.pduBatch = system.tasks.pduBatch →
      Admitted { system with tasks := next } ∧
      ∀ i, recordAddresses system.tasks.receiver.sec.consumerCollection i ≠ 0 →
        recordAddresses next.receiver.sec.consumerCollection i =
          recordAddresses system.tasks.receiver.sec.consumerCollection i :=
    fun sound same sameBatch => ⟨admitted.quietTasks sound same sameBatch,
      fun i _ => congrFun same.addresses i⟩
  have sound := taskStep_records mb step admitted.records.sound
  cases step with
  | enqueuePdu data size mac => exact ⟨admitted, fun _ _ => rfl⟩
  | waitForEvents =>
      refine quiet sound ?_ ?_ <;> simp only [Receiver.taskStep, waitForEvents] <;> split
      · exact .refl _
      · exact .refl _
      · rfl
      · rfl
  | receivePdus =>
      refine ⟨admitted.receivePdus, fun i _ => ?_⟩
      simp only [systemStep, Receiver.taskStep, Receiver.receivePdus]
      split <;> rfl
  | nextFrame tickCount stack => exact admitted.nextFrame mb tickCount stack
  | processDeferredPdus tickCount =>
      refine quiet sound ?_ ?_ <;> simp only [Receiver.taskStep, handleDeferredEvent] <;> split
      · exact processDeferredAndSignal_sameRecords mb tickCount admitted.records.sound
      · exact .refl _
      · rfl
      · rfl
  | receiveKeyFragments =>
      refine quiet sound ?_ ?_ <;> simp only [Receiver.taskStep, receiveKeyFragments] <;> split
      · exact .refl _
      · exact .refl _
      · rfl
      · rfl
  | nextKeyFragment tickCount =>
      refine quiet sound (handleNextKeyFragment_sameRecords mb tickCount system.tasks) ?_
      simp only [Receiver.taskStep, handleNextKeyFragment]
      split <;> rfl

theorem Admitted.step (mb : Mbedtls) (admitted : Admitted system) (step : SystemStep) :
    Admitted (systemStep mb system step) ∧
    ∀ i, recordAddresses system.tasks.receiver.sec.consumerCollection i ≠ 0 →
      recordAddresses (systemStep mb system step).tasks.receiver.sec.consumerCollection i =
        recordAddresses system.tasks.receiver.sec.consumerCollection i := by
  cases step with
  | hear heard =>
      refine ⟨admitted.authorization (admitted.addressed.scanCompleteCallback heard)
        (scanCompleteCallback_keepsAddress _ heard) fun call member => ?_, fun _ _ => rfl⟩
      rw [(scanCompleteCallback_cases _ heard).1] at member
      exact Or.inl member
  | authorize index =>
      simp only [systemStep]
      split
      · refine ⟨admitted.authorization (admitted.addressed.authorizeConsumer index)
          (fun i _ => authorizeConsumer_address _ index i) fun call member => ?_, fun _ _ => rfl⟩
        rcases authorizeConsumer_enqueued _ index call member with early | own
        · exact Or.inl early
        · exact Or.inr ⟨index, (authorizeConsumer_address _ index index).trans own.symm⟩
      · exact ⟨admitted, fun _ _ => rfl⟩
  | enqueueNext =>
      simp only [systemStep]
      cases made : system.authorization.enqueued[system.callsMade]? with
      | none => exact ⟨admitted, fun _ _ => rfl⟩
      | some call =>
          refine ⟨admitted.enqueueNext (List.mem_of_getElem? made) _, fun i _ => ?_⟩
          simp only [enqueueAndSignal, enqueuePduForProcessing]
          split <;> rfl
  | task step => exact admitted.taskStep mb step

end

/-- The tables agree in every run of the receiver: each frame that was taken from the queue
is given a record, and after its turn exactly one record has its address; no two records are
of one sender, a record in use stays with its sender, and the count is that of the records in
use. -/
theorem sender_tables_agree (mb : Mbedtls) (garbage : Fin 2 → Fin 5 → KeyReconstructionMap)
    (steps : List SystemStep) :
    let system := run (systemStep mb) (startUpReceiver garbage) steps
    let collection := system.tasks.receiver.sec.consumerCollection
    (∀ frame ∈ system.tasks.pduBatch, ∀ tickCount,
      ∃ index, (consumerForFrame collection frame.macAddress tickCount).1 = some index ∧
        ∀ i, ((consumerForFrame collection frame.macAddress tickCount).2.arr i).macAddressArr =
          frame.macAddress ↔ i = index) ∧
    (∀ frame rest, system.tasks.pduBatch = frame :: rest → ∀ tickCount stack,
      ∃ index, ∀ i, ((systemStep mb system (.task (.nextFrame tickCount
        stack))).tasks.receiver.sec.consumerCollection.arr i).macAddressArr =
          frame.macAddress ↔ i = index) ∧
    DistinctSenders collection ∧
    (∀ later i, (collection.arr i).macAddressArr ≠ 0 →
      ((run (systemStep mb) system later).tasks.receiver.sec.consumerCollection.arr
        i).macAddressArr = (collection.arr i).macAddressArr) ∧
    collection.consumersCount.toNat =
      (Finset.univ.filter fun i => (collection.arr i).macAddressArr ≠ 0).card ∧
    collection.consumersCount.toNat ≤ maxBleConsumers := by
  intro system collection
  have admitted : Admitted system := run_preserves Admitted
    (fun _ step admitted => (admitted.step mb step).1) (admitted_start garbage) steps
  refine ⟨fun frame member tickCount => ?_, fun frame rest batch tickCount stack =>
    admitted.frame_record mb batch tickCount stack, admitted.records.sound.distinct, ?_,
    admitted.records.count, ?_⟩
  · obtain ⟨nonzero, hasEntry⟩ := admitted.frames frame (List.mem_append_left _ member)
    exact (admitted.records.obtain_record nonzero hasEntry tickCount).2.1
  · intro later i used
    have keep : ∀ (next : ReceiverSystem) (step : SystemStep),
        (Admitted next ∧ recordAddresses next.tasks.receiver.sec.consumerCollection i =
          recordAddresses collection i) →
        Admitted (systemStep mb next step) ∧
          recordAddresses (systemStep mb next step).tasks.receiver.sec.consumerCollection i =
            recordAddresses collection i := by
      rintro next step ⟨admittedNext, same⟩
      obtain ⟨admittedLater, kept⟩ := admittedNext.step mb step
      refine ⟨admittedLater, (kept i ?_).trans same⟩
      rw [same]
      exact used
    exact (run_preserves _ keep ⟨admitted, rfl⟩ later).2
  · rw [admitted.records.count]
    exact usedCount_le _

end BleBroadcast.Receiver
