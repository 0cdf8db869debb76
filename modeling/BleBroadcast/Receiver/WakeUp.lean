import BleBroadcast.Receiver.KeyProvenance
import BleBroadcast.Receiver.ReceiverTasks

/-!
# Waking up for deferred frames

A frame waits in the queue of its sender until a pass over that queue.  A pass needs the
pending flag of the record and the event of the processing task, and both are raised
when a key is added to the cache, but not when a frame whose key is already there is
put behind other frames.
-/

set_option autoImplicit false

namespace BleBroadcast.Receiver

open BleBroadcast.Core BleBroadcast.Lib

def HoldsDecryptable (consumer : BleConsumer) : Prop :=
  ∃ item ∈ consumer.deferredQueue, isKeyInCache consumer.keyCache item.keyId.toUInt8 = true

/-- `EVENT_PROCESS_DEFFERRED_PDUS` is set, or the wait has returned it and its handler is
the next to run on it. -/
def DeferredEventDue (tasks : ReceiverTasks) : Prop :=
  tasks.eventGroup.processDeferredPdus = true ∨ tasks.events.processDeferredPdus = true

instance holdsDecryptableDecidable (consumer : BleConsumer) :
    Decidable (HoldsDecryptable consumer) :=
  inferInstanceAs (Decidable (∃ item ∈ _, _))

instance deferredEventDueDecidable (tasks : ReceiverTasks) : Decidable (DeferredEventDue tasks) :=
  inferInstanceAs (Decidable (_ ∨ _))

def NoLostWakeUp (tasks : ReceiverTasks) : Prop :=
  ∀ index,
    HoldsDecryptable (tasks.receiver.sec.consumerCollection.arr index) →
      (tasks.receiver.sec.consumerCollection.arr index).processDeferredQRequestPending = true ∧
        DeferredEventDue tasks

instance noLostWakeUpDecidable (tasks : ReceiverTasks) : Decidable (NoLostWakeUp tasks) :=
  inferInstanceAs (Decidable (∀ _, _ → _ ∧ _))

def dataKeyId (stack : BeaconPduData) (frame : BeaconPduDataWithMacAddr) : UInt16 :=
  getKeyIdFromKeySessionData (getBeaconPduFromAdvData stack frame.data frame.size).keySessionData

/-- If the next frame is a DATA frame whose key is in the cache, and it is put behind
other frames of its sender, then the pending flag of the sender is up. -/
def DefersWhilePending (tasks : ReceiverTasks) : TaskStep → Prop
  | .nextFrame _ stack =>
      ∀ frame ∈ tasks.pduBatch.head?, getCommandFromPdu frame.data frame.size = dataCmd →
        ∀ index, getIndexForMacAddr tasks.receiver.sec.consumerCollection frame.macAddress =
            some index →
          let consumer := tasks.receiver.sec.consumerCollection.arr index
          isKeyInCache consumer.keyCache (dataKeyId stack frame).toUInt8 = true →
          consumer.deferredQueue ≠ [] → consumer.deferredQueue.length < deferredQueueSize →
            consumer.processDeferredQRequestPending = true
  | _ => True

/-! ## Records -/

/-- The flag is up while a frame could be decrypted, and only while `due` holds. -/
structure RecordAwake (due : Prop) (consumer : BleConsumer) : Prop where
  pending : HoldsDecryptable consumer → consumer.processDeferredQRequestPending = true
  due : consumer.processDeferredQRequestPending = true → due

variable {due : Prop}

theorem RecordAwake.mono {later : Prop} {consumer : BleConsumer}
    (awake : RecordAwake due consumer) (weaker : due → later) : RecordAwake later consumer :=
  ⟨awake.pending, fun pending => weaker (awake.due pending)⟩

theorem RecordAwake.keep {consumer next : BleConsumer} (awake : RecordAwake due consumer)
    (queue : next.deferredQueue ⊆ consumer.deferredQueue)
    (cached : ∀ keyId, isKeyInCache next.keyCache keyId = true →
      isKeyInCache consumer.keyCache keyId = true)
    (pending : next.processDeferredQRequestPending = consumer.processDeferredQRequestPending) :
    RecordAwake due next where
  pending := by
    rintro ⟨item, waits, found⟩
    rw [pending]
    exact awake.pending ⟨item, queue waits, cached _ found⟩
  due := fun up => awake.due (pending ▸ up)

theorem recordAwake_noQueue {consumer : BleConsumer} (none : consumer.deferredQueue = [])
    (notPending : consumer.processDeferredQRequestPending = false) :
    RecordAwake due consumer where
  pending := by
    rintro ⟨item, waits, _⟩
    simp [none] at waits
  due := by simp [notPending]

theorem recordAwake_setConsumer {collection : BleConsumerCollection} {index : Fin 2}
    {consumer : BleConsumer} (awake : ∀ i, RecordAwake due (collection.arr i))
    (replaced : RecordAwake due consumer) :
    ∀ i, RecordAwake due ((setConsumer collection index consumer).arr i) :=
  (Function.forall_update_iff collection.arr fun _ => RecordAwake due).mpr
    ⟨replaced, fun i _ => awake i⟩

theorem RecordAwake.stamp {consumer : BleConsumer} (awake : RecordAwake due consumer)
    (tickCount : UInt32) : RecordAwake due (stampConsumer consumer tickCount) :=
  awake.keep (List.Subset.refl _) (fun _ => id) rfl

/-! ## New frames -/

theorem recordAwake_consumerForFrame {collection : BleConsumerCollection}
    (awake : ∀ i, RecordAwake due (collection.arr i)) (mac : EspBdAddr) (tickCount : UInt32)
    (i : Fin 2) :
    RecordAwake due ((consumerForFrame collection mac tickCount).2.arr i) := by
  obtain ⟨index, _, result⟩ | ⟨_, index, _, result⟩ | ⟨_, result⟩ :=
    consumerForFrame_cases collection mac tickCount
  · rw [result]
    exact recordAwake_setConsumer awake ((awake index).stamp tickCount) i
  · have claimed : RecordAwake due (stampConsumer
        { resetBleConsumer (collection.arr index) with macAddressArr := mac } tickCount) :=
      recordAwake_noQueue rfl rfl
    rw [result]
    exact recordAwake_setConsumer awake claimed i
  · rw [result]
    exact awake i

theorem RecordAwake.hearKeyId {consumer : BleConsumer} (awake : RecordAwake due consumer)
    (tickCount : UInt32) (keyId : UInt16) :
    RecordAwake due (hearKeyId tickCount consumer keyId).2 :=
  awake.keep (List.Subset.refl _) (fun _ => isKeyInCache_of_lookup) rfl

theorem RecordAwake.handleDataPdu (mb : Mbedtls) (tickCount : UInt32) {consumer : BleConsumer}
    (counted : Counted consumer) (awake : RecordAwake due consumer) (mac : EspBdAddr)
    (pdu : BeaconPduData) (number : Nat)
    (ok : isKeyInCache consumer.keyCache
        (getKeyIdFromKeySessionData pdu.keySessionData).toUInt8 = true →
      consumer.deferredQueue ≠ [] → consumer.deferredQueue.length < deferredQueueSize →
        consumer.processDeferredQRequestPending = true) :
    RecordAwake due (handleDataPdu mb tickCount consumer mac pdu number).1 := by
  have heard := awake.hearKeyId tickCount (getKeyIdFromKeySessionData pdu.keySessionData)
  obtain ⟨key, _, _, result⟩ | ⟨reason, below, result⟩ | ⟨_, result⟩ :=
    handleDataPdu_cases mb tickCount counted mac pdu number
  · rw [result]
    exact heard
  · rw [result]
    refine ⟨?_, heard.due⟩
    rintro ⟨item, waits, found⟩
    rcases List.mem_append.mp waits with old | new
    · exact heard.pending ⟨item, old, found⟩
    · -- the frame that was just deferred, though its key is in the cache
      obtain rfl := List.mem_singleton.mp new
      have cached := isKeyInCache_of_lookup found
      refine ok cached (reason.resolve_left fun missing => ?_) below
      have isSome := getKeyFromCache_isSome consumer.keyCache
        (getKeyIdFromKeySessionData pdu.keySessionData).toUInt8 tickCount
      rw [show (getKeyFromCache consumer.keyCache _ tickCount).1 = none from missing] at isSome
      exact absurd (isSome.trans cached) (by decide)
  · rw [result]
    exact heard

theorem handleNewFrame_awake (mb : Mbedtls) (tickCount : UInt32) (stack : BeaconPduData)
    {receiver : ReceiverState} (records : RecordsSound receiver.sec.consumerCollection)
    (awake : ∀ i, RecordAwake due (receiver.sec.consumerCollection.arr i))
    (frame : BeaconPduDataWithMacAddr)
    (ok : getCommandFromPdu frame.data frame.size = dataCmd →
      ∀ index, getIndexForMacAddr receiver.sec.consumerCollection frame.macAddress = some index →
        let consumer := receiver.sec.consumerCollection.arr index
        isKeyInCache consumer.keyCache (dataKeyId stack frame).toUInt8 = true →
        consumer.deferredQueue ≠ [] → consumer.deferredQueue.length < deferredQueueSize →
          consumer.processDeferredQRequestPending = true) (i : Fin 2) :
    RecordAwake due
      ((handleNewFrame mb tickCount stack receiver frame).sec.consumerCollection.arr i) := by
  have looked := recordAwake_consumerForFrame awake frame.macAddress tickCount
  have sound := (consumerForFrame_spec records frame.macAddress tickCount).1
  have ofRecord : getCommandFromPdu frame.data frame.size = dataCmd →
      ∀ index, (consumerForFrame receiver.sec.consumerCollection frame.macAddress
        tickCount).1 = some index →
      let consumer := (consumerForFrame receiver.sec.consumerCollection frame.macAddress
        tickCount).2.arr index
      isKeyInCache consumer.keyCache (dataKeyId stack frame).toUInt8 = true →
      consumer.deferredQueue ≠ [] → consumer.deferredQueue.length < deferredQueueSize →
        consumer.processDeferredQRequestPending = true := by
    intro isData index
    obtain ⟨index', found, result⟩ | ⟨_, index', _, result⟩ | ⟨_, result⟩ :=
      consumerForFrame_cases receiver.sec.consumerCollection frame.macAddress tickCount
    · rw [result]
      rintro ⟨⟩
      simpa [setConsumer, stampConsumer] using ok isData index found
    · rw [result]
      rintro ⟨⟩
      simp [setConsumer, stampConsumer, resetBleConsumer]
    · simp [result]
  simp only [handleNewFrame]
  cases claimed : consumerForFrame receiver.sec.consumerCollection frame.macAddress tickCount with
  | mk found collection =>
      rw [claimed] at looked sound ofRecord
      cases found with
      | none => exact looked i
      | some index =>
          simp only at looked sound ofRecord ⊢
          split
          · rename_i isData
            exact recordAwake_setConsumer looked ((looked index).handleDataPdu mb tickCount
              (sound.counted index) frame.macAddress _ _ (ofRecord isData index rfl)) i
          · split
            · exact recordAwake_setConsumer looked ((looked index).hearKeyId tickCount _) i
            · exact looked i

/-! ## A completed key -/

theorem completionSetsEvent_of_added {tickCount : UInt32} {keyId : UInt8} {key : Key128b}
    {mac : EspBdAddr} {sec : SecPduProcessing} {index : Fin 2}
    (found : getIndexForMacAddr sec.consumerCollection mac = some index)
    (missing : isKeyInCache (sec.consumerCollection.arr index).keyCache keyId = false)
    (added : (addOrEvict (sec.consumerCollection.arr index).keyCache key keyId tickCount).1 = 0) :
    completionSetsEvent tickCount keyId key mac sec = true := by
  have own : ((setConsumer sec.consumerCollection index
      (stampConsumer (sec.consumerCollection.arr index) tickCount)).arr index).keyCache =
        (sec.consumerCollection.arr index).keyCache := by simp [setConsumer, stampConsumer]
  simp only [completionSetsEvent, getBleConsumerFromCollection, found, own, missing, added]
  decide

theorem keyReconstructionComplete_awake (tickCount : UInt32) (keyId : UInt8) (key : Key128b)
    (mac : EspBdAddr) {sec : SecPduProcessing}
    (awake : ∀ i, RecordAwake due (sec.consumerCollection.arr i)) (i : Fin 2) :
    RecordAwake (due ∨ completionSetsEvent tickCount keyId key mac sec = true)
      ((keyReconstructionComplete tickCount keyId key mac sec).consumerCollection.arr i) := by
  have still : ∀ i, RecordAwake (due ∨ completionSetsEvent tickCount keyId key mac sec = true)
      (sec.consumerCollection.arr i) := fun i => (awake i).mono Or.inl
  obtain ⟨_, result⟩ | ⟨index, found, ⟨result, _⟩ | ⟨missing, added, result⟩⟩ :=
    keyReconstructionComplete_cases tickCount keyId key mac sec
  · rw [result]
    exact still i
  · rw [result]
    exact recordAwake_setConsumer still ((still index).stamp tickCount) i
  · have sets := completionSetsEvent_of_added found missing added
    rw [result]
    exact recordAwake_setConsumer still ⟨fun _ => rfl, fun _ => Or.inr sets⟩ i

/-! ## Passes -/

theorem RecordPassed.awake {consumer next : BleConsumer} (passed : RecordPassed consumer next) :
    RecordAwake (next.processDeferredQRequestPending = true) next where
  pending := by
    rintro ⟨item, waits, _⟩
    exact passed.pending.mpr (List.ne_nil_of_mem waits)
  due := id

theorem processDeferredAndSignal_awake (mb : Mbedtls) (tickCount : Fin 2 → Nat → UInt32)
    {sec : SecPduProcessing} (records : RecordsSound sec.consumerCollection)
    (awake : ∀ i, RecordAwake due (sec.consumerCollection.arr i)) (i : Fin 2) :
    RecordAwake ((processDeferredAndSignal mb tickCount sec).2 = true)
      ((processDeferredAndSignal mb tickCount sec).1.consumerCollection.arr i) := by
  have again := processDeferredAndSignal_snd mb tickCount records
  obtain ⟨notPending, same⟩ | ⟨_, passed⟩ := processDeferredAndSignal_record mb tickCount records i
  · rw [same]
    exact ⟨(awake i).pending, fun pending => absurd (pending.symm.trans notPending) (by decide)⟩
  · exact passed.awake.mono fun pending => again.mpr ⟨i, pending⟩

/-! ## Runs -/

structure TasksAwake (tasks : ReceiverTasks) : Prop where
  records : RecordsSound tasks.receiver.sec.consumerCollection
  awake : ∀ i, RecordAwake (DeferredEventDue tasks) (tasks.receiver.sec.consumerCollection.arr i)

theorem tasksAwake_start (garbage : Fin 2 → Fin 5 → KeyReconstructionMap) :
    TasksAwake (startUpTasks garbage) where
  records := recordsSound_start garbage
  awake := fun _ => recordAwake_noQueue rfl rfl

theorem TasksAwake.noLostWakeUp {tasks : ReceiverTasks} (awake : TasksAwake tasks) :
    NoLostWakeUp tasks := fun index holds =>
  have pending := (awake.awake index).pending holds
  ⟨pending, (awake.awake index).due pending⟩

structure CallbackAwake (due : Prop) (state : SecPduProcessing × Bool) : Prop where
  records : RecordsSound state.1.consumerCollection
  awake : ∀ i, RecordAwake (due ∨ state.2 = true) (state.1.consumerCollection.arr i)

theorem CallbackAwake.complete {state : SecPduProcessing × Bool} (kept : CallbackAwake due state)
    (tickCount : UInt32) (keyId : UInt8) (key : Key128b) (mac : EspBdAddr) :
    CallbackAwake due (completeAndSignal tickCount keyId key mac state) := by
  have move : DataMove anyPass state.1
      (keyReconstructionComplete tickCount keyId key mac state.1) :=
    keyReconstructionComplete_move tickCount keyId key mac kept.records
  refine ⟨move.records, fun i => ?_⟩
  refine (keyReconstructionComplete_awake tickCount keyId key mac kept.awake i).mono ?_
  simp only [completeAndSignal, Bool.or_eq_true]
  tauto

theorem TasksAwake.nextKeyFragment (mb : Mbedtls) (tickCount : UInt32) {tasks : ReceiverTasks}
    (awake : TasksAwake tasks) : TasksAwake (handleNextKeyFragment mb tickCount tasks) := by
  have initial : CallbackAwake (DeferredEventDue tasks) (tasks.receiver.sec, false) :=
    ⟨awake.records, fun i => (awake.awake i).mono Or.inl⟩
  have keep : ∀ keyId key mac state, CallbackAwake (DeferredEventDue tasks) state →
      CallbackAwake (DeferredEventDue tasks) (completeAndSignal tickCount keyId key mac state) :=
    fun keyId key mac _ kept => kept.complete tickCount keyId key mac
  obtain ⟨again, called, eventGroup, events⟩ := handleNextKeyFragment_keeps mb keep initial
  refine ⟨called.records, fun i => (called.awake i).mono ?_⟩
  rw [DeferredEventDue, DeferredEventDue, eventGroup, events, Bool.or_eq_true]
  rintro ((set | taken) | isSet)
  · exact Or.inl (Or.inl set)
  · exact Or.inr taken
  · exact Or.inl (Or.inr isSet)

theorem TasksAwake.step (mb : Mbedtls) {tasks : ReceiverTasks} (step : TaskStep)
    (awake : TasksAwake tasks) (ok : DefersWhilePending tasks step) :
    TasksAwake (taskStep mb tasks step) := by
  have records := taskStep_records mb step awake.records
  obtain quiet | ⟨tickCount, stack, frame, rest, rfl, batch, result⟩ |
      ⟨tickCount, _, _, result⟩ | ⟨tickCount, _, result⟩ := taskStep_cases mb tasks step
  · refine ⟨records, fun i => ?_⟩
    rw [quiet.consumers]
    exact (awake.awake i).mono quiet.deferredEvent
  · simp only [DefersWhilePending, batch, List.head?_cons, Option.mem_some_iff,
      forall_eq'] at ok
    refine ⟨records, ?_⟩
    rw [result]
    exact handleNewFrame_awake mb tickCount stack awake.records awake.awake frame ok
  · have passed := processDeferredAndSignal_awake mb tickCount awake.records awake.awake
    refine ⟨records, ?_⟩
    rw [result]
    refine fun i => (passed i).mono fun again => Or.inl ?_
    simp [again]
  · rw [result]
    exact awake.nextKeyFragment mb tickCount

/-- A frame whose key is in the cache, put behind other frames while the flag is down, is
a lost wake-up at once. -/
theorem TasksAwake.lost (mb : Mbedtls) {tasks : ReceiverTasks} (step : TaskStep)
    (awake : TasksAwake tasks) (unguarded : ¬ DefersWhilePending tasks step) :
    ¬ NoLostWakeUp (taskStep mb tasks step) := by
  cases step with
  | nextFrame tickCount stack =>
      simp only [DefersWhilePending, Classical.not_forall] at unguarded
      obtain ⟨frame, isNext, isData, index, found, cached, someWait, room, notPending⟩ := unguarded
      obtain ⟨rest, batch⟩ : ∃ rest, tasks.pduBatch = frame :: rest :=
        List.head?_eq_some_iff.mp (Option.mem_def.mp isNext)
      have looked : consumerForFrame tasks.receiver.sec.consumerCollection frame.macAddress
          tickCount = (some index, setConsumer tasks.receiver.sec.consumerCollection index
            (stampConsumer (tasks.receiver.sec.consumerCollection.arr index) tickCount)) := by
        simp only [consumerForFrame, getBleConsumerFromCollection, found]
      obtain ⟨key, _, noneWait, _⟩ | ⟨_, _, result⟩ | ⟨full, _⟩ :=
        handleDataPdu_cases mb tickCount
          ((awake.records.counted index).stamp tickCount) frame.macAddress
          (getBeaconPduFromAdvData stack frame.data frame.size) tasks.receiver.sec.dataFramesTaken
      · exact absurd noneWait someWait
      · intro noLost
        refine notPending ((noLost index ⟨⟨getBeaconPduFromAdvData stack frame.data frame.size,
          tasks.receiver.sec.dataFramesTaken⟩, ?_, ?_⟩).1 ▸ ?_)
        all_goals
          simp only [taskStep, handleNextFrame, batch, handleNewFrame, looked, isData, if_true,
            setConsumer, Function.update_self, result]
        · exact List.mem_append_right _ (List.mem_singleton_self _)
        · exact (isKeyInCache_getKeyFromCache _ _ _).trans cached
        · rfl
      · have below : (stampConsumer (tasks.receiver.sec.consumerCollection.arr index)
            tickCount).deferredQueue.length < 80 := room
        omega
  | enqueuePdu => exact absurd trivial unguarded
  | waitForEvents => exact absurd trivial unguarded
  | receivePdus => exact absurd trivial unguarded
  | processDeferredPdus => exact absurd trivial unguarded
  | receiveKeyFragments => exact absurd trivial unguarded
  | nextKeyFragment => exact absurd trivial unguarded

/-- In every run, no wake-up is lost in any state reached exactly if every DATA frame whose
key is in the cache and that is put behind other frames of its sender finds the pending
flag of the sender up. -/
theorem no_lost_wake_up_iff (mb : Mbedtls) (garbage : Fin 2 → Fin 5 → KeyReconstructionMap)
    (steps : List TaskStep) :
    (∀ reached, reached <+: steps →
      NoLostWakeUp (run (taskStep mb) (startUpTasks garbage) reached)) ↔
    Guarded (taskStep mb) DefersWhilePending (startUpTasks garbage) steps :=
  (guarded_iff_always (fun _ step awake ok => awake.step mb step ok)
    (fun _ step awake unguarded => awake.lost mb step unguarded)
    (fun _ awake => awake.noLostWakeUp) (tasksAwake_start garbage) steps).symm

/-! ## A lost wake-up -/

/-- The frame with fragment `number` of the session `keyId` of a sender arrives. -/
def uniformFragmentArrives (keyId : UInt16) (value : UInt8) (number : FragmentNo) : TaskStep :=
  .enqueuePdu (Memory.ofList (uniformFragmentFrame keyId value number)) keyPduSize 0xA1

def sessionOneCompletes : List TaskStep :=
  (List.finRange 4).map (uniformFragmentArrives 1 1) ++
    [.waitForEvents, .receivePdus] ++ List.replicate 4 (.nextFrame 7 .zero) ++
    [.receiveKeyFragments] ++ List.replicate 4 (.nextKeyFragment 7) ++
    [.waitForEvents, .processDeferredPdus fun _ _ => 8]

/-- A frame of session 2 waits for its key, and a frame of session 1 is put behind it. -/
def lateFrameOfSessionOne : List TaskStep :=
  sessionOneCompletes ++
    [.enqueuePdu (Memory.ofList [0xFF, 0x08, 0x00, dataCmd, 0, 0, 2, 0, 0x10, 0x42]) 10 0xA1,
      .enqueuePdu (Memory.ofList [0xFF, 0x08, 0x00, dataCmd, 0, 0, 1, 0, 0x10, 0x42]) 10 0xA1,
      .waitForEvents, .receivePdus, .nextFrame 9 .zero, .nextFrame 9 .zero]

/-- The frame of session 1 could be decrypted, and nothing will make the task look at it. -/
theorem wake_up_lost :
    ¬ ∀ (mb : Mbedtls) (garbage : Fin 2 → Fin 5 → KeyReconstructionMap) (steps : List TaskStep),
      NoLostWakeUp (run (taskStep mb) (startUpTasks garbage) steps) := by
  intro always
  have awake := always tabulated blankCaches lateFrameOfSessionOne
  revert awake
  decide +kernel

end BleBroadcast.Receiver
