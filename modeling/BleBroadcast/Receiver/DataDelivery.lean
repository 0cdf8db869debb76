import Mathlib.Data.List.Sort
import Mathlib.Logic.Relation
import BleBroadcast.Receiver.DeferralRefinement

/-!
# Where the DATA frames go

Every handler of the receiver makes moves of the ledgers of the senders, and from
that: no frame is lost or delivered twice, and as long as the passes over the
deferred queues keep the order, frames are delivered in the order they were taken in.
-/

set_option autoImplicit false

namespace BleBroadcast.Receiver

open BleBroadcast.Core BleBroadcast.Lib

/-! ## Handlers make moves -/

structure DataMove (allowed : List (Nat × Outcome) → List Nat → Prop)
    (sec next : SecPduProcessing) : Prop where
  records : RecordsSound next.consumerCollection
  numbers : sec.dataFramesTaken ≤ next.dataFramesTaken
  justified : (∀ event ∈ sec.log, Justified event) → ∀ event ∈ next.log, Justified event
  ledgers : ∀ mac, mac ≠ 0 → (senderLedger sec mac).Move
    (fun number => sec.dataFramesTaken ≤ number ∧ number < next.dataFramesTaken) allowed
    (senderLedger next mac)

abbrev DataMoves (allowed : List (Nat × Outcome) → List Nat → Prop) :
    SecPduProcessing → SecPduProcessing → Prop :=
  Relation.ReflTransGen (DataMove allowed)

variable {allowed : List (Nat × Outcome) → List Nat → Prop}

theorem DataMoves.records {sec next : SecPduProcessing} (moves : DataMoves allowed sec next)
    (sound : RecordsSound sec.consumerCollection) : RecordsSound next.consumerCollection := by
  cases moves with
  | refl => exact sound
  | tail _ last => exact last.records

theorem dataMove_quiet {sec : SecPduProcessing} {collection : BleConsumerCollection}
    (processingQueue : List BeaconPduDataWithMacAddr) (sound : RecordsSound collection)
    (queues : ∀ mac, mac ≠ 0 → queueOf collection mac = queueOf sec.consumerCollection mac) :
    DataMove allowed sec
      { sec with
        processingQueue := processingQueue
        consumerCollection := collection } where
  records := sound
  numbers := Nat.le_refl _
  justified := id
  ledgers := by
    intro mac nonzero
    simp only [senderLedger, queues mac nonzero]
    exact .stay

theorem dataMove_record {sec : SecPduProcessing} (sound : RecordsSound sec.consumerCollection)
    {index : Fin 2} {consumer : BleConsumer} (counted : Counted consumer)
    (sameMac : consumer.macAddressArr = (sec.consumerCollection.arr index).macAddressArr)
    (sameQueue : consumer.deferredQueue = (sec.consumerCollection.arr index).deferredQueue) :
    DataMove allowed sec
      { sec with consumerCollection := setConsumer sec.consumerCollection index consumer } :=
  dataMove_quiet sec.processingQueue (sound.replace index counted sameMac)
    fun _ nonzero => queueOf_replace sound counted sameMac sameQueue nonzero

theorem Counted.stamp {consumer : BleConsumer} (counted : Counted consumer)
    (tickCount : UInt32) : Counted (stampConsumer consumer tickCount) :=
  ⟨counted.count, counted.room⟩

theorem heard_quiet {collection : BleConsumerCollection} (sound : RecordsSound collection)
    (index : Fin 2) (tickCount : UInt32) (keyId : UInt16) :
    RecordsSound (setConsumer collection index
      (hearKeyId tickCount (collection.arr index) keyId).2) ∧
    ∀ mac, mac ≠ 0 → queueOf (setConsumer collection index
      (hearKeyId tickCount (collection.arr index) keyId).2) mac = queueOf collection mac := by
  have counted := (sound.counted index).hearKeyId tickCount keyId
  exact ⟨sound.replace index counted rfl,
    fun mac nonzero => queueOf_replace sound counted rfl rfl nonzero⟩

theorem ledgerOf_tookKeyFragment (mac sender : EspBdAddr) (keyId : UInt16)
    (log : List ProcessingEvent) (queue : List DeferredPdu) :
    ledgerOf mac (log ++ [.tookKeyFragment sender keyId]) queue = ledgerOf mac log queue := by
  simp [ledgerOf, List.filterMap_cons, takenNumber, handedNumber, fullNumber, droppedNumber]

theorem handleNewFrame_move (mb : Mbedtls) (tickCount : UInt32) (stack : BeaconPduData)
    {receiver : ReceiverState} (sound : RecordsSound receiver.sec.consumerCollection)
    (frame : BeaconPduDataWithMacAddr) :
    DataMove allowed receiver.sec (handleNewFrame mb tickCount stack receiver frame).sec := by
  obtain ⟨records, queues, address⟩ :=
    consumerForFrame_spec sound frame.macAddress tickCount
  simp only [handleNewFrame]
  cases claimed : consumerForFrame receiver.sec.consumerCollection frame.macAddress tickCount with
  | mk found collection =>
      rw [claimed] at records queues address
      cases found with
      | none => exact dataMove_quiet _ records queues
      | some index =>
          have own := address index rfl
          simp only at own records queues ⊢
          split
          · obtain ⟨counted, sameMac, logged, ⟨arrival, arrives, arrived⟩, others⟩ :=
              handleDataPdu_ledger mb tickCount (records.counted index) frame.macAddress
                (getBeaconPduFromAdvData stack frame.data frame.size)
                receiver.sec.dataFramesTaken
            have after := records.replace index counted sameMac
            refine ⟨after, Nat.le_succ _, ?_, ?_⟩
            · intro before event member
              rcases List.mem_append.mp member with early | late
              · exact before event early
              · exact logged event late
            · intro mac nonzero
              by_cases same : mac = frame.macAddress
              · subst same
                have queue := queueOf_setConsumer_self after.distinct
                  (by rw [sameMac, own]; exact nonzero)
                rw [sameMac, own] at queue
                have before := (queues _ nonzero).symm.trans
                  (queueOf_eq records.distinct own nonzero)
                simp only [senderLedger, queue, arrived, before]
                refine .arrive _ arrival ⟨Nat.le_refl _, Nat.lt_succ_self _⟩ fun direct => ?_
                subst direct
                simp only [ledgerOf, List.map_eq_nil_iff]
                exact arrives
              · have queue : queueOf (setConsumer collection index _) mac =
                    queueOf collection mac :=
                  queueOf_setConsumer_other (by rw [own]; exact Ne.symm same)
                    (by rw [sameMac, own]; exact Ne.symm same)
                simp only [senderLedger, queue, queues mac nonzero, others mac same]
                exact .stay
          · split
            · obtain ⟨after, sameQueues⟩ := heard_quiet records index tickCount
                (fragmentElement (BeaconKeyPduData.overlay frame.data) frame.macAddress).keyId
              refine ⟨after, Nat.le_refl _, ?_, ?_⟩
              · intro before event member
                rcases List.mem_append.mp member with early | single
                · exact before event early
                · rw [List.mem_singleton.mp single]
                  trivial
              · intro mac nonzero
                simp only [senderLedger, sameQueues mac nonzero, queues mac nonzero,
                  ledgerOf_tookKeyFragment]
                exact .stay
            · exact dataMove_quiet _ records queues

theorem handleNewFrames_moves (mb : Mbedtls) (tickCount : Nat → UInt32)
    (stack : Nat → BeaconPduData) (batch : List BeaconPduDataWithMacAddr) :
    ∀ (i : Nat) (receiver : ReceiverState), RecordsSound receiver.sec.consumerCollection →
      DataMoves allowed receiver.sec (handleNewFrames mb tickCount stack i receiver batch).sec := by
  induction batch with
  | nil => exact fun _ _ _ => .refl
  | cons frame rest ih =>
      intro i receiver sound
      have one : DataMove allowed receiver.sec _ :=
        handleNewFrame_move mb (tickCount i) (stack i) sound frame
      exact .head one (ih (i + 1) _ one.records)

theorem handleEventNewPdu_moves (mb : Mbedtls) (tickCount : Nat → UInt32)
    (stack : Nat → BeaconPduData) {receiver : ReceiverState}
    (sound : RecordsSound receiver.sec.consumerCollection) :
    DataMoves allowed receiver.sec (handleEventNewPdu mb tickCount stack receiver).sec := by
  have dequeued : DataMove allowed receiver.sec { receiver.sec with
      processingQueue := receiver.sec.processingQueue.drop maxProcessedPdusAtOnce } :=
    dataMove_quiet _ sound fun _ _ => rfl
  exact .head dequeued
    (handleNewFrames_moves mb tickCount stack _ 0 { receiver with sec := _ } sound)

theorem enqueuePduForProcessing_move {sec : SecPduProcessing}
    (sound : RecordsSound sec.consumerCollection) (data : Memory) (size : Nat)
    (mac : EspBdAddr) : DataMove allowed sec (enqueuePduForProcessing sec data size mac) := by
  unfold enqueuePduForProcessing
  split
  · exact dataMove_quiet _ sound fun _ _ => rfl
  · exact dataMove_quiet sec.processingQueue sound fun _ _ => rfl

/-- What `key_reconstruction_complete` does: nothing but stamping the record, or it adds the
key and sets the flag. -/
theorem keyReconstructionComplete_cases (tickCount : UInt32) (keyId : UInt8) (key : Key128b)
    (mac : EspBdAddr) (sec : SecPduProcessing) :
    (getIndexForMacAddr sec.consumerCollection mac = none ∧
      keyReconstructionComplete tickCount keyId key mac sec = sec) ∨
    ∃ index, getIndexForMacAddr sec.consumerCollection mac = some index ∧
      let stamped := stampConsumer (sec.consumerCollection.arr index) tickCount
      ((keyReconstructionComplete tickCount keyId key mac sec =
          { sec with
            consumerCollection := setConsumer sec.consumerCollection index stamped } ∧
        (isKeyInCache stamped.keyCache keyId = true ∨
          (addOrEvict stamped.keyCache key keyId tickCount).1 ≠ 0)) ∨
      (isKeyInCache stamped.keyCache keyId = false ∧
        (addOrEvict stamped.keyCache key keyId tickCount).1 = 0 ∧
        keyReconstructionComplete tickCount keyId key mac sec =
          { sec with
            consumerCollection := setConsumer sec.consumerCollection index
              { stamped with
                keyCache := (addOrEvict stamped.keyCache key keyId tickCount).2.2
                processDeferredQRequestPending := true } })) := by
  cases found : getIndexForMacAddr sec.consumerCollection mac with
  | none =>
      refine Or.inl ⟨rfl, ?_⟩
      simp only [keyReconstructionComplete, getBleConsumerFromCollection, found]
  | some index =>
      refine Or.inr ⟨index, rfl, ?_⟩
      have own : (setConsumer sec.consumerCollection index
          (stampConsumer (sec.consumerCollection.arr index) tickCount)).arr index =
            stampConsumer (sec.consumerCollection.arr index) tickCount := by simp [setConsumer]
      simp only [keyReconstructionComplete, getBleConsumerFromCollection, found, own]
      generalize stampConsumer (sec.consumerCollection.arr index) tickCount = stamped
      cases cached : isKeyInCache stamped.keyCache keyId with
      | true => exact Or.inl ⟨rfl, Or.inl rfl⟩
      | false =>
          by_cases added : (addOrEvict stamped.keyCache key keyId tickCount).1 = 0
          · refine Or.inr ⟨rfl, added, ?_⟩
            simp [added, setConsumer]
          · refine Or.inl ⟨?_, Or.inr added⟩
            simp [added, addOrEvict_failed added, setConsumer]

theorem keyReconstructionComplete_move (tickCount : UInt32) (keyId : UInt8) (key : Key128b)
    (mac : EspBdAddr) {sec : SecPduProcessing} (sound : RecordsSound sec.consumerCollection) :
    DataMove allowed sec (keyReconstructionComplete tickCount keyId key mac sec) := by
  obtain ⟨_, result⟩ | ⟨index, _, ⟨result, _⟩ | ⟨_, _, result⟩⟩ :=
    keyReconstructionComplete_cases tickCount keyId key mac sec
  · rw [result]
    exact dataMove_quiet sec.processingQueue sound fun _ _ => rfl
  · rw [result]
    exact dataMove_record sound ((sound.counted index).stamp tickCount) rfl rfl
  · rw [result]
    exact dataMove_record sound ⟨(sound.counted index).count, (sound.counted index).room⟩ rfl rfl

theorem handleKeyFragmentsOfReceiver_moves (mb : Mbedtls) (tickCount : Nat → UInt32)
    {receiver : ReceiverState} (sound : RecordsSound receiver.sec.consumerCollection) :
    DataMoves allowed receiver.sec (handleKeyFragmentsOfReceiver mb tickCount receiver).sec := by
  refine handleEventNewKeyFragmentInQueue_keeps mb
    (fun state : Nat × SecPduProcessing => DataMoves allowed receiver.sec state.2)
    ?_ receiver.reconstructor .refl
  intro keyId key mac state moves
  exact moves.tail (keyReconstructionComplete_move _ keyId key mac (moves.records sound))

def PassAllowed (allowed : List (Nat × Outcome) → List Nat → Prop) (tickCount : Nat → UInt32)
    (consumer : BleConsumer) : Prop :=
  consumer.processDeferredQRequestPending = true →
    allowed (passOf tickCount consumer) (behindPass consumer)

theorem processPendingConsumer_move (mb : Mbedtls) (tickCount : Nat → UInt32)
    {sec : SecPduProcessing} (sound : RecordsSound sec.consumerCollection) (index : Fin 2)
    (ok : PassAllowed allowed tickCount (sec.consumerCollection.arr index)) :
    DataMove allowed sec (processPendingConsumer mb tickCount sec index) := by
  simp only [processPendingConsumer]
  split
  · rename_i pending
    obtain ⟨counted, queue, sameMac, events, logged, logs⟩ :=
      processDeferredQueue_spec mb tickCount (sound.counted index) sec.log
    generalize processDeferredQueue mb tickCount (sec.consumerCollection.arr index) sec.log =
      result at counted queue sameMac logged
    obtain ⟨processed, log⟩ := result
    simp only at counted queue sameMac logged ⊢
    obtain ⟨settled, isSettled⟩ : ∃ settled, settled =
      (if isPduInDeferredQueue processed then processed
        else { processed with processDeferredQRequestPending := false }) := ⟨_, rfl⟩
    have keeps : Counted settled ∧ settled.deferredQueue = processed.deferredQueue ∧
        settled.macAddressArr = processed.macAddressArr := by
      rw [isSettled]
      split
      · exact ⟨counted, rfl, rfl⟩
      · exact ⟨⟨counted.count, counted.room⟩, rfl, rfl⟩
    obtain ⟨countedSettled, settledQueue, settledMac⟩ := keeps
    rw [← isSettled, logged]
    have after := sound.replace index countedSettled (settledMac.trans sameMac)
    refine ⟨after, Nat.le_refl _, ?_, ?_⟩
    · intro before event member
      rcases List.mem_append.mp member with early | late
      · exact before event early
      · exact logs.justified event late
    · intro mac nonzero
      by_cases own : (sec.consumerCollection.arr index).macAddressArr = mac
      · have newQueue := queueOf_setConsumer_self after.distinct
          (by rw [settledMac, sameMac, own]; exact nonzero)
        rw [settledMac, sameMac, own, settledQueue, queue] at newQueue
        rw [own] at logs
        simp only [senderLedger, newQueue, queueOf_eq sound.distinct own nonzero]
        rw [logs.ledger sec.log (sec.consumerCollection.arr index).deferredQueue]
        exact .pass _ _ (passOf_front tickCount _) (ok pending)
      · have sameQueue : queueOf (setConsumer sec.consumerCollection index settled) mac =
            queueOf sec.consumerCollection mac :=
          queueOf_setConsumer_other own (by rw [settledMac, sameMac]; exact own)
        simp only [senderLedger, sameQueue, logs.others mac (Ne.symm own)]
        exact .stay
  · exact dataMove_quiet sec.processingQueue sound fun _ _ => rfl

theorem processPendingConsumer_other (mb : Mbedtls) (tickCount : Nat → UInt32)
    (sec : SecPduProcessing) {index other : Fin 2} (different : other ≠ index) :
    (processPendingConsumer mb tickCount sec index).consumerCollection.arr other =
      sec.consumerCollection.arr other := by
  simp only [processPendingConsumer]
  split
  · simp [setConsumer, different]
  · rfl

/-- What a step needs, for its passes to be allowed ones. -/
def StepAllowed (allowed : List (Nat × Outcome) → List Nat → Prop) (receiver : ReceiverState) :
    ReceiverStep → Prop
  | .processDeferredPdus tickCount =>
      ∀ index, PassAllowed allowed (tickCount index) (receiver.sec.consumerCollection.arr index)
  | _ => True

theorem receiverStep_moves (mb : Mbedtls) {receiver : ReceiverState}
    (sound : RecordsSound receiver.sec.consumerCollection) (step : ReceiverStep)
    (ok : StepAllowed allowed receiver step) :
    DataMoves allowed receiver.sec (receiverStep mb receiver step).sec := by
  cases step with
  | enqueuePdu data size mac => exact .single (enqueuePduForProcessing_move sound data size mac)
  | newPdu tickCount stack => exact handleEventNewPdu_moves mb tickCount stack sound
  | newKeyFragmentInQueue tickCount =>
      exact handleKeyFragmentsOfReceiver_moves mb tickCount sound
  | keyComplete tickCount keyId key mac =>
      exact .single (keyReconstructionComplete_move tickCount keyId key mac sound)
  | processDeferredPdus tickCount =>
      have first : DataMove allowed receiver.sec _ :=
        processPendingConsumer_move mb (tickCount 0) sound 0 (ok 0)
      refine .head first (.single (processPendingConsumer_move mb _ first.records 1 ?_))
      rw [processPendingConsumer_other mb _ _ (by decide)]
      exact ok 1

/-! ## What holds in every run -/

structure DataSound (sec : SecPduProcessing) : Prop where
  records : RecordsSound sec.consumerCollection
  justified : ∀ event ∈ sec.log, Justified event
  inOrder : ∀ mac, mac ≠ 0 → (senderLedger sec mac).taken.Pairwise (· < ·)
  bounded : ∀ mac, mac ≠ 0 →
    ∀ number ∈ (senderLedger sec mac).taken, number < sec.dataFramesTaken
  balanced : ∀ mac, mac ≠ 0 → (senderLedger sec mac).Balanced

theorem senderLedger_start (garbage : Fin 2 → Fin 5 → KeyReconstructionMap) {mac : EspBdAddr}
    (nonzero : mac ≠ 0) : senderLedger (startUpSecProcessing garbage).sec mac = Ledger.empty := by
  have missing : getIndexForMacAddr (createBleConsumerCollection garbage) mac = none :=
    getIndexForMacAddr_none.mpr fun _ => Ne.symm nonzero
  have noQueue : queueOf (createBleConsumerCollection garbage) mac = [] := by
    simp only [queueOf, missing]
  simp only [startUpSecProcessing, senderLedger, noQueue]
  rfl

theorem dataSound_start (garbage : Fin 2 → Fin 5 → KeyReconstructionMap) :
    DataSound (startUpSecProcessing garbage).sec where
  records := recordsSound_start garbage
  justified := by simp [startUpSecProcessing]
  inOrder := by
    intro mac nonzero
    rw [senderLedger_start garbage nonzero]
    exact List.Pairwise.nil
  bounded := by
    intro mac nonzero
    rw [senderLedger_start garbage nonzero]
    simp [Ledger.empty]
  balanced := by
    intro mac nonzero
    rw [senderLedger_start garbage nonzero]
    exact Ledger.balanced_empty

theorem DataSound.move {sec next : SecPduProcessing} (sound : DataSound sec)
    (move : DataMove allowed sec next) : DataSound next where
  records := move.records
  justified := move.justified sound.justified
  inOrder := by
    intro mac nonzero
    exact (move.ledgers mac nonzero).taken_pairwise (sound.inOrder mac nonzero)
      fun _ fresh other member =>
        Nat.lt_of_lt_of_le (sound.bounded mac nonzero other member) fresh.1
  bounded := by
    intro mac nonzero
    refine (move.ledgers mac nonzero).taken_forall (fun number member => ?_)
      fun _ fresh => fresh.2
    exact Nat.lt_of_lt_of_le (sound.bounded mac nonzero number member) move.numbers
  balanced := fun mac nonzero => (move.ledgers mac nonzero).balanced (sound.balanced mac nonzero)

theorem DataSound.moves {sec next : SecPduProcessing} (sound : DataSound sec)
    (moves : DataMoves allowed sec next) : DataSound next := by
  induction moves with
  | refl => exact sound
  | tail _ last ih => exact ih.move last

structure InOrderSound (sec : SecPduProcessing) : Prop where
  sound : DataSound sec
  ordered : ∀ mac, mac ≠ 0 → (senderLedger sec mac).Ordered (· < ·)

theorem InOrderSound.moves {sec next : SecPduProcessing} (sound : InOrderSound sec)
    (moves : DataMoves Ledger.KeepsOrder sec next) : InOrderSound next := by
  induction moves with
  | refl => exact sound
  | tail _ last ih =>
      refine ⟨ih.sound.move last, fun mac nonzero => ?_⟩
      refine (last.ledgers mac nonzero).ordered (ih.ordered mac nonzero)
        (ih.sound.balanced mac nonzero) fun _ fresh other member => ?_
      exact Nat.lt_of_lt_of_le (ih.sound.bounded mac nonzero other member) fresh.1

def anyPass (_ : List (Nat × Outcome)) (_ : List Nat) : Prop := True

theorem stepAllowed_anyPass (receiver : ReceiverState) (step : ReceiverStep) :
    StepAllowed anyPass receiver step := by
  cases step <;> simp [StepAllowed, PassAllowed, anyPass]

theorem run_dataSound (mb : Mbedtls) (garbage : Fin 2 → Fin 5 → KeyReconstructionMap)
    (steps : List ReceiverStep) :
    DataSound (run (receiverStep mb) (startUpSecProcessing garbage) steps).sec :=
  run_preserves (fun receiver : ReceiverState => DataSound receiver.sec)
    (fun receiver step sound => sound.moves
      (receiverStep_moves mb sound.records step (stepAllowed_anyPass receiver step)))
    (dataSound_start garbage) steps

/-! ## Concrete runs -/

instance stepAllowedDecidable
    [∀ batch rest, Decidable (allowed batch rest)] (receiver : ReceiverState) :
    ∀ step, Decidable (StepAllowed allowed receiver step)
  | .enqueuePdu _ _ _ => isTrue trivial
  | .newPdu _ _ => isTrue trivial
  | .newKeyFragmentInQueue _ => isTrue trivial
  | .keyComplete _ _ _ _ => isTrue trivial
  | .processDeferredPdus tickCount =>
      inferInstanceAs (Decidable (∀ index,
        (receiver.sec.consumerCollection.arr index).processDeferredQRequestPending = true →
          allowed (passOf (tickCount index) (receiver.sec.consumerCollection.arr index))
            (behindPass (receiver.sec.consumerCollection.arr index))))

/-- A DATA frame of the session `keyId` with one payload byte arrives. -/
def dataFrameArrives (keyId : UInt8) : ReceiverStep :=
  .enqueuePdu (Memory.ofList [0xFF, 0x08, 0x00, dataCmd, 0, 0, keyId, 0, 0x10, 0x42]) 10 0xA1

def processNewPdus : ReceiverStep := .newPdu (fun _ => 7) (fun _ => .zero)

def keyArrives (keyId : UInt8) : ReceiverStep := .keyComplete 7 keyId (fun _ => keyId) 0xA1

def processDeferred : ReceiverStep := .processDeferredPdus fun _ _ => 8

def blankCaches : Fin 2 → Fin 5 → KeyReconstructionMap := fun _ _ => ⟨fun _ => 0, 0, ⟨0, 0⟩⟩

def threeFrames : List ReceiverStep :=
  [dataFrameArrives 1, dataFrameArrives 1, processNewPdus, keyArrives 1, processDeferred,
    dataFrameArrives 1, processNewPdus]

/-! ## Conservation -/

/-- A DATA frame taken for a sender is, at any time, either handed over once, or in the
deferred queue once, or was rejected by a full queue, or dropped without a key and with
an id other than the one heard last.  Nothing is ever lost in putting it back, and the
counters of all records count their queues. -/
theorem data_frames_conserved (mb : Mbedtls) (garbage : Fin 2 → Fin 5 → KeyReconstructionMap)
    (steps : List ReceiverStep) (mac : EspBdAddr) (nonzero : mac ≠ 0) :
    let sec := (run (receiverStep mb) (startUpSecProcessing garbage) steps).sec
    (∀ number ∈ sec.log.filterMap (takenNumber mac),
      (sec.log.filterMap (handedNumber mac)).count number +
        (sec.log.filterMap (fullNumber mac)).count number +
        (sec.log.filterMap (droppedNumber mac)).count number +
        ((queueOf sec.consumerCollection mac).map DeferredPdu.arrival).count number = 1) ∧
    (∀ sender number queued, .full sender number queued ∈ sec.log → queued = deferredQueueSize) ∧
    (∀ sender number keyId lastPduKeyId cached,
      .dropped sender number keyId lastPduKeyId cached ∈ sec.log →
        cached = false ∧ keyId ≠ lastPduKeyId) ∧
    (∀ sender number, .lost sender number ∉ sec.log) ∧
    ∀ i, (sec.consumerCollection.arr i).deferredQueueCount.toNat =
      (sec.consumerCollection.arr i).deferredQueue.length := by
  intro sec
  have sound : DataSound sec := run_dataSound mb garbage steps
  refine ⟨fun number member => ?_, ?_, ?_, ?_, fun i => (sound.records.counted i).count⟩
  · exact (sound.balanced mac nonzero).count_eq_one
      ((sound.inOrder mac nonzero).imp fun below => Nat.ne_of_lt below) member
  · exact fun sender number queued member => sound.justified _ member
  · exact fun sender number keyId lastPduKeyId cached member => sound.justified _ member
  · exact fun sender number member => sound.justified _ member

theorem data_frames_conserved_three_frames :
    let sec := (run (receiverStep tabulated) (startUpSecProcessing blankCaches) threeFrames).sec
    sec.log.filterMap (takenNumber 0xA1) = [0, 1, 2] ∧
    (sec.log.filterMap (handedNumber 0xA1)).count 2 +
      (sec.log.filterMap (fullNumber 0xA1)).count 2 +
      (sec.log.filterMap (droppedNumber 0xA1)).count 2 +
      ((queueOf sec.consumerCollection 0xA1).map DeferredPdu.arrival).count 2 = 1 :=
  ⟨by decide +kernel,
    (data_frames_conserved tabulated blankCaches threeFrames 0xA1 (by decide)).1 2
      (by decide +kernel)⟩

/-! ## Order -/

def DeliveredInOrder (sec : SecPduProcessing) (mac : EspBdAddr) : Prop :=
  (sec.log.filterMap (handedNumber mac)).Sublist (sec.log.filterMap (takenNumber mac))

instance deliveredInOrderDecidable (sec : SecPduProcessing) (mac : EspBdAddr) :
    Decidable (DeliveredInOrder sec mac) :=
  inferInstanceAs (Decidable (List.Sublist _ _))

theorem InOrderSound.delivered {sec : SecPduProcessing} (sound : InOrderSound sec)
    {mac : EspBdAddr} (nonzero : mac ≠ 0) : DeliveredInOrder sec mac := by
  have inOrder : (senderLedger sec mac).taken.Pairwise (· < ·) := sound.sound.inOrder mac nonzero
  have handedInOrder : (senderLedger sec mac).handed.Pairwise (· < ·) :=
    (List.pairwise_append.mp (sound.ordered mac nonzero)).1
  have handedTaken : (senderLedger sec mac).handed ⊆ (senderLedger sec mac).taken :=
    fun number member => (sound.sound.balanced mac nonzero).mem_taken
      (List.mem_append_left _ member)
  have once : (senderLedger sec mac).handed.Nodup :=
    handedInOrder.imp fun below => Nat.ne_of_lt below
  exact List.sublist_of_subperm_of_pairwise (once.subperm handedTaken) handedInOrder inOrder

/-- As long as no pass over a deferred queue hands a frame over after putting an earlier
one back, or puts one back behind frames that were not in the batch, the frames of every
sender are handed over in the order they were taken in. -/
theorem delivered_in_order_when (mb : Mbedtls)
    (garbage : Fin 2 → Fin 5 → KeyReconstructionMap) (steps : List ReceiverStep)
    (guarded : Guarded (receiverStep mb) (StepAllowed Ledger.KeepsOrder)
      (startUpSecProcessing garbage) steps)
    (mac : EspBdAddr) (nonzero : mac ≠ 0) :
    DeliveredInOrder (run (receiverStep mb) (startUpSecProcessing garbage) steps).sec mac := by
  have initial : InOrderSound (startUpSecProcessing garbage).sec := by
    refine ⟨dataSound_start garbage, fun sender nonzero => ?_⟩
    rw [senderLedger_start garbage nonzero]
    exact List.Pairwise.nil
  have keep : ∀ (receiver : ReceiverState) (step : ReceiverStep), InOrderSound receiver.sec →
      StepAllowed Ledger.KeepsOrder receiver step →
        InOrderSound (receiverStep mb receiver step).sec :=
    fun receiver step sound ok => sound.moves (receiverStep_moves mb sound.sound.records step ok)
  exact (guarded.preserves keep initial).delivered nonzero

theorem delivered_in_order_three_frames :
    let sec := (run (receiverStep tabulated) (startUpSecProcessing blankCaches) threeFrames).sec
    sec.log.filterMap (handedNumber 0xA1) = [0, 1, 2] ∧ DeliveredInOrder sec 0xA1 :=
  ⟨by decide +kernel,
    delivered_in_order_when tabulated blankCaches threeFrames (by decide +kernel) 0xA1 (by decide)⟩

/-- A frame of session 1, then twenty of session 2.  The key of session 1 comes first, so
the first pass puts 19 frames back behind the last one. -/
def twoSessions : List ReceiverStep :=
  dataFrameArrives 1 :: List.replicate 20 (dataFrameArrives 2) ++
    [processNewPdus, processNewPdus, keyArrives 1, processDeferred, keyArrives 2, processDeferred]

theorem delivered_out_of_order :
    ¬ ∀ (mb : Mbedtls) (garbage : Fin 2 → Fin 5 → KeyReconstructionMap)
      (steps : List ReceiverStep) (mac : EspBdAddr), mac ≠ 0 →
      DeliveredInOrder (run (receiverStep mb) (startUpSecProcessing garbage) steps).sec mac := by
  intro always
  have inOrder := always tabulated blankCaches twoSessions 0xA1 (by decide)
  revert inOrder
  decide +kernel

end BleBroadcast.Receiver
