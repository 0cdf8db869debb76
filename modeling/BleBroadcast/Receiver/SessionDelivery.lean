import BleBroadcast.Receiver.SessionFrames

/-!
# Delivery of a session

One session of one sender is heard, in any order of the handlers.  The receiver always
comes to rest, and if it never had to refuse a frame and the four fragments of the key
were among those heard, then at rest the observers have been told the payload of every
DATA frame, once and in the order the frames were enqueued in.
-/

set_option autoImplicit false

namespace BleBroadcast.Receiver

open BleBroadcast.Core BleBroadcast.Lib

section Step
variable {mb : Mbedtls} {mac : EspBdAddr} {keyId : UInt16} {key : Key128b}
  {frames : List BeaconPduDataWithMacAddr} {processed : List ReconstructorQueueElement}
  {there : Bool} {receiver : ReceiverState}

/-! ## The other handlers -/

theorem OwnRecord.processDeferredPdus {sec : SecPduProcessing} {index : Fin 2}
    (own : OwnRecord mac sec.consumerCollection index) (mb : Mbedtls)
    (tickCount : Fin 2 → Nat → UInt32) :
    handleEventProcessDeferredPdus mb tickCount sec =
      processPendingConsumer mb (tickCount index) sec index := by
  have idle : ∀ (other : Fin 2) (sec : SecPduProcessing),
      (sec.consumerCollection.arr other).processDeferredQRequestPending = false →
      processPendingConsumer mb (tickCount other) sec other = sec := by
    intro other sec none
    simp [processPendingConsumer, none]
  have passes : handleEventProcessDeferredPdus mb tickCount sec =
      processPendingConsumer mb (tickCount 1) (processPendingConsumer mb (tickCount 0) sec 0) 1 :=
    rfl
  rw [passes]
  have either : ∀ i : Fin 2, i = 0 ∨ i = 1 := by decide
  rcases either index with rfl | rfl
  · refine idle 1 _ ?_
    rw [processPendingConsumer_other mb _ _ (by decide)]
    exact own.others 1 (by decide)
  · rw [idle 0 sec (own.others 0 (by decide))]

theorem Unheard.processDeferredPdus (unheard : Unheard mb mac keyId key processed receiver)
    (tickCount : Fin 2 → Nat → UInt32) :
    handleEventProcessDeferredPdus mb tickCount receiver.sec = receiver.sec := by
  have first : processPendingConsumer mb (tickCount 0) receiver.sec 0 = receiver.sec := by
    simp [processPendingConsumer, (unheard.unclaimed 0).idle]
  have second : processPendingConsumer mb (tickCount 1) receiver.sec 1 = receiver.sec := by
    simp [processPendingConsumer, (unheard.unclaimed 1).idle]
  have passes : handleEventProcessDeferredPdus mb tickCount receiver.sec =
      processPendingConsumer mb (tickCount 1)
        (processPendingConsumer mb (tickCount 0) receiver.sec 0) 1 := rfl
  rw [passes, first, second]

theorem arrivalsHanded_handedEvents (mb : Mbedtls) (mac : EspBdAddr) (key : Key128b)
    (items : List DeferredPdu) :
    arrivalsHanded (handedEvents mb mac key items) = items.map DeferredPdu.arrival := by
  induction items with
  | nil => rfl
  | cons item rest ih =>
      have one : handedEvents mb mac key (item :: rest) =
          handedEvents mb mac key [item] ++ handedEvents mb mac key rest := rfl
      rw [one, arrivalsHanded_append, ih]
      rfl

structure PassTaken (mb : Mbedtls) (mac : EspBdAddr) (keyId : UInt16) (key : Key128b)
    (frames : List BeaconPduDataWithMacAddr) (processed : List ReconstructorQueueElement)
    (there : Bool) (receiver next : ReceiverState) : Prop where
  held : SessionHeld mb mac keyId key frames processed there next
  kept : NothingLost mb mac frames processed there receiver →
    NothingLost mb mac frames processed there next
  reconstructor : next.reconstructor = receiver.reconstructor
  processingQueue : next.sec.processingQueue = receiver.sec.processingQueue
  shorter : there = true → queueOf next.sec.consumerCollection mac =
    (queueOf receiver.sec.consumerCollection mac).drop maxProcessedPdusAtOnce
  settled : ∀ i, (next.sec.consumerCollection.arr i).processDeferredQRequestPending = true →
    there = true ∧ queueOf next.sec.consumerCollection mac ≠ []

theorem passTaken_idle (held : SessionHeld mb mac keyId key frames processed there receiver)
    (idle : ∀ i, (receiver.sec.consumerCollection.arr i).processDeferredQRequestPending = false)
    (empty : there = true → queueOf receiver.sec.consumerCollection mac = []) :
    PassTaken mb mac keyId key frames processed there receiver receiver where
  held := held
  kept := id
  reconstructor := rfl
  processingQueue := rfl
  shorter := fun isThere => by rw [empty isThere, List.drop_nil]
  settled := fun i pending => by
    rw [idle i] at pending
    contradiction

theorem SessionHeld.processDeferredPdus
    (held : SessionHeld mb mac keyId key frames processed there receiver) (nonzero : mac ≠ 0)
    (used : keyId.toUInt8 ≠ 0) (tickCount : Fin 2 → Nat → UInt32) :
    PassTaken mb mac keyId key frames processed there receiver
      { receiver with sec := handleEventProcessDeferredPdus mb tickCount receiver.sec } := by
  rcases held.phase with ⟨rfl, unheard⟩ | ⟨index, own, phase⟩
  · rw [unheard.processDeferredPdus tickCount]
    exact passTaken_idle held (fun i => (unheard.unclaimed i).idle)
      fun absurd => Bool.noConfusion absurd
  · have queue := own.queue held.records nonzero
    have counted := held.records.counted index
    by_cases pending :
        (receiver.sec.consumerCollection.arr index).processDeferredQRequestPending = true
    · cases there with
      | false =>
          rw [phase.1.idle] at pending
          contradiction
      | true =>
          obtain ⟨has, fed⟩ := phase
          obtain ⟨hasNext, shorter, logged, settled⟩ := has.processPendingConsumer mb
            (tickCount index) counted used (held.items index) pending
          have records : RecordsSound (processPendingConsumer mb (tickCount index) receiver.sec
              index).consumerCollection := by
            have move : DataMove anyPass receiver.sec _ :=
              processPendingConsumer_move mb (tickCount index) held.records index fun _ => trivial
            exact move.records
          have others : ∀ i, i ≠ index → (processPendingConsumer mb (tickCount index) receiver.sec
              index).consumerCollection.arr i = receiver.sec.consumerCollection.arr i :=
            fun i elsewhere => processPendingConsumer_other mb _ _ elsewhere
          have ownNext : OwnRecord mac (processPendingConsumer mb (tickCount index) receiver.sec
              index).consumerCollection index := by
            obtain ⟨passed, _⟩ :=
              processPendingConsumer_passed mb (tickCount index) counted pending
            refine ⟨passed.macAddress.trans own.address, fun i elsewhere => ?_⟩
            rw [others i elsewhere]
            exact own.others i elsewhere
          have queueNext := ownNext.queue records nonzero
          have frame : (processPendingConsumer mb (tickCount index) receiver.sec
                index).processingQueue = receiver.sec.processingQueue ∧
              (processPendingConsumer mb (tickCount index) receiver.sec index).dataFramesTaken =
                receiver.sec.dataFramesTaken := by
            simp only [processPendingConsumer, if_pos pending, and_self]
          have custody := held.custody.processDeferredPdus held.records tickCount
          rw [own.processDeferredPdus mb tickCount] at custody ⊢
          refine ⟨⟨records, by rw [frame.1]; exact held.waiting, held.taken, held.queued, custody,
            Or.inr ⟨index, ownNext, hasNext, fed⟩⟩, fun lost => ⟨?_, ?_⟩, rfl, frame.1,
            fun _ => ?_, fun i waits => ⟨rfl, ?_⟩⟩
          · simp only [queueNext, shorter, logged, frame.2, arrivalsHanded_append,
              arrivalsHanded_handedEvents, List.append_assoc, ← List.map_append,
              List.take_append_drop, ← queue]
            exact lost.order
          · exact fun absurd => Bool.noConfusion absurd
          · rw [queueNext, queue]
            exact shorter
          · rw [queueNext]
            by_cases here : i = index
            · rw [here] at waits
              exact settled waits
            · rw [others i here, own.others i here] at waits
              contradiction
    · have idle : ∀ i,
          (receiver.sec.consumerCollection.arr i).processDeferredQRequestPending = false := by
        intro i
        by_cases here : i = index
        · rw [here]
          exact Bool.eq_false_of_not_eq_true pending
        · exact own.others i here
      rw [own.processDeferredPdus mb tickCount,
        show processPendingConsumer mb (tickCount index) receiver.sec index = receiver.sec from
          if_neg pending]
      refine passTaken_idle held idle fun isThere => ?_
      subst isThere
      rw [queue]
      exact Classical.byContradiction fun waits => pending (phase.1.awake waits)

structure ElementsTaken (mb : Mbedtls) (mac : EspBdAddr) (keyId : UInt16) (key : Key128b)
    (frames : List BeaconPduDataWithMacAddr) (processed : List ReconstructorQueueElement)
    (there : Bool) (receiver next : ReceiverState) : Prop where
  held : ∃ later, SessionHeld mb mac keyId key frames
      (processed ++ receiver.reconstructor.xQueueKeyReconstruction.take maxKeyProcessesAtOnce) later
      next ∧
    (NothingLost mb mac frames processed there receiver → NothingLost mb mac frames
      (processed ++ receiver.reconstructor.xQueueKeyReconstruction.take maxKeyProcessesAtOnce) later
      next)
  processingQueue : next.sec.processingQueue = receiver.sec.processingQueue
  queue : next.reconstructor.xQueueKeyReconstruction =
    receiver.reconstructor.xQueueKeyReconstruction.drop maxKeyProcessesAtOnce

theorem SessionHeld.handleKeyFragments
    (held : SessionHeld mb mac keyId key frames processed there receiver) (nonzero : mac ≠ 0)
    (used : keyId.toUInt8 ≠ 0) (tickCount : Nat → UInt32) :
    ElementsTaken mb mac keyId key frames processed there receiver
      (handleKeyFragmentsOfReceiver mb tickCount receiver) := by
  rcases held.phase with ⟨rfl, unheard⟩ | ⟨index, own, phase⟩
  · have none := unheard.noElement.2
    have unchanged : handleKeyFragmentsOfReceiver mb tickCount receiver = receiver := by
      simp only [handleKeyFragmentsOfReceiver, handleEventNewKeyFragmentInQueue, none,
        List.take_nil, List.drop_nil, Receiver.handleKeyFragments, List.foldl_nil]
      rw [← none]
    rw [unchanged]
    refine ⟨⟨false, ?_⟩, rfl, by rw [none, List.drop_nil]⟩
    rw [none, List.take_nil, List.append_nil]
    exact ⟨held, id⟩
  · obtain ⟨kept, later, toLater, next⟩ := phase.handleKeyFragments nonzero used tickCount
      (receiver.reconstructor.xQueueKeyReconstruction.take maxKeyProcessesAtOnce) 0 held.records own
      fun element member => held.queued element (List.mem_of_mem_take member)
    simp only [handleKeyFragmentsOfReceiver, handleEventNewKeyFragmentInQueue]
    generalize Receiver.handleKeyFragments mb _ _ _ = result at kept next ⊢
    obtain ⟨km, made, sec⟩ := result
    refine ⟨⟨later, ⟨kept.records, ?_, held.taken, ?_, kept.custody _ held.custody,
      Or.inr ⟨index, kept.own, next⟩⟩, fun lost => ⟨?_, ?_⟩⟩, kept.processingQueue, rfl⟩
    · rw [kept.processingQueue]
      exact held.waiting
    · exact fun element member => held.queued element (List.mem_of_mem_drop member)
    · have log : sec.log = receiver.sec.log := kept.log
      have numbers : sec.dataFramesTaken = receiver.sec.dataFramesTaken := kept.numbers
      have queue : queueOf sec.consumerCollection mac =
          queueOf receiver.sec.consumerCollection mac := by
        rw [kept.own.queue kept.records nonzero, own.queue held.records nonzero]
        exact kept.queue
      rw [log, numbers, queue]
      exact lost.order
    · intro notYet frame member genuine
      simp only [List.append_assoc, List.take_append_drop]
      refine lost.atHand ?_ frame member genuine
      cases there with
      | false => rfl
      | true =>
          rw [toLater rfl] at notYet
          contradiction

/-! ## Steps -/

def enqueuedFrames (steps : List ReceiverStep) : List BeaconPduDataWithMacAddr :=
  steps.filterMap fun
    | .enqueuePdu data size mac => some ⟨fun i => if i < size then data i else 0, size, mac⟩
    | _ => none

theorem enqueuedFrames_cons (step : ReceiverStep) (rest : List ReceiverStep) :
    enqueuedFrames (step :: rest) = enqueuedFrames [step] ++ enqueuedFrames rest := by
  cases step <;> rfl

/-- No queue refuses what the step puts on it. -/
def StepFits (mac : EspBdAddr) (receiver : ReceiverState) : ReceiverStep → Prop
  | .enqueuePdu _ _ _ => receiver.sec.processingQueue.length < maxProcessingQueueElements
  | .newPdu _ _ =>
      FrameRoom mac receiver (receiver.sec.processingQueue.take maxProcessedPdusAtOnce)
  | _ => True

instance stepFitsDecidable (mac : EspBdAddr) (receiver : ReceiverState) :
    ∀ step, Decidable (StepFits mac receiver step)
  | .enqueuePdu _ _ _ => inferInstanceAs (Decidable (_ < _))
  | .newPdu _ _ => inferInstanceAs (Decidable (_ ∧ _))
  | .newKeyFragmentInQueue _ => isTrue trivial
  | .keyComplete _ _ _ _ => isTrue trivial
  | .processDeferredPdus _ => isTrue trivial

structure QueuesWithin (receiver : ReceiverState) : Prop where
  frames : receiver.sec.processingQueue.length ≤ maxProcessingQueueElements
  fragments : receiver.reconstructor.xQueueKeyReconstruction.length ≤ maxElementsInQueue

structure SessionStepped (mb : Mbedtls) (mac : EspBdAddr) (keyId : UInt16) (key : Key128b)
    (frames : List BeaconPduDataWithMacAddr) (processed : List ReconstructorQueueElement)
    (there : Bool) (receiver : ReceiverState) (step : ReceiverStep)
    (framesNext : List BeaconPduDataWithMacAddr) (processedNext : List ReconstructorQueueElement)
    (thereNext : Bool) (next : ReceiverState) : Prop where
  held : SessionHeld mb mac keyId key framesNext processedNext thereNext next
  within : QueuesWithin next
  kept : StepFits mac receiver step → NothingLost mb mac frames processed there receiver →
    NothingLost mb mac framesNext processedNext thereNext next ∧
      framesNext ++ next.sec.processingQueue =
        frames ++ receiver.sec.processingQueue ++ enqueuedFrames [step]

theorem SessionHeld.newPdu (held : SessionHeld mb mac keyId key frames processed there receiver)
    (nonzero : mac ≠ 0) (used : keyId.toUInt8 ≠ 0) (tickCount : Nat → UInt32)
    (stack : Nat → BeaconPduData) :
    BatchTaken mb mac keyId key frames processed there
      { receiver with
        sec := { receiver.sec with
          processingQueue := receiver.sec.processingQueue.drop maxProcessedPdusAtOnce } }
      (receiver.sec.processingQueue.take maxProcessedPdusAtOnce)
      (handleEventNewPdu mb tickCount stack receiver) := by
  refine SessionHeld.handleNewFrames nonzero used tickCount stack _ 0 ?_
    fun frame member => held.waiting frame (List.mem_of_mem_take member)
  exact ⟨held.records, fun frame member => held.waiting frame (List.mem_of_mem_drop member),
    held.taken, held.queued, held.custody.quiet rfl rfl rfl,
    held.phase.imp (fun early => ⟨early.1, ⟨early.2.unclaimed, early.2.count,
      early.2.noneHanded, early.2.noElement, early.2.fed⟩⟩) id⟩

theorem SessionHeld.step (held : SessionHeld mb mac keyId key frames processed there receiver)
    (within : QueuesWithin receiver) (nonzero : mac ≠ 0) (used : keyId.toUInt8 ≠ 0)
    {step : ReceiverStep} (ofSession : OfSender (SessionFrame mb mac keyId key) step) :
    ∃ framesNext processedNext thereNext,
      SessionStepped mb mac keyId key frames processed there receiver step framesNext processedNext
        thereNext (receiverStep mb receiver step) := by
  cases step with
  | enqueuePdu data size sender =>
      refine ⟨frames, processed, there, ?_⟩
      simp only [receiverStep, enqueuePduForProcessing]
      by_cases room : receiver.sec.processingQueue.length < maxProcessingQueueElements
      · rw [if_pos room]
        refine ⟨⟨held.records, ?_, held.taken, held.queued, held.custody.quiet rfl rfl rfl,
          held.phase.imp (fun early => ⟨early.1, ⟨early.2.unclaimed, early.2.count,
            early.2.noneHanded, early.2.noElement, early.2.fed⟩⟩) id⟩,
          ⟨?_, within.fragments⟩, fun _ lost => ⟨⟨lost.order, lost.atHand⟩, ?_⟩⟩
        · intro frame member
          rcases List.mem_append.mp member with old | new
          · exact held.waiting frame old
          · rw [List.mem_singleton.mp new]
            exact ofSession
        · rw [List.length_append]
          exact room
        · exact (List.append_assoc ..).symm
      · rw [if_neg room]
        exact ⟨held, within, fun fits => absurd fits room⟩
  | newPdu tickCount stack =>
      have taken := held.newPdu nonzero used tickCount stack
      refine ⟨_, _, _, taken.held, ⟨?_, taken.within within.fragments⟩, fun fits lost =>
        ⟨taken.kept fits ⟨lost.order, lost.atHand⟩, ?_⟩⟩
      · have shorter := within.frames
        rw [receiverStep, taken.processingQueue, List.length_drop]
        omega
      · rw [receiverStep, taken.processingQueue, List.append_assoc, List.take_append_drop]
        exact (List.append_nil _).symm
  | newKeyFragmentInQueue tickCount =>
      have taken := held.handleKeyFragments nonzero used tickCount
      obtain ⟨later, heldNext, keptNext⟩ := taken.held
      refine ⟨_, _, _, heldNext, ⟨?_, ?_⟩, fun _ lost => ⟨keptNext lost, ?_⟩⟩
      · rw [receiverStep, taken.processingQueue]
        exact within.frames
      · have shorter := within.fragments
        rw [receiverStep, taken.queue, List.length_drop]
        omega
      · rw [receiverStep, taken.processingQueue]
        exact (List.append_nil _).symm
  | keyComplete => exact absurd ofSession id
  | processDeferredPdus tickCount =>
      have taken := held.processDeferredPdus nonzero used tickCount
      refine ⟨_, _, _, taken.held, ⟨?_, within.fragments⟩, fun _ lost => ⟨taken.kept lost, ?_⟩⟩
      · rw [receiverStep, taken.processingQueue]
        exact within.frames
      · rw [receiverStep, taken.processingQueue]
        exact (List.append_nil _).symm

end Step

/-! ## Runs -/

section Runs
variable {mb : Mbedtls} {mac : EspBdAddr} {keyId : UInt16} {key : Key128b}

/-- A run of the session: where it stands, and that nothing is lost if every step fits. -/
theorem SessionHeld.run (nonzero : mac ≠ 0) (used : keyId.toUInt8 ≠ 0)
    (steps : List ReceiverStep) :
    ∀ {frames : List BeaconPduDataWithMacAddr} {processed : List ReconstructorQueueElement}
      {there : Bool} {receiver : ReceiverState},
      SessionHeld mb mac keyId key frames processed there receiver → QueuesWithin receiver →
      (∀ step ∈ steps, OfSender (SessionFrame mb mac keyId key) step) →
      let final := run (receiverStep mb) receiver steps
      ∃ framesNext processedNext thereNext,
        SessionHeld mb mac keyId key framesNext processedNext thereNext final ∧
        QueuesWithin final ∧
        (Guarded (receiverStep mb) (StepFits mac) receiver steps →
          NothingLost mb mac frames processed there receiver →
          NothingLost mb mac framesNext processedNext thereNext final ∧
            framesNext ++ final.sec.processingQueue =
              frames ++ receiver.sec.processingQueue ++ enqueuedFrames steps) := by
  induction steps with
  | nil =>
      intro frames processed there receiver held within _
      exact ⟨frames, processed, there, held, within,
        fun _ lost => ⟨lost, (List.append_nil _).symm⟩⟩
  | cons step rest ih =>
      intro frames processed there receiver held within ofSession
      obtain ⟨framesNext, processedNext, thereNext, stepped⟩ :=
        held.step within nonzero used (ofSession step List.mem_cons_self)
      obtain ⟨framesLast, processedLast, thereLast, heldLast, withinLast, kept⟩ :=
        ih stepped.held stepped.within fun other member =>
          ofSession other (List.mem_cons_of_mem _ member)
      refine ⟨framesLast, processedLast, thereLast, heldLast, withinLast, fun guarded lost => ?_⟩
      obtain ⟨lostNext, framesOne⟩ := stepped.kept guarded.1 lost
      obtain ⟨lostLast, framesRest⟩ := kept guarded.2 lostNext
      refine ⟨lostLast, ?_⟩
      rw [enqueuedFrames_cons, ← List.append_assoc, ← framesOne]
      exact framesRest

/-- Nothing waits in the queues, and no pass is pending. -/
structure AtRest (receiver : ReceiverState) : Prop where
  processingQueue : receiver.sec.processingQueue = []
  fragments : receiver.reconstructor.xQueueKeyReconstruction = []
  idle : ∀ i, (receiver.sec.consumerCollection.arr i).processDeferredQRequestPending = false

def BringsFragments (mb : Mbedtls) (frames : List BeaconPduDataWithMacAddr) : Prop :=
  ∀ number : FragmentNo, ∃ frame ∈ fragmentFrames frames,
    frame.element.tagMatches mb = true ∧ frame.element.keyFragmentNo = number

theorem SessionHeld.hasKey {frames : List BeaconPduDataWithMacAddr}
    {processed : List ReconstructorQueueElement} {there : Bool} {receiver : ReceiverState}
    (held : SessionHeld mb mac keyId key frames processed there receiver)
    (lost : NothingLost mb mac frames processed there receiver)
    (drained : receiver.reconstructor.xQueueKeyReconstruction = [])
    (all : BringsFragments mb frames) :
    ∃ index, OwnRecord mac receiver.sec.consumerCollection index ∧
      HasKey keyId key (receiver.sec.consumerCollection.arr index) receiver.sec.log := by
  have collected : there = false →
      ∀ number, number ∈ (genuineFragments mb processed).map Prod.fst := by
    intro notYet number
    obtain ⟨frame, member, genuine, isNumber⟩ := all number
    have atHand := lost.atHand notYet frame member genuine
    rw [drained, List.append_nil, isNumber] at atHand
    exact atHand
  rcases held.phase with ⟨notYet, unheard⟩ | ⟨index, own, phase⟩
  · have none := collected notYet 0
    rw [unheard.noElement.1] at none
    exact absurd none List.not_mem_nil
  · cases there with
    | true => exact ⟨index, own, phase.1⟩
    | false =>
        obtain ⟨_, notFull⟩ := phase.2.collected
        exact absurd ((Collector.full_offers_iff _).mpr (collected rfl)) notFull

/-- A session that was never refused anything and whose key arrived: at rest, every DATA frame
was handed over under its key, once and in the order the frames were enqueued in. -/
theorem session_delivered (nonzero : mac ≠ 0) (used : keyId.toUInt8 ≠ 0)
    (garbage : Fin 2 → Fin 5 → KeyReconstructionMap) {steps : List ReceiverStep}
    (ofSession : ∀ step ∈ steps, OfSender (SessionFrame mb mac keyId key) step)
    (fits : Guarded (receiverStep mb) (StepFits mac) (startUpSecProcessing garbage) steps)
    (all : BringsFragments mb (enqueuedFrames steps))
    (rest : AtRest (run (receiverStep mb) (startUpSecProcessing garbage) steps)) :
    List.Forall₂ (fun handover frame => handover.key = key ∧ handover.Of mb frame)
      (handovers (run (receiverStep mb) (startUpSecProcessing garbage) steps).sec.log)
      (dataFrames (enqueuedFrames steps)) := by
  obtain ⟨frames, processed, there, held, _, kept⟩ := SessionHeld.run nonzero used steps
    (sessionHeld_start mb mac keyId key garbage) ⟨Nat.zero_le _, Nat.zero_le _⟩ ofSession
  obtain ⟨lost, whole⟩ := kept fits (nothingLost_start mb nonzero garbage)
  generalize run (receiverStep mb) (startUpSecProcessing garbage) steps = final at *
  have isFrames : frames = enqueuedFrames steps := by
    rw [rest.processingQueue, List.append_nil] at whole
    exact whole
  subst isFrames
  obtain ⟨index, own, has⟩ := held.hasKey lost rest.fragments all
  have noneWaits : queueOf final.sec.consumerCollection mac = [] := by
    rw [own.queue held.records nonzero]
    exact has.noneWaits (rest.idle index)
  have inOrder := lost.order
  rw [noneWaits, List.map_nil, List.append_nil, ← held.custody.numbers] at inOrder
  refine forall₂_of_numbered_in_order inOrder fun handover member => ?_
  obtain ⟨frame, there, of⟩ := held.custody.handed handover member
  exact ⟨frame, there, has.underKey handover member, of⟩

/-! ## Coming to rest -/

/-- Turns of the handlers that empty queues of any length. -/
def settling (tickCount : Nat → UInt32) (stack : Nat → BeaconPduData)
    (passTicks : Fin 2 → Nat → UInt32) : List ReceiverStep :=
  List.replicate 5 (.newPdu tickCount stack) ++
    .newKeyFragmentInQueue tickCount :: List.replicate 4 (.processDeferredPdus passTicks)

theorem newPdu_turns (nonzero : mac ≠ 0) (used : keyId.toUInt8 ≠ 0) (tickCount : Nat → UInt32)
    (stack : Nat → BeaconPduData) (turns : Nat) :
    ∀ {frames : List BeaconPduDataWithMacAddr} {processed : List ReconstructorQueueElement}
      {there : Bool} {receiver : ReceiverState},
      SessionHeld mb mac keyId key frames processed there receiver → QueuesWithin receiver →
      let final := run (receiverStep mb) receiver
        (List.replicate turns (.newPdu tickCount stack))
      (∃ framesNext processedNext thereNext,
        SessionHeld mb mac keyId key framesNext processedNext thereNext final) ∧
      QueuesWithin final ∧
      final.sec.processingQueue =
        receiver.sec.processingQueue.drop (maxProcessedPdusAtOnce * turns) := by
  induction turns with
  | zero => exact fun held within => ⟨⟨_, _, _, held⟩, within, rfl⟩
  | succ turns ih =>
      intro frames processed there receiver held within
      have taken := held.newPdu nonzero used tickCount stack
      have shorter := within.frames
      have withinNext : QueuesWithin (receiverStep mb receiver (.newPdu tickCount stack)) := by
        refine ⟨?_, taken.within within.fragments⟩
        rw [receiverStep, taken.processingQueue, List.length_drop]
        omega
      obtain ⟨heldLast, withinLast, queue⟩ := ih taken.held withinNext
      refine ⟨heldLast, withinLast, queue.trans ?_⟩
      rw [taken.processingQueue, List.drop_drop, Nat.mul_succ, Nat.add_comm]

theorem pass_turns (nonzero : mac ≠ 0) (used : keyId.toUInt8 ≠ 0)
    (passTicks : Fin 2 → Nat → UInt32) (turns : Nat) :
    ∀ {frames : List BeaconPduDataWithMacAddr} {processed : List ReconstructorQueueElement}
      {there : Bool} {receiver : ReceiverState},
      SessionHeld mb mac keyId key frames processed there receiver →
      let final := run (receiverStep mb) receiver
        (List.replicate (turns + 1) (.processDeferredPdus passTicks))
      SessionHeld mb mac keyId key frames processed there final ∧
      final.reconstructor = receiver.reconstructor ∧
      final.sec.processingQueue = receiver.sec.processingQueue ∧
      ∀ i, (final.sec.consumerCollection.arr i).processDeferredQRequestPending = true →
        there = true ∧ (queueOf receiver.sec.consumerCollection mac).drop
          (maxProcessedPdusAtOnce * (turns + 1)) ≠ [] := by
  induction turns with
  | zero =>
      intro frames processed there receiver held
      have taken := held.processDeferredPdus nonzero used passTicks
      refine ⟨taken.held, taken.reconstructor, taken.processingQueue, fun i pending => ?_⟩
      obtain ⟨isThere, waits⟩ := taken.settled i pending
      rw [taken.shorter isThere] at waits
      exact ⟨isThere, waits⟩
  | succ turns ih =>
      intro frames processed there receiver held
      have taken := held.processDeferredPdus nonzero used passTicks
      obtain ⟨heldLast, reconstructor, processingQueue, settled⟩ := ih taken.held
      refine ⟨heldLast, reconstructor.trans taken.reconstructor,
        processingQueue.trans taken.processingQueue, fun i pending => ?_⟩
      obtain ⟨isThere, waits⟩ := settled i pending
      rw [taken.shorter isThere, List.drop_drop, Nat.add_comm, ← Nat.mul_succ] at waits
      exact ⟨isThere, waits⟩

theorem SessionHeld.noneLeft {frames : List BeaconPduDataWithMacAddr}
    {processed : List ReconstructorQueueElement} {there : Bool} {receiver : ReceiverState}
    (held : SessionHeld mb mac keyId key frames processed there receiver) (nonzero : mac ≠ 0)
    (used : keyId.toUInt8 ≠ 0)
    (idle : ∀ i, (receiver.sec.consumerCollection.arr i).processDeferredQRequestPending = false)
    (cached : isKeyInCache (cacheOf receiver.sec.consumerCollection mac) keyId.toUInt8 = true) :
    queueOf receiver.sec.consumerCollection mac = [] := by
  rcases held.phase with ⟨_, unheard⟩ | ⟨index, own, phase⟩
  · simp [queueOf, getIndexForMacAddr_unclaimed unheard.unclaimed nonzero]
  · rw [own.queue held.records nonzero]
    rw [cacheOf_eq held.records.distinct own.address nonzero] at cached
    cases there with
    | false =>
        rw [phase.1.blank.notCached used] at cached
        contradiction
    | true => exact phase.1.noneWaits (idle index)

/-- Whatever was heard of the session and refused, a few turns of the handlers bring the
receiver to rest, with no frame of the session left if its key is there. -/
theorem session_settles (nonzero : mac ≠ 0) (used : keyId.toUInt8 ≠ 0)
    (garbage : Fin 2 → Fin 5 → KeyReconstructionMap) {steps : List ReceiverStep}
    (ofSession : ∀ step ∈ steps, OfSender (SessionFrame mb mac keyId key) step)
    (tickCount : Nat → UInt32) (stack : Nat → BeaconPduData) (passTicks : Fin 2 → Nat → UInt32) :
    let final := run (receiverStep mb) (startUpSecProcessing garbage)
      (steps ++ settling tickCount stack passTicks)
    AtRest final ∧
      (isKeyInCache (cacheOf final.sec.consumerCollection mac) keyId.toUInt8 = true →
        queueOf final.sec.consumerCollection mac = []) := by
  intro final
  obtain ⟨frames, processed, there, held, within, _⟩ := SessionHeld.run nonzero used steps
    (sessionHeld_start mb mac keyId key garbage) ⟨Nat.zero_le _, Nat.zero_le _⟩ ofSession
  simp only [final, run_append, settling, run_cons]
  generalize run (receiverStep mb) (startUpSecProcessing garbage) steps = reached at *
  obtain ⟨⟨_, _, _, heldFrames⟩, withinFrames, noFrames⟩ :=
    newPdu_turns nonzero used tickCount stack 5 held within
  have emptied := noFrames.trans
    (List.drop_eq_nil_of_le (Nat.le_trans within.frames (by decide)))
  generalize run (receiverStep mb) reached (List.replicate 5 (.newPdu tickCount stack)) = heard
    at *
  have elements := heldFrames.handleKeyFragments nonzero used tickCount
  obtain ⟨_, heldElements, _⟩ := elements.held
  have noElements := elements.queue
  have sameFrames := elements.processingQueue
  rw [List.drop_eq_nil_of_le (Nat.le_trans withinFrames.fragments (by decide))] at noElements
  have fed : receiverStep mb heard (.newKeyFragmentInQueue tickCount) =
      handleKeyFragmentsOfReceiver mb tickCount heard := rfl
  rw [fed]
  generalize handleKeyFragmentsOfReceiver mb tickCount heard = processedAll at *
  obtain ⟨heldLast, reconstructor, processingQueue, settled⟩ :=
    pass_turns nonzero used passTicks 3 heldElements
  have idle : ∀ i, ((run (receiverStep mb) processedAll
      (List.replicate 4 (.processDeferredPdus passTicks))).sec.consumerCollection.arr
        i).processDeferredQRequestPending = false := by
    intro i
    refine Bool.eq_false_of_not_eq_true fun pending => ?_
    obtain ⟨_, waits⟩ := settled i pending
    refine waits (List.drop_eq_nil_of_le ?_)
    rcases heldElements.phase with ⟨_, unheard⟩ | ⟨index, own, _⟩
    · simp [queueOf, getIndexForMacAddr_unclaimed unheard.unclaimed nonzero]
    · rw [own.queue heldElements.records nonzero]
      exact (heldElements.records.counted index).room
  refine ⟨⟨processingQueue.trans (sameFrames.trans emptied), ?_, idle⟩,
    heldLast.noneLeft nonzero used idle⟩
  rw [reconstructor]
  exact noElements

end Runs

def sessionArrives : List ReceiverStep :=
  List.replicate 25 (dataFrameArrives 1) ++ (List.finRange 4).map fun number =>
    .enqueuePdu (Memory.ofList (uniformFragmentFrame 1 1 number)) keyPduSize 0xA1

theorem sessionFrame_uniform (number : FragmentNo) :
    SessionFrame tabulated 0xA1 1 (fun _ => 1)
      ⟨fun i => if i < keyPduSize then Memory.ofList (uniformFragmentFrame 1 1 number) i else 0,
        keyPduSize, 0xA1⟩ := by
  have header : 9 ≤ keyPduSize := by decide
  refine ⟨⟨rfl, fun _ => header, fun _ => ⟨rfl, rfl, fun _ => ?_⟩⟩, ?_⟩
  · revert number
    decide +kernel
  · revert number
    decide +kernel

theorem ofSession_sessionArrives :
    ∀ step ∈ sessionArrives, OfSender (SessionFrame tabulated 0xA1 1 fun _ => 1) step := by
  intro step member
  rcases List.mem_append.mp member with data | fragment
  · obtain rfl := List.eq_of_mem_replicate data
    exact ⟨⟨rfl, fun _ => by decide, fun isFragment => absurd isFragment (by decide)⟩, by decide⟩
  · obtain ⟨number, _, rfl⟩ := List.mem_map.mp fragment
    exact sessionFrame_uniform number

theorem session_settles_session_one :
    let final := run (receiverStep tabulated) (startUpSecProcessing blankCaches)
      (sessionArrives ++ settling (fun _ => 7) (fun _ => .zero) fun _ _ => 8)
    (run (receiverStep tabulated) (startUpSecProcessing blankCaches)
      sessionArrives).sec.processingQueue.length = 29 ∧
    AtRest final ∧ queueOf final.sec.consumerCollection 0xA1 = [] := by
  intro final
  obtain ⟨rest, noneLeft⟩ := session_settles (by decide)
    (show (1 : UInt16).toUInt8 ≠ 0 by decide) blankCaches ofSession_sessionArrives (fun _ => 7)
    (fun _ => .zero) fun _ _ => 8
  exact ⟨by decide +kernel, rest, noneLeft (by decide +kernel)⟩

end BleBroadcast.Receiver
