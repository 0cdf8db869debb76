import BleBroadcast.Receiver.DataDelivery
import BleBroadcast.Receiver.DeferredPasses

/-!
# The two tasks of the receiver

The processing task (`sec_processing_main`) and the reconstructor task work in turns of
their inner loops here, so that their batches may overlap.  The processing task waits for
its event group, which clears the bits it returns, and handles those bits one after the
other.  A step that is not due changes nothing.
-/

set_option autoImplicit false

namespace BleBroadcast.Receiver

open BleBroadcast.Core BleBroadcast.Lib

/-- `EVENT_NEW_PDU` and `EVENT_PROCESS_DEFFERRED_PDUS`. -/
structure EventBits where
  newPdu : Bool
  processDeferredPdus : Bool

def EventBits.none : EventBits := ⟨false, false⟩

/-- The receiver with what its two tasks hold in local variables: `events` are the bits
that the last wait returned and that are not handled yet, `pduBatch` and `fragmentBatch`
what is left of the batches taken from the queues. -/
structure ReceiverTasks where
  receiver : ReceiverState
  eventGroup : EventBits
  events : EventBits
  pduBatch : List BeaconPduDataWithMacAddr
  fragmentBatch : List ReconstructorQueueElement

def startUpTasks (garbage : Fin 2 → Fin 5 → KeyReconstructionMap) : ReceiverTasks where
  receiver := startUpSecProcessing garbage
  eventGroup := .none
  events := .none
  pduBatch := []
  fragmentBatch := []

/-! ## The event group -/

/-- `enqueue_pdu_for_processing` sets `EVENT_NEW_PDU` if the queue took the frame. -/
def enqueueAndSignal (tasks : ReceiverTasks) (data : Memory) (size : Nat) (mac : EspBdAddr) :
    ReceiverTasks :=
  { tasks with
    receiver :=
      { tasks.receiver with sec := enqueuePduForProcessing tasks.receiver.sec data size mac }
    eventGroup :=
      if tasks.receiver.sec.processingQueue.length < maxProcessingQueueElements then
        { tasks.eventGroup with newPdu := true }
      else tasks.eventGroup }

/-- `xEventGroupWaitBits` of `sec_processing_main`, which clears what it returns. -/
def waitForEvents (tasks : ReceiverTasks) : ReceiverTasks :=
  if tasks.events.newPdu || tasks.events.processDeferredPdus || !tasks.pduBatch.isEmpty then tasks
  else
    { tasks with
      eventGroup := .none
      events := tasks.eventGroup }

/-- `key_reconstruction_complete` sets `EVENT_PROCESS_DEFFERRED_PDUS` if it added the key. -/
def completionSetsEvent (tickCount : UInt32) (keyId : UInt8) (reconstructedKey : Key128b)
    (mac : EspBdAddr) (sec : SecPduProcessing) : Bool :=
  let (found, collection) := getBleConsumerFromCollection sec.consumerCollection mac tickCount
  match found with
  | none => false
  | some index =>
      let consumer := collection.arr index
      !isKeyInCache consumer.keyCache keyId &&
        (addOrEvict consumer.keyCache reconstructedKey keyId tickCount).1 == 0

/-- `key_reconstruction_complete` with the event it sets. -/
def completeAndSignal (tickCount : UInt32) :
    KeyReconstructionCompleteCb (SecPduProcessing × Bool) :=
  fun keyId key mac state =>
    (keyReconstructionComplete tickCount keyId key mac state.1,
      state.2 || completionSetsEvent tickCount keyId key mac state.1)

/-- The body of the loop of `handle_event_process_deferred_pdus` sets the event again if
frames are left in the queue of a pending record. -/
def passSetsEvent (mb : Mbedtls) (tickCount : Nat → UInt32) (sec : SecPduProcessing)
    (index : Fin 2) : Bool :=
  let consumer := sec.consumerCollection.arr index
  consumer.processDeferredQRequestPending &&
    isPduInDeferredQueue (processDeferredQueue mb tickCount consumer sec.log).1

/-- `handle_event_process_deferred_pdus` with the event it sets. -/
def processDeferredAndSignal (mb : Mbedtls) (tickCount : Fin 2 → Nat → UInt32)
    (sec : SecPduProcessing) : SecPduProcessing × Bool :=
  (List.finRange 2).foldl
    (fun state index =>
      (processPendingConsumer mb (tickCount index) state.1 index,
        state.2 || passSetsEvent mb (tickCount index) state.1 index))
    (sec, false)

/-! ## Steps -/

/-- The first loop of `handle_event_new_pdu`. -/
def receivePdus (tasks : ReceiverTasks) : ReceiverTasks :=
  if tasks.events.newPdu then
    let sec := tasks.receiver.sec
    { tasks with
      receiver := { tasks.receiver with
        sec := { sec with
          processingQueue := sec.processingQueue.drop maxProcessedPdusAtOnce } }
      events := { tasks.events with newPdu := false }
      pduBatch := sec.processingQueue.take maxProcessedPdusAtOnce }
  else tasks

/-- A turn of the second loop of `handle_event_new_pdu`. -/
def handleNextFrame (mb : Mbedtls) (tickCount : UInt32) (stack : BeaconPduData)
    (tasks : ReceiverTasks) : ReceiverTasks :=
  match tasks.pduBatch with
  | [] => tasks
  | frame :: rest =>
      { tasks with
        receiver := handleNewFrame mb tickCount stack tasks.receiver frame
        pduBatch := rest }

/-- `handle_event_process_deferred_pdus`, after the new frames. -/
def handleDeferredEvent (mb : Mbedtls) (tickCount : Fin 2 → Nat → UInt32)
    (tasks : ReceiverTasks) : ReceiverTasks :=
  if tasks.events.processDeferredPdus && !tasks.events.newPdu && tasks.pduBatch.isEmpty then
    let (sec, again) := processDeferredAndSignal mb tickCount tasks.receiver.sec
    { tasks with
      receiver := { tasks.receiver with sec := sec }
      eventGroup := { tasks.eventGroup with
        processDeferredPdus := tasks.eventGroup.processDeferredPdus || again }
      events := { tasks.events with processDeferredPdus := false } }
  else tasks

/-- The first loop of `handle_event_new_key_fragment_in_queue`. -/
def receiveKeyFragments (tasks : ReceiverTasks) : ReceiverTasks :=
  if tasks.fragmentBatch.isEmpty then
    let control := tasks.receiver.reconstructor
    { tasks with
      receiver := { tasks.receiver with
        reconstructor := { control with
          xQueueKeyReconstruction := control.xQueueKeyReconstruction.drop maxKeyProcessesAtOnce } }
      fragmentBatch := control.xQueueKeyReconstruction.take maxKeyProcessesAtOnce }
  else tasks

/-- A turn of the second loop of `handle_event_new_key_fragment_in_queue`. -/
def handleNextKeyFragment (mb : Mbedtls) (tickCount : UInt32) (tasks : ReceiverTasks) :
    ReceiverTasks :=
  match tasks.fragmentBatch with
  | [] => tasks
  | element :: rest =>
      let control := tasks.receiver.reconstructor
      let (km, sec, again) := handleKeyFragment mb (some (completeAndSignal tickCount))
        (control.keyCollection, tasks.receiver.sec, false) element
      { tasks with
        receiver := ⟨sec, { control with keyCollection := km }⟩
        eventGroup := { tasks.eventGroup with
          processDeferredPdus := tasks.eventGroup.processDeferredPdus || again }
        fragmentBatch := rest }

inductive TaskStep where
  | enqueuePdu (data : Memory) (size : Nat) (mac : EspBdAddr)
  | waitForEvents
  | receivePdus
  | nextFrame (tickCount : UInt32) (stack : BeaconPduData)
  | processDeferredPdus (tickCount : Fin 2 → Nat → UInt32)
  | receiveKeyFragments
  | nextKeyFragment (tickCount : UInt32)

def taskStep (mb : Mbedtls) (tasks : ReceiverTasks) : TaskStep → ReceiverTasks
  | .enqueuePdu data size mac => enqueueAndSignal tasks data size mac
  | .waitForEvents => waitForEvents tasks
  | .receivePdus => receivePdus tasks
  | .nextFrame tickCount stack => handleNextFrame mb tickCount stack tasks
  | .processDeferredPdus tickCount => handleDeferredEvent mb tickCount tasks
  | .receiveKeyFragments => receiveKeyFragments tasks
  | .nextKeyFragment tickCount => handleNextKeyFragment mb tickCount tasks

/-! ## The turns of a handler make the handler -/

theorem run_nextFrames (mb : Mbedtls) (tickCount : Nat → UInt32) (stack : Nat → BeaconPduData)
    (batch : List BeaconPduDataWithMacAddr) :
    ∀ (i : Nat) (tasks : ReceiverTasks), tasks.pduBatch = batch →
      run (taskStep mb) tasks ((List.range' i batch.length).map fun n =>
          .nextFrame (tickCount n) (stack n)) =
        { tasks with
          receiver := handleNewFrames mb tickCount stack i tasks.receiver batch
          pduBatch := [] } := by
  induction batch with
  | nil =>
      rintro i ⟨receiver, eventGroup, events, pduBatch, fragmentBatch⟩ rfl
      rfl
  | cons frame rest ih =>
      intro i tasks isBatch
      simp only [List.length_cons, List.range'_succ, List.map_cons, run_cons, taskStep,
        handleNextFrame, isBatch]
      exact ih (i + 1) _ rfl

/-- The turns of the new-frame event, taken one after the other, are `handle_event_new_pdu`. -/
theorem run_newPdu (mb : Mbedtls) (tickCount : Nat → UInt32) (stack : Nat → BeaconPduData)
    {tasks : ReceiverTasks} (due : tasks.events.newPdu = true) :
    (run (taskStep mb) tasks (.receivePdus ::
        (List.range' 0 (tasks.receiver.sec.processingQueue.take maxProcessedPdusAtOnce).length).map
          fun n => .nextFrame (tickCount n) (stack n))).receiver =
      handleEventNewPdu mb tickCount stack tasks.receiver := by
  have received : taskStep mb tasks .receivePdus =
      { tasks with
        receiver := { tasks.receiver with
          sec := { tasks.receiver.sec with
            processingQueue :=
              tasks.receiver.sec.processingQueue.drop maxProcessedPdusAtOnce } }
        events := { tasks.events with newPdu := false }
        pduBatch := tasks.receiver.sec.processingQueue.take maxProcessedPdusAtOnce } := if_pos due
  rw [run_cons, received, run_nextFrames mb tickCount stack _ 0 _ rfl]
  rfl

theorem processDeferredAndSignal_fst (mb : Mbedtls) (tickCount : Fin 2 → Nat → UInt32)
    (sec : SecPduProcessing) :
    (processDeferredAndSignal mb tickCount sec).1 =
      handleEventProcessDeferredPdus mb tickCount sec := rfl

/-- The callback of a turn, run after the callbacks of the turns before it, is the
registered one with its own count of calls. -/
theorem run_nextKeyFragments (mb : Mbedtls) (tickCount : Nat → UInt32)
    (batch : List ReconstructorQueueElement) :
    ∀ (calls : Nat) (tasks : ReceiverTasks), tasks.fragmentBatch = batch →
      ∃ steps, (run (taskStep mb) tasks steps).receiver =
        { sec := (handleKeyFragments mb (some (registeredCallback tickCount))
            (tasks.receiver.reconstructor.keyCollection, calls, tasks.receiver.sec) batch).2.2
          reconstructor := { tasks.receiver.reconstructor with
            keyCollection := (handleKeyFragments mb (some (registeredCallback tickCount))
              (tasks.receiver.reconstructor.keyCollection, calls, tasks.receiver.sec)
              batch).1 } } := by
  induction batch with
  | nil => exact fun calls tasks _ => ⟨[], rfl⟩
  | cons element rest ih =>
      intro calls tasks isBatch
      obtain ⟨steps, made⟩ := ih
        (handleKeyFragment mb (some (registeredCallback tickCount))
          (tasks.receiver.reconstructor.keyCollection, calls, tasks.receiver.sec) element).2.1
        (taskStep mb tasks (.nextKeyFragment (tickCount calls)))
        (by simp only [taskStep, handleNextKeyFragment, isBatch])
      refine ⟨.nextKeyFragment (tickCount calls) :: steps, ?_⟩
      have turn : (taskStep mb tasks (.nextKeyFragment (tickCount calls))).receiver =
          { sec := (handleKeyFragment mb (some (registeredCallback tickCount))
              (tasks.receiver.reconstructor.keyCollection, calls, tasks.receiver.sec) element).2.2
            reconstructor := { tasks.receiver.reconstructor with
              keyCollection := (handleKeyFragment mb (some (registeredCallback tickCount))
                (tasks.receiver.reconstructor.keyCollection, calls, tasks.receiver.sec)
                element).1 } } := by
        simp only [taskStep, handleNextKeyFragment, isBatch, handleKeyFragment, registeredCallback,
          completeAndSignal]
        -- the storing of the fragment, and then the call
        split <;> split <;> rfl
      rw [run_cons, made, turn]
      simp only [handleKeyFragments, List.foldl_cons]

/-- `handle_event_new_key_fragment_in_queue` is made of turns as well. -/
theorem run_newKeyFragmentInQueue (mb : Mbedtls) (tickCount : Nat → UInt32)
    {tasks : ReceiverTasks} (idle : tasks.fragmentBatch = []) :
    ∃ steps, (run (taskStep mb) tasks (.receiveKeyFragments :: steps)).receiver =
      handleKeyFragmentsOfReceiver mb tickCount tasks.receiver := by
  have received : taskStep mb tasks .receiveKeyFragments =
      { tasks with
        receiver := { tasks.receiver with
          reconstructor := { tasks.receiver.reconstructor with
            xQueueKeyReconstruction :=
              tasks.receiver.reconstructor.xQueueKeyReconstruction.drop maxKeyProcessesAtOnce } }
        fragmentBatch :=
          tasks.receiver.reconstructor.xQueueKeyReconstruction.take maxKeyProcessesAtOnce } :=
    if_pos (by rw [idle]; rfl)
  obtain ⟨steps, made⟩ := run_nextKeyFragments mb tickCount _ 0
    (taskStep mb tasks .receiveKeyFragments) rfl
  refine ⟨steps, ?_⟩
  rw [run_cons, made, received]
  rfl

/-! ## Passes and their event -/

theorem passSetsEvent_eq (mb : Mbedtls) (tickCount : Nat → UInt32) {sec : SecPduProcessing}
    {index : Fin 2} (counted : Counted (sec.consumerCollection.arr index)) :
    passSetsEvent mb tickCount sec index =
      ((processPendingConsumer mb tickCount sec index).consumerCollection.arr
        index).processDeferredQRequestPending := by
  cases pending : (sec.consumerCollection.arr index).processDeferredQRequestPending with
  | false => simp [passSetsEvent, processPendingConsumer, pending]
  | true =>
      have same := (sameButQueue_processDeferredQueue mb tickCount counted sec.log).1.pending
      simp only [passSetsEvent, processPendingConsumer, pending, Bool.true_and, if_true,
        setConsumer, Function.update_self]
      split
      · rename_i left
        rw [left, same, pending]
      · rename_i emptied
        exact Bool.eq_false_of_not_eq_true emptied

theorem processDeferredAndSignal_passes (mb : Mbedtls) (tickCount : Fin 2 → Nat → UInt32)
    {sec : SecPduProcessing} (records : RecordsSound sec.consumerCollection) :
    let first := processPendingConsumer mb (tickCount 0) sec 0
    let second := processPendingConsumer mb (tickCount 1) first 1
    (processDeferredAndSignal mb tickCount sec).1 = second ∧
    RecordsSound first.consumerCollection ∧ RecordsSound second.consumerCollection ∧
    first.consumerCollection.arr 1 = sec.consumerCollection.arr 1 ∧
    second.consumerCollection.arr 0 = first.consumerCollection.arr 0 ∧
    (processDeferredAndSignal mb tickCount sec).2 =
      ((second.consumerCollection.arr 0).processDeferredQRequestPending ||
        (second.consumerCollection.arr 1).processDeferredQRequestPending) := by
  intro first second
  have firstMove : DataMove anyPass sec first :=
    processPendingConsumer_move mb (tickCount 0) records 0 fun _ => trivial
  have secondMove : DataMove anyPass first second :=
    processPendingConsumer_move mb (tickCount 1) firstMove.records 1 fun _ => trivial
  have kept : second.consumerCollection.arr 0 = first.consumerCollection.arr 0 :=
    processPendingConsumer_other mb (tickCount 1) first (by decide)
  refine ⟨rfl, firstMove.records, secondMove.records,
    processPendingConsumer_other mb (tickCount 0) sec (by decide), kept, ?_⟩
  rw [kept, ← passSetsEvent_eq mb (tickCount 0) (records.counted 0),
    ← passSetsEvent_eq mb (tickCount 1) (firstMove.records.counted 1), ← Bool.false_or
      (passSetsEvent mb (tickCount 0) sec 0)]
  rfl

theorem processDeferredAndSignal_record (mb : Mbedtls) (tickCount : Fin 2 → Nat → UInt32)
    {sec : SecPduProcessing} (records : RecordsSound sec.consumerCollection) (i : Fin 2) :
    ((sec.consumerCollection.arr i).processDeferredQRequestPending = false ∧
      (processDeferredAndSignal mb tickCount sec).1.consumerCollection.arr i =
        sec.consumerCollection.arr i) ∨
    ((sec.consumerCollection.arr i).processDeferredQRequestPending = true ∧
      RecordPassed (sec.consumerCollection.arr i)
        ((processDeferredAndSignal mb tickCount sec).1.consumerCollection.arr i)) := by
  obtain ⟨result, firstSound, _, other, kept, _⟩ :=
    processDeferredAndSignal_passes mb tickCount records
  have own : ∀ (index : Fin 2) (sec : SecPduProcessing),
      Counted (sec.consumerCollection.arr index) →
      ((sec.consumerCollection.arr index).processDeferredQRequestPending = false ∧
        (processPendingConsumer mb (tickCount index) sec index).consumerCollection.arr index =
          sec.consumerCollection.arr index) ∨
      ((sec.consumerCollection.arr index).processDeferredQRequestPending = true ∧
        RecordPassed (sec.consumerCollection.arr index)
          ((processPendingConsumer mb (tickCount index) sec index).consumerCollection.arr
            index)) := by
    intro index sec counted
    cases pending : (sec.consumerCollection.arr index).processDeferredQRequestPending with
    | false => exact Or.inl ⟨rfl, by simp [processPendingConsumer, pending]⟩
    | true =>
        exact Or.inr ⟨rfl, (processPendingConsumer_passed mb (tickCount index) counted pending).1⟩
  rw [result]
  by_cases here : i = 0
  · subst here
    rw [kept]
    exact own 0 sec (records.counted 0)
  · obtain rfl := Fin.eq_one_of_ne_zero i here
    rw [← other]
    exact own 1 _ (firstSound.counted 1)

theorem processDeferredAndSignal_passed (mb : Mbedtls) (tickCount : Fin 2 → Nat → UInt32)
    {sec : SecPduProcessing} (records : RecordsSound sec.consumerCollection) {i : Fin 2}
    (pending : (sec.consumerCollection.arr i).processDeferredQRequestPending = true) :
    RecordPassed (sec.consumerCollection.arr i)
      ((processDeferredAndSignal mb tickCount sec).1.consumerCollection.arr i) := by
  obtain ⟨notPending, _⟩ | ⟨_, passed⟩ := processDeferredAndSignal_record mb tickCount records i
  · rw [pending] at notPending
    contradiction
  · exact passed

theorem processDeferredAndSignal_snd (mb : Mbedtls) (tickCount : Fin 2 → Nat → UInt32)
    {sec : SecPduProcessing} (records : RecordsSound sec.consumerCollection) :
    (processDeferredAndSignal mb tickCount sec).2 = true ↔
      ∃ i, ((processDeferredAndSignal mb tickCount sec).1.consumerCollection.arr
        i).processDeferredQRequestPending = true := by
  obtain ⟨result, _, _, _, _, again⟩ := processDeferredAndSignal_passes mb tickCount records
  rw [again, result, Bool.or_eq_true, Fin.exists_fin_two]

/-! ## What a step can do -/

structure QuietStep (tasks next : ReceiverTasks) : Prop where
  consumers : next.receiver.sec.consumerCollection = tasks.receiver.sec.consumerCollection
  entries : next.receiver.reconstructor.keyCollection =
    tasks.receiver.reconstructor.keyCollection
  deferredEvent :
    tasks.eventGroup.processDeferredPdus = true ∨ tasks.events.processDeferredPdus = true →
      next.eventGroup.processDeferredPdus = true ∨ next.events.processDeferredPdus = true

theorem QuietStep.refl (tasks : ReceiverTasks) : QuietStep tasks tasks := ⟨rfl, rfl, id⟩

theorem enqueuePduForProcessing_consumers (sec : SecPduProcessing) (data : Memory) (size : Nat)
    (mac : EspBdAddr) :
    (enqueuePduForProcessing sec data size mac).consumerCollection = sec.consumerCollection := by
  unfold enqueuePduForProcessing
  split <;> rfl

theorem quietStep_enqueueAndSignal (tasks : ReceiverTasks) (data : Memory) (size : Nat)
    (mac : EspBdAddr) : QuietStep tasks (enqueueAndSignal tasks data size mac) where
  consumers := enqueuePduForProcessing_consumers tasks.receiver.sec data size mac
  entries := rfl
  deferredEvent := by
    intro due
    simp only [enqueueAndSignal]
    split <;> exact due

theorem quietStep_waitForEvents (tasks : ReceiverTasks) :
    QuietStep tasks (waitForEvents tasks) := by
  unfold waitForEvents
  split
  · exact .refl tasks
  · rename_i idle
    refine ⟨rfl, rfl, ?_⟩
    rintro (set | taken)
    · exact Or.inr set
    · simp [taken] at idle

theorem quietStep_receivePdus (tasks : ReceiverTasks) : QuietStep tasks (receivePdus tasks) := by
  unfold receivePdus
  split
  · exact ⟨rfl, rfl, id⟩
  · exact .refl tasks

theorem quietStep_receiveKeyFragments (tasks : ReceiverTasks) :
    QuietStep tasks (receiveKeyFragments tasks) := by
  unfold receiveKeyFragments
  split
  · exact ⟨rfl, rfl, id⟩
  · exact .refl tasks

/-- Every step is quiet, or one of the handlers makes its next turn. -/
theorem taskStep_cases (mb : Mbedtls) (tasks : ReceiverTasks) (step : TaskStep) :
    QuietStep tasks (taskStep mb tasks step) ∨
    (∃ tickCount stack frame rest, step = .nextFrame tickCount stack ∧
      tasks.pduBatch = frame :: rest ∧
      taskStep mb tasks step =
        { tasks with
          receiver := handleNewFrame mb tickCount stack tasks.receiver frame
          pduBatch := rest }) ∨
    (∃ tickCount, step = .processDeferredPdus tickCount ∧
      tasks.events.processDeferredPdus = true ∧
      taskStep mb tasks step =
        { tasks with
          receiver := { tasks.receiver with
            sec := (processDeferredAndSignal mb tickCount tasks.receiver.sec).1 }
          eventGroup := { tasks.eventGroup with
            processDeferredPdus := tasks.eventGroup.processDeferredPdus ||
              (processDeferredAndSignal mb tickCount tasks.receiver.sec).2 }
          events := { tasks.events with processDeferredPdus := false } }) ∨
    ∃ tickCount, step = .nextKeyFragment tickCount ∧
      taskStep mb tasks step = handleNextKeyFragment mb tickCount tasks := by
  cases step with
  | enqueuePdu data size mac => exact Or.inl (quietStep_enqueueAndSignal tasks data size mac)
  | waitForEvents => exact Or.inl (quietStep_waitForEvents tasks)
  | receivePdus => exact Or.inl (quietStep_receivePdus tasks)
  | nextFrame tickCount stack =>
      cases batch : tasks.pduBatch with
      | nil =>
          simp only [taskStep, handleNextFrame, batch]
          exact Or.inl (.refl tasks)
      | cons frame rest =>
          refine Or.inr (Or.inl ⟨tickCount, stack, frame, rest, rfl, rfl, ?_⟩)
          simp only [taskStep, handleNextFrame, batch]
  | processDeferredPdus tickCount =>
      by_cases isDue : (tasks.events.processDeferredPdus && !tasks.events.newPdu &&
          tasks.pduBatch.isEmpty) = true
      · have returned : tasks.events.processDeferredPdus = true := by
          simp only [Bool.and_eq_true] at isDue
          exact isDue.1.1
        exact Or.inr (Or.inr (Or.inl ⟨tickCount, rfl, returned, if_pos isDue⟩))
      · have notDue : taskStep mb tasks (.processDeferredPdus tickCount) = tasks := if_neg isDue
        rw [notDue]
        exact Or.inl (.refl tasks)
  | receiveKeyFragments => exact Or.inl (quietStep_receiveKeyFragments tasks)
  | nextKeyFragment tickCount => exact Or.inr (Or.inr (Or.inr ⟨tickCount, rfl, rfl⟩))

theorem handleNextKeyFragment_keeps (mb : Mbedtls) {tickCount : UInt32} {tasks : ReceiverTasks}
    {kept : SecPduProcessing × Bool → Prop}
    (keep : ∀ keyId key mac state, kept state →
      kept (completeAndSignal tickCount keyId key mac state))
    (initial : kept (tasks.receiver.sec, false)) :
    ∃ again,
      kept ((handleNextKeyFragment mb tickCount tasks).receiver.sec, again) ∧
      (handleNextKeyFragment mb tickCount tasks).eventGroup.processDeferredPdus =
        (tasks.eventGroup.processDeferredPdus || again) ∧
      (handleNextKeyFragment mb tickCount tasks).events = tasks.events := by
  cases batch : tasks.fragmentBatch with
  | nil =>
      simp only [handleNextKeyFragment, batch]
      exact ⟨false, initial, (Bool.or_false _).symm, trivial⟩
  | cons element rest =>
      have called := handleKeyFragment_keeps mb keep tasks.receiver.reconstructor.keyCollection
        initial element
      simp only [handleNextKeyFragment, batch]
      generalize handleKeyFragment mb (some (completeAndSignal tickCount)) _ element = result
        at called ⊢
      exact ⟨result.2.2, called, rfl, trivial⟩

theorem taskStep_records (mb : Mbedtls) {tasks : ReceiverTasks} (step : TaskStep)
    (records : RecordsSound tasks.receiver.sec.consumerCollection) :
    RecordsSound (taskStep mb tasks step).receiver.sec.consumerCollection := by
  obtain quiet | ⟨tickCount, stack, frame, _, _, _, result⟩ | ⟨tickCount, _, _, result⟩ |
      ⟨tickCount, _, result⟩ := taskStep_cases mb tasks step
  · rw [quiet.consumers]
    exact records
  · have move : DataMove anyPass _ _ := handleNewFrame_move mb tickCount stack records frame
    rw [result]
    exact move.records
  · rw [result]
    exact (processDeferredAndSignal_passes mb tickCount records).2.2.1
  · have keep : ∀ keyId key mac (state : SecPduProcessing × Bool),
        RecordsSound state.1.consumerCollection →
        RecordsSound (completeAndSignal tickCount keyId key mac state).1.consumerCollection := by
      intro keyId key mac state sound
      have move : DataMove anyPass _ _ :=
        keyReconstructionComplete_move tickCount keyId key mac sound
      exact move.records
    obtain ⟨_, kept, _⟩ := handleNextKeyFragment_keeps mb keep records
    rw [result]
    exact kept

theorem run_records (mb : Mbedtls) (garbage : Fin 2 → Fin 5 → KeyReconstructionMap)
    (steps : List TaskStep) :
    RecordsSound (run (taskStep mb) (startUpTasks garbage) steps).receiver.sec.consumerCollection :=
  run_preserves (fun tasks : ReceiverTasks => RecordsSound tasks.receiver.sec.consumerCollection)
    (fun _ step records => taskStep_records mb step records) (recordsSound_start garbage) steps

end BleBroadcast.Receiver
