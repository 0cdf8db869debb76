import BleBroadcast.Lib.SignalledQueue
import BleBroadcast.Receiver.SenderTables

/-!
# Frames and their event

The processing queue with its event, step by step: `enqueue_pdu_for_processing` sends a frame
and then sets `EVENT_NEW_PDU`, and the processing task waits for the event and receives its
batch one frame at a time.  Other senders of frames and the reconstructor take their steps at
any point in between.
-/

set_option autoImplicit false

namespace BleBroadcast.Receiver

open BleBroadcast.Core BleBroadcast.Lib

/-- The two tasks, and how many calls of `enqueue_pdu_for_processing` have sent their frame
and not set the event yet.  While `events.newPdu` is up the processing task is in the first
loop of `handle_event_new_pdu`. -/
structure PduSignalling where
  tasks : ReceiverTasks
  announcing : Nat

def startUpSignalling (garbage : Fin 2 → Fin 5 → KeyReconstructionMap) : PduSignalling where
  tasks := startUpTasks garbage
  announcing := 0

/-- `xQueueSend` of `enqueue_pdu_for_processing`. -/
def sendPdu (state : PduSignalling) (data : Memory) (size : Nat) (mac : EspBdAddr) :
    PduSignalling where
  tasks := { state.tasks with
    receiver := { state.tasks.receiver with
      sec := enqueuePduForProcessing state.tasks.receiver.sec data size mac } }
  announcing :=
    if state.tasks.receiver.sec.processingQueue.length < maxProcessingQueueElements then
      state.announcing + 1
    else state.announcing

/-- `xEventGroupSetBits` after it. -/
def setNewPdu (state : PduSignalling) : PduSignalling :=
  if state.announcing = 0 then state
  else
    { tasks := { state.tasks with
        eventGroup := { state.tasks.eventGroup with newPdu := true } }
      announcing := state.announcing - 1 }

/-- A turn of the first loop of `handle_event_new_pdu`, or its end. -/
def receivePdu (tasks : ReceiverTasks) : ReceiverTasks :=
  let sec := tasks.receiver.sec
  let ended := { tasks with events := { tasks.events with newPdu := false } }
  if tasks.events.newPdu then
    if tasks.pduBatch.length < maxProcessedPdusAtOnce then
      match sec.processingQueue with
      | [] => ended
      | frame :: rest =>
          { tasks with
            receiver := { tasks.receiver with sec := { sec with processingQueue := rest } }
            pduBatch := tasks.pduBatch ++ [frame] }
    else ended
  else tasks

inductive SignallingStep where
  | sendPdu (data : Memory) (size : Nat) (mac : EspBdAddr)
  | setNewPdu
  | waitForEvents
  | receivePdu
  | nextFrame (tickCount : UInt32) (stack : BeaconPduData)
  | processDeferredPdus (tickCount : Fin 2 → Nat → UInt32)
  | receiveKeyFragments
  | nextKeyFragment (tickCount : UInt32)

/-- The second loop of `handle_event_new_pdu` begins when the first has ended. -/
def signallingStep (mb : Mbedtls) (state : PduSignalling) : SignallingStep → PduSignalling
  | .sendPdu data size mac => sendPdu state data size mac
  | .setNewPdu => setNewPdu state
  | .waitForEvents => { state with tasks := waitForEvents state.tasks }
  | .receivePdu => { state with tasks := receivePdu state.tasks }
  | .nextFrame tickCount stack =>
      if state.tasks.events.newPdu then state
      else { state with tasks := handleNextFrame mb tickCount stack state.tasks }
  | .processDeferredPdus tickCount =>
      { state with tasks := handleDeferredEvent mb tickCount state.tasks }
  | .receiveKeyFragments => { state with tasks := receiveKeyFragments state.tasks }
  | .nextKeyFragment tickCount =>
      { state with tasks := handleNextKeyFragment mb tickCount state.tasks }

/-- The processing task is in `xEventGroupWaitBits`. -/
def TaskWaiting (tasks : ReceiverTasks) : Prop :=
  tasks.events.newPdu = false ∧ tasks.events.processDeferredPdus = false ∧ tasks.pduBatch = []

/-- No frame waits in the processing queue without an event to come. -/
def NoFrameStranded (state : PduSignalling) : Prop :=
  TaskWaiting state.tasks → state.tasks.eventGroup.newPdu = false → state.announcing = 0 →
    state.tasks.receiver.sec.processingQueue = []

/-- Where a wait returns `EVENT_NEW_PDU`, one batch can take all frames of the queue. -/
def ShortQueueAtWait (state : PduSignalling) : SignallingStep → Prop
  | .waitForEvents =>
      TaskWaiting state.tasks → state.tasks.eventGroup.newPdu = true →
        state.tasks.receiver.sec.processingQueue.length ≤ maxProcessedPdusAtOnce
  | _ => True

instance taskWaitingDecidable (tasks : ReceiverTasks) : Decidable (TaskWaiting tasks) :=
  decidable_of_iff
    (tasks.events.newPdu = false ∧ tasks.events.processDeferredPdus = false ∧
      tasks.pduBatch.isEmpty = true)
    (by rw [TaskWaiting, List.isEmpty_iff])

instance shortQueueAtWaitDecidable (state : PduSignalling) :
    ∀ step, Decidable (ShortQueueAtWait state step)
  | .waitForEvents => inferInstanceAs (Decidable (_ → _ → _ ≤ _))
  | .sendPdu _ _ _ => isTrue trivial
  | .setNewPdu => isTrue trivial
  | .receivePdu => isTrue trivial
  | .nextFrame _ _ => isTrue trivial
  | .processDeferredPdus _ => isTrue trivial
  | .receiveKeyFragments => isTrue trivial
  | .nextKeyFragment _ => isTrue trivial

/-! ## The processing queue as a queue with one wake-up bit -/

def newPduQueue (state : PduSignalling) : SignalledQueue BeaconPduDataWithMacAddr where
  queue := state.tasks.receiver.sec.processingQueue
  signal := state.tasks.eventGroup.newPdu
  announcing := state.announcing
  received := if state.tasks.events.newPdu then some state.tasks.pduBatch.length else none

theorem newPduQueue_sendPdu (state : PduSignalling) (data : Memory) (size : Nat)
    (mac : EspBdAddr) :
    ∃ frame, newPduQueue (sendPdu state data size mac) =
      (newPduQueue state).send maxProcessingQueueElements frame := by
  refine ⟨⟨fun i => if i < size then data i else 0, size, mac⟩, ?_⟩
  by_cases room : state.tasks.receiver.sec.processingQueue.length < maxProcessingQueueElements
  · have hasRoom : (newPduQueue state).queue.length < maxProcessingQueueElements := room
    rw [SignalledQueue.send, if_pos hasRoom]
    simp only [newPduQueue, sendPdu, enqueuePduForProcessing, if_pos room]
  · have noRoom : ¬ (newPduQueue state).queue.length < maxProcessingQueueElements := room
    rw [SignalledQueue.send, if_neg noRoom]
    simp only [newPduQueue, sendPdu, enqueuePduForProcessing, if_neg room]

theorem newPduQueue_waitForEvents (state : PduSignalling) :
    newPduQueue { state with tasks := waitForEvents state.tasks } = newPduQueue state ∨
    (TaskWaiting state.tasks ∧ state.tasks.eventGroup.newPdu = true ∧
      newPduQueue { state with tasks := waitForEvents state.tasks } =
        (newPduQueue state).wake) := by
  unfold waitForEvents
  split
  · exact Or.inl rfl
  · rename_i idle
    simp only [Bool.or_eq_true, Bool.not_eq_true', not_or, Bool.not_eq_true,
      Bool.not_eq_false] at idle
    obtain ⟨⟨noPdu, noDeferred⟩, noBatch⟩ := idle
    have batch := List.isEmpty_iff.mp noBatch
    cases signal : state.tasks.eventGroup.newPdu with
    | false => exact Or.inl (by simp [newPduQueue, signal, noPdu, EventBits.none])
    | true =>
        refine Or.inr ⟨⟨noPdu, noDeferred, batch⟩, rfl, ?_⟩
        simp [newPduQueue, signal, batch, SignalledQueue.wake, EventBits.none]

theorem newPduQueue_receivePdu (state : PduSignalling) :
    newPduQueue { state with tasks := receivePdu state.tasks } =
      (newPduQueue state).receive maxProcessedPdusAtOnce := by
  cases receiving : state.tasks.events.newPdu with
  | false => simp [newPduQueue, receivePdu, SignalledQueue.receive, receiving]
  | true =>
      by_cases room : state.tasks.pduBatch.length < maxProcessedPdusAtOnce
      · cases waiting : state.tasks.receiver.sec.processingQueue with
        | nil => simp [newPduQueue, receivePdu, SignalledQueue.receive, receiving, room, waiting]
        | cons frame rest =>
            simp [newPduQueue, receivePdu, SignalledQueue.receive, receiving, room, waiting]
      · simp [newPduQueue, receivePdu, SignalledQueue.receive, receiving, room]

structure SameFrames (tasks next : ReceiverTasks) : Prop where
  queue : next.receiver.sec.processingQueue = tasks.receiver.sec.processingQueue
  signal : next.eventGroup.newPdu = tasks.eventGroup.newPdu
  receiving : next.events.newPdu = tasks.events.newPdu
  batch : tasks.events.newPdu = true → next.pduBatch = tasks.pduBatch

theorem SameFrames.refl (tasks : ReceiverTasks) : SameFrames tasks tasks :=
  ⟨rfl, rfl, rfl, fun _ => rfl⟩

theorem SameFrames.queue_eq {state : PduSignalling} {next : ReceiverTasks}
    (same : SameFrames state.tasks next) :
    newPduQueue { state with tasks := next } = newPduQueue state := by
  cases receiving : state.tasks.events.newPdu with
  | false => simp [newPduQueue, same.queue, same.signal, same.receiving, receiving]
  | true =>
      simp [newPduQueue, same.queue, same.signal, same.receiving, receiving,
        same.batch receiving]

theorem handleNextFrame_sameFrames (mb : Mbedtls) (tickCount : UInt32) (stack : BeaconPduData)
    {tasks : ReceiverTasks} (ended : tasks.events.newPdu = false) :
    SameFrames tasks (handleNextFrame mb tickCount stack tasks) := by
  cases batch : tasks.pduBatch with
  | nil =>
      simp only [handleNextFrame, batch]
      exact .refl tasks
  | cons frame rest =>
      have same := handleNewFrame_sameRecords mb tickCount stack tasks.receiver frame
      simp only [handleNextFrame, batch]
      exact ⟨same.processingQueue, rfl, rfl, fun absurd => by simp [ended] at absurd⟩

theorem processPendingConsumer_queue (mb : Mbedtls) (tickCount : Nat → UInt32)
    (sec : SecPduProcessing) (index : Fin 2) :
    (processPendingConsumer mb tickCount sec index).processingQueue = sec.processingQueue := by
  simp only [processPendingConsumer]
  split <;> rfl

theorem handleEventProcessDeferredPdus_queue (mb : Mbedtls) (tickCount : Fin 2 → Nat → UInt32)
    (sec : SecPduProcessing) :
    (handleEventProcessDeferredPdus mb tickCount sec).processingQueue = sec.processingQueue := by
  unfold handleEventProcessDeferredPdus
  generalize List.finRange 2 = indices
  induction indices generalizing sec with
  | nil => rfl
  | cons index rest ih =>
      rw [List.foldl_cons, ih]
      exact processPendingConsumer_queue mb (tickCount index) sec index

theorem processDeferredAndSignal_queue (mb : Mbedtls) (tickCount : Fin 2 → Nat → UInt32)
    (sec : SecPduProcessing) :
    (processDeferredAndSignal mb tickCount sec).1.processingQueue = sec.processingQueue := by
  rw [processDeferredAndSignal_fst]
  exact handleEventProcessDeferredPdus_queue mb tickCount sec

theorem handleDeferredEvent_sameFrames (mb : Mbedtls) (tickCount : Fin 2 → Nat → UInt32)
    (tasks : ReceiverTasks) : SameFrames tasks (handleDeferredEvent mb tickCount tasks) := by
  unfold handleDeferredEvent
  split
  · exact ⟨processDeferredAndSignal_queue mb tickCount _, rfl, rfl, fun _ => rfl⟩
  · exact .refl tasks

theorem receiveKeyFragments_sameFrames (tasks : ReceiverTasks) :
    SameFrames tasks (receiveKeyFragments tasks) := by
  unfold receiveKeyFragments
  split
  · exact ⟨rfl, rfl, rfl, fun _ => rfl⟩
  · exact .refl tasks

theorem handleNextKeyFragment_sameFrames (mb : Mbedtls) (tickCount : UInt32)
    (tasks : ReceiverTasks) : SameFrames tasks (handleNextKeyFragment mb tickCount tasks) := by
  have same := handleNextKeyFragment_sameRecords mb tickCount tasks
  cases batch : tasks.fragmentBatch with
  | nil =>
      simp only [handleNextKeyFragment, batch]
      exact .refl tasks
  | cons element rest =>
      simp only [handleNextKeyFragment, batch] at same ⊢
      generalize handleKeyFragment mb (some (completeAndSignal tickCount)) _ element = result
        at same ⊢
      exact ⟨same.processingQueue, rfl, rfl, fun _ => rfl⟩

theorem signallingStep_queue (mb : Mbedtls) (state : PduSignalling) (step : SignallingStep) :
    newPduQueue (signallingStep mb state step) = newPduQueue state ∨
    (∃ frame, newPduQueue (signallingStep mb state step) =
      (newPduQueue state).send maxProcessingQueueElements frame) ∨
    newPduQueue (signallingStep mb state step) = (newPduQueue state).announce ∨
    (step = .waitForEvents ∧ TaskWaiting state.tasks ∧ state.tasks.eventGroup.newPdu = true ∧
      newPduQueue (signallingStep mb state step) = (newPduQueue state).wake) ∨
    newPduQueue (signallingStep mb state step) =
      (newPduQueue state).receive maxProcessedPdusAtOnce := by
  cases step with
  | sendPdu data size mac =>
      simp only [signallingStep]
      exact Or.inr (Or.inl (newPduQueue_sendPdu state data size mac))
  | setNewPdu =>
      simp only [signallingStep, setNewPdu]
      split
      · exact Or.inl rfl
      · exact Or.inr (Or.inr (Or.inl rfl))
  | waitForEvents =>
      rcases newPduQueue_waitForEvents state with same | ⟨waiting, signal, woken⟩
      · exact Or.inl same
      · exact Or.inr (Or.inr (Or.inr (Or.inl ⟨rfl, waiting, signal, woken⟩)))
  | receivePdu => exact Or.inr (Or.inr (Or.inr (Or.inr (newPduQueue_receivePdu state))))
  | nextFrame tickCount stack =>
      simp only [signallingStep]
      split
      · exact Or.inl rfl
      · rename_i ended
        have same := handleNextFrame_sameFrames mb tickCount stack
          (Bool.eq_false_of_not_eq_true ended)
        exact Or.inl same.queue_eq
  | processDeferredPdus tickCount =>
      exact Or.inl (handleDeferredEvent_sameFrames mb tickCount state.tasks).queue_eq
  | receiveKeyFragments => exact Or.inl (receiveKeyFragments_sameFrames state.tasks).queue_eq
  | nextKeyFragment tickCount =>
      exact Or.inl (handleNextKeyFragment_sameFrames mb tickCount state.tasks).queue_eq

theorem accounted_signallingStep (mb : Mbedtls) (state : PduSignalling) (step : SignallingStep)
    (accounted : (newPduQueue state).Accounted maxProcessedPdusAtOnce)
    (short : ShortQueueAtWait state step) :
    (newPduQueue (signallingStep mb state step)).Accounted maxProcessedPdusAtOnce := by
  obtain same | ⟨frame, sent⟩ | announced | ⟨rfl, waiting, signal, woken⟩ | received :=
    signallingStep_queue mb state step
  · rw [same]
    exact accounted
  · rw [sent]
    exact accounted.send frame
  · rw [announced]
    exact SignalledQueue.accounted_announce _
  · rw [woken]
    exact SignalledQueue.accounted_wake (short waiting signal)
  · rw [received]
    exact accounted.receive

theorem noFrameStranded_of_accounted {state : PduSignalling}
    (accounted : (newPduQueue state).Accounted maxProcessedPdusAtOnce) :
    NoFrameStranded state :=
  fun waiting => accounted.idle (by simp [newPduQueue, waiting.1])

/-! ## A batch that leaves frames -/

/-- A turn of `sec_processing_main` that nobody disturbs, with a full batch of frames. -/
def fullRound (tickCount : UInt32) (stack : BeaconPduData)
    (deferredTicks : Fin 2 → Nat → UInt32) : List SignallingStep :=
  .waitForEvents ::
    (List.replicate (maxProcessedPdusAtOnce + 1) .receivePdu ++
      (List.replicate maxProcessedPdusAtOnce (.nextFrame tickCount stack) ++
        [.processDeferredPdus deferredTicks]))

theorem length_receivePdu_batch {tasks : ReceiverTasks}
    (within : tasks.pduBatch.length ≤ maxProcessedPdusAtOnce) :
    (receivePdu tasks).pduBatch.length ≤ maxProcessedPdusAtOnce := by
  simp only [receivePdu]
  split
  · split
    · rename_i room
      split
      · exact within
      · rw [List.length_append, List.length_singleton]
        exact room
    · exact within
  · exact within

theorem run_receivePdu (mb : Mbedtls) (count : Nat) (state : PduSignalling) :
    let next := run (signallingStep mb) state (List.replicate count .receivePdu)
    newPduQueue next =
      (SignalledQueue.receive maxProcessedPdusAtOnce)^[count] (newPduQueue state) ∧
    (state.tasks.pduBatch.length ≤ maxProcessedPdusAtOnce →
      next.tasks.pduBatch.length ≤ maxProcessedPdusAtOnce) := by
  induction count generalizing state with
  | zero => exact ⟨rfl, id⟩
  | succ count ih =>
      obtain ⟨queue, batch⟩ := ih (signallingStep mb state .receivePdu)
      rw [List.replicate_succ, run_cons, Function.iterate_succ_apply]
      exact ⟨queue.trans (congrArg _ (newPduQueue_receivePdu state)),
        fun within => batch (length_receivePdu_batch within)⟩

theorem run_nextFrame (mb : Mbedtls) (tickCount : UInt32) (stack : BeaconPduData) (count : Nat)
    {state : PduSignalling} (ended : state.tasks.events.newPdu = false) :
    let next := run (signallingStep mb) state
      (List.replicate count (.nextFrame tickCount stack))
    newPduQueue next = newPduQueue state ∧ next.tasks.events.newPdu = false ∧
      next.tasks.pduBatch = state.tasks.pduBatch.drop count := by
  induction count generalizing state with
  | zero => exact ⟨rfl, ended, rfl⟩
  | succ count ih =>
      have turn : signallingStep mb state (.nextFrame tickCount stack) =
          { state with tasks := handleNextFrame mb tickCount stack state.tasks } := by
        simp [signallingStep, ended]
      have same := handleNextFrame_sameFrames mb tickCount stack ended
      have shorter : (handleNextFrame mb tickCount stack state.tasks).pduBatch =
          state.tasks.pduBatch.tail := by
        cases batch : state.tasks.pduBatch <;> simp [handleNextFrame, batch]
      rw [List.replicate_succ, run_cons, turn]
      obtain ⟨queue, stillEnded, batch⟩ :=
        @ih { state with tasks := handleNextFrame mb tickCount stack state.tasks }
          (same.receiving.trans ended)
      refine ⟨queue.trans same.queue_eq, stillEnded, ?_⟩
      rw [batch, shorter, List.drop_tail]

theorem run_longBatch (mb : Mbedtls) {state : PduSignalling} (waiting : TaskWaiting state.tasks)
    (signal : state.tasks.eventGroup.newPdu = true)
    (long : maxProcessedPdusAtOnce < state.tasks.receiver.sec.processingQueue.length) :
    let taken := run (signallingStep mb) state
      (.waitForEvents :: List.replicate (maxProcessedPdusAtOnce + 1) .receivePdu)
    newPduQueue taken =
      { newPduQueue state with
        queue := state.tasks.receiver.sec.processingQueue.drop maxProcessedPdusAtOnce
        signal := false
        received := none } ∧
    taken.tasks.events.newPdu = false ∧
    taken.tasks.pduBatch.length ≤ maxProcessedPdusAtOnce := by
  intro taken
  obtain ⟨noPdu, noDeferred, noBatch⟩ := waiting
  have woken : newPduQueue (signallingStep mb state .waitForEvents) = (newPduQueue state).wake := by
    simp [signallingStep, waitForEvents, newPduQueue, SignalledQueue.wake, noPdu, noDeferred,
      noBatch, signal, EventBits.none]
  have emptyBatch : (signallingStep mb state .waitForEvents).tasks.pduBatch = [] := by
    simp [signallingStep, waitForEvents, noPdu, noDeferred, noBatch]
  obtain ⟨queue, batch⟩ := run_receivePdu mb (maxProcessedPdusAtOnce + 1)
    (signallingStep mb state .waitForEvents)
  rw [woken, SignalledQueue.receive_overfull long] at queue
  refine ⟨queue, ?_, batch (by rw [emptyBatch]; exact Nat.zero_le _)⟩
  have noneLeft := congrArg SignalledQueue.received queue
  simp only [newPduQueue] at noneLeft
  split at noneLeft
  · contradiction
  · exact Bool.eq_false_of_not_eq_true ‹_›

theorem taskWaiting_handleDeferredEvent (mb : Mbedtls) (tickCount : Fin 2 → Nat → UInt32)
    {tasks : ReceiverTasks} (ended : tasks.events.newPdu = false)
    (noBatch : tasks.pduBatch = []) : TaskWaiting (handleDeferredEvent mb tickCount tasks) := by
  unfold handleDeferredEvent
  split
  · exact ⟨ended, rfl, noBatch⟩
  · rename_i notDue
    exact ⟨ended, by simpa [ended, noBatch] using notDue, noBatch⟩

/-- Begun on more frames than fit into it, a batch leaves frames in the queue whose event
the wait has cleared. -/
theorem stranded_of_longQueue (mb : Mbedtls) (tickCount : UInt32) (stack : BeaconPduData)
    (deferredTicks : Fin 2 → Nat → UInt32) {state : PduSignalling}
    (waiting : TaskWaiting state.tasks) (signal : state.tasks.eventGroup.newPdu = true)
    (settled : state.announcing = 0)
    (long : maxProcessedPdusAtOnce < state.tasks.receiver.sec.processingQueue.length) :
    ¬ NoFrameStranded
      (run (signallingStep mb) state (fullRound tickCount stack deferredTicks)) := by
  obtain ⟨takenQueue, ended, takenBatch⟩ := run_longBatch mb waiting signal long
  rw [fullRound, ← List.cons_append, run_append, run_append]
  generalize run (signallingStep mb) state (.waitForEvents :: _) = taken
    at takenQueue ended takenBatch ⊢
  obtain ⟨handledQueue, stillEnded, handledBatch⟩ :=
    run_nextFrame mb tickCount stack maxProcessedPdusAtOnce ended
  rw [List.drop_eq_nil_of_le takenBatch] at handledBatch
  generalize run (signallingStep mb) taken (List.replicate _ (.nextFrame tickCount stack)) =
    handled at handledQueue stillEnded handledBatch ⊢
  have same := handleDeferredEvent_sameFrames mb deferredTicks handled.tasks
  have final := same.queue_eq.trans (handledQueue.trans takenQueue)
  intro notStranded
  have empty := notStranded
    (taskWaiting_handleDeferredEvent mb deferredTicks stillEnded handledBatch)
    (congrArg SignalledQueue.signal final)
    ((congrArg SignalledQueue.announcing final).trans settled)
  have left : [] = state.tasks.receiver.sec.processingQueue.drop maxProcessedPdusAtOnce :=
    empty.symm.trans (congrArg SignalledQueue.queue final)
  exact absurd (List.drop_eq_nil_iff.mp left.symm) (Nat.not_le_of_lt long)

/-! ## Runs -/

/-- In every run in which each wait that returns the event finds no more frames than fit into
a batch, no frame is stranded in any state reached.  And wherever a wait is to find more
frames, with no call of `enqueue_pdu_for_processing` under way, the task on its own comes to
wait again with frames left. -/
theorem frames_attended_when (mb : Mbedtls) (garbage : Fin 2 → Fin 5 → KeyReconstructionMap)
    (steps : List SignallingStep) :
    (Guarded (signallingStep mb) ShortQueueAtWait (startUpSignalling garbage) steps →
      ∀ reached, reached <+: steps →
        NoFrameStranded (run (signallingStep mb) (startUpSignalling garbage) reached)) ∧
    ∀ reached, reached <+: steps →
      let state := run (signallingStep mb) (startUpSignalling garbage) reached
      TaskWaiting state.tasks → state.tasks.eventGroup.newPdu = true → state.announcing = 0 →
        ¬ ShortQueueAtWait state .waitForEvents →
          ∀ tickCount stack deferredTicks, ¬ NoFrameStranded
            (run (signallingStep mb) state (fullRound tickCount stack deferredTicks)) := by
  constructor
  · intro guarded reached isPrefix
    have initial : (newPduQueue (startUpSignalling garbage)).Accounted maxProcessedPdusAtOnce :=
      SignalledQueue.accounted_empty _
    exact noFrameStranded_of_accounted ((guarded.of_prefix isPrefix).preserves
      (accounted_signallingStep mb) initial)
  · intro reached _ state waiting signal settled notShort tickCount stack deferredTicks
    refine stranded_of_longQueue mb tickCount stack deferredTicks waiting signal settled ?_
    exact Nat.lt_of_not_le fun short => notShort fun _ _ => short

def blankPdu (mac : EspBdAddr) : SignallingStep := .sendPdu (fun _ => 0) 0 mac

def burst (count : Nat) : List SignallingStep :=
  (List.replicate count [blankPdu 0xA1, .setNewPdu]).flatten

/-- Twenty frames are taken by one batch, of twenty-one one is left. -/
theorem frames_attended_bursts :
    (let steps := burst 20 ++ fullRound 0 .zero (fun _ _ => 0)
     ∀ reached, reached <+: steps →
      NoFrameStranded (run (signallingStep tabulated) (startUpSignalling blankCaches) reached)) ∧
    ¬ NoFrameStranded (run (signallingStep tabulated)
      (run (signallingStep tabulated) (startUpSignalling blankCaches) (burst 21))
      (fullRound 0 .zero fun _ _ => 0)) :=
  ⟨(frames_attended_when tabulated blankCaches _).1 (by decide +kernel),
    (frames_attended_when tabulated blankCaches (burst 21)).2 (burst 21) (List.prefix_refl _)
      (by decide +kernel) (by decide +kernel) (by decide +kernel) (by decide +kernel) 0 .zero _⟩

/-- The twenty-first frame of a burst stays behind. -/
theorem twenty_first_frame_stranded :
    ¬ NoFrameStranded (run (signallingStep tabulated) (startUpSignalling blankCaches)
      (burst 21 ++ fullRound 0 .zero fun _ _ => 0)) := by
  rw [run_append]
  exact stranded_of_longQueue tabulated 0 .zero _ (by decide +kernel) (by decide +kernel)
    (by decide +kernel) (by decide +kernel)

end BleBroadcast.Receiver
