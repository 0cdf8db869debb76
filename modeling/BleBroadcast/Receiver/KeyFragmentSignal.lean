import BleBroadcast.Lib.GuardedRun
import BleBroadcast.Lib.SignalledQueue
import BleBroadcast.Receiver.KeyReconstructor

/-!
# Key fragments and their event

The queue of the reconstructor with its event, step by step: `queue_key_for_reconstruction`
tries a few times to send an element and then sets the event; `reconstructor_main` waits for
the event, receives a batch one element at a time and then handles it.
-/

set_option autoImplicit false

namespace BleBroadcast.Receiver

open BleBroadcast.Core BleBroadcast.Lib

universe u

/-- Where a call of `queue_key_for_reconstruction` is: none is made, it has seen that the key
is not available yet, it has so many tries left to send its element, or it has sent it and
not set the event yet. -/
inductive QueueingPoint where
  | returned
  | unavailable (element : ReconstructorQueueElement)
  | sending (element : ReconstructorQueueElement) (retries : Nat)
  | sent

inductive ReconstructorPoint where
  | waiting
  | receiving (keyFragmentBatch : List ReconstructorQueueElement)
  | handling (keyFragmentBatch : List ReconstructorQueueElement)

/-- `client` is what the registered callback acts on. -/
structure FragmentSignalling (size : Nat) (σ : Type u) where
  control : KeyReconstructorControl size
  client : σ
  event : Bool
  queueing : QueueingPoint
  point : ReconstructorPoint

variable {size : Nat} {σ : Type u}

def startUpReconstructor (size : Nat) (client : σ) : FragmentSignalling size σ where
  control := startUpKeyReconstructor size
  client := client
  event := false
  queueing := .returned
  point := .waiting

abbrev maxRetries : Nat := 5

inductive FragmentStep where
  | queueKey (element : ReconstructorQueueElement)
  | checkFragment
  | queueSend
  | setEvent
  | waitForEvent
  | receiveFragment
  | nextFragment

/-- `queue_key_for_reconstruction` up to the check for the key, or its return. -/
def beginQueueing (state : FragmentSignalling size σ) (element : ReconstructorQueueElement) :
    FragmentSignalling size σ :=
  if isKeyAvailable state.control.keyCollection element.consumerMacAddress element.keyByte then
    state
  else { state with queueing := .unavailable element }

/-- The check for the fragment. -/
def checkFragment (state : FragmentSignalling size σ) (element : ReconstructorQueueElement) :
    FragmentSignalling size σ :=
  { state with
    queueing :=
      if isKeyFragmentDecrypted state.control.keyCollection element.consumerMacAddress
          element.keyByte element.keyFragmentNo then .returned
      else .sending element maxRetries }

/-- A try to send the element: without room one try less is left. -/
def tryToSend (state : FragmentSignalling size σ) (element : ReconstructorQueueElement)
    (retries : Nat) : FragmentSignalling size σ :=
  let queue := state.control.xQueueKeyReconstruction
  if queue.length < maxElementsInQueue then
    { state with
      control := { state.control with xQueueKeyReconstruction := queue ++ [element] }
      queueing := .sent }
  else
    { state with
      queueing := if retries ≤ 1 then .returned else .sending element (retries - 1) }

/-- A turn of the first loop of `handle_event_new_key_fragment_in_queue`, or its end. -/
def receiveFragment (state : FragmentSignalling size σ)
    (keyFragmentBatch : List ReconstructorQueueElement) : FragmentSignalling size σ :=
  if keyFragmentBatch.length < maxKeyProcessesAtOnce then
    match state.control.xQueueKeyReconstruction with
    | [] => { state with point := .handling keyFragmentBatch }
    | element :: rest =>
        { state with
          control := { state.control with xQueueKeyReconstruction := rest }
          point := .receiving (keyFragmentBatch ++ [element]) }
  else { state with point := .handling keyFragmentBatch }

/-- A turn of the second loop, or the way back to the wait. -/
def handleFragment (mb : Mbedtls) (keyRecCb : Option (KeyReconstructionCompleteCb σ))
    (state : FragmentSignalling size σ) :
    List ReconstructorQueueElement → FragmentSignalling size σ
  | [] => { state with point := .waiting }
  | element :: rest =>
      let (km, client) :=
        handleKeyFragment mb keyRecCb (state.control.keyCollection, state.client) element
      { state with
        control := { state.control with keyCollection := km }
        client := client
        point := .handling rest }

def fragmentStep (mb : Mbedtls) (keyRecCb : Option (KeyReconstructionCompleteCb σ))
    (state : FragmentSignalling size σ) (step : FragmentStep) : FragmentSignalling size σ :=
  match step, state.queueing, state.point with
  | .queueKey element, .returned, _ => beginQueueing state element
  | .checkFragment, .unavailable element, _ => checkFragment state element
  | .queueSend, .sending element retries, _ => tryToSend state element retries
  | .setEvent, .sent, _ =>
      { state with
        event := true
        queueing := .returned }
  | .waitForEvent, _, .waiting =>
      if state.event then
        { state with
          event := false
          point := .receiving [] }
      else state
  | .receiveFragment, _, .receiving batch => receiveFragment state batch
  | .nextFragment, _, .handling batch => handleFragment mb keyRecCb state batch
  | _, _, _ => state

/-- No element waits in the queue without an event to come. -/
def NoFragmentStranded (state : FragmentSignalling size σ) : Prop :=
  state.point = .waiting → state.event = false → state.queueing ≠ .sent →
    state.control.xQueueKeyReconstruction = []

/-! ## The queue as a queue with one wake-up bit -/

def fragmentQueue (state : FragmentSignalling size σ) :
    SignalledQueue ReconstructorQueueElement where
  queue := state.control.xQueueKeyReconstruction
  signal := state.event
  announcing :=
    match state.queueing with
    | .sent => 1
    | _ => 0
  received :=
    match state.point with
    | .receiving batch => some batch.length
    | _ => none

theorem fragmentQueue_beginQueueing {state : FragmentSignalling size σ}
    (free : state.queueing = .returned) (element : ReconstructorQueueElement) :
    fragmentQueue (beginQueueing state element) = fragmentQueue state := by
  unfold beginQueueing
  split
  · rfl
  · simp only [fragmentQueue, free]

theorem fragmentQueue_checkFragment {state : FragmentSignalling size σ}
    {element : ReconstructorQueueElement} (checking : state.queueing = .unavailable element) :
    fragmentQueue (checkFragment state element) = fragmentQueue state := by
  unfold checkFragment
  split <;> simp only [fragmentQueue, checking]

theorem fragmentQueue_tryToSend {state : FragmentSignalling size σ}
    {element : ReconstructorQueueElement} {retries : Nat}
    (trying : state.queueing = .sending element retries) :
    fragmentQueue (tryToSend state element retries) =
      (fragmentQueue state).send maxElementsInQueue element := by
  by_cases room : state.control.xQueueKeyReconstruction.length < maxElementsInQueue
  · have hasRoom : (fragmentQueue state).queue.length < maxElementsInQueue := room
    rw [SignalledQueue.send, if_pos hasRoom]
    simp only [fragmentQueue, tryToSend, if_pos room, trying]
  · have noRoom : ¬ (fragmentQueue state).queue.length < maxElementsInQueue := room
    rw [SignalledQueue.send, if_neg noRoom]
    by_cases lastTry : retries ≤ 1
    · simp only [fragmentQueue, tryToSend, if_neg room, trying, if_pos lastTry]
    · simp only [fragmentQueue, tryToSend, if_neg room, trying, if_neg lastTry]

theorem fragmentQueue_receiveFragment {state : FragmentSignalling size σ}
    {batch : List ReconstructorQueueElement} (receiving : state.point = .receiving batch) :
    fragmentQueue (receiveFragment state batch) =
      (fragmentQueue state).receive maxKeyProcessesAtOnce := by
  by_cases room : batch.length < maxKeyProcessesAtOnce
  · cases waiting : state.control.xQueueKeyReconstruction with
    | nil => simp [fragmentQueue, receiveFragment, SignalledQueue.receive, receiving, room, waiting]
    | cons element rest =>
        simp [fragmentQueue, receiveFragment, SignalledQueue.receive, receiving, room, waiting]
  · simp [fragmentQueue, receiveFragment, SignalledQueue.receive, receiving, room]

theorem fragmentQueue_handleFragment (mb : Mbedtls)
    (keyRecCb : Option (KeyReconstructionCompleteCb σ)) {state : FragmentSignalling size σ}
    {batch : List ReconstructorQueueElement} (handling : state.point = .handling batch) :
    fragmentQueue (handleFragment mb keyRecCb state batch) = fragmentQueue state := by
  cases batch with
  | nil => simp only [fragmentQueue, handleFragment, handling]
  | cons element rest => simp only [fragmentQueue, handleFragment, handling]

theorem fragmentStep_queue (mb : Mbedtls) (keyRecCb : Option (KeyReconstructionCompleteCb σ))
    (state : FragmentSignalling size σ) (step : FragmentStep) :
    fragmentQueue (fragmentStep mb keyRecCb state step) = fragmentQueue state ∨
    (∃ element, fragmentQueue (fragmentStep mb keyRecCb state step) =
      (fragmentQueue state).send maxElementsInQueue element) ∨
    fragmentQueue (fragmentStep mb keyRecCb state step) = (fragmentQueue state).announce ∨
    fragmentQueue (fragmentStep mb keyRecCb state step) = (fragmentQueue state).wake ∨
    fragmentQueue (fragmentStep mb keyRecCb state step) =
      (fragmentQueue state).receive maxKeyProcessesAtOnce := by
  cases step with
  | queueKey element =>
      cases free : state.queueing with
      | returned =>
          simp only [fragmentStep, free]
          exact Or.inl (fragmentQueue_beginQueueing free element)
      | _ => exact Or.inl (by simp only [fragmentStep, free])
  | checkFragment =>
      cases checking : state.queueing with
      | unavailable element =>
          simp only [fragmentStep, checking]
          exact Or.inl (fragmentQueue_checkFragment checking)
      | _ => exact Or.inl (by simp only [fragmentStep, checking])
  | queueSend =>
      cases trying : state.queueing with
      | sending element retries =>
          simp only [fragmentStep, trying]
          exact Or.inr (Or.inl ⟨element, fragmentQueue_tryToSend trying⟩)
      | _ => exact Or.inl (by simp only [fragmentStep, trying])
  | setEvent =>
      cases setting : state.queueing with
      | sent =>
          refine Or.inr (Or.inr (Or.inl ?_))
          simp only [fragmentStep, setting, fragmentQueue, SignalledQueue.announce]
      | _ => exact Or.inl (by simp only [fragmentStep, setting])
  | waitForEvent =>
      cases waiting : state.point with
      | waiting =>
          simp only [fragmentStep, waiting]
          split
          · exact Or.inr (Or.inr (Or.inr (Or.inl rfl)))
          · exact Or.inl rfl
      | _ => exact Or.inl (by simp only [fragmentStep, waiting])
  | receiveFragment =>
      cases receiving : state.point with
      | receiving batch =>
          simp only [fragmentStep, receiving]
          exact Or.inr (Or.inr (Or.inr (Or.inr (fragmentQueue_receiveFragment receiving))))
      | _ => exact Or.inl (by simp only [fragmentStep, receiving])
  | nextFragment =>
      cases handling : state.point with
      | handling batch =>
          simp only [fragmentStep, handling]
          exact Or.inl (fragmentQueue_handleFragment mb keyRecCb handling)
      | _ => exact Or.inl (by simp only [fragmentStep, handling])

structure QueueInHand (state : FragmentSignalling size σ) : Prop where
  accounted : (fragmentQueue state).Accounted maxKeyProcessesAtOnce
  within : (fragmentQueue state).queue.length ≤ maxElementsInQueue

theorem QueueInHand.fragmentStep (mb : Mbedtls)
    (keyRecCb : Option (KeyReconstructionCompleteCb σ)) {state : FragmentSignalling size σ}
    (inHand : QueueInHand state) (step : FragmentStep) :
    QueueInHand (fragmentStep mb keyRecCb state step) := by
  obtain ⟨accounted, within⟩ := inHand
  obtain same | ⟨element, sent⟩ | announced | woken | received :=
    fragmentStep_queue mb keyRecCb state step
  · exact ⟨same ▸ accounted, same ▸ within⟩
  · exact ⟨sent ▸ accounted.send element, sent ▸ SignalledQueue.length_send_le within element⟩
  · exact ⟨announced ▸ SignalledQueue.accounted_announce _, announced ▸ within⟩
  · have fits : (fragmentQueue state).queue.length ≤ maxKeyProcessesAtOnce :=
      within.trans (by decide)
    exact ⟨woken ▸ SignalledQueue.accounted_wake fits, woken ▸ within⟩
  · exact ⟨received ▸ accounted.receive,
      received ▸ (SignalledQueue.length_receive_le _).trans within⟩

/-! ## A call that nobody disturbs -/

/-- Without a turn of the reconstructor in between, the steps of a call do what
`queue_key_for_reconstruction` does. -/
theorem run_queueing (mb : Mbedtls) (keyRecCb : Option (KeyReconstructionCompleteCb σ))
    {state : FragmentSignalling size σ} (free : state.queueing = .returned)
    (element : ReconstructorQueueElement) :
    (run (fragmentStep mb keyRecCb) state
      (.queueKey element :: .checkFragment :: List.replicate maxRetries .queueSend)).control =
      (queueKeyForReconstruction state.control element).2 := by
  unfold queueKeyForReconstruction
  by_cases available : isKeyAvailable state.control.keyCollection element.consumerMacAddress
      element.keyByte = true
  · simp [fragmentStep, beginQueueing, free, available, List.replicate]
  · by_cases decrypted : isKeyFragmentDecrypted state.control.keyCollection
        element.consumerMacAddress element.keyByte element.keyFragmentNo = true
    · simp [fragmentStep, beginQueueing, checkFragment, free, available, decrypted,
        List.replicate]
    · by_cases room : state.control.xQueueKeyReconstruction.length < maxElementsInQueue
      · simp [fragmentStep, beginQueueing, checkFragment, tryToSend, free, available, decrypted,
          room, List.replicate]
      · simp [fragmentStep, beginQueueing, checkFragment, tryToSend, free, available, decrypted,
          room, List.replicate]

/-! ## Runs -/

/-- In every run of the calls and of the reconstructor, from start-up and in any
interleaving, no fragment is stranded: while the reconstructor waits with the event clear
and no call is about to set it, the queue is empty. -/
theorem no_fragment_stranded (mb : Mbedtls) (keyRecCb : Option (KeyReconstructionCompleteCb σ))
    (size : Nat) (client : σ) (steps : List FragmentStep) :
    NoFragmentStranded
      (run (fragmentStep mb keyRecCb) (startUpReconstructor size client) steps) := by
  have initial : QueueInHand (startUpReconstructor size client) :=
    ⟨SignalledQueue.accounted_empty _, Nat.zero_le _⟩
  have inHand := run_preserves QueueInHand
    (fun _ step inHand => inHand.fragmentStep mb keyRecCb step) initial steps
  generalize run (fragmentStep mb keyRecCb) (startUpReconstructor size client) steps = state
    at inHand ⊢
  intro waiting clear notSent
  refine inHand.accounted.idle (by simp [fragmentQueue, waiting]) clear ?_
  cases queueing : state.queueing with
  | sent => exact absurd queueing notSent
  | _ => simp only [fragmentQueue, queueing]

end BleBroadcast.Receiver
