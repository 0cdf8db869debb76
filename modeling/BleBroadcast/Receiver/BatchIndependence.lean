import BleBroadcast.Lib.CarriedPairs
import BleBroadcast.Receiver.AdvTimeAuthorize

/-!
# Batches of the authorization task

`process_authorization_for_consumer` takes at most six frames at a time from a private
queue and keeps the last one for the next call.  The frames it passes on are those a
comparison of all neighbours in the queue would pass on, wherever its batches end.
-/

set_option autoImplicit false

namespace BleBroadcast.Receiver

open BleBroadcast.Core BleBroadcast.Lib

inductive PrivateQueueStep where
  | place (pdu : ScanPdu)
  | process

def privateQueueStep (index : Fin 2) (ao : AdvTimeAuthorizeStructure) :
    PrivateQueueStep → AdvTimeAuthorizeStructure
  | .place pdu =>
      setAuthorization ao index { ao.consumers index with
        privateQueue := (ao.consumers index).privateQueue ++ [pdu] }
  | .process => processAuthorizationForConsumer ao index

def placedPdus (steps : List PrivateQueueStep) : List ScanPdu :=
  steps.filterMap fun
    | .place pdu => some pdu
    | .process => none

/-- The frames passed on without batches: each that its successor authorizes. -/
def passedOn (mac : EspBdAddr) (received : List ScanPdu) : List EnqueueCall :=
  (selectedPairs authorizes received).map fun pdu => ⟨pdu.data, pdu.size, mac⟩

/-- The frame that an entry carries to its next batch: a zero timestamp marks none. -/
def carriedPdu (consumer : ConsumerAuthorizationStructure) : Option ScanPdu :=
  if consumer.lastProcessedPdu.timestampUs ≠ 0 then some consumer.lastProcessedPdu else none

theorem authorizePdus_eq (mac : EspBdAddr) (pdus : List ScanPdu) :
    ∀ last : ScanPdu, (last :: pdus).getLast? = some (authorizePdus mac last pdus).1 ∧
      (authorizePdus mac last pdus).2 = passedOn mac (last :: pdus) := by
  induction pdus with
  | nil => exact fun _ => ⟨rfl, rfl⟩
  | cons pdu rest ih =>
      intro last
      obtain ⟨final, calls⟩ := ih pdu
      refine ⟨List.getLast?_cons_cons.trans final, ?_⟩
      simp only [authorizePdus, calls, passedOn, selectedPairs_cons_cons]
      split <;> rfl

/-- The comparisons of a batch are those of a stream with the carried frame in front. -/
theorem authorizeBatch_eq (consumer : ConsumerAuthorizationStructure) {pdus : List ScanPdu}
    (stamped : ∀ pdu ∈ pdus, pdu.timestampUs ≠ 0) :
    carriedPdu { consumer with lastProcessedPdu := (authorizeBatch consumer pdus).1 } =
      (selectBatch authorizes (carriedPdu consumer) pdus).1 ∧
    (authorizeBatch consumer pdus).2 =
      (selectBatch authorizes (carriedPdu consumer) pdus).2.map fun pdu =>
        ⟨pdu.data, pdu.size, consumer.consumerAddr⟩ := by
  have afterwards : ∀ last : ScanPdu, last.timestampUs ≠ 0 →
      ∀ rest, (∀ pdu ∈ rest, pdu.timestampUs ≠ 0) →
      carriedPdu { consumer with
        lastProcessedPdu := (authorizePdus consumer.consumerAddr last rest).1 } =
        (last :: rest).getLast? := by
    intro last lastStamped rest restStamped
    have final := (authorizePdus_eq consumer.consumerAddr rest last).1
    have member := List.mem_of_getLast? final
    have finalStamped : (authorizePdus consumer.consumerAddr last rest).1.timestampUs ≠ 0 := by
      rcases List.mem_cons.mp member with same | later
      · rw [same]
        exact lastStamped
      · exact restStamped _ later
    rw [final, carriedPdu, if_pos finalStamped]
  unfold authorizeBatch
  by_cases carries : consumer.lastProcessedPdu.timestampUs ≠ 0
  · rw [if_pos carries, carriedPdu, carriedPdu, if_pos carries, ← carriedPdu]
    exact ⟨afterwards _ carries pdus stamped, (authorizePdus_eq _ pdus _).2⟩
  · rw [if_neg carries]
    cases pdus with
    | nil => simp [carriedPdu, carries, selectBatch_nil, ScanPdu.zero]
    | cons first rest =>
        have none : carriedPdu consumer = .none := if_neg carries
        rw [none]
        exact ⟨afterwards first (stamped first List.mem_cons_self) rest
          (fun pdu member => stamped pdu (List.mem_cons_of_mem _ member)),
          (authorizePdus_eq _ rest first).2⟩

/-! ## Runs -/

/-- Where the comparisons of an entry stand: `received` are the frames taken from its queue
so far, `placed` all frames placed there. -/
structure ComparedUpTo (index : Fin 2) (mac : EspBdAddr) (earlier : List EnqueueCall)
    (placed received : List ScanPdu) (ao : AdvTimeAuthorizeStructure) : Prop where
  address : (ao.consumers index).consumerAddr = mac
  queue : received ++ (ao.consumers index).privateQueue = placed
  carried : carriedPdu (ao.consumers index) = received.getLast?
  enqueued : ao.enqueued = earlier ++ passedOn mac received

variable {index : Fin 2} {mac : EspBdAddr} {earlier : List EnqueueCall}
  {placed received : List ScanPdu} {ao : AdvTimeAuthorizeStructure}

theorem ComparedUpTo.place (compared : ComparedUpTo index mac earlier placed received ao)
    (pdu : ScanPdu) :
    ComparedUpTo index mac earlier (placed ++ [pdu]) received
      (privateQueueStep index ao (.place pdu)) := by
  obtain ⟨address, queue, carried, enqueued⟩ := compared
  refine ⟨?_, ?_, ?_, enqueued⟩ <;> simp only [privateQueueStep, setAuthorization,
    Function.update_self]
  · exact address
  · rw [← List.append_assoc, queue]
  · exact carried

theorem ComparedUpTo.process (compared : ComparedUpTo index mac earlier placed received ao)
    (stamped : ∀ pdu ∈ placed, pdu.timestampUs ≠ 0) :
    ComparedUpTo index mac earlier placed
      (received ++ (ao.consumers index).privateQueue.take maxPduProcessPerConsumer)
      (privateQueueStep index ao .process) := by
  obtain ⟨address, queue, carried, enqueued⟩ := compared
  have batchStamped : ∀ pdu ∈ (ao.consumers index).privateQueue.take maxPduProcessPerConsumer,
      pdu.timestampUs ≠ 0 :=
    fun pdu member => stamped pdu (queue ▸ List.mem_append_right _ (List.mem_of_mem_take member))
  obtain ⟨nextCarried, calls⟩ := authorizeBatch_eq (ao.consumers index) batchStamped
  obtain ⟨last, selected⟩ := selectBatch_append authorizes received
    ((ao.consumers index).privateQueue.take maxPduProcessPerConsumer)
  rw [carried] at nextCarried calls
  refine ⟨?_, ?_, ?_, ?_⟩ <;> simp only [privateQueueStep, processAuthorizationForConsumer,
    setAuthorization, Function.update_self]
  · exact address
  · rw [List.append_assoc, List.take_append_drop, queue]
  · exact nextCarried.trans last
  · rw [enqueued, calls, passedOn, passedOn, selected, List.map_append, List.append_assoc, address]

/-- Batch independence: whatever frames with non-zero timestamps are placed in a private
queue that was never processed, and however the processing of it falls between them, the
frames passed on are those of the frames received so far that the next one received
authorizes, each once and in order. -/
theorem batch_independence (ao : AdvTimeAuthorizeStructure) (index : Fin 2)
    (fresh : (ao.consumers index).lastProcessedPdu.timestampUs = 0)
    (empty : (ao.consumers index).privateQueue = []) (steps : List PrivateQueueStep)
    (stamped : ∀ pdu ∈ placedPdus steps, pdu.timestampUs ≠ 0) :
    let final := run (privateQueueStep index) ao steps
    ∃ received, received ++ (final.consumers index).privateQueue = placedPdus steps ∧
      final.enqueued = ao.enqueued ++ passedOn (ao.consumers index).consumerAddr received := by
  have main : ∀ (steps : List PrivateQueueStep) (placed received : List ScanPdu)
      (current : AdvTimeAuthorizeStructure),
      ComparedUpTo index (ao.consumers index).consumerAddr ao.enqueued placed received current →
      (∀ pdu ∈ placed ++ placedPdus steps, pdu.timestampUs ≠ 0) →
      ∃ received, ComparedUpTo index (ao.consumers index).consumerAddr ao.enqueued
        (placed ++ placedPdus steps) received (run (privateQueueStep index) current steps) := by
    intro steps
    induction steps with
    | nil =>
        intro placed received current compared _
        exact ⟨received, by simpa [placedPdus] using compared⟩
    | cons step rest ih =>
        intro placed received current compared stamped
        cases step with
        | place pdu =>
            have split : placed ++ placedPdus (.place pdu :: rest) =
                placed ++ [pdu] ++ placedPdus rest := by simp [placedPdus]
            rw [split] at stamped ⊢
            exact ih _ received _ (compared.place pdu) stamped
        | process =>
            exact ih placed _ _ (compared.process fun pdu member =>
              stamped pdu (List.mem_append_left _ member)) stamped
  obtain ⟨received, compared⟩ := main steps [] [] ao
    ⟨rfl, by simp [empty], by simp [carriedPdu, fresh], by simp [passedOn]⟩ stamped
  exact ⟨received, compared.queue, compared.enqueued⟩

/-- Frame `number` of session 1, heard on time. -/
def frameOnTime (number : UInt16) : ScanPdu where
  timestampUs := 1 + 3000000 * number.toNat
  data := fun _ => 0
  size := number.toNat
  pduNo := number
  keyId := 1

/-- Two batches of one and seven frames, with an empty one between them. -/
theorem batch_independence_eight_frames :
    let steps := .process :: .place (frameOnTime 1) :: .process :: .process ::
      ((List.range 7).map fun i => .place (frameOnTime (UInt16.ofNat (i + 2)))) ++
        [.process, .process]
    let final := run (privateQueueStep 0) initAdvTimeAuthorizeObject steps
    final.enqueued.map EnqueueCall.size = [1, 2, 3, 4, 5, 6, 7] ∧
    ∃ received, received ++ (final.consumers 0).privateQueue = placedPdus steps ∧
      final.enqueued = initAdvTimeAuthorizeObject.enqueued ++
        passedOn (initAdvTimeAuthorizeObject.consumers 0).consumerAddr received :=
  ⟨by decide +kernel,
    batch_independence initAdvTimeAuthorizeObject 0 rfl rfl _ (by decide +kernel)⟩

end BleBroadcast.Receiver
