import BleBroadcast.Core.BeaconPdu
import BleBroadcast.Lib.GuardedRun

/-!
# Authorization of advertisements

Model of `adv_time_authorize.c`: the callback of the scan, which filters repeated
advertisements and puts the others into the private queue of their sender, and the
task that compares the times of two consecutive frames of a queue.

`double` arithmetic is read as exact.  Ghosts number the advertisements heard and
record what was put into the private queues and what was enqueued for processing.
-/

set_option autoImplicit false

namespace BleBroadcast.Receiver

open BleBroadcast.Core BleBroadcast.Lib

abbrev consumerPrivateQueueSize : Nat := 50

abbrev maxPduProcessPerConsumer : Nat := 6

structure ScanPdu where
  timestampUs : Int
  data : Memory
  size : Nat
  pduNo : UInt16
  keyId : UInt16

def ScanPdu.zero : ScanPdu := ⟨0, fun _ => 0, 0, 0, 0⟩

structure ConsumerAuthorizationStructure where
  consumerAddr : EspBdAddr
  lastProcessedPdu : ScanPdu
  privateQueue : List ScanPdu
  lastPduNo : UInt16
  lastPduKeyId : UInt16
  active : Bool

structure QueuedPdu where
  consumerAddr : EspBdAddr
  hearing : Nat
  pdu : ScanPdu

/-- What `enqueue_pdu_for_processing` was called with. -/
structure EnqueueCall where
  data : Memory
  size : Nat
  macAddress : EspBdAddr

structure AdvTimeAuthorizeStructure where
  consumers : Fin 2 → ConsumerAuthorizationStructure
  heard : Nat
  queued : List QueuedPdu
  enqueued : List EnqueueCall

def initConsumerAuthorizationStructure : ConsumerAuthorizationStructure where
  consumerAddr := 0
  lastProcessedPdu := .zero
  privateQueue := []
  lastPduNo := 0
  lastPduKeyId := 0
  active := false

def initAdvTimeAuthorizeObject : AdvTimeAuthorizeStructure where
  consumers := fun _ => initConsumerAuthorizationStructure
  heard := 0
  queued := []
  enqueued := []

/-- An advertisement that the controller reports: `data` is the buffer, of which `dataSize`
bytes belong to it, and `stack` is what lies where the callback has its local `scan_pdu`. -/
structure Hearing where
  timestampUs : Int
  data : Memory
  dataSize : Nat
  macAddress : EspBdAddr
  stack : Memory

def setAuthorization (ao : AdvTimeAuthorizeStructure) (index : Fin 2)
    (consumer : ConsumerAuthorizationStructure) : AdvTimeAuthorizeStructure :=
  { ao with consumers := Function.update ao.consumers index consumer }

/-- `get_consumer_index_for_addr`: the loop keeps the last free entry it passes. -/
def getConsumerIndexForAddr (ao : AdvTimeAuthorizeStructure) (mac : EspBdAddr) :
    Option (Fin 2) × AdvTimeAuthorizeStructure :=
  match Fin.find? fun i => (ao.consumers i).consumerAddr == mac with
  | some index => (some index, ao)
  | none =>
      match Fin.findRev? fun i => (ao.consumers i).consumerAddr == 0 with
      | some free =>
          (some free, setAuthorization ao free
            { ao.consumers free with
              consumerAddr := mac
              active := true })
      | none => (none, ao)

/-- The `scan_pdu` that the callback fills.  The two words are read from the buffer,
whatever the size of the advertisement. -/
def scanPduOf (heard : Hearing) : ScanPdu where
  timestampUs := heard.timestampUs
  data := fun i => if i < heard.dataSize then heard.data i else heard.stack i
  size := heard.dataSize
  pduNo := wordOfBytes (heard.data pduNoOffset) (heard.data (pduNoOffset + 1))
  keyId := getKeyIdFromKeySessionData
    (wordOfBytes (heard.data keySessionOffset) (heard.data (keySessionOffset + 1)))

/-- The `xQueueSend` of the callback, which fails when the queue is full. -/
def sendToPrivateQueue (ao : AdvTimeAuthorizeStructure) (index : Fin 2) (heard : Hearing) :
    AdvTimeAuthorizeStructure :=
  let consumer := ao.consumers index
  if consumer.privateQueue.length < consumerPrivateQueueSize then
    { setAuthorization ao index
        { consumer with privateQueue := consumer.privateQueue ++ [scanPduOf heard] } with
      queued := ao.queued ++ [⟨consumer.consumerAddr, ao.heard, scanPduOf heard⟩] }
  else ao

/-- The notes of the callback.  `ao_control_structure.consumers->last_pdu_no` is the
field of the first entry, whoever the sender is. -/
def noteLastPdu (ao : AdvTimeAuthorizeStructure) (pduNo keyId : UInt16) :
    AdvTimeAuthorizeStructure :=
  setAuthorization ao 0 { ao.consumers 0 with
    lastPduNo := pduNo
    lastPduKeyId := keyId }

/-- `scan_complete_callback`, without the count of the hearing. -/
def filterAdvertisement (ao : AdvTimeAuthorizeStructure) (heard : Hearing) :
    AdvTimeAuthorizeStructure :=
  if isPduInBeaconPduFormat heard.data heard.dataSize then
    match getConsumerIndexForAddr ao heard.macAddress with
    | (none, claimed) => claimed
    | (some index, claimed) =>
        let pdu := scanPduOf heard
        if (claimed.consumers 0).lastPduKeyId = pdu.keyId then
          if pdu.pduNo > (claimed.consumers 0).lastPduNo then
            noteLastPdu (sendToPrivateQueue claimed index heard) pdu.pduNo
              (claimed.consumers 0).lastPduKeyId
          else claimed
        else
          noteLastPdu (sendToPrivateQueue claimed index heard) pdu.pduNo pdu.keyId
  else ao

def scanCompleteCallback (ao : AdvTimeAuthorizeStructure) (heard : Hearing) :
    AdvTimeAuthorizeStructure :=
  { filterAdvertisement ao heard with heard := ao.heard + 1 }

/-! ## The authorization task -/

def getToleranceWindowBasedOnAdvInterval (advInterval : Nat) : Int :=
  if advInterval ≥ 3000 then ⌊(advInterval : Rat) * 5 / 100⌋
  else if advInterval ≥ 1000 then ⌊(advInterval : Rat) * 10 / 100⌋
  else if advInterval > 500 then ⌊(advInterval : Rat) * 15 / 100⌋
  else if advInterval > 200 then ⌊(advInterval : Rat) * 20 / 100⌋
  else ⌊(advInterval : Rat) * 30 / 100⌋

/-- `difference_timestamps`: the product is one of 32-bit unsigned numbers, the
division truncates, and the difference is converted to `int`. -/
def differenceTimestamps (last pdu : ScanPdu) : Int :=
  let advTime := getAdvIntervalFromKeyId pdu.keyId
  let timestampDiffMs := (pdu.timestampUs - last.timestampUs).tdiv 1000
  let timestampDiffFromPdus : Int :=
    (((pdu.pduNo.toNat : Int) - last.pduNo.toNat) * advTime) % 2 ^ 32
  (timestampDiffFromPdus - timestampDiffMs).bmod (2 ^ 32)

/-- The frame after `last` is of its session, and comes when it should. -/
def authorizes (last pdu : ScanPdu) : Bool :=
  let tolerance := getToleranceWindowBasedOnAdvInterval (getAdvIntervalFromKeyId pdu.keyId)
  pdu.keyId = last.keyId ∧ differenceTimestamps last pdu ≤ tolerance ∧
    differenceTimestamps last pdu ≥ -tolerance

/-- The loop of `process_authorization_for_consumer`: the frame it ends with and the
frames it enqueues. -/
def authorizePdus (mac : EspBdAddr) : ScanPdu → List ScanPdu → ScanPdu × List EnqueueCall
  | last, [] => (last, [])
  | last, pdu :: rest =>
      let (final, calls) := authorizePdus mac pdu rest
      (final, if authorizes last pdu then ⟨last.data, last.size, mac⟩ :: calls else calls)

/-- The comparisons of `process_authorization_for_consumer`.  Without an earlier frame they
start from the first of the batch, or from a zeroed one if the batch is empty. -/
def authorizeBatch (consumer : ConsumerAuthorizationStructure) (pdus : List ScanPdu) :
    ScanPdu × List EnqueueCall :=
  if consumer.lastProcessedPdu.timestampUs ≠ 0 then
    authorizePdus consumer.consumerAddr consumer.lastProcessedPdu pdus
  else
    match pdus with
    | [] => (.zero, [])
    | first :: rest => authorizePdus consumer.consumerAddr first rest

def processAuthorizationForConsumer (ao : AdvTimeAuthorizeStructure) (index : Fin 2) :
    AdvTimeAuthorizeStructure :=
  let consumer := ao.consumers index
  let (final, calls) :=
    authorizeBatch consumer (consumer.privateQueue.take maxPduProcessPerConsumer)
  { setAuthorization ao index
      { consumer with
        privateQueue := consumer.privateQueue.drop maxPduProcessPerConsumer
        lastProcessedPdu := final } with
    enqueued := ao.enqueued ++ calls }

/-- The body of the loop of `adv_authorize_main`. -/
def authorizeConsumer (ao : AdvTimeAuthorizeStructure) (index : Fin 2) :
    AdvTimeAuthorizeStructure :=
  if (ao.consumers index).active then processAuthorizationForConsumer ao index else ao

/-! ## Runs -/

inductive AuthorizeStep where
  | hear (heard : Hearing)
  | authorize (index : Fin 2)

def authorizeStep (ao : AdvTimeAuthorizeStructure) : AuthorizeStep → AdvTimeAuthorizeStructure
  | .hear heard => scanCompleteCallback ao heard
  | .authorize index => authorizeConsumer ao index

/-- A turn of the task goes through the whole table. -/
def authorizeEach : List AuthorizeStep := (List.finRange 2).map .authorize

@[simp] theorem authorizeStep_hear (ao : AdvTimeAuthorizeStructure) (heard : Hearing) :
    authorizeStep ao (.hear heard) = scanCompleteCallback ao heard := rfl

@[simp] theorem authorizeStep_authorize (ao : AdvTimeAuthorizeStructure) (index : Fin 2) :
    authorizeStep ao (.authorize index) = authorizeConsumer ao index := rfl

def hearings (steps : List AuthorizeStep) : List Hearing :=
  steps.filterMap fun
    | .hear heard => some heard
    | .authorize _ => none

@[simp] theorem hearings_hear (heard : Hearing) (rest : List AuthorizeStep) :
    hearings (.hear heard :: rest) = heard :: hearings rest := rfl

@[simp] theorem hearings_authorize (index : Fin 2) (rest : List AuthorizeStep) :
    hearings (.authorize index :: rest) = hearings rest := rfl

/-! ## Entries -/

theorem getConsumerIndexForAddr_cases (ao : AdvTimeAuthorizeStructure) (mac : EspBdAddr) :
    (∃ index, (ao.consumers index).consumerAddr = mac ∧
      getConsumerIndexForAddr ao mac = (some index, ao)) ∨
    ((∀ i, (ao.consumers i).consumerAddr ≠ mac) ∧
      ∃ free, (ao.consumers free).consumerAddr = 0 ∧
        getConsumerIndexForAddr ao mac =
          (some free, setAuthorization ao free
            { ao.consumers free with
              consumerAddr := mac
              active := true })) ∨
    ((∀ i, (ao.consumers i).consumerAddr ≠ mac) ∧ (∀ i, (ao.consumers i).consumerAddr ≠ 0) ∧
      getConsumerIndexForAddr ao mac = (none, ao)) := by
  cases found : Fin.find? fun i => (ao.consumers i).consumerAddr == mac with
  | some index =>
      have there : (ao.consumers index).consumerAddr = mac := by
        simpa using Fin.eq_true_of_find?_eq_some found
      exact Or.inl ⟨index, there, by simp only [getConsumerIndexForAddr, found]⟩
  | none =>
      have missing : ∀ i, (ao.consumers i).consumerAddr ≠ mac := by simpa using found
      cases free : Fin.findRev? fun i => (ao.consumers i).consumerAddr == 0 with
      | some index =>
          have zero : (ao.consumers index).consumerAddr = 0 := by
            have isFree := (Fin.findRev?_eq_some_iff.mp free).1
            simpa using isFree
          exact Or.inr (Or.inl ⟨missing, index, zero,
            by simp only [getConsumerIndexForAddr, found, free]⟩)
      | none =>
          have noneFree : ∀ i, (ao.consumers i).consumerAddr ≠ 0 := by simpa using free
          exact Or.inr (Or.inr ⟨missing, noneFree,
            by simp only [getConsumerIndexForAddr, found, free]⟩)

structure SameSender (before after : ConsumerAuthorizationStructure) : Prop where
  address : after.consumerAddr = before.consumerAddr
  active : after.active = before.active
  lastProcessedPdu : after.lastProcessedPdu = before.lastProcessedPdu

theorem sendToPrivateQueue_entry (ao : AdvTimeAuthorizeStructure) (index : Fin 2)
    (heard : Hearing) (i : Fin 2) :
    SameSender (ao.consumers i) ((sendToPrivateQueue ao index heard).consumers i) ∧
    (((sendToPrivateQueue ao index heard).consumers i).privateQueue =
        (ao.consumers i).privateQueue ∨
      i = index ∧ ((sendToPrivateQueue ao index heard).consumers i).privateQueue =
        (ao.consumers i).privateQueue ++ [scanPduOf heard]) := by
  simp only [sendToPrivateQueue]
  split
  · by_cases here : i = index
    · subst here
      simp only [setAuthorization, Function.update_self]
      exact ⟨⟨rfl, rfl, rfl⟩, Or.inr ⟨trivial, trivial⟩⟩
    · simp only [setAuthorization, Function.update_of_ne here]
      exact ⟨⟨rfl, rfl, rfl⟩, Or.inl trivial⟩
  · exact ⟨⟨rfl, rfl, rfl⟩, Or.inl rfl⟩

theorem noteLastPdu_entry (ao : AdvTimeAuthorizeStructure) (pduNo keyId : UInt16) (i : Fin 2) :
    SameSender (ao.consumers i) ((noteLastPdu ao pduNo keyId).consumers i) ∧
    ((noteLastPdu ao pduNo keyId).consumers i).privateQueue = (ao.consumers i).privateQueue := by
  by_cases here : i = 0
  · subst here
    simp only [noteLastPdu, setAuthorization, Function.update_self]
    exact ⟨⟨rfl, rfl, rfl⟩, trivial⟩
  · simp only [noteLastPdu, setAuthorization, Function.update_of_ne here]
    exact ⟨⟨rfl, rfl, rfl⟩, trivial⟩

theorem sendToPrivateQueue_enqueued (ao : AdvTimeAuthorizeStructure) (index : Fin 2)
    (heard : Hearing) : (sendToPrivateQueue ao index heard).enqueued = ao.enqueued := by
  simp only [sendToPrivateQueue]
  split <;> rfl

theorem filterAdvertisement_cases (ao : AdvTimeAuthorizeStructure) (heard : Hearing) :
    filterAdvertisement ao heard = ao ∨
    ∃ index claimed, isPduInBeaconPduFormat heard.data heard.dataSize = true ∧
      getConsumerIndexForAddr ao heard.macAddress = (some index, claimed) := by
  by_cases format : isPduInBeaconPduFormat heard.data heard.dataSize = true
  · obtain ⟨index, _, found⟩ | ⟨_, index, _, found⟩ | ⟨_, _, found⟩ :=
      getConsumerIndexForAddr_cases ao heard.macAddress
    · exact Or.inr ⟨index, _, format, found⟩
    · exact Or.inr ⟨index, _, format, found⟩
    · apply Or.inl
      simp only [filterAdvertisement, format, if_true, found]
  · exact Or.inl (if_neg format)

theorem filterAdvertisement_found {ao claimed : AdvTimeAuthorizeStructure} {heard : Hearing}
    {index : Fin 2} (format : isPduInBeaconPduFormat heard.data heard.dataSize = true)
    (found : getConsumerIndexForAddr ao heard.macAddress = (some index, claimed)) :
    ((claimed.consumers 0).lastPduKeyId = (scanPduOf heard).keyId ∧
      (scanPduOf heard).pduNo ≤ (claimed.consumers 0).lastPduNo ∧
      filterAdvertisement ao heard = claimed) ∨
    (((claimed.consumers 0).lastPduKeyId = (scanPduOf heard).keyId →
        (claimed.consumers 0).lastPduNo < (scanPduOf heard).pduNo) ∧
      filterAdvertisement ao heard =
        noteLastPdu (sendToPrivateQueue claimed index heard) (scanPduOf heard).pduNo
          (scanPduOf heard).keyId) := by
  simp only [filterAdvertisement, format, if_true, found]
  by_cases sameId : (claimed.consumers 0).lastPduKeyId = (scanPduOf heard).keyId
  · rw [if_pos sameId]
    by_cases above : (scanPduOf heard).pduNo > (claimed.consumers 0).lastPduNo
    · refine Or.inr ⟨fun _ => above, ?_⟩
      rw [if_pos above, sameId]
    · exact Or.inl ⟨sameId, by simpa using above, if_neg above⟩
  · exact Or.inr ⟨fun same => absurd same sameId, if_neg sameId⟩

theorem getConsumerIndexForAddr_enqueued (ao : AdvTimeAuthorizeStructure) (mac : EspBdAddr) :
    (getConsumerIndexForAddr ao mac).2.enqueued = ao.enqueued := by
  obtain ⟨_, _, result⟩ | ⟨_, _, _, result⟩ | ⟨_, _, result⟩ :=
    getConsumerIndexForAddr_cases ao mac
  all_goals rw [result]
  rfl

theorem scanCompleteCallback_cases (ao : AdvTimeAuthorizeStructure) (heard : Hearing) :
    let next := scanCompleteCallback ao heard
    next.enqueued = ao.enqueued ∧
    (next.consumers = ao.consumers ∨
      ∃ index claimed, isPduInBeaconPduFormat heard.data heard.dataSize = true ∧
        getConsumerIndexForAddr ao heard.macAddress = (some index, claimed) ∧
        ∀ i, SameSender (claimed.consumers i) (next.consumers i) ∧
          ((next.consumers i).privateQueue = (claimed.consumers i).privateQueue ∨
            i = index ∧ (next.consumers i).privateQueue =
              (claimed.consumers i).privateQueue ++ [scanPduOf heard])) := by
  intro next
  have isNext : next = { filterAdvertisement ao heard with heard := ao.heard + 1 } := rfl
  obtain same | ⟨index, claimed, format, found⟩ := filterAdvertisement_cases ao heard
  · rw [isNext, same]
    exact ⟨rfl, Or.inl rfl⟩
  · have claimEnqueued := getConsumerIndexForAddr_enqueued ao heard.macAddress
    rw [found] at claimEnqueued
    obtain ⟨_, _, stopped⟩ | ⟨_, taken⟩ := filterAdvertisement_found format found
    · rw [isNext, stopped]
      exact ⟨claimEnqueued, Or.inr ⟨index, claimed, format, found,
        fun _ => ⟨⟨rfl, rfl, rfl⟩, Or.inl rfl⟩⟩⟩
    · rw [isNext, taken]
      refine ⟨(sendToPrivateQueue_enqueued claimed index heard).trans claimEnqueued,
        Or.inr ⟨index, claimed, format, found, fun i => ?_⟩⟩
      obtain ⟨send, queue⟩ := sendToPrivateQueue_entry claimed index heard i
      obtain ⟨note, sameQueue⟩ := noteLastPdu_entry (sendToPrivateQueue claimed index heard)
        (scanPduOf heard).pduNo (scanPduOf heard).keyId i
      refine ⟨⟨note.address.trans send.address, note.active.trans send.active,
        note.lastProcessedPdu.trans send.lastProcessedPdu⟩, ?_⟩
      simp only [sameQueue]
      exact queue

structure Addressed (ao : AdvTimeAuthorizeStructure) : Prop where
  active : ∀ i, (ao.consumers i).active = true → (ao.consumers i).consumerAddr ≠ 0
  enqueued : ∀ call ∈ ao.enqueued, call.macAddress ≠ 0

theorem addressed_start : Addressed initAdvTimeAuthorizeObject :=
  ⟨by simp [initAdvTimeAuthorizeObject, initConsumerAuthorizationStructure],
    by simp [initAdvTimeAuthorizeObject]⟩

theorem Addressed.setAuthorization {ao : AdvTimeAuthorizeStructure} (addressed : Addressed ao)
    (index : Fin 2) (consumer : ConsumerAuthorizationStructure)
    (active : consumer.active = true → consumer.consumerAddr ≠ 0) :
    Addressed (setAuthorization ao index consumer) where
  active := (Function.forall_update_iff ao.consumers fun _ consumer =>
    consumer.active = true → consumer.consumerAddr ≠ 0).mpr
      ⟨active, fun i _ => addressed.active i⟩
  enqueued := addressed.enqueued

theorem Addressed.claim {ao : AdvTimeAuthorizeStructure} (addressed : Addressed ao)
    (mac : EspBdAddr) : Addressed (getConsumerIndexForAddr ao mac).2 := by
  obtain ⟨index, _, result⟩ | ⟨missing, free, zero, result⟩ | ⟨_, _, result⟩ :=
    getConsumerIndexForAddr_cases ao mac
  · rw [result]
    exact addressed
  · rw [result]
    -- a free entry has the address zero, so the address looked up is another one
    refine addressed.setAuthorization _ _ fun _ none => missing free ?_
    exact zero.trans none.symm
  · rw [result]
    exact addressed

theorem Addressed.scanCompleteCallback {ao : AdvTimeAuthorizeStructure}
    (addressed : Addressed ao) (heard : Hearing) :
    Addressed (scanCompleteCallback ao heard) := by
  obtain ⟨enqueued, same | ⟨index, claimed, _, found, entries⟩⟩ :=
    scanCompleteCallback_cases ao heard
  · refine ⟨?_, by rw [enqueued]; exact addressed.enqueued⟩
    rw [same]
    exact addressed.active
  · have claims := addressed.claim heard.macAddress
    rw [found] at claims
    refine ⟨fun i isActive => ?_, by rw [enqueued]; exact addressed.enqueued⟩
    rw [(entries i).1.active] at isActive
    rw [(entries i).1.address]
    exact claims.active i isActive

theorem authorizePdus_address (mac : EspBdAddr) (pdus : List ScanPdu) :
    ∀ (last : ScanPdu), ∀ call ∈ (authorizePdus mac last pdus).2, call.macAddress = mac := by
  induction pdus with
  | nil => simp [authorizePdus]
  | cons pdu rest ih =>
      intro last call member
      simp only [authorizePdus] at member
      split at member
      · rcases List.mem_cons.mp member with rfl | later
        · rfl
        · exact ih pdu call later
      · exact ih pdu call member

theorem authorizeBatch_address (consumer : ConsumerAuthorizationStructure)
    (pdus : List ScanPdu) :
    ∀ call ∈ (authorizeBatch consumer pdus).2, call.macAddress = consumer.consumerAddr := by
  unfold authorizeBatch
  split
  · exact authorizePdus_address _ _ _
  · cases pdus with
    | nil => simp
    | cons first rest => exact authorizePdus_address _ rest first

theorem authorizeConsumer_entry (ao : AdvTimeAuthorizeStructure) (index i : Fin 2) :
    ((authorizeConsumer ao index).consumers i).consumerAddr = (ao.consumers i).consumerAddr ∧
    ((authorizeConsumer ao index).consumers i).active = (ao.consumers i).active ∧
    ((authorizeConsumer ao index).consumers i).lastPduNo = (ao.consumers i).lastPduNo ∧
    ((authorizeConsumer ao index).consumers i).lastPduKeyId =
      (ao.consumers i).lastPduKeyId := by
  unfold authorizeConsumer
  split
  · by_cases here : i = index
    · subst here
      simp [processAuthorizationForConsumer, setAuthorization]
    · simp [processAuthorizationForConsumer, setAuthorization, here]
  · exact ⟨rfl, rfl, rfl, rfl⟩

theorem Addressed.authorizeConsumer {ao : AdvTimeAuthorizeStructure} (addressed : Addressed ao)
    (index : Fin 2) : Addressed (authorizeConsumer ao index) := by
  unfold Receiver.authorizeConsumer
  split
  · rename_i isActive
    have kept := addressed.setAuthorization index
      { ao.consumers index with
        privateQueue := (ao.consumers index).privateQueue.drop maxPduProcessPerConsumer
        lastProcessedPdu := (authorizeBatch (ao.consumers index)
          ((ao.consumers index).privateQueue.take maxPduProcessPerConsumer)).1 }
      (addressed.active index)
    refine ⟨kept.active, fun call member => ?_⟩
    rcases List.mem_append.mp member with early | late
    · exact addressed.enqueued call early
    · rw [authorizeBatch_address _ _ call late]
      exact addressed.active index isActive
  · exact addressed

/-- No frame is ever enqueued for processing under the address that marks a free record. -/
theorem run_enqueued_nonzero (steps : List AuthorizeStep) :
    ∀ call ∈ (run authorizeStep initAdvTimeAuthorizeObject steps).enqueued,
      call.macAddress ≠ 0 := by
  refine (run_preserves Addressed (fun ao step addressed => ?_) addressed_start steps).enqueued
  cases step with
  | hear heard => exact addressed.scanCompleteCallback heard
  | authorize index => exact addressed.authorizeConsumer index

end BleBroadcast.Receiver
