import BleBroadcast.EndToEnd.PayloadIntegrity
import BleBroadcast.Receiver.SessionDelivery

/-!
# A session from end to end

Frames that a sender produced in one session are put on the processing queue of the
receiver.  If the four key fragments are among them and no queue refuses anything, the
observers are called with the plaintexts of the data PDUs, in the order of the frames.
-/

set_option autoImplicit false

namespace BleBroadcast.EndToEnd

open BleBroadcast.Core BleBroadcast.Lib BleBroadcast.Sender BleBroadcast.Receiver

def frameOf (mac : EspBdAddr) (emission : Emission) : BeaconPduDataWithMacAddr where
  data := Memory.ofList emission.frame
  size := emission.frame.length
  macAddress := mac

/-- Only the reconstructor calls its callback. -/
def OwnCallback : ReceiverStep → Prop
  | .keyComplete _ _ _ _ => False
  | _ => True

def dataPlaintext : Emission → Option (List UInt8)
  | .data _ plaintext _ _ => some plaintext
  | .keyFragment _ _ _ => none

def notificationOf (mac : EspBdAddr) (plaintext : List UInt8) : Option Notification :=
  if plaintext.length = 0 then none else some ⟨plaintext, plaintext.length, mac⟩

/-- What the observers were called with. -/
def notifications (log : List ProcessingEvent) : List Notification :=
  (handovers log).filterMap Handover.notified

/-! ## The frames of a session -/

section
variable {mb : Mbedtls} {mac : EspBdAddr} {session : Session} {emission : Emission}

theorem element_frameOf {number : FragmentNo} {pdu : BeaconKeyPduData}
    (genuine : (Emission.keyFragment session number pdu).Genuine mb) (mac : EspBdAddr) :
    let element := (frameOf mac (.keyFragment session number pdu)).element
    element.keyId = session.keyId ∧ element.keyFragmentNo = number ∧
      element.tagMatches mb = true ∧
      element.decrypted = split128bKeyToFragment session.key number := by
  obtain ⟨bits, _, isSession, encrypted, tag⟩ := genuine
  exact fragmentElement_of_frame mb (holds_ofList pdu.frame) bits isSession encrypted tag mac

theorem keyId_frameOf (genuine : emission.Genuine mb) (mac : EspBdAddr) :
    (frameOf mac emission).keyId = emission.session.keyId := by
  cases emission with
  | data session plaintext nonce pdu =>
      obtain ⟨bits, _, _, keySession, _⟩ := genuine
      have holds : Holds (Memory.ofList pdu.frame) pdu.frame := holds_ofList pdu.frame
      generalize same : Memory.ofList pdu.frame = data at holds
      rw [BeaconPduData.frame_eq] at holds
      have low : data 6 = lowByte pdu.keySessionData := holds.byte (by simp)
      have high : data 7 = highByte pdu.keySessionData := holds.byte (by simp)
      simp only [BeaconPduDataWithMacAddr.keyId, BeaconKeyPduData.overlay, frameOf, Emission.frame,
        same, keySessionOffset, low, high, wordOfBytes_bytes, keySession]
      exact and_mask_eq_self bits
  | keyFragment session number pdu => exact (element_frameOf genuine mac).1

theorem command_frameOf (genuine : emission.Genuine mb) (mac : EspBdAddr) :
    (frameOf mac emission).command = commandOf emission :=
  command_eq_commandOf genuine rfl (holds_ofList _)

theorem sessionFrame_frameOf (genuine : emission.Genuine mb) (own : emission.session = session)
    (mac : EspBdAddr) :
    SessionFrame mb mac session.keyId session.key (frameOf mac emission) := by
  have keyId := keyId_frameOf genuine mac
  refine ⟨⟨rfl, fun _ => emission_header genuine, fun isFragment => ?_⟩, by rw [keyId, own]⟩
  rw [command_frameOf genuine mac] at isFragment
  cases emission with
  | data sent plaintext nonce pdu =>
      have notFragment : (dataCmd : UInt8) ≠ keyFragmentCmd := by decide
      exact absurd isFragment notFragment
  | keyFragment sent number pdu =>
      obtain rfl : sent = session := own
      obtain ⟨_, isNumber, _, decrypted⟩ := element_frameOf genuine mac
      exact ⟨rfl, rfl, fun _ => decrypted.trans (by rw [← isNumber]; rfl)⟩

theorem notified_frameOf {plaintext : List UInt8} {nonce : Nonce} {pdu : BeaconPduData}
    (genuine : (Emission.data session plaintext nonce pdu).Genuine mb)
    (fits : pdu.frame.length ≤ maxGapDataLen) {handover : Handover}
    (key : handover.key = session.key)
    (of : handover.Of mb (frameOf mac (.data session plaintext nonce pdu))) :
    handover.notified = notificationOf mac plaintext := by
  obtain ⟨sender, _, ⟨stack, read⟩, notified⟩ := of
  have header : 9 ≤ pdu.frame.length := emission_header genuine
  have short : pdu.frame.length ≤ 36 := Nat.le_trans fits (by decide)
  have same : handover.pdu.frame = pdu.frame := by
    rw [read]
    exact (frame_getBeaconPduFromAdvData stack _ _ header short).trans (holds_ofList pdu.frame)
  have room : handover.pdu.payloadSize ≤ handover.pdu.payload.length := by
    rw [read]
    exact room_getBeaconPduFromAdvData stack _ _ header short
  obtain ⟨_, size, decrypted⟩ := decryptPdu_of_frame genuine room same
  rw [notified, decryptAndNotify, key, decrypted, size, ← sender]
  simp only [List.take_left, notificationOf, frameOf]

end

/-! ## The transfer -/

section
variable {mb : Mbedtls} {mac : EspBdAddr} {session : Session} {heard : List Emission}

theorem dataFrames_frameOf (genuine : ∀ emission ∈ heard, emission.Genuine mb) :
    dataFrames (heard.map (frameOf mac)) =
      (heard.filter fun emission => (dataPlaintext emission).isSome).map (frameOf mac) := by
  rw [dataFrames, List.filter_map]
  congr 1
  refine List.filter_congr fun emission member => ?_
  rw [Function.comp_apply, command_frameOf (genuine emission member) mac]
  cases emission <;> rfl

theorem notifications_of_handed (genuine : ∀ emission ∈ heard, emission.Genuine mb)
    (own : ∀ emission ∈ heard, emission.session = session)
    (fits : ∀ emission ∈ heard, emission.frame.length ≤ maxGapDataLen) :
    ∀ {handed : List Handover},
      List.Forall₂ (fun handover frame => handover.key = session.key ∧ handover.Of mb frame)
        handed (dataFrames (heard.map (frameOf mac))) →
      handed.filterMap Handover.notified =
        (heard.filterMap dataPlaintext).filterMap (notificationOf mac) := by
  rw [dataFrames_frameOf genuine]
  induction heard with
  | nil =>
      intro handed all
      rw [List.filter_nil, List.map_nil, List.forall₂_nil_right_iff] at all
      rw [all]
      rfl
  | cons emission rest ih =>
      intro handed all
      have later := @ih (fun other member => genuine other (List.mem_cons_of_mem _ member))
        (fun other member => own other (List.mem_cons_of_mem _ member))
        fun other member => fits other (List.mem_cons_of_mem _ member)
      cases emission with
      | keyFragment => exact later all
      | data sent plaintext nonce pdu =>
          obtain rfl : sent = session := own _ List.mem_cons_self
          cases all with
          | cons one others =>
              rw [List.filterMap_cons,
                notified_frameOf (genuine _ List.mem_cons_self) (fits _ List.mem_cons_self) one.1
                  one.2, later others]
              rfl

theorem ofSession_of_enqueued {steps : List ReceiverStep}
    (genuine : ∀ emission ∈ heard, emission.Genuine mb)
    (own : ∀ emission ∈ heard, emission.session = session)
    (enqueued : enqueuedFrames steps = heard.map (frameOf mac))
    (callback : ∀ step ∈ steps, OwnCallback step) :
    ∀ step ∈ steps, OfSender (SessionFrame mb mac session.keyId session.key) step := by
  intro step member
  cases step with
  | enqueuePdu data size sender =>
      have there : (⟨fun i => if i < size then data i else 0, size, sender⟩ :
          BeaconPduDataWithMacAddr) ∈ enqueuedFrames steps :=
        List.mem_filterMap.mpr ⟨_, member, rfl⟩
      rw [enqueued] at there
      obtain ⟨emission, isHeard, isFrame⟩ := List.mem_map.mp there
      rw [OfSender, ← isFrame]
      exact sessionFrame_frameOf (genuine emission isHeard) (own emission isHeard) mac
  | keyComplete => exact callback _ member
  | newPdu => trivial
  | newKeyFragmentInQueue => trivial
  | processDeferredPdus => trivial

theorem bringsFragments_frameOf (genuine : ∀ emission ∈ heard, emission.Genuine mb)
    (keyed : ∀ number, ∃ pdu, .keyFragment session number pdu ∈ heard) :
    BringsFragments mb (heard.map (frameOf mac)) := by
  intro number
  obtain ⟨pdu, member⟩ := keyed number
  obtain ⟨_, isNumber, tag, _⟩ := element_frameOf (genuine _ member) mac
  refine ⟨_, List.mem_filter.mpr ⟨List.mem_map_of_mem member, ?_⟩, tag, isNumber⟩
  rw [command_frameOf (genuine _ member) mac]
  exact decide_eq_true rfl

end

/-- With genuine frames of one session on the queue, all fragments of its key among them, and
nothing refused or left over, the observers have been called with the plaintexts. -/
theorem genuine_session_notified {mb : Mbedtls} {session : Session} {heard : List Emission}
    (genuine : ∀ emission ∈ heard, emission.Genuine mb)
    (own : ∀ emission ∈ heard, emission.session = session)
    (fits : ∀ emission ∈ heard, emission.frame.length ≤ maxGapDataLen)
    (keyed : ∀ number, ∃ pdu, .keyFragment session number pdu ∈ heard)
    (used : session.keyId.toUInt8 ≠ 0) {mac : EspBdAddr} (nonzero : mac ≠ 0)
    (garbage : Fin 2 → Fin 5 → KeyReconstructionMap) {steps : List ReceiverStep}
    (enqueued : enqueuedFrames steps = heard.map (frameOf mac))
    (callback : ∀ step ∈ steps, OwnCallback step)
    (room : Guarded (receiverStep mb) (StepFits mac) (startUpSecProcessing garbage) steps)
    (rest : AtRest (run (receiverStep mb) (startUpSecProcessing garbage) steps)) :
    notifications (run (receiverStep mb) (startUpSecProcessing garbage) steps).sec.log =
      (heard.filterMap dataPlaintext).filterMap (notificationOf mac) := by
  have all : BringsFragments mb (heard.map (frameOf mac)) := bringsFragments_frameOf genuine keyed
  rw [← enqueued] at all
  have handed := session_delivered nonzero used garbage
    (ofSession_of_enqueued genuine own enqueued callback) room all rest
  rw [enqueued] at handed
  exact notifications_of_handed genuine own fits handed

/-- Frames of one session of the sender, the four fragments of its key among them, are put on
the processing queue, and the handlers run in any order in which no queue refuses anything.
At rest the observers have been called with the plaintexts of the data PDUs that are not
empty, once each and in the order of the frames. -/
theorem session_transferred (mb : Mbedtls) (initial : RandomDraws) (count : UInt32)
    {calls : List SenderCall} {final : SenderTrace}
    (sent : senderRun mb (.start (setKeyReplacementPduCount (initPayloadEncryption initial) count))
      calls = some final)
    {session : Session} {heard : List Emission}
    (produced : ∀ emission ∈ heard, emission ∈ final.emitted)
    (own : ∀ emission ∈ heard, emission.session = session)
    (fits : ∀ emission ∈ heard, emission.frame.length ≤ maxGapDataLen)
    (keyed : ∀ number, ∃ pdu, .keyFragment session number pdu ∈ heard)
    (used : session.keyId.toUInt8 ≠ 0) {mac : EspBdAddr} (nonzero : mac ≠ 0)
    (garbage : Fin 2 → Fin 5 → KeyReconstructionMap) {steps : List ReceiverStep}
    (enqueued : enqueuedFrames steps = heard.map (frameOf mac))
    (callback : ∀ step ∈ steps, OwnCallback step)
    (room : Guarded (receiverStep mb) (StepFits mac) (startUpSecProcessing garbage) steps)
    (rest : AtRest (run (receiverStep mb) (startUpSecProcessing garbage) steps)) :
    notifications (run (receiverStep mb) (startUpSecProcessing garbage) steps).sec.log =
      (heard.filterMap dataPlaintext).filterMap (notificationOf mac) := by
  have genuine : ∀ emission ∈ heard, emission.Genuine mb := fun emission member =>
    senderRun_genuine ((coherent_init initial).setCount count) sent emission
      (produced emission member)
  exact genuine_session_notified genuine own fits keyed used nonzero garbage enqueued callback
    room rest

theorem enqueuedFrames_hearAll (emitted : List Emission) :
    enqueuedFrames (hearAll emitted) = emitted.map (frameOf 0xA1) := by
  have copied : ∀ bytes : List UInt8,
      (fun i => if i < bytes.length then Memory.ofList bytes i else 0) = Memory.ofList bytes := by
    intro bytes
    funext i
    by_cases inside : i < bytes.length
    · exact if_pos inside
    · simp [Memory.ofList, inside]
  simp [enqueuedFrames, hearAll, List.filterMap_append, List.filterMap_map, copied, frameOf]

def fragmentNumber : Emission → Option FragmentNo
  | .data .. => none
  | .keyFragment _ number _ => some number

theorem keyed_of_numbers {emitted : List Emission} {session : Session}
    (single : ∀ emission ∈ emitted, emission.session = session)
    (numbers : ∀ number, number ∈ emitted.filterMap fragmentNumber) :
    ∀ number, ∃ pdu, .keyFragment session number pdu ∈ emitted := by
  intro number
  obtain ⟨emission, member, isNumber⟩ := List.mem_filterMap.mp (numbers number)
  have own := single emission member
  cases emission with
  | data => contradiction
  | keyFragment other found pdu =>
      obtain rfl := Option.some.inj isNumber
      obtain rfl : other = session := own
      exact ⟨pdu, member⟩

/-- One data PDU arrives before the four fragments of its key. -/
theorem session_transferred_session_one :
    notifications (run (receiverStep tabulated) (startUpSecProcessing blankCaches)
      (hearAll (emittedInSession 1))).sec.log = [⟨[0x74], 1, 0xA1⟩] := by
  have single : ∀ emission ∈ emittedInSession 1, emission.session = ⟨0, 1, fun _ => 1⟩ := by
    decide +kernel
  have fits : ∀ emission ∈ emittedInSession 1, emission.frame.length ≤ maxGapDataLen := by
    decide +kernel
  have numbers : ∀ number, number ∈ (emittedInSession 1).filterMap fragmentNumber := by
    decide +kernel
  have room : Guarded (receiverStep tabulated) (StepFits 0xA1) (startUpSecProcessing blankCaches)
      (hearAll (emittedInSession 1)) := by
    decide +kernel
  have rest : AtRest (run (receiverStep tabulated) (startUpSecProcessing blankCaches)
      (hearAll (emittedInSession 1))) :=
    ⟨by decide +kernel, by decide +kernel, by decide +kernel⟩
  have keyed := keyed_of_numbers single numbers
  have plaintexts : ((emittedInSession 1).filterMap dataPlaintext).filterMap
      (notificationOf 0xA1) = [⟨[0x74], 1, 0xA1⟩] := by
    have one : (emittedInSession 1).filterMap dataPlaintext = [[0x74]] := by decide +kernel
    rw [one]
    rfl
  obtain ⟨final, sent, emitted⟩ := sentInSession_eq 1 (by decide +kernel)
  rw [← plaintexts]
  exact session_transferred tabulated ⟨fun _ => 1, 1, 0x10⟩ 200 sent
    (by rw [emitted]; exact fun _ => id) single fits keyed (by decide) (by decide) blankCaches
    (enqueuedFrames_hearAll _)
    (fun step member => by
      rcases List.mem_append.mp member with enqueued | handler
      · obtain ⟨_, _, rfl⟩ := List.mem_map.mp enqueued
        trivial
      · simp only [List.mem_cons, List.not_mem_nil, or_false] at handler
        rcases handler with rfl | rfl | rfl <;> trivial)
    room rest

end BleBroadcast.EndToEnd
