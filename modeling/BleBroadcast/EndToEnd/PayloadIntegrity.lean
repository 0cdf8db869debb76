import BleBroadcast.EndToEnd.FrameRoundTrip
import BleBroadcast.Receiver.SessionKeys

/-!
# The payloads the observers get

The frames of one sender are placed on the processing queue.  As long as the low
byte of the session ids is enough for the receiver, each frame is decrypted under
the key it was encrypted with, and the observers get the plaintext.
-/

set_option autoImplicit false

namespace BleBroadcast.EndToEnd

open BleBroadcast.Core BleBroadcast.Lib BleBroadcast.Sender BleBroadcast.Receiver

def DistinctSessions (emitted : List Emission) : Prop :=
  ∀ first ∈ emitted, ∀ second ∈ emitted,
    first.session.keyId = second.session.keyId → first.session = second.session

/-- A step of the receiver that hears this sender: what is placed on the processing queue
are frames of at most 31 bytes, and only the reconstructor calls its callback. -/
def HearsSender (mac : EspBdAddr) (emitted : List Emission) : ReceiverStep → Prop
  | .enqueuePdu data size sender =>
      sender = mac ∧ ∃ emission ∈ emitted,
        size = emission.frame.length ∧ size ≤ maxGapDataLen ∧ Holds data emission.frame
  | .keyComplete _ _ _ _ => False
  | _ => True

def placedFrames (steps : List ReceiverStep) : List (List UInt8) :=
  steps.filterMap fun step =>
    match step with
    | .enqueuePdu data size _ => some (data.bytes size)
    | _ => none

/-- What is handed over was sent as a data PDU, and is decrypted with the key of its session
to its plaintext.  Observers are not called for an empty one. -/
def HandedIntact (emitted : List Emission) : ProcessingEvent → Prop
  | .handed mac _ key pdu notified =>
      (∃ session plaintext nonce sent,
        .data session plaintext nonce sent ∈ emitted ∧ sent.frame = pdu.frame) ∧
      ∀ session plaintext nonce sent, .data session plaintext nonce sent ∈ emitted →
        sent.frame = pdu.frame → key = session.key ∧
          notified = if plaintext.length = 0 then none
            else some ⟨plaintext, plaintext.length, mac⟩
  | _ => True

/-! ## The frames of the sender -/

structure Transmitted (mac : EspBdAddr) (emitted : List Emission)
    (frame : BeaconPduDataWithMacAddr) : Prop where
  sender : frame.macAddress = mac
  fits : frame.size ≤ maxGapDataLen
  source : ∃ emission ∈ emitted, frame.size = emission.frame.length ∧
    Holds frame.data emission.frame

theorem holds_copy {data : Memory} {bytes : List UInt8} (holds : Holds data bytes) :
    Holds (fun i => if i < bytes.length then data i else 0) bytes := by
  have same : Memory.bytes (fun i => if i < bytes.length then data i else 0) bytes.length =
      data.bytes bytes.length :=
    List.map_congr_left fun i member => if_pos (List.mem_range.mp member)
  exact same.trans holds

theorem HearsSender.ofSender {mac : EspBdAddr} {emitted : List Emission} {step : ReceiverStep}
    (hears : HearsSender mac emitted step) : OfSender (Transmitted mac emitted) step := by
  cases step with
  | enqueuePdu data size sender =>
      obtain ⟨rfl, emission, member, rfl, fits, holds⟩ := hears
      exact ⟨rfl, fits, emission, member, rfl, holds_copy holds⟩
  | keyComplete => exact hears
  | newPdu => trivial
  | newKeyFragmentInQueue => trivial
  | processDeferredPdus => trivial

def keyOfSession (emitted : List Emission) (keyId : UInt16) : Key128b :=
  match emitted.find? fun emission => emission.session.keyId == keyId with
  | some emission => emission.session.key
  | none => fun _ => 0

theorem keyOfSession_eq {emitted : List Emission} (distinct : DistinctSessions emitted)
    {emission : Emission} (member : emission ∈ emitted) :
    keyOfSession emitted emission.session.keyId = emission.session.key := by
  cases found : emitted.find? fun other => other.session.keyId == emission.session.keyId with
  | none => simpa using List.find?_eq_none.mp found emission member
  | some other =>
      have same : other.session.keyId = emission.session.keyId := by
        simpa using List.find?_some found
      simp only [keyOfSession, found]
      rw [distinct other (List.mem_of_find?_eq_some found) emission member same]

theorem emission_header {mb : Mbedtls} {emission : Emission} (genuine : emission.Genuine mb) :
    9 ≤ emission.frame.length := by
  cases emission with
  | data session plaintext nonce pdu =>
      rw [Emission.frame, BeaconPduData.length_frame genuine.room]
      omega
  | keyFragment session number pdu =>
      rw [Emission.frame, BeaconKeyPduData.length_frame]
      decide

def commandOf : Emission → UInt8
  | .data .. => dataCmd
  | .keyFragment .. => keyFragmentCmd

theorem command_eq_commandOf {mb : Mbedtls} {frame : BeaconPduDataWithMacAddr}
    {emission : Emission} (genuine : emission.Genuine mb)
    (size : frame.size = emission.frame.length) (holds : Holds frame.data emission.frame) :
    frame.command = commandOf emission := by
  cases emission with
  | data session plaintext nonce pdu =>
      have isData : pdu.cmd = dataCmd := genuine.2.2.1
      simp only [Emission.frame, BeaconPduData.frame_eq] at size holds
      have command := command_of_frame holds (Or.inl isData)
      rw [BeaconPduDataWithMacAddr.command, size]
      exact command.trans isData
  | keyFragment session number pdu =>
      have isFragment : pdu.cmd = keyFragmentCmd := genuine.2.1
      simp only [Emission.frame, BeaconKeyPduData.frame_eq, BeaconKeyPduData.bytes] at size holds
      have command := command_of_frame holds (Or.inr isFragment)
      rw [BeaconPduDataWithMacAddr.command, size]
      exact command.trans isFragment

theorem Transmitted.sentBy {mb : Mbedtls} {mac : EspBdAddr} {emitted : List Emission}
    (genuine : ∀ emission ∈ emitted, emission.Genuine mb) (distinct : DistinctSessions emitted)
    {frame : BeaconPduDataWithMacAddr} (transmitted : Transmitted mac emitted frame) :
    SentBy mb mac (keyOfSession emitted) frame := by
  obtain ⟨emission, member, size, holds⟩ := transmitted.source
  have isGenuine := genuine emission member
  have command := command_eq_commandOf isGenuine size holds
  refine ⟨transmitted.sender, fun _ => by rw [size]; exact emission_header isGenuine, ?_⟩
  intro isFragment
  cases emission with
  | data session plaintext nonce pdu =>
      have notFragment : (dataCmd : UInt8) ≠ keyFragmentCmd := by decide
      exact absurd (command.symm.trans isFragment) notFragment
  | keyFragment session number pdu =>
      obtain ⟨bits, _, isSession, encrypted, tag⟩ := isGenuine
      obtain ⟨keyId, isNumber, _, decrypted⟩ :=
        fragmentElement_of_frame mb holds bits isSession encrypted tag mac
      refine ⟨rfl, rfl, fun _ => ?_⟩
      have isKey : keyOfSession emitted session.keyId = session.key :=
        keyOfSession_eq distinct member
      rw [decrypted, isNumber, show frame.keyId = session.keyId from keyId, isKey]

theorem Transmitted.pdu {mb : Mbedtls} {mac : EspBdAddr} {emitted : List Emission}
    (genuine : ∀ emission ∈ emitted, emission.Genuine mb)
    {frame : BeaconPduDataWithMacAddr} (transmitted : Transmitted mac emitted frame)
    (isData : frame.command = dataCmd) (stack : BeaconPduData) :
    let pdu := getBeaconPduFromAdvData stack frame.data frame.size
    pdu.payloadSize ≤ pdu.payload.length ∧ pdu.payloadSize ≤ maxPduPayloadSize ∧
    ∃ session plaintext nonce sent,
      .data session plaintext nonce sent ∈ emitted ∧ sent.frame = pdu.frame := by
  obtain ⟨emission, member, size, holds⟩ := transmitted.source
  have isGenuine := genuine emission member
  have command := command_eq_commandOf isGenuine size holds
  have header : 9 ≤ frame.size := by
    rw [size]
    exact emission_header isGenuine
  have fits : frame.size ≤ 31 := transmitted.fits
  refine ⟨room_getBeaconPduFromAdvData stack frame.data frame.size header (by omega), ?_, ?_⟩
  · rw [payloadSize_getBeaconPduFromAdvData, getPayloadSizeFromPdu, maxPduPayloadSize_eq]
    omega
  · cases emission with
    | data session plaintext nonce sent =>
        refine ⟨session, plaintext, nonce, sent, member, ?_⟩
        rw [frame_getBeaconPduFromAdvData stack frame.data frame.size header (by omega), size]
        exact holds.symm
    | keyFragment session number sent =>
        have notData : (keyFragmentCmd : UInt8) ≠ dataCmd := by decide
        exact absurd (command.symm.trans isData) notData

/-! ## Integrity -/

/-- A frame that is handed over under the key of the session it names arrives intact. -/
theorem handedUnder_intact {mb : Mbedtls} {mac : EspBdAddr} {emitted : List Emission}
    (genuine : ∀ emission ∈ emitted, emission.Genuine mb) (distinct : DistinctSessions emitted)
    {event : ProcessingEvent}
    (under : HandedUnder mb (Transmitted mac emitted) (keyOfSession emitted) event) :
    HandedIntact emitted event := by
  cases event with
  | handed sender arrival key pdu notified =>
      obtain ⟨⟨frame, stack, transmitted, isData, rfl⟩, isKey, isNotified⟩ := under
      obtain ⟨room, fits, source⟩ := transmitted.pdu genuine isData stack
      generalize getBeaconPduFromAdvData stack frame.data frame.size = pdu
        at room fits source isKey isNotified ⊢
      refine ⟨source, fun session plaintext nonce sent member same => ?_⟩
      have isGenuine := genuine _ member
      obtain ⟨_, _, _, keySession, _⟩ :=
        BeaconPduData.frame_inj room isGenuine.room same.symm
      have sessionKey : key = session.key := by
        rw [isKey, keySession, isGenuine.2.2.2.1,
          show getKeyIdFromKeySessionData session.keyId = session.keyId from
            and_mask_eq_self isGenuine.1]
        exact keyOfSession_eq distinct member
      obtain ⟨_, size, decrypted⟩ := decryptPdu_of_frame isGenuine room same.symm
      refine ⟨sessionKey, ?_⟩
      rw [isNotified, decryptAndNotify, sessionKey, decrypted, size]
      simp only [List.take_left]
  | tookData => trivial
  | tookKeyFragment => trivial
  | full => trivial
  | dropped => trivial
  | lost => trivial

/-! ## Concrete runs -/

/-- One data PDU and the four key fragment PDUs of the session `keyId`, whose key repeats
the byte 1. -/
def sentInSession (keyId : UInt32) : Option SenderTrace :=
  let draws : RandomDraws := ⟨fun _ => 1, keyId, 0x10⟩
  senderRun tabulated (.start (setKeyReplacementPduCount (initPayloadEncryption draws) 200))
    (.encryptPayload [0x74] (fillMarkerInPdu .zero) draws ::
      List.replicate 4 (.getKeyFragmentPdu (fillMarkerInKeyPdu .zero) draws))

def emittedInSession (keyId : UInt32) : List Emission :=
  ((sentInSession keyId).map SenderTrace.emitted).getD []

def hearAll (emitted : List Emission) : List ReceiverStep :=
  (emitted.map fun emission =>
    .enqueuePdu (Memory.ofList emission.frame) emission.frame.length 0xA1) ++
    [.newPdu (fun _ => 7) (fun _ => .zero), .newKeyFragmentInQueue fun _ => 7,
      .processDeferredPdus fun _ _ => 8]

def usedKey : ProcessingEvent → Option (List UInt8 × Option (List UInt8))
  | .handed _ _ key _ notified => some (List.ofFn key, notified.map Notification.payload)
  | _ => none

theorem hearsSender_hearAll {emitted : List Emission}
    (fits : ∀ emission ∈ emitted, emission.frame.length ≤ maxGapDataLen) :
    ∀ step ∈ hearAll emitted, HearsSender 0xA1 emitted step := by
  intro step member
  rcases List.mem_append.mp member with enqueued | handler
  · obtain ⟨emission, isEmitted, rfl⟩ := List.mem_map.mp enqueued
    exact ⟨rfl, emission, isEmitted, rfl, fits emission isEmitted, holds_ofList _⟩
  · simp only [List.mem_cons, List.not_mem_nil, or_false] at handler
    rcases handler with rfl | rfl | rfl <;> trivial

theorem placedFrames_hearAll (emitted : List Emission) :
    placedFrames (hearAll emitted) = emitted.map Emission.frame := by
  have placed : ∀ emission : Emission, (Memory.ofList emission.frame).bytes
      emission.frame.length = emission.frame := fun emission => holds_ofList emission.frame
  simp [placedFrames, hearAll, List.filterMap_append, List.filterMap_map,
    placed]

theorem distinctSessions_single {emitted : List Emission} {session : Session}
    (single : ∀ emission ∈ emitted, emission.session = session) : DistinctSessions emitted :=
  fun first isFirst second isSecond _ => (single first isFirst).trans (single second isSecond).symm

theorem sentInSession_eq (keyId : UInt32) (produced : (sentInSession keyId).isSome = true) :
    ∃ final, sentInSession keyId = some final ∧ emittedInSession keyId = final.emitted := by
  obtain ⟨final, isFinal⟩ := Option.isSome_iff_exists.mp produced
  exact ⟨final, isFinal, by simp [emittedInSession, isFinal]⟩

/-! ## End-to-end integrity -/

/-- End-to-end payload integrity: in every run over frames of one sender, in any order of
the handlers, whose lookups are told apart by the low byte of the id and whose fragments
are not mixed, every data frame that is decrypted is decrypted with the key of the session
it was sent in, and the observers get its plaintext. -/
theorem payload_integrity_when (mb : Mbedtls) (initial : RandomDraws) (count : UInt32)
    {calls : List SenderCall} {final : SenderTrace}
    (sent : senderRun mb (.start (setKeyReplacementPduCount (initPayloadEncryption initial) count))
      calls = some final)
    (distinct : DistinctSessions final.emitted) {mac : EspBdAddr} (nonzero : mac ≠ 0)
    (garbage : Fin 2 → Fin 5 → KeyReconstructionMap) {steps : List ReceiverStep}
    (hears : ∀ step ∈ steps, HearsSender mac final.emitted step)
    (told : Guarded (watchedStep mb) (StepToldApart mb mac) (.start garbage) steps) :
    ∀ event ∈ (run (receiverStep mb) (startUpSecProcessing garbage) steps).sec.log,
      HandedIntact final.emitted event := by
  have genuine : ∀ emission ∈ final.emitted, emission.Genuine mb :=
    senderRun_genuine ((coherent_init initial).setCount count) sent
  have handed := handed_under_session_key garbage nonzero
    (fun _ transmitted => transmitted.sentBy genuine distinct)
    (fun step isStep => (hears step isStep).ofSender) told
  exact fun event member => handedUnder_intact genuine distinct (handed event member)

/-- Session 1: the data frame waits for its key, and the observers get its plaintext. -/
theorem payload_integrity_session_one :
    let log := (run (receiverStep tabulated) (startUpSecProcessing blankCaches)
      (hearAll (emittedInSession 1))).sec.log
    log.filterMap usedKey = [(List.replicate 16 1, some [0x74])] ∧
    ∀ event ∈ log, HandedIntact (emittedInSession 1) event := by
  intro log
  have single : ∀ emission ∈ emittedInSession 1, emission.session = ⟨0, 1, fun _ => 1⟩ := by
    decide +kernel
  have fits : ∀ emission ∈ emittedInSession 1, emission.frame.length ≤ maxGapDataLen := by
    decide +kernel
  have told : Guarded (watchedStep tabulated) (StepToldApart tabulated 0xA1) (.start blankCaches)
      (hearAll (emittedInSession 1)) := by
    decide +kernel
  refine ⟨by decide +kernel, ?_⟩
  obtain ⟨final, sent, emitted⟩ := sentInSession_eq 1 (by decide +kernel)
  simp only [log]
  rw [emitted] at single fits told ⊢
  exact payload_integrity_when tabulated ⟨fun _ => 1, 1, 0x10⟩ 200 sent
    (distinctSessions_single single) (by decide) blankCaches (hearsSender_hearAll fits) told

/-- Session 256: its low byte is the mark of a free slot.  The data frame is decrypted at
once, with the zeros of a free slot, and the observers get the byte 0xf2 for 0x74. -/
theorem payload_corrupted :
    ¬ ∀ (mb : Mbedtls) (initial : RandomDraws) (count : UInt32) (calls : List SenderCall)
      (final : SenderTrace),
      senderRun mb (.start (setKeyReplacementPduCount (initPayloadEncryption initial) count))
        calls = some final → DistinctSessions final.emitted →
      ∀ mac, mac ≠ 0 → ∀ (garbage : Fin 2 → Fin 5 → KeyReconstructionMap)
        (steps : List ReceiverStep), (∀ step ∈ steps, HearsSender mac final.emitted step) →
        (placedFrames steps).Sublist (final.emitted.map Emission.frame) →
      ∀ event ∈ (run (receiverStep mb) (startUpSecProcessing garbage) steps).sec.log,
        HandedIntact final.emitted event := by
  intro always
  have single : ∀ emission ∈ emittedInSession 256,
      emission.session = ⟨0, 256, fun _ => 1⟩ := by
    decide +kernel
  have fits : ∀ emission ∈ emittedInSession 256, emission.frame.length ≤ maxGapDataLen := by
    decide +kernel
  have used : ((run (receiverStep tabulated) (startUpSecProcessing blankCaches)
      (hearAll (emittedInSession 256))).sec.log).filterMap usedKey =
        [(List.replicate 16 0, some [0xf2])] := by
    decide +kernel
  obtain ⟨final, sent, emitted⟩ := sentInSession_eq 256 (by decide +kernel)
  rw [emitted] at single fits used
  have intact := always tabulated ⟨fun _ => 1, 256, 0x10⟩ 200 _ final sent
    (distinctSessions_single single) 0xA1 (by decide) blankCaches (hearAll final.emitted)
    (hearsSender_hearAll fits) (placedFrames_hearAll final.emitted ▸ List.Sublist.refl _)
  obtain ⟨event, member, isUsed⟩ := List.mem_filterMap.mp (used ▸ List.mem_singleton_self _)
  have intactEvent := intact event member
  cases event with
  | handed mac arrival key pdu notified =>
      obtain ⟨⟨session, plaintext, nonce, sentPdu, isSent, same⟩, whole⟩ := intactEvent
      obtain ⟨isKey, _⟩ := whole session plaintext nonce sentPdu isSent same
      have isSession : session = ⟨0, 256, fun _ => 1⟩ := single _ isSent
      obtain ⟨zeros, _⟩ := Prod.mk.inj (Option.some.inj isUsed)
      rw [isKey, isSession] at zeros
      exact absurd zeros (by decide)
  | tookData => simp [usedKey] at isUsed
  | tookKeyFragment => simp [usedKey] at isUsed
  | full => simp [usedKey] at isUsed
  | dropped => simp [usedKey] at isUsed
  | lost => simp [usedKey] at isUsed

end BleBroadcast.EndToEnd
