import BleBroadcast.EndToEnd.PayloadIntegrity
import BleBroadcast.Receiver.SingleSender
import BleBroadcast.Sender.SessionOrder

/-!
# Authorization of an honest sender

The PDUs of one sender are all heard, each exactly the interval of its predecessor's session
after it.  A frame is authorized by the next one of its session, so the last frame of each
session is not passed on: the frame after it has another key id.
-/

set_option autoImplicit false

namespace BleBroadcast.EndToEnd

open BleBroadcast.Core BleBroadcast.Lib BleBroadcast.Sender BleBroadcast.Receiver

/-- The advertisement that a PDU of the sender is heard as. -/
structure HeardAsSent (mac : EspBdAddr) (emission : Emission) (heard : Hearing) : Prop where
  data : Holds heard.data emission.frame
  size : heard.dataSize = emission.frame.length
  sender : heard.macAddress = mac

/-- The timer of the sender waits for the interval of the key id current at sending. -/
def OnTime (first second : Emission × Hearing) : Prop :=
  second.2.timestampUs =
    first.2.timestampUs + getAdvIntervalFromKeyId first.1.session.keyId * 1000

instance onTimeDecidable (first second : Emission × Hearing) : Decidable (OnTime first second) :=
  inferInstanceAs (Decidable (_ = _))

/-- No PDU is lost, none is late, and the clock of the receiver does not show zero. -/
structure HeardOnTime (mac : EspBdAddr) (emitted : List Emission) (history : List Hearing) :
    Prop where
  complete : List.Forall₂ (HeardAsSent mac) emitted history
  onTime : (emitted.zip history).IsChain OnTime
  stamped : ∀ heard ∈ history, heard.timestampUs ≠ 0

def ConsecutiveIdsDiffer (emitted : List Emission) : Prop :=
  emitted.IsChain fun first second =>
    first.session.number ≠ second.session.number → first.session.keyId ≠ second.session.keyId

instance consecutiveIdsDifferDecidable (emitted : List Emission) :
    Decidable (ConsecutiveIdsDiffer emitted) :=
  inferInstanceAs (Decidable (List.IsChain _ _))

def sameSession (first second : Emission) : Bool := first.session = second.session

/-- The bytes and the address of each call of `enqueue_pdu_for_processing`. -/
def passedFrames (ao : AdvTimeAuthorizeStructure) : List (List UInt8 × EspBdAddr) :=
  ao.enqueued.map fun call => (call.data.bytes call.size, call.macAddress)

/-! ## What the callback reads -/

theorem scanPduOf_bytes (heard : Hearing) :
    (scanPduOf heard).data.bytes (scanPduOf heard).size = heard.data.bytes heard.dataSize :=
  List.map_congr_left fun _ member => if_pos (List.mem_range.mp member)

theorem scanPduOf_header {heard : Hearing} {marker : Bytes 3} {command seed : UInt8}
    {pduNo keySession : UInt16} {rest : List UInt8}
    (holds : Holds heard.data (marker 0 :: marker 1 :: marker 2 :: command :: lowByte pduNo ::
      highByte pduNo :: lowByte keySession :: highByte keySession :: seed :: rest)) :
    heard.pduNo = pduNo ∧ heard.keyId = getKeyIdFromKeySessionData keySession := by
  have byte4 : heard.data 4 = lowByte pduNo := holds.byte (by simp)
  have byte5 : heard.data 5 = highByte pduNo := holds.byte (by simp)
  have byte6 : heard.data 6 = lowByte keySession := holds.byte (by simp)
  have byte7 : heard.data 7 = highByte keySession := holds.byte (by simp)
  simp [Hearing.pduNo, Hearing.keyId, scanPduOf, byte4, byte5, byte6, byte7]

theorem HeardAsSent.reads {mb : Mbedtls} {mac : EspBdAddr} {emission : Emission}
    {heard : Hearing} (asSent : HeardAsSent mac emission heard) (genuine : emission.Genuine mb)
    (marker : emission.marker = myMarker) :
    isPduInBeaconPduFormat heard.data heard.dataSize = true ∧
      heard.pduNo = emission.pduNo ∧ heard.keyId = emission.session.keyId := by
  obtain ⟨holds, size, _⟩ := asSent
  cases emission with
  | data session plaintext nonce pdu =>
      obtain ⟨bits, _, cmd, keySession, _⟩ := genuine
      simp only [Emission.frame, BeaconPduData.frame_eq] at holds size
      obtain ⟨pduNo, keyId⟩ := scanPduOf_header holds
      refine ⟨?_, pduNo, keyId.trans ?_⟩
      · rw [size]
        exact (checks_of_frame holds marker (Or.inl cmd)).1
      · rw [keySession]
        exact and_mask_eq_self bits
  | keyFragment session number pdu =>
      obtain ⟨bits, cmd, keySession, _⟩ := genuine
      simp only [Emission.frame, BeaconKeyPduData.frame_eq, BeaconKeyPduData.bytes] at holds size
      obtain ⟨pduNo, keyId⟩ := scanPduOf_header holds
      refine ⟨?_, pduNo, keyId.trans ?_⟩
      · rw [size]
        exact (checks_of_frame holds marker (Or.inr cmd)).1
      · rw [keySession, getKeyId_produceKeySessionData]
        exact and_mask_eq_self bits

/-! ## Neighbours -/

theorem authorizes_onTime {last pdu : ScanPdu} (sameId : pdu.keyId = last.keyId)
    (next : pdu.pduNo.toNat = last.pduNo.toNat + 1)
    (onTime : pdu.timestampUs =
      last.timestampUs + getAdvIntervalFromKeyId last.keyId * 1000) :
    authorizes last pdu = true := by
  obtain ⟨atLeast, atMost⟩ := getAdvIntervalFromKeyId_bounds last.keyId
  have difference : differenceTimestamps last pdu = 0 := by
    have elapsed : (pdu.timestampUs - last.timestampUs).tdiv 1000 =
        getAdvIntervalFromKeyId last.keyId := by
      rw [onTime, add_sub_cancel_left]
      exact Int.mul_tdiv_cancel _ (by decide)
    have expected : (((pdu.pduNo.toNat : Int) - last.pduNo.toNat) *
        getAdvIntervalFromKeyId last.keyId) % 2 ^ 32 = getAdvIntervalFromKeyId last.keyId := by
      rw [next, Nat.cast_add, Nat.cast_one, add_sub_cancel_left, Int.one_mul]
      exact Int.emod_eq_of_lt (by omega) (by omega)
    simp only [differenceTimestamps, sameId, elapsed, expected, sub_self]
    rfl
  have tolerance : 0 ≤ getToleranceWindowBasedOnAdvInterval
      (getAdvIntervalFromKeyId pdu.keyId) := by
    rw [sameId, getToleranceWindowBasedOnAdvInterval, if_pos atLeast]
    exact Int.floor_nonneg.mpr (by positivity)
  simp only [authorizes, difference, sameId, decide_eq_true_eq]
  rw [sameId] at tolerance
  exact ⟨trivial, tolerance, by omega⟩

structure ReadAsSent (sent : Emission × Hearing) : Prop where
  pduNo : sent.2.pduNo = sent.1.pduNo
  keyId : sent.2.keyId = sent.1.session.keyId

/-- Two PDUs that follow each other: the filter takes the second one, and it authorizes the
first one exactly if it is of the same session. -/
theorem neighbours {first second : Emission × Hearing} (readFirst : ReadAsSent first)
    (readSecond : ReadAsSent second) (precedes : first.1.Precedes second.1)
    (ids : first.1.session.number ≠ second.1.session.number →
      first.1.session.keyId ≠ second.1.session.keyId)
    (onTime : OnTime first second) :
    first.2.PassesAfter second.2 ∧
      authorizes (scanPduOf first.2) (scanPduOf second.2) = sameSession first.1 second.1 := by
  have firstId : (scanPduOf first.2).keyId = first.1.session.keyId := readFirst.keyId
  have secondId : (scanPduOf second.2).keyId = second.1.session.keyId := readSecond.keyId
  rcases precedes with ⟨session, next⟩ | next
  · rw [← readFirst.pduNo, ← readSecond.pduNo] at next
    have sameId : (scanPduOf second.2).keyId = (scanPduOf first.2).keyId := by
      rw [firstId, secondId, session]
    constructor
    · intro _
      rw [UInt16.lt_iff_toNat_lt]
      omega
    · rw [sameSession, decide_eq_true session]
      apply authorizes_onTime sameId next
      rw [firstId]
      exact onTime
  · have numbers : first.1.session.number ≠ second.1.session.number := by omega
    have differ := ids numbers
    constructor
    · intro same
      exact absurd (firstId.symm.trans (same.trans secondId)) differ
    · have sessions : first.1.session ≠ second.1.session :=
        fun same => numbers (congrArg Session.number same)
      simp [sameSession, sessions, authorizes, firstId, secondId, Ne.symm differ]

/-! ## Runs -/

section
variable {mb : Mbedtls} {mac : EspBdAddr} {count : Nat} {trace : SenderTrace}
  {history : List Hearing}

theorem HeardOnTime.reads (heard : HeardOnTime mac trace.emitted history)
    (genuine : ∀ emission ∈ trace.emitted, emission.Genuine mb) (inOrder : InOrder count trace) :
    ∀ sent ∈ trace.emitted.zip history,
      isPduInBeaconPduFormat sent.2.data sent.2.dataSize = true ∧ ReadAsSent sent := by
  intro sent member
  have emitted := (List.of_mem_zip member).1
  obtain ⟨format, pduNo, keyId⟩ := (List.forall₂_zip heard.complete member).reads
    (genuine _ emitted) (inOrder.marker _ emitted)
  exact ⟨format, pduNo, keyId⟩

theorem HeardOnTime.emissions (heard : HeardOnTime mac trace.emitted history) :
    (trace.emitted.zip history).map Prod.fst = trace.emitted :=
  List.map_fst_zip (heard.complete.length_eq.le)

theorem HeardOnTime.hearings (heard : HeardOnTime mac trace.emitted history) :
    (trace.emitted.zip history).map Prod.snd = history :=
  List.map_snd_zip (heard.complete.length_eq.ge)

theorem HeardOnTime.neighbours (heard : HeardOnTime mac trace.emitted history)
    (genuine : ∀ emission ∈ trace.emitted, emission.Genuine mb) (inOrder : InOrder count trace)
    (ids : ConsecutiveIdsDiffer trace.emitted) :
    (trace.emitted.zip history).IsChain fun first second =>
      first.2.PassesAfter second.2 ∧
        authorizes (scanPduOf first.2) (scanPduOf second.2) = sameSession first.1 second.1 := by
  have reads := heard.reads genuine inOrder
  have chain := inOrder.chain
  have differ : List.IsChain _ trace.emitted := ids
  rw [← heard.emissions, List.isChain_map] at chain differ
  rw [List.isChain_iff_forall_rel_of_append_cons_cons] at chain differ ⊢
  have onTime := List.isChain_iff_forall_rel_of_append_cons_cons.mp heard.onTime
  intro first second before after split
  have readFirst := (reads first (by simp [split])).2
  have readSecond := (reads second (by simp [split])).2
  exact EndToEnd.neighbours readFirst readSecond (chain split) (differ split) (onTime split)

theorem HeardOnTime.heardFrom (heard : HeardOnTime mac trace.emitted history)
    (genuine : ∀ emission ∈ trace.emitted, emission.Genuine mb) (inOrder : InOrder count trace)
    (ids : ConsecutiveIdsDiffer trace.emitted) : HeardFrom mac history where
  sender := by
    intro other member
    rw [← heard.hearings] at member
    obtain ⟨sent, isSent, rfl⟩ := List.mem_map.mp member
    exact (List.forall₂_zip heard.complete isSent).sender
  format := by
    intro other member
    rw [← heard.hearings] at member
    obtain ⟨sent, isSent, rfl⟩ := List.mem_map.mp member
    exact (heard.reads genuine inOrder sent isSent).1
  stamped := heard.stamped
  passes := by
    rw [← heard.hearings, List.isChain_map]
    exact (heard.neighbours genuine inOrder ids).imp fun _ _ both => both.1

theorem HeardOnTime.passedOn (heard : HeardOnTime mac trace.emitted history)
    (genuine : ∀ emission ∈ trace.emitted, emission.Genuine mb) (inOrder : InOrder count trace)
    (ids : ConsecutiveIdsDiffer trace.emitted) :
    (passedOn mac (history.map scanPduOf)).map
        (fun call => (call.data.bytes call.size, call.macAddress)) =
      (selectedPairs sameSession trace.emitted).map fun emission => (emission.frame, mac) := by
  have chain := heard.neighbours genuine inOrder ids
  have byTime := selectedPairs_map authorizes
    (fun first second : Emission × Hearing => sameSession first.1 second.1)
    (fun sent => scanPduOf sent.2) (chain.imp fun _ _ both => both.2)
  have bySession := selectedPairs_map sameSession
    (fun first second : Emission × Hearing => sameSession first.1 second.1) Prod.fst
    ((List.isChain_iff_forall_rel_of_append_cons_cons (l := trace.emitted.zip history)).mpr
      fun _ _ _ _ _ => rfl)
  have scanned : history.map scanPduOf =
      (trace.emitted.zip history).map fun sent => scanPduOf sent.2 := by
    conv_lhs => rw [← heard.hearings, List.map_map]
    rfl
  rw [heard.emissions] at bySession
  rw [Receiver.passedOn, scanned, byTime, bySession, List.map_map, List.map_map, List.map_map]
  refine List.map_congr_left fun sent selected => ?_
  have member : sent ∈ trace.emitted.zip history := by
    obtain ⟨pair, isPair, rfl⟩ := List.mem_map.mp selected
    exact (List.of_mem_zip (List.mem_filter.mp isPair).1).1
  obtain ⟨holds, size, _⟩ := List.forall₂_zip heard.complete member
  simp only [Function.comp_apply, scanPduOf_bytes, size, Prod.mk.injEq, and_true]
  exact holds

end

/-! ## A concrete run -/

def sentInTwoSessions : Option SenderTrace :=
  senderRun tabulated
    (.start (setKeyReplacementPduCount (initPayloadEncryption ⟨fun _ => 1, 1, 0⟩) 3))
    (List.replicate 4 (.encryptPayload [0x74] (fillMarkerInPdu .zero) ⟨fun _ => 2, 2, 0x10⟩))

def emittedInTwoSessions : List Emission := (sentInTwoSessions.map SenderTrace.emitted).getD []

theorem sentInTwoSessions_eq :
    ∃ final, sentInTwoSessions = some final ∧ emittedInTwoSessions = final.emitted := by
  have produced : sentInTwoSessions.isSome = true := by decide +kernel
  obtain ⟨final, isFinal⟩ := Option.isSome_iff_exists.mp produced
  exact ⟨final, isFinal, by simp [emittedInTwoSessions, isFinal]⟩

/-- The hearings of the PDUs, the first one at `timestampUs`. -/
def hearingsOnTime (mac : EspBdAddr) : (timestampUs : Int) → List Emission → List Hearing
  | _, [] => []
  | timestampUs, emission :: rest =>
      ⟨timestampUs, Memory.ofList emission.frame, emission.frame.length, mac, fun _ => 0⟩ ::
        hearingsOnTime mac
          (timestampUs + getAdvIntervalFromKeyId emission.session.keyId * 1000) rest

theorem heardOnTime_hearingsOnTime (mac : EspBdAddr) (emitted : List Emission) :
    ∀ timestampUs, 0 < timestampUs →
      HeardOnTime mac emitted (hearingsOnTime mac timestampUs emitted) := by
  induction emitted with
  | nil => exact fun _ _ => ⟨List.Forall₂.nil, List.IsChain.nil, by simp [hearingsOnTime]⟩
  | cons emission rest ih =>
      intro timestampUs positive
      obtain ⟨complete, onTime, stamped⟩ :=
        ih (timestampUs + getAdvIntervalFromKeyId emission.session.keyId * 1000) (by omega)
      refine ⟨List.Forall₂.cons ⟨holds_ofList _, rfl, rfl⟩ complete, ?_, ?_⟩
      · refine List.isChain_cons.mpr ⟨fun next isNext => ?_, onTime⟩
        cases rest with
        | nil => simp [hearingsOnTime] at isNext
        | cons other others =>
            obtain rfl := Option.some.inj isNext
            rfl
      · intro heard member
        rcases List.mem_cons.mp member with rfl | later
        · exact positive.ne'
        · exact stamped heard later

def hearThenAuthorize (mac : EspBdAddr) (emitted : List Emission) : List AuthorizeStep :=
  (hearingsOnTime mac 1 emitted).map AuthorizeStep.hear ++ authorizeEach

theorem hearings_hearThenAuthorize (mac : EspBdAddr) (emitted : List Emission) :
    hearings (hearThenAuthorize mac emitted) = hearingsOnTime mac 1 emitted := by
  have heard : ∀ history : List Hearing,
      hearings (history.map AuthorizeStep.hear ++ authorizeEach) = history := by
    intro history
    induction history with
    | nil => rfl
    | cons first rest ih => exact congrArg (first :: ·) ih
  exact heard _

/-! ## Completeness -/

/-- Completeness of interval authorization, with the comparison staying inside a session:
once all private queues are empty, each frame heard that another one of its session follows
was passed on, once and in order, and no other frame was. -/
theorem honest_sender_authorized (mb : Mbedtls) (initial : RandomDraws) (count : UInt32)
    (several : 2 ≤ count.toNat) (wide : count.toNat ≤ 65536) {calls : List SenderCall}
    {final : SenderTrace} (honest : ∀ call ∈ calls, call.Honest)
    (sent : senderRun mb (.start (setKeyReplacementPduCount (initPayloadEncryption initial) count))
      calls = some final)
    (ids : ConsecutiveIdsDiffer final.emitted) {mac : EspBdAddr} {steps : List AuthorizeStep}
    (heard : HeardOnTime mac final.emitted (hearings steps))
    (room : Guarded authorizeStep PrivateQueuesHaveRoom initAdvTimeAuthorizeObject steps)
    (processed : ∀ i, ((run authorizeStep initAdvTimeAuthorizeObject steps).consumers
      i).privateQueue = []) :
    passedFrames (run authorizeStep initAdvTimeAuthorizeObject steps) =
      (selectedPairs sameSession final.emitted).map fun emission => (emission.frame, mac) := by
  have genuine : ∀ emission ∈ final.emitted, emission.Genuine mb :=
    senderRun_genuine ((coherent_init initial).setCount count) sent
  have inOrder := senderRun_inOrder several wide (inOrder_start initial several) honest sent
  have positive : ∀ first, (hearings steps).head? = some first → 0 < first.pduNo := by
    intro first isFirst
    cases emitted : final.emitted with
    | nil =>
        have lengths := heard.complete.length_eq
        rw [emitted] at lengths
        simp [List.length_eq_zero_iff.mp lengths.symm] at isFirst
    | cons emission others =>
        cases heardSteps : hearings steps with
        | nil => simp [heardSteps] at isFirst
        | cons other rest =>
            rw [heardSteps] at isFirst
            obtain rfl := Option.some.inj isFirst
            have read := (heard.reads genuine inOrder (emission, other)
              (by simp [emitted, heardSteps])).2
            have one := inOrder.first emission (by simp [emitted])
            have number : other.pduNo = emission.pduNo := read.pduNo
            rw [number, UInt16.lt_iff_toNat_lt, one]
            decide
  obtain ⟨received, index, queue, enqueued⟩ :=
    single_sender_authorized (heard.heardFrom genuine inOrder ids) positive room
  rw [processed index, List.append_nil] at queue
  rw [passedFrames, enqueued, queue]
  exact heard.passedOn genuine inOrder ids

/-- The first PDU of each of two sessions is passed on. -/
theorem honest_sender_authorized_two_sessions :
    let final := run authorizeStep initAdvTimeAuthorizeObject
      (hearThenAuthorize 0xA1 emittedInTwoSessions)
    (passedFrames final).length = 2 ∧ passedFrames final =
      (selectedPairs sameSession emittedInTwoSessions).map
        fun emission => (emission.frame, 0xA1) := by
  refine ⟨by decide +kernel, ?_⟩
  have ids : ConsecutiveIdsDiffer emittedInTwoSessions := by decide +kernel
  have room : Guarded authorizeStep PrivateQueuesHaveRoom initAdvTimeAuthorizeObject
      (hearThenAuthorize 0xA1 emittedInTwoSessions) := by decide +kernel
  have processed : ∀ i, ((run authorizeStep initAdvTimeAuthorizeObject
      (hearThenAuthorize 0xA1 emittedInTwoSessions)).consumers i).privateQueue.length = 0 := by
    decide +kernel
  obtain ⟨final, sent, emitted⟩ := sentInTwoSessions_eq
  rw [emitted] at ids room processed ⊢
  refine honest_sender_authorized tabulated ⟨fun _ => 1, 1, 0⟩ 3 (by decide) (by decide)
    (by decide) sent ids ?_ room fun i => List.length_eq_zero_iff.mp (processed i)
  rw [hearings_hearThenAuthorize]
  exact heardOnTime_hearingsOnTime 0xA1 final.emitted 1 (by decide)

/-- The last frame of the first session is followed by one of the second session, and is not
passed on. -/
theorem last_of_session_not_passed :
    ¬ ∀ (mb : Mbedtls) (initial : RandomDraws) (count : UInt32) (calls : List SenderCall)
      (final : SenderTrace), count.toNat ≤ 65536 → (∀ call ∈ calls, call.Honest) →
      senderRun mb (.start (setKeyReplacementPduCount (initPayloadEncryption initial) count))
        calls = some final →
      ConsecutiveIdsDiffer final.emitted →
      (∀ emission ∈ final.emitted,
        2 ≤ (final.emitted.filter fun other => other.session = emission.session).length) →
      ∀ mac, mac ≠ 0 → ∀ steps, HeardOnTime mac final.emitted (hearings steps) →
      Guarded authorizeStep PrivateQueuesHaveRoom initAdvTimeAuthorizeObject steps →
      (∀ i, ((run authorizeStep initAdvTimeAuthorizeObject steps).consumers
        i).privateQueue = []) →
      passedFrames (run authorizeStep initAdvTimeAuthorizeObject steps) =
        final.emitted.dropLast.map fun emission => (emission.frame, mac) := by
  intro always
  have ids : ConsecutiveIdsDiffer emittedInTwoSessions := by decide +kernel
  have several : ∀ emission ∈ emittedInTwoSessions, 2 ≤ (emittedInTwoSessions.filter
      fun other => other.session = emission.session).length := by
    decide +kernel
  have room : Guarded authorizeStep PrivateQueuesHaveRoom initAdvTimeAuthorizeObject
      (hearThenAuthorize 0xA1 emittedInTwoSessions) := by decide +kernel
  have processed : ∀ i, ((run authorizeStep initAdvTimeAuthorizeObject
      (hearThenAuthorize 0xA1 emittedInTwoSessions)).consumers i).privateQueue.length = 0 := by
    decide +kernel
  have passed : (passedFrames (run authorizeStep initAdvTimeAuthorizeObject
      (hearThenAuthorize 0xA1 emittedInTwoSessions))).length ≠
        emittedInTwoSessions.dropLast.length := by
    decide +kernel
  obtain ⟨final, sent, emitted⟩ := sentInTwoSessions_eq
  rw [emitted] at ids several room processed passed
  have heard : HeardOnTime 0xA1 final.emitted
      (hearings (hearThenAuthorize 0xA1 final.emitted)) := by
    rw [hearings_hearThenAuthorize]
    exact heardOnTime_hearingsOnTime 0xA1 final.emitted 1 (by decide)
  have all := always tabulated ⟨fun _ => 1, 1, 0⟩ 3 _ final (by decide) (by decide) sent ids
    several 0xA1 (by decide) _ heard room fun i => List.length_eq_zero_iff.mp (processed i)
  rw [all, List.length_map] at passed
  exact passed rfl

end BleBroadcast.EndToEnd
