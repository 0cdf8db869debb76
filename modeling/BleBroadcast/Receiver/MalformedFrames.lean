import BleBroadcast.Receiver.ScanFilter
import BleBroadcast.Receiver.SecPduProcessing

/-!
# Advertisements that are too short

An advertisement is followed through the receiver: what the scan callback reads of it,
what `enqueue_pdu_for_processing` keeps of it, and what `handle_event_new_pdu` takes
it for.  No function checks that the header is complete, so an advertisement stays
within its bytes exactly if the marker check rejects it or it is long enough.
-/

set_option autoImplicit false

namespace BleBroadcast.Receiver

open BleBroadcast.Core BleBroadcast.Lib

/-- The buffer of the hearing begins with these bytes, and they are the advertisement. -/
structure Hearing.Carries (heard : Hearing) (bytes : List UInt8) : Prop where
  size : heard.dataSize = bytes.length
  data : ∀ i, i < bytes.length → heard.data i = Memory.ofList bytes i

/-- The hearing of these bytes, with `tail` behind them. -/
def hearingOf (bytes : List UInt8) (tail : Memory) (mac : EspBdAddr) : Hearing where
  timestampUs := 0
  data := fun i => if i < bytes.length then Memory.ofList bytes i else tail i
  dataSize := bytes.length
  macAddress := mac
  stack := fun _ => 0

theorem hearingOf_carries (bytes : List UInt8) (tail : Memory) (mac : EspBdAddr) :
    (hearingOf bytes tail mac).Carries bytes :=
  ⟨rfl, fun _ inside => if_pos inside⟩

def newlyQueued (ao : AdvTimeAuthorizeStructure) (heard : Hearing) : List QueuedPdu :=
  (scanCompleteCallback ao heard).queued.drop ao.queued.length

def frameOf (bytes : List UInt8) (mac : EspBdAddr) : BeaconPduDataWithMacAddr where
  data := Memory.ofList bytes
  size := bytes.length
  macAddress := mac

theorem enqueuePduForProcessing_carried {heard : Hearing} {bytes : List UInt8}
    (carries : heard.Carries bytes) (sec : SecPduProcessing)
    (room : sec.processingQueue.length < 100) (mac : EspBdAddr) :
    enqueuePduForProcessing sec (scanPduOf heard).data (scanPduOf heard).size mac =
      { sec with processingQueue := sec.processingQueue ++ [frameOf bytes mac] } := by
  have copied : (fun i => if i < (scanPduOf heard).size then (scanPduOf heard).data i else 0) =
      Memory.ofList bytes := by
    funext i
    by_cases inside : i < bytes.length
    · simp only [scanPduOf, carries.size, if_pos inside, carries.data i inside]
    · simp only [scanPduOf, carries.size, if_neg inside]
      simp [Memory.ofList, Nat.le_of_not_lt inside]
  simp only [enqueuePduForProcessing, maxProcessingQueueElements, if_pos room, copied]
  rw [frameOf, ← carries.size]
  rfl

/-- The length from which on an advertisement is complete: up to the end of the payload
size, of the tag, or, for no command, of the key session data. -/
def neededLength (bytes : List UInt8) : Nat :=
  if bytes[commandOffset]? = some dataCmd then pduHeaderSize
  else if bytes[commandOffset]? = some keyFragmentCmd then keyPduSize
  else keySessionOffset + 2

def HasMarker (bytes : List UInt8) : Prop := bytes.take 3 = [0xFF, 0x08, 0x00]

/-- An advertisement that stays within its bytes. -/
structure Contained (bytes : List UInt8) : Prop where
  /-- What is stored of a queued advertisement does not depend on what is behind it. -/
  stored : ∃ pduNo keyId, ∀ (history : List AuthorizeStep) (heard : Hearing),
    heard.Carries bytes →
    ∀ queued ∈ newlyQueued (run authorizeStep initAdvTimeAuthorizeObject history) heard,
      queued.pdu.pduNo = pduNo ∧ queued.pdu.keyId = keyId
  /-- If it can be queued and is taken for data, the payload lengths are right. -/
  data : ∀ (history : List AuthorizeStep) (heard : Hearing), heard.Carries bytes →
    newlyQueued (run authorizeStep initAdvTimeAuthorizeObject history) heard ≠ [] →
    ∀ mac, getCommandFromPdu (frameOf bytes mac).data (frameOf bytes mac).size = dataCmd →
    ∀ (mb : Mbedtls) (stack : BeaconPduData) (key : Key128b),
      let pdu := getBeaconPduFromAdvData stack (frameOf bytes mac).data (frameOf bytes mac).size
      pdu.payloadSize + 9 = bytes.length ∧ pdu.payloadSize ≤ maxPduPayloadSize ∧
      ∀ notified ∈ decryptAndNotify mb key pdu mac, notified.payloadSize + 9 = bytes.length
  /-- If it can be queued and is taken for a key fragment, it is one of full length. -/
  fragment : ∀ (history : List AuthorizeStep) (heard : Hearing), heard.Carries bytes →
    newlyQueued (run authorizeStep initAdvTimeAuthorizeObject history) heard ≠ [] →
    ∀ mac, getCommandFromPdu (frameOf bytes mac).data (frameOf bytes mac).size = keyFragmentCmd →
      keyPduSize ≤ bytes.length
  /-- If it is too short, no record changes, in the filter or in the processing. -/
  short : bytes.length < neededLength bytes →
    (∀ (history : List AuthorizeStep) (heard : Hearing), heard.Carries bytes →
      (scanCompleteCallback (run authorizeStep initAdvTimeAuthorizeObject history)
          heard).consumers =
        (run authorizeStep initAdvTimeAuthorizeObject history).consumers) ∧
    ∀ (history : List AuthorizeStep) (heard : Hearing), heard.Carries bytes →
      newlyQueued (run authorizeStep initAdvTimeAuthorizeObject history) heard ≠ [] →
      ∀ (mb : Mbedtls) (tickCount : UInt32) (stack : BeaconPduData) (receiver : ReceiverState)
        (mac : EspBdAddr),
        (handleNewFrame mb tickCount stack receiver
            (frameOf bytes mac)).sec.consumerCollection.arr =
          receiver.sec.consumerCollection.arr

/-! ## What is read -/

theorem claim_queued (ao : AdvTimeAuthorizeStructure) (mac : EspBdAddr) :
    (getConsumerIndexForAddr ao mac).2.queued = ao.queued := by
  obtain ⟨_, _, result⟩ | ⟨_, _, _, result⟩ | ⟨_, _, result⟩ :=
    getConsumerIndexForAddr_cases ao mac <;> simp [result, setAuthorization]

theorem filterAdvertisement_queued (ao : AdvTimeAuthorizeStructure) (heard : Hearing) :
    (filterAdvertisement ao heard).queued = ao.queued ∨
      ∃ queued : QueuedPdu, queued.pdu = scanPduOf heard ∧
        (filterAdvertisement ao heard).queued = ao.queued ++ [queued] := by
  have claims := claim_queued ao heard.macAddress
  obtain same | ⟨index, claimed, format, found⟩ := filterAdvertisement_cases ao heard
  · exact Or.inl (by rw [same])
  · rw [found] at claims
    obtain ⟨_, _, stopped⟩ | ⟨_, taken⟩ := filterAdvertisement_found format found
    · exact Or.inl (by rw [stopped]; exact claims)
    · rw [taken]
      simp only [noteLastPdu, setAuthorization, sendToPrivateQueue]
      split
      · exact Or.inr ⟨_, rfl, by rw [claims]⟩
      · exact Or.inl claims

theorem newlyQueued_pdu (ao : AdvTimeAuthorizeStructure) (heard : Hearing) :
    ∀ queued ∈ newlyQueued ao heard, queued.pdu = scanPduOf heard := by
  intro queued member
  rw [newlyQueued, scanCompleteCallback] at member
  rcases filterAdvertisement_queued ao heard with same | ⟨other, own, appended⟩
  · simp [same] at member
  · rw [appended, List.drop_left, List.mem_singleton] at member
    rw [member, own]

theorem filterAdvertisement_rejected (ao : AdvTimeAuthorizeStructure) {heard : Hearing}
    (rejected : isPduInBeaconPduFormat heard.data heard.dataSize = false) :
    filterAdvertisement ao heard = ao := by
  simp [filterAdvertisement, rejected]

theorem newlyQueued_rejected (ao : AdvTimeAuthorizeStructure) {heard : Hearing}
    (rejected : isPduInBeaconPduFormat heard.data heard.dataSize = false) :
    newlyQueued ao heard = [] := by
  simp [newlyQueued, scanCompleteCallback, filterAdvertisement_rejected ao rejected]

theorem Hearing.Carries.format_iff {heard : Hearing} {bytes : List UInt8}
    (carries : heard.Carries bytes) :
    isPduInBeaconPduFormat heard.data heard.dataSize = true ↔ HasMarker bytes := by
  rw [isPduInBeaconPduFormat, carries.size]
  match bytes with
  | [] => simp [HasMarker]
  | [_] => simp [HasMarker]
  | [_, _] => simp [HasMarker]
  | first :: second :: third :: rest =>
      have d0 := carries.data 0 (by simp)
      have d1 := carries.data 1 (by simp)
      have d2 := carries.data 2 (by simp)
      simp only [Memory.ofList, List.getD_cons_zero, List.getD_cons_succ] at d0 d1 d2
      simp [HasMarker, myMarker, Fin.forall_fin_succ, d0, d1, d2]

theorem scanPduOf_stored {heard : Hearing} {bytes : List UInt8} (carries : heard.Carries bytes)
    (complete : 8 ≤ bytes.length) :
    (scanPduOf heard).pduNo = wordOfBytes (Memory.ofList bytes 4) (Memory.ofList bytes 5) ∧
    (scanPduOf heard).keyId = getKeyIdFromKeySessionData
      (wordOfBytes (Memory.ofList bytes 6) (Memory.ofList bytes 7)) := by
  simp only [scanPduOf, carries.data 4 (by omega), carries.data 5 (by omega),
    carries.data 6 (by omega), carries.data 7 (by omega), and_self]

theorem getElem_commandOffset {bytes : List UInt8} (complete : 8 ≤ bytes.length) :
    bytes[commandOffset]? = some (Memory.ofList bytes commandOffset) := by
  have inside : commandOffset < bytes.length := by
    unfold commandOffset
    omega
  simp [Memory.ofList, List.getD_eq_getElem?_getD, inside]

theorem getCommandFromPdu_complete {bytes : List UInt8} (complete : 8 ≤ bytes.length)
    {command : UInt8} (known : command = dataCmd ∨ command = keyFragmentCmd) (mac : EspBdAddr) :
    getCommandFromPdu (frameOf bytes mac).data (frameOf bytes mac).size = command ↔
      bytes[commandOffset]? = some command := by
  rw [getElem_commandOffset complete, Option.some_inj, getCommandFromPdu,
    if_neg (by simp only [frameOf, commandOffset]; omega), frameOf]
  have notNone : (255 : UInt8) ≠ dataCmd ∧ (255 : UInt8) ≠ keyFragmentCmd := by decide
  rcases known with rfl | rfl <;> grind

theorem neededLength_ge (bytes : List UInt8) : 8 ≤ neededLength bytes := by
  unfold neededLength
  split
  · decide
  · split <;> decide

/-! ## What can be queued -/

theorem newlyQueued_after {heard : Hearing} (own : heard.macAddress = 0xA1)
    (format : isPduInBeaconPduFormat heard.data heard.dataSize = true) {keyId : UInt8}
    (known : keyId = 1 ∨ keyId = 2) (differs : heard.keyId ≠ keyId.toUInt16) :
    newlyQueued (run authorizeStep initAdvTimeAuthorizeObject [hearFrame 0xA1 keyId 0 0]) heard =
      [⟨0xA1, 1, scanPduOf heard⟩] := by
  have earlier : (dataHeard 0xA1 keyId 0 0).keyId = keyId.toUInt16 ∧
      isPduInBeaconPduFormat (dataHeard 0xA1 keyId 0 0).data
        (dataHeard 0xA1 keyId 0 0).dataSize = true ∧
      ∀ i, ((scanCompleteCallback initAdvTimeAuthorizeObject
        (dataHeard 0xA1 keyId 0 0)).consumers i).privateQueue.length < 50 := by
    rcases known with rfl | rfl <;> decide +kernel
  obtain ⟨follows, _⟩ := scanCompleteCallback_follows (followsHearings_start 0xA1 0xA1)
    (dataHeard 0xA1 keyId 0 0) (Or.inl rfl) earlier.2.1 (by decide)
  obtain ⟨_, queued⟩ :=
    scanCompleteCallback_follows follows heard (Or.inl own) format earlier.2.2
  have notCovered : ¬ BlockCovers [dataHeard 0xA1 keyId 0 0] heard :=
    fun covers => differs (covers.1.symm.trans earlier.1)
  rw [if_neg notCovered, own] at queued
  rw [run_cons, run_nil, hearFrame, authorizeStep_hear, newlyQueued, queued, List.drop_left]
  rfl

theorem exists_newlyQueued {bytes : List UInt8} (marker : HasMarker bytes) :
    ∃ history heard, heard.Carries bytes ∧
      newlyQueued (run authorizeStep initAdvTimeAuthorizeObject history) heard ≠ [] := by
  have carries := hearingOf_carries bytes (fun _ => 0) 0xA1
  have format := carries.format_iff.mpr marker
  by_cases one : (hearingOf bytes (fun _ => 0) 0xA1).keyId = 1
  · refine ⟨[hearFrame 0xA1 2 0 0], _, carries, ?_⟩
    rw [newlyQueued_after rfl format (Or.inr rfl) (by rw [one]; decide)]
    simp
  · refine ⟨[hearFrame 0xA1 1 0 0], _, carries, ?_⟩
    rw [newlyQueued_after rfl format (Or.inl rfl) one]
    simp

theorem short_not_stored {bytes : List UInt8} (marker : HasMarker bytes)
    (short : bytes.length < 8) : ¬ Contained bytes := by
  intro contained
  obtain ⟨pduNo, keyId, stored⟩ := contained.stored
  have highByte : ∀ value : UInt8, (hearingOf bytes (fun _ => value) 0xA1).keyId =
      getKeyIdFromKeySessionData (wordOfBytes
        (if 6 < bytes.length then Memory.ofList bytes 6 else value) value) := by
    intro value
    have behind : ¬ 7 < bytes.length := by omega
    simp only [Hearing.keyId, scanPduOf, hearingOf, keySessionOffset, if_neg behind]
  have value : ∀ value : UInt8, value.toNat < 64 →
      (hearingOf bytes (fun _ => value) 0xA1).keyId.toNat / 256 = value.toNat := by
    intro value small
    rw [highByte value, toNat_getKeyId, wordOfBytes, UInt16.toNat_ofNat']
    have low := (if 6 < bytes.length then Memory.ofList bytes 6 else value).toNat_lt
    omega
  have isStored : ∀ value : UInt8, 0 < value.toNat → value.toNat < 64 →
      (hearingOf bytes (fun _ => value) 0xA1).keyId = keyId := by
    intro other positive small
    have carries := hearingOf_carries bytes (fun _ => other) 0xA1
    have differs : (hearingOf bytes (fun _ => other) 0xA1).keyId ≠ (1 : UInt8).toUInt16 := by
      intro same
      have high := value other small
      rw [same] at high
      simp at high
      omega
    refine (stored [hearFrame 0xA1 1 0 0] _ carries ⟨0xA1, 1, _⟩ ?_).2
    rw [newlyQueued_after rfl (carries.format_iff.mpr marker) (Or.inl rfl) differs]
    exact List.mem_singleton_self _
  have first := value 1 (by decide)
  have second := value 2 (by decide)
  rw [isStored 1 (by decide) (by decide)] at first
  rw [isStored 2 (by decide) (by decide), first] at second
  exact absurd second (by decide)

/-! ## Exactly which advertisements stay within their bytes -/

theorem decryptAndNotify_size (mb : Mbedtls) (key : Key128b) (pdu : BeaconPduData)
    (mac : EspBdAddr) : ∀ notified ∈ decryptAndNotify mb key pdu mac,
      notified.payloadSize = pdu.payloadSize := by
  intro notified isNotified
  unfold decryptAndNotify at isNotified
  split at isNotified
  · contradiction
  · rw [← Option.mem_some.mp isNotified]

theorem contained_of_rejected {bytes : List UInt8} (rejected : ¬ HasMarker bytes) :
    Contained bytes := by
  have noFormat : ∀ heard : Hearing, heard.Carries bytes →
      isPduInBeaconPduFormat heard.data heard.dataSize = false :=
    fun heard carries => by simpa using fun format => rejected (carries.format_iff.mp format)
  have notQueued : ∀ (ao : AdvTimeAuthorizeStructure) (heard : Hearing), heard.Carries bytes →
      newlyQueued ao heard = [] :=
    fun ao heard carries => newlyQueued_rejected ao (noFormat heard carries)
  refine ⟨⟨0, 0, ?_⟩, ?_, ?_, fun _ => ⟨?_, ?_⟩⟩
  · intro history heard carries queued member
    rw [notQueued _ heard carries] at member
    exact absurd member List.not_mem_nil
  · exact fun history heard carries some => absurd (notQueued _ heard carries) some
  · exact fun history heard carries some => absurd (notQueued _ heard carries) some
  · intro history heard carries
    simp only [scanCompleteCallback, filterAdvertisement_rejected _ (noFormat heard carries)]
  · exact fun history heard carries some => absurd (notQueued _ heard carries) some

theorem contained_of_complete {bytes : List UInt8} (fits : bytes.length ≤ 31)
    (complete : neededLength bytes ≤ bytes.length) : Contained bytes := by
  have header : 8 ≤ bytes.length := (neededLength_ge bytes).trans complete
  refine ⟨⟨wordOfBytes (Memory.ofList bytes 4) (Memory.ofList bytes 5),
    getKeyIdFromKeySessionData (wordOfBytes (Memory.ofList bytes 6) (Memory.ofList bytes 7)), ?_⟩,
    ?_, ?_, fun short => absurd complete (Nat.not_le.mpr short)⟩
  · intro history heard carries queued member
    rw [newlyQueued_pdu _ heard queued member]
    exact scanPduOf_stored carries header
  · intro history heard carries _ mac isData mb stack key pdu
    have command := (getCommandFromPdu_complete header (Or.inl rfl) mac).mp isData
    have long : 9 ≤ bytes.length := by simpa [neededLength, command] using complete
    have size : pdu.payloadSize = bytes.length - 9 := by
      simp only [pdu, getBeaconPduFromAdvData, BeaconPduData.overlay, frameOf,
        getPayloadSizeFromPdu]
      omega
    clear_value pdu
    refine ⟨by omega, by rw [maxPduPayloadSize_eq]; omega, fun notified isNotified => ?_⟩
    rw [decryptAndNotify_size mb key pdu mac notified isNotified]
    omega
  · intro history heard carries _ mac isFragment
    have command := (getCommandFromPdu_complete header (Or.inr rfl) mac).mp isFragment
    rw [neededLength, command, if_neg (by decide), if_pos rfl] at complete
    exact complete

theorem not_contained_of_short {bytes : List UInt8} (marker : HasMarker bytes)
    (short : bytes.length < neededLength bytes) : ¬ Contained bytes := by
  by_cases header : 8 ≤ bytes.length
  · intro contained
    obtain ⟨history, heard, carries, queued⟩ := exists_newlyQueued marker
    by_cases isData : bytes[commandOffset]? = some dataCmd
    · have command := (getCommandFromPdu_complete header (Or.inl rfl) 0xA1).mpr isData
      obtain ⟨size, _⟩ := contained.data history heard carries queued 0xA1 command tabulated
        .zero fun _ => 0
      simp only [neededLength, if_pos isData, pduHeaderSize] at short
      omega
    · by_cases isFragment : bytes[commandOffset]? = some keyFragmentCmd
      · have command := (getCommandFromPdu_complete header (Or.inr rfl) 0xA1).mpr isFragment
        have long := contained.fragment history heard carries queued 0xA1 command
        simp only [neededLength, if_neg isData, if_pos isFragment] at short
        omega
      · simp only [neededLength, if_neg isData, if_neg isFragment, keySessionOffset] at short
        omega
  · exact short_not_stored marker (by omega)

/-- An advertisement stays within its bytes exactly if it does not begin with the marker
or is complete: 9 bytes for data, 17 for a key fragment, 8 for another command. -/
theorem contained_iff (bytes : List UInt8) (fits : bytes.length ≤ maxGapDataLen) :
    Contained bytes ↔ ¬ HasMarker bytes ∨ neededLength bytes ≤ bytes.length := by
  constructor
  · intro contained
    by_contra neither
    obtain ⟨marker, short⟩ := not_or.mp neither
    exact not_contained_of_short (not_not.mp marker) (Nat.not_le.mp short) contained
  · rintro (rejected | complete)
    · exact contained_of_rejected rejected
    · exact contained_of_complete fits complete

theorem contained_iff_data_frame :
    Contained [0xFF, 0x08, 0x00, 1, 0, 0, 1, 0, 0x10, 0x42] :=
  (contained_iff [0xFF, 0x08, 0x00, 1, 0, 0, 1, 0, 0x10, 0x42] (by decide)).mpr
    (Or.inr (by decide))

/-- A DATA frame that ends with the key session data. -/
theorem headless_data_frame_escapes :
    ¬ ∀ bytes : List UInt8, bytes.length ≤ maxGapDataLen → Contained bytes :=
  fun all => @not_contained_of_short [0xFF, 0x08, 0x00, 1, 0, 0, 1, 0] rfl (by decide)
    (all _ (by decide))

end BleBroadcast.Receiver
