import BleBroadcast.Receiver.AdvTimeAuthorize
import BleBroadcast.Receiver.SecPduProcessing
import BleBroadcast.Sender.SenderTrace

/-!
# From the sender's structs to the receiver's

The frame of a PDU is read back in four ways: by the marker check, by the command
check, by the scan callback and by the two struct overlays.  All of them show what
the sender put in.
-/

set_option autoImplicit false

namespace BleBroadcast.EndToEnd

open BleBroadcast.Core BleBroadcast.Sender BleBroadcast.Receiver

def Holds (data : Memory) (bytes : List UInt8) : Prop := data.bytes bytes.length = bytes

theorem Holds.byte {data : Memory} {bytes : List UInt8} (holds : Holds data bytes) {i : Nat}
    (inside : i < bytes.length) : data i = bytes[i] := by
  have same := congrArg (fun list : List UInt8 => list[i]?) holds
  simpa [Memory.bytes, inside] using same

theorem holds_ofList (bytes : List UInt8) : Holds (Memory.ofList bytes) bytes := by
  apply List.ext_getElem (by simp)
  intro i first second
  simp [Memory.bytes, Memory.ofList, second]

/-! ## Data PDUs -/

theorem decryptPdu_of_frame {mb : Mbedtls} {session : Session} {plaintext : List UInt8}
    {nonce : Nonce} {pdu received : BeaconPduData}
    (genuine : (Emission.data session plaintext nonce pdu).Genuine mb)
    (room : received.payloadSize ≤ received.payload.length)
    (same : received.frame = pdu.frame) :
    buildNonce received.marker received.keySessionData received.xorSeed = nonce ∧
      received.payloadSize = plaintext.length ∧
      decryptPdu mb session.key received = plaintext := by
  have ownRoom := genuine.room
  obtain ⟨_, _, _, _, isNonce, size, rest, payload⟩ := genuine
  obtain ⟨marker, _, _, keySession, seed, sizes, payloads⟩ :=
    BeaconPduData.frame_inj room ownRoom same
  have sameNonce : buildNonce received.marker received.keySessionData received.xorSeed = nonce := by
    rw [marker, keySession, seed, isNonce]
  refine ⟨sameNonce, sizes.trans size, ?_⟩
  calc decryptPdu mb session.key received
      = aesCtrDecryptPayload mb pdu.payload pdu.payloadSize session.key nonce := by
        rw [decryptPdu, sameNonce, aesCtrDecryptPayload, aesCtrEncryptPayload, payloads]
        rfl
    _ = plaintext := by
        rw [payload, size]
        exact aesCtr_round_trip mb plaintext rest session.key nonce

theorem scan_agrees_with_struct (heard : Hearing) (stack : BeaconPduData)
    (header : 9 ≤ heard.dataSize) :
    (scanPduOf heard).pduNo =
        (getBeaconPduFromAdvData stack heard.data heard.dataSize).pduNo ∧
      (scanPduOf heard).keyId = getKeyIdFromKeySessionData
        (getBeaconPduFromAdvData stack heard.data heard.dataSize).keySessionData := by
  simp only [scanPduOf, getBeaconPduFromAdvData, BeaconPduData.overlay, pduNoOffset,
    keySessionOffset, if_pos (show 4 < heard.dataSize by omega),
    if_pos (show 4 + 1 < heard.dataSize by omega), if_pos (show 6 < heard.dataSize by omega),
    if_pos (show 6 + 1 < heard.dataSize by omega), and_self]

theorem command_of_frame {data : Memory} {marker : Bytes 3} {command : UInt8}
    {rest : List UInt8}
    (holds : Holds data (marker 0 :: marker 1 :: marker 2 :: command :: rest))
    (known : command = dataCmd ∨ command = keyFragmentCmd) :
    getCommandFromPdu data (rest.length + 4) = command := by
  have fourth : data 3 = command := holds.byte (by simp)
  simp only [getCommandFromPdu, commandOffset, fourth]
  rw [if_neg (by omega)]
  rcases known with rfl | rfl
  · rfl
  · rfl

theorem checks_of_frame {data : Memory} {marker : Bytes 3} {command : UInt8} {rest : List UInt8}
    (holds : Holds data (marker 0 :: marker 1 :: marker 2 :: command :: rest))
    (isMarker : marker = myMarker) (known : command = dataCmd ∨ command = keyFragmentCmd) :
    isPduInBeaconPduFormat data (rest.length + 4) = true ∧
      getCommandFromPdu data (rest.length + 4) = command := by
  have first : data 0 = marker 0 := holds.byte (by simp)
  have second : data 1 = marker 1 := holds.byte (by simp)
  have third : data 2 = marker 2 := holds.byte (by simp)
  refine ⟨?_, command_of_frame holds known⟩
  subst isMarker
  simp [isPduInBeaconPduFormat, Fin.forall_fin_succ, first, second, third]

structure ReadsData (mb : Mbedtls) (data : Memory) (size : Nat) (key : Key128b)
    (keyId : UInt16) (counter : Nat) (nonce : Nonce) (payload : List UInt8) : Prop where
  fits : size ≤ maxGapDataLen
  format : isPduInBeaconPduFormat data size = true
  command : getCommandFromPdu data size = dataCmd
  scanned : ∀ timestampUs mac stack,
    (scanPduOf ⟨timestampUs, data, size, mac, stack⟩).keyId = keyId ∧
      (scanPduOf ⟨timestampUs, data, size, mac, stack⟩).pduNo.toNat = counter % 65536
  decrypted : ∀ stack, let pdu := getBeaconPduFromAdvData stack data size
    buildNonce pdu.marker pdu.keySessionData pdu.xorSeed = nonce ∧
      pdu.payloadSize = payload.length ∧ decryptPdu mb key pdu = payload

theorem readsData_filledPdu (mb : Mbedtls) {state : PayloadEncryption}
    (bits : state.keyId.toNat < 16384) {payload : List UInt8} (fits : payload.length ≤ 22)
    (pdu : BeaconPduData) (xorSeed : UInt8)
    {data : Memory}
    (holds : Holds data (filledPdu mb state payload (fillMarkerInPdu pdu) xorSeed).frame) :
    ReadsData mb data
      (getBeaconPduDataLen (filledPdu mb state payload (fillMarkerInPdu pdu) xorSeed))
      state.preSharedKey state.keyId state.encryptedPacketCounter
      (payloadNonce state (fillMarkerInPdu pdu) xorSeed) payload := by
  have accepted : payload.length ≤ maxPduPayloadSize := by
    rw [maxPduPayloadSize_eq]
    omega
  have genuine := genuine_filledPdu mb bits accepted (fillMarkerInPdu pdu) xorSeed
  generalize isFilled : filledPdu mb state payload (fillMarkerInPdu pdu) xorSeed = filled
    at holds genuine ⊢
  have marker : filled.marker = myMarker := by rw [← isFilled]; rfl
  have cmd : filled.cmd = dataCmd := by rw [← isFilled]; rfl
  have number : filled.pduNo = UInt16.ofNat state.encryptedPacketCounter := by rw [← isFilled]; rfl
  have session : filled.keySessionData = state.keyId := genuine.2.2.2.1
  have payloadSize : filled.payloadSize = payload.length := by rw [← isFilled]; rfl
  have room := genuine.room
  have length := BeaconPduData.length_frame room
  have size : getBeaconPduDataLen filled = filled.frame.length := by
    rw [length, getBeaconPduDataLen]
    omega
  have bytes : data.bytes (getBeaconPduDataLen filled) = filled.frame := by
    rw [size]
    exact holds
  have header : 9 ≤ getBeaconPduDataLen filled := by omega
  have short : getBeaconPduDataLen filled ≤ 31 := by omega
  have same : ∀ stack, (getBeaconPduFromAdvData stack data (getBeaconPduDataLen filled)).frame =
      filled.frame :=
    fun stack => (frame_getBeaconPduFromAdvData stack data _ header (by omega)).trans bytes
  have receivedRoom : ∀ stack,
      (getBeaconPduFromAdvData stack data (getBeaconPduDataLen filled)).payloadSize ≤
        (getBeaconPduFromAdvData stack data (getBeaconPduDataLen filled)).payload.length :=
    fun stack => room_getBeaconPduFromAdvData stack data _ header (by omega)
  rw [BeaconPduData.frame_eq] at holds
  have checks := checks_of_frame holds marker (Or.inl cmd)
  have restLength : (lowByte filled.pduNo :: highByte filled.pduNo ::
      lowByte filled.keySessionData :: highByte filled.keySessionData :: filled.xorSeed ::
      filled.payload.take filled.payloadSize).length + 4 = getBeaconPduDataLen filled := by
    simp [size, BeaconPduData.frame_eq]
  rw [restLength, cmd] at checks
  refine ⟨short, checks.1, checks.2, ?_, fun stack => ?_⟩
  · intro timestampUs mac stack
    obtain ⟨pduNo, keyId⟩ := scan_agrees_with_struct
      ⟨timestampUs, data, getBeaconPduDataLen filled, mac, stack⟩ pdu header
    obtain ⟨_, _, sameNo, sameSession, _⟩ :=
      BeaconPduData.frame_inj (receivedRoom pdu) room (same pdu)
    refine ⟨?_, ?_⟩
    · rw [keyId, sameSession, session]
      exact and_mask_eq_self bits
    · have low := congrArg UInt16.toNat (pduNo.trans (sameNo.trans number))
      exact low.trans UInt16.toNat_ofNat'
  · have received := decryptPdu_of_frame genuine (receivedRoom stack) (same stack)
    unfold currentSession at received
    exact received

/-! ## Key fragment PDUs -/

theorem overlay_congr {data other : Memory} (same : ∀ i < keyPduSize, data i = other i) :
    BeaconKeyPduData.overlay data = BeaconKeyPduData.overlay other := by
  have marker : (fun i : Fin 3 => data i.val) = fun i : Fin 3 => other i.val :=
    funext fun i => same i.val (by simp only [keyPduSize]; omega)
  have fragment : (fun i : Fin 4 => data (8 + i.val)) = fun i : Fin 4 => other (8 + i.val) :=
    funext fun i => same (8 + i.val) (by simp only [keyPduSize]; omega)
  have tag : (fun i : Fin 4 => data (13 + i.val)) = fun i : Fin 4 => other (13 + i.val) :=
    funext fun i => same (13 + i.val) (by simp only [keyPduSize]; omega)
  simp only [BeaconKeyPduData.overlay, marker, fragment, tag, same commandOffset (by decide),
    same pduNoOffset (by decide), same (pduNoOffset + 1) (by decide),
    same keySessionOffset (by decide), same (keySessionOffset + 1) (by decide),
    same 12 (by decide)]

theorem overlay_of_frame {data : Memory} {pdu : BeaconKeyPduData}
    (holds : Holds data pdu.frame) : BeaconKeyPduData.overlay data = pdu := by
  rw [BeaconKeyPduData.frame_eq] at holds
  have same : ∀ i < keyPduSize, data i = Memory.ofList pdu.bytes i := by
    intro i inside
    have below : i < pdu.bytes.length := inside
    rw [holds.byte below, (holds_ofList pdu.bytes).byte below]
  rw [overlay_congr same, BeaconKeyPduData.overlay_bytes]

/-- The element queued for a key fragment PDU: its session and number, an encrypted fragment
that decrypts, and a tag that matches. -/
theorem fragmentElement_of_frame (mb : Mbedtls) {data : Memory} {pdu : BeaconKeyPduData}
    (holds : Holds data pdu.frame) {keyId : UInt16} (bits : keyId.toNat < 16384)
    {number : FragmentNo}
    (session : pdu.bcd.keySessionData = produceKeySessionData keyId (UInt8.ofNat number.val))
    {fragment : KeyFragment}
    (encrypted : pdu.bcd.encKeyFragment = xorEncryptKeyFragment fragment pdu.bcd.xorSeed)
    (tag : pdu.bcd.keyFragmentHmac = calculateHmacOfFragment mb fragment pdu.bcd.encKeyFragment)
    (mac : EspBdAddr) :
    let element := fragmentElement (BeaconKeyPduData.overlay data) mac
    element.keyId = keyId ∧ element.keyFragmentNo = number ∧ element.tagMatches mb = true ∧
      element.decrypted = fragment := by
  rw [overlay_of_frame holds]
  have decrypted : xorDecryptKeyFragment pdu.bcd.encKeyFragment pdu.bcd.xorSeed = fragment := by
    rw [encrypted]
    exact xorDecryptKeyFragment_encrypt _ _
  refine ⟨?_, ?_, ?_, decrypted⟩
  · simp only [fragmentElement, session]
    exact (getKeyId_produceKeySessionData keyId number).trans (and_mask_eq_self bits)
  · simp only [fragmentElement, session]
    exact getKeyFragmentIndex_produceKeySessionData keyId number
  · rw [ReconstructorQueueElement.tagMatches_iff, ReconstructorQueueElement.decrypted]
    simp only [fragmentElement, decrypted, tag]

structure ReadsKeyFragment (mb : Mbedtls) (data : Memory) (keyId : UInt16) (number : FragmentNo)
    (fragment : KeyFragment) : Prop where
  format : isPduInBeaconPduFormat data getBeaconKeyPduDataLen = true
  command : getCommandFromPdu data getBeaconKeyPduDataLen = keyFragmentCmd
  element : ∀ mac, let element := fragmentElement (BeaconKeyPduData.overlay data) mac
    element.keyId = keyId ∧ element.keyFragmentNo = number ∧ element.tagMatches mb = true ∧
      element.decrypted = fragment

theorem readsKeyFragment_filledKeyPdu (mb : Mbedtls) {state : PayloadEncryption}
    (bits : state.keyId.toNat < 16384) (number : FragmentNo) (pdu : BeaconKeyPduData)
    (xorSeed : UInt8) {data : Memory}
    (holds : Holds data (filledKeyPdu mb state number (fillMarkerInKeyPdu pdu) xorSeed).frame) :
    ReadsKeyFragment mb data state.keyId number (state.splittedPreSharedKey number) := by
  have checks := @checks_of_frame data myMarker _ _ holds rfl (Or.inr rfl)
  exact ⟨checks.1, checks.2, fragmentElement_of_frame mb holds bits rfl rfl rfl⟩

/-! ## Both -/

theorem keyId_replaceKeyIfDue {state next : PayloadEncryption} {draws : RandomDraws}
    (bits : state.keyId.toNat < 16384)
    (call : replaceKeyIfDue (countPacket state) draws = some next) :
    next.keyId.toNat < 16384 := by
  obtain ⟨_, rfl⟩ | ⟨_, rfl⟩ := replaceKeyIfDue_cases call
  · exact bits
  · exact getRandomKeyId_lt draws.keyId

/-- From every state with a 14-bit id, and with every draw: the frames of the PDUs that
`encrypt_payload` and `get_key_fragment_pdu` fill are read back by the receiver, whatever
follows them in the buffer and whatever its structs held before. -/
theorem frame_round_trip (mb : Mbedtls) (state : PayloadEncryption)
    (bits : state.keyId.toNat < 16384) (count : state.keyReplacementPacketCounter ≠ 0)
    (draws : RandomDraws) :
    (∀ payload : List UInt8, payload.length ≤ 22 → ∀ pdu, ∃ next filled,
      encryptPayload mb state payload (fillMarkerInPdu pdu) draws = some (0, next, filled) ∧
      filled.frame.length = getBeaconPduDataLen filled ∧
      ∀ data, Holds data filled.frame →
        ReadsData mb data (getBeaconPduDataLen filled) next.preSharedKey next.keyId
          next.encryptedPacketCounter (payloadNonce next (fillMarkerInPdu pdu) draws.xorSeed)
          payload) ∧
    ∀ pdu, ∃ next filled,
      getKeyFragmentPdu mb state (fillMarkerInKeyPdu pdu) draws = some (next, filled) ∧
      filled.frame.length = getBeaconKeyPduDataLen ∧
      ∀ data, Holds data filled.frame →
        ReadsKeyFragment mb data next.keyId state.keyFragmentNo
          (next.splittedPreSharedKey state.keyFragmentNo) := by
  obtain ⟨next, rotated⟩ := replaceKeyIfDue_isSome (countPacket state) draws count
  have nextBits := keyId_replaceKeyIfDue bits rotated
  constructor
  · intro payload fits pdu
    have accepted : payload.length ≤ maxPduPayloadSize := by
      rw [maxPduPayloadSize_eq]
      omega
    have genuine := genuine_filledPdu mb nextBits accepted (fillMarkerInPdu pdu) draws.xorSeed
    refine ⟨next, filledPdu mb next payload (fillMarkerInPdu pdu) draws.xorSeed, ?_, ?_, ?_⟩
    · simp only [encryptPayload, if_neg (Nat.not_lt.mpr accepted), rotated]
      rfl
    · rw [BeaconPduData.length_frame genuine.room, getBeaconPduDataLen]
      omega
    · exact fun data holds => readsData_filledPdu mb nextBits fits pdu draws.xorSeed holds
  · intro pdu
    have sameNumber : next.keyFragmentNo = state.keyFragmentNo := by
      obtain ⟨_, rfl⟩ | ⟨_, rfl⟩ := replaceKeyIfDue_cases rotated <;> rfl
    refine ⟨(getNextKeyFragment next).2,
      filledKeyPdu mb next next.keyFragmentNo (fillMarkerInKeyPdu pdu) draws.xorSeed, ?_, rfl, ?_⟩
    · simp only [getKeyFragmentPdu, rotated]
      rfl
    · intro data holds
      rw [← sameNumber]
      exact readsKeyFragment_filledKeyPdu mb nextBits next.keyFragmentNo pdu draws.xorSeed holds

/-- The first frame of session 1, whose key repeats the byte 1. -/
theorem frame_round_trip_first_frame :
    ∃ next filled,
      encryptPayload tabulated (initPayloadEncryption ⟨fun _ => 1, 1, 0⟩) [0x74]
        (fillMarkerInPdu .zero) ⟨fun _ => 2, 2, 0x10⟩ = some (0, next, filled) ∧
      ReadsData tabulated (Memory.ofList filled.frame) (getBeaconPduDataLen filled)
        next.preSharedKey next.keyId next.encryptedPacketCounter
        (payloadNonce next (fillMarkerInPdu .zero) 0x10) [0x74] := by
  obtain ⟨next, filled, call, _, reads⟩ :=
    (frame_round_trip tabulated (initPayloadEncryption ⟨fun _ => 1, 1, 0⟩) (by decide)
      (by decide) ⟨fun _ => 2, 2, 0x10⟩).1 [0x74] (by decide) .zero
  exact ⟨next, filled, call, reads _ (holds_ofList _)⟩

end BleBroadcast.EndToEnd
