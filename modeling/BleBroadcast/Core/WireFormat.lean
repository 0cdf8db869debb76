import BleBroadcast.Core.BeaconPdu

/-!
# Encoding and decoding of frames

The sender hands the radio the first bytes of a packed struct, its frame.  The
receiver copies the frame over a struct of its own.  What the receiver's struct
shows of the frame is the frame again, whatever the struct held before, as long
as the frame has a whole header and fits.
-/

set_option autoImplicit false

namespace BleBroadcast.Core

/-- What goes on air for a data PDU: `get_beacon_pdu_data_len` bytes of the struct. -/
def BeaconPduData.frame (pdu : BeaconPduData) : List UInt8 :=
  pdu.bytes.take (getBeaconPduDataLen pdu)

/-- What goes on air for a key fragment PDU. -/
def BeaconKeyPduData.frame (pdu : BeaconKeyPduData) : List UInt8 :=
  pdu.bytes.take getBeaconKeyPduDataLen

theorem BeaconPduData.frame_eq (pdu : BeaconPduData) :
    pdu.frame =
      pdu.marker 0 :: pdu.marker 1 :: pdu.marker 2 :: pdu.cmd ::
        lowByte pdu.pduNo :: highByte pdu.pduNo ::
        lowByte pdu.keySessionData :: highByte pdu.keySessionData :: pdu.xorSeed ::
        pdu.payload.take pdu.payloadSize := by
  have length : getBeaconPduDataLen pdu = pdu.payloadSize + 9 := by
    rw [getBeaconPduDataLen]
    omega
  simp [BeaconPduData.frame, BeaconPduData.bytes, length]

theorem BeaconPduData.length_frame {pdu : BeaconPduData}
    (room : pdu.payloadSize ≤ pdu.payload.length) :
    pdu.frame.length = pdu.payloadSize + 9 := by
  simp [BeaconPduData.frame_eq, room]

theorem BeaconKeyPduData.frame_eq (pdu : BeaconKeyPduData) : pdu.frame = pdu.bytes := rfl

@[simp] theorem BeaconKeyPduData.length_frame (pdu : BeaconKeyPduData) :
    pdu.frame.length = keyPduSize := rfl

theorem BeaconPduData.frame_inj {first second : BeaconPduData}
    (firstRoom : first.payloadSize ≤ first.payload.length)
    (secondRoom : second.payloadSize ≤ second.payload.length)
    (same : first.frame = second.frame) :
    first.marker = second.marker ∧ first.cmd = second.cmd ∧ first.pduNo = second.pduNo ∧
      first.keySessionData = second.keySessionData ∧ first.xorSeed = second.xorSeed ∧
      first.payloadSize = second.payloadSize ∧
      first.payload.take first.payloadSize = second.payload.take second.payloadSize := by
  have lengths := congrArg List.length same
  rw [length_frame firstRoom, length_frame secondRoom] at lengths
  simp only [frame_eq, List.cons.injEq] at same
  obtain ⟨m0, m1, m2, cmd, noLow, noHigh, sessionLow, sessionHigh, seed, payload⟩ := same
  refine ⟨?_, cmd, bytes_injective noLow noHigh, bytes_injective sessionLow sessionHigh, seed,
    by omega, payload⟩
  funext i
  match i with
  | 0 => exact m0
  | 1 => exact m1
  | 2 => exact m2

theorem frame_getBeaconPduFromAdvData (stack : BeaconPduData) (data : Memory) (size : Nat)
    (header : 9 ≤ size) (fits : size ≤ 36) :
    (getBeaconPduFromAdvData stack data size).frame = data.bytes size := by
  obtain ⟨rest, rfl⟩ := Nat.exists_eq_add_of_le header
  have inside : rest ≤ maxPduPayloadSize := by
    rw [maxPduPayloadSize_eq]
    omega
  have payloadSize : getPayloadSizeFromPdu (9 + rest) = rest := by
    rw [maxPduPayloadSize_eq] at inside
    rw [getPayloadSizeFromPdu]
    omega
  have headerByte : ∀ i < 9, (if i < 9 + rest then data i else Memory.ofList stack.bytes i) =
      data i := fun i below => if_pos (by omega)
  rw [BeaconPduData.frame_eq]
  simp only [getBeaconPduFromAdvData, BeaconPduData.overlay, payloadSize, lowByte_wordOfBytes,
    highByte_wordOfBytes, Fin.val_zero, Fin.val_one, Fin.val_two]
  simp only [headerByte 0 (by omega), headerByte 1 (by omega), headerByte 2 (by omega),
    headerByte 3 (by omega), headerByte 4 (by omega), headerByte 5 (by omega),
    headerByte 6 (by omega), headerByte 7 (by omega), headerByte 8 (by omega)]
  rw [← List.map_take, List.take_range, Nat.min_eq_left inside, Memory.bytes, List.range_add,
    List.map_append]
  have payload : (List.range rest).map
        (fun i => if 9 + i < 9 + rest then data (9 + i) else Memory.ofList stack.bytes (9 + i)) =
      (List.range rest).map (fun i => data (9 + i)) := by
    apply List.map_congr_left
    intro i member
    have below := List.mem_range.mp member
    exact if_pos (by omega)
  rw [payload, List.map_map]
  rfl

theorem payloadSize_getBeaconPduFromAdvData (stack : BeaconPduData) (data : Memory) (size : Nat) :
    (getBeaconPduFromAdvData stack data size).payloadSize = getPayloadSizeFromPdu size := rfl

theorem room_getBeaconPduFromAdvData (stack : BeaconPduData) (data : Memory) (size : Nat)
    (header : 9 ≤ size) (fits : size ≤ 36) :
    (getBeaconPduFromAdvData stack data size).payloadSize ≤
      (getBeaconPduFromAdvData stack data size).payload.length := by
  simp only [getBeaconPduFromAdvData, BeaconPduData.overlay, getPayloadSizeFromPdu,
    List.length_map, List.length_range, maxPduPayloadSize_eq]
  omega

theorem BeaconKeyPduData.overlay_bytes (pdu : BeaconKeyPduData) :
    BeaconKeyPduData.overlay (Memory.ofList pdu.bytes) = pdu := by
  obtain ⟨marker, cmd, pduNo, session, fragment, seed, hmac⟩ := pdu
  have markers : (fun i : Fin 3 => Memory.ofList
      (BeaconKeyPduData.bytes ⟨marker, cmd, pduNo, session, fragment, seed, hmac⟩) i.val) =
        marker := by
    funext i
    match i with
    | 0 => rfl
    | 1 => rfl
    | 2 => rfl
  have fragments : (fun i : Fin 4 => Memory.ofList
      (BeaconKeyPduData.bytes ⟨marker, cmd, pduNo, session, fragment, seed, hmac⟩) (8 + i.val)) =
        fragment := by
    funext i
    match i with
    | 0 => rfl
    | 1 => rfl
    | 2 => rfl
    | 3 => rfl
  have tags : (fun i : Fin 4 => Memory.ofList
      (BeaconKeyPduData.bytes ⟨marker, cmd, pduNo, session, fragment, seed, hmac⟩) (13 + i.val)) =
        hmac := by
    funext i
    match i with
    | 0 => rfl
    | 1 => rfl
    | 2 => rfl
    | 3 => rfl
  have number : wordOfBytes (lowByte pduNo) (highByte pduNo) = pduNo := wordOfBytes_bytes pduNo
  have sessionData : wordOfBytes (lowByte session) (highByte session) = session :=
    wordOfBytes_bytes session
  simp only [BeaconKeyPduData.overlay, markers, fragments, tags]
  simp only [Memory.ofList, BeaconKeyPduData.bytes, List.getD_cons_succ, List.getD_cons_zero,
    number, sessionData]

/-! ## The nonce -/

theorem buildNonce_inj {marker otherMarker : Bytes 3} {session otherSession : UInt16}
    {seed otherSeed : UInt8}
    (same : buildNonce marker session seed = buildNonce otherMarker otherSession otherSeed) :
    marker = otherMarker ∧ session = otherSession ∧ seed = otherSeed := by
  refine ⟨?_, bytes_injective (congrFun same 3) (congrFun same 4), congrFun same 5⟩
  funext i
  match i with
  | 0 => exact congrFun same 0
  | 1 => exact congrFun same 1
  | 2 => exact congrFun same 2

end BleBroadcast.Core
