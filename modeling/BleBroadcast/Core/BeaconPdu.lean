import Mathlib.Data.Rat.Floor
import BleBroadcast.Core.Crypto

/-!
# Beacon PDUs on the wire

Model of `beacon_pdu_data.c` and its headers.  The sender fills packed structs
and puts their bytes on air; the receiver reads the same bytes by overlaying
the struct or by byte offset.  `Memory` is what a `uint8_t *` points to:
reading past the end of a frame reads whatever the memory holds there.

Layout of `beacon_pdu_data`: marker 0-2, command 3, PDU number 4-5, key session
data 6-7, XOR seed 8, payload from 9.  Layout of `beacon_key_pdu_data`: the
same up to 7, encrypted fragment 8-11, XOR seed 12, tag 13-16.  Words are
little endian.
-/

set_option autoImplicit false

namespace BleBroadcast.Core

/-- What a byte pointer points to. -/
abbrev Memory := Nat → UInt8

/-- The memory a byte list lies at, with zeros after it. -/
def Memory.ofList (bytes : List UInt8) : Memory := fun i => bytes.getD i 0

def Memory.bytes (data : Memory) (size : Nat) : List UInt8 := (List.range size).map data

@[simp] theorem Memory.length_bytes (data : Memory) (size : Nat) :
    (data.bytes size).length = size := by
  simp [Memory.bytes]

/-- `esp_bd_addr_t`: six bytes, only ever compared and copied as a whole. -/
abbrev EspBdAddr := BitVec 48

/-! ## Words -/

def lowByte (word : UInt16) : UInt8 := word.toUInt8

def highByte (word : UInt16) : UInt8 := (word >>> 8).toUInt8

/-- The word stored as two bytes, low byte first. -/
def wordOfBytes (low high : UInt8) : UInt16 := UInt16.ofNat (low.toNat + 256 * high.toNat)

@[simp] theorem wordOfBytes_bytes (word : UInt16) :
    wordOfBytes (lowByte word) (highByte word) = word := by
  have bound := word.toNat_lt
  apply UInt16.toNat_inj.mp
  simp only [wordOfBytes, lowByte, highByte, UInt16.toNat_ofNat', UInt16.toNat_toUInt8,
    UInt16.toNat_shiftRight, Nat.shiftRight_eq_div_pow]
  simp only [UInt16.reduceToNat, Nat.reduceMod, Nat.reducePow]
  omega

@[simp] theorem lowByte_wordOfBytes (low high : UInt8) : lowByte (wordOfBytes low high) = low := by
  have lowBound := low.toNat_lt
  have highBound := high.toNat_lt
  apply UInt8.toNat_inj.mp
  simp only [wordOfBytes, lowByte, UInt16.toNat_toUInt8, UInt16.toNat_ofNat']
  omega

@[simp] theorem highByte_wordOfBytes (low high : UInt8) :
    highByte (wordOfBytes low high) = high := by
  have lowBound := low.toNat_lt
  have highBound := high.toNat_lt
  apply UInt8.toNat_inj.mp
  simp only [wordOfBytes, highByte, UInt16.toNat_toUInt8, UInt16.toNat_shiftRight,
    UInt16.toNat_ofNat', Nat.shiftRight_eq_div_pow, UInt16.reduceToNat, Nat.reduceMod]
  omega

theorem bytes_injective {first second : UInt16} (low : lowByte first = lowByte second)
    (high : highByte first = highByte second) : first = second := by
  rw [← wordOfBytes_bytes first, low, high, wordOfBytes_bytes]

/-! ## Constants -/

def myMarker : Bytes 3 := ![0xFF, 0x08, 0x00]

abbrev dataCmd : UInt8 := 1
abbrev keyFragmentCmd : UInt8 := 2

abbrev maxGapDataLen : Nat := 31

/-- `MAX_PDU_PAYLOAD_SIZE`, which is `31 - 2 - 3 - (1 - 2)` in `size_t`.  The last
bracket wraps around, so the macro is 27 although only 22 payload bytes fit
into a frame. -/
def maxPduPayloadSize : Nat := (31 + 2 ^ 32 - 2 - 3 - (2 ^ 32 + 1 - 2) % 2 ^ 32) % 2 ^ 32

theorem maxPduPayloadSize_eq : maxPduPayloadSize = 27 := by decide

abbrev commandOffset : Nat := 3
abbrev pduNoOffset : Nat := 4
abbrev keySessionOffset : Nat := 6

/-- The bytes of `beacon_pdu_data` before the payload. -/
abbrev pduHeaderSize : Nat := 9

/-- `sizeof(beacon_key_pdu_data)`. -/
abbrev keyPduSize : Nat := 17

/-! ## Structures -/

structure BeaconPduData where
  marker : Bytes 3
  cmd : UInt8
  pduNo : UInt16
  keySessionData : UInt16
  xorSeed : UInt8
  payload : List UInt8
  payloadSize : Nat

structure BeaconCryptoData where
  keySessionData : UInt16
  encKeyFragment : KeyFragment
  xorSeed : UInt8
  keyFragmentHmac : Hmac

structure BeaconKeyPduData where
  marker : Bytes 3
  cmd : UInt8
  pduNo : UInt16
  bcd : BeaconCryptoData

/-- `beacon_pdu_data pdu = {0}`. -/
def BeaconPduData.zero : BeaconPduData where
  marker := fun _ => 0
  cmd := 0
  pduNo := 0
  keySessionData := 0
  xorSeed := 0
  payload := List.replicate maxPduPayloadSize 0
  payloadSize := 0

/-- `beacon_key_pdu_data pdu = {0}`. -/
def BeaconKeyPduData.zero : BeaconKeyPduData where
  marker := fun _ => 0
  cmd := 0
  pduNo := 0
  bcd := ⟨0, fun _ => 0, 0, fun _ => 0⟩

/-- The bytes of the packed struct up to the end of the payload array. -/
def BeaconPduData.bytes (pdu : BeaconPduData) : List UInt8 :=
  pdu.marker 0 :: pdu.marker 1 :: pdu.marker 2 :: pdu.cmd ::
    lowByte pdu.pduNo :: highByte pdu.pduNo ::
    lowByte pdu.keySessionData :: highByte pdu.keySessionData :: pdu.xorSeed :: pdu.payload

def BeaconKeyPduData.bytes (pdu : BeaconKeyPduData) : List UInt8 :=
  [pdu.marker 0, pdu.marker 1, pdu.marker 2, pdu.cmd,
    lowByte pdu.pduNo, highByte pdu.pduNo,
    lowByte pdu.bcd.keySessionData, highByte pdu.bcd.keySessionData,
    pdu.bcd.encKeyFragment 0, pdu.bcd.encKeyFragment 1, pdu.bcd.encKeyFragment 2,
    pdu.bcd.encKeyFragment 3, pdu.bcd.xorSeed,
    pdu.bcd.keyFragmentHmac 0, pdu.bcd.keyFragmentHmac 1, pdu.bcd.keyFragmentHmac 2,
    pdu.bcd.keyFragmentHmac 3]

/-- The struct a `beacon_pdu_data *` at this memory shows, `payload_size` apart. -/
def BeaconPduData.overlay (data : Memory) (payloadSize : Nat) : BeaconPduData where
  marker := fun i => data i.val
  cmd := data commandOffset
  pduNo := wordOfBytes (data pduNoOffset) (data (pduNoOffset + 1))
  keySessionData := wordOfBytes (data keySessionOffset) (data (keySessionOffset + 1))
  xorSeed := data 8
  payload := (List.range maxPduPayloadSize).map fun i => data (pduHeaderSize + i)
  payloadSize := payloadSize

/-- The struct a `beacon_key_pdu_data *` at this memory shows. -/
def BeaconKeyPduData.overlay (data : Memory) : BeaconKeyPduData where
  marker := fun i => data i.val
  cmd := data commandOffset
  pduNo := wordOfBytes (data pduNoOffset) (data (pduNoOffset + 1))
  bcd :=
    { keySessionData := wordOfBytes (data keySessionOffset) (data (keySessionOffset + 1))
      encKeyFragment := fun i => data (8 + i.val)
      xorSeed := data 12
      keyFragmentHmac := fun i => data (13 + i.val) }

/-! ## Functions -/

def getBeaconPduDataLen (pdu : BeaconPduData) : Nat := 2 + 2 + 1 + 3 + pdu.payloadSize + 1

def getBeaconKeyPduDataLen : Nat := keyPduSize

/-- `get_payload_size_from_pdu`: `size_t` arithmetic, 32 bits wide on the target. -/
def getPayloadSizeFromPdu (totalPduLen : Nat) : Nat :=
  (totalPduLen + 2 ^ 32 - (2 + 1 + 1 + 2 + 3)) % 2 ^ 32

/-- `get_beacon_pdu_from_adv_data`: copies `size` bytes over the struct, so what
they do not reach keeps the content `pdu` had. -/
def getBeaconPduFromAdvData (pdu : BeaconPduData) (data : Memory) (size : Nat) : BeaconPduData :=
  BeaconPduData.overlay
    (fun i => if i < size then data i else Memory.ofList pdu.bytes i)
    (getPayloadSizeFromPdu size)

/-- `get_command_from_pdu`: 255 stands for no command. -/
def getCommandFromPdu (data : Memory) (size : Nat) : UInt8 :=
  if size < commandOffset then 255
  else if data commandOffset = dataCmd then dataCmd
  else if data commandOffset = keyFragmentCmd then keyFragmentCmd
  else 255

def isPduInBeaconPduFormat (data : Memory) (size : Nat) : Bool :=
  if size < 3 then false else decide (∀ i : Fin 3, data i.val = myMarker i)

def fillMarkerInPdu (pdu : BeaconPduData) : BeaconPduData := { pdu with marker := myMarker }

def fillMarkerInKeyPdu (pdu : BeaconKeyPduData) : BeaconKeyPduData :=
  { pdu with marker := myMarker }

/-- `build_nonce`: marker, key session data and XOR seed, then zeros. -/
def buildNonce (marker : Bytes 3) (keySessionData : UInt16) (xorSeed : UInt8) : Nonce :=
  ![marker 0, marker 1, marker 2, lowByte keySessionData, highByte keySessionData, xorSeed,
    0, 0, 0, 0, 0, 0, 0, 0, 0, 0]

/-- `get_key_id_from_key_session_data`: the low 14 bits. -/
def getKeyIdFromKeySessionData (sessionData : UInt16) : UInt16 := sessionData &&& 0x3FFF

/-- `get_key_fragment_index_from_key_session_data`: the top two bits. -/
def getKeyFragmentIndexFromKeySessionData (sessionData : UInt16) : FragmentNo :=
  Fin.ofNat 4 ((sessionData >>> 14) &&& 0x03).toNat

def produceKeySessionData (keyId : UInt16) (keyFragment : UInt8) : UInt16 :=
  if keyFragment > 3 then 0
  else ((keyFragment &&& 0x03).toUInt16 <<< 14) ||| (keyId &&& 0x3FFF)

/-- `get_adv_interval_from_key_id`, its `double` computation read as exact
arithmetic; `round` is applied to positive values only. -/
def getAdvIntervalFromKeyId (keyId : UInt16) : Nat :=
  let rawInterval : Rat := 3000 + (keyId.toNat : Rat) * ((5000 - 3000) / 0x3FFF)
  let roundedInterval := (⌊rawInterval / 80 + 1 / 2⌋ * 80).toNat
  if roundedInterval < 3000 then 3000
  else if roundedInterval > 5000 then 5000
  else roundedInterval

theorem getAdvIntervalFromKeyId_bounds (keyId : UInt16) :
    3000 ≤ getAdvIntervalFromKeyId keyId ∧ getAdvIntervalFromKeyId keyId ≤ 5000 := by
  simp only [getAdvIntervalFromKeyId]
  split
  · omega
  · split <;> omega

/-! ## Key session data -/

theorem toNat_getKeyId (sessionData : UInt16) :
    (getKeyIdFromKeySessionData sessionData).toNat = sessionData.toNat % 16384 := by
  rw [getKeyIdFromKeySessionData, UInt16.toNat_and]
  exact Nat.and_two_pow_sub_one_eq_mod sessionData.toNat 14

theorem toNat_produceKeySessionData (keyId : UInt16) (fragment : FragmentNo) :
    (produceKeySessionData keyId (UInt8.ofNat fragment.val)).toNat =
      fragment.val * 16384 + keyId.toNat % 16384 := by
  have low : (keyId &&& 0x3FFF).toNat = keyId.toNat % 16384 := toNat_getKeyId keyId
  have bound : keyId.toNat % 16384 < 2 ^ 14 := Nat.mod_lt _ (by decide)
  have high : (((UInt8.ofNat fragment.val) &&& 0x03).toUInt16 <<< 14).toNat =
      fragment.val * 16384 := by
    revert fragment
    decide
  have small : ¬ UInt8.ofNat fragment.val > 3 := by
    revert fragment
    decide
  rw [produceKeySessionData, if_neg small, UInt16.toNat_or, high, low, Nat.mul_comm,
    ← Nat.two_pow_add_eq_or_of_lt bound]

theorem getKeyId_produceKeySessionData (keyId : UInt16) (fragment : FragmentNo) :
    getKeyIdFromKeySessionData (produceKeySessionData keyId (UInt8.ofNat fragment.val)) =
      keyId &&& 0x3FFF := by
  apply UInt16.toNat_inj.mp
  rw [toNat_getKeyId, toNat_produceKeySessionData]
  have low : (keyId &&& 0x3FFF).toNat = keyId.toNat % 16384 := toNat_getKeyId keyId
  omega

theorem getKeyFragmentIndex_produceKeySessionData (keyId : UInt16) (fragment : FragmentNo) :
    getKeyFragmentIndexFromKeySessionData
      (produceKeySessionData keyId (UInt8.ofNat fragment.val)) = fragment := by
  have value := toNat_produceKeySessionData keyId fragment
  have bound : keyId.toNat % 16384 < 16384 := Nat.mod_lt _ (by decide)
  apply Fin.ext
  simp only [getKeyFragmentIndexFromKeySessionData, Fin.val_ofNat, UInt16.toNat_and,
    UInt16.toNat_shiftRight, Nat.shiftRight_eq_div_pow, value]
  have top : (fragment.val * 16384 + keyId.toNat % 16384) / 2 ^ 14 = fragment.val := by omega
  have number := fragment.isLt
  simp only [UInt16.reduceToNat, Nat.reduceMod, top]
  rw [show (3 : Nat) = 2 ^ 2 - 1 from rfl, Nat.and_two_pow_sub_one_eq_mod]
  omega

theorem and_mask_eq_self {keyId : UInt16} (bits : keyId.toNat < 16384) :
    keyId &&& 0x3FFF = keyId := by
  apply UInt16.toNat_inj.mp
  have low : (keyId &&& 0x3FFF).toNat = keyId.toNat % 16384 := toNat_getKeyId keyId
  omega

/-! ## Values of the library functions -/

/-- AES-CTR and HMAC-SHA-256 as tables of their values on the inputs that occur in
the concrete runs of this development. -/
def tabulated : Mbedtls where
  keystream := fun key nonce i =>
    if key = (fun _ => 1) ∧ nonce = buildNonce myMarker 1 0x10 then
      [0xb4, 0x15, 0xd9, 0xd3].getD i 0
    else if key = (fun _ => 1) ∧ nonce = buildNonce myMarker 256 0x10 then
      [0x46, 0xd1, 0x4e, 0x26].getD i 0
    else if key = (fun _ => 0) ∧ nonce = buildNonce myMarker 256 0x10 then
      [0xc0, 0xfa, 0x28, 0xdf].getD i 0
    else 0
  hmacSha256 := fun key message i =>
    if key = [1, 1, 1, 1] ∧ message = [0x11, 0x10, 0x11, 0x10] then
      [0x0f, 0x8e, 0x71, 0x43, 0xc4, 0x74, 0xde, 0x73, 0x84, 0x51, 0x1e, 0x7f, 0x65, 0x7f, 0xe6,
        0x6c, 0x32, 0x4b, 0xaa, 0x00, 0xd4, 0x2b, 0x09, 0x7a, 0x7b, 0x13, 0x88, 0x23, 0x20, 0xe1,
        0xe8, 0xd1].getD i.val 0
    else if key = [2, 2, 2, 2] ∧ message = [0x12, 0x10, 0x12, 0x10] then
      [0x84, 0xc9, 0x7f, 0x1c, 0xff, 0xe1, 0x6b, 0x6c, 0xab, 0x25, 0xbc, 0x4d, 0xc5, 0xbb, 0xb7,
        0x5d, 0xf4, 0xe9, 0x6e, 0x80, 0xe0, 0xde, 0x0c, 0xe0, 0x62, 0xd5, 0x6e, 0xfa, 0xfb, 0xe8,
        0xd9, 0x17].getD i.val 0
    else 0

end BleBroadcast.Core
