import BleBroadcast.Core.WireFormat

/-!
# The sender: encryption and key rotation

Model of `ble_security_payload_encryption.c`.  The values the hardware random
generator returns during a call are an argument of the call.  A call returns
`none` where the C code divides by zero, which it does when the rotation count
is 0.
-/

set_option autoImplicit false

namespace BleBroadcast.Sender

open BleBroadcast.Core

/-- What the random generator returns during one call: the key of
`generate_128b_key`, the word of `get_random_key_id` and the byte of
`get_random_seed`. -/
structure RandomDraws where
  key : Key128b
  keyId : UInt32
  xorSeed : UInt8

/-- The static variables of the module.  `encryptedPacketCounter` is 64 bits wide. -/
structure PayloadEncryption where
  preSharedKey : Key128b
  splittedPreSharedKey : KeySplitted
  nextPreSharedKey : Key128b
  nextSplittedPreSharedKey : KeySplitted
  keyId : UInt16
  keyFragmentNo : FragmentNo
  keyReplacementPacketCounter : UInt32
  encryptedPacketCounter : Nat
  /-- Ghost: how many keys were installed before the current one. -/
  keysReplaced : Nat

def getRandomKeyId (espRandom : UInt32) : UInt16 := (espRandom &&& 0x3FFF).toUInt16

/-- `init_payload_encryption` on zero-initialised statics, with
`TEST_NO_PACKETS_TO_KEY_REPLACE` packets to a key. -/
def initPayloadEncryption (draws : RandomDraws) : PayloadEncryption where
  preSharedKey := draws.key
  splittedPreSharedKey := split128bKeyToFragment draws.key
  nextPreSharedKey := fun _ => 0
  nextSplittedPreSharedKey := fun _ _ => 0
  keyId := getRandomKeyId draws.keyId
  keyFragmentNo := 0
  keyReplacementPacketCounter := 200
  encryptedPacketCounter := 0
  keysReplaced := 0

def setKeyReplacementPduCount (state : PayloadEncryption) (count : UInt32) : PayloadEncryption :=
  { state with keyReplacementPacketCounter := count }

def keyReplacementCb (state : PayloadEncryption) (key : Key128b) : PayloadEncryption :=
  let nextSplitted := split128bKeyToFragment key
  { state with
    nextPreSharedKey := key
    nextSplittedPreSharedKey := nextSplitted
    preSharedKey := key
    splittedPreSharedKey := nextSplitted
    keysReplaced := state.keysReplaced + 1 }

def countPacket (state : PayloadEncryption) : PayloadEncryption :=
  { state with encryptedPacketCounter := (state.encryptedPacketCounter + 1) % 2 ^ 64 }

/-- The test that decides whether the counted packet starts a new session. -/
def replacementDue (state : PayloadEncryption) : Bool :=
  state.encryptedPacketCounter % state.keyReplacementPacketCounter.toNat == 0

/-- The rotation block that `encrypt_payload` and `get_key_fragment_pdu` share. -/
def replaceKeyIfDue (state : PayloadEncryption) (draws : RandomDraws) :
    Option PayloadEncryption :=
  if state.keyReplacementPacketCounter = 0 then none
  else if replacementDue state then
    some { keyReplacementCb state draws.key with
      keyId := getRandomKeyId draws.keyId
      encryptedPacketCounter := 0 }
  else some state

/-- The number after `number`, back to 0 after 3. -/
def followingFragmentNo (number : FragmentNo) : FragmentNo :=
  if wrap : number.val + 1 > 3 then 0 else ⟨number.val + 1, by omega⟩

/-- `get_next_key_fragment`: the current number, and the state with the next one. -/
def getNextKeyFragment (state : PayloadEncryption) : FragmentNo × PayloadEncryption :=
  (state.keyFragmentNo, { state with keyFragmentNo := followingFragmentNo state.keyFragmentNo })

/-- The fields `encrypt_payload` fills, in the state after a possible rotation. -/
def filledPdu (mb : Mbedtls) (state : PayloadEncryption) (payload : List UInt8)
    (pdu : BeaconPduData) (xorSeed : UInt8) : BeaconPduData :=
  let keySessionData := produceKeySessionData state.keyId 0
  let nonce := buildNonce pdu.marker keySessionData xorSeed
  let encrypted := aesCtrEncryptPayload mb payload payload.length state.preSharedKey nonce
  { marker := pdu.marker
    cmd := dataCmd
    pduNo := UInt16.ofNat state.encryptedPacketCounter
    keySessionData := keySessionData
    xorSeed := xorSeed
    payload := encrypted ++ pdu.payload.drop payload.length
    payloadSize := payload.length }

/-- `encrypt_payload`: status, state and the PDU behind the pointer. -/
def encryptPayload (mb : Mbedtls) (state : PayloadEncryption) (payload : List UInt8)
    (pdu : BeaconPduData) (draws : RandomDraws) :
    Option (Nat × PayloadEncryption × BeaconPduData) :=
  let counted := countPacket state
  if payload.length > maxPduPayloadSize then some (1, counted, pdu)
  else do
    let current ← replaceKeyIfDue counted draws
    some (0, current, filledPdu mb current payload pdu draws.xorSeed)

/-- The fields `get_key_fragment_pdu` fills. -/
def filledKeyPdu (mb : Mbedtls) (state : PayloadEncryption) (number : FragmentNo)
    (pdu : BeaconKeyPduData) (xorSeed : UInt8) : BeaconKeyPduData :=
  let fragment := state.splittedPreSharedKey number
  let encrypted := xorEncryptKeyFragment fragment xorSeed
  { marker := pdu.marker
    cmd := keyFragmentCmd
    pduNo := UInt16.ofNat state.encryptedPacketCounter
    bcd :=
      { keySessionData := produceKeySessionData state.keyId (UInt8.ofNat number.val)
        encKeyFragment := encrypted
        xorSeed := xorSeed
        keyFragmentHmac := calculateHmacOfFragment mb fragment encrypted } }

/-- `get_key_fragment_pdu`, whose status is always 0. -/
def getKeyFragmentPdu (mb : Mbedtls) (state : PayloadEncryption) (pdu : BeaconKeyPduData)
    (draws : RandomDraws) : Option (PayloadEncryption × BeaconKeyPduData) := do
  let current ← replaceKeyIfDue (countPacket state) draws
  let (number, next) := getNextKeyFragment current
  some (next, filledKeyPdu mb current number pdu draws.xorSeed)

/-! ## What a call does -/

theorem replaceKeyIfDue_cases {state next : PayloadEncryption} {draws : RandomDraws}
    (call : replaceKeyIfDue state draws = some next) :
    (replacementDue state = false ∧ next = state) ∨
    (replacementDue state = true ∧
      next = { keyReplacementCb state draws.key with
        keyId := getRandomKeyId draws.keyId
        encryptedPacketCounter := 0 }) := by
  unfold replaceKeyIfDue at call
  split at call
  · contradiction
  · split at call
    · rename_i due
      exact Or.inr ⟨due, (Option.some.inj call).symm⟩
    · rename_i notDue
      exact Or.inl ⟨by simpa using notDue, (Option.some.inj call).symm⟩

theorem replaceKeyIfDue_isSome (state : PayloadEncryption) (draws : RandomDraws)
    (count : state.keyReplacementPacketCounter ≠ 0) :
    ∃ next, replaceKeyIfDue state draws = some next := by
  simp only [replaceKeyIfDue, if_neg count]
  split <;> exact ⟨_, rfl⟩

theorem encryptPayload_cases {mb : Mbedtls} {state next : PayloadEncryption}
    {payload : List UInt8} {pdu filled : BeaconPduData} {draws : RandomDraws} {status : Nat}
    (call : encryptPayload mb state payload pdu draws = some (status, next, filled)) :
    (maxPduPayloadSize < payload.length ∧ status = 1 ∧ next = countPacket state ∧ filled = pdu) ∨
    (payload.length ≤ maxPduPayloadSize ∧ status = 0 ∧
      replaceKeyIfDue (countPacket state) draws = some next ∧
      filled = filledPdu mb next payload pdu draws.xorSeed) := by
  unfold encryptPayload at call
  split at call
  · rename_i tooLong
    simp only [Option.some.injEq, Prod.mk.injEq] at call
    exact Or.inl ⟨tooLong, call.1.symm, call.2.1.symm, call.2.2.symm⟩
  · rename_i accepted
    obtain ⟨current, rotated, result⟩ := Option.bind_eq_some_iff.mp call
    simp only [Option.some.injEq, Prod.mk.injEq] at result
    obtain ⟨rfl, rfl, rfl⟩ := result
    exact Or.inr ⟨by omega, rfl, rotated, rfl⟩

theorem getKeyFragmentPdu_cases {mb : Mbedtls} {state next : PayloadEncryption}
    {pdu filled : BeaconKeyPduData} {draws : RandomDraws}
    (call : getKeyFragmentPdu mb state pdu draws = some (next, filled)) :
    ∃ current, replaceKeyIfDue (countPacket state) draws = some current ∧
      next = (getNextKeyFragment current).2 ∧
      filled = filledKeyPdu mb current current.keyFragmentNo pdu draws.xorSeed := by
  obtain ⟨current, rotated, result⟩ := Option.bind_eq_some_iff.mp call
  simp only [getNextKeyFragment, Option.some.injEq, Prod.mk.injEq] at result
  exact ⟨current, rotated, result.1.symm, result.2.symm⟩

theorem followingFragmentNo_eq (number : FragmentNo) :
    followingFragmentNo number = number + 1 := by
  revert number
  decide

/-! ## Coherence of key, fragments and id -/

structure Coherent (state : PayloadEncryption) : Prop where
  splitted : state.splittedPreSharedKey = split128bKeyToFragment state.preSharedKey
  keyId : state.keyId.toNat < 16384

theorem getRandomKeyId_lt (espRandom : UInt32) : (getRandomKeyId espRandom).toNat < 16384 := by
  have masked : (espRandom &&& 0x3FFF).toNat = espRandom.toNat % 16384 := by
    rw [UInt32.toNat_and]
    exact Nat.and_two_pow_sub_one_eq_mod espRandom.toNat 14
  simp only [getRandomKeyId, UInt32.toNat_toUInt16, masked]
  omega

theorem coherent_init (draws : RandomDraws) : Coherent (initPayloadEncryption draws) :=
  ⟨rfl, getRandomKeyId_lt draws.keyId⟩

theorem Coherent.setCount {state : PayloadEncryption} (coherent : Coherent state)
    (count : UInt32) : Coherent (setKeyReplacementPduCount state count) :=
  ⟨coherent.splitted, coherent.keyId⟩

theorem Coherent.countPacket {state : PayloadEncryption} (coherent : Coherent state) :
    Coherent (countPacket state) :=
  ⟨coherent.splitted, coherent.keyId⟩

theorem Coherent.replaceKeyIfDue {state next : PayloadEncryption} {draws : RandomDraws}
    (coherent : Coherent state) (call : replaceKeyIfDue state draws = some next) :
    Coherent next := by
  obtain ⟨_, rfl⟩ | ⟨_, rfl⟩ := replaceKeyIfDue_cases call
  · exact coherent
  · exact ⟨rfl, getRandomKeyId_lt draws.keyId⟩

theorem Coherent.getNextKeyFragment {state : PayloadEncryption} (coherent : Coherent state) :
    Coherent (getNextKeyFragment state).2 :=
  ⟨coherent.splitted, coherent.keyId⟩

end BleBroadcast.Sender
