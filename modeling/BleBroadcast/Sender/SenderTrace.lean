import BleBroadcast.Sender.PayloadEncryption

/-!
# Runs of the sender

A run is a sequence of `encrypt_payload` and `get_key_fragment_pdu` calls.  Its
trace keeps every PDU produced with status 0 together with the session it was
made in and, for a data PDU, the plaintext and the nonce.
-/

set_option autoImplicit false

namespace BleBroadcast.Sender

open BleBroadcast.Core

/-- One session: which one it is since start, its id and its key. -/
structure Session where
  number : Nat
  keyId : UInt16
  key : Key128b
  deriving DecidableEq

def currentSession (state : PayloadEncryption) : Session :=
  ⟨state.keysReplaced, state.keyId, state.preSharedKey⟩

inductive Emission where
  | data (session : Session) (plaintext : List UInt8) (nonce : Nonce) (pdu : BeaconPduData)
  | keyFragment (session : Session) (number : FragmentNo) (pdu : BeaconKeyPduData)

def Emission.session : Emission → Session
  | .data session _ _ _ => session
  | .keyFragment session _ _ => session

/-- The bytes of the PDU that go on air. -/
def Emission.frame : Emission → List UInt8
  | .data _ _ _ pdu => pdu.frame
  | .keyFragment _ _ pdu => pdu.frame

/-- A call, with the struct its caller passes and the values drawn during it. -/
inductive SenderCall where
  | encryptPayload (payload : List UInt8) (pdu : BeaconPduData) (draws : RandomDraws)
  | getKeyFragmentPdu (pdu : BeaconKeyPduData) (draws : RandomDraws)

structure SenderTrace where
  state : PayloadEncryption
  emitted : List Emission

def SenderTrace.start (state : PayloadEncryption) : SenderTrace := ⟨state, []⟩

/-- The nonce `encrypt_payload` passes to AES, in the state after a possible rotation. -/
def payloadNonce (state : PayloadEncryption) (pdu : BeaconPduData) (xorSeed : UInt8) : Nonce :=
  buildNonce pdu.marker (produceKeySessionData state.keyId 0) xorSeed

def senderStep (mb : Mbedtls) (trace : SenderTrace) : SenderCall → Option SenderTrace
  | .encryptPayload payload pdu draws => do
      let (status, state, filled) ← encryptPayload mb trace.state payload pdu draws
      let produced : List Emission :=
        if status = 0 then
          [.data (currentSession state) payload (payloadNonce state pdu draws.xorSeed) filled]
        else []
      some ⟨state, trace.emitted ++ produced⟩
  | .getKeyFragmentPdu pdu draws => do
      let (state, filled) ← getKeyFragmentPdu mb trace.state pdu draws
      let number := getKeyFragmentIndexFromKeySessionData filled.bcd.keySessionData
      some ⟨state, trace.emitted ++ [.keyFragment (currentSession state) number filled]⟩

theorem senderStep_encryptPayload (mb : Mbedtls) {trace : SenderTrace}
    {current : PayloadEncryption} {payload : List UInt8} {draws : RandomDraws}
    (accepted : payload.length ≤ maxPduPayloadSize) (pdu : BeaconPduData)
    (rotated : replaceKeyIfDue (countPacket trace.state) draws = some current) :
    senderStep mb trace (.encryptPayload payload pdu draws) =
      some ⟨current, trace.emitted ++ [.data (currentSession current) payload
        (payloadNonce current pdu draws.xorSeed)
        (filledPdu mb current payload pdu draws.xorSeed)]⟩ := by
  simp only [senderStep, encryptPayload, if_neg (Nat.not_lt.mpr accepted), rotated]
  rfl

theorem senderStep_getKeyFragmentPdu (mb : Mbedtls) {trace : SenderTrace}
    {current : PayloadEncryption} {draws : RandomDraws} (pdu : BeaconKeyPduData)
    (rotated : replaceKeyIfDue (countPacket trace.state) draws = some current) :
    senderStep mb trace (.getKeyFragmentPdu pdu draws) =
      some ⟨(getNextKeyFragment current).2, trace.emitted ++
        [.keyFragment (currentSession current) current.keyFragmentNo
          (filledKeyPdu mb current current.keyFragmentNo pdu draws.xorSeed)]⟩ := by
  have number : getKeyFragmentIndexFromKeySessionData
      (filledKeyPdu mb current current.keyFragmentNo pdu draws.xorSeed).bcd.keySessionData =
        current.keyFragmentNo :=
    getKeyFragmentIndex_produceKeySessionData current.keyId current.keyFragmentNo
  have filled : getKeyFragmentPdu mb trace.state pdu draws =
      some ((getNextKeyFragment current).2,
        filledKeyPdu mb current current.keyFragmentNo pdu draws.xorSeed) := by
    simp only [getKeyFragmentPdu, rotated]
    rfl
  simp only [senderStep, filled, Option.bind_eq_bind, Option.bind_some, number]
  rfl

def senderRun (mb : Mbedtls) : SenderTrace → List SenderCall → Option SenderTrace
  | trace, [] => some trace
  | trace, call :: rest => do
      let next ← senderStep mb trace call
      senderRun mb next rest

/-- What is true of every PDU the sender produces. -/
def Emission.Genuine (mb : Mbedtls) : Emission → Prop
  | .data session plaintext nonce pdu =>
      session.keyId.toNat < 16384 ∧ plaintext.length ≤ maxPduPayloadSize ∧
      pdu.cmd = dataCmd ∧ pdu.keySessionData = session.keyId ∧
      nonce = buildNonce pdu.marker pdu.keySessionData pdu.xorSeed ∧
      pdu.payloadSize = plaintext.length ∧
      ∃ rest, pdu.payload =
        aesCtrEncryptPayload mb plaintext plaintext.length session.key nonce ++ rest
  | .keyFragment session number pdu =>
      session.keyId.toNat < 16384 ∧ pdu.cmd = keyFragmentCmd ∧
      pdu.bcd.keySessionData = produceKeySessionData session.keyId (UInt8.ofNat number.val) ∧
      pdu.bcd.encKeyFragment =
        xorEncryptKeyFragment (split128bKeyToFragment session.key number) pdu.bcd.xorSeed ∧
      pdu.bcd.keyFragmentHmac =
        calculateHmacOfFragment mb (split128bKeyToFragment session.key number)
          pdu.bcd.encKeyFragment

theorem Emission.Genuine.room {mb : Mbedtls} {session : Session} {plaintext : List UInt8}
    {nonce : Nonce} {pdu : BeaconPduData}
    (genuine : (Emission.data session plaintext nonce pdu).Genuine mb) :
    pdu.payloadSize ≤ pdu.payload.length := by
  obtain ⟨_, _, _, _, _, size, rest, payload⟩ := genuine
  rw [size, payload, List.length_append, length_aesCtrEncryptPayload]
  omega

theorem produceKeySessionData_zero {keyId : UInt16} (bits : keyId.toNat < 16384) :
    produceKeySessionData keyId 0 = keyId := by
  apply UInt16.toNat_inj.mp
  have value := toNat_produceKeySessionData keyId 0
  simp only [Fin.val_zero] at value
  rw [show (0 : UInt8) = UInt8.ofNat 0 from rfl, value]
  omega

theorem genuine_filledPdu (mb : Mbedtls) {state : PayloadEncryption}
    (bits : state.keyId.toNat < 16384) {payload : List UInt8}
    (accepted : payload.length ≤ maxPduPayloadSize) (pdu : BeaconPduData) (xorSeed : UInt8) :
    (Emission.data (currentSession state) payload (payloadNonce state pdu xorSeed)
      (filledPdu mb state payload pdu xorSeed)).Genuine mb :=
  ⟨bits, accepted, rfl, produceKeySessionData_zero bits, rfl, rfl,
    pdu.payload.drop payload.length, rfl⟩

theorem genuine_filledKeyPdu (mb : Mbedtls) {state : PayloadEncryption}
    (coherent : Coherent state) (number : FragmentNo) (pdu : BeaconKeyPduData)
    (xorSeed : UInt8) :
    (Emission.keyFragment (currentSession state) number
      (filledKeyPdu mb state number pdu xorSeed)).Genuine mb := by
  refine ⟨coherent.keyId, rfl, rfl, ?_, ?_⟩
  · simp only [filledKeyPdu, coherent.splitted, currentSession]
  · simp only [filledKeyPdu, coherent.splitted, currentSession]

theorem senderStep_produces {mb : Mbedtls} {trace next : SenderTrace} {call : SenderCall}
    (coherent : Coherent trace.state) (step : senderStep mb trace call = some next) :
    Coherent next.state ∧ ∃ produced, next.emitted = trace.emitted ++ produced ∧
      ∀ emission ∈ produced, emission.Genuine mb ∧
        emission.session = currentSession next.state := by
  cases call with
  | encryptPayload payload pdu draws =>
      obtain ⟨⟨status, state, filled⟩, call, result⟩ := Option.bind_eq_some_iff.mp step
      obtain rfl := (Option.some.inj result).symm
      obtain ⟨_, rfl, rfl, rfl⟩ | ⟨accepted, rfl, rotated, rfl⟩ := encryptPayload_cases call
      · exact ⟨coherent.countPacket, [], by simp, by simp⟩
      · have after : Coherent state := coherent.countPacket.replaceKeyIfDue rotated
        refine ⟨after, _, rfl, ?_⟩
        intro emission member
        obtain rfl := List.mem_singleton.mp member
        exact ⟨genuine_filledPdu mb after.keyId accepted pdu draws.xorSeed, rfl⟩
  | getKeyFragmentPdu pdu draws =>
      obtain ⟨⟨state, filled⟩, call, result⟩ := Option.bind_eq_some_iff.mp step
      obtain rfl := (Option.some.inj result).symm
      obtain ⟨current, rotated, rfl, rfl⟩ := getKeyFragmentPdu_cases call
      have after : Coherent current := coherent.countPacket.replaceKeyIfDue rotated
      refine ⟨after.getNextKeyFragment, _, rfl, ?_⟩
      intro emission member
      obtain rfl := List.mem_singleton.mp member
      refine ⟨?_, rfl⟩
      have number : getKeyFragmentIndexFromKeySessionData
          (filledKeyPdu mb current current.keyFragmentNo pdu draws.xorSeed).bcd.keySessionData =
            current.keyFragmentNo :=
        getKeyFragmentIndex_produceKeySessionData current.keyId current.keyFragmentNo
      rw [number]
      exact genuine_filledKeyPdu mb after current.keyFragmentNo pdu draws.xorSeed

theorem senderRun_preserves {mb : Mbedtls} {P : SenderTrace → Prop} {calls : List SenderCall}
    (keep : ∀ trace, ∀ call ∈ calls, ∀ next, P trace →
      senderStep mb trace call = some next → P next)
    {trace final : SenderTrace} (initial : P trace) (run : senderRun mb trace calls = some final) :
    P final := by
  induction calls generalizing trace with
  | nil =>
      obtain rfl := Option.some.inj run
      exact initial
  | cons call rest ih =>
      obtain ⟨next, step, rest⟩ := Option.bind_eq_some_iff.mp run
      exact ih (fun trace other member => keep trace other (List.mem_cons_of_mem _ member))
        (keep trace call List.mem_cons_self next initial step) rest

/-- A property of traces that every call from a coherent state keeps holds at the
end of a run. -/
theorem senderRun_invariant {mb : Mbedtls} {P : SenderTrace → Prop}
    (keep : ∀ trace call next, Coherent trace.state → P trace →
      senderStep mb trace call = some next → P next)
    {trace final : SenderTrace} {calls : List SenderCall} (coherent : Coherent trace.state)
    (initial : P trace) (run : senderRun mb trace calls = some final) :
    Coherent final.state ∧ P final := by
  refine senderRun_preserves (P := fun trace => Coherent trace.state ∧ P trace) ?_
    ⟨coherent, initial⟩ run
  rintro trace call _ next ⟨coherentTrace, holds⟩ step
  exact ⟨(senderStep_produces coherentTrace step).1, keep trace call next coherentTrace holds step⟩

theorem senderRun_genuine {mb : Mbedtls} {state : PayloadEncryption} {final : SenderTrace}
    {calls : List SenderCall} (coherent : Coherent state)
    (run : senderRun mb (.start state) calls = some final) :
    ∀ emission ∈ final.emitted, emission.Genuine mb := by
  refine (senderRun_invariant (P := fun trace => ∀ emission ∈ trace.emitted, emission.Genuine mb)
    ?_ coherent (by simp [SenderTrace.start]) run).2
  intro trace call next coherent genuine step emission member
  obtain ⟨_, produced, emitted, fresh⟩ := senderStep_produces coherent step
  rw [emitted] at member
  rcases List.mem_append.mp member with old | new
  · exact genuine emission old
  · exact (fresh emission new).1

end BleBroadcast.Sender
