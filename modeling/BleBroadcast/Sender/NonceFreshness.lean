import Mathlib.Data.List.Nodup
import Mathlib.Data.List.Perm.Subperm
import BleBroadcast.Sender.SenderTrace

/-!
# When the CTR nonces of a session differ

`build_nonce` takes the marker, the key session data and the XOR seed.  Inside a
session only the seed varies, and it is one random byte.
-/

set_option autoImplicit false

namespace BleBroadcast.Sender

open BleBroadcast.Core

def Emission.keyAndNonce : Emission → Option (Key128b × Nonce)
  | .data session _ nonce _ => some (session.key, nonce)
  | .keyFragment _ _ _ => none

/-- No two data PDUs were encrypted with the same key and the same nonce. -/
def NoncesFresh (emitted : List Emission) : Prop :=
  (emitted.filterMap Emission.keyAndNonce).Nodup

/-- What a data PDU was made from: its session, the marker the caller had filled in, and
the byte of `get_random_seed`. -/
structure DataDraw where
  session : Session
  marker : Bytes 3
  xorSeed : UInt8

def drawnBy (next : SenderTrace) : SenderCall → List DataDraw
  | .encryptPayload payload pdu draws =>
      if payload.length ≤ maxPduPayloadSize then
        [⟨currentSession next.state, pdu.marker, draws.xorSeed⟩]
      else []
  | .getKeyFragmentPdu _ _ => []

def dataDraws (mb : Mbedtls) : SenderTrace → List SenderCall → List DataDraw
  | _, [] => []
  | trace, call :: rest =>
      match senderStep mb trace call with
      | some next => drawnBy next call ++ dataDraws mb next rest
      | none => []

/-- No seed is drawn twice for data PDUs of the same key, id and marker. -/
def SeedsDiffer (draws : List DataDraw) : Prop :=
  draws.Pairwise fun first second =>
    ¬ (first.session.key = second.session.key ∧ first.session.keyId = second.session.keyId ∧
      first.marker = second.marker ∧ first.xorSeed = second.xorSeed)

instance seedsDifferDecidable (draws : List DataDraw) : Decidable (SeedsDiffer draws) :=
  inferInstanceAs (Decidable (List.Pairwise _ _))

/-! ## The nonces of a run -/

def DataDraw.keyAndNonce (draw : DataDraw) : Key128b × Nonce :=
  (draw.session.key, buildNonce draw.marker draw.session.keyId draw.xorSeed)

theorem senderStep_keyAndNonce {mb : Mbedtls} {trace next : SenderTrace} {call : SenderCall}
    (coherent : Coherent trace.state) (step : senderStep mb trace call = some next) :
    next.emitted.filterMap Emission.keyAndNonce =
      trace.emitted.filterMap Emission.keyAndNonce ++
        (drawnBy next call).map DataDraw.keyAndNonce := by
  cases call with
  | encryptPayload payload pdu draws =>
      obtain ⟨⟨status, state, filled⟩, call, result⟩ := Option.bind_eq_some_iff.mp step
      obtain rfl := (Option.some.inj result).symm
      obtain ⟨tooLong, rfl, rfl, rfl⟩ | ⟨accepted, rfl, rotated, rfl⟩ := encryptPayload_cases call
      · simp [drawnBy, Nat.not_le.mpr tooLong]
      · have bits := (coherent.countPacket.replaceKeyIfDue rotated).keyId
        simp [drawnBy, accepted, Emission.keyAndNonce, DataDraw.keyAndNonce,
          payloadNonce, produceKeySessionData_zero bits, currentSession]
  | getKeyFragmentPdu pdu draws =>
      obtain ⟨⟨state, filled⟩, _, result⟩ := Option.bind_eq_some_iff.mp step
      obtain rfl := (Option.some.inj result).symm
      simp [drawnBy, List.filterMap_cons, Emission.keyAndNonce]

theorem senderRun_keyAndNonce {mb : Mbedtls} {final : SenderTrace} {calls : List SenderCall} :
    ∀ {trace : SenderTrace}, Coherent trace.state → senderRun mb trace calls = some final →
      final.emitted.filterMap Emission.keyAndNonce =
        trace.emitted.filterMap Emission.keyAndNonce ++
          (dataDraws mb trace calls).map DataDraw.keyAndNonce := by
  induction calls with
  | nil =>
      intro trace _ run
      obtain rfl := Option.some.inj run
      simp [dataDraws]
  | cons call rest ih =>
      intro trace coherent run
      obtain ⟨next, step, run⟩ := Option.bind_eq_some_iff.mp run
      rw [ih (senderStep_produces coherent step).1 run, senderStep_keyAndNonce coherent step]
      simp [dataDraws, step]

theorem replaceKeyIfDue_count {state next : PayloadEncryption} {draws : RandomDraws}
    (call : replaceKeyIfDue state draws = some next) :
    next.keyReplacementPacketCounter = state.keyReplacementPacketCounter := by
  obtain ⟨_, rfl⟩ | ⟨_, rfl⟩ := replaceKeyIfDue_cases call
  · rfl
  · rfl

theorem senderStep_returns (mb : Mbedtls) {trace : SenderTrace}
    (count : trace.state.keyReplacementPacketCounter ≠ 0) (call : SenderCall) :
    ∃ next, senderStep mb trace call = some next ∧
      next.state.keyReplacementPacketCounter ≠ 0 := by
  cases call with
  | encryptPayload payload pdu draws =>
      by_cases tooLong : payload.length > maxPduPayloadSize
      · refine ⟨⟨countPacket trace.state, trace.emitted ++ []⟩, ?_, count⟩
        simp only [senderStep, encryptPayload, if_pos tooLong]
        rfl
      · obtain ⟨current, rotated⟩ :=
          replaceKeyIfDue_isSome (countPacket trace.state) draws count
        refine ⟨_, senderStep_encryptPayload mb (Nat.not_lt.mp tooLong) pdu rotated, ?_⟩
        rw [replaceKeyIfDue_count rotated]
        exact count
  | getKeyFragmentPdu pdu draws =>
      obtain ⟨current, rotated⟩ :=
        replaceKeyIfDue_isSome (countPacket trace.state) draws count
      refine ⟨_, senderStep_getKeyFragmentPdu mb pdu rotated, ?_⟩
      have same := replaceKeyIfDue_count rotated
      simp only [getNextKeyFragment, same]
      exact count

theorem senderRun_returns (mb : Mbedtls) (calls : List SenderCall) :
    ∀ trace : SenderTrace, trace.state.keyReplacementPacketCounter ≠ 0 →
      ∃ final, senderRun mb trace calls = some final := by
  induction calls with
  | nil => exact fun trace _ => ⟨trace, rfl⟩
  | cons call rest ih =>
      intro trace count
      obtain ⟨next, step, nextCount⟩ := senderStep_returns mb count call
      obtain ⟨final, run⟩ := ih next nextCount
      exact ⟨final, by simp only [senderRun, step, Option.bind_eq_bind, Option.bind_some, run]⟩

/-! ## Freshness -/

theorem DataDraw.keyAndNonce_inj (first second : DataDraw) :
    first.keyAndNonce = second.keyAndNonce ↔
      first.session.key = second.session.key ∧ first.session.keyId = second.session.keyId ∧
        first.marker = second.marker ∧ first.xorSeed = second.xorSeed := by
  constructor
  · intro same
    obtain ⟨key, nonce⟩ := Prod.mk.inj same
    obtain ⟨marker, keyId, seed⟩ := buildNonce_inj nonce
    exact ⟨key, keyId, marker, seed⟩
  · rintro ⟨key, keyId, marker, seed⟩
    simp only [keyAndNonce, key, keyId, marker, seed]

theorem keysAndNonces_nodup_iff (draws : List DataDraw) :
    (draws.map DataDraw.keyAndNonce).Nodup ↔ SeedsDiffer draws := by
  rw [List.Nodup, List.pairwise_map, SeedsDiffer]
  simp only [ne_eq, DataDraw.keyAndNonce_inj]

/-- A seed is one byte: more than 256 data PDUs of one key, id and marker repeat one. -/
theorem long_session_repeats {draws : List DataDraw} {key : Key128b} {keyId : UInt16}
    {marker : Bytes 3}
    (long : 256 < (draws.filter fun draw => draw.session.key = key ∧
      draw.session.keyId = keyId ∧ draw.marker = marker).length) : ¬ SeedsDiffer draws := by
  intro differ
  generalize isOwn : (draws.filter fun draw => draw.session.key = key ∧
    draw.session.keyId = keyId ∧ draw.marker = marker) = own at long
  have all : ∀ draw ∈ own, draw.session.key = key ∧ draw.session.keyId = keyId ∧
      draw.marker = marker := by
    intro draw member
    rw [← isOwn] at member
    simpa using (List.mem_filter.mp member).2
  have differOwn : SeedsDiffer own := by
    rw [← isOwn]
    exact differ.sublist List.filter_sublist
  have seeds : (own.map fun draw => draw.xorSeed.toNat).Nodup := by
    rw [List.Nodup, List.pairwise_map]
    refine differOwn.imp_of_mem fun {first second} firstOwn secondOwn different same => ?_
    obtain ⟨firstKey, firstId, firstMarker⟩ := all first firstOwn
    obtain ⟨secondKey, secondId, secondMarker⟩ := all second secondOwn
    exact different ⟨firstKey.trans secondKey.symm, firstId.trans secondId.symm,
      firstMarker.trans secondMarker.symm, UInt8.toNat_inj.mp same⟩
  have bytes : (own.map fun draw => draw.xorSeed.toNat) ⊆ List.range 256 := by
    intro seed member
    obtain ⟨draw, _, rfl⟩ := List.mem_map.mp member
    exact List.mem_range.mpr draw.xorSeed.toNat_lt
  have bound := (seeds.subperm bytes).length_le
  rw [List.length_map, List.length_range] at bound
  omega

/-- From start-up, with any rotation count but 0 and any draws, every run returns, and its
nonces are fresh exactly if no seed is drawn twice for one key, id and marker. -/
theorem nonces_fresh_iff (mb : Mbedtls) (initial : RandomDraws) (count : UInt32)
    (positive : count ≠ 0) (calls : List SenderCall) :
    ∃ final, senderRun mb
        (.start (setKeyReplacementPduCount (initPayloadEncryption initial) count)) calls =
          some final ∧
      (NoncesFresh final.emitted ↔ SeedsDiffer (dataDraws mb
        (.start (setKeyReplacementPduCount (initPayloadEncryption initial) count)) calls)) := by
  have coherent : Coherent (setKeyReplacementPduCount (initPayloadEncryption initial) count) :=
    (coherent_init initial).setCount count
  obtain ⟨final, run⟩ := senderRun_returns mb calls
    (.start (setKeyReplacementPduCount (initPayloadEncryption initial) count)) positive
  refine ⟨final, run, ?_⟩
  rw [NoncesFresh, senderRun_keyAndNonce coherent run]
  exact keysAndNonces_nodup_iff _

def twoPayloads (first second : UInt8) : List SenderCall :=
  [.encryptPayload [0x74] (fillMarkerInPdu .zero) ⟨fun _ => 2, 2, first⟩,
    .encryptPayload [0x5d] (fillMarkerInPdu .zero) ⟨fun _ => 2, 2, second⟩]

theorem nonces_fresh_two_payloads :
    ∃ final, senderRun tabulated
        (.start (setKeyReplacementPduCount (initPayloadEncryption ⟨fun _ => 1, 1, 0⟩) 200))
        (twoPayloads 0x10 0x20) = some final ∧ NoncesFresh final.emitted := by
  obtain ⟨final, run, fresh⟩ := nonces_fresh_iff tabulated ⟨fun _ => 1, 1, 0⟩ 200 (by decide)
    (twoPayloads 0x10 0x20)
  exact ⟨final, run, fresh.mpr (by decide +kernel)⟩

/-- The second packet of a session draws the seed of the first. -/
theorem nonce_repeated :
    ¬ ∀ (mb : Mbedtls) (initial : RandomDraws) (count : UInt32) (calls : List SenderCall)
      (final : SenderTrace), count ≠ 0 →
      senderRun mb (.start (setKeyReplacementPduCount (initPayloadEncryption initial) count))
        calls = some final → NoncesFresh final.emitted := by
  intro always
  have coherent : Coherent
      (setKeyReplacementPduCount (initPayloadEncryption ⟨fun _ => 1, 1, 0⟩) 200) :=
    (coherent_init _).setCount 200
  obtain ⟨final, run⟩ := senderRun_returns tabulated (twoPayloads 0x10 0x10)
    (.start (setKeyReplacementPduCount
      (initPayloadEncryption ⟨fun _ => 1, 1, 0⟩) 200)) (by decide)
  have fresh := always tabulated ⟨fun _ => 1, 1, 0⟩ 200 (twoPayloads 0x10 0x10) final
    (by decide) run
  rw [NoncesFresh, senderRun_keyAndNonce coherent run] at fresh
  revert fresh
  decide +kernel

end BleBroadcast.Sender
