import BleBroadcast.Sender.SenderTrace

/-!
# The order of the PDUs of a sender

Inside a session each PDU has the number after that of the one before, and a session is
followed by the next one.  Both are read off the packet counter, which a rotation resets.
-/

set_option autoImplicit false

namespace BleBroadcast.Sender

open BleBroadcast.Core

def Emission.pduNo : Emission → UInt16
  | .data _ _ _ pdu => pdu.pduNo
  | .keyFragment _ _ pdu => pdu.pduNo

def Emission.marker : Emission → Bytes 3
  | .data _ _ _ pdu => pdu.marker
  | .keyFragment _ _ pdu => pdu.marker

/-- A call of a caller that fills in the marker and passes no payload that is rejected. -/
def SenderCall.Honest : SenderCall → Prop
  | .encryptPayload payload pdu _ => payload.length ≤ maxPduPayloadSize ∧ pdu.marker = myMarker
  | .getKeyFragmentPdu pdu _ => pdu.marker = myMarker

instance honestDecidable : ∀ call : SenderCall, Decidable call.Honest
  | .encryptPayload payload pdu _ =>
      inferInstanceAs (Decidable (payload.length ≤ maxPduPayloadSize ∧ pdu.marker = myMarker))
  | .getKeyFragmentPdu pdu _ => inferInstanceAs (Decidable (pdu.marker = myMarker))

/-- `encrypt_payload` refuses the payload. -/
def SenderCall.Rejected : SenderCall → Prop
  | .encryptPayload payload _ _ => maxPduPayloadSize < payload.length
  | .getKeyFragmentPdu _ _ => False

instance rejectedDecidable : ∀ call : SenderCall, Decidable call.Rejected
  | .encryptPayload payload _ _ =>
      inferInstanceAs (Decidable (maxPduPayloadSize < payload.length))
  | .getKeyFragmentPdu _ _ => isFalse id

def SenderCall.marker : SenderCall → Bytes 3
  | .encryptPayload _ pdu _ => pdu.marker
  | .getKeyFragmentPdu pdu _ => pdu.marker

theorem SenderCall.Honest.accepted {call : SenderCall} (honest : call.Honest) :
    ¬ call.Rejected ∧ call.marker = myMarker := by
  cases call with
  | encryptPayload payload pdu draws => exact ⟨Nat.not_lt.mpr honest.1, honest.2⟩
  | getKeyFragmentPdu pdu draws => exact ⟨id, honest⟩

/-- The second PDU is the next one of the session, or one of the next session. -/
def Emission.Precedes (first second : Emission) : Prop :=
  (first.session = second.session ∧ second.pduNo.toNat = first.pduNo.toNat + 1) ∨
  second.session.number = first.session.number + 1

/-! ## Calls -/

/-- A call that is rejected counts a packet all the same.  Every other call produces one
PDU, in the session of the counter after a possible rotation and with its number. -/
theorem senderStep_cases {mb : Mbedtls} {trace next : SenderTrace} {call : SenderCall}
    (step : senderStep mb trace call = some next) :
    (call.Rejected ∧ next = ⟨countPacket trace.state, trace.emitted⟩) ∨
    ∃ draws current emission, replaceKeyIfDue (countPacket trace.state) draws = some current ∧
      next.state = { current with keyFragmentNo := next.state.keyFragmentNo } ∧
      next.emitted = trace.emitted ++ [emission] ∧
      emission.session = currentSession current ∧
      emission.pduNo = UInt16.ofNat current.encryptedPacketCounter ∧
      emission.marker = call.marker := by
  cases call with
  | encryptPayload payload pdu draws =>
      obtain ⟨⟨status, state, filled⟩, call, result⟩ := Option.bind_eq_some_iff.mp step
      obtain rfl := (Option.some.inj result).symm
      obtain ⟨tooLong, rfl, rfl, rfl⟩ | ⟨_, rfl, rotated, rfl⟩ := encryptPayload_cases call
      · exact Or.inl ⟨tooLong, by simp⟩
      · exact Or.inr ⟨draws, state, _, rotated, rfl, rfl, rfl, rfl, rfl⟩
  | getKeyFragmentPdu pdu draws =>
      obtain ⟨⟨state, filled⟩, call, result⟩ := Option.bind_eq_some_iff.mp step
      obtain rfl := (Option.some.inj result).symm
      obtain ⟨current, rotated, rfl, rfl⟩ := getKeyFragmentPdu_cases call
      exact Or.inr ⟨draws, current, _, rotated, rfl, rfl, rfl, rfl, rfl⟩

theorem senderStep_honest {mb : Mbedtls} {trace next : SenderTrace} {call : SenderCall}
    (honest : call.Honest) (step : senderStep mb trace call = some next) :
    ∃ draws current emission, replaceKeyIfDue (countPacket trace.state) draws = some current ∧
      next.state = { current with keyFragmentNo := next.state.keyFragmentNo } ∧
      next.emitted = trace.emitted ++ [emission] ∧
      emission.session = currentSession current ∧
      emission.pduNo = UInt16.ofNat current.encryptedPacketCounter ∧
      emission.marker = myMarker := by
  obtain ⟨accepted, marked⟩ := honest.accepted
  obtain ⟨rejected, _⟩ | produced := senderStep_cases step
  · exact absurd rejected accepted
  · rw [← marked]
    exact produced

/-! ## Runs -/

structure InOrder (count : Nat) (trace : SenderTrace) : Prop where
  rotation : trace.state.keyReplacementPacketCounter.toNat = count
  counter : trace.state.encryptedPacketCounter < count
  chain : trace.emitted.IsChain Emission.Precedes
  fresh : trace.emitted = [] → trace.state.encryptedPacketCounter = 0
  first : ∀ emission, trace.emitted.head? = some emission → emission.pduNo.toNat = 1
  latest : ∀ emission, trace.emitted.getLast? = some emission →
    emission.session = currentSession trace.state ∧
      emission.pduNo = UInt16.ofNat trace.state.encryptedPacketCounter
  marker : ∀ emission ∈ trace.emitted, emission.marker = myMarker

theorem inOrder_start (draws : RandomDraws) {count : UInt32} (several : 2 ≤ count.toNat) :
    InOrder count.toNat
      (.start (setKeyReplacementPduCount (initPayloadEncryption draws) count)) where
  rotation := rfl
  counter := Nat.lt_of_lt_of_le Nat.zero_lt_two several
  chain := List.IsChain.nil
  fresh := fun _ => rfl
  first := by simp [SenderTrace.start]
  latest := by simp [SenderTrace.start]
  marker := by simp [SenderTrace.start]

theorem replaceKeyIfDue_below {state next : PayloadEncryption} {draws : RandomDraws} {count : Nat}
    (rotation : state.keyReplacementPacketCounter.toNat = count)
    (counter : state.encryptedPacketCounter < count) (wide : count < 2 ^ 64)
    (call : replaceKeyIfDue (countPacket state) draws = some next) :
    next.keyReplacementPacketCounter = state.keyReplacementPacketCounter ∧
    ((state.encryptedPacketCounter + 1 < count ∧
        next.encryptedPacketCounter = state.encryptedPacketCounter + 1 ∧
        currentSession next = currentSession state) ∨
      (state.encryptedPacketCounter + 1 = count ∧ next.encryptedPacketCounter = 0 ∧
        next.keysReplaced = state.keysReplaced + 1)) := by
  have counted : (countPacket state).encryptedPacketCounter = state.encryptedPacketCounter + 1 :=
    Nat.mod_eq_of_lt (by omega)
  have due : replacementDue (countPacket state) = true ↔
      (state.encryptedPacketCounter + 1) % count = 0 := by
    rw [replacementDue, counted, beq_iff_eq]
    simp only [countPacket, rotation]
  obtain ⟨notDue, rfl⟩ | ⟨isDue, rfl⟩ := replaceKeyIfDue_cases call
  · refine ⟨rfl, Or.inl ⟨?_, counted, rfl⟩⟩
    rcases Nat.lt_or_eq_of_le (Nat.succ_le_of_lt counter) with below | reached
    · exact below
    · rw [due.mpr (by rw [← Nat.succ_eq_add_one, reached, Nat.mod_self])] at notDue
      contradiction
  · refine ⟨rfl, Or.inr ⟨?_, rfl, rfl⟩⟩
    have divides := Nat.dvd_of_mod_eq_zero (due.mp isDue)
    have atLeast := Nat.le_of_dvd (Nat.succ_pos _) divides
    omega

theorem InOrder.step {mb : Mbedtls} {count : Nat} {trace next : SenderTrace} {call : SenderCall}
    (inOrder : InOrder count trace) (several : 2 ≤ count) (wide : count ≤ 65536)
    (honest : call.Honest) (step : senderStep mb trace call = some next) :
    InOrder count next := by
  obtain ⟨draws, current, emission, rotated, state, emitted, session, pduNo, marker⟩ :=
    senderStep_honest honest step
  obtain ⟨sameCount, moved⟩ :=
    replaceKeyIfDue_below inOrder.rotation inOrder.counter (by omega) rotated
  have counter : current.encryptedPacketCounter < count := by
    rcases moved with ⟨below, counted, _⟩ | ⟨_, reset, _⟩ <;> omega
  have number : emission.pduNo.toNat = current.encryptedPacketCounter := by
    rw [pduNo, UInt16.toNat_ofNat']
    omega
  refine ⟨?_, ?_, ?_, ?_, ?_, ?_, ?_⟩
  · rw [state, ← inOrder.rotation, ← sameCount]
  · rw [state]
    exact counter
  · rw [emitted]
    refine List.isChain_append.mpr ⟨inOrder.chain, List.IsChain.singleton _, ?_⟩
    intro last isLast other isOther
    obtain rfl : emission = other := Option.some.inj isOther
    obtain ⟨lastSession, lastNo⟩ := inOrder.latest last isLast
    rcases moved with ⟨below, counted, sameSession⟩ | ⟨_, _, replaced⟩
    · refine Or.inl ⟨by rw [lastSession, session, sameSession], ?_⟩
      rw [number, lastNo, counted, UInt16.toNat_ofNat']
      omega
    · apply Or.inr
      rw [session, lastSession]
      exact replaced
  · exact fun empty => absurd (emitted.symm.trans empty) (by simp)
  · intro head isHead
    by_cases empty : trace.emitted = []
    · rw [emitted, empty] at isHead
      obtain rfl : emission = head := Option.some.inj isHead
      -- a rotation count of at least two leaves the first packet in the first session
      have zero := inOrder.fresh empty
      rw [number]
      omega
    · rw [emitted, List.head?_append_of_ne_nil _ empty] at isHead
      exact inOrder.first head isHead
  · intro last isLast
    rw [emitted, List.getLast?_concat] at isLast
    obtain rfl := Option.some.inj isLast
    rw [state]
    exact ⟨session, pduNo⟩
  · intro other member
    rw [emitted] at member
    rcases List.mem_append.mp member with old | new
    · exact inOrder.marker other old
    · rw [List.mem_singleton.mp new]
      exact marker

theorem senderRun_inOrder {mb : Mbedtls} {count : Nat} (several : 2 ≤ count)
    (wide : count ≤ 65536) {trace final : SenderTrace} {calls : List SenderCall}
    (inOrder : InOrder count trace) (honest : ∀ call ∈ calls, call.Honest)
    (run : senderRun mb trace calls = some final) : InOrder count final := by
  refine senderRun_preserves (fun _ call member _ inOrder step => ?_) inOrder run
  exact inOrder.step several wide (honest call member) step

end BleBroadcast.Sender
