import BleBroadcast.Sender.NonceFreshness
import BleBroadcast.Sender.SessionOrder

/-!
# The packet budget of a key

`encrypt_payload` and `get_key_fragment_pdu` change the key when the packet counter is a
multiple of the rotation count.  A payload that is too long is counted before it is
rejected, so that a rejected call can take the counter past the point where the key was to
be changed, and the key lasts until the next multiple.
-/

set_option autoImplicit false

namespace BleBroadcast.Sender

open BleBroadcast.Core

/-- How many PDUs were produced with the key installed as number `number`. -/
def packetsOf (number : Nat) (emitted : List Emission) : Nat :=
  emitted.countP fun emission => emission.session.number = number

/-- The call is not rejected when a new key is due.  With a rotation count of 1 a new key is
due at every call, so that none is missed. -/
def ReplacesWhenDue (trace : SenderTrace) (call : SenderCall) : Prop :=
  call.Rejected → trace.state.keyReplacementPacketCounter ≠ 1 →
    replacementDue (countPacket trace.state) = false

instance replacesWhenDueDecidable (trace : SenderTrace) (call : SenderCall) :
    Decidable (ReplacesWhenDue trace call) :=
  inferInstanceAs (Decidable (_ → _ → _))

/-- Every call of the run meets `ok` in the trace it is made in. -/
def GuardedCalls (mb : Mbedtls) (ok : SenderTrace → SenderCall → Prop) :
    SenderTrace → List SenderCall → Prop
  | _, [] => True
  | trace, call :: rest =>
      ok trace call ∧ ∀ next ∈ senderStep mb trace call, GuardedCalls mb ok next rest

instance guardedCallsDecidable (mb : Mbedtls) (ok : SenderTrace → SenderCall → Prop)
    [∀ trace call, Decidable (ok trace call)] :
    ∀ (trace : SenderTrace) (calls : List SenderCall), Decidable (GuardedCalls mb ok trace calls)
  | _, [] => isTrue trivial
  | trace, call :: rest =>
      have := fun next => guardedCallsDecidable mb ok next rest
      inferInstanceAs (Decidable (ok trace call ∧
        ∀ next ∈ senderStep mb trace call, GuardedCalls mb ok next rest))

theorem GuardedCalls.preserves {mb : Mbedtls} {ok : SenderTrace → SenderCall → Prop}
    {inv : SenderTrace → Prop}
    (keep : ∀ trace call next, inv trace → ok trace call →
      senderStep mb trace call = some next → inv next)
    {calls : List SenderCall} :
    ∀ {trace final : SenderTrace}, inv trace → GuardedCalls mb ok trace calls →
      senderRun mb trace calls = some final → inv final := by
  induction calls with
  | nil =>
      intro trace final initial _ run
      obtain rfl := Option.some.inj run
      exact initial
  | cons call rest ih =>
      intro trace final initial guarded run
      obtain ⟨next, step, run⟩ := Option.bind_eq_some_iff.mp run
      exact ih (keep trace call next initial guarded.1 step) (guarded.2 next step) run

/-! ## Keys and packets -/

theorem packetsOf_append (number : Nat) (emitted : List Emission) (emission : Emission) :
    packetsOf number (emitted ++ [emission]) =
      packetsOf number emitted + if emission.session.number = number then 1 else 0 := by
  simp [packetsOf, List.countP_append, List.countP_singleton]

theorem replaceKeyIfDue_one {state next : PayloadEncryption} {draws : RandomDraws}
    (one : state.keyReplacementPacketCounter.toNat = 1)
    (call : replaceKeyIfDue state draws = some next) :
    next.keyReplacementPacketCounter = state.keyReplacementPacketCounter ∧
      next.keysReplaced = state.keysReplaced + 1 := by
  obtain ⟨notDue, _⟩ | ⟨_, rfl⟩ := replaceKeyIfDue_cases call
  · rw [replacementDue, one, Nat.mod_one] at notDue
    contradiction
  · exact ⟨rfl, rfl⟩

structure WithinBudget (count : Nat) (trace : SenderTrace) : Prop where
  rotation : trace.state.keyReplacementPacketCounter.toNat = count
  budget : ∀ number, packetsOf number trace.emitted ≤ count
  unused : ∀ number, trace.state.keysReplaced < number → packetsOf number trace.emitted = 0
  current : count ≠ 1 → trace.state.encryptedPacketCounter < count ∧
    packetsOf trace.state.keysReplaced trace.emitted ≤ trace.state.encryptedPacketCounter + 1

theorem withinBudget_start (draws : RandomDraws) {count : UInt32} (positive : count ≠ 0) :
    WithinBudget count.toNat
      (.start (setKeyReplacementPduCount (initPayloadEncryption draws) count)) where
  rotation := rfl
  budget := fun _ => Nat.zero_le _
  unused := fun _ _ => rfl
  current := by
    have some : count.toNat ≠ 0 := fun zero => positive (UInt32.toNat_inj.mp zero)
    exact fun _ => ⟨Nat.pos_of_ne_zero some, Nat.zero_le _⟩

section
variable {count : Nat} {trace : SenderTrace}

theorem WithinBudget.sameKey (within : WithinBudget count trace) {next : SenderTrace}
    {emission : Emission} (emitted : next.emitted = trace.emitted ++ [emission])
    (rotation : next.state.keyReplacementPacketCounter = trace.state.keyReplacementPacketCounter)
    (number : emission.session.number = trace.state.keysReplaced)
    (same : next.state.keysReplaced = trace.state.keysReplaced)
    (below : trace.state.encryptedPacketCounter + 1 < count)
    (counter : next.state.encryptedPacketCounter = trace.state.encryptedPacketCounter + 1) :
    WithinBudget count next where
  rotation := by rw [rotation, within.rotation]
  budget := by
    intro other
    have before := within.budget other
    rw [emitted, packetsOf_append, number]
    split
    · rename_i isCurrent
      have current := (within.current (by omega)).2
      rw [isCurrent] at current
      omega
    · exact before
  unused := by
    intro other later
    rw [same] at later
    rw [emitted, packetsOf_append, number, within.unused other later, if_neg (by omega)]
  current := by
    intro several
    have current := (within.current several).2
    rw [same, counter, emitted, packetsOf_append, number, if_pos rfl]
    omega

theorem WithinBudget.nextKey (within : WithinBudget count trace) (positive : 0 < count)
    {next : SenderTrace} {emission : Emission}
    (emitted : next.emitted = trace.emitted ++ [emission])
    (rotation : next.state.keyReplacementPacketCounter = trace.state.keyReplacementPacketCounter)
    (number : emission.session.number = trace.state.keysReplaced + 1)
    (replaced : next.state.keysReplaced = trace.state.keysReplaced + 1)
    (counter : count ≠ 1 → next.state.encryptedPacketCounter = 0) :
    WithinBudget count next where
  rotation := by rw [rotation, within.rotation]
  budget := by
    intro other
    rw [emitted, packetsOf_append, number]
    split
    · rename_i isNew
      rw [within.unused other (by omega)]
      omega
    · exact within.budget other
  unused := by
    intro other later
    rw [replaced] at later
    rw [emitted, packetsOf_append, number, within.unused other (by omega), if_neg (by omega)]
  current := by
    intro several
    rw [counter several, replaced, emitted, packetsOf_append, number, if_pos rfl,
      within.unused _ (Nat.lt_succ_self _)]
    omega

theorem WithinBudget.step {mb : Mbedtls} (within : WithinBudget count trace)
    (positive : 0 < count) {next : SenderTrace} {call : SenderCall}
    (ok : ReplacesWhenDue trace call) (step : senderStep mb trace call = some next) :
    WithinBudget count next := by
  have wide : count < 2 ^ 64 := by
    have bound := trace.state.keyReplacementPacketCounter.toNat_lt
    rw [within.rotation] at bound
    omega
  obtain ⟨rejected, rfl⟩ | ⟨draws, current, emission, rotated, state, emitted, session, _⟩ :=
    senderStep_cases step
  · refine ⟨within.rotation, within.budget, within.unused, fun several => ?_⟩
    obtain ⟨counter, used⟩ := within.current several
    have counted : (countPacket trace.state).encryptedPacketCounter =
        trace.state.encryptedPacketCounter + 1 := Nat.mod_eq_of_lt (by omega)
    have notDue := ok rejected fun one => several (by rw [← within.rotation, one]; rfl)
    rw [replacementDue, counted, beq_eq_false_iff_ne] at notDue
    have other : trace.state.encryptedPacketCounter + 1 ≠ count := by
      intro reached
      apply notDue
      rw [reached, ← within.rotation]
      exact Nat.mod_self _
    exact ⟨by rw [counted]; omega, by rw [counted]; exact Nat.le_succ_of_le used⟩
  · have number : emission.session.number = current.keysReplaced := by rw [session]; rfl
    by_cases one : count = 1
    · have rotation : (countPacket trace.state).keyReplacementPacketCounter.toNat = 1 :=
        within.rotation.trans one
      obtain ⟨sameCount, replaced⟩ := replaceKeyIfDue_one rotation rotated
      exact within.nextKey positive emitted (by rw [state]; exact sameCount)
        (number.trans replaced) (by rw [state]; exact replaced) fun several => absurd one several
    · obtain ⟨sameCount, ⟨below, counted, sameSession⟩ | ⟨_, reset, replaced⟩⟩ :=
        replaceKeyIfDue_below within.rotation (within.current one).1 wide rotated
      · have sameKey : current.keysReplaced = trace.state.keysReplaced :=
          congrArg Session.number sameSession
        exact within.sameKey emitted (by rw [state]; exact sameCount) (number.trans sameKey)
          (by rw [state]; exact sameKey) below (by rw [state]; exact counted)
      · exact within.nextKey positive emitted (by rw [state]; exact sameCount)
          (number.trans replaced) (by rw [state]; exact replaced)
          fun _ => by rw [state]; exact reset

end

/-- From start-up, with any rotation count but 0 and any draws, every run returns, and if no
call in it is rejected when a new key is due, no key is used for more PDUs than the count. -/
theorem key_within_budget (mb : Mbedtls) (initial : RandomDraws) (count : UInt32)
    (positive : count ≠ 0) (calls : List SenderCall)
    (guarded : GuardedCalls mb ReplacesWhenDue
      (.start (setKeyReplacementPduCount (initPayloadEncryption initial) count)) calls) :
    ∃ final, senderRun mb
        (.start (setKeyReplacementPduCount (initPayloadEncryption initial) count)) calls =
          some final ∧
      ∀ number, packetsOf number final.emitted ≤ count.toNat := by
  have some : 0 < count.toNat :=
    Nat.pos_of_ne_zero fun zero => positive (UInt32.toNat_inj.mp zero)
  obtain ⟨final, run⟩ := senderRun_returns mb calls
    (.start (setKeyReplacementPduCount (initPayloadEncryption initial) count)) positive
  have within : WithinBudget count.toNat final :=
    GuardedCalls.preserves (fun _ _ _ within ok step => within.step some ok step)
      (withinBudget_start initial positive) guarded run
  exact ⟨final, run, within.budget⟩

def fragmentCall : SenderCall :=
  .getKeyFragmentPdu (fillMarkerInKeyPdu .zero) ⟨fun _ => 2, 2, 0x10⟩

/-- A payload of one byte more than `encrypt_payload` accepts. -/
def rejectedCall : SenderCall :=
  .encryptPayload (List.replicate 28 0x74) (fillMarkerInPdu .zero) ⟨fun _ => 2, 2, 0x10⟩

/-- The second packet is rejected, and the third one changes the key. -/
theorem key_within_budget_rejected_early :
    ∃ final, senderRun tabulated
        (.start (setKeyReplacementPduCount (initPayloadEncryption ⟨fun _ => 1, 1, 0⟩) 3))
        [fragmentCall, rejectedCall, fragmentCall, fragmentCall, fragmentCall] = some final ∧
      ∀ number, packetsOf number final.emitted ≤ (3 : UInt32).toNat :=
  key_within_budget tabulated ⟨fun _ => 1, 1, 0⟩ 3 (by decide) _ (by decide +kernel)

/-- The fourth packet should change the key and is rejected: the key installed by the second
one is used a third time. -/
theorem key_outlives_budget :
    ¬ ∀ (mb : Mbedtls) (initial : RandomDraws) (count : UInt32) (calls : List SenderCall)
      (final : SenderTrace), count ≠ 0 →
      senderRun mb (.start (setKeyReplacementPduCount (initPayloadEncryption initial) count))
        calls = some final → ∀ number, packetsOf number final.emitted ≤ count.toNat := by
  intro always
  have used : (senderRun tabulated
      (.start (setKeyReplacementPduCount (initPayloadEncryption ⟨fun _ => 1, 1, 0⟩) 2))
      [fragmentCall, fragmentCall, fragmentCall, rejectedCall, fragmentCall]).map
        (fun final => packetsOf 1 final.emitted) = some 3 := by
    decide +kernel
  obtain ⟨final, run, three⟩ := Option.map_eq_some_iff.mp used
  have budget := always tabulated ⟨fun _ => 1, 1, 0⟩ 2 _ final (by decide) run 1
  rw [three] at budget
  exact absurd budget (by decide)

end BleBroadcast.Sender
