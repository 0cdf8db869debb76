import BleBroadcast.Lib.GuardedRun
import BleBroadcast.Sender.NonceFreshness
import BleBroadcast.Sender.SessionOrder

/-!
# Changing the rotation count

`set_key_replacement_pdu_count` may be called between any two packets.  The packet counter
goes on from where it is, and the next multiple of the new count is at most that many
packets away.
-/

set_option autoImplicit false

namespace BleBroadcast.Sender

open BleBroadcast.Core BleBroadcast.Lib

/-- A call that produces a PDU, if it returns. -/
abbrev AcceptedCall := { call : SenderCall // ¬ call.Rejected }

inductive RotationStep where
  | setKeyReplacementPduCount (count : UInt32)
  | produce (call : AcceptedCall)

def RotationStep.Produces : RotationStep → Prop
  | .setKeyReplacementPduCount _ => False
  | .produce _ => True

def setCount (trace : SenderTrace) (count : UInt32) : SenderTrace :=
  { trace with state := setKeyReplacementPduCount trace.state count }

/-- There is no state after a division by zero. -/
def rotationStep (mb : Mbedtls) : Option SenderTrace → RotationStep → Option SenderTrace
  | none, _ => none
  | some trace, .setKeyReplacementPduCount count => some (setCount trace count)
  | some trace, .produce call => senderStep mb trace call

/-- The rotation count is not 0 when a PDU is to be produced. -/
def CountSet (state : Option SenderTrace) : RotationStep → Prop
  | .setKeyReplacementPduCount _ => True
  | .produce _ => ∀ trace ∈ state, trace.state.keyReplacementPacketCounter ≠ 0

def NeverDividesByZero (mb : Mbedtls) (start : Option SenderTrace) (steps : List RotationStep) :
    Prop :=
  ∀ reached, reached <+: steps → run (rotationStep mb) start reached ≠ none

/-- Whenever a count was set and not changed since, and that many PDUs were produced, the key
that was current when it was set has been replaced. -/
def ReplacedInTime (mb : Mbedtls) (start : Option SenderTrace) (steps : List RotationStep) :
    Prop :=
  ∀ before count since, before ++ .setKeyReplacementPduCount count :: since <+: steps →
    count ≠ 0 → (∀ step ∈ since, step.Produces) →
    ∀ atSet ∈ run (rotationStep mb) start before,
      ∀ atEnd ∈ run (rotationStep mb) start (before ++ .setKeyReplacementPduCount count :: since),
        atEnd.emitted.length = atSet.emitted.length + count.toNat →
          atSet.state.keysReplaced < atEnd.state.keysReplaced

/-! ## Multiples of the count -/

/-- Among as many successive values of the counter as the count says there is a multiple of
it, also where the counter overflows. -/
theorem exists_multiple (counter : Nat) {count : Nat} (positive : 0 < count) :
    ∃ k, 1 ≤ k ∧ k ≤ count ∧ (counter + k) % 2 ^ 64 % count = 0 := by
  have bound : counter % 2 ^ 64 < 2 ^ 64 := Nat.mod_lt _ (by decide)
  simp only [← Nat.mod_add_mod counter]
  generalize counter % 2 ^ 64 = low at bound
  by_cases overflow : 2 ^ 64 ≤ low + count
  · refine ⟨2 ^ 64 - low, by omega, by omega, ?_⟩
    rw [Nat.add_sub_of_le bound.le, Nat.mod_self, Nat.zero_mod]
  · have remainder := Nat.mod_lt low positive
    refine ⟨count - low % count, by omega, Nat.sub_le _ _, ?_⟩
    have next : low + (count - low % count) = count * (low / count + 1) := by
      have split := Nat.div_add_mod low count
      rw [Nat.mul_add_one]
      omega
    have below : low + (count - low % count) < 2 ^ 64 := by omega
    rw [Nat.mod_eq_of_lt below, next]
    exact Nat.mul_mod_right _ _

structure SinceSet (atSet : SenderTrace) (count : UInt32) (trace : SenderTrace) : Prop where
  rotation : trace.state.keyReplacementPacketCounter = count
  replaced : atSet.state.keysReplaced < trace.state.keysReplaced ∨
    trace.state.keysReplaced = atSet.state.keysReplaced ∧
      ∃ produced, trace.emitted.length = atSet.emitted.length + produced ∧
        trace.state.encryptedPacketCounter % 2 ^ 64 =
          (atSet.state.encryptedPacketCounter + produced) % 2 ^ 64 ∧
        ∀ k, 1 ≤ k → k ≤ produced →
          (atSet.state.encryptedPacketCounter + k) % 2 ^ 64 % count.toNat ≠ 0

theorem SinceSet.step {mb : Mbedtls} {atSet trace next : SenderTrace} {count : UInt32}
    (since : SinceSet atSet count trace) {call : SenderCall} (accepted : ¬ call.Rejected)
    (step : senderStep mb trace call = some next) : SinceSet atSet count next := by
  obtain ⟨rejected, _⟩ | ⟨draws, current, emission, rotated, state, emitted, _⟩ :=
    senderStep_cases step
  · exact absurd rejected accepted
  · have sameCount := replaceKeyIfDue_count rotated
    refine ⟨by rw [state]; exact sameCount.trans since.rotation, ?_⟩
    obtain ⟨notDue, rfl⟩ | ⟨_, rfl⟩ := replaceKeyIfDue_cases rotated
    · rw [state]
      refine since.replaced.imp_right ?_
      rintro ⟨same, produced, length, counter, noMultiple⟩
      have counted : (trace.state.encryptedPacketCounter + 1) % 2 ^ 64 =
          (atSet.state.encryptedPacketCounter + (produced + 1)) % 2 ^ 64 := by
        rw [← Nat.mod_add_mod, counter, Nat.mod_add_mod, Nat.add_assoc]
      refine ⟨same, produced + 1, ?_, ?_, fun k positive upTo => ?_⟩
      · rw [emitted, List.length_append, length]
        rfl
      · simp only [countPacket, Nat.mod_mod]
        exact counted
      · rcases Nat.le_succ_iff.mp upTo with old | rfl
        · exact noMultiple k positive old
        · simp only [replacementDue, beq_eq_false_iff_ne] at notDue
          rw [← counted, ← since.rotation]
          exact notDue
    · refine Or.inl ?_
      rw [state]
      have before : atSet.state.keysReplaced ≤ trace.state.keysReplaced := by
        rcases since.replaced with later | ⟨same, _⟩
        · exact later.le
        · exact same.ge
      exact Nat.lt_succ_of_le before

theorem run_rotationStep_none (mb : Mbedtls) (steps : List RotationStep) :
    Lib.run (rotationStep mb) none steps = none :=
  run_preserves (fun state => state = none)
    (fun _ _ none => by rw [none, rotationStep]) rfl steps

theorem SinceSet.run {mb : Mbedtls} {atSet : SenderTrace} {count : UInt32}
    {steps : List RotationStep} (produces : ∀ step ∈ steps, step.Produces) :
    ∀ {trace atEnd : SenderTrace}, SinceSet atSet count trace →
      Lib.run (rotationStep mb) (some trace) steps = some atEnd → SinceSet atSet count atEnd := by
  induction steps with
  | nil =>
      intro trace atEnd since done
      obtain rfl := Option.some.inj done
      exact since
  | cons step rest ih =>
      intro trace atEnd since done
      cases step with
      | setKeyReplacementPduCount other => exact (produces _ List.mem_cons_self).elim
      | produce call =>
          rw [run_cons] at done
          cases made : rotationStep mb (some trace) (.produce call) with
          | none =>
              rw [made, run_rotationStep_none] at done
              contradiction
          | some next =>
              rw [made] at done
              refine ih (fun other member => produces other (List.mem_cons_of_mem _ member))
                (since.step call.property made) done

/-! ## Runs -/

theorem replacedInTime (mb : Mbedtls) (start : Option SenderTrace) (steps : List RotationStep) :
    ReplacedInTime mb start steps := by
  intro before count since _ nonzero produces atSet reachedSet atEnd reachedEnd length
  rw [Option.mem_def] at reachedSet reachedEnd
  rw [run_append, reachedSet, run_cons] at reachedEnd
  have initial : SinceSet atSet count (setCount atSet count) :=
    ⟨rfl, Or.inr ⟨rfl, 0, rfl, rfl, fun k positive none => absurd none (by omega)⟩⟩
  obtain later | ⟨_, produced, emitted, _, noMultiple⟩ :=
    (initial.run produces reachedEnd).replaced
  · exact later
  · have positive : 0 < count.toNat :=
      Nat.pos_of_ne_zero fun zero => nonzero (UInt32.toNat_inj.mp zero)
    obtain ⟨k, first, upTo, multiple⟩ :=
      exists_multiple atSet.state.encryptedPacketCounter positive
    exact absurd multiple (noMultiple k first (by omega))

theorem rotationStep_returns (mb : Mbedtls) (state : Option SenderTrace) (step : RotationStep)
    (returned : state ≠ none) (set : CountSet state step) : rotationStep mb state step ≠ none := by
  obtain ⟨trace, rfl⟩ := Option.ne_none_iff_exists'.mp returned
  cases step with
  | setKeyReplacementPduCount count => exact Option.some_ne_none _
  | produce call =>
      obtain ⟨next, made, _⟩ := senderStep_returns mb (set trace rfl) call.val
      rw [rotationStep, made]
      exact Option.some_ne_none _

theorem senderStep_traps (mb : Mbedtls) {trace : SenderTrace}
    (zero : trace.state.keyReplacementPacketCounter = 0) {call : SenderCall}
    (accepted : ¬ call.Rejected) : senderStep mb trace call = none := by
  have traps : ∀ draws, replaceKeyIfDue (countPacket trace.state) draws = none :=
    fun draws => if_pos zero
  cases call with
  | encryptPayload payload pdu draws =>
      have fits : ¬ payload.length > maxPduPayloadSize := accepted
      simp only [senderStep, encryptPayload, if_neg fits, traps]
      rfl
  | getKeyFragmentPdu pdu draws =>
      simp only [senderStep, getKeyFragmentPdu, traps]
      rfl

theorem rotationStep_traps (mb : Mbedtls) (state : Option SenderTrace) (step : RotationStep)
    (_ : state ≠ none) (notSet : ¬ CountSet state step) : ¬ rotationStep mb state step ≠ none := by
  cases step with
  | setKeyReplacementPduCount count => exact absurd trivial notSet
  | produce call =>
      simp only [CountSet, not_forall, ne_eq, not_not] at notSet
      obtain ⟨trace, rfl, zero⟩ := notSet
      exact not_not.mpr (senderStep_traps mb zero call.property)

/-- In every run from start-up: no call divides by zero and every key is replaced in time,
exactly if no PDU is to be produced while the count is 0. -/
theorem rotation_safe_iff (mb : Mbedtls) (draws : RandomDraws) (steps : List RotationStep) :
    let start := some (SenderTrace.start (initPayloadEncryption draws))
    NeverDividesByZero mb start steps ∧ ReplacedInTime mb start steps ↔
      Guarded (rotationStep mb) CountSet start steps := by
  intro start
  rw [and_iff_left (replacedInTime mb start steps)]
  exact (guarded_iff_always (rotationStep_returns mb) (rotationStep_traps mb)
    (fun _ returned => returned) (Option.some_ne_none _) steps).symm

theorem getKeyFragmentPdu_accepted (pdu : BeaconKeyPduData) (draws : RandomDraws) :
    ¬ (SenderCall.getKeyFragmentPdu pdu draws).Rejected :=
  not_false

def countOfZero (pdu : BeaconKeyPduData) (draws : RandomDraws) : List RotationStep :=
  [.setKeyReplacementPduCount 0,
    .produce ⟨.getKeyFragmentPdu pdu draws, getKeyFragmentPdu_accepted pdu draws⟩]

theorem zero_count_traps :
    ¬ ∀ (mb : Mbedtls) (draws : RandomDraws) (steps : List RotationStep),
      let start := some (SenderTrace.start (initPayloadEncryption draws))
      NeverDividesByZero mb start steps ∧ ReplacedInTime mb start steps := by
  intro always
  obtain ⟨never, _⟩ :=
    always tabulated ⟨fun _ => 1, 1, 0⟩ (countOfZero .zero ⟨fun _ => 2, 2, 0⟩)
  exact never _ List.prefix_rfl rfl

end BleBroadcast.Sender
