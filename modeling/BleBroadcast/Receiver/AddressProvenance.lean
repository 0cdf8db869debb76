import BleBroadcast.Receiver.BatchIndependence
import BleBroadcast.Receiver.ScanFilter

/-!
# The addresses frames are passed on with

A private queue does not know whose frames it holds: they are passed on with the address
its entry has by then.  The address of an entry never changes once it is in use, but frames
of the address zero are queued in an entry that is still free.  An entry that is claimed
with an empty queue passes on what was heard from its address.
-/

set_option autoImplicit false

namespace BleBroadcast.Receiver

open BleBroadcast.Core BleBroadcast.Lib

/-- What `call` passes on was heard from the address it is passed on with. -/
def HeardFromAddress (history : List Hearing) (call : EnqueueCall) : Prop :=
  ∃ heard ∈ history, heard.macAddress = call.macAddress ∧ heard.dataSize = call.size ∧
    ∀ i < call.size, call.data i = heard.data i

instance heardFromAddressDecidable (history : List Hearing) (call : EnqueueCall) :
    Decidable (HeardFromAddress history call) :=
  inferInstanceAs (Decidable (∃ heard ∈ history, heard.macAddress = call.macAddress ∧
    heard.dataSize = call.size ∧ ∀ i < call.size, call.data i = heard.data i))

/-- An entry that is given to a sender has nothing queued. -/
def EntryGivenEmpty (ao : AdvTimeAuthorizeStructure) : AuthorizeStep → Prop
  | .hear heard =>
      isPduInBeaconPduFormat heard.data heard.dataSize = true →
        ∀ index ∈ (getConsumerIndexForAddr ao heard.macAddress).1,
          (ao.consumers index).consumerAddr = heard.macAddress ∨
            (ao.consumers index).privateQueue = []
  | .authorize _ => True

instance entryGivenEmptyDecidable (ao : AdvTimeAuthorizeStructure) :
    ∀ step, Decidable (EntryGivenEmpty ao step)
  | .hear heard => inferInstanceAs (Decidable (
      isPduInBeaconPduFormat heard.data heard.dataSize = true →
        ∀ index ∈ (getConsumerIndexForAddr ao heard.macAddress).1,
          (ao.consumers index).consumerAddr = heard.macAddress ∨
            (ao.consumers index).privateQueue = []))
  | .authorize _ => isTrue trivial

/-! ## Frames and entries -/

def PduHeardFrom (history : List Hearing) (mac : EspBdAddr) (pdu : ScanPdu) : Prop :=
  ∃ heard ∈ history, heard.macAddress = mac ∧ scanPduOf heard = pdu

section
variable {history : List Hearing} {mac : EspBdAddr} {pdu : ScanPdu}

theorem PduHeardFrom.later (source : PduHeardFrom history mac pdu) (more : List Hearing) :
    PduHeardFrom (history ++ more) mac pdu := by
  obtain ⟨heard, member, same⟩ := source
  exact ⟨heard, List.mem_append_left _ member, same⟩

theorem PduHeardFrom.call (source : PduHeardFrom history mac pdu) :
    HeardFromAddress history ⟨pdu.data, pdu.size, mac⟩ := by
  obtain ⟨heard, member, address, rfl⟩ := source
  exact ⟨heard, member, address, rfl, fun i inside => if_pos inside⟩

end

structure OwnFrames (history : List Hearing) (consumer : ConsumerAuthorizationStructure) :
    Prop where
  queue : ∀ pdu ∈ consumer.privateQueue, PduHeardFrom history consumer.consumerAddr pdu
  carried : consumer.lastProcessedPdu.timestampUs ≠ 0 →
    PduHeardFrom history consumer.consumerAddr consumer.lastProcessedPdu
  unused : consumer.consumerAddr = 0 → consumer.lastProcessedPdu.timestampUs = 0

section
variable {history : List Hearing} {consumer : ConsumerAuthorizationStructure}

theorem OwnFrames.later (own : OwnFrames history consumer) (more : List Hearing) :
    OwnFrames (history ++ more) consumer where
  queue := fun pdu member => (own.queue pdu member).later more
  carried := fun stamped => (own.carried stamped).later more
  unused := own.unused

theorem OwnFrames.given (own : OwnFrames history consumer) (free : consumer.consumerAddr = 0)
    (empty : consumer.privateQueue = []) {mac : EspBdAddr} (nonzero : mac ≠ 0) :
    OwnFrames history { consumer with consumerAddr := mac, active := true } where
  queue := by simp [empty]
  carried := fun stamped => absurd (own.unused free) stamped
  unused := fun zero => absurd zero nonzero

theorem OwnFrames.queued {next : ConsumerAuthorizationStructure} {heard : Hearing}
    (own : OwnFrames history consumer) (same : SameSender consumer next)
    (queue : next.privateQueue = consumer.privateQueue ∨
      consumer.consumerAddr = heard.macAddress ∧
        next.privateQueue = consumer.privateQueue ++ [scanPduOf heard]) :
    OwnFrames (history ++ [heard]) next where
  queue := by
    intro pdu member
    rw [same.address]
    obtain same | ⟨address, appended⟩ := queue
    · rw [same] at member
      exact (own.queue pdu member).later [heard]
    · rw [appended] at member
      rcases List.mem_append.mp member with old | new
      · exact (own.queue pdu old).later [heard]
      · exact ⟨heard, by simp, address.symm, (List.mem_singleton.mp new).symm⟩
  carried := by
    rw [same.address, same.lastProcessedPdu]
    exact fun stamped => (own.carried stamped).later [heard]
  unused := by
    rw [same.address, same.lastProcessedPdu]
    exact own.unused

theorem OwnFrames.authorizeBatch (own : OwnFrames history consumer) {pdus : List ScanPdu}
    (queued : ∀ pdu ∈ pdus, pdu ∈ consumer.privateQueue) :
    ((authorizeBatch consumer pdus).1.timestampUs ≠ 0 →
      PduHeardFrom history consumer.consumerAddr (authorizeBatch consumer pdus).1) ∧
    ∀ call ∈ (authorizeBatch consumer pdus).2, HeardFromAddress history call := by
  have compared : ∀ (last : ScanPdu) (rest : List ScanPdu),
      (∀ pdu ∈ last :: rest, PduHeardFrom history consumer.consumerAddr pdu) →
      PduHeardFrom history consumer.consumerAddr
        (authorizePdus consumer.consumerAddr last rest).1 ∧
      ∀ call ∈ (authorizePdus consumer.consumerAddr last rest).2,
        HeardFromAddress history call := by
    intro last rest heardFrom
    obtain ⟨final, calls⟩ := authorizePdus_eq consumer.consumerAddr rest last
    refine ⟨heardFrom _ (List.mem_of_getLast? final), fun call member => ?_⟩
    rw [calls] at member
    obtain ⟨pdu, selected, rfl⟩ := List.mem_map.mp member
    exact (heardFrom pdu (mem_of_mem_selectedPairs authorizes selected)).call
  have ownPdus : ∀ pdu ∈ pdus, PduHeardFrom history consumer.consumerAddr pdu :=
    fun pdu member => own.queue pdu (queued pdu member)
  unfold Receiver.authorizeBatch
  split
  · rename_i stamped
    obtain ⟨final, calls⟩ := compared consumer.lastProcessedPdu pdus
      (List.forall_mem_cons.mpr ⟨own.carried stamped, ownPdus⟩)
    exact ⟨fun _ => final, calls⟩
  · cases pdus with
    | nil => exact ⟨fun stamped => absurd rfl stamped, by simp⟩
    | cons first rest =>
        obtain ⟨final, calls⟩ := compared first rest ownPdus
        exact ⟨fun _ => final, calls⟩

end

/-! ## Runs -/

structure Attributed (history : List Hearing) (ao : AdvTimeAuthorizeStructure) : Prop where
  addressed : Addressed ao
  own : ∀ i, OwnFrames history (ao.consumers i)
  enqueued : ∀ call ∈ ao.enqueued, HeardFromAddress history call

section
variable {history : List Hearing} {ao : AdvTimeAuthorizeStructure}

theorem attributed_start : Attributed [] initAdvTimeAuthorizeObject where
  addressed := addressed_start
  own := fun _ => ⟨by simp [initAdvTimeAuthorizeObject, initConsumerAuthorizationStructure],
    fun stamped => absurd rfl stamped, fun _ => rfl⟩
  enqueued := by simp [initAdvTimeAuthorizeObject]

theorem HeardFromAddress.later {call : EnqueueCall} (source : HeardFromAddress history call)
    (more : List Hearing) : HeardFromAddress (history ++ more) call := by
  obtain ⟨heard, member, same⟩ := source
  exact ⟨heard, List.mem_append_left _ member, same⟩

theorem Attributed.hear (attributed : Attributed history ao) {heard : Hearing}
    (ok : EntryGivenEmpty ao (.hear heard)) :
    Attributed (history ++ [heard]) (scanCompleteCallback ao heard) := by
  refine ⟨attributed.addressed.scanCompleteCallback heard, ?_, ?_⟩
  · obtain ⟨_, same | ⟨index, claimed, format, found, entries⟩⟩ :=
      scanCompleteCallback_cases ao heard
    · rw [same]
      exact fun i => (attributed.own i).later [heard]
    · have claimedOwn : (claimed.consumers index).consumerAddr = heard.macAddress ∧
          ∀ i, OwnFrames history (claimed.consumers i) := by
        have empty := ok format index (by rw [found]; rfl)
        obtain ⟨looked, there, result⟩ | ⟨missing, free, zero, result⟩ | ⟨_, _, result⟩ :=
          getConsumerIndexForAddr_cases ao heard.macAddress
        · obtain ⟨sameIndex, rfl⟩ := Prod.mk.inj (found.symm.trans result)
          rw [Option.some.inj sameIndex]
          exact ⟨there, attributed.own⟩
        · obtain ⟨sameIndex, rfl⟩ := Prod.mk.inj (found.symm.trans result)
          rw [Option.some.inj sameIndex] at empty ⊢
          refine ⟨by simp [setAuthorization], fun i => ?_⟩
          by_cases here : i = free
          · subst here
            have nonzero : heard.macAddress ≠ 0 := fun none => missing i (zero.trans none.symm)
            simpa only [setAuthorization, Function.update_self] using
              (attributed.own i).given zero (empty.resolve_left (missing i)) nonzero
          · simpa only [setAuthorization, Function.update_of_ne here] using attributed.own i
        · exact absurd (found.symm.trans result) (by simp)
      intro i
      refine (claimedOwn.2 i).queued (entries i).1 ?_
      obtain same | ⟨rfl, appended⟩ := (entries i).2
      · exact Or.inl same
      · exact Or.inr ⟨claimedOwn.1, appended⟩
  · rw [(scanCompleteCallback_cases ao heard).1]
    exact fun call member => (attributed.enqueued call member).later [heard]

theorem Attributed.authorize (attributed : Attributed history ao) (index : Fin 2) :
    Attributed history (authorizeConsumer ao index) := by
  refine ⟨attributed.addressed.authorizeConsumer index, ?_, ?_⟩ <;> unfold authorizeConsumer <;>
    split
  · rename_i isActive
    obtain ⟨final, _⟩ := (attributed.own index).authorizeBatch
      fun pdu member => List.mem_of_mem_take member
    intro i
    by_cases here : i = index
    · subst here
      simp only [processAuthorizationForConsumer, setAuthorization, Function.update_self]
      exact ⟨fun pdu member => (attributed.own i).queue pdu (List.mem_of_mem_drop member), final,
        fun zero => absurd zero (attributed.addressed.active i isActive)⟩
    · simpa only [processAuthorizationForConsumer, setAuthorization,
        Function.update_of_ne here] using attributed.own i
  · exact attributed.own
  · obtain ⟨_, calls⟩ := (attributed.own index).authorizeBatch
      fun pdu member => List.mem_of_mem_take member
    intro call member
    rcases List.mem_append.mp member with early | late
    · exact attributed.enqueued call early
    · exact calls call late
  · exact attributed.enqueued

theorem Attributed.run (steps : List AuthorizeStep) :
    ∀ {history : List Hearing} {ao : AdvTimeAuthorizeStructure}, Attributed history ao →
      Guarded authorizeStep EntryGivenEmpty ao steps →
      Attributed (history ++ hearings steps) (run authorizeStep ao steps) := by
  induction steps with
  | nil =>
      intro history ao attributed _
      rw [hearings, List.filterMap_nil, List.append_nil]
      exact attributed
  | cons step rest ih =>
      intro history ao attributed guarded
      cases step with
      | hear heard =>
          have result := ih (attributed.hear guarded.1) guarded.2
          rw [List.append_assoc] at result
          exact result
      | authorize index => exact ih (attributed.authorize index) guarded.2

end

/-- In every run in which each entry has nothing queued when it is given to a sender, what
is passed on with an address was heard from that address. -/
theorem address_provenance (steps : List AuthorizeStep)
    (guarded : Guarded authorizeStep EntryGivenEmpty initAdvTimeAuthorizeObject steps) :
    ∀ reached, reached <+: steps →
      ∀ call ∈ (run authorizeStep initAdvTimeAuthorizeObject reached).enqueued,
        HeardFromAddress (hearings reached) call := fun reached isPrefix =>
  (attributed_start.run reached (guarded.of_prefix isPrefix)).enqueued

def pairsOnTime : List AuthorizeStep :=
  [hearFrame 0xA1 6 1 1000, hearFrame 0xB2 5 1 2000, hearFrame 0xB2 5 2 3002000,
    hearFrame 0xA1 6 2 3001000] ++ authorizeEach

theorem address_provenance_pairs :
    (run authorizeStep initAdvTimeAuthorizeObject pairsOnTime).enqueued.map
      EnqueueCall.macAddress = [0xB2, 0xA1] ∧
    ∀ reached, reached <+: pairsOnTime →
      ∀ call ∈ (run authorizeStep initAdvTimeAuthorizeObject reached).enqueued,
        HeardFromAddress (hearings reached) call :=
  ⟨by decide +kernel, address_provenance pairsOnTime (by decide +kernel)⟩

/-- The last free entry holds a frame of the address zero when it is given to a sender. -/
def claimedWithFrame : List AuthorizeStep :=
  [hearFrame 0xA1 6 1 1000, hearFrame 0 5 1 2000, hearFrame 0xB2 5 2 3002000] ++ authorizeEach

theorem frame_of_address_zero_passed_on :
    ¬ ∀ steps : List AuthorizeStep,
      ∀ call ∈ (run authorizeStep initAdvTimeAuthorizeObject steps).enqueued,
        HeardFromAddress (hearings steps) call := by
  intro always
  have heardFrom := always claimedWithFrame
  revert heardFrom
  decide +kernel

end BleBroadcast.Receiver
