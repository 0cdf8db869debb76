import BleBroadcast.EndToEnd.KeyTransport

/-!
# Fragments of another party

The tag of a fragment is an HMAC of the masked fragment, and its key is the fragment itself:
nothing enters it that is not in the frame.  Another party on the air makes a tag that matches
for any fragment it chooses, and has it stored as one of the sender's.
-/

set_option autoImplicit false

namespace BleBroadcast.EndToEnd

open BleBroadcast.Core BleBroadcast.Lib BleBroadcast.Sender BleBroadcast.Receiver

/-- The sender with all it has emitted, and the reconstructor with all it has stored. -/
structure AirState (size : Nat) where
  trace : SenderTrace
  history : CollectionHistory size

variable {size : Nat}

def startOnAir (size : Nat) (draws : RandomDraws) : AirState size where
  trace := .start (initPayloadEncryption draws)
  history := .start size

/-- A frame of the sender may be heard at any time after it was emitted, or never.  The other
party injects whatever it likes. -/
inductive AirStep where
  | send (call : SenderCall)
  | hear (index : Nat)
  | inject (pdu : BeaconKeyPduData)

def airStep (mb : Mbedtls) (mac : EspBdAddr) (state : AirState size) : AirStep → AirState size
  | .send call => { state with trace := (senderStep mb state.trace call).getD state.trace }
  | .hear index =>
      match state.trace.emitted[index]? with
      | some (.keyFragment _ _ pdu) =>
          { state with
            history := collectStep mb state.history (queuedElement pdu.frame mac) }
      | _ => state
  | .inject pdu =>
      { state with history := collectStep mb state.history (fragmentElement pdu mac) }

def EmittedBySender (trace : SenderTrace) (element : ReconstructorQueueElement) : Prop :=
  ∃ session pdu, Emission.keyFragment session element.keyFragmentNo pdu ∈ trace.emitted ∧
    session.keyId = element.keyId ∧
    split128bKeyToFragment session.key element.keyFragmentNo = element.decrypted

def FragmentsGenuine (state : AirState size) : Prop :=
  ∀ element ∈ state.history.stored, EmittedBySender state.trace element

/-- There is an entry for the element, or a free one, and its number is missing there. -/
def Wanted (km : KeyReconstructionCollection size) (element : ReconstructorQueueElement) : Bool :=
  let present := collectionWithEntry km element
  isKeyInCollection present element.consumerMacAddress element.keyByte &&
    !isKeyFragmentDecrypted present element.consumerMacAddress element.keyByte
      element.keyFragmentNo

/-- The tag is the one that anybody computes from the other fields of the frame. -/
def SelfTagged (mb : Mbedtls) (pdu : BeaconKeyPduData) : Prop :=
  pdu.bcd.keyFragmentHmac = calculateHmacOfFragment mb
    (xorDecryptKeyFragment pdu.bcd.encKeyFragment pdu.bcd.xorSeed) pdu.bcd.encKeyFragment

/-- The other party does not inject a self-made tag for a fragment that the sender has not
emitted, where such a fragment is wanted. -/
def NotForged (mb : Mbedtls) (mac : EspBdAddr) (state : AirState size) : AirStep → Prop
  | .inject pdu => SelfTagged mb pdu →
      Wanted state.history.km (fragmentElement pdu mac) = true →
        EmittedBySender state.trace (fragmentElement pdu mac)
  | .send _ => True
  | .hear _ => True

/-! ## What the steps keep -/

theorem tagMatches_fragmentElement (mb : Mbedtls) (pdu : BeaconKeyPduData) (mac : EspBdAddr) :
    (fragmentElement pdu mac).tagMatches mb = true ↔ SelfTagged mb pdu :=
  ReconstructorQueueElement.tagMatches_iff mb _

theorem storesFragment_eq (mb : Mbedtls) (km : KeyReconstructionCollection size)
    (element : ReconstructorQueueElement) :
    storesFragment mb km element = (Wanted km element && element.tagMatches mb) := rfl

theorem EmittedBySender.later {trace next : SenderTrace} {element : ReconstructorQueueElement}
    (emitted : EmittedBySender trace element) {produced : List Emission}
    (grows : next.emitted = trace.emitted ++ produced) : EmittedBySender next element := by
  obtain ⟨session, pdu, member, keyId, fragment⟩ := emitted
  exact ⟨session, pdu, by rw [grows]; exact List.mem_append_left _ member, keyId, fragment⟩

theorem FragmentsGenuine.collect {mb : Mbedtls} {state : AirState size}
    (genuine : FragmentsGenuine state) {element : ReconstructorQueueElement}
    (own : storesFragment mb state.history.km element = true →
      EmittedBySender state.trace element) :
    FragmentsGenuine { state with history := collectStep mb state.history element } := by
  intro other member
  simp only [collectStep] at member
  split at member
  · rename_i stores
    rcases List.mem_cons.mp member with rfl | old
    · exact own stores
    · exact genuine other old
  · exact genuine other member

structure OnAirGenuine (mb : Mbedtls) (state : AirState size) : Prop where
  coherent : Coherent state.trace.state
  emissions : ∀ emission ∈ state.trace.emitted, emission.Genuine mb
  stored : FragmentsGenuine state

theorem onAirGenuine_start (mb : Mbedtls) (size : Nat) (draws : RandomDraws) :
    OnAirGenuine mb (startOnAir size draws) where
  coherent := coherent_init draws
  emissions := by simp [startOnAir, SenderTrace.start]
  stored := by simp [FragmentsGenuine, startOnAir, CollectionHistory.start]

theorem OnAirGenuine.send {mb : Mbedtls} {state : AirState size}
    (genuine : OnAirGenuine mb state) (mac : EspBdAddr) (call : SenderCall) :
    OnAirGenuine mb (airStep mb mac state (.send call)) := by
  cases step : senderStep mb state.trace call with
  | none =>
      simp only [airStep, step, Option.getD_none]
      exact genuine
  | some next =>
      obtain ⟨coherent, produced, grows, fresh⟩ := senderStep_produces genuine.coherent step
      simp only [airStep, step, Option.getD_some]
      refine ⟨coherent, fun emission member => ?_, fun element member => ?_⟩
      · rw [grows] at member
        rcases List.mem_append.mp member with old | new
        · exact genuine.emissions emission old
        · exact (fresh emission new).1
      · exact (genuine.stored element member).later grows

theorem OnAirGenuine.hear {mb : Mbedtls} {state : AirState size}
    (genuine : OnAirGenuine mb state) (mac : EspBdAddr) (index : Nat) :
    OnAirGenuine mb (airStep mb mac state (.hear index)) := by
  simp only [airStep]
  split
  · rename_i session number pdu found
    have member : Emission.keyFragment session number pdu ∈ state.trace.emitted :=
      List.mem_of_getElem? found
    obtain ⟨keyId, isNumber, _, decrypted⟩ :=
      queuedElement_genuine (genuine.emissions _ member) mac
    refine ⟨genuine.coherent, genuine.emissions, genuine.stored.collect fun _ => ?_⟩
    exact ⟨session, pdu, by rw [isNumber]; exact member, keyId.symm,
      by rw [isNumber, decrypted]⟩
  · exact genuine

theorem OnAirGenuine.step (mb : Mbedtls) (mac : EspBdAddr) (state : AirState size)
    (step : AirStep) (genuine : OnAirGenuine mb state) (notForged : NotForged mb mac state step) :
    OnAirGenuine mb (airStep mb mac state step) := by
  cases step with
  | send call => exact genuine.send mac call
  | hear index => exact genuine.hear mac index
  | inject pdu =>
      refine ⟨genuine.coherent, genuine.emissions, genuine.stored.collect fun stores => ?_⟩
      rw [storesFragment_eq, Bool.and_eq_true, tagMatches_fragmentElement] at stores
      exact notForged stores.2 stores.1

theorem forged_stored {mb : Mbedtls} (mac : EspBdAddr) (state : AirState size)
    {pdu : BeaconKeyPduData} (tagged : SelfTagged mb pdu)
    (wanted : Wanted state.history.km (fragmentElement pdu mac) = true)
    (notEmitted : ¬ EmittedBySender state.trace (fragmentElement pdu mac)) :
    ¬ FragmentsGenuine (airStep mb mac state (.inject pdu)) := by
  intro genuine
  have stores : storesFragment mb state.history.km (fragmentElement pdu mac) = true := by
    rw [storesFragment_eq, wanted, (tagMatches_fragmentElement mb pdu mac).mpr tagged]
    rfl
  refine notEmitted (genuine (fragmentElement pdu mac) ?_)
  simp only [airStep, collectStep, stores, if_true]
  exact List.mem_cons_self

theorem not_genuine_of_forged (mb : Mbedtls) (mac : EspBdAddr) (state : AirState size)
    (step : AirStep) (_ : OnAirGenuine mb state) (forged : ¬ NotForged mb mac state step) :
    ¬ FragmentsGenuine (airStep mb mac state step) := by
  cases step with
  | send call => exact absurd trivial forged
  | hear index => exact absurd trivial forged
  | inject pdu =>
      simp only [NotForged, Classical.not_imp] at forged
      obtain ⟨tagged, wanted, notEmitted⟩ := forged
      exact forged_stored mac state tagged wanted notEmitted

/-! ## Runs -/

/-- In every run from start-up, with any frames of the sender heard at any times and any
others injected: everything stored is the sender's at every moment, exactly if no injected
frame has a self-made tag for a fragment that is wanted and not the sender's. -/
theorem fragments_genuine_iff (mb : Mbedtls) (mac : EspBdAddr) (draws : RandomDraws)
    (steps : List AirStep) :
    (∀ reached, reached <+: steps →
        FragmentsGenuine (run (airStep mb mac) (startOnAir size draws) reached)) ↔
      Guarded (airStep mb mac) (NotForged mb mac) (startOnAir size draws) steps :=
  (guarded_iff_always (OnAirGenuine.step mb mac) (not_genuine_of_forged mb mac)
    (fun _ genuine => genuine.stored) (onAirGenuine_start mb size draws) steps).symm

/-- The frame of a party that masks a fragment of its choice and tags it, as the sender does. -/
def forgedKeyPdu (mb : Mbedtls) (keyId : UInt16) (number : FragmentNo) (fragment : KeyFragment)
    (xorSeed : UInt8) : BeaconKeyPduData :=
  let encrypted := xorEncryptKeyFragment fragment xorSeed
  { BeaconKeyPduData.zero with
    marker := myMarker
    cmd := keyFragmentCmd
    bcd :=
      { keySessionData := produceKeySessionData keyId (UInt8.ofNat number.val)
        encKeyFragment := encrypted
        xorSeed := xorSeed
        keyFragmentHmac := calculateHmacOfFragment mb fragment encrypted } }

theorem selfTagged_forgedKeyPdu (mb : Mbedtls) (keyId : UInt16) (number : FragmentNo)
    (fragment : KeyFragment) (xorSeed : UInt8) :
    SelfTagged mb (forgedKeyPdu mb keyId number fragment xorSeed) := by
  simp only [SelfTagged, forgedKeyPdu, xorDecryptKeyFragment_encrypt]

theorem wanted_create (size : Nat) (element : ReconstructorQueueElement) :
    Wanted (createNewKeyCollection (size + 1)) element = true := by
  obtain ⟨index, entry, entryFor, claims⟩ | ⟨_, noneFree, _⟩ :=
    collectionWithEntry_cases (createNewKeyCollection (size + 1)) element
  · obtain ⟨entryId, entryMac⟩ := entryFor.names
    have found := entryFor.lookup entry entryId entryMac
    have flag := isKeyFragmentDecrypted_found found element.keyFragmentNo
    have missing : entry.decryptedKeyFragments element.keyFragmentNo = false := by
      cases entryFor with
      | there _ => rfl
      | claimed _ _ => rfl
    rw [Function.update_self, missing] at flag
    simp only [Wanted, claims, isKeyInCollection, found, flag, Option.isSome_some, Bool.not_false,
      Bool.and_self]
  · exact absurd rfl (noneFree 0)

def addsFragment (mb : Mbedtls) : List AirStep :=
  [.send (.getKeyFragmentPdu .zero ⟨fun _ => 1, 1, 0x10⟩),
    .inject (forgedKeyPdu mb 1 1 (fun _ => 2) 0x20)]

/-- It is stored, whatever the HMAC is. -/
theorem forged_fragment_stored :
    ¬ ∃ mb : Mbedtls, ∀ (mac : EspBdAddr) (draws : RandomDraws) (steps : List AirStep),
      FragmentsGenuine (run (airStep mb mac) (startOnAir 20 draws) steps) := by
  rintro ⟨mb, always⟩
  have genuine := always 0xA1 ⟨fun _ => 1, 1, 0⟩ (addsFragment mb)
  rw [addsFragment, run_cons, run_cons, run_nil] at genuine
  generalize sent : airStep mb 0xA1 (startOnAir 20 ⟨fun _ => 1, 1, 0⟩)
    (.send (.getKeyFragmentPdu .zero ⟨fun _ => 1, 1, 0x10⟩)) = state at genuine
  have rotated : replaceKeyIfDue (countPacket (initPayloadEncryption ⟨fun _ => 1, 1, 0⟩))
      ⟨fun _ => 1, 1, 0x10⟩ = some (countPacket (initPayloadEncryption ⟨fun _ => 1, 1, 0⟩)) := rfl
  have step := @senderStep_getKeyFragmentPdu mb
    (.start (initPayloadEncryption ⟨fun _ => 1, 1, 0⟩)) _ _ .zero rotated
  have empty : state.history.km = createNewKeyCollection 20 := by rw [← sent]; rfl
  refine forged_stored 0xA1 state (selfTagged_forgedKeyPdu mb 1 1 (fun _ => 2) 0x20) ?_ ?_ genuine
  · rw [empty]
    exact wanted_create 19 _
  · -- the only fragment that the sender has emitted is its first
    rintro ⟨session, pdu, member, _⟩
    rw [← sent] at member
    simp only [airStep, startOnAir, step, Option.getD_some] at member
    have same := List.mem_singleton.mp member
    simp only [Emission.keyFragment.injEq] at same
    have second := getKeyFragmentIndex_produceKeySessionData 1 1
    exact absurd (second.symm.trans same.2.1) (by decide)

end BleBroadcast.EndToEnd
