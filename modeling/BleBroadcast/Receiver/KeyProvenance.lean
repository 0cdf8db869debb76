import BleBroadcast.Lib.GuardedRun
import BleBroadcast.Receiver.KeyReconstructor

/-!
# Where the fragments of a key come from

An entry of the collection is found by sender and id byte, is free when that
byte is 0, and is claimed with whatever it held.  A run of elements is kept
with the elements whose fragments were stored.  As long as no stored fragment
has the id byte 0 or joins fragments of another id with its byte, every key
passed to the callback is made of four fragments of one sender and one id.
-/

set_option autoImplicit false

namespace BleBroadcast.Receiver

open BleBroadcast.Core BleBroadcast.Lib

structure KeyRecCall where
  keyId : UInt8
  key : Key128b
  macAddress : EspBdAddr

def logKeyRecCall : KeyReconstructionCompleteCb (List KeyRecCall) :=
  fun keyId key macAddress calls => calls ++ [⟨keyId, key, macAddress⟩]

/-- The collection, the elements whose fragments were stored, newest first, and
the calls made, each with the element it was made for. -/
structure CollectionHistory (size : Nat) where
  km : KeyReconstructionCollection size
  stored : List ReconstructorQueueElement
  calls : List (ReconstructorQueueElement × KeyRecCall)

variable {size : Nat}

def CollectionHistory.start (size : Nat) : CollectionHistory size :=
  ⟨createNewKeyCollection size, [], []⟩

/-- There is an entry for the element, without its fragment, and the tag matches. -/
def storesFragment (mb : Mbedtls) (km : KeyReconstructionCollection size)
    (element : ReconstructorQueueElement) : Bool :=
  let present := collectionWithEntry km element
  isKeyInCollection present element.consumerMacAddress element.keyByte &&
    !isKeyFragmentDecrypted present element.consumerMacAddress element.keyByte
      element.keyFragmentNo &&
    element.tagMatches mb

def collectStep (mb : Mbedtls) (history : CollectionHistory size)
    (element : ReconstructorQueueElement) : CollectionHistory size :=
  let (km, made) := handleKeyFragment mb (some logKeyRecCall) (history.km, []) element
  { km := km
    stored :=
      if storesFragment mb history.km element then element :: history.stored else history.stored
    calls := history.calls ++ made.map fun call => (element, call) }

/-- What an element does to the collection does not depend on the callback, and the
callback is called as its log says. -/
theorem handleKeyFragment_calls {σ : Type} (mb : Mbedtls) (cb : KeyReconstructionCompleteCb σ)
    (km : KeyReconstructionCollection size) (state : σ) (element : ReconstructorQueueElement) :
    let logged := handleKeyFragment mb (some logKeyRecCall) (km, []) element
    handleKeyFragment mb (some cb) (km, state) element =
      (logged.1, logged.2.foldl (fun state call => cb call.keyId call.key call.macAddress state)
        state) := by
  simp only [handleKeyFragment, logKeyRecCall, List.nil_append]
  -- the first `if` is the storing of the fragment, the second one the call
  split <;> split <;> simp

theorem handleKeyFragment_log (mb : Mbedtls) (km : KeyReconstructionCollection size)
    (calls : List KeyRecCall) (element : ReconstructorQueueElement) :
    handleKeyFragment mb (some logKeyRecCall) (km, calls) element =
      ((handleKeyFragment mb (some logKeyRecCall) (km, []) element).1,
        calls ++ (handleKeyFragment mb (some logKeyRecCall) (km, []) element).2) := by
  simp only [handleKeyFragment, logKeyRecCall, List.nil_append]
  split <;> split <;> simp

theorem run_collectStep (mb : Mbedtls) (elements : List ReconstructorQueueElement)
    (history : CollectionHistory size) :
    handleKeyFragments mb (some logKeyRecCall) (history.km, history.calls.map Prod.snd) elements =
      ((run (collectStep mb) history elements).km,
        (run (collectStep mb) history elements).calls.map Prod.snd) := by
  induction elements generalizing history with
  | nil => rfl
  | cons element rest ih =>
      rw [run_cons, ← ih, handleKeyFragments, List.foldl_cons, handleKeyFragment_log]
      simp [handleKeyFragments, collectStep, Function.comp_def]

def lastStored (stored : List ReconstructorQueueElement) (mac : EspBdAddr) (keyByte : UInt8) :
    Option ReconstructorQueueElement :=
  stored.find? fun element => element.consumerMacAddress == mac && element.keyByte == keyByte

/-- If the fragment of the element is stored, its id byte is not the mark of a free
entry, and it is the first one in its entry or has the id of the one stored before it. -/
def Unmixed (mb : Mbedtls) (history : CollectionHistory size)
    (element : ReconstructorQueueElement) : Prop :=
  storesFragment mb history.km element = true →
    element.keyByte ≠ 0 ∧
    ((∀ number, isKeyFragmentDecrypted (collectionWithEntry history.km element)
        element.consumerMacAddress element.keyByte number = false) ∨
      (lastStored history.stored element.consumerMacAddress element.keyByte).all
        (fun last => last.keyId == element.keyId) = true)

instance unmixedDecidable (mb : Mbedtls) (history : CollectionHistory size)
    (element : ReconstructorQueueElement) : Decidable (Unmixed mb history element) :=
  inferInstanceAs (Decidable (_ → _ ∧ (_ ∨ _)))

/-- The element brought fragment `number` of session `keyId` of a sender, with its tag. -/
structure Brings (mb : Mbedtls) (element : ReconstructorQueueElement) (mac : EspBdAddr)
    (keyId : UInt16) (number : FragmentNo) : Prop where
  genuine : element.tagMatches mb = true
  sender : element.consumerMacAddress = mac
  session : element.keyId = keyId
  fragment : element.keyFragmentNo = number

/-- The call passes the bytes of four fragments, one fragment after the other, that elements
of the sender and the 14-bit id of the element brought. -/
def Sourced (mb : Mbedtls) (elements : List ReconstructorQueueElement)
    (element : ReconstructorQueueElement) (call : KeyRecCall) : Prop :=
  call.macAddress = element.consumerMacAddress ∧ call.keyId = element.keyByte ∧
  ∃ source : FragmentNo → ReconstructorQueueElement,
    (∀ number, source number ∈ elements ∧
      Brings mb (source number) element.consumerMacAddress element.keyId number) ∧
    ∀ n : Fin 16, call.key n = (source (fragmentOfByte n)).decrypted (placeOfByte n)

def EntrySourced (mb : Mbedtls) (stored : List ReconstructorQueueElement)
    (entry : KeyManagement) : Prop :=
  ∀ number fragment, entry.collected number = some fragment →
    ∃ last, lastStored stored entry.consumerMacAddress entry.keyId = some last ∧
      ∃ source ∈ stored, source.decrypted = fragment ∧
        Brings mb source entry.consumerMacAddress last.keyId number

structure Provenance (mb : Mbedtls) (history : CollectionHistory size) : Prop where
  opens : ∀ i, (history.km i).Open
  free : ∀ i, (history.km i).keyId = 0 → (history.km i).collected = Collector.empty
  distinct : ∀ i j, (history.km i).keyId ≠ 0 → (history.km i).keyId = (history.km j).keyId →
    (history.km i).consumerMacAddress = (history.km j).consumerMacAddress → i = j
  sources : ∀ i, EntrySourced mb history.stored (history.km i)

theorem entrySourced_empty {mb : Mbedtls} {stored : List ReconstructorQueueElement}
    {entry : KeyManagement} (empty : entry.collected = Collector.empty) :
    EntrySourced mb stored entry := by
  intro number fragment absurd
  simp [empty, Collector.empty] at absurd

theorem provenance_start (mb : Mbedtls) : Provenance mb (CollectionHistory.start size) where
  opens := fun _ => open_zero
  free := fun _ _ => collected_zero
  distinct := fun _ _ nonzero => absurd rfl nonzero
  sources := fun _ => entrySourced_empty collected_zero

theorem lastStored_cons_other {element : ReconstructorQueueElement}
    {stored : List ReconstructorQueueElement} {mac : EspBdAddr} {keyByte : UInt8}
    (other : ¬ (keyByte = element.keyByte ∧ mac = element.consumerMacAddress)) :
    lastStored (element :: stored) mac keyByte = lastStored stored mac keyByte := by
  rw [lastStored, List.find?_cons_of_neg]
  · rfl
  · intro both
    simp only [Bool.and_eq_true, beq_iff_eq] at both
    exact other ⟨both.2.symm, both.1.symm⟩

theorem lastStored_cons_self (element : ReconstructorQueueElement)
    (stored : List ReconstructorQueueElement) :
    lastStored (element :: stored) element.consumerMacAddress element.keyByte = some element := by
  simp [lastStored]

section Replace

variable {mb : Mbedtls} {history : CollectionHistory size} (provenance : Provenance mb history)
  {element : ReconstructorQueueElement} {index : Fin size} {entry : KeyManagement}
  (entryFor : EntryFor history.km element index entry)

include provenance entryFor

theorem Provenance.replace {replaced : KeyManagement} {stored : List ReconstructorQueueElement}
    (calls : List (ReconstructorQueueElement × KeyRecCall))
    (isOpen : replaced.Open)
    (free : replaced.keyId = 0 → replaced.collected = Collector.empty)
    (named : replaced.keyId ≠ 0 →
      replaced.keyId = element.keyByte ∧
        replaced.consumerMacAddress = element.consumerMacAddress)
    (grows : stored = history.stored ∨ stored = element :: history.stored)
    (sourced : EntrySourced mb stored replaced) :
    Provenance mb ⟨Function.update history.km index replaced, stored, calls⟩ := by
  have distinct : DistinctEntries history.km := provenance.distinct
  refine ⟨open_update provenance.opens index isOpen,
    (Function.forall_update_iff history.km fun _ entry =>
      entry.keyId = 0 → entry.collected = Collector.empty).mpr
        ⟨free, fun i _ => provenance.free i⟩,
    distinct.replace entryFor named,
    (Function.forall_update_iff history.km fun _ => EntrySourced mb stored).mpr
      ⟨sourced, fun i other => ?_⟩⟩
  intro number fragment collected
  have used : (history.km i).keyId ≠ 0 := by
    intro zero
    simp [provenance.free i zero, Collector.empty] at collected
  obtain ⟨last, lastIs, source, member, brings⟩ := provenance.sources i number fragment collected
  rcases grows with rfl | rfl
  · exact ⟨last, lastIs, source, member, brings⟩
  · have elsewhere := distinct.separated entryFor other used
    exact ⟨last, (lastStored_cons_other elsewhere).trans lastIs, source,
      List.mem_cons_of_mem _ member, brings⟩

theorem Provenance.entrySourced : EntrySourced mb history.stored entry := by
  cases entryFor with
  | there found => exact provenance.sources index
  | claimed missing free =>
      exact entrySourced_empty (provenance.free index free)

theorem Provenance.extended (genuine : element.tagMatches mb = true)
    (session : (∀ number, entry.decryptedKeyFragments number = false) ∨
      (lastStored history.stored element.consumerMacAddress element.keyByte).all
        (fun last => last.keyId == element.keyId) = true) :
    ∀ number fragment,
      (extendedEntry entry element.decrypted element.keyFragmentNo).collected number =
        some fragment →
      ∃ source ∈ element :: history.stored, source.decrypted = fragment ∧
        Brings mb source element.consumerMacAddress element.keyId number := by
  intro number fragment collected
  rw [collected_extendedEntry, Collector.put] at collected
  by_cases own : number = element.keyFragmentNo
  · subst own
    rw [Function.update_self] at collected
    exact ⟨element, List.mem_cons_self, Option.some.inj collected, genuine, rfl, rfl, rfl⟩
  · rw [Function.update_of_ne own] at collected
    obtain ⟨last, lastIs, source, member, same, brings⟩ :=
      provenance.entrySourced entryFor number fragment collected
    obtain ⟨entryId, entryMac⟩ := entryFor.names
    rw [entryId, entryMac] at lastIs
    have sessionIs : last.keyId = element.keyId := by
      rcases session with empty | agrees
      · simp [KeyManagement.collected, empty number] at collected
      · rw [lastIs] at agrees
        simpa using agrees
    exact ⟨source, List.mem_cons_of_mem _ member, same, brings.genuine,
      brings.sender.trans entryMac, brings.session.trans sessionIs, brings.fragment⟩

end Replace

theorem collected_full {entry : KeyManagement} (full : entry.collected.Full)
    (number : FragmentNo) : entry.collected number = some (entry.keyFragments number) := by
  have has := full number
  simp only [KeyManagement.collected] at has ⊢
  split at has
  · rename_i flag
    rw [if_pos flag]
  · simp at has

theorem Provenance.collectStep {mb : Mbedtls} {history : CollectionHistory size}
    (provenance : Provenance mb history) {element : ReconstructorQueueElement}
    (unmixed : Unmixed mb history element) :
    Provenance mb (collectStep mb history element) ∧
      ∀ call ∈ (handleKeyFragment mb (some logKeyRecCall) (history.km, []) element).2,
        element.keyByte ≠ 0 ∧ Sourced mb (element :: history.stored) element call := by
  obtain ⟨missing, present, result⟩ | ⟨index, entry, entryFor, present, outcome⟩ :=
    handleKeyFragment_cases mb logKeyRecCall provenance.opens [] element
  · have notStored : storesFragment mb history.km element = false := by
      simp [storesFragment, present, isKeyInCollection, missing]
    refine ⟨?_, by simp [result]⟩
    simp only [Receiver.collectStep, result, notStored, Bool.false_eq_true, if_false]
    exact ⟨provenance.opens, provenance.free, provenance.distinct, provenance.sources⟩
  · obtain ⟨entryId, entryMac⟩ := entryFor.names
    have found := entryFor.lookup entry entryId entryMac
    have flag := isKeyFragmentDecrypted_found found
    rw [Function.update_self] at flag
    have stores : storesFragment mb history.km element =
        (!entry.decryptedKeyFragments element.keyFragmentNo && element.tagMatches mb) := by
      simp [storesFragment, present, isKeyInCollection, found, flag]
    have isOpen := entryFor.isOpen provenance.opens
    obtain ⟨ignored, result⟩ | ⟨fresh, genuine, outcome⟩ := outcome
    · have notStored : storesFragment mb history.km element = false := by
        rw [stores]
        rcases ignored with there | mismatch
        · simp [there]
        · simp [mismatch]
      refine ⟨?_, by simp [result]⟩
      simp only [Receiver.collectStep, result, notStored, Bool.false_eq_true, if_false]
      refine provenance.replace entryFor _ isOpen ?_ (fun _ => ⟨entryId, entryMac⟩)
        (Or.inl rfl) (provenance.entrySourced entryFor)
      intro zero
      cases entryFor with
      | there found => exact provenance.free index zero
      | claimed _ free => exact provenance.free index free
    · have isStored : storesFragment mb history.km element = true := by
        rw [stores, fresh, genuine]
        rfl
      obtain ⟨nonzero, session⟩ := unmixed isStored
      simp only [present, flag] at session
      have extended := provenance.extended entryFor genuine session
      have sourced : EntrySourced mb (element :: history.stored)
          (extendedEntry entry element.decrypted element.keyFragmentNo) := by
        intro number fragment collected
        obtain ⟨source, member, same, brings⟩ := extended number fragment collected
        refine ⟨element, ?_, source, member, same, ?_⟩
        · simp only [extendedEntry, entryId, entryMac]
          exact lastStored_cons_self element history.stored
        · simp only [extendedEntry, entryMac]
          exact brings
      obtain ⟨notFull, result⟩ | ⟨full, result⟩ := outcome
      · refine ⟨?_, by simp [result]⟩
        simp only [Receiver.collectStep, result, isStored, if_true]
        refine provenance.replace entryFor _ (isOpen.extended element.decrypted fresh notFull) ?_
          (fun _ => ⟨entryId, entryMac⟩) (Or.inr rfl) sourced
        intro zero
        exact absurd (entryId.symm.trans zero) nonzero
      · refine ⟨?_, ?_⟩
        · simp only [Receiver.collectStep, result, isStored, if_true]
          exact provenance.replace entryFor _ open_zero (fun _ => collected_zero)
            (fun absurd => (absurd rfl).elim) (Or.inr rfl) (entrySourced_empty collected_zero)
        · intro call member
          simp only [result, logKeyRecCall, List.nil_append] at member
          obtain rfl := List.mem_singleton.mp member
          choose source sources using fun number =>
            extended number _ (collected_full full number)
          refine ⟨nonzero, rfl, rfl, source,
            fun number => ⟨(sources number).1, (sources number).2.2⟩, ?_⟩
          intro n
          simp only [get128bKeyFromFragments_apply, (sources _).2.1]

theorem Sourced.mono {mb : Mbedtls} {elements more : List ReconstructorQueueElement}
    {element : ReconstructorQueueElement} {call : KeyRecCall}
    (sourced : Sourced mb elements element call) (subset : ∀ e ∈ elements, e ∈ more) :
    Sourced mb more element call := by
  obtain ⟨mac, keyId, source, sources, key⟩ := sourced
  exact ⟨mac, keyId, source,
    fun number => ⟨subset _ (sources number).1, (sources number).2⟩, key⟩

/-- In every run of elements of any senders and ids, with any numbers, repetitions
and wrong tags, in which no stored fragment is mixed in: each key passed to the
callback for an element is made of four fragments that elements of the same
sender and the same 14-bit id brought under their numbers, with matching tags. -/
theorem callback_keys_sourced (mb : Mbedtls) (elements : List ReconstructorQueueElement)
    (unmixed : Guarded (collectStep mb) (Unmixed mb) (CollectionHistory.start size) elements) :
    ∀ made ∈ (run (collectStep mb) (CollectionHistory.start size) elements).calls,
      Sourced mb elements made.1 made.2 := by
  have main : ∀ (rest : List ReconstructorQueueElement) (history : CollectionHistory size),
      Provenance mb history → Guarded (collectStep mb) (Unmixed mb) history rest →
      (∀ element ∈ rest, element ∈ elements) → (∀ element ∈ history.stored, element ∈ elements) →
      (∀ made ∈ history.calls, Sourced mb elements made.1 made.2) →
      ∀ made ∈ (run (collectStep mb) history rest).calls, Sourced mb elements made.1 made.2 := by
    intro rest
    induction rest with
    | nil => exact fun _ _ _ _ _ sourced => sourced
    | cons element rest ih =>
        intro history provenance guarded inRest inStored sourced
        obtain ⟨next, fresh⟩ := provenance.collectStep guarded.1
        have known : ∀ e ∈ element :: history.stored, e ∈ elements := by
          intro e member
          rcases List.mem_cons.mp member with rfl | old
          · exact inRest e List.mem_cons_self
          · exact inStored e old
        refine ih _ next guarded.2 (fun e member => inRest e (List.mem_cons_of_mem _ member))
          ?_ ?_
        · intro e member
          simp only [collectStep] at member
          split at member
          · exact known e member
          · exact inStored e member
        · intro call member
          rcases List.mem_append.mp member with old | new
          · exact sourced call old
          · obtain ⟨c, isNew, rfl⟩ := List.mem_map.mp new
            exact (fresh c isNew).2.mono known
  exact main elements _ (provenance_start mb) unmixed (fun _ member => member)
    (by simp [CollectionHistory.start]) (by simp [CollectionHistory.start])

/-! ## Two sessions that share their id byte -/

/-- Fragment `number` of the key of the session `keyId` of one sender. -/
def keyElement (keyId : UInt16) (key : Key128b) (number : FragmentNo) :
    ReconstructorQueueElement where
  keyId := keyId
  keyFragmentNo := number
  encryptedKeyFragment := xorEncryptKeyFragment (split128bKeyToFragment key number) 0x10
  keyHmac := calculateHmacOfFragment tabulated (split128bKeyToFragment key number)
    (xorEncryptKeyFragment (split128bKeyToFragment key number) 0x10)
  xorSeed := 0x10
  consumerMacAddress := 0xA1

/-- Fragment `number` of a key that repeats `value`. -/
def uniformElement (keyId : UInt16) (value : UInt8) (number : FragmentNo) :
    ReconstructorQueueElement :=
  keyElement keyId (fun _ => value) number

def countingKey : Key128b := fun n => UInt8.ofNat n.val

def uniformFragmentFrame (keyId : UInt16) (value : UInt8) (number : FragmentNo) : List UInt8 :=
  let element := uniformElement keyId value number
  { BeaconKeyPduData.zero with
    marker := myMarker
    cmd := keyFragmentCmd
    bcd :=
      { keySessionData := produceKeySessionData keyId (UInt8.ofNat number.val)
        encKeyFragment := element.encryptedKeyFragment
        xorSeed := element.xorSeed
        keyFragmentHmac := element.keyHmac } : BeaconKeyPduData }.bytes

/-- The four fragments of session 1 complete its key, and all of them are its own. -/
theorem callback_keys_sourced_session_one :
    ((run (collectStep tabulated) (CollectionHistory.start 20)
      ((List.finRange 4).map (keyElement 1 countingKey))).calls.map fun made =>
        (made.2.keyId, List.ofFn made.2.key)) = [(1, (List.range 16).map UInt8.ofNat)] ∧
    ∀ made ∈ (run (collectStep tabulated) (CollectionHistory.start 20)
        ((List.finRange 4).map (keyElement 1 countingKey))).calls,
      Sourced tabulated ((List.finRange 4).map (keyElement 1 countingKey)) made.1 made.2 :=
  ⟨by decide +kernel, callback_keys_sourced tabulated _ (by decide +kernel)⟩

def mixedElements : List ReconstructorQueueElement :=
  [uniformElement 1 1 0, uniformElement 1 1 1, uniformElement 1 1 2, uniformElement 257 2 3]

/-- All their tags match, and the last of these elements makes the callback get a key
that no four elements of session 257 brought. -/
theorem callback_key_mixed :
    ¬ ∀ made ∈ (run (collectStep tabulated) (CollectionHistory.start 20) mixedElements).calls,
      Sourced tabulated mixedElements made.1 made.2 := by
  have called : ((run (collectStep tabulated) (CollectionHistory.start 20)
      mixedElements).calls.map fun made => made.1.keyId) = [257] := by
    decide +kernel
  have noneBrought : ∀ element ∈ mixedElements, element.keyId = 257 →
      element.keyFragmentNo ≠ 0 := by
    decide +kernel
  obtain ⟨made, member, session⟩ :=
    List.mem_map.mp (called ▸ List.mem_singleton_self (257 : UInt16))
  intro sourced
  obtain ⟨_, _, source, sources, _⟩ := sourced made member
  obtain ⟨inRun, brings⟩ := sources 0
  exact noneBrought _ inRun (brings.session.trans session) brings.fragment

end BleBroadcast.Receiver
