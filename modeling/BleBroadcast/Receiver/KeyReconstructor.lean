import BleBroadcast.Lib.SlotTable
import BleBroadcast.Receiver.KeyManagement

/-!
# The key reconstructor

Model of `key_reconstructor.c`: a queue of received fragments and the handler
that takes them from it in batches.  The id of an element has 16 bits; every
function of the key management takes it through a `uint8_t` parameter.  The
registered callback acts on a state of its own, `σ`.
-/

set_option autoImplicit false

namespace BleBroadcast.Receiver

open BleBroadcast.Core BleBroadcast.Lib

universe u

structure ReconstructorQueueElement where
  keyId : UInt16
  keyFragmentNo : FragmentNo
  encryptedKeyFragment : KeyFragment
  keyHmac : Hmac
  xorSeed : UInt8
  consumerMacAddress : EspBdAddr

abbrev KeyReconstructionCompleteCb (σ : Type u) := UInt8 → Key128b → EspBdAddr → σ → σ

structure KeyReconstructorControl (size : Nat) where
  xQueueKeyReconstruction : List ReconstructorQueueElement
  keyCollection : KeyReconstructionCollection size

inductive ReconstructionQueueingStatus where
  | queuedSuccess
  | queuedFailedNoSpace
  | queuedFailedKeyAlreadyReconstructed
  deriving DecidableEq

abbrev maxElementsInQueue : Nat := 15

abbrev maxKeyProcessesAtOnce : Nat := 20

variable {size : Nat} {σ : Type u}

/-- `init_reconstructor_resources`. -/
def startUpKeyReconstructor (size : Nat) : KeyReconstructorControl size where
  xQueueKeyReconstruction := []
  keyCollection := createNewKeyCollection size

/-- The byte of the id that the key management sees. -/
abbrev ReconstructorQueueElement.keyByte (element : ReconstructorQueueElement) : UInt8 :=
  element.keyId.toUInt8

def ReconstructorQueueElement.decrypted (element : ReconstructorQueueElement) : KeyFragment :=
  xorDecryptKeyFragment element.encryptedKeyFragment element.xorSeed

def ReconstructorQueueElement.tagMatches (mb : Mbedtls) (element : ReconstructorQueueElement) :
    Bool :=
  cryptoSecureMemcmp
    (calculateHmacOfFragment mb element.decrypted element.encryptedKeyFragment)
    element.keyHmac == 0

def processAndStoreKeyFragment (mb : Mbedtls) (km : KeyReconstructionCollection size)
    (element : ReconstructorQueueElement) : KeyReconstructionCollection size :=
  if element.tagMatches mb then
    addFragmentToKeyManagement km element.consumerMacAddress element.keyByte element.decrypted
      element.keyFragmentNo
  else km

/-- The claim of an entry for an element that has none. -/
def collectionWithEntry (km : KeyReconstructionCollection size)
    (element : ReconstructorQueueElement) : KeyReconstructionCollection size :=
  if isKeyInCollection km element.consumerMacAddress element.keyByte then km
  else (addNewKeyToCollection km element.consumerMacAddress element.keyByte).2

/-- The body of the loop of `handle_event_new_key_fragment_in_queue`. -/
def handleKeyFragment (mb : Mbedtls) (keyRecCb : Option (KeyReconstructionCompleteCb σ))
    (state : KeyReconstructionCollection size × σ) (element : ReconstructorQueueElement) :
    KeyReconstructionCollection size × σ :=
  let mac := element.consumerMacAddress
  let present := collectionWithEntry state.1 element
  let stored :=
    if isKeyFragmentDecrypted present mac element.keyByte element.keyFragmentNo then present
    else processAndStoreKeyFragment mb present element
  if isKeyAvailable stored mac element.keyByte then
    let (_, key, rebuilt) :=
      reconstructKeyFromKeyFragments stored (fun _ => 0) mac element.keyByte
    match keyRecCb with
    | some cb =>
        (removeKeyFromCollection rebuilt mac element.keyByte, cb element.keyByte key mac state.2)
    | none => (rebuilt, state.2)
  else (stored, state.2)

def handleKeyFragments (mb : Mbedtls) (keyRecCb : Option (KeyReconstructionCompleteCb σ))
    (state : KeyReconstructionCollection size × σ) (batch : List ReconstructorQueueElement) :
    KeyReconstructionCollection size × σ :=
  batch.foldl (handleKeyFragment mb keyRecCb) state

/-- `handle_event_new_key_fragment_in_queue`: a batch of at most 20 elements. -/
def handleEventNewKeyFragmentInQueue (mb : Mbedtls)
    (keyRecCb : Option (KeyReconstructionCompleteCb σ))
    (control : KeyReconstructorControl size) (state : σ) : KeyReconstructorControl size × σ :=
  let batch := control.xQueueKeyReconstruction.take maxKeyProcessesAtOnce
  let (km, after) := handleKeyFragments mb keyRecCb (control.keyCollection, state) batch
  ({ xQueueKeyReconstruction := control.xQueueKeyReconstruction.drop maxKeyProcessesAtOnce
     keyCollection := km }, after)

/-- `queue_key_for_reconstruction`.  The queue is not drained during its retries. -/
def queueKeyForReconstruction (control : KeyReconstructorControl size)
    (element : ReconstructorQueueElement) :
    ReconstructionQueueingStatus × KeyReconstructorControl size :=
  let mac := element.consumerMacAddress
  if isKeyAvailable control.keyCollection mac element.keyByte then
    (.queuedFailedKeyAlreadyReconstructed, control)
  else if isKeyFragmentDecrypted control.keyCollection mac element.keyByte
      element.keyFragmentNo then
    (.queuedSuccess, control)
  else if control.xQueueKeyReconstruction.length < maxElementsInQueue then
    (.queuedSuccess, { control with
      xQueueKeyReconstruction := control.xQueueKeyReconstruction ++ [element] })
  else (.queuedFailedNoSpace, control)

/-! ## One element -/

theorem ReconstructorQueueElement.tagMatches_iff (mb : Mbedtls)
    (element : ReconstructorQueueElement) :
    element.tagMatches mb = true ↔
      element.keyHmac =
        calculateHmacOfFragment mb element.decrypted element.encryptedKeyFragment := by
  simp only [tagMatches, beq_iff_eq, cryptoSecureMemcmp_eq_zero]
  exact eq_comm

inductive EntryFor (km : KeyReconstructionCollection size)
    (element : ReconstructorQueueElement) (index : Fin size) : KeyManagement → Prop where
  | there (found : getKeyIndexInCollection km element.consumerMacAddress element.keyByte =
      some index) : EntryFor km element index (km index)
  | claimed (missing : getKeyIndexInCollection km element.consumerMacAddress element.keyByte =
      none) (free : (km index).keyId = 0) :
      EntryFor km element index
        (claimedEntry (km index) element.consumerMacAddress element.keyByte)

theorem EntryFor.names {km : KeyReconstructionCollection size}
    {element : ReconstructorQueueElement} {index : Fin size} {entry : KeyManagement}
    (entryFor : EntryFor km element index entry) :
    entry.keyId = element.keyByte ∧ entry.consumerMacAddress = element.consumerMacAddress := by
  cases entryFor with
  | there found => exact getKeyIndex_some found
  | claimed missing free => exact ⟨rfl, rfl⟩

theorem EntryFor.isOpen {km : KeyReconstructionCollection size}
    {element : ReconstructorQueueElement} {index : Fin size} {entry : KeyManagement}
    (entryFor : EntryFor km element index entry) (opens : ∀ i, (km i).Open) : entry.Open := by
  cases entryFor with
  | there found => exact opens index
  | claimed missing free => exact (opens index).claimed _ _

theorem EntryFor.lookup {km : KeyReconstructionCollection size}
    {element : ReconstructorQueueElement} {index : Fin size} {entry : KeyManagement}
    (entryFor : EntryFor km element index entry) (replaced : KeyManagement)
    (sameId : replaced.keyId = element.keyByte)
    (sameMac : replaced.consumerMacAddress = element.consumerMacAddress) :
    getKeyIndexInCollection (Function.update km index replaced) element.consumerMacAddress
      element.keyByte = some index := by
  cases entryFor with
  | there found => exact getKeyIndex_update found sameId sameMac
  | claimed missing free => exact getKeyIndex_update_fresh index missing sameId sameMac

def DistinctEntries (km : KeyReconstructionCollection size) : Prop :=
  ∀ i j, (km i).keyId ≠ 0 → (km i).keyId = (km j).keyId →
    (km i).consumerMacAddress = (km j).consumerMacAddress → i = j

section
variable {km : KeyReconstructionCollection size} {element : ReconstructorQueueElement}
  {index : Fin size} {entry replaced : KeyManagement}

theorem open_update (opens : ∀ i, (km i).Open) (index : Fin size) (isOpen : replaced.Open) :
    ∀ i, (Function.update km index replaced i).Open :=
  (Function.forall_update_iff km fun _ entry => entry.Open).mpr ⟨isOpen, fun i _ => opens i⟩

theorem DistinctEntries.separated (distinct : DistinctEntries km)
    (entryFor : EntryFor km element index entry) {j : Fin size} (other : j ≠ index)
    (used : (km j).keyId ≠ 0) :
    ¬ ((km j).keyId = element.keyByte ∧
      (km j).consumerMacAddress = element.consumerMacAddress) := by
  rintro ⟨sameId, sameMac⟩
  cases entryFor with
  | there found =>
      obtain ⟨id, mac⟩ := getKeyIndex_some found
      exact other (distinct j index used (sameId.trans id.symm) (sameMac.trans mac.symm))
  | claimed missing free => exact getKeyIndex_none.mp missing j sameId sameMac

theorem DistinctEntries.replace (distinct : DistinctEntries km)
    (entryFor : EntryFor km element index entry)
    (named : replaced.keyId ≠ 0 → replaced.keyId = element.keyByte ∧
      replaced.consumerMacAddress = element.consumerMacAddress) :
    DistinctEntries (Function.update km index replaced) := by
  intro i j used sameId sameMac
  refine apart_update (fun (first second : KeyManagement) => first.keyId ≠ 0 ∧
      first.keyId = second.keyId ∧ first.consumerMacAddress = second.consumerMacAddress)
    (fun i j same => distinct i j same.1 same.2.1 same.2.2) ?_ ?_ i j ⟨used, sameId, sameMac⟩
  · rintro i other ⟨used, sameId, sameMac⟩
    obtain ⟨id, mac⟩ := named (sameId ▸ used)
    exact distinct.separated entryFor other used ⟨sameId.trans id, sameMac.trans mac⟩
  · rintro i other ⟨used, sameId, sameMac⟩
    obtain ⟨id, mac⟩ := named used
    exact distinct.separated entryFor other (sameId ▸ used)
      ⟨sameId.symm.trans id, sameMac.symm.trans mac⟩

end

theorem collectionWithEntry_cases (km : KeyReconstructionCollection size)
    (element : ReconstructorQueueElement) :
    (∃ index entry, EntryFor km element index entry ∧
      collectionWithEntry km element = Function.update km index entry) ∨
    (getKeyIndexInCollection km element.consumerMacAddress element.keyByte = none ∧
      (∀ i, (km i).keyId ≠ 0) ∧ collectionWithEntry km element = km) := by
  cases found : getKeyIndexInCollection km element.consumerMacAddress element.keyByte with
  | some index =>
      refine Or.inl ⟨index, km index, .there found, ?_⟩
      simp [collectionWithEntry, isKeyInCollection, found]
  | none =>
      have claims : collectionWithEntry km element =
          (addNewKeyToCollection km element.consumerMacAddress element.keyByte).2 := by
        simp [collectionWithEntry, isKeyInCollection, found]
      cases free : Fin.find? fun i => (km i).keyId == 0 with
      | none =>
          refine Or.inr ⟨rfl, by simpa using free, ?_⟩
          rw [claims]
          simp only [addNewKeyToCollection, free]
      | some index =>
          have zero : (km index).keyId = 0 := by simpa using Fin.eq_true_of_find?_eq_some free
          refine Or.inl ⟨index, _, .claimed found zero, ?_⟩
          rw [claims]
          simp only [addNewKeyToCollection, free]

section Element

variable (mb : Mbedtls) (cb : KeyReconstructionCompleteCb σ)
  {km : KeyReconstructionCollection size} (state : σ) {element : ReconstructorQueueElement}
  {index : Fin size} {entry : KeyManagement}

theorem handleKeyFragment_missing
    (missing : getKeyIndexInCollection km element.consumerMacAddress element.keyByte = none)
    (present : collectionWithEntry km element = km) :
    handleKeyFragment mb (some cb) (km, state) element = (km, state) := by
  have unchanged : processAndStoreKeyFragment mb km element = km := by
    simp only [processAndStoreKeyFragment, addFragmentToKeyManagement, missing]
    split <;> rfl
  simp only [handleKeyFragment, present, isKeyFragmentDecrypted, isKeyAvailable, missing,
    Bool.false_eq_true, if_false, unchanged]

theorem handleKeyFragment_kept (entryFor : EntryFor km element index entry)
    (isOpen : entry.Open)
    (present : collectionWithEntry km element = Function.update km index entry)
    (kept : entry.decryptedKeyFragments element.keyFragmentNo = true ∨
      element.tagMatches mb = false) :
    handleKeyFragment mb (some cb) (km, state) element =
      (Function.update km index entry, state) := by
  obtain ⟨entryId, entryMac⟩ := entryFor.names
  have found := entryFor.lookup entry entryId entryMac
  have flag := isKeyFragmentDecrypted_found found element.keyFragmentNo
  have notAvailable := isKeyAvailable_found found
  rw [Function.update_self] at flag notAvailable
  rw [beq_eq_false_iff_ne.mpr isOpen.unfinished] at notAvailable
  have stored : (if entry.decryptedKeyFragments element.keyFragmentNo then
      Function.update km index entry
      else processAndStoreKeyFragment mb (Function.update km index entry) element) =
        Function.update km index entry := by
    rcases kept with taken | forged
    · rw [if_pos taken]
    · rw [processAndStoreKeyFragment, forged, if_neg Bool.false_ne_true, ite_self]
  simp only [handleKeyFragment, present, flag, stored, notAvailable, Bool.false_eq_true,
    if_false]

theorem handleKeyFragment_stored (entryFor : EntryFor km element index entry)
    (isOpen : entry.Open)
    (present : collectionWithEntry km element = Function.update km index entry)
    (fresh : entry.decryptedKeyFragments element.keyFragmentNo = false)
    (genuine : element.tagMatches mb = true) :
    let extended := extendedEntry entry element.decrypted element.keyFragmentNo
    (¬ extended.collected.Full ∧
      handleKeyFragment mb (some cb) (km, state) element =
        (Function.update km index extended, state)) ∨
    (extended.collected.Full ∧
      handleKeyFragment mb (some cb) (km, state) element =
        (Function.update km index KeyManagement.zero,
          cb element.keyByte (get128bKeyFromFragments extended.keyFragments)
            element.consumerMacAddress state)) := by
  intro extended
  obtain ⟨entryId, entryMac⟩ := entryFor.names
  have found := entryFor.lookup entry entryId entryMac
  have flag := isKeyFragmentDecrypted_found found element.keyFragmentNo
  rw [Function.update_self, fresh] at flag
  have stored : processAndStoreKeyFragment mb (Function.update km index entry) element =
      Function.update km index extended := by
    rw [processAndStoreKeyFragment, if_pos genuine, addFragmentToKeyManagement_found found,
      Function.update_self, Function.update_idem]
  have foundStored := entryFor.lookup extended entryId entryMac
  have available := isKeyAvailable_found foundStored
  rw [Function.update_self] at available
  have finished : extended.noCollectedKeyFragments = 4 ↔ extended.collected.Full :=
    finished_iff (counted_extendedEntry isOpen element.decrypted fresh)
  by_cases isFull : extended.collected.Full
  · have four := finished.mpr isFull
    have assembled := reconstructKeyFromKeyFragments_found foundStored (fun _ => 0)
      (by rw [Function.update_self]; exact four)
    rw [Function.update_self, Function.update_idem] at assembled
    have emptied := removeKeyFromCollection_found (entryFor.lookup
      { extended with key := get128bKeyFromFragments extended.keyFragments } entryId entryMac)
    rw [Function.update_idem] at emptied
    rw [beq_iff_eq.mpr four] at available
    refine Or.inr ⟨isFull, ?_⟩
    simp only [handleKeyFragment, present, flag, Bool.false_eq_true, if_false, stored,
      available, if_true, assembled, emptied]
  · rw [beq_eq_false_iff_ne.mpr fun four => isFull (finished.mp four)] at available
    refine Or.inl ⟨isFull, ?_⟩
    simp only [handleKeyFragment, present, flag, Bool.false_eq_true, if_false, stored,
      available]

end Element

/-- What an element does to a collection of open entries.  It may find no entry;
it may leave its entry as it is, if the fragment is there already or the tag does
not match; it may add its fragment; and if that was the last one, its entry is
emptied and the callback gets the key. -/
theorem handleKeyFragment_cases (mb : Mbedtls) (cb : KeyReconstructionCompleteCb σ)
    {km : KeyReconstructionCollection size} (opens : ∀ i, (km i).Open) (state : σ)
    (element : ReconstructorQueueElement) :
    (getKeyIndexInCollection km element.consumerMacAddress element.keyByte = none ∧
      collectionWithEntry km element = km ∧
      handleKeyFragment mb (some cb) (km, state) element = (km, state)) ∨
    ∃ index entry, EntryFor km element index entry ∧
      collectionWithEntry km element = Function.update km index entry ∧
      (((entry.decryptedKeyFragments element.keyFragmentNo = true ∨
          element.tagMatches mb = false) ∧
        handleKeyFragment mb (some cb) (km, state) element =
          (Function.update km index entry, state)) ∨
      (entry.decryptedKeyFragments element.keyFragmentNo = false ∧
        element.tagMatches mb = true ∧
        ((¬ (extendedEntry entry element.decrypted element.keyFragmentNo).collected.Full ∧
          handleKeyFragment mb (some cb) (km, state) element =
            (Function.update km index
              (extendedEntry entry element.decrypted element.keyFragmentNo), state)) ∨
        ((extendedEntry entry element.decrypted element.keyFragmentNo).collected.Full ∧
          handleKeyFragment mb (some cb) (km, state) element =
            (Function.update km index KeyManagement.zero,
              cb element.keyByte
                (get128bKeyFromFragments
                  (extendedEntry entry element.decrypted element.keyFragmentNo).keyFragments)
                element.consumerMacAddress state))))) := by
  obtain ⟨index, entry, entryFor, present⟩ | ⟨missing, _, present⟩ :=
    collectionWithEntry_cases km element
  · have isOpen := entryFor.isOpen opens
    refine Or.inr ⟨index, entry, entryFor, present, ?_⟩
    by_cases kept : entry.decryptedKeyFragments element.keyFragmentNo = true ∨
        element.tagMatches mb = false
    · exact Or.inl ⟨kept, handleKeyFragment_kept mb cb state entryFor isOpen present kept⟩
    · obtain ⟨notTaken, notForged⟩ := not_or.mp kept
      have fresh := Bool.eq_false_of_not_eq_true notTaken
      have genuine := Bool.eq_true_of_not_eq_false notForged
      exact Or.inr ⟨fresh, genuine,
        handleKeyFragment_stored mb cb state entryFor isOpen present fresh genuine⟩
  · exact Or.inl ⟨missing, present, handleKeyFragment_missing mb cb state missing present⟩

theorem handleKeyFragment_keeps (mb : Mbedtls) {cb : KeyReconstructionCompleteCb σ}
    {kept : σ → Prop} (keep : ∀ keyId key mac state, kept state → kept (cb keyId key mac state))
    (km : KeyReconstructionCollection size) {state : σ} (initial : kept state)
    (element : ReconstructorQueueElement) :
    kept (handleKeyFragment mb (some cb) (km, state) element).2 := by
  simp only [handleKeyFragment]
  generalize (if isKeyFragmentDecrypted _ _ _ _ then _ else _ :
    KeyReconstructionCollection size) = stored
  split
  · exact keep _ _ _ _ initial
  · exact initial

theorem handleEventNewKeyFragmentInQueue_keeps (mb : Mbedtls)
    {cb : KeyReconstructionCompleteCb σ} (kept : σ → Prop)
    (keep : ∀ keyId key mac state, kept state → kept (cb keyId key mac state))
    (control : KeyReconstructorControl size) {state : σ} (initial : kept state) :
    kept (handleEventNewKeyFragmentInQueue mb (some cb) control state).2 := by
  have run : ∀ (batch : List ReconstructorQueueElement) (km : KeyReconstructionCollection size)
      (state : σ), kept state → kept (handleKeyFragments mb (some cb) (km, state) batch).2 := by
    intro batch
    induction batch with
    | nil => exact fun _ _ initial => initial
    | cons element rest ih =>
        intro km state initial
        exact ih _ _ (handleKeyFragment_keeps mb keep km initial element)
  exact run _ _ _ initial

end BleBroadcast.Receiver
