import BleBroadcast.Lib.GuardedRun
import BleBroadcast.Receiver.CollectionRoom

/-!
# Collecting for each key on its own

The entries of the collection are shared by all senders and sessions.  As long as an element
finds an entry for its key, or a free one, each key is collected as if it were the only one:
the first valid fragment under each number, until there are four.
-/

set_option autoImplicit false

namespace BleBroadcast.Receiver

open BleBroadcast.Core BleBroadcast.Lib

variable {size : Nat}

def HasRoom (state : KeyReconstructionCollection size × List KeyRecCall)
    (element : ReconstructorQueueElement) : Prop :=
  isKeyInCollection state.1 element.consumerMacAddress element.keyByte = true ∨
    ∃ i, (state.1 i).keyId = 0

instance hasRoomDecidable (state : KeyReconstructionCollection size × List KeyRecCall)
    (element : ReconstructorQueueElement) : Decidable (HasRoom state element) :=
  inferInstanceAs (Decidable (_ ∨ _))

abbrev NeverFull (mb : Mbedtls)
    (state : KeyReconstructionCollection size × List KeyRecCall)
    (elements : List ReconstructorQueueElement) : Prop :=
  Guarded (handleKeyFragment mb (some logKeyRecCall)) HasRoom state elements

structure CollectionInOrder (km : KeyReconstructionCollection size) : Prop where
  counted : ∀ i, (km i).noCollectedKeyFragments =
    (Finset.univ.filter fun number => (km i).decryptedKeyFragments number = true).card
  unclaimed : ∀ i, (km i).keyId = 0 → km i = KeyManagement.zero
  distinct : DistinctEntries km

/-! ## One collector -/

def ownElements (mac : EspBdAddr) (keyByte : UInt8) (elements : List ReconstructorQueueElement) :
    List ReconstructorQueueElement :=
  elements.filter fun element => element.IsFor mac keyByte

def callsFor (mac : EspBdAddr) (keyByte : UInt8) (calls : List KeyRecCall) : List KeyRecCall :=
  calls.filter fun call => call.macAddress = mac ∧ call.keyId = keyByte

/-- The call for a full collector: its fragments one after the other, four bytes each. -/
def callOf (mac : EspBdAddr) (keyByte : UInt8) (collector : Collector FragmentNo KeyFragment) :
    KeyRecCall where
  keyId := keyByte
  key := fun n => (collector (fragmentOfByte n)).getD (fun _ => 0) (placeOfByte n)
  macAddress := mac

/-- The calls of a collector of its own that is offered the valid fragments for the key. -/
def collectorCalls (mb : Mbedtls) (mac : EspBdAddr) (keyByte : UInt8)
    (since : List (FragmentNo × KeyFragment)) (elements : List ReconstructorQueueElement) :
    List KeyRecCall :=
  (Collector.rounds since (genuineFragments mb (ownElements mac keyByte elements))).map
    (callOf mac keyByte)

/-! ## The invariant -/

structure CollectionSound (km : KeyReconstructionCollection size) : Prop where
  opens : ∀ i, (km i).Open
  unclaimed : ∀ i, (km i).keyId = 0 → km i = KeyManagement.zero
  distinct : DistinctEntries km

theorem collectionSound_create (size : Nat) : CollectionSound (createNewKeyCollection size) where
  opens := fun _ => open_zero
  unclaimed := fun _ _ => rfl
  distinct := fun _ _ used => absurd rfl used

section
variable {km : KeyReconstructionCollection size}

theorem CollectionSound.tidy (sound : CollectionSound km) : Tidy km where
  opens := sound.opens
  free := by
    intro i zero
    rw [sound.unclaimed i zero]
    exact collected_zero

theorem CollectionSound.inOrder (sound : CollectionSound km) : CollectionInOrder km where
  counted := by
    intro i
    rw [(sound.opens i).counted, Collector.count]
    congr 1
    ext number
    simp only [Finset.mem_filter, Finset.mem_univ, true_and, KeyManagement.collected]
    cases flag : (km i).decryptedKeyFragments number <;> simp [flag]
  unclaimed := sound.unclaimed
  distinct := sound.distinct

theorem CollectionSound.replace (sound : CollectionSound km) {index : Fin size}
    {element : ReconstructorQueueElement} {entry replaced : KeyManagement}
    (entryFor : EntryFor km element index entry) (isOpen : replaced.Open)
    (zero : replaced.keyId = 0 → replaced = KeyManagement.zero)
    (named : replaced.keyId ≠ 0 → replaced.keyId = element.keyByte ∧
      replaced.consumerMacAddress = element.consumerMacAddress) :
    CollectionSound (Function.update km index replaced) where
  opens := open_update sound.opens index isOpen
  unclaimed := (Function.forall_update_iff km
    fun _ entry => entry.keyId = 0 → entry = KeyManagement.zero).mpr
      ⟨zero, fun i _ => sound.unclaimed i⟩
  distinct := sound.distinct.replace entryFor named

theorem CollectionSound.step (mb : Mbedtls) (sound : CollectionSound km)
    (calls : List KeyRecCall) {element : ReconstructorQueueElement}
    (nonzero : element.keyByte ≠ 0) :
    CollectionSound (handleKeyFragment mb (some logKeyRecCall) (km, calls) element).1 := by
  obtain ⟨_, _, step⟩ |
      ⟨index, _, entryFor, ⟨_, _, isOpen, sameId, sameMac, _, step⟩ | ⟨_, _, step⟩⟩ :=
    handleKeyFragment_collected mb logKeyRecCall sound.opens calls element
  · rw [step]
    exact sound
  · rw [step]
    exact sound.replace entryFor isOpen (fun zero => absurd (sameId.symm.trans zero) nonzero)
      fun _ => ⟨sameId, sameMac⟩
  · rw [step]
    exact sound.replace entryFor open_zero (fun _ => rfl) fun used => absurd rfl used

theorem collectedSoFar_create (size : Nat) (mac : EspBdAddr) (keyByte : UInt8) :
    collectedSoFar (createNewKeyCollection size) mac keyByte = Collector.firsts [] := by
  unfold collectedSoFar collectedFor
  cases getKeyIndexInCollection (createNewKeyCollection size) mac keyByte <;> rfl

theorem collectedSoFar_notFull (opens : ∀ i, (km i).Open) (mac : EspBdAddr) (keyByte : UInt8) :
    ¬ (collectedSoFar km mac keyByte).Full := by
  intro full
  unfold collectedSoFar collectedFor at full
  cases found : getKeyIndexInCollection km mac keyByte with
  | none =>
      rw [found] at full
      simpa [Collector.empty] using full 0
  | some index =>
      rw [found] at full
      exact (opens index).unfinished ((finished_iff (opens index).counted).mpr full)

end

theorem CollectionSound.run (mb : Mbedtls) (elements : List ReconstructorQueueElement) :
    ∀ (km : KeyReconstructionCollection size) (calls : List KeyRecCall), CollectionSound km →
      (∀ element ∈ elements, element.keyByte ≠ 0) →
      CollectionSound (handleKeyFragments mb (some logKeyRecCall) (km, calls) elements).1 := by
  induction elements with
  | nil => exact fun _ _ sound _ => sound
  | cons element rest ih =>
      intro km calls sound bytes
      exact ih _ _ (sound.step mb calls (bytes element List.mem_cons_self))
        fun other member => bytes other (List.mem_cons_of_mem _ member)

/-! ## The calls for a key -/

theorem callsFor_append (mac : EspBdAddr) (keyByte : UInt8) (first second : List KeyRecCall) :
    callsFor mac keyByte (first ++ second) =
      callsFor mac keyByte first ++ callsFor mac keyByte second := List.filter_append ..

section
variable {mb : Mbedtls} {mac : EspBdAddr} {keyByte : UInt8}

theorem genuineFragments_cons (element : ReconstructorQueueElement)
    (rest : List ReconstructorQueueElement) :
    genuineFragments mb (element :: rest) =
      (if element.tagMatches mb then [(element.keyFragmentNo, element.decrypted)] else []) ++
        genuineFragments mb rest := by
  by_cases genuine : element.tagMatches mb = true
  · simp [genuineFragments, genuine]
  · simp [genuineFragments, genuine]

theorem ownElements_cons {element : ReconstructorQueueElement}
    (own : element.IsFor mac keyByte) (rest : List ReconstructorQueueElement) :
    ownElements mac keyByte (element :: rest) = element :: ownElements mac keyByte rest :=
  List.filter_cons_of_pos (decide_eq_true own)

theorem collectorCalls_forged {element : ReconstructorQueueElement}
    (forged : ¬ element.tagMatches mb = true) (since : List (FragmentNo × KeyFragment))
    (rest : List ReconstructorQueueElement) :
    collectorCalls mb mac keyByte since (element :: rest) =
      collectorCalls mb mac keyByte since rest := by
  by_cases own : element.IsFor mac keyByte
  · rw [collectorCalls, ownElements_cons own, genuineFragments_cons, if_neg forged,
      List.nil_append, collectorCalls]
  · simp [collectorCalls, ownElements, own]

theorem collectorCalls_missing {element : ReconstructorQueueElement}
    (own : element.IsFor mac keyByte) (genuine : element.tagMatches mb = true)
    {since : List (FragmentNo × KeyFragment)}
    (notFull : ¬ (Collector.firsts
      (since ++ [(element.keyFragmentNo, element.decrypted)])).Full)
    (rest : List ReconstructorQueueElement) :
    collectorCalls mb mac keyByte since (element :: rest) =
      collectorCalls mb mac keyByte (since ++ [(element.keyFragmentNo, element.decrypted)])
        rest := by
  rw [collectorCalls, ownElements_cons own, genuineFragments_cons, if_pos genuine,
    List.singleton_append, Collector.rounds_cons_missing notFull, collectorCalls]

theorem collectorCalls_full {element : ReconstructorQueueElement}
    (own : element.IsFor mac keyByte) (genuine : element.tagMatches mb = true)
    {since : List (FragmentNo × KeyFragment)} {fragments : FragmentNo → KeyFragment}
    (isFull : ∀ number, Collector.firsts
      (since ++ [(element.keyFragmentNo, element.decrypted)]) number = some (fragments number))
    (rest : List ReconstructorQueueElement) :
    collectorCalls mb mac keyByte since (element :: rest) =
      ⟨keyByte, get128bKeyFromFragments fragments, mac⟩ ::
        collectorCalls mb mac keyByte [] rest := by
  have full : (Collector.firsts
      (since ++ [(element.keyFragmentNo, element.decrypted)])).Full := fun number => by
    rw [isFull number]
    rfl
  rw [collectorCalls, ownElements_cons own, genuineFragments_cons, if_pos genuine,
    List.singleton_append, Collector.rounds_cons_full full, List.map_cons, collectorCalls]
  simp only [callOf, isFull, Option.getD_some]
  rfl

def CollectorTurn (mb : Mbedtls) (mac : EspBdAddr) (keyByte : UInt8)
    (since : List (FragmentNo × KeyFragment))
    (result : KeyReconstructionCollection size × List KeyRecCall)
    (element : ReconstructorQueueElement) : Prop :=
  ∃ sinceNext, collectedSoFar result.1 mac keyByte = Collector.firsts sinceNext ∧
    ∀ rest, collectorCalls mb mac keyByte since (element :: rest) =
      callsFor mac keyByte result.2 ++ collectorCalls mb mac keyByte sinceNext rest

theorem collector_own {km : KeyReconstructionCollection size} (nonzero : keyByte ≠ 0)
    (sound : CollectionSound km) {element : ReconstructorQueueElement}
    (own : element.IsFor mac keyByte) (room : HasRoom (km, []) element)
    {since : List (FragmentNo × KeyFragment)}
    (soFar : collectedSoFar km mac keyByte = Collector.firsts since) :
    CollectorTurn mb mac keyByte since
      (handleKeyFragment mb (some logKeyRecCall) (km, []) element) element := by
  obtain ⟨none, noneFree, _⟩ | ⟨_, outcome⟩ := handleKeyFragment_own mb sound.tidy own
  · obtain ⟨rfl, rfl⟩ := own
    rw [collectedFor, Option.map_eq_none_iff] at none
    rcases room with there | ⟨i, free⟩
    · simp [isKeyInCollection, none] at there
    · exact absurd free (noneFree i)
  · rw [soFar] at outcome
    by_cases genuine : element.tagMatches mb = true
    · rw [collectedAfter, if_pos genuine, Collector.offer_firsts] at outcome
      obtain ⟨notFull, soFarNext, _, noCall⟩ | ⟨fragments, isFull, called, emptied⟩ := outcome
      · refine ⟨_, soFarNext, fun rest => ?_⟩
        rw [collectorCalls_missing own genuine notFull, noCall]
        rfl
      · refine ⟨[], ?_, fun rest => ?_⟩
        · rw [collectedSoFar, emptied sound.distinct nonzero]
          rfl
        · rw [collectorCalls_full own genuine isFull, called]
          simp [callsFor]
    · rw [collectedAfter, if_neg genuine] at outcome
      obtain ⟨_, soFarNext, _, noCall⟩ | ⟨fragments, isFull, _⟩ := outcome
      · refine ⟨since, soFarNext, fun rest => ?_⟩
        rw [collectorCalls_forged genuine, noCall]
        rfl
      · have notFull := collectedSoFar_notFull sound.opens mac keyByte
        rw [soFar] at notFull
        exact absurd (fun number => by rw [isFull number]; rfl) notFull

theorem collector_other {km : KeyReconstructionCollection size} (nonzero : keyByte ≠ 0)
    (sound : CollectionSound km) {element : ReconstructorQueueElement}
    (other : ¬ element.IsFor mac keyByte) {since : List (FragmentNo × KeyFragment)}
    (soFar : collectedSoFar km mac keyByte = Collector.firsts since) :
    CollectorTurn mb mac keyByte since
      (handleKeyFragment mb (some logKeyRecCall) (km, []) element) element := by
  obtain ⟨same, notOwn⟩ := handleKeyFragment_other mb sound.tidy nonzero other
  have noCall : callsFor mac keyByte
      (handleKeyFragment mb (some logKeyRecCall) (km, []) element).2 = [] := by
    refine List.filter_eq_nil_iff.mpr fun call member => ?_
    simpa using notOwn call member
  refine ⟨since, by rw [collectedSoFar, same]; exact soFar, fun rest => ?_⟩
  rw [noCall]
  simp [collectorCalls, ownElements, other]

/-- The calls for a key are those of a collector that goes on from what its entry holds. -/
theorem callsFor_keyRecCalls (nonzero : keyByte ≠ 0) (elements : List ReconstructorQueueElement) :
    ∀ (km : KeyReconstructionCollection size) (calls : List KeyRecCall)
      (since : List (FragmentNo × KeyFragment)), CollectionSound km →
      (∀ element ∈ elements, element.keyByte ≠ 0) → NeverFull mb (km, calls) elements →
      collectedSoFar km mac keyByte = Collector.firsts since →
      callsFor mac keyByte (keyRecCalls mb km elements) =
        collectorCalls mb mac keyByte since elements := by
  induction elements with
  | nil => exact fun _ _ _ _ _ _ _ => rfl
  | cons element rest ih =>
      intro km calls since sound bytes neverFull soFar
      obtain ⟨nonzeroByte, bytesRest⟩ := List.forall_mem_cons.mp bytes
      obtain ⟨room, neverFullNext⟩ := neverFull
      rw [handleKeyFragment_log] at neverFullNext
      have turn : CollectorTurn mb mac keyByte since
          (handleKeyFragment mb (some logKeyRecCall) (km, []) element) element := by
        by_cases own : element.IsFor mac keyByte
        · exact collector_own nonzero sound own room soFar
        · exact collector_other nonzero sound own soFar
      obtain ⟨sinceNext, soFarNext, made⟩ := turn
      have soundNext := sound.step mb [] nonzeroByte
      rw [keyRecCalls_cons, callsFor_append, made,
        ih _ _ sinceNext soundNext bytesRest neverFullNext soFarNext]

theorem keyRecCalls_isFor (elements : List ReconstructorQueueElement) :
    ∀ km : KeyReconstructionCollection size, CollectionSound km →
      (∀ element ∈ elements, element.keyByte ≠ 0) →
      ∀ call ∈ keyRecCalls mb km elements,
        ∃ element ∈ elements, element.IsFor call.macAddress call.keyId := by
  induction elements with
  | nil => exact fun _ _ _ _ member => absurd member List.not_mem_nil
  | cons element rest ih =>
      intro km sound bytes call member
      rw [keyRecCalls_cons] at member
      rcases List.mem_append.mp member with now | later
      · refine ⟨element, List.mem_cons_self, ?_⟩
        obtain ⟨_, _, step⟩ | ⟨_, _, _, ⟨_, _, _, _, _, _, step⟩ | ⟨_, _, step⟩⟩ :=
          handleKeyFragment_collected mb logKeyRecCall sound.opens [] element
        · simp [step] at now
        · simp [step] at now
        · simp only [step, logKeyRecCall, List.nil_append, List.mem_singleton] at now
          rw [now]
          exact ⟨rfl, rfl⟩
      · obtain ⟨other, isOther, isFor⟩ :=
          ih _ (sound.step mb [] (bytes element List.mem_cons_self))
            (fun other member => bytes other (List.mem_cons_of_mem _ member)) call later
        exact ⟨other, List.mem_cons_of_mem _ isOther, isFor⟩

def OnlyFor (mac : EspBdAddr) (keyByte : UInt8) (km : KeyReconstructionCollection size) : Prop :=
  ∀ i, (km i).keyId ≠ 0 → (km i).keyId = keyByte ∧ (km i).consumerMacAddress = mac

theorem OnlyFor.step {km : KeyReconstructionCollection size} (only : OnlyFor mac keyByte km)
    (opens : ∀ i, (km i).Open) (calls : List KeyRecCall) {element : ReconstructorQueueElement}
    (own : element.IsFor mac keyByte) :
    OnlyFor mac keyByte (handleKeyFragment mb (some logKeyRecCall) (km, calls) element).1 := by
  have replace : ∀ (index : Fin size) (replaced : KeyManagement),
      (replaced.keyId ≠ 0 → replaced.keyId = keyByte ∧ replaced.consumerMacAddress = mac) →
      OnlyFor mac keyByte (Function.update km index replaced) := fun index replaced named =>
    (Function.forall_update_iff km fun _ entry =>
      entry.keyId ≠ 0 → entry.keyId = keyByte ∧ entry.consumerMacAddress = mac).mpr
        ⟨named, fun i _ => only i⟩
  obtain ⟨_, _, step⟩ |
      ⟨index, _, _, ⟨_, replaced, _, sameId, sameMac, _, step⟩ | ⟨_, _, step⟩⟩ :=
    handleKeyFragment_collected mb logKeyRecCall opens calls element
  · rw [step]
    exact only
  · rw [step]
    exact replace index replaced fun _ => ⟨sameId.trans own.2, sameMac.trans own.1⟩
  · rw [step]
    exact replace index KeyManagement.zero fun used => absurd rfl used

theorem neverFull_own (positive : 0 < size) (nonzero : keyByte ≠ 0)
    (elements : List ReconstructorQueueElement) :
    ∀ (km : KeyReconstructionCollection size) (calls : List KeyRecCall), CollectionSound km →
      OnlyFor mac keyByte km → (∀ element ∈ elements, element.IsFor mac keyByte) →
      NeverFull mb (km, calls) elements := by
  induction elements with
  | nil => exact fun _ _ _ _ _ => trivial
  | cons element rest ih =>
      intro km calls sound only own
      have isOwn := own element List.mem_cons_self
      have room : HasRoom (km, calls) element := by
        by_cases free : (km ⟨0, positive⟩).keyId = 0
        · exact Or.inr ⟨_, free⟩
        · refine Or.inl ?_
          cases found : getKeyIndexInCollection km element.consumerMacAddress element.keyByte with
          | some index => simp [isKeyInCollection, found]
          | none =>
              obtain ⟨sameId, sameMac⟩ := only _ free
              exact absurd (sameMac.trans isOwn.1.symm)
                (getKeyIndex_none.mp found _ (sameId.trans isOwn.2.symm))
      refine ⟨room, ?_⟩
      exact ih _ _ (sound.step mb calls (by rw [isOwn.2]; exact nonzero))
        (only.step sound.opens calls isOwn)
        fun other member => own other (List.mem_cons_of_mem _ member)

theorem keyRecCalls_own (positive : 0 < size) (nonzero : keyByte ≠ 0)
    (elements : List ReconstructorQueueElement) :
    keyRecCalls mb (createNewKeyCollection size) (ownElements mac keyByte elements) =
      collectorCalls mb mac keyByte [] elements := by
  have own : ∀ element ∈ ownElements mac keyByte elements, element.IsFor mac keyByte :=
    fun element member => of_decide_eq_true (List.mem_filter.mp member).2
  have bytes : ∀ element ∈ ownElements mac keyByte elements, element.keyByte ≠ 0 :=
    fun element member => by
      rw [(own element member).2]
      exact nonzero
  have sound := collectionSound_create size
  have neverFull : NeverFull mb (createNewKeyCollection size, [])
      (ownElements mac keyByte elements) :=
    neverFull_own positive nonzero _ _ [] sound (fun _ used => absurd rfl used) own
  have calls := callsFor_keyRecCalls nonzero _ _ _ [] sound bytes neverFull
    (collectedSoFar_create size mac keyByte)
  have every : callsFor mac keyByte
      (keyRecCalls mb (createNewKeyCollection size) (ownElements mac keyByte elements)) =
        keyRecCalls mb (createNewKeyCollection size) (ownElements mac keyByte elements) := by
    refine List.filter_eq_self.mpr fun call member => ?_
    obtain ⟨element, isElement, isFor⟩ := keyRecCalls_isFor _ _ sound bytes call member
    have isOwn := own element isElement
    exact decide_eq_true ⟨isFor.1.symm.trans isOwn.1, isFor.2.symm.trans isOwn.2⟩
  rw [← every, calls]
  simp [collectorCalls, ownElements]

end

/-! ## All keys -/

/-- As long as no element finds the collection full, each key gets the calls it would get if
its elements were the only ones, which are those of a collector of its own: one whenever there
is a valid fragment under each number since the last call, with the first under each.  And the
collection is in order. -/
theorem collectors_independent (mb : Mbedtls) {elements : List ReconstructorQueueElement}
    (bytes : ∀ element ∈ elements, element.keyByte ≠ 0)
    (neverFull : NeverFull mb (createNewKeyCollection size, []) elements) :
    let (km, calls) := handleKeyFragments mb (some logKeyRecCall)
      (createNewKeyCollection size, []) elements
    CollectionInOrder km ∧
    ∀ mac keyByte, keyByte ≠ 0 →
      callsFor mac keyByte calls =
        (handleKeyFragments mb (some logKeyRecCall) (createNewKeyCollection size, [])
          (ownElements mac keyByte elements)).2 ∧
      callsFor mac keyByte calls = collectorCalls mb mac keyByte [] elements := by
  have sound := collectionSound_create size
  refine ⟨(sound.run mb elements _ [] bytes).inOrder, fun mac keyByte nonzero => ?_⟩
  have calls : callsFor mac keyByte (keyRecCalls mb (createNewKeyCollection size) elements) =
      collectorCalls mb mac keyByte [] elements :=
    callsFor_keyRecCalls nonzero elements _ [] [] sound bytes neverFull
      (collectedSoFar_create size mac keyByte)
  refine ⟨calls.trans ?_, calls⟩
  cases elements with
  | nil => rfl
  | cons element rest =>
      have positive : 0 < size := by
        rcases neverFull.1 with there | ⟨i, _⟩
        · obtain ⟨index, _⟩ := Option.isSome_iff_exists.mp there
          exact index.pos
        · exact i.pos
      exact (keyRecCalls_own positive nonzero _).symm

/-- The fragments of two sessions, in the second one with a forged fragment before and a
valid fragment of another key after each fragment of its own. -/
def interleavedSessions : List ReconstructorQueueElement :=
  (List.finRange 4).flatMap fun number =>
    [keyElement 21 countingKey number,
      { keyElement 22 countingKey number with keyHmac := fun _ => 0 },
      keyElement 22 countingKey number, uniformElement 22 0x55 number]

/-- The key of the second session is passed on with its own bytes. -/
theorem collectors_independent_interleaved :
    (collectorCalls tabulated 0xA1 22 [] interleavedSessions).map (fun call =>
        List.ofFn call.key) = [(List.range 16).map UInt8.ofNat] ∧
    callsFor 0xA1 22 (handleKeyFragments tabulated (some logKeyRecCall)
        (createNewKeyCollection 2, []) interleavedSessions).2 =
      collectorCalls tabulated 0xA1 22 [] interleavedSessions :=
  ⟨by decide +kernel,
    ((collectors_independent tabulated (by decide +kernel) (by decide +kernel)).2 0xA1 22
      (by decide)).2⟩

end BleBroadcast.Receiver
