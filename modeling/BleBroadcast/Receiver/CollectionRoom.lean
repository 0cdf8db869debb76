import BleBroadcast.Receiver.FragmentFeeding

/-!
# Room in the key collection

An entry of the collection is given up only when its key is complete.  The first fragment
of a session needs a free entry, and if there is none it is dropped: nothing looks at the
result of the claim.  The key of a session is passed on exactly if its first fragment found
an entry.
-/

set_option autoImplicit false

namespace BleBroadcast.Receiver

open BleBroadcast.Core BleBroadcast.Lib

def ReconstructorQueueElement.IsFor (element : ReconstructorQueueElement) (mac : EspBdAddr)
    (keyByte : UInt8) : Prop :=
  element.consumerMacAddress = mac ∧ element.keyByte = keyByte

instance isForDecidable (element : ReconstructorQueueElement) (mac : EspBdAddr)
    (keyByte : UInt8) : Decidable (element.IsFor mac keyByte) :=
  inferInstanceAs (Decidable (_ ∧ _))

def ownNumbers (mac : EspBdAddr) (keyByte : UInt8) (elements : List ReconstructorQueueElement) :
    List FragmentNo :=
  (elements.filter fun element => element.IsFor mac keyByte).map
    ReconstructorQueueElement.keyFragmentNo

/-- Among the elements, those for the key are one valid element for each of its fragments. -/
structure BringsKey (mb : Mbedtls) (mac : EspBdAddr) (keyByte : UInt8) (key : Key128b)
    (elements : List ReconstructorQueueElement) : Prop where
  each : ∀ number, number ∈ ownNumbers mac keyByte elements
  once : (ownNumbers mac keyByte elements).Nodup
  valid : ∀ element ∈ elements, element.IsFor mac keyByte → element.tagMatches mb = true ∧
    element.decrypted = split128bKeyToFragment key element.keyFragmentNo

variable {size : Nat}

def keyRecCalls (mb : Mbedtls) (km : KeyReconstructionCollection size)
    (elements : List ReconstructorQueueElement) : List KeyRecCall :=
  (handleKeyFragments mb (some logKeyRecCall) (km, []) elements).2

/-- When the first element for the key is processed, some entry is free. -/
def EntryFreeAtFirst (mb : Mbedtls) (mac : EspBdAddr) (keyByte : UInt8) :
    KeyReconstructionCollection size → List ReconstructorQueueElement → Prop
  | _, [] => False
  | km, element :: rest =>
      if element.IsFor mac keyByte then ∃ i, (km i).keyId = 0
      else EntryFreeAtFirst mb mac keyByte
        (handleKeyFragment mb (some logKeyRecCall) (km, []) element).1 rest

instance entryFreeAtFirstDecidable (mb : Mbedtls) (mac : EspBdAddr) (keyByte : UInt8) :
    ∀ (km : KeyReconstructionCollection size) elements,
      Decidable (EntryFreeAtFirst mb mac keyByte km elements)
  | _, [] => isFalse id
  | km, element :: rest =>
      have := entryFreeAtFirstDecidable mb mac keyByte
        (handleKeyFragment mb (some logKeyRecCall) (km, []) element).1 rest
      inferInstanceAs (Decidable (if element.IsFor mac keyByte then ∃ i, (km i).keyId = 0
        else EntryFreeAtFirst mb mac keyByte
          (handleKeyFragment mb (some logKeyRecCall) (km, []) element).1 rest))

theorem keyRecCalls_cons (mb : Mbedtls) (km : KeyReconstructionCollection size)
    (element : ReconstructorQueueElement) (rest : List ReconstructorQueueElement) :
    keyRecCalls mb km (element :: rest) =
      (handleKeyFragment mb (some logKeyRecCall) (km, []) element).2 ++
        keyRecCalls mb (handleKeyFragment mb (some logKeyRecCall) (km, []) element).1 rest := by
  have later : ∀ (elements : List ReconstructorQueueElement)
      (km : KeyReconstructionCollection size) (calls : List KeyRecCall),
      (handleKeyFragments mb (some logKeyRecCall) (km, calls) elements).2 =
        calls ++ keyRecCalls mb km elements := by
    intro elements
    induction elements with
    | nil => exact fun _ calls => (List.append_nil calls).symm
    | cons first others ih =>
        intro km calls
        simp only [keyRecCalls, handleKeyFragments, List.foldl_cons] at ih ⊢
        rw [handleKeyFragment_log mb km calls, ih, ih _ (handleKeyFragment _ _ _ _).2,
          List.append_assoc]
  exact later rest _ _

/-! ## What is collected under a name -/

def collectedFor (km : KeyReconstructionCollection size) (mac : EspBdAddr) (keyByte : UInt8) :
    Option (Collector FragmentNo KeyFragment) :=
  (getKeyIndexInCollection km mac keyByte).map fun index => (km index).collected

def collectedSoFar (km : KeyReconstructionCollection size) (mac : EspBdAddr) (keyByte : UInt8) :
    Collector FragmentNo KeyFragment :=
  (collectedFor km mac keyByte).getD Collector.empty

theorem collectedFor_found {km : KeyReconstructionCollection size} {mac : EspBdAddr}
    {keyByte : UInt8} {index : Fin size}
    (found : getKeyIndexInCollection km mac keyByte = some index) :
    collectedFor km mac keyByte = some (km index).collected := by
  rw [collectedFor, found]
  rfl

theorem collectedFor_update_other {km : KeyReconstructionCollection size} {mac : EspBdAddr}
    {keyByte : UInt8} {index : Fin size} {entry : KeyManagement}
    (before : ¬ ((km index).keyId = keyByte ∧ (km index).consumerMacAddress = mac))
    (after : ¬ (entry.keyId = keyByte ∧ entry.consumerMacAddress = mac)) :
    collectedFor (Function.update km index entry) mac keyByte = collectedFor km mac keyByte := by
  have sameIndex : getKeyIndexInCollection (Function.update km index entry) mac keyByte =
      getKeyIndexInCollection km mac keyByte := by
    unfold getKeyIndexInCollection
    congr 1
    funext i
    by_cases here : i = index
    · subst here
      rw [Function.update_self, Bool.eq_iff_iff]
      simp [before, after]
    · rw [Function.update_of_ne here]
  unfold collectedFor
  rw [sameIndex]
  cases found : getKeyIndexInCollection km mac keyByte with
  | none => rfl
  | some other =>
      have elsewhere : other ≠ index := by
        rintro rfl
        exact before (getKeyIndex_some found)
      rw [Option.map_some, Option.map_some, Function.update_of_ne elsewhere]

structure Tidy (km : KeyReconstructionCollection size) : Prop where
  opens : ∀ i, (km i).Open
  free : ∀ i, (km i).keyId = 0 → (km i).collected = Collector.empty

theorem tidy_create (size : Nat) : Tidy (createNewKeyCollection size) :=
  ⟨fun _ => open_zero, fun _ _ => collected_zero⟩

theorem Tidy.update {km : KeyReconstructionCollection size} (tidy : Tidy km) (index : Fin size)
    {entry : KeyManagement} (isOpen : entry.Open)
    (free : entry.keyId = 0 → entry.collected = Collector.empty) :
    Tidy (Function.update km index entry) := by
  refine ⟨open_update tidy.opens index isOpen, (Function.forall_update_iff km
    fun _ entry => entry.keyId = 0 → entry.collected = Collector.empty).mpr ⟨free, ?_⟩⟩
  exact fun i _ => tidy.free i

theorem Tidy.entryFor {km : KeyReconstructionCollection size} (tidy : Tidy km)
    {element : ReconstructorQueueElement} {index : Fin size} {entry : KeyManagement}
    (entryFor : EntryFor km element index entry) :
    entry.collected = collectedSoFar km element.consumerMacAddress element.keyByte ∧
    (collectedFor km element.consumerMacAddress element.keyByte = none →
      ∃ i, (km i).keyId = 0) := by
  cases entryFor with
  | there found =>
      rw [collectedSoFar, collectedFor_found found]
      exact ⟨rfl, fun none => absurd none (Option.some_ne_none _)⟩
  | claimed missing free =>
      refine ⟨?_, fun _ => ⟨index, free⟩⟩
      rw [collectedSoFar, collectedFor, missing, collected_claimedEntry, tidy.free index free]
      rfl

/-! ## One element -/

section
variable (mb : Mbedtls) {km : KeyReconstructionCollection size}
  {element : ReconstructorQueueElement}

theorem Tidy.step (tidy : Tidy km) (nonzero : element.keyByte ≠ 0) :
    Tidy (handleKeyFragment mb (some logKeyRecCall) (km, []) element).1 := by
  obtain ⟨_, _, step⟩ | ⟨index, _, _, ⟨_, _, isOpen, sameId, _, _, step⟩ | ⟨_, _, step⟩⟩ :=
    handleKeyFragment_collected mb logKeyRecCall tidy.opens [] element
  · rw [step]
    exact tidy
  · rw [step]
    exact tidy.update index isOpen fun zero => absurd (sameId.symm.trans zero) nonzero
  · rw [step]
    exact tidy.update index open_zero fun _ => collected_zero

theorem handleKeyFragment_other (tidy : Tidy km) {mac : EspBdAddr} {keyByte : UInt8}
    (nonzero : keyByte ≠ 0) (other : ¬ element.IsFor mac keyByte) :
    collectedFor (handleKeyFragment mb (some logKeyRecCall) (km, []) element).1 mac keyByte =
        collectedFor km mac keyByte ∧
      ∀ call ∈ (handleKeyFragment mb (some logKeyRecCall) (km, []) element).2,
        ¬ (call.macAddress = mac ∧ call.keyId = keyByte) := by
  obtain ⟨_, _, step⟩ | ⟨index, entry, entryFor, outcome⟩ :=
    handleKeyFragment_collected mb logKeyRecCall tidy.opens [] element
  · simp [step]
  · have before : ¬ ((km index).keyId = keyByte ∧ (km index).consumerMacAddress = mac) := by
      cases entryFor with
      | there found =>
          obtain ⟨entryId, entryMac⟩ := getKeyIndex_some found
          exact fun both => other ⟨entryMac.symm.trans both.2, entryId.symm.trans both.1⟩
      | claimed missing free => exact fun both => nonzero (both.1.symm.trans free)
    obtain ⟨_, replaced, _, sameId, sameMac, _, step⟩ | ⟨_, _, step⟩ := outcome
    · have after : ¬ (replaced.keyId = keyByte ∧ replaced.consumerMacAddress = mac) :=
        fun both => other ⟨sameMac.symm.trans both.2, sameId.symm.trans both.1⟩
      refine ⟨?_, by simp [step]⟩
      rw [step]
      exact collectedFor_update_other before after
    · constructor
      · rw [step]
        exact collectedFor_update_other before fun both => nonzero both.1.symm
      · intro call member
        simp only [step, logKeyRecCall, List.nil_append, List.mem_singleton] at member
        rw [member]
        exact other

theorem handleKeyFragment_own (tidy : Tidy km) {mac : EspBdAddr} {keyByte : UInt8}
    (own : element.IsFor mac keyByte) :
    let result := handleKeyFragment mb (some logKeyRecCall) (km, []) element
    let collected := collectedAfter mb (collectedSoFar km mac keyByte) element
    (collectedFor km mac keyByte = none ∧ (∀ i, (km i).keyId ≠ 0) ∧ result = (km, [])) ∨
    (collectedFor km mac keyByte = none → ∃ i, (km i).keyId = 0) ∧
      ((¬ collected.Full ∧ collectedSoFar result.1 mac keyByte = collected ∧
          collectedFor result.1 mac keyByte ≠ none ∧ result.2 = []) ∨
        ∃ fragments, (∀ number, collected number = some (fragments number)) ∧
          result.2 = [⟨keyByte, get128bKeyFromFragments fragments, mac⟩] ∧
          (DistinctEntries km → keyByte ≠ 0 → collectedFor result.1 mac keyByte = none)) := by
  intro result collected
  obtain ⟨rfl, rfl⟩ := own
  obtain ⟨missing, noneFree, step⟩ | ⟨index, entry, entryFor, outcome⟩ :=
    handleKeyFragment_collected mb logKeyRecCall tidy.opens [] element
  · exact Or.inl ⟨by rw [collectedFor, missing]; rfl, noneFree, step⟩
  · obtain ⟨soFar, room⟩ := tidy.entryFor entryFor
    rw [soFar] at outcome
    refine Or.inr ⟨room, ?_⟩
    obtain ⟨notFull, replaced, _, sameId, sameMac, isCollected, step⟩ |
        ⟨fragments, isFull, step⟩ := outcome
    · have found := collectedFor_found (entryFor.lookup replaced sameId sameMac)
      rw [Function.update_self, isCollected] at found
      have collects : collectedFor result.1 element.consumerMacAddress element.keyByte =
          some collected := by
        simp only [result, step]
        exact found
      refine Or.inl ⟨notFull, ?_, ?_, by simp only [result, step]⟩
      · rw [collectedSoFar, collects]
        rfl
      · rw [collects]
        exact Option.some_ne_none _
    · refine Or.inr ⟨fragments, isFull, by simp only [result, step, logKeyRecCall,
        List.nil_append], fun distinct nonzero => ?_⟩
      have emptied : getKeyIndexInCollection (Function.update km index KeyManagement.zero)
          element.consumerMacAddress element.keyByte = none := by
        refine getKeyIndex_none.mpr fun i sameId sameMac => ?_
        by_cases here : i = index
        · rw [here, Function.update_self] at sameId
          exact nonzero sameId.symm
        · rw [Function.update_of_ne here] at sameId sameMac
          exact distinct.separated entryFor here (sameId ▸ nonzero) ⟨sameId, sameMac⟩
      simp only [result, step, collectedFor, emptied]
      rfl

end

theorem collectedAfter_other (mb : Mbedtls) (collected : Collector FragmentNo KeyFragment)
    {element : ReconstructorQueueElement} {number : FragmentNo}
    (other : number ≠ element.keyFragmentNo) :
    collectedAfter mb collected element number = collected number := by
  unfold collectedAfter Collector.offer
  split
  · split
    · rfl
    · exact Function.update_of_ne other _ _
  · rfl

/-! ## A stream with the elements of a key -/

theorem ownNumbers_cons_other {mac : EspBdAddr} {keyByte : UInt8}
    {element : ReconstructorQueueElement} (other : ¬ element.IsFor mac keyByte)
    (rest : List ReconstructorQueueElement) :
    ownNumbers mac keyByte (element :: rest) = ownNumbers mac keyByte rest := by
  simp [ownNumbers, other]

theorem ownNumbers_cons_own {mac : EspBdAddr} {keyByte : UInt8}
    {element : ReconstructorQueueElement} (own : element.IsFor mac keyByte)
    (rest : List ReconstructorQueueElement) :
    ownNumbers mac keyByte (element :: rest) =
      element.keyFragmentNo :: ownNumbers mac keyByte rest := by
  simp [ownNumbers, own]

section
variable {mb : Mbedtls} {mac : EspBdAddr} {keyByte : UInt8} {key : Key128b}

/-- Where the elements bring exactly the fragments that are missing so far, and an entry for
the key is there or free when the first of them comes, the key is passed on. -/
theorem key_called (nonzero : keyByte ≠ 0) (elements : List ReconstructorQueueElement) :
    ∀ km : KeyReconstructionCollection size, Tidy km →
      (∀ element ∈ elements, element.keyByte ≠ 0) →
      (∀ element ∈ elements, element.IsFor mac keyByte → element.tagMatches mb = true ∧
        element.decrypted = split128bKeyToFragment key element.keyFragmentNo) →
      (ownNumbers mac keyByte elements).Nodup → ownNumbers mac keyByte elements ≠ [] →
      (∀ number, (collectedSoFar km mac keyByte number).isSome ↔
        number ∉ ownNumbers mac keyByte elements) →
      OfKey key (collectedSoFar km mac keyByte) →
      (collectedFor km mac keyByte = none → EntryFreeAtFirst mb mac keyByte km elements) →
      ⟨keyByte, key, mac⟩ ∈ keyRecCalls mb km elements := by
  induction elements with
  | nil => exact fun _ _ _ _ _ some => absurd rfl some
  | cons element rest ih =>
      intro km tidy bytes valid once some missing ofKey begun
      have tidyNext := tidy.step mb (bytes element List.mem_cons_self)
      have bytesRest : ∀ other ∈ rest, other.keyByte ≠ 0 :=
        fun other member => bytes other (List.mem_cons_of_mem _ member)
      have validRest : ∀ other ∈ rest, other.IsFor mac keyByte → other.tagMatches mb = true ∧
          other.decrypted = split128bKeyToFragment key other.keyFragmentNo :=
        fun other member => valid other (List.mem_cons_of_mem _ member)
      rw [keyRecCalls_cons]
      rw [EntryFreeAtFirst] at begun
      by_cases own : element.IsFor mac keyByte
      · obtain ⟨genuine, decrypted⟩ := valid element List.mem_cons_self own
        rw [ownNumbers_cons_own own] at once missing
        rw [if_pos own] at begun
        obtain ⟨notLater, onceRest⟩ := List.nodup_cons.mp once
        have after : ∀ number,
            (collectedAfter mb (collectedSoFar km mac keyByte) element number).isSome ↔
              number ∉ ownNumbers mac keyByte rest := by
          intro number
          rw [collectedAfter, if_pos genuine, Collector.offer_isSome, missing]
          by_cases same : number = element.keyFragmentNo
          · simp [same, notLater]
          · simp [same]
        have ofKeyAfter : OfKey key
            (collectedAfter mb (collectedSoFar km mac keyByte) element) :=
          ofKey.after (⟨own.1, rfl, fun _ => decrypted⟩ :
            OfSession mb mac element.keyId key element)
        obtain ⟨none, noneFree, _⟩ | ⟨_, ⟨notFull, soFar, begunNext, _⟩ |
            ⟨fragments, isFull, called, _⟩⟩ := handleKeyFragment_own mb tidy own
        · obtain ⟨i, zero⟩ := begun none
          exact absurd zero (noneFree i)
        · have someRest : ownNumbers mac keyByte rest ≠ [] := fun noneLeft =>
            notFull fun number => (after number).mpr (by simp [noneLeft])
          rw [← soFar] at after ofKeyAfter
          exact List.mem_append_right _ (ih _ tidyNext bytesRest validRest onceRest someRest
            after ofKeyAfter fun none => absurd none begunNext)
        · have isKey : get128bKeyFromFragments fragments = key :=
            get128bKeyFromFragments_eq fun number => ofKeyAfter number _ (isFull number)
          apply List.mem_append_left
          rw [called, isKey]
          exact List.mem_singleton_self _
      · obtain ⟨same, _⟩ := handleKeyFragment_other mb tidy nonzero own
        rw [ownNumbers_cons_other own] at once some missing
        rw [if_neg own] at begun
        rw [collectedSoFar, ← same] at missing ofKey
        rw [← same] at begun
        exact List.mem_append_right _
          (ih _ tidyNext bytesRest validRest once some missing ofKey begun)

/-- Where one fragment is missing and none of the elements brings it, no key is passed on. -/
theorem key_not_called (nonzero : keyByte ≠ 0) {number : FragmentNo}
    (elements : List ReconstructorQueueElement) :
    ∀ km : KeyReconstructionCollection size, Tidy km →
      (∀ element ∈ elements, element.keyByte ≠ 0) →
      number ∉ ownNumbers mac keyByte elements →
      collectedSoFar km mac keyByte number = none →
      ∀ call ∈ keyRecCalls mb km elements, ¬ (call.macAddress = mac ∧ call.keyId = keyByte) := by
  induction elements with
  | nil => exact fun _ _ _ _ _ _ member => absurd member List.not_mem_nil
  | cons element rest ih =>
      intro km tidy bytes absent missing call member
      have tidyNext := tidy.step mb (bytes element List.mem_cons_self)
      have bytesRest : ∀ other ∈ rest, other.keyByte ≠ 0 :=
        fun other member => bytes other (List.mem_cons_of_mem _ member)
      rw [keyRecCalls_cons] at member
      by_cases own : element.IsFor mac keyByte
      · rw [ownNumbers_cons_own own, List.mem_cons, not_or] at absent
        have stillMissing : collectedAfter mb (collectedSoFar km mac keyByte) element number =
            none := by
          rw [collectedAfter_other mb _ absent.1]
          exact missing
        obtain ⟨_, _, unchanged⟩ | ⟨_, ⟨_, soFar, _, noCall⟩ | ⟨fragments, isFull, _⟩⟩ :=
          handleKeyFragment_own mb tidy own
        · rw [unchanged, List.nil_append] at member
          exact ih km tidy bytesRest absent.2 missing call member
        · rw [noCall, List.nil_append] at member
          rw [← soFar] at stillMissing
          exact ih _ tidyNext bytesRest absent.2 stillMissing call member
        · simp [isFull number] at stillMissing
      · obtain ⟨same, notOwn⟩ := handleKeyFragment_other mb tidy nonzero own
        rw [ownNumbers_cons_other own] at absent
        rw [collectedSoFar, ← same] at missing
        rcases List.mem_append.mp member with now | later
        · exact notOwn call now
        · exact ih _ tidyNext bytesRest absent missing call later

theorem key_not_called_without_entry (nonzero : keyByte ≠ 0)
    (elements : List ReconstructorQueueElement) :
    ∀ km : KeyReconstructionCollection size, Tidy km →
      (∀ element ∈ elements, element.keyByte ≠ 0) → (ownNumbers mac keyByte elements).Nodup →
      collectedFor km mac keyByte = none → ¬ EntryFreeAtFirst mb mac keyByte km elements →
      ∀ call ∈ keyRecCalls mb km elements, ¬ (call.macAddress = mac ∧ call.keyId = keyByte) := by
  induction elements with
  | nil => exact fun _ _ _ _ _ _ _ member => absurd member List.not_mem_nil
  | cons element rest ih =>
      intro km tidy bytes once noEntry notFree call member
      have bytesRest : ∀ other ∈ rest, other.keyByte ≠ 0 :=
        fun other member => bytes other (List.mem_cons_of_mem _ member)
      rw [keyRecCalls_cons] at member
      rw [EntryFreeAtFirst] at notFree
      by_cases own : element.IsFor mac keyByte
      · rw [if_pos own] at notFree
        rw [ownNumbers_cons_own own] at once
        obtain ⟨_, _, unchanged⟩ | ⟨room, _⟩ := handleKeyFragment_own mb tidy own
        · -- the element is dropped, and no later one brings its fragment again
          rw [unchanged, List.nil_append] at member
          refine key_not_called nonzero rest km tidy bytesRest (List.nodup_cons.mp once).1 ?_
            call member
          rw [collectedSoFar, noEntry]
          rfl
        · exact absurd (room noEntry) notFree
      · rw [if_neg own] at notFree
        obtain ⟨same, notOwn⟩ := handleKeyFragment_other mb tidy nonzero own
        rw [ownNumbers_cons_other own] at once
        rcases List.mem_append.mp member with now | later
        · exact notOwn call now
        · exact ih _ (tidy.step mb (bytes element List.mem_cons_self)) bytesRest once
            (same.trans noEntry) notFree call later

end

theorem Tidy.run (mb : Mbedtls) (elements : List ReconstructorQueueElement) :
    ∀ (km : KeyReconstructionCollection size) (calls : List KeyRecCall), Tidy km →
      (∀ element ∈ elements, element.keyByte ≠ 0) →
      Tidy (handleKeyFragments mb (some logKeyRecCall) (km, calls) elements).1 := by
  induction elements with
  | nil => exact fun _ _ tidy _ => tidy
  | cons element rest ih =>
      intro km calls tidy bytes
      rw [handleKeyFragments, List.foldl_cons, handleKeyFragment_log]
      exact ih _ _ (tidy.step mb (bytes element List.mem_cons_self))
        fun other member => bytes other (List.mem_cons_of_mem _ member)

/-- In every state that any elements with non-zero id bytes lead to, and for every key without
an open entry: four valid elements with its fragments, in any order and between elements for
other keys, make the callback get the key exactly if some entry is free when the first of
them is processed. -/
theorem key_passed_on_iff (mb : Mbedtls) (history : List ReconstructorQueueElement)
    {mac : EspBdAddr} {keyByte : UInt8} (nonzero : keyByte ≠ 0) {key : Key128b}
    {elements : List ReconstructorQueueElement}
    (bytes : ∀ element ∈ history ++ elements, element.keyByte ≠ 0)
    (brings : BringsKey mb mac keyByte key elements) :
    let km := (handleKeyFragments mb (some logKeyRecCall)
      (createNewKeyCollection size, []) history).1
    isKeyInCollection km mac keyByte = false →
      (⟨keyByte, key, mac⟩ ∈ keyRecCalls mb km elements ↔
        EntryFreeAtFirst mb mac keyByte km elements) := by
  intro km noEntry
  have tidy : Tidy km := (tidy_create size).run mb history _ [] fun element member =>
    bytes element (List.mem_append_left _ member)
  have bytesLater : ∀ element ∈ elements, element.keyByte ≠ 0 :=
    fun element member => bytes element (List.mem_append_right _ member)
  have noneCollected : collectedFor km mac keyByte = none := by
    simpa [isKeyInCollection, collectedFor] using noEntry
  constructor
  · intro called
    refine Classical.byContradiction fun notFree => ?_
    exact key_not_called_without_entry nonzero elements km tidy bytesLater brings.once
      noneCollected notFree _ called ⟨rfl, rfl⟩
  · intro free
    have soFar : collectedSoFar km mac keyByte = Collector.empty := by
      rw [collectedSoFar, noneCollected]
      rfl
    refine key_called nonzero elements km tidy bytesLater brings.valid brings.once
      (List.ne_nil_of_mem (brings.each 0)) (fun number => ?_) (fun number fragment none => ?_)
      fun _ => free
    · rw [soFar]
      exact iff_of_false (by simp [Collector.empty]) (not_not.mpr (brings.each number))
    · simp [soFar, Collector.empty] at none

/-! ## A full collection -/

/-- The first fragment of each of the sessions 1 to `count`. -/
def halfSessions (count : Nat) : List ReconstructorQueueElement :=
  (List.range count).map fun i => uniformElement (UInt16.ofNat (i + 1)) 1 0

def sessionElements (keyId : UInt16) : List ReconstructorQueueElement :=
  (List.finRange 4).map (uniformElement keyId 1)

theorem bringsKey_session21 : BringsKey tabulated 0xA1 21 (fun _ => 1) (sessionElements 21) :=
  ⟨by decide +kernel, by decide +kernel, by decide +kernel⟩

/-- Nineteen sessions wait for their fragments, and one entry is left for the next one. -/
theorem key_passed_on_last_entry :
    let km := (handleKeyFragments tabulated (some logKeyRecCall)
      (createNewKeyCollection 20, []) (halfSessions 19)).1
    ⟨21, fun _ => 1, 0xA1⟩ ∈ keyRecCalls tabulated km (sessionElements 21) :=
  (key_passed_on_iff tabulated (halfSessions 19) (by decide) (by decide +kernel)
    bringsKey_session21 (by decide +kernel)).mpr (by decide +kernel)

/-- Twenty sessions of which one fragment was received each hold all entries for ever: the
key of the next session is never passed on. -/
theorem key_starved :
    ¬ ∀ (mb : Mbedtls) (history : List ReconstructorQueueElement) (mac : EspBdAddr)
      (keyByte : UInt8) (key : Key128b) (elements : List ReconstructorQueueElement),
      keyByte ≠ 0 → (∀ element ∈ history ++ elements, element.keyByte ≠ 0) →
      BringsKey mb mac keyByte key elements →
      let km := (handleKeyFragments mb (some logKeyRecCall)
        (createNewKeyCollection 20, []) history).1
      isKeyInCollection km mac keyByte = false →
        ⟨keyByte, key, mac⟩ ∈ keyRecCalls mb km elements := by
  intro always
  have called := always tabulated (halfSessions 20) 0xA1 21 (fun _ => 1) (sessionElements 21)
    (by decide) (by decide +kernel) bringsKey_session21 (by decide +kernel)
  have none : (keyRecCalls tabulated (handleKeyFragments tabulated (some logKeyRecCall)
      (createNewKeyCollection 20, []) (halfSessions 20)).1 (sessionElements 21)).length = 0 := by
    decide +kernel
  rw [List.length_eq_zero_iff.mp none] at called
  exact absurd called List.not_mem_nil

end BleBroadcast.Receiver
