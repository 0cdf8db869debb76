import BleBroadcast.Receiver.KeyProvenance

/-!
# Feeding the reconstructor one session

The elements of one sender and one session, with any repetitions and any forged
elements between them, are processed by a reconstructor whose collection is empty.
At most one entry is ever in use, and it collects like a `Collector`.
-/

set_option autoImplicit false

universe u

namespace BleBroadcast.Receiver

open BleBroadcast.Core BleBroadcast.Lib

structure OfSession (mb : Mbedtls) (mac : EspBdAddr) (keyId : UInt16) (key : Key128b)
    (element : ReconstructorQueueElement) : Prop where
  sender : element.consumerMacAddress = mac
  session : element.keyId = keyId
  fragment : element.tagMatches mb = true →
    element.decrypted = split128bKeyToFragment key element.keyFragmentNo

def genuineFragments (mb : Mbedtls) (elements : List ReconstructorQueueElement) :
    List (FragmentNo × KeyFragment) :=
  (elements.filter fun element => element.tagMatches mb).map fun element =>
    (element.keyFragmentNo, element.decrypted)

variable {size : Nat}

structure Feeding (mac : EspBdAddr) (keyByte : UInt8)
    (collected : Collector FragmentNo KeyFragment) (km : KeyReconstructionCollection size) :
    Prop where
  opens : ∀ i, (km i).Open
  entry : (∃ index, getKeyIndexInCollection km mac keyByte = some index ∧
      (km index).collected = collected ∧ ∀ i, i ≠ index → km i = KeyManagement.zero) ∨
    (getKeyIndexInCollection km mac keyByte = none ∧ collected = Collector.empty ∧
      ∀ i, km i = KeyManagement.zero)

theorem feeding_zero {km : KeyReconstructionCollection size} (zero : ∀ i, km i = KeyManagement.zero)
    (mac : EspBdAddr) (keyByte : UInt8) : Feeding mac keyByte Collector.empty km where
  opens := by
    intro i
    rw [zero i]
    exact open_zero
  entry := by
    cases found : getKeyIndexInCollection km mac keyByte with
    | none => exact Or.inr ⟨rfl, rfl, zero⟩
    | some index =>
        refine Or.inl ⟨index, rfl, ?_, fun i _ => zero i⟩
        rw [zero index]
        exact collected_zero

theorem Feeding.entryFor {mac : EspBdAddr} {keyByte : UInt8}
    {collected : Collector FragmentNo KeyFragment} {km : KeyReconstructionCollection size}
    (feeding : Feeding mac keyByte collected km) {element : ReconstructorQueueElement}
    (sender : element.consumerMacAddress = mac) (session : element.keyByte = keyByte)
    {index : Fin size} {entry : KeyManagement} (entryFor : EntryFor km element index entry) :
    entry.collected = collected ∧ ∀ i, i ≠ index → km i = KeyManagement.zero := by
  subst sender session
  cases entryFor with
  | there found =>
      rcases feeding.entry with ⟨other, same, isCollected, alone⟩ | ⟨missing, _, _⟩
      · obtain rfl := Option.some.inj (found.symm.trans same)
        exact ⟨isCollected, alone⟩
      · simp [missing] at found
  | claimed missing free =>
      rcases feeding.entry with ⟨other, same, _, _⟩ | ⟨_, empty, zero⟩
      · simp [missing] at same
      · refine ⟨?_, fun i _ => zero i⟩
        rw [collected_claimedEntry, zero index, collected_zero, empty]

theorem Feeding.hasRoom {mac : EspBdAddr} {keyByte : UInt8}
    {collected : Collector FragmentNo KeyFragment} {km : KeyReconstructionCollection size}
    (feeding : Feeding mac keyByte collected km) (positive : 0 < size)
    (missing : getKeyIndexInCollection km mac keyByte = none) : ¬ ∀ i, (km i).keyId ≠ 0 := by
  intro noneFree
  rcases feeding.entry with ⟨index, found, _⟩ | ⟨_, _, zero⟩
  · simp [missing] at found
  · refine noneFree ⟨0, positive⟩ ?_
    rw [zero]
    rfl

theorem Feeding.replaced {mac : EspBdAddr} {keyByte : UInt8}
    {collected next : Collector FragmentNo KeyFragment} {km : KeyReconstructionCollection size}
    (feeding : Feeding mac keyByte collected km) {element : ReconstructorQueueElement}
    (sender : element.consumerMacAddress = mac) (session : element.keyByte = keyByte)
    {index : Fin size} {entry replacement : KeyManagement}
    (entryFor : EntryFor km element index entry) (isOpen : replacement.Open)
    (sameId : replacement.keyId = element.keyByte)
    (sameMac : replacement.consumerMacAddress = element.consumerMacAddress)
    (isNext : replacement.collected = next) :
    Feeding mac keyByte next (Function.update km index replacement) := by
  obtain ⟨_, alone⟩ := feeding.entryFor sender session entryFor
  have found := entryFor.lookup replacement sameId sameMac
  subst sender session
  refine ⟨open_update feeding.opens index isOpen,
    Or.inl ⟨index, found, by rw [Function.update_self, isNext], fun i elsewhere => ?_⟩⟩
  rw [Function.update_of_ne elsewhere]
  exact alone i elsewhere

/-! ## One element -/

def collectedAfter (mb : Mbedtls) (collected : Collector FragmentNo KeyFragment)
    (element : ReconstructorQueueElement) : Collector FragmentNo KeyFragment :=
  if element.tagMatches mb then collected.offer (element.keyFragmentNo, element.decrypted)
  else collected

theorem offer_taken {entry : KeyManagement} {number : FragmentNo}
    (taken : entry.decryptedKeyFragments number = true) (fragment : KeyFragment) :
    entry.collected.offer (number, fragment) = entry.collected := by
  simp [Collector.offer, KeyManagement.collected, taken]

theorem offer_missing {entry : KeyManagement} {number : FragmentNo}
    (missing : entry.decryptedKeyFragments number = false) (fragment : KeyFragment) :
    entry.collected.offer (number, fragment) = entry.collected.put number fragment := by
  simp [Collector.offer, KeyManagement.collected, missing]

/-- What an element does, in terms of what is collected: it finds no entry, or its entry has
collected it, or the entry is emptied and the key passed on. -/
theorem handleKeyFragment_collected {σ : Type u} (mb : Mbedtls)
    (cb : KeyReconstructionCompleteCb σ) {km : KeyReconstructionCollection size}
    (opens : ∀ i, (km i).Open) (state : σ) (element : ReconstructorQueueElement) :
    (getKeyIndexInCollection km element.consumerMacAddress element.keyByte = none ∧
      (∀ i, (km i).keyId ≠ 0) ∧
      handleKeyFragment mb (some cb) (km, state) element = (km, state)) ∨
    ∃ index entry, EntryFor km element index entry ∧
      ((¬ (collectedAfter mb entry.collected element).Full ∧
        ∃ replaced : KeyManagement, replaced.Open ∧ replaced.keyId = element.keyByte ∧
          replaced.consumerMacAddress = element.consumerMacAddress ∧
          replaced.collected = collectedAfter mb entry.collected element ∧
          handleKeyFragment mb (some cb) (km, state) element =
            (Function.update km index replaced, state)) ∨
      ∃ fragments,
        (∀ number, collectedAfter mb entry.collected element number =
          some (fragments number)) ∧
        handleKeyFragment mb (some cb) (km, state) element =
          (Function.update km index KeyManagement.zero,
            cb element.keyByte (get128bKeyFromFragments fragments) element.consumerMacAddress
              state)) := by
  obtain ⟨missing, present, step⟩ | ⟨index, entry, entryFor, _, outcome⟩ :=
    handleKeyFragment_cases mb cb opens state element
  · refine Or.inl ⟨missing, ?_, step⟩
    obtain ⟨index, entry, entryFor, claims⟩ | ⟨_, noneFree, _⟩ :=
      collectionWithEntry_cases km element
    · obtain ⟨entryId, entryMac⟩ := entryFor.names
      have found := entryFor.lookup entry entryId entryMac
      rw [← claims, present, missing] at found
      contradiction
    · exact noneFree
  · refine Or.inr ⟨index, entry, entryFor, ?_⟩
    obtain ⟨entryId, entryMac⟩ := entryFor.names
    have isOpen := entryFor.isOpen opens
    obtain ⟨kept, step⟩ | ⟨fresh, genuine, outcome⟩ := outcome
    · have same : collectedAfter mb entry.collected element = entry.collected := by
        unfold collectedAfter
        rcases kept with taken | forged
        · rw [offer_taken taken, ite_self]
        · rw [forged]
          rfl
      rw [same]
      refine Or.inl ⟨fun full => ?_, entry, isOpen, entryId, entryMac, rfl, step⟩
      exact isOpen.unfinished ((finished_iff isOpen.counted).mpr full)
    · have put : collectedAfter mb entry.collected element =
          (extendedEntry entry element.decrypted element.keyFragmentNo).collected := by
        rw [collectedAfter, if_pos genuine, offer_missing fresh, collected_extendedEntry]
      rw [put]
      obtain ⟨notFull, step⟩ | ⟨full, step⟩ := outcome
      · exact Or.inl ⟨notFull, _, isOpen.extended element.decrypted fresh notFull, entryId,
          entryMac, rfl, step⟩
      · exact Or.inr ⟨_, collected_full full, step⟩

theorem handleKeyFragment_feeding (mb : Mbedtls) (positive : 0 < size) {mac : EspBdAddr}
    {keyId : UInt16} {key : Key128b} {collected : Collector FragmentNo KeyFragment}
    {km : KeyReconstructionCollection size} (feeding : Feeding mac keyId.toUInt8 collected km)
    (calls : List KeyRecCall) {element : ReconstructorQueueElement}
    (ofSession : OfSession mb mac keyId key element) :
    let result := handleKeyFragment mb (some logKeyRecCall) (km, calls) element
    (¬ (collectedAfter mb collected element).Full ∧
      Feeding mac keyId.toUInt8 (collectedAfter mb collected element) result.1 ∧
      result.2 = calls) ∨
    ((collectedAfter mb collected element).Full ∧
      Feeding mac keyId.toUInt8 Collector.empty result.1 ∧
      ∃ fragments, (∀ number, collectedAfter mb collected element number =
          some (fragments number)) ∧
        result.2 = calls ++ [⟨keyId.toUInt8, get128bKeyFromFragments fragments, mac⟩]) := by
  intro result
  have sender := ofSession.sender
  have session : element.keyByte = keyId.toUInt8 := by
    rw [ReconstructorQueueElement.keyByte, ofSession.session]
  obtain ⟨missing, noneFree, _⟩ | ⟨index, entry, entryFor, outcome⟩ :=
    handleKeyFragment_collected mb logKeyRecCall feeding.opens calls element
  · rw [sender, session] at missing
    exact absurd noneFree (feeding.hasRoom positive missing)
  · obtain ⟨rfl, alone⟩ := feeding.entryFor sender session entryFor
    obtain ⟨notFull, replaced, isOpen, sameId, sameMac, isCollected, step⟩ |
        ⟨fragments, isFull, step⟩ := outcome
    · refine Or.inl ⟨notFull, ?_, by simp only [result, step]⟩
      simp only [result, step]
      exact feeding.replaced sender session entryFor isOpen sameId sameMac isCollected
    · refine Or.inr ⟨fun number => by rw [isFull number]; rfl, ?_, fragments, isFull, ?_⟩
      · simp only [result, step]
        refine feeding_zero (fun i => ?_) mac keyId.toUInt8
        by_cases here : i = index
        · rw [here, Function.update_self]
        · rw [Function.update_of_ne here]
          exact alone i here
      · simp only [result, step, logKeyRecCall, session, sender]

/-! ## A stream of elements -/

def OfKey (key : Key128b) (collected : Collector FragmentNo KeyFragment) : Prop :=
  ∀ number fragment, collected number = some fragment →
    fragment = split128bKeyToFragment key number

theorem OfKey.after {mb : Mbedtls} {mac : EspBdAddr} {keyId : UInt16} {key : Key128b}
    {collected : Collector FragmentNo KeyFragment} (ofKey : OfKey key collected)
    {element : ReconstructorQueueElement} (ofSession : OfSession mb mac keyId key element) :
    OfKey key (collectedAfter mb collected element) := by
  intro number fragment found
  simp only [collectedAfter, Collector.offer] at found
  split at found
  · rename_i genuine
    split at found
    · exact ofKey number fragment found
    · by_cases same : number = element.keyFragmentNo
      · subst same
        rw [Collector.put, Function.update_self] at found
        rw [← Option.some.inj found]
        exact ofSession.fragment genuine
      · rw [Collector.put, Function.update_of_ne same] at found
        exact ofKey number fragment found
  · exact ofKey number fragment found

/-- What holds after the elements `processed`: either no key was passed yet and the four
fragments are not together, or they were. -/
structure FedWith (mb : Mbedtls) (mac : EspBdAddr) (keyId : UInt16) (key : Key128b)
    (processed : List ReconstructorQueueElement) (km : KeyReconstructionCollection size)
    (calls : List KeyRecCall) : Prop where
  collecting : ∃ collected, Feeding mac keyId.toUInt8 collected km ∧ ¬ collected.Full ∧
    OfKey key collected ∧
    ((calls = [] ∧ collected = Collector.empty.offers (genuineFragments mb processed)) ∨
      (calls ≠ [] ∧ ∀ number, number ∈ (genuineFragments mb processed).map Prod.fst))
  keys : ∀ call ∈ calls, call = ⟨keyId.toUInt8, key, mac⟩

theorem fedWith_start (size : Nat) (mb : Mbedtls) (mac : EspBdAddr) (keyId : UInt16)
    (key : Key128b) :
    FedWith mb mac keyId key [] (createNewKeyCollection size) [] where
  collecting := by
    refine ⟨Collector.empty, feeding_zero (fun _ => rfl) mac keyId.toUInt8, ?_, ?_,
      Or.inl ⟨rfl, rfl⟩⟩
    · exact fun full => by simpa [Collector.empty] using full 0
    · exact fun number fragment found => by simp [Collector.empty] at found
  keys := by simp

theorem genuineFragments_concat (mb : Mbedtls) (processed : List ReconstructorQueueElement)
    (element : ReconstructorQueueElement) :
    genuineFragments mb (processed ++ [element]) = genuineFragments mb processed ++
      if element.tagMatches mb then [(element.keyFragmentNo, element.decrypted)] else [] := by
  simp only [genuineFragments, List.filter_append, List.map_append]
  by_cases genuine : element.tagMatches mb = true
  · simp [genuine]
  · simp [genuine]

theorem collectedAfter_offers (mb : Mbedtls) (processed : List ReconstructorQueueElement)
    (element : ReconstructorQueueElement) :
    collectedAfter mb (Collector.empty.offers (genuineFragments mb processed)) element =
      Collector.empty.offers (genuineFragments mb (processed ++ [element])) := by
  rw [genuineFragments_concat, collectedAfter]
  split
  · simp [Collector.offers, List.foldl_append]
  · rw [List.append_nil]

theorem FedWith.step {mb : Mbedtls} (positive : 0 < size) {mac : EspBdAddr} {keyId : UInt16}
    {key : Key128b} {processed : List ReconstructorQueueElement}
    {km : KeyReconstructionCollection size} {calls : List KeyRecCall}
    (fed : FedWith mb mac keyId key processed km calls) {element : ReconstructorQueueElement}
    (ofSession : OfSession mb mac keyId key element) :
    FedWith mb mac keyId key (processed ++ [element])
      (handleKeyFragment mb (some logKeyRecCall) (km, calls) element).1
      (handleKeyFragment mb (some logKeyRecCall) (km, calls) element).2 := by
  obtain ⟨collected, feeding, notFull, ofKey, phase⟩ := fed.collecting
  have ofKeyAfter := ofKey.after ofSession
  have later : ∀ number, number ∈ (genuineFragments mb processed).map Prod.fst →
      number ∈ (genuineFragments mb (processed ++ [element])).map Prod.fst := by
    intro number member
    rw [genuineFragments_concat, List.map_append]
    exact List.mem_append_left _ member
  obtain ⟨stillMissing, feedingNext, sameCalls⟩ | ⟨full, feedingNext, fragments, isFull, called⟩ :=
    handleKeyFragment_feeding mb positive feeding calls ofSession
  · refine ⟨⟨_, feedingNext, stillMissing, ofKeyAfter, ?_⟩, by rw [sameCalls]; exact fed.keys⟩
    rcases phase with ⟨none, isCollected⟩ | ⟨some, all⟩
    · refine Or.inl ⟨sameCalls.trans none, ?_⟩
      rw [isCollected]
      exact collectedAfter_offers mb processed element
    · exact Or.inr ⟨by rw [sameCalls]; exact some, fun number => later number (all number)⟩
  · refine ⟨⟨Collector.empty, feedingNext, ?_, ?_, Or.inr ⟨by simp [called], ?_⟩⟩, ?_⟩
    · exact fun emptyFull => by simpa [Collector.empty] using emptyFull 0
    · exact fun number fragment found => by simp [Collector.empty] at found
    · rcases phase with ⟨_, isCollected⟩ | ⟨_, all⟩
      · rw [isCollected, collectedAfter_offers] at full
        exact (Collector.full_offers_iff _).mp full
      · exact fun number => later number (all number)
    · have isKey : get128bKeyFromFragments fragments = key :=
        get128bKeyFromFragments_eq fun number => ofKeyAfter number _ (isFull number)
      intro call member
      rw [called, isKey] at member
      rcases List.mem_append.mp member with early | last
      · exact fed.keys call early
      · exact List.mem_singleton.mp last

theorem FedWith.run {mb : Mbedtls} (positive : 0 < size) {mac : EspBdAddr} {keyId : UInt16}
    {key : Key128b} (elements : List ReconstructorQueueElement) :
    ∀ {processed : List ReconstructorQueueElement} {km : KeyReconstructionCollection size}
      {calls : List KeyRecCall}, FedWith mb mac keyId key processed km calls →
      (∀ element ∈ elements, OfSession mb mac keyId key element) →
      FedWith mb mac keyId key (processed ++ elements)
        (handleKeyFragments mb (some logKeyRecCall) (km, calls) elements).1
        (handleKeyFragments mb (some logKeyRecCall) (km, calls) elements).2 := by
  induction elements with
  | nil =>
      intro processed km calls fed _
      rw [List.append_nil]
      exact fed
  | cons element rest ih =>
      intro processed km calls fed ofSession
      have next := ih (fed.step positive (ofSession element List.mem_cons_self))
        fun other member => ofSession other (List.mem_cons_of_mem element member)
      rw [List.append_assoc] at next
      exact next

/-- Fed with elements of one session, the reconstructor has passed a key exactly if all four
fragments were among the genuine ones, and every key it passed is the key of the session. -/
theorem fed_calls (mb : Mbedtls) (positive : 0 < size) {mac : EspBdAddr} {keyId : UInt16}
    {key : Key128b} {elements : List ReconstructorQueueElement}
    (ofSession : ∀ element ∈ elements, OfSession mb mac keyId key element) :
    let calls := (handleKeyFragments mb (some logKeyRecCall)
      (createNewKeyCollection size, []) elements).2
    (calls ≠ [] ↔ ∀ number, ∃ element ∈ elements,
      element.tagMatches mb = true ∧ element.keyFragmentNo = number) ∧
    ∀ call ∈ calls, call = ⟨keyId.toUInt8, key, mac⟩ := by
  intro calls
  have fed := (fedWith_start size mb mac keyId key).run positive elements ofSession
  rw [List.nil_append] at fed
  have numbers : ∀ number, number ∈ (genuineFragments mb elements).map Prod.fst ↔
      ∃ element ∈ elements, element.tagMatches mb = true ∧ element.keyFragmentNo = number := by
    intro number
    simp [genuineFragments, and_assoc]
  refine ⟨?_, fed.keys⟩
  obtain ⟨collected, _, notFull, _, ⟨none, isCollected⟩ | ⟨some, all⟩⟩ := fed.collecting
  · rw [isCollected, Collector.full_offers_iff] at notFull
    simp only [numbers] at notFull
    exact iff_of_false (fun called => called none) notFull
  · simp only [numbers] at all
    exact iff_of_true some all

end BleBroadcast.Receiver
