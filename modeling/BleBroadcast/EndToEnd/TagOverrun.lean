import BleBroadcast.Core.CryptoMemory
import BleBroadcast.Receiver.KeyReconstructor
import BleBroadcast.Sender.PayloadEncryption

/-!
# The tag in its buffer

The two callers of `calculate_hmac_of_fragment` in one flat memory.  Both hand it a buffer of
`HMAC_SIZE` bytes: the sender the tail of its packed PDU, the receiver a local array beside
the one in which it has unmasked the fragment.  A digest has 32 bytes.
-/

set_option autoImplicit false

namespace BleBroadcast.EndToEnd

open BleBroadcast.Core BleBroadcast.Core.InMemory BleBroadcast.Lib
open BleBroadcast.Sender (PayloadEncryption initPayloadEncryption)
open BleBroadcast.Receiver (ReconstructorQueueElement KeyReconstructionCollection
  addFragmentToKeyManagement)

/-! ## The sender -/

/-- The addresses of `splitted_pre_shared_key` and of the PDU behind `key_pdu`. -/
structure KeyPduPlace where
  splittedPreSharedKey : Nat
  keyPdu : Nat
  apart : Buffer.Apart ⟨splittedPreSharedKey, 16⟩ ⟨keyPdu, keyPduSize⟩

def KeyPduPlace.fragment (place : KeyPduPlace) (number : FragmentNo) : Nat :=
  place.splittedPreSharedKey + 4 * number.val

abbrev keyFragmentHmacOffset : Nat := 13

def setWord (memory : CMemory) (address : Nat) (word : UInt16) : CMemory :=
  Function.update (Function.update memory address (lowByte word)) (address + 1) (highByte word)

/-- The fields that `get_key_fragment_pdu` sets before it masks the fragment, once the key is
the current one. -/
def setKeyPduHeader (place : KeyPduPlace) (state : PayloadEncryption) (number : FragmentNo)
    (xorSeed : UInt8) (memory : CMemory) : CMemory :=
  let memory := setWord memory (place.keyPdu + keySessionOffset)
    (produceKeySessionData state.keyId (UInt8.ofNat number.val))
  let memory := Function.update memory (place.keyPdu + 12) xorSeed
  let memory := setWord memory (place.keyPdu + pduNoOffset)
    (UInt16.ofNat state.encryptedPacketCounter)
  Function.update memory (place.keyPdu + commandOffset) keyFragmentCmd

/-- All it sets before the tag. -/
def setKeyPduFields (place : KeyPduPlace) (state : PayloadEncryption) (number : FragmentNo)
    (xorSeed : UInt8) (memory : CMemory) : CMemory :=
  InMemory.xorEncryptKeyFragment (setKeyPduHeader place state number xorSeed memory)
    (place.fragment number) (place.keyPdu + 8) xorSeed

/-- What `calculate_hmac_of_fragment` writes for `get_key_fragment_pdu`. -/
def keyPduTagWrites (mb : Mbedtls) (returns : MdReturns) (place : KeyPduPlace)
    (state : PayloadEncryption) (number : FragmentNo) (xorSeed : UInt8) (memory : CMemory) :
    List (Nat × UInt8) :=
  InMemory.calculateHmacOfFragment mb returns (setKeyPduFields place state number xorSeed memory)
    (place.fragment number) (place.keyPdu + 8) (place.keyPdu + keyFragmentHmacOffset)

/-- The memory after `get_key_fragment_pdu`. -/
def fillKeyPdu (mb : Mbedtls) (returns : MdReturns) (place : KeyPduPlace)
    (state : PayloadEncryption) (number : FragmentNo) (xorSeed : UInt8) (memory : CMemory) :
    CMemory :=
  (setKeyPduFields place state number xorSeed memory).apply
    (keyPduTagWrites mb returns place state number xorSeed memory)

/-- The tag is written inside the PDU, and every other field of it is as it was set. -/
def TagInsideKeyPdu (mb : Mbedtls) (returns : MdReturns) (place : KeyPduPlace)
    (state : PayloadEncryption) (number : FragmentNo) (xorSeed : UInt8) (memory : CMemory) :
    Prop :=
  WritesWithin ⟨place.keyPdu, keyPduSize⟩
    (keyPduTagWrites mb returns place state number xorSeed memory) ∧
  ∀ offset < keyFragmentHmacOffset,
    fillKeyPdu mb returns place state number xorSeed memory (place.keyPdu + offset) =
      setKeyPduFields place state number xorSeed memory (place.keyPdu + offset)

/-! ## The receiver -/

/-- The addresses of the element and of the two local arrays of
`process_and_store_key_fragment`, in any order and at any distance. -/
structure LocalBuffers where
  qElement : Nat
  decryptedKeyFragmentBuffer : Nat
  calculatedHmacBuffer : Nat
  decryptedApart : Buffer.Apart ⟨qElement, 20⟩ ⟨decryptedKeyFragmentBuffer, 4⟩
  hmacApart : Buffer.Apart ⟨qElement, 20⟩ ⟨calculatedHmacBuffer, 4⟩
  buffersApart : Buffer.Apart ⟨decryptedKeyFragmentBuffer, 4⟩ ⟨calculatedHmacBuffer, 4⟩

/-- The arguments of `add_fragment_to_key_management`. -/
structure FragmentCall where
  consumerMacAddress : EspBdAddr
  keyId : UInt8
  keyFragment : KeyFragment
  keyFragmentNo : UInt8

abbrev keyFragmentNoOffset : Nat := 2
abbrev encryptedKeyFragmentOffset : Nat := 3
abbrev keyHmacOffset : Nat := 7
abbrev elementXorSeedOffset : Nat := 11
abbrev consumerMacAddressOffset : Nat := 12

def macAt (memory : CMemory) (address : Nat) : EspBdAddr :=
  (List.range 6).foldl (fun mac i => mac <<< 8 ||| (memory (address + i)).toBitVec.setWidth 48) 0

/-- The local arrays with the fragment unmasked. -/
def unmaskFragment (place : LocalBuffers) (memory : CMemory) : CMemory :=
  let memory := memory.apply
    (block place.decryptedKeyFragmentBuffer (fun _ => 0 : KeyFragment))
  let memory := memory.apply (block place.calculatedHmacBuffer (fun _ => 0 : Hmac))
  InMemory.xorDecryptKeyFragment memory (place.qElement + encryptedKeyFragmentOffset)
    place.decryptedKeyFragmentBuffer (memory (place.qElement + elementXorSeedOffset))

/-- What `calculate_hmac_of_fragment` writes for `process_and_store_key_fragment`. -/
def elementTagWrites (mb : Mbedtls) (returns : MdReturns) (place : LocalBuffers)
    (memory : CMemory) : List (Nat × UInt8) :=
  InMemory.calculateHmacOfFragment mb returns (unmaskFragment place memory)
    place.decryptedKeyFragmentBuffer (place.qElement + encryptedKeyFragmentOffset)
    place.calculatedHmacBuffer

def tagElement (mb : Mbedtls) (returns : MdReturns) (place : LocalBuffers) (memory : CMemory) :
    CMemory :=
  (unmaskFragment place memory).apply (elementTagWrites mb returns place memory)

/-- The call that `process_and_store_key_fragment` makes if the tag is right. -/
def processAndStoreKeyFragment (mb : Mbedtls) (returns : MdReturns) (place : LocalBuffers)
    (memory : CMemory) : Option FragmentCall :=
  let tagged := tagElement mb returns place memory
  if cryptoSecureMemcmp (tagged.read place.calculatedHmacBuffer : Hmac)
      (tagged.read (place.qElement + keyHmacOffset)) = 0 then
    some
      { consumerMacAddress := macAt tagged (place.qElement + consumerMacAddressOffset)
        keyId := tagged place.qElement
        keyFragment := tagged.read place.decryptedKeyFragmentBuffer
        keyFragmentNo := tagged (place.qElement + keyFragmentNoOffset) }
  else none

def receivedFragment (place : LocalBuffers) (memory : CMemory) : KeyFragment :=
  Core.xorDecryptKeyFragment (memory.read (place.qElement + encryptedKeyFragmentOffset))
    (memory (place.qElement + elementXorSeedOffset))

/-- The tag is written inside its buffer, and the fragment passed on is the unmasked one. -/
def TagInsideBuffer (mb : Mbedtls) (returns : MdReturns) (place : LocalBuffers)
    (memory : CMemory) : Prop :=
  WritesWithin ⟨place.calculatedHmacBuffer, 4⟩ (elementTagWrites mb returns place memory) ∧
  ∀ call ∈ processAndStoreKeyFragment mb returns place memory,
    call.keyFragment = receivedFragment place memory

/-! ## What the sender's PDU shows -/

section Sender

variable (place : KeyPduPlace) (state : PayloadEncryption) (number : FragmentNo)
  (xorSeed : UInt8) (memory : CMemory)

theorem fragment_beside_keyPdu :
    place.fragment number + 4 ≤ place.keyPdu ∨ place.keyPdu + 17 ≤ place.fragment number := by
  have linear := apart_iff.mp place.apart
  have below := number.isLt
  simp only [KeyPduPlace.fragment]
  omega

theorem read_setKeyPduHeader :
    ((setKeyPduHeader place state number xorSeed memory).read (place.fragment number) :
      KeyFragment) = memory.read (place.fragment number) := by
  have beside := fragment_beside_keyPdu place number
  funext i
  have below := i.isLt
  simp only [FlatMemory.read, setKeyPduHeader, setWord, keySessionOffset, pduNoOffset,
    commandOffset]
  simp (disch := omega) only [Function.update_of_ne]

theorem setKeyPduFields_block :
    setKeyPduFields place state number xorSeed memory =
      (setKeyPduHeader place state number xorSeed memory).apply
        (block (place.keyPdu + 8)
          (Core.xorEncryptKeyFragment (memory.read (place.fragment number)) xorSeed)) := by
  have beside := fragment_beside_keyPdu place number
  have apart : Buffer.Apart ⟨place.fragment number, 4⟩ ⟨place.keyPdu + 8, 4⟩ :=
    apart_iff.mpr (by omega)
  rw [setKeyPduFields, xorEncryptKeyFragment_block _ apart, read_setKeyPduHeader]

theorem keyPduTagWrites_succeeds (mb : Mbedtls) {returns : MdReturns}
    (succeed : returns.Succeed) :
    keyPduTagWrites mb returns place state number xorSeed memory =
      block (place.keyPdu + keyFragmentHmacOffset)
        (fragmentDigest mb (memory.read (place.fragment number))
          (Core.xorEncryptKeyFragment (memory.read (place.fragment number)) xorSeed)) := by
  have beside := fragment_beside_keyPdu place number
  have apart : Buffer.Apart ⟨place.keyPdu + 8, 4⟩ ⟨place.fragment number, 4⟩ :=
    apart_iff.mpr (by omega)
  rw [keyPduTagWrites, calculateHmacOfFragment_succeeds _ _ _ _ _ succeed,
    setKeyPduFields_block, read_block, read_block_apart _ apart, read_setKeyPduHeader]

theorem fillKeyPdu_field (mb : Mbedtls) (returns : MdReturns) {offset : Nat}
    (field : offset < keyFragmentHmacOffset) :
    fillKeyPdu mb returns place state number xorSeed memory (place.keyPdu + offset) =
      setKeyPduFields place state number xorSeed memory (place.keyPdu + offset) := by
  by_cases succeed : returns.Succeed
  · rw [fillKeyPdu, keyPduTagWrites_succeeds _ _ _ _ _ mb succeed]
    refine apply_block_outside _ (not_holds_iff.mpr (Or.inl ?_))
    omega
  · rw [fillKeyPdu, keyPduTagWrites, calculateHmacOfFragment_fails _ _ _ _ _ succeed]
    rfl

theorem fillKeyPdu_digest (mb : Mbedtls) {returns : MdReturns} (succeed : returns.Succeed)
    (i : Fin 32) :
    fillKeyPdu mb returns place state number xorSeed memory
        (place.keyPdu + keyFragmentHmacOffset + i.val) =
      fragmentDigest mb (memory.read (place.fragment number))
        (Core.xorEncryptKeyFragment (memory.read (place.fragment number)) xorSeed) i := by
  rw [fillKeyPdu, keyPduTagWrites_succeeds _ _ _ _ _ mb succeed]
  exact apply_block_inside _ _ _ i

theorem fillKeyPdu_header (mb : Mbedtls) (returns : MdReturns) {offset : Nat}
    (header : offset < 8 ∨ offset = 12) :
    fillKeyPdu mb returns place state number xorSeed memory (place.keyPdu + offset) =
      setKeyPduHeader place state number xorSeed memory (place.keyPdu + offset) := by
  have field : offset < keyFragmentHmacOffset := by
    unfold keyFragmentHmacOffset
    omega
  rw [fillKeyPdu_field _ _ _ _ _ mb returns field, setKeyPduFields_block]
  refine apply_block_outside _ (not_holds_iff.mpr ?_)
  omega

theorem overlay_fillKeyPdu (mb : Mbedtls) {returns : MdReturns} (succeed : returns.Succeed)
    (key : memory.read (place.fragment number) = state.splittedPreSharedKey number) :
    BeaconKeyPduData.overlay
        (fun i => fillKeyPdu mb returns place state number xorSeed memory (place.keyPdu + i)) =
      Sender.filledKeyPdu mb state number
        (BeaconKeyPduData.overlay fun i => memory (place.keyPdu + i)) xorSeed := by
  have headers : ∀ offset < 8,
      fillKeyPdu mb returns place state number xorSeed memory (place.keyPdu + offset) =
        setKeyPduHeader place state number xorSeed memory (place.keyPdu + offset) :=
    fun offset below => fillKeyPdu_header _ _ _ _ _ mb returns (Or.inl below)
  have seed := fillKeyPdu_header place state number xorSeed memory mb returns (Or.inr rfl)
  have masked : ∀ i : Fin 4,
      fillKeyPdu mb returns place state number xorSeed memory (place.keyPdu + (8 + i.val)) =
        Core.xorEncryptKeyFragment (state.splittedPreSharedKey number) xorSeed i := by
    intro i
    have field : 8 + i.val < keyFragmentHmacOffset := by
      unfold keyFragmentHmacOffset
      omega
    rw [fillKeyPdu_field _ _ _ _ _ mb returns field, setKeyPduFields_block, key, ← Nat.add_assoc]
    exact apply_block_inside _ _ _ i
  have tag : ∀ i : Fin 4,
      fillKeyPdu mb returns place state number xorSeed memory (place.keyPdu + (13 + i.val)) =
        Core.calculateHmacOfFragment mb (state.splittedPreSharedKey number)
          (Core.xorEncryptKeyFragment (state.splittedPreSharedKey number) xorSeed) i := by
    intro i
    rw [calculateHmacOfFragment_tag (j := ⟨i.val, by omega⟩) mb _ _ rfl, ← key, ← Nat.add_assoc]
    exact fillKeyPdu_digest place state number xorSeed memory mb succeed ⟨i.val, by omega⟩
  have marker : ∀ i : Fin 3,
      fillKeyPdu mb returns place state number xorSeed memory (place.keyPdu + i.val) =
        memory (place.keyPdu + i.val) := by
    intro i
    have below := i.isLt
    rw [headers i.val (by omega)]
    simp only [setKeyPduHeader, setWord, keySessionOffset, pduNoOffset, commandOffset]
    simp (disch := omega) only [Function.update_of_ne]
  simp only [BeaconKeyPduData.overlay, Sender.filledKeyPdu, BeaconKeyPduData.mk.injEq,
    BeaconCryptoData.mk.injEq]
  refine ⟨funext marker, ?_, ?_, ?_, funext masked, ?_, funext tag⟩
  · rw [headers _ (by decide)]
    simp [setKeyPduHeader]
  · rw [headers _ (by decide), headers _ (by decide)]
    simp [setKeyPduHeader, setWord, pduNoOffset, commandOffset, Nat.add_assoc]
  · rw [headers _ (by decide), headers _ (by decide)]
    simp [setKeyPduHeader, setWord, keySessionOffset, pduNoOffset, commandOffset, Nat.add_assoc]
  · rw [seed]
    simp [setKeyPduHeader, setWord, Nat.add_assoc]

theorem tagInsideKeyPdu_iff (mb : Mbedtls) (returns : MdReturns) :
    TagInsideKeyPdu mb returns place state number xorSeed memory ↔ ¬ returns.Succeed := by
  rw [TagInsideKeyPdu, and_iff_left fun offset field =>
    fillKeyPdu_field place state number xorSeed memory mb returns field]
  refine tagWithin_iff mb _ _ _ _ ?_
  simp only [keyPduSize, keyFragmentHmacOffset]
  omega

end Sender

/-! ## What the receiver passes on -/

section Receiver

variable (place : LocalBuffers) (memory : CMemory)

theorem LocalBuffers.beside :
    (place.qElement + 20 ≤ place.decryptedKeyFragmentBuffer ∨
      place.decryptedKeyFragmentBuffer + 4 ≤ place.qElement) ∧
    (place.qElement + 20 ≤ place.calculatedHmacBuffer ∨
      place.calculatedHmacBuffer + 4 ≤ place.qElement) ∧
    (place.decryptedKeyFragmentBuffer + 4 ≤ place.calculatedHmacBuffer ∨
      place.calculatedHmacBuffer + 4 ≤ place.decryptedKeyFragmentBuffer) :=
  ⟨apart_iff.mp place.decryptedApart, apart_iff.mp place.hmacApart,
    apart_iff.mp place.buffersApart⟩

theorem initialised_element {offset : Nat} (inside : offset < 20) :
    ((memory.apply (block place.decryptedKeyFragmentBuffer (fun _ => 0 : KeyFragment))).apply
      (block place.calculatedHmacBuffer (fun _ => 0 : Hmac))) (place.qElement + offset) =
      memory (place.qElement + offset) := by
  obtain ⟨decrypted, hmac, _⟩ := place.beside
  have behindHmac : ¬ Buffer.Holds ⟨place.calculatedHmacBuffer, 4⟩ (place.qElement + offset) :=
    not_holds_iff.mpr (by omega)
  have behindDecrypted :
      ¬ Buffer.Holds ⟨place.decryptedKeyFragmentBuffer, 4⟩ (place.qElement + offset) :=
    not_holds_iff.mpr (by omega)
  rw [apply_block_outside _ behindHmac, apply_block_outside _ behindDecrypted]

theorem unmaskFragment_block :
    unmaskFragment place memory =
      ((memory.apply (block place.decryptedKeyFragmentBuffer (fun _ => 0 : KeyFragment))).apply
        (block place.calculatedHmacBuffer (fun _ => 0 : Hmac))).apply
          (block place.decryptedKeyFragmentBuffer (receivedFragment place memory)) := by
  obtain ⟨decrypted, _, _⟩ := place.beside
  have apart : Buffer.Apart ⟨place.qElement + encryptedKeyFragmentOffset, 4⟩
      ⟨place.decryptedKeyFragmentBuffer, 4⟩ := by
    refine apart_iff.mpr ?_
    unfold encryptedKeyFragmentOffset
    omega
  have masked : (FlatMemory.read
      ((memory.apply (block place.decryptedKeyFragmentBuffer (fun _ => 0 : KeyFragment))).apply
        (block place.calculatedHmacBuffer (fun _ => 0 : Hmac)))
      (place.qElement + encryptedKeyFragmentOffset) : KeyFragment) =
        memory.read (place.qElement + encryptedKeyFragmentOffset) :=
    read_congr (fun _ inside => initialised_element place memory inside) (by decide)
  rw [unmaskFragment, xorDecryptKeyFragment_block _ apart, masked,
    initialised_element place memory (by decide), receivedFragment]

theorem unmaskFragment_element {offset : Nat} (inside : offset < 20) :
    unmaskFragment place memory (place.qElement + offset) = memory (place.qElement + offset) := by
  obtain ⟨decrypted, _, _⟩ := place.beside
  have outside : ¬ Buffer.Holds ⟨place.decryptedKeyFragmentBuffer, 4⟩ (place.qElement + offset) :=
    not_holds_iff.mpr (by omega)
  rw [unmaskFragment_block, apply_block_outside _ outside, initialised_element place memory inside]

theorem read_unmaskFragment :
    (unmaskFragment place memory).read place.decryptedKeyFragmentBuffer =
      receivedFragment place memory := by
  rw [unmaskFragment_block, read_block]

/-- The digest that `calculate_hmac` writes for the element. -/
def elementDigest (mb : Mbedtls) : Bytes 32 :=
  fragmentDigest mb (receivedFragment place memory)
    (memory.read (place.qElement + encryptedKeyFragmentOffset))

theorem elementTagWrites_succeeds (mb : Mbedtls) {returns : MdReturns}
    (succeed : returns.Succeed) :
    elementTagWrites mb returns place memory =
      block place.calculatedHmacBuffer (elementDigest place memory mb) := by
  have masked : ((unmaskFragment place memory).read
      (place.qElement + encryptedKeyFragmentOffset) : KeyFragment) =
        memory.read (place.qElement + encryptedKeyFragmentOffset) :=
    read_congr (fun _ inside => unmaskFragment_element place memory inside) (by decide)
  rw [elementTagWrites, calculateHmacOfFragment_succeeds _ _ _ _ _ succeed, read_unmaskFragment,
    masked, elementDigest]

theorem tagInsideBuffer_iff (mb : Mbedtls) (returns : MdReturns) :
    TagInsideBuffer mb returns place memory ↔ ¬ returns.Succeed := by
  have within : WritesWithin ⟨place.calculatedHmacBuffer, 4⟩
      (elementTagWrites mb returns place memory) ↔ ¬ returns.Succeed :=
    tagWithin_iff mb _ _ _ _ (by simp only; omega)
  refine ⟨fun inside => within.mp inside.1, fun fails => ⟨within.mpr fails, ?_⟩⟩
  have nothing : elementTagWrites mb returns place memory = [] :=
    calculateHmacOfFragment_fails mb _ _ _ _ fails
  intro call made
  simp only [processAndStoreKeyFragment, tagElement, nothing] at made
  split at made
  · obtain rfl := Option.some.inj made
    exact read_unmaskFragment place memory
  · contradiction

/-- The fragment that is passed on is the unmasked one exactly if no byte of the digest
differs from the byte of the fragment on whose place it is written. -/
theorem fragmentIntact_iff (mb : Mbedtls) {returns : MdReturns} (succeed : returns.Succeed) :
    (tagElement mb returns place memory).read place.decryptedKeyFragmentBuffer =
        receivedFragment place memory ↔
      ∀ (i : Fin 4) (j : Fin 32),
        place.decryptedKeyFragmentBuffer + i.val = place.calculatedHmacBuffer + j.val →
          elementDigest place memory mb j = receivedFragment place memory i := by
  rw [tagElement, elementTagWrites_succeeds place memory mb succeed]
  constructor
  · intro intact i j same
    rw [← intact, FlatMemory.read, same]
    exact (apply_block_inside _ _ _ j).symm
  · intro agree
    funext i
    by_cases overwritten : Buffer.Holds ⟨place.calculatedHmacBuffer, 32⟩
        (place.decryptedKeyFragmentBuffer + i.val)
    · obtain ⟨above, below⟩ := overwritten
      simp only at above below
      obtain ⟨j, reached⟩ := Nat.exists_eq_add_of_le above
      have inDigest : j < 32 := by omega
      rw [FlatMemory.read, reached, ← agree i ⟨j, inDigest⟩ reached]
      exact apply_block_inside _ _ _ (⟨j, inDigest⟩ : Fin 32)
    · rw [FlatMemory.read, apply_block_outside _ overwritten]
      exact congrFun (read_unmaskFragment place memory) i

/-! ### With room for a digest -/

structure HoldsElement (memory : CMemory) (address : Nat) (element : ReconstructorQueueElement) :
    Prop where
  keyId : wordOfBytes (memory address) (memory (address + 1)) = element.keyId
  keyFragmentNo : memory (address + keyFragmentNoOffset) =
    UInt8.ofNat element.keyFragmentNo.val
  encryptedKeyFragment : memory.read (address + encryptedKeyFragmentOffset) =
    element.encryptedKeyFragment
  keyHmac : memory.read (address + keyHmacOffset) = element.keyHmac
  xorSeed : memory (address + elementXorSeedOffset) = element.xorSeed
  consumerMacAddress : macAt memory (address + consumerMacAddressOffset) =
    element.consumerMacAddress

def fragmentCall (element : ReconstructorQueueElement) : FragmentCall where
  consumerMacAddress := element.consumerMacAddress
  keyId := element.keyByte
  keyFragment := element.decrypted
  keyFragmentNo := UInt8.ofNat element.keyFragmentNo.val

theorem HoldsElement.receivedFragment {element : ReconstructorQueueElement}
    (held : HoldsElement memory place.qElement element) :
    receivedFragment place memory = element.decrypted := by
  rw [EndToEnd.receivedFragment, held.encryptedKeyFragment, held.xorSeed]
  rfl

theorem HoldsElement.elementDigest (mb : Mbedtls) {element : ReconstructorQueueElement}
    (held : HoldsElement memory place.qElement element) :
    elementDigest place memory mb =
      fragmentDigest mb element.decrypted element.encryptedKeyFragment := by
  rw [EndToEnd.elementDigest, held.receivedFragment, held.encryptedKeyFragment]

theorem macAt_congr {first second : CMemory} {address : Nat}
    (same : ∀ i < 6, first (address + i) = second (address + i)) :
    macAt first address = macAt second address := by
  refine List.foldl_ext _ _ _ fun mac i member => ?_
  rw [same i (List.mem_range.mp member)]

theorem HoldsElement.congr {first second : CMemory} {address : Nat}
    {element : ReconstructorQueueElement} (held : HoldsElement second address element)
    (same : ∀ offset < 20, first (address + offset) = second (address + offset)) :
    HoldsElement first address element where
  keyId := by
    rw [← held.keyId, same 1 (by decide)]
    exact congrArg (wordOfBytes · _) (same 0 (by decide))
  keyFragmentNo := by
    rw [same _ (by decide), held.keyFragmentNo]
  encryptedKeyFragment := by
    rw [read_congr same (by decide), held.encryptedKeyFragment]
  keyHmac := by
    rw [read_congr same (by decide), held.keyHmac]
  xorSeed := by
    rw [same _ (by decide), held.xorSeed]
  consumerMacAddress := by
    rw [← held.consumerMacAddress]
    refine macAt_congr fun i below => ?_
    simp only [Nat.add_assoc]
    refine same _ ?_
    unfold consumerMacAddressOffset
    omega

theorem tagElement_element (mb : Mbedtls) {returns : MdReturns} (succeed : returns.Succeed)
    (elementClear : Buffer.Apart ⟨place.calculatedHmacBuffer, 32⟩ ⟨place.qElement, 20⟩)
    {offset : Nat} (inside : offset < 20) :
    tagElement mb returns place memory (place.qElement + offset) =
      memory (place.qElement + offset) := by
  have outside : ¬ Buffer.Holds ⟨place.calculatedHmacBuffer, 32⟩ (place.qElement + offset) :=
    fun overwritten => elementClear _ overwritten
      ⟨Nat.le_add_right _ _, Nat.add_lt_add_left inside _⟩
  rw [tagElement, elementTagWrites_succeeds place memory mb succeed,
    apply_block_outside _ outside, unmaskFragment_element place memory inside]

/-- Where 32 bytes from the buffer on belong to nothing else, the call is the one of the model
without a memory. -/
theorem processAndStoreKeyFragment_room (mb : Mbedtls) {returns : MdReturns}
    (succeed : returns.Succeed) {element : ReconstructorQueueElement}
    (held : HoldsElement memory place.qElement element)
    (elementClear : Buffer.Apart ⟨place.calculatedHmacBuffer, 32⟩ ⟨place.qElement, 20⟩)
    (fragmentClear : Buffer.Apart ⟨place.calculatedHmacBuffer, 32⟩
      ⟨place.decryptedKeyFragmentBuffer, 4⟩) :
    processAndStoreKeyFragment mb returns place memory =
      if element.tagMatches mb then some (fragmentCall element) else none := by
  have after : HoldsElement (tagElement mb returns place memory) place.qElement element :=
    held.congr fun _ inside => tagElement_element place memory mb succeed elementClear inside
  have intact : (tagElement mb returns place memory).read place.decryptedKeyFragmentBuffer =
      element.decrypted := by
    rw [← held.receivedFragment, fragmentIntact_iff place memory mb succeed]
    intro i j overlap
    exact absurd (holds_offset _ i) (fragmentClear _ (overlap ▸ holds_offset _ j))
  have tag : ((tagElement mb returns place memory).read place.calculatedHmacBuffer : Hmac) =
      Core.calculateHmacOfFragment mb element.decrypted element.encryptedKeyFragment := by
    funext i
    rw [calculateHmacOfFragment_tag (j := ⟨i.val, by omega⟩) mb _ _ rfl,
      ← held.elementDigest place memory mb, tagElement,
      elementTagWrites_succeeds place memory mb succeed]
    exact apply_block_inside _ _ _ (⟨i.val, by omega⟩ : Fin 32)
  have id : tagElement mb returns place memory place.qElement = element.keyByte := by
    rw [ReconstructorQueueElement.keyByte, ← after.keyId]
    exact (lowByte_wordOfBytes _ _).symm
  simp only [processAndStoreKeyFragment, tag, after.keyHmac, intact, id, after.keyFragmentNo,
    after.consumerMacAddress, ReconstructorQueueElement.tagMatches, beq_iff_eq, fragmentCall]

theorem storedFragment_room (mb : Mbedtls) {returns : MdReturns}
    (succeed : returns.Succeed) {element : ReconstructorQueueElement}
    (held : HoldsElement memory place.qElement element)
    (elementClear : Buffer.Apart ⟨place.calculatedHmacBuffer, 32⟩ ⟨place.qElement, 20⟩)
    (fragmentClear : Buffer.Apart ⟨place.calculatedHmacBuffer, 32⟩
      ⟨place.decryptedKeyFragmentBuffer, 4⟩) {size : Nat} (km : KeyReconstructionCollection size) :
    Receiver.processAndStoreKeyFragment mb km element =
      (processAndStoreKeyFragment mb returns place memory).elim km fun call =>
        addFragmentToKeyManagement km call.consumerMacAddress call.keyId call.keyFragment
          (Fin.ofNat 4 call.keyFragmentNo.toNat) := by
  rw [processAndStoreKeyFragment_room place memory mb succeed held elementClear fragmentClear,
    Receiver.processAndStoreKeyFragment]
  by_cases tagged : element.tagMatches mb
  · have number : Fin.ofNat 4 (UInt8.ofNat element.keyFragmentNo.val).toNat =
        element.keyFragmentNo := by
      generalize element.keyFragmentNo = number
      revert number
      decide
    simp only [if_pos tagged, Option.elim_some, fragmentCall, number]
  · simp only [if_neg tagged, Option.elim_none]

end Receiver

/-! ## Both callers -/

/-- Wherever the buffers are, the tag stays inside them only if there is none. -/
theorem tag_stays_inside_iff (mb : Mbedtls) (returns : MdReturns) :
    (∀ place state number xorSeed memory,
      TagInsideKeyPdu mb returns place state number xorSeed memory ↔ ¬ returns.Succeed) ∧
    ∀ place memory, TagInsideBuffer mb returns place memory ↔ ¬ returns.Succeed :=
  ⟨fun place state number xorSeed memory =>
      tagInsideKeyPdu_iff place state number xorSeed memory mb returns,
    fun place memory => tagInsideBuffer_iff place memory mb returns⟩

def noErrors : MdReturns := ⟨true, 0, 0, 0, 0⟩

def pduBelowKey : KeyPduPlace where
  splittedPreSharedKey := 64
  keyPdu := 0
  apart := apart_iff.mpr (by decide)

def keyOfOnes : CMemory := Memory.ofList (List.replicate 64 0 ++ List.replicate 16 1)

/-- The unmasked fragment directly behind the tag, the element behind both. -/
def tagBelowFragment : LocalBuffers where
  qElement := 40
  decryptedKeyFragmentBuffer := 4
  calculatedHmacBuffer := 0
  decryptedApart := apart_iff.mpr (by decide)
  hmacApart := apart_iff.mpr (by decide)
  buffersApart := apart_iff.mpr (by decide)

def elementOfOnes : CMemory :=
  Memory.ofList (List.replicate 40 0 ++
    [1, 0, 0, 0x11, 0x10, 0x11, 0x10, 0x0f, 0x8e, 0x71, 0x43, 0x10, 1, 2, 3, 4, 5, 6])

/-- The sender writes the fifth byte of the digest behind its PDU.  The receiver finds the tag
right and passes on bytes 5 to 8 of the digest in place of the fragment. -/
theorem digest_replaces_fragment :
    (17, 0xc4) ∈ keyPduTagWrites tabulated noErrors pduBelowKey
      (initPayloadEncryption ⟨fun _ => 1, 1, 0⟩) 0 0x10 keyOfOnes ∧
    ¬ TagInsideKeyPdu tabulated noErrors pduBelowKey
      (initPayloadEncryption ⟨fun _ => 1, 1, 0⟩) 0 0x10 keyOfOnes ∧
    receivedFragment tagBelowFragment elementOfOnes = (fun _ => 1) ∧
    (processAndStoreKeyFragment tabulated noErrors tagBelowFragment elementOfOnes).map
      FragmentCall.keyFragment = some ![0xc4, 0x74, 0xde, 0x73] ∧
    ¬ TagInsideBuffer tabulated noErrors tagBelowFragment elementOfOnes := by
  have written : (17, 0xc4) ∈ keyPduTagWrites tabulated noErrors pduBelowKey
      (initPayloadEncryption ⟨fun _ => 1, 1, 0⟩) 0 0x10 keyOfOnes := by
    decide +kernel
  have ones : receivedFragment tagBelowFragment elementOfOnes = (fun _ => 1) := by
    decide +kernel
  have passedOn : (processAndStoreKeyFragment tabulated noErrors tagBelowFragment
      elementOfOnes).map FragmentCall.keyFragment = some ![0xc4, 0x74, 0xde, 0x73] := by
    decide +kernel
  refine ⟨written, fun inside => ?_, ones, passedOn, fun inside => ?_⟩
  · exact absurd (inside.1 _ written) (by decide)
  · obtain ⟨call, made, fragment⟩ := Option.map_eq_some_iff.mp passedOn
    have intact := inside.2 call made
    rw [ones, fragment] at intact
    exact absurd (congrFun intact 0) (by decide)

end BleBroadcast.EndToEnd
