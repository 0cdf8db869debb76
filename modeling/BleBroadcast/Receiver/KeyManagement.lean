import Mathlib.Data.Fin.Basic
import BleBroadcast.Lib.Collector
import BleBroadcast.Core.BeaconPdu

/-!
# Fragments waiting for their key

Model of `key_management.c`: an array of entries, each with the fragments
collected for one sender address and one id byte.  An entry whose id is 0
counts as free.  The mutex is always obtained and no pointer is null.
-/

set_option autoImplicit false

namespace BleBroadcast.Receiver

open BleBroadcast.Core BleBroadcast.Lib

structure KeyManagement where
  keyFragments : KeySplitted
  keyId : UInt8
  noCollectedKeyFragments : Nat
  decryptedKeyFragments : FragmentNo → Bool
  key : Key128b
  consumerMacAddress : EspBdAddr

def KeyManagement.zero : KeyManagement where
  keyFragments := fun _ _ => 0
  keyId := 0
  noCollectedKeyFragments := 0
  decryptedKeyFragments := fun _ => false
  key := fun _ => 0
  consumerMacAddress := 0

/-- `key_reconstruction_collection`: the array `km` of `key_management_size` entries. -/
abbrev KeyReconstructionCollection (size : Nat) := Fin size → KeyManagement

variable {size : Nat}

def createNewKeyCollection (size : Nat) : KeyReconstructionCollection size :=
  fun _ => KeyManagement.zero

def getKeyIndexInCollection (km : KeyReconstructionCollection size) (mac : EspBdAddr)
    (keyId : UInt8) : Option (Fin size) :=
  Fin.find? fun i => (km i).keyId == keyId && (km i).consumerMacAddress == mac

def removeKeyFromCollection (km : KeyReconstructionCollection size) (mac : EspBdAddr)
    (keyId : UInt8) : KeyReconstructionCollection size :=
  match getKeyIndexInCollection km mac keyId with
  | some index => Function.update km index KeyManagement.zero
  | none => km

def isKeyInCollection (km : KeyReconstructionCollection size) (mac : EspBdAddr)
    (keyId : UInt8) : Bool :=
  (getKeyIndexInCollection km mac keyId).isSome

def claimedEntry (entry : KeyManagement) (mac : EspBdAddr) (keyId : UInt8) : KeyManagement :=
  { entry with
    keyId := keyId
    consumerMacAddress := mac }

/-- `add_new_key_to_collection`: claims the first entry with id 0. -/
def addNewKeyToCollection (km : KeyReconstructionCollection size) (mac : EspBdAddr)
    (keyId : UInt8) : Bool × KeyReconstructionCollection size :=
  match Fin.find? fun i => (km i).keyId == 0 with
  | some index => (true, Function.update km index (claimedEntry (km index) mac keyId))
  | none => (false, km)

def extendedEntry (entry : KeyManagement) (fragment : KeyFragment)
    (fragmentNo : FragmentNo) : KeyManagement :=
  { entry with
    keyFragments := addFragmentToKeySplitted entry.keyFragments fragment fragmentNo
    decryptedKeyFragments := Function.update entry.decryptedKeyFragments fragmentNo true
    noCollectedKeyFragments := entry.noCollectedKeyFragments + 1 }

def addFragmentToKeyManagement (km : KeyReconstructionCollection size) (mac : EspBdAddr)
    (keyId : UInt8) (fragment : KeyFragment) (fragmentNo : FragmentNo) :
    KeyReconstructionCollection size :=
  match getKeyIndexInCollection km mac keyId with
  | some index => Function.update km index (extendedEntry (km index) fragment fragmentNo)
  | none => km

def isKeyAvailable (km : KeyReconstructionCollection size) (mac : EspBdAddr)
    (keyId : UInt8) : Bool :=
  match getKeyIndexInCollection km mac keyId with
  | some index => (km index).noCollectedKeyFragments == 4
  | none => false

def isKeyFragmentDecrypted (km : KeyReconstructionCollection size) (mac : EspBdAddr)
    (keyId : UInt8) (fragmentNo : FragmentNo) : Bool :=
  match getKeyIndexInCollection km mac keyId with
  | some index => (km index).decryptedKeyFragments fragmentNo
  | none => false

/-- `reconstruct_key_from_key_fragments`: the result, the key buffer and the collection. -/
def reconstructKeyFromKeyFragments (km : KeyReconstructionCollection size) (key : Key128b)
    (mac : EspBdAddr) (keyId : UInt8) : Bool × Key128b × KeyReconstructionCollection size :=
  if isKeyAvailable km mac keyId then
    match getKeyIndexInCollection km mac keyId with
    | some index =>
        let assembled := get128bKeyFromFragments (km index).keyFragments
        (true, assembled, Function.update km index { km index with key := assembled })
    | none => (false, key, km)
  else (false, key, km)

/-! ## Where a lookup ends -/

theorem getKeyIndex_some {km : KeyReconstructionCollection size} {mac : EspBdAddr}
    {keyId : UInt8} {index : Fin size}
    (found : getKeyIndexInCollection km mac keyId = some index) :
    (km index).keyId = keyId ∧ (km index).consumerMacAddress = mac := by
  simpa using Fin.eq_true_of_find?_eq_some found

theorem getKeyIndex_none {km : KeyReconstructionCollection size} {mac : EspBdAddr}
    {keyId : UInt8} :
    getKeyIndexInCollection km mac keyId = none ↔
      ∀ i, (km i).keyId = keyId → (km i).consumerMacAddress ≠ mac := by
  simp [getKeyIndexInCollection]

theorem getKeyIndex_update {km : KeyReconstructionCollection size} {mac : EspBdAddr}
    {keyId : UInt8} {index : Fin size} {entry : KeyManagement}
    (found : getKeyIndexInCollection km mac keyId = some index)
    (sameId : entry.keyId = keyId) (sameMac : entry.consumerMacAddress = mac) :
    getKeyIndexInCollection (Function.update km index entry) mac keyId = some index := by
  have first := Fin.find?_eq_some_iff.mp found
  refine Fin.find?_eq_some_iff.mpr ⟨by simp [sameId, sameMac], ?_⟩
  intro j before
  rw [Function.update_of_ne (Fin.ne_of_lt before)]
  exact first.2 j before

theorem getKeyIndex_update_fresh {km : KeyReconstructionCollection size} {mac : EspBdAddr}
    {keyId : UInt8} (index : Fin size) {entry : KeyManagement}
    (missing : getKeyIndexInCollection km mac keyId = none)
    (sameId : entry.keyId = keyId) (sameMac : entry.consumerMacAddress = mac) :
    getKeyIndexInCollection (Function.update km index entry) mac keyId = some index := by
  refine Fin.find?_eq_some_iff.mpr ⟨by simp [sameId, sameMac], ?_⟩
  intro j before
  rw [Function.update_of_ne (Fin.ne_of_lt before)]
  exact Fin.eq_false_of_find?_eq_none missing j

section Found

variable {km : KeyReconstructionCollection size} {mac : EspBdAddr} {keyId : UInt8}
  {index : Fin size} (found : getKeyIndexInCollection km mac keyId = some index)

include found

theorem isKeyFragmentDecrypted_found (fragmentNo : FragmentNo) :
    isKeyFragmentDecrypted km mac keyId fragmentNo =
      (km index).decryptedKeyFragments fragmentNo := by
  simp only [isKeyFragmentDecrypted, found]

theorem isKeyAvailable_found :
    isKeyAvailable km mac keyId = ((km index).noCollectedKeyFragments == 4) := by
  simp only [isKeyAvailable, found]

theorem addFragmentToKeyManagement_found (fragment : KeyFragment) (fragmentNo : FragmentNo) :
    addFragmentToKeyManagement km mac keyId fragment fragmentNo =
      Function.update km index (extendedEntry (km index) fragment fragmentNo) := by
  simp only [addFragmentToKeyManagement, found]

theorem removeKeyFromCollection_found :
    removeKeyFromCollection km mac keyId = Function.update km index KeyManagement.zero := by
  simp only [removeKeyFromCollection, found]

theorem reconstructKeyFromKeyFragments_found (key : Key128b)
    (four : (km index).noCollectedKeyFragments = 4) :
    reconstructKeyFromKeyFragments km key mac keyId =
      (true, get128bKeyFromFragments (km index).keyFragments,
        Function.update km index { km index with
          key := get128bKeyFromFragments (km index).keyFragments }) := by
  have available : isKeyAvailable km mac keyId = true := by
    rw [isKeyAvailable_found found, four]
    rfl
  simp only [reconstructKeyFromKeyFragments, available, if_true, found]

end Found

/-! ## An entry as a collector -/

def KeyManagement.collected (entry : KeyManagement) : Collector FragmentNo KeyFragment :=
  fun number =>
    if entry.decryptedKeyFragments number then some (entry.keyFragments number) else none

structure KeyManagement.Open (entry : KeyManagement) : Prop where
  counted : entry.noCollectedKeyFragments = entry.collected.count
  unfinished : entry.noCollectedKeyFragments ≠ 4

theorem collected_zero : KeyManagement.zero.collected = Collector.empty := rfl

theorem open_zero : KeyManagement.zero.Open where
  counted := by rw [collected_zero, Collector.count_empty]; rfl
  unfinished := by decide

@[simp] theorem collected_claimedEntry (entry : KeyManagement) (mac : EspBdAddr)
    (keyId : UInt8) : (claimedEntry entry mac keyId).collected = entry.collected := rfl

theorem KeyManagement.Open.claimed {entry : KeyManagement} (isOpen : entry.Open)
    (mac : EspBdAddr) (keyId : UInt8) : (claimedEntry entry mac keyId).Open :=
  ⟨isOpen.counted, isOpen.unfinished⟩

theorem collected_extendedEntry (entry : KeyManagement) (fragment : KeyFragment)
    (fragmentNo : FragmentNo) :
    (extendedEntry entry fragment fragmentNo).collected =
      entry.collected.put fragmentNo fragment := by
  funext number
  by_cases same : number = fragmentNo
  · subst same
    simp [KeyManagement.collected, extendedEntry, addFragmentToKeySplitted, Collector.put]
  · simp [KeyManagement.collected, extendedEntry, addFragmentToKeySplitted, Collector.put, same]

theorem counted_extendedEntry {entry : KeyManagement} (isOpen : entry.Open)
    (fragment : KeyFragment) {fragmentNo : FragmentNo}
    (fresh : entry.decryptedKeyFragments fragmentNo = false) :
    (extendedEntry entry fragment fragmentNo).noCollectedKeyFragments =
      (extendedEntry entry fragment fragmentNo).collected.count := by
  have missing : entry.collected fragmentNo = none := by simp [KeyManagement.collected, fresh]
  rw [collected_extendedEntry, Collector.count_put fragment missing, ← isOpen.counted]
  rfl

theorem finished_iff {entry : KeyManagement}
    (counted : entry.noCollectedKeyFragments = entry.collected.count) :
    entry.noCollectedKeyFragments = 4 ↔ entry.collected.Full := by
  rw [counted]
  exact Collector.count_eq_card_iff entry.collected

theorem KeyManagement.Open.extended {entry : KeyManagement} (isOpen : entry.Open)
    (fragment : KeyFragment) {fragmentNo : FragmentNo}
    (fresh : entry.decryptedKeyFragments fragmentNo = false)
    (notFull : ¬ (extendedEntry entry fragment fragmentNo).collected.Full) :
    (extendedEntry entry fragment fragmentNo).Open := by
  have counted := counted_extendedEntry isOpen fragment fresh
  exact ⟨counted, fun four => notFull ((finished_iff counted).mp four)⟩

end BleBroadcast.Receiver
