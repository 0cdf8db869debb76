import BleBroadcast.Core.BeaconPdu
import BleBroadcast.Receiver.KeyCache

/-!
# Sender records

Model of `ble_consumer.c` and `ble_consumer_collection.c`: what the receiver
keeps for each sender, and the array of records.  The sizes of the array and of the
key caches are left open, as their functions leave them; the receiver has
`MAX_BLE_CONSUMERS` records.  A record whose address is all zeros is free.
Allocations succeed, mutexes are always obtained and no pointer is null.
-/

set_option autoImplicit false

namespace BleBroadcast.Receiver

open BleBroadcast.Core

abbrev deferredQueueSize : Nat := 80

/-- A frame in the deferred queue, with ghost number: which of the DATA frames taken it was. -/
structure DeferredPdu where
  pdu : BeaconPduData
  arrival : Nat

namespace Sized

/-- `ble_consumer` with its `ble_consumer_context`, and a key cache of any size. -/
structure BleConsumer (cacheSize : Nat) where
  deferredQueue : List DeferredPdu
  deferredQueueCount : UInt8
  keyCache : KeyReconstructionCache cacheSize
  processDeferredQRequestPending : Bool
  macAddressArr : EspBdAddr
  lastPdu : Timestamp
  lastPduKeyId : UInt16

structure BleConsumerCollection (size cacheSize : Nat) where
  arr : Fin size → BleConsumer cacheSize
  consumersCount : UInt8

end Sized

abbrev maxBleConsumers : Nat := 2

/-- The receiver keeps five keys for each sender. -/
abbrev BleConsumer := Sized.BleConsumer 5

abbrev BleConsumerCollection := Sized.BleConsumerCollection 2 5

variable {size cacheSize : Nat}

/-- `create_ble_consumer_resources` and `init_ble_consumer`. -/
def initBleConsumer (garbage : Fin cacheSize → KeyReconstructionMap) :
    Sized.BleConsumer cacheSize where
  deferredQueue := []
  deferredQueueCount := 0
  keyCache := initKeyCache (createKeyCache garbage)
  processDeferredQRequestPending := false
  macAddressArr := 0
  lastPdu := ⟨0, 0⟩
  lastPduKeyId := 0

/-- `reset_ble_consumer`: `last_pdu_key_id` keeps its value. -/
def resetBleConsumer (consumer : Sized.BleConsumer cacheSize) : Sized.BleConsumer cacheSize :=
  { consumer with
    processDeferredQRequestPending := false
    deferredQueueCount := 0
    lastPdu := ⟨0, 0⟩
    macAddressArr := 0
    keyCache := clearCache consumer.keyCache
    deferredQueue := [] }

/-- `add_to_deferred_queue`: false when the queue is full. -/
def addToDeferredQueue (consumer : Sized.BleConsumer cacheSize) (item : DeferredPdu) :
    Bool × Sized.BleConsumer cacheSize :=
  if consumer.deferredQueue.length < deferredQueueSize then
    (true, { consumer with
      deferredQueue := consumer.deferredQueue ++ [item]
      deferredQueueCount := consumer.deferredQueueCount + 1 })
  else (false, consumer)

def getDeferredQueueItem (consumer : Sized.BleConsumer cacheSize) :
    Option (DeferredPdu × Sized.BleConsumer cacheSize) :=
  match consumer.deferredQueue with
  | [] => none
  | item :: rest =>
      some (item, { consumer with
        deferredQueue := rest
        deferredQueueCount :=
          if consumer.deferredQueueCount > 0 then consumer.deferredQueueCount - 1
          else consumer.deferredQueueCount })

/-- `is_pdu_in_deferred_queue`: it looks at the counter, not at the queue. -/
def isPduInDeferredQueue (consumer : Sized.BleConsumer cacheSize) : Bool :=
  consumer.deferredQueueCount != 0

def createBleConsumerCollection (garbage : Fin size → Fin cacheSize → KeyReconstructionMap) :
    Sized.BleConsumerCollection size cacheSize where
  arr := fun i => initBleConsumer (garbage i)
  consumersCount := 0

def setConsumer (collection : Sized.BleConsumerCollection size cacheSize) (index : Fin size)
    (consumer : Sized.BleConsumer cacheSize) : Sized.BleConsumerCollection size cacheSize :=
  { collection with arr := Function.update collection.arr index consumer }

def getIndexForMacAddr (collection : Sized.BleConsumerCollection size cacheSize)
    (mac : EspBdAddr) : Option (Fin size) :=
  Fin.find? fun i => (collection.arr i).macAddressArr == mac

def getFirstFreeIndex (collection : Sized.BleConsumerCollection size cacheSize) :
    Option (Fin size) :=
  if collection.consumersCount.toNat < size then getIndexForMacAddr collection 0 else none

def stampConsumer (consumer : Sized.BleConsumer cacheSize) (tickCount : UInt32) :
    Sized.BleConsumer cacheSize :=
  { consumer with lastPdu := saveTimestamp consumer.lastPdu tickCount }

/-- `add_consumer_to_collection`: the index stands for the returned pointer. -/
def addConsumerToCollection (collection : Sized.BleConsumerCollection size cacheSize)
    (mac : EspBdAddr) (tickCount : UInt32) :
    Option (Fin size) × Sized.BleConsumerCollection size cacheSize :=
  match getFirstFreeIndex collection with
  | some index =>
      let claimed := { resetBleConsumer (collection.arr index) with macAddressArr := mac }
      (some index, { setConsumer collection index (stampConsumer claimed tickCount) with
        consumersCount := collection.consumersCount + 1 })
  | none => (none, collection)

def getBleConsumerFromCollection (collection : Sized.BleConsumerCollection size cacheSize)
    (mac : EspBdAddr) (tickCount : UInt32) :
    Option (Fin size) × Sized.BleConsumerCollection size cacheSize :=
  match getIndexForMacAddr collection mac with
  | some index =>
      (some index,
        setConsumer collection index (stampConsumer (collection.arr index) tickCount))
  | none => (none, collection)

def getActiveNoConsumers (collection : Sized.BleConsumerCollection size cacheSize) : Nat :=
  collection.consumersCount.toNat

/-! ## The counter and the queue -/

/-- The counter of a record counts its queue, which is within its size. -/
structure Counted (consumer : BleConsumer) : Prop where
  count : consumer.deferredQueueCount.toNat = consumer.deferredQueue.length
  room : consumer.deferredQueue.length ≤ 80

theorem counted_init (garbage : Fin 5 → KeyReconstructionMap) :
    Counted (initBleConsumer garbage) := ⟨rfl, Nat.zero_le 80⟩

theorem Counted.isPduInDeferredQueue_iff {consumer : BleConsumer} (counted : Counted consumer) :
    isPduInDeferredQueue consumer = true ↔ consumer.deferredQueue ≠ [] := by
  have count := counted.count
  rw [isPduInDeferredQueue, bne_iff_ne, ne_eq, ← UInt8.toNat_inj, count]
  simp

theorem addToDeferredQueue_room {consumer : BleConsumer} (item : DeferredPdu)
    (room : consumer.deferredQueue.length < 80) :
    addToDeferredQueue consumer item =
      (true, { consumer with
        deferredQueue := consumer.deferredQueue ++ [item]
        deferredQueueCount := consumer.deferredQueueCount + 1 }) := if_pos room

theorem addToDeferredQueue_full {consumer : BleConsumer} (item : DeferredPdu)
    (full : consumer.deferredQueue.length = 80) :
    addToDeferredQueue consumer item = (false, consumer) :=
  if_neg (by rw [full]; decide)

theorem Counted.addToDeferredQueue {consumer : BleConsumer} (counted : Counted consumer)
    (item : DeferredPdu) : Counted (addToDeferredQueue consumer item).2 := by
  have count := counted.count
  unfold Receiver.addToDeferredQueue
  split
  · rename_i below
    have one : (1 : UInt8).toNat = 1 := rfl
    constructor
    · simp only [UInt8.toNat_add, count, one, List.length_append, List.length_singleton]
      unfold deferredQueueSize at below
      omega
    · simp only [List.length_append, List.length_singleton]
      unfold deferredQueueSize at below
      omega
  · exact counted

theorem Counted.getDeferredQueueItem {consumer rest : BleConsumer} {item : DeferredPdu}
    (counted : Counted consumer) (taken : getDeferredQueueItem consumer = some (item, rest)) :
    Counted rest := by
  have count := counted.count
  have room := counted.room
  unfold Receiver.getDeferredQueueItem at taken
  cases queue : consumer.deferredQueue with
  | nil => simp [queue] at taken
  | cons first others =>
      rw [queue, List.length_cons] at count room
      simp only [queue, Option.some.injEq, Prod.mk.injEq] at taken
      obtain ⟨_, rfl⟩ := taken
      have positive : consumer.deferredQueueCount > 0 := by
        rw [gt_iff_lt, UInt8.lt_iff_toNat_lt, count]
        simp
      have one : (1 : UInt8) ≤ consumer.deferredQueueCount := by
        rw [UInt8.le_iff_toNat_le, count]
        simp
      constructor
      · simp only [if_pos positive, UInt8.toNat_sub_of_le _ _ one, count]
        simp
      · simp only
        omega

/-! ## Which record a sender has -/

theorem getIndexForMacAddr_some {collection : Sized.BleConsumerCollection size cacheSize}
    {mac : EspBdAddr} {index : Fin size} (found : getIndexForMacAddr collection mac = some index) :
    (collection.arr index).macAddressArr = mac := by
  simpa using Fin.eq_true_of_find?_eq_some found

theorem getIndexForMacAddr_none {collection : Sized.BleConsumerCollection size cacheSize}
    {mac : EspBdAddr} :
    getIndexForMacAddr collection mac = none ↔
      ∀ i, (collection.arr i).macAddressArr ≠ mac := by
  simp [getIndexForMacAddr]

end BleBroadcast.Receiver
