import BleBroadcast.Receiver.CacheEviction
import BleBroadcast.Receiver.SenderTables

/-!
# The collection of senders, of any size

The rest of `ble_consumer_collection.c`: the removal of a sender, which the receiver does
not call.  A record is free if its address is all zeros, and `consumers_count` is kept
beside these marks, for a collection and key caches of any size.
-/

set_option autoImplicit false

namespace BleBroadcast.Receiver.Sized

open BleBroadcast.Core BleBroadcast.Lib

variable {size cacheSize : Nat}

/-- `clear_ble_consumer_from_collection`.  Its status is -1 also where it clears the record. -/
def clearBleConsumerFromCollection (collection : BleConsumerCollection size cacheSize)
    (index : Fin size) : Int × BleConsumerCollection size cacheSize :=
  (-1, { setConsumer collection index (resetBleConsumer (collection.arr index)) with
    consumersCount := collection.consumersCount - 1 })

/-- `remove_consumer_from_collection`, which ignores that status. -/
def removeConsumerFromCollection (collection : BleConsumerCollection size cacheSize)
    (mac : EspBdAddr) : Int × BleConsumerCollection size cacheSize :=
  match getIndexForMacAddr collection mac with
  | some index => (0, (clearBleConsumerFromCollection collection index).2)
  | none => (0, collection)

/-! ## Runs of the collection -/

/-- What the holder of a pointer to a record does with it.  Nothing sets the address. -/
inductive RecordUse where
  | addToDeferredQueue (item : DeferredPdu)
  | getDeferredQueueItem
  | setDeferredQPendingProcessing (request : Bool)
  | operateKeyCache (operation : CacheOperation) (tickCount : UInt32)
  | setLastPduKeyId (keyId : UInt16)

def useRecord (consumer : BleConsumer cacheSize) : RecordUse → BleConsumer cacheSize
  | .addToDeferredQueue item => (addToDeferredQueue consumer item).2
  | .getDeferredQueueItem => ((getDeferredQueueItem consumer).map Prod.snd).getD consumer
  | .setDeferredQPendingProcessing request =>
      { consumer with processDeferredQRequestPending := request }
  | .operateKeyCache operation tickCount =>
      { consumer with keyCache := operateCache consumer.keyCache tickCount operation }
  | .setLastPduKeyId keyId => { consumer with lastPduKeyId := keyId }

inductive CollectionStep (size : Nat) where
  | getBleConsumerFromCollection (mac : EspBdAddr) (tickCount : UInt32)
  /-- `add_consumer_to_collection` where the lookup returned `NULL`. -/
  | addConsumerToCollection (mac : EspBdAddr) (tickCount : UInt32)
  | removeConsumerFromCollection (mac : EspBdAddr)
  | useRecord (index : Fin size) (use : RecordUse)

def collectionStep (collection : BleConsumerCollection size cacheSize) :
    CollectionStep size → BleConsumerCollection size cacheSize
  | .getBleConsumerFromCollection mac tickCount =>
      (getBleConsumerFromCollection collection mac tickCount).2
  | .addConsumerToCollection mac tickCount =>
      match getBleConsumerFromCollection collection mac tickCount with
      | (some _, looked) => looked
      | (none, looked) => (addConsumerToCollection looked mac tickCount).2
  | .removeConsumerFromCollection mac => (removeConsumerFromCollection collection mac).2
  | .useRecord index use => setConsumer collection index (useRecord (collection.arr index) use)

/-- The record of the sender of a frame is found or added as here; the test of the count that
`handle_event_new_pdu` makes before it adds is made again by the addition. -/
theorem collectionStep_consumerForFrame (collection : Receiver.BleConsumerCollection)
    (mac : EspBdAddr) (tickCount : UInt32) :
    collectionStep collection (.addConsumerToCollection mac tickCount) =
      (consumerForFrame collection mac tickCount).2 := by
  simp only [collectionStep, consumerForFrame]
  generalize getBleConsumerFromCollection collection mac tickCount = result
  obtain ⟨_ | index, looked⟩ := result
  · simp only
    split
    · rfl
    · rename_i full
      have noneFree : getFirstFreeIndex looked = none := if_neg full
      simp only [addConsumerToCollection, noneFree]
  · rfl

structure FreshRecord (consumer : BleConsumer cacheSize) : Prop where
  queue : consumer.deferredQueue = []
  count : consumer.deferredQueueCount = 0
  noKey : ∀ keyId, keyId ≠ 0 → isKeyInCache consumer.keyCache keyId = false

/-- The count is that of the records in use, no sender has two, and a sender that has none
gets a fresh one exactly if there is a free one. -/
structure CollectionInStep (collection : BleConsumerCollection size cacheSize) : Prop where
  counted : collection.consumersCount.toNat = usedCount 0 (recordAddresses collection)
  unshared : ∀ i j, recordAddresses collection i = recordAddresses collection j →
    recordAddresses collection i ≠ 0 → i = j
  admits : ∀ mac tickCount, getIndexForMacAddr collection mac = none →
    ((addConsumerToCollection collection mac tickCount).1 ≠ none ↔
      ∃ i, recordAddresses collection i = 0)
  fresh : ∀ mac tickCount index, getIndexForMacAddr collection mac = none →
    (addConsumerToCollection collection mac tickCount).1 = some index →
      let added := (addConsumerToCollection collection mac tickCount).2.arr index
      added.macAddressArr = mac ∧ FreshRecord added

/-- The address of the free mark is removed only if no record is free. -/
def RemovesUsed (collection : BleConsumerCollection size cacheSize) : CollectionStep size → Prop
  | .removeConsumerFromCollection mac => mac = 0 → ∀ i, recordAddresses collection i ≠ 0
  | _ => True

/-! ## What the steps keep -/

structure RecordsInStep (collection : BleConsumerCollection size cacheSize) : Prop where
  counted : collection.consumersCount.toNat = usedCount 0 (recordAddresses collection)
  unshared : Unshared 0 (recordAddresses collection)
  stands : ∀ i, ShortcutStands (collection.arr i).keyCache

theorem recordsInStep_create (garbage : Fin size → Fin cacheSize → KeyReconstructionMap) :
    RecordsInStep (createBleConsumerCollection garbage) where
  counted := (usedCount_empty fun _ => rfl).symm
  unshared := fun _ _ _ used => absurd rfl used
  stands := fun _ _ _ _ absurd => by contradiction

theorem freshRecord_reset {consumer : BleConsumer cacheSize}
    (stands : ShortcutStands consumer.keyCache) : FreshRecord (resetBleConsumer consumer) where
  queue := rfl
  count := rfl
  noKey := by
    obtain ⟨standsCleared, cleared⟩ := stands.clearCache
    intro keyId nonzero
    refine Bool.eq_false_of_not_eq_true fun cached => ?_
    obtain ⟨i, there⟩ := (standsCleared.cached_iff nonzero).mp cached
    exact nonzero (there.symm.trans (cleared i))

section
variable {collection : BleConsumerCollection size cacheSize}
  (inStep : RecordsInStep collection)
include inStep

theorem RecordsInStep.stands_setConsumer {index : Fin size} {consumer : BleConsumer cacheSize}
    (stands : ShortcutStands consumer.keyCache) (i : Fin size) :
    ShortcutStands ((setConsumer collection index consumer).arr i).keyCache :=
  (Function.forall_update_iff collection.arr
    fun _ consumer => ShortcutStands consumer.keyCache).mpr ⟨stands, fun i _ => inStep.stands i⟩ i

theorem RecordsInStep.setConsumer {index : Fin size} {consumer : BleConsumer cacheSize}
    (sameMac : consumer.macAddressArr = recordAddresses collection index)
    (stands : ShortcutStands consumer.keyCache) :
    RecordsInStep (setConsumer collection index consumer) := by
  have same : recordAddresses (Receiver.setConsumer collection index consumer) =
      recordAddresses collection := by
    rw [recordAddresses_setConsumer, sameMac]
    exact Function.update_eq_self index _
  refine ⟨?_, ?_, inStep.stands_setConsumer stands⟩
  · rw [same]
    exact inStep.counted
  · rw [same]
    exact inStep.unshared

theorem RecordsInStep.getBleConsumerFromCollection (mac : EspBdAddr) (tickCount : UInt32) :
    RecordsInStep (getBleConsumerFromCollection collection mac tickCount).2 := by
  unfold Receiver.getBleConsumerFromCollection
  split
  · exact inStep.setConsumer rfl (inStep.stands _)
  · exact inStep

theorem RecordsInStep.room {index : Fin size} (isFree : recordAddresses collection index = 0) :
    collection.consumersCount.toNat < size := by
  rw [inStep.counted]
  exact (usedCount_lt isFree).trans_eq (Fintype.card_fin size)

theorem RecordsInStep.addConsumerToCollection_cases (mac : EspBdAddr) (tickCount : UInt32) :
    (∃ index, recordAddresses collection index = 0 ∧
      addConsumerToCollection collection mac tickCount =
        (some index, { Receiver.setConsumer collection index (stampConsumer
            { resetBleConsumer (collection.arr index) with macAddressArr := mac } tickCount) with
          consumersCount := collection.consumersCount + 1 })) ∨
    ((∀ i, recordAddresses collection i ≠ 0) ∧
      addConsumerToCollection collection mac tickCount = (none, collection)) := by
  cases free : getIndexForMacAddr collection 0 with
  | some index =>
      have isFree := getIndexForMacAddr_some free
      refine Or.inl ⟨index, isFree, ?_⟩
      simp only [addConsumerToCollection, getFirstFreeIndex, if_pos (inStep.room isFree), free]
  | none =>
      have noneFree : getFirstFreeIndex collection = none := by
        rw [getFirstFreeIndex, free, ite_self]
      refine Or.inr ⟨getIndexForMacAddr_none.mp free, ?_⟩
      simp only [addConsumerToCollection, noneFree]

theorem RecordsInStep.addConsumerToCollection (small : size < 2 ^ 8) {mac : EspBdAddr}
    (missing : getIndexForMacAddr collection mac = none) (tickCount : UInt32) :
    RecordsInStep (addConsumerToCollection collection mac tickCount).2 := by
  have elsewhere := getIndexForMacAddr_none.mp missing
  obtain ⟨index, isFree, added⟩ | ⟨_, added⟩ :=
    inStep.addConsumerToCollection_cases mac tickCount
  · have used : mac ≠ 0 := fun zero => elsewhere index (isFree.trans zero.symm)
    have below := inStep.room isFree
    rw [added]
    refine ⟨?_, ?_, inStep.stands_setConsumer (inStep.stands index).clearCache.1⟩
    · have one : (1 : UInt8).toNat = 1 := rfl
      show (collection.consumersCount + 1).toNat =
        usedCount 0 (recordAddresses (Receiver.setConsumer collection index _))
      rw [recordAddresses_setConsumer]
      refine Eq.trans ?_ (usedCount_claim isFree used).symm
      rw [UInt8.toNat_add, one, ← inStep.counted]
      omega
    · show Unshared 0 (recordAddresses (Receiver.setConsumer collection index _))
      rw [recordAddresses_setConsumer]
      exact inStep.unshared.update fun _ i _ => elsewhere i
  · rw [added]
    exact inStep

theorem RecordsInStep.removeConsumerFromCollection {mac : EspBdAddr}
    (removesUsed : mac = 0 → ∀ i, recordAddresses collection i ≠ 0) :
    RecordsInStep (removeConsumerFromCollection collection mac).2 := by
  cases found : getIndexForMacAddr collection mac with
  | none =>
      simp only [Sized.removeConsumerFromCollection, found]
      exact inStep
  | some index =>
      have isMac := getIndexForMacAddr_some found
      have used : recordAddresses collection index ≠ 0 := fun zero =>
        removesUsed (isMac.symm.trans zero) index zero
      have released := usedCount_release used
      have one : (1 : UInt8) ≤ collection.consumersCount := by
        rw [UInt8.le_iff_toNat_le, inStep.counted, ← released]
        exact Nat.succ_pos _
      simp only [Sized.removeConsumerFromCollection, found, clearBleConsumerFromCollection]
      refine ⟨?_, ?_, inStep.stands_setConsumer (inStep.stands index).clearCache.1⟩
      · show (collection.consumersCount - 1).toNat =
          usedCount 0 (recordAddresses (Receiver.setConsumer collection index _))
        rw [recordAddresses_setConsumer, UInt8.toNat_sub_of_le _ _ one, inStep.counted, ← released]
        exact Nat.add_sub_cancel _ 1
      · show Unshared 0 (recordAddresses (Receiver.setConsumer collection index _))
        rw [recordAddresses_setConsumer]
        exact inStep.unshared.update fun absurd => (absurd rfl).elim

theorem RecordsInStep.proper : CollectionInStep collection where
  counted := inStep.counted
  unshared := inStep.unshared
  admits := by
    intro mac tickCount _
    obtain ⟨index, isFree, added⟩ | ⟨noneFree, added⟩ :=
      inStep.addConsumerToCollection_cases mac tickCount
    · rw [added]
      exact iff_of_true (Option.some_ne_none _) ⟨index, isFree⟩
    · rw [added]
      refine iff_of_false (fun absurd => absurd rfl) ?_
      rintro ⟨i, isFree⟩
      exact noneFree i isFree
  fresh := by
    intro mac tickCount index _ isAdded
    obtain ⟨claimed, _, added⟩ | ⟨_, added⟩ :=
      inStep.addConsumerToCollection_cases mac tickCount
    · rw [added] at isAdded
      obtain rfl := Option.some.inj isAdded
      have reset := freshRecord_reset (inStep.stands claimed)
      have own : (Receiver.addConsumerToCollection collection mac tickCount).2.arr claimed =
          stampConsumer { resetBleConsumer (collection.arr claimed) with macAddressArr := mac }
            tickCount := by
        rw [added]
        exact Function.update_self _ _ _
      intro record
      rw [show record = _ from own]
      exact ⟨rfl, reset.queue, reset.count, reset.noKey⟩
    · rw [added] at isAdded
      contradiction

end

theorem useRecord_macAddress (consumer : BleConsumer cacheSize) (use : RecordUse) :
    (useRecord consumer use).macAddressArr = consumer.macAddressArr := by
  cases use with
  | addToDeferredQueue item =>
      simp only [useRecord, addToDeferredQueue]
      split <;> rfl
  | getDeferredQueueItem =>
      simp only [useRecord, getDeferredQueueItem]
      split <;> rfl
  | setDeferredQPendingProcessing request => rfl
  | operateKeyCache operation tickCount => rfl
  | setLastPduKeyId keyId => rfl

theorem useRecord_stands {consumer : BleConsumer cacheSize}
    (stands : ShortcutStands consumer.keyCache) (use : RecordUse) :
    ShortcutStands (useRecord consumer use).keyCache := by
  cases use with
  | addToDeferredQueue item =>
      simp only [useRecord, addToDeferredQueue]
      split <;> exact stands
  | getDeferredQueueItem =>
      simp only [useRecord, getDeferredQueueItem]
      split <;> exact stands
  | setDeferredQPendingProcessing request => exact stands
  | operateKeyCache operation tickCount => exact stands.operateCache tickCount operation
  | setLastPduKeyId keyId => exact stands

theorem RecordsInStep.step (small : size < 2 ^ 8)
    (collection : BleConsumerCollection size cacheSize) (step : CollectionStep size)
    (inStep : RecordsInStep collection) (removesUsed : RemovesUsed collection step) :
    RecordsInStep (collectionStep collection step) := by
  cases step with
  | getBleConsumerFromCollection mac tickCount =>
      exact inStep.getBleConsumerFromCollection mac tickCount
  | addConsumerToCollection mac tickCount =>
      cases found : getIndexForMacAddr collection mac with
      | some index =>
          simp only [collectionStep, Receiver.getBleConsumerFromCollection, found]
          exact inStep.setConsumer rfl (inStep.stands index)
      | none =>
          simp only [collectionStep, Receiver.getBleConsumerFromCollection, found]
          exact inStep.addConsumerToCollection small found tickCount
  | removeConsumerFromCollection mac => exact inStep.removeConsumerFromCollection removesUsed
  | useRecord index use =>
      exact inStep.setConsumer (useRecord_macAddress _ use)
        (useRecord_stands (inStep.stands index) use)

/-- The removal of a free record leaves the addresses, and takes one off the count. -/
theorem not_inStep_of_freeMark (collection : BleConsumerCollection size cacheSize)
    (step : CollectionStep size) (inStep : RecordsInStep collection)
    (freeMark : ¬ RemovesUsed collection step) :
    ¬ CollectionInStep (collectionStep collection step) := by
  cases step with
  | getBleConsumerFromCollection mac tickCount => exact absurd trivial freeMark
  | addConsumerToCollection mac tickCount => exact absurd trivial freeMark
  | useRecord index use => exact absurd trivial freeMark
  | removeConsumerFromCollection mac =>
      simp only [RemovesUsed, not_forall, not_not] at freeMark
      obtain ⟨rfl, i, isFree⟩ := freeMark
      cases found : getIndexForMacAddr collection 0 with
      | none => exact absurd isFree (getIndexForMacAddr_none.mp found i)
      | some index =>
          have isMark := getIndexForMacAddr_some found
          intro after
          have counted : (collection.consumersCount - 1).toNat =
              usedCount 0 (Function.update (recordAddresses collection) index 0) := by
            have known := after.counted
            simp only [collectionStep, removeConsumerFromCollection, found] at known
            exact known.trans (congrArg _ (recordAddresses_setConsumer collection index _))
          have unchanged : Function.update (recordAddresses collection) index 0 =
              recordAddresses collection :=
            Function.update_eq_self_iff.mpr isMark.symm
          have one : (1 : UInt8).toNat = 1 := rfl
          have below := collection.consumersCount.toNat_lt
          rw [unchanged, ← inStep.counted, UInt8.toNat_sub, one] at counted
          omega

/-! ## Runs -/

/-- From its creation, for any size and in any order of lookups, additions, removals and uses
of the records: the collection is in step all along, exactly if the address of the free mark
is never removed while a record is free. -/
theorem collection_inStep_iff (size : UInt8)
    (garbage : Fin size.toNat → Fin cacheSize → KeyReconstructionMap)
    (steps : List (CollectionStep size.toNat)) :
    (∀ reached, reached <+: steps →
        CollectionInStep (run collectionStep (createBleConsumerCollection garbage) reached)) ↔
      Guarded collectionStep RemovesUsed (createBleConsumerCollection garbage) steps :=
  (guarded_iff_always (RecordsInStep.step size.toNat_lt) not_inStep_of_freeMark
    (fun _ inStep => inStep.proper) (recordsInStep_create garbage) steps).symm

/-- Nothing was added, and the count wraps around below 0. -/
theorem free_record_removed :
    ¬ CollectionInStep (run collectionStep
      (createBleConsumerCollection (fun _ _ => ⟨fun _ => 0, 0, ⟨0, 0⟩⟩ :
        Fin 2 → Fin 5 → KeyReconstructionMap))
      [.removeConsumerFromCollection 0]) := by
  intro inStep
  exact absurd inStep.counted (by decide)

end BleBroadcast.Receiver.Sized
