import BleBroadcast.Lib.DeferralLedger
import BleBroadcast.Lib.GuardedRun
import BleBroadcast.Lib.SlotTable
import BleBroadcast.Receiver.SecPduProcessing

/-!
# The processing as a deferral ledger

For one sender, the log and the deferred queue of its record form a ledger.  Each
handler of the receiver makes a move of that ledger: a DATA frame arrives, or a
batch from the front of the queue is settled, or nothing happens.
-/

set_option autoImplicit false

namespace BleBroadcast.Receiver

open BleBroadcast.Core BleBroadcast.Lib

/-! ## The ledger of a sender -/

def takenNumber (mac : EspBdAddr) : ProcessingEvent → Option Nat
  | .tookData sender arrival _ => if sender = mac then some arrival else none
  | _ => none

def handedNumber (mac : EspBdAddr) : ProcessingEvent → Option Nat
  | .handed sender arrival _ _ _ => if sender = mac then some arrival else none
  | _ => none

def fullNumber (mac : EspBdAddr) : ProcessingEvent → Option Nat
  | .full sender arrival _ => if sender = mac then some arrival else none
  | _ => none

def droppedNumber (mac : EspBdAddr) : ProcessingEvent → Option Nat
  | .dropped sender arrival _ _ _ => if sender = mac then some arrival else none
  | _ => none

/-- The arrival numbers of a sender's DATA frames, by what became of them. -/
def ledgerOf (mac : EspBdAddr) (log : List ProcessingEvent) (queue : List DeferredPdu) :
    Ledger Nat where
  taken := log.filterMap (takenNumber mac)
  handed := log.filterMap (handedNumber mac)
  rejected := log.filterMap (fullNumber mac)
  dropped := log.filterMap (droppedNumber mac)
  queue := queue.map DeferredPdu.arrival

def ProcessingEvent.sender : ProcessingEvent → EspBdAddr
  | .tookData mac _ _ => mac
  | .tookKeyFragment mac _ => mac
  | .handed mac _ _ _ _ => mac
  | .full mac _ _ => mac
  | .dropped mac _ _ _ _ => mac
  | .lost mac _ => mac

theorem ledgerOf_other {mac sender : EspBdAddr} (other : sender ≠ mac)
    {events : List ProcessingEvent} (own : ∀ event ∈ events, event.sender = mac)
    (log : List ProcessingEvent) (queue : List DeferredPdu) :
    ledgerOf sender (log ++ events) queue = ledgerOf sender log queue := by
  have silent : ∀ event ∈ events, takenNumber sender event = none ∧
      handedNumber sender event = none ∧ fullNumber sender event = none ∧
      droppedNumber sender event = none := by
    intro event member
    have elsewhere : event.sender ≠ sender := fun same => other (same.symm.trans (own event member))
    cases event <;>
      simp_all [ProcessingEvent.sender, takenNumber, handedNumber, fullNumber, droppedNumber]
  have taken := List.filterMap_eq_nil_iff.mpr fun event member => (silent event member).1
  have handed := List.filterMap_eq_nil_iff.mpr fun event member => (silent event member).2.1
  have full := List.filterMap_eq_nil_iff.mpr fun event member => (silent event member).2.2.1
  have dropped := List.filterMap_eq_nil_iff.mpr fun event member => (silent event member).2.2.2
  simp only [ledgerOf, List.filterMap_append, taken, handed, full, dropped, List.append_nil]

def queueOf (collection : BleConsumerCollection) (mac : EspBdAddr) : List DeferredPdu :=
  match getIndexForMacAddr collection mac with
  | some index => (collection.arr index).deferredQueue
  | none => []

def senderLedger (sec : SecPduProcessing) (mac : EspBdAddr) : Ledger Nat :=
  ledgerOf mac sec.log (queueOf sec.consumerCollection mac)

/-! ## Records -/

def DistinctSenders (collection : BleConsumerCollection) : Prop :=
  ∀ i j, (collection.arr i).macAddressArr = (collection.arr j).macAddressArr →
    (collection.arr i).macAddressArr ≠ 0 → i = j

theorem getIndexForMacAddr_eq {collection : BleConsumerCollection}
    (distinct : DistinctSenders collection) {mac : EspBdAddr} {index : Fin 2}
    (there : (collection.arr index).macAddressArr = mac) (nonzero : mac ≠ 0) :
    getIndexForMacAddr collection mac = some index := by
  cases found : getIndexForMacAddr collection mac with
  | none => exact absurd there (getIndexForMacAddr_none.mp found index)
  | some other =>
      have same := getIndexForMacAddr_some found
      rw [distinct other index (same.trans there.symm) (same ▸ nonzero)]

theorem queueOf_eq {collection : BleConsumerCollection}
    (distinct : DistinctSenders collection) {mac : EspBdAddr} {index : Fin 2}
    (there : (collection.arr index).macAddressArr = mac) (nonzero : mac ≠ 0) :
    queueOf collection mac = (collection.arr index).deferredQueue := by
  simp only [queueOf, getIndexForMacAddr_eq distinct there nonzero]

theorem DistinctSenders.setConsumer {collection : BleConsumerCollection}
    (distinct : DistinctSenders collection) {index : Fin 2} {consumer : BleConsumer}
    (alone : ∀ i, i ≠ index → consumer.macAddressArr ≠ 0 →
      (collection.arr i).macAddressArr ≠ consumer.macAddressArr) :
    DistinctSenders (setConsumer collection index consumer) := by
  have unshared : Unshared 0 fun i => (collection.arr i).macAddressArr := distinct
  have addresses : (fun i => ((Receiver.setConsumer collection index consumer).arr i).macAddressArr)
      = Function.update (fun i => (collection.arr i).macAddressArr) index
          consumer.macAddressArr :=
    Function.comp_update Sized.BleConsumer.macAddressArr collection.arr index consumer
  have next : Unshared 0 fun i =>
      ((Receiver.setConsumer collection index consumer).arr i).macAddressArr := by
    rw [addresses]
    exact unshared.update fun used i other => alone i other used
  exact next

theorem queueOf_setConsumer_self {collection : BleConsumerCollection} {index : Fin 2}
    {consumer : BleConsumer} (distinct : DistinctSenders (setConsumer collection index consumer))
    (nonzero : consumer.macAddressArr ≠ 0) :
    queueOf (setConsumer collection index consumer) consumer.macAddressArr =
      consumer.deferredQueue := by
  have there : (setConsumer collection index consumer).arr index = consumer := by
    simp [setConsumer]
  rw [queueOf_eq distinct (congrArg Sized.BleConsumer.macAddressArr there) nonzero, there]

theorem queueOf_setConsumer_other {collection : BleConsumerCollection} {index : Fin 2}
    {consumer : BleConsumer} {mac : EspBdAddr}
    (before : (collection.arr index).macAddressArr ≠ mac)
    (after : consumer.macAddressArr ≠ mac) :
    queueOf (setConsumer collection index consumer) mac = queueOf collection mac := by
  have samePlaces : getIndexForMacAddr (setConsumer collection index consumer) mac =
      getIndexForMacAddr collection mac := by
    simp only [getIndexForMacAddr, setConsumer]
    congr 1
    funext i
    by_cases here : i = index
    · subst here
      simp [before, after]
    · rw [Function.update_of_ne here]
  simp only [queueOf, samePlaces]
  cases found : getIndexForMacAddr collection mac with
  | none => rfl
  | some other =>
      have elsewhere : other ≠ index := by
        rintro rfl
        exact before (getIndexForMacAddr_some found)
      simp [setConsumer, elsewhere]

structure RecordsSound (collection : BleConsumerCollection) : Prop where
  counted : ∀ i, Counted (collection.arr i)
  distinct : DistinctSenders collection

theorem recordsSound_start (garbage : Fin 2 → Fin 5 → KeyReconstructionMap) :
    RecordsSound (createBleConsumerCollection garbage) where
  counted := fun i => counted_init (garbage i)
  distinct := fun _ _ _ nonzero => absurd rfl nonzero

theorem RecordsSound.setConsumer {collection : BleConsumerCollection}
    (sound : RecordsSound collection) {index : Fin 2} {consumer : BleConsumer}
    (counted : Counted consumer)
    (alone : ∀ i, i ≠ index → consumer.macAddressArr ≠ 0 →
      (collection.arr i).macAddressArr ≠ consumer.macAddressArr) :
    RecordsSound (setConsumer collection index consumer) where
  counted := by
    intro i
    by_cases here : i = index
    · subst here
      simpa [Receiver.setConsumer] using counted
    · simpa [Receiver.setConsumer, here] using sound.counted i
  distinct := sound.distinct.setConsumer alone

theorem RecordsSound.replace {collection : BleConsumerCollection}
    (sound : RecordsSound collection) (index : Fin 2) {consumer : BleConsumer}
    (counted : Counted consumer)
    (sameMac : consumer.macAddressArr = (collection.arr index).macAddressArr) :
    RecordsSound (Receiver.setConsumer collection index consumer) := by
  refine sound.setConsumer counted fun i other nonzero same => ?_
  exact other (sound.distinct i index (same.trans sameMac) (same ▸ nonzero))

theorem queueOf_replace {collection : BleConsumerCollection} (sound : RecordsSound collection)
    {index : Fin 2} {consumer : BleConsumer} (counted : Counted consumer)
    (sameMac : consumer.macAddressArr = (collection.arr index).macAddressArr)
    (sameQueue : consumer.deferredQueue = (collection.arr index).deferredQueue)
    {mac : EspBdAddr} (nonzero : mac ≠ 0) :
    queueOf (Receiver.setConsumer collection index consumer) mac = queueOf collection mac := by
  have after := sound.replace index counted sameMac
  by_cases own : (collection.arr index).macAddressArr = mac
  · subst own
    rw [queueOf_eq sound.distinct rfl nonzero, ← sameMac,
      queueOf_setConsumer_self after.distinct (sameMac ▸ nonzero), sameQueue]
  · exact queueOf_setConsumer_other own (sameMac ▸ own)

theorem consumerForFrame_cases (collection : BleConsumerCollection) (mac : EspBdAddr)
    (tickCount : UInt32) :
    (∃ index, getIndexForMacAddr collection mac = some index ∧
      consumerForFrame collection mac tickCount =
        (some index,
          setConsumer collection index (stampConsumer (collection.arr index) tickCount))) ∨
    (getIndexForMacAddr collection mac = none ∧
      ∃ index, (collection.arr index).macAddressArr = 0 ∧
        consumerForFrame collection mac tickCount =
          (some index,
            { setConsumer collection index (stampConsumer
                { resetBleConsumer (collection.arr index) with macAddressArr := mac }
                tickCount) with
              consumersCount := collection.consumersCount + 1 })) ∨
    (getIndexForMacAddr collection mac = none ∧
      consumerForFrame collection mac tickCount = (none, collection)) := by
  cases found : getIndexForMacAddr collection mac with
  | some index =>
      refine Or.inl ⟨index, rfl, ?_⟩
      simp only [consumerForFrame, getBleConsumerFromCollection, found]
  | none =>
      simp only [consumerForFrame, getBleConsumerFromCollection, found]
      split
      · cases free : getFirstFreeIndex collection with
        | none =>
            refine Or.inr (Or.inr ⟨trivial, ?_⟩)
            simp only [addConsumerToCollection, free]
        | some index =>
            have zero : (collection.arr index).macAddressArr = 0 := by
              unfold getFirstFreeIndex at free
              split at free
              · exact getIndexForMacAddr_some free
              · contradiction
            refine Or.inr (Or.inl ⟨trivial, index, zero, ?_⟩)
            simp only [addConsumerToCollection, free]
      · exact Or.inr (Or.inr ⟨trivial, rfl⟩)

/-- The record found or added for a frame: the records stay sound, no queue of a
sender changes, and the record has the address of the frame. -/
theorem consumerForFrame_spec {collection : BleConsumerCollection}
    (sound : RecordsSound collection) (mac : EspBdAddr) (tickCount : UInt32) :
    RecordsSound (consumerForFrame collection mac tickCount).2 ∧
    (∀ sender, sender ≠ 0 →
      queueOf (consumerForFrame collection mac tickCount).2 sender = queueOf collection sender) ∧
    ∀ index, (consumerForFrame collection mac tickCount).1 = some index →
      ((consumerForFrame collection mac tickCount).2.arr index).macAddressArr = mac := by
  obtain ⟨index, found, result⟩ | ⟨missing, index, zero, result⟩ | ⟨_, result⟩ :=
    consumerForFrame_cases collection mac tickCount
  · have counted : Counted (stampConsumer (collection.arr index) tickCount) :=
      ⟨(sound.counted index).count, (sound.counted index).room⟩
    rw [result]
    refine ⟨sound.replace index counted rfl,
      fun sender nonzero => queueOf_replace sound counted rfl rfl nonzero, ?_⟩
    intro other same
    obtain rfl := Option.some.inj same
    simp [setConsumer, stampConsumer, getIndexForMacAddr_some found]
  · have claimed : RecordsSound (setConsumer collection index (stampConsumer
        { resetBleConsumer (collection.arr index) with macAddressArr := mac } tickCount)) :=
      sound.setConsumer ⟨rfl, Nat.zero_le 80⟩ fun i _ _ => getIndexForMacAddr_none.mp missing i
    rw [result]
    refine ⟨⟨claimed.counted, claimed.distinct⟩, ?_, ?_⟩
    · intro sender nonzero
      by_cases own : sender = mac
      · subst own
        have before : queueOf collection sender = [] := by
          simp only [queueOf, missing]
        rw [before]
        exact queueOf_setConsumer_self claimed.distinct nonzero
      · exact queueOf_setConsumer_other (zero ▸ Ne.symm nonzero) (Ne.symm own)
    · intro other same
      obtain rfl := Option.some.inj same
      simp [setConsumer, stampConsumer]
  · rw [result]
    exact ⟨sound, fun _ _ => rfl, by simp⟩

/-! ## A new DATA frame -/

/-- What the log says of a frame that is not delivered is what the code found. -/
def Justified : ProcessingEvent → Prop
  | .full _ _ queued => queued = 80
  | .dropped _ _ keyId lastPduKeyId cached => cached = false ∧ keyId ≠ lastPduKeyId
  | .lost _ _ => False
  | _ => True

def ArrivesWith (consumer : BleConsumer) : Arrival → Prop
  | .handOver => consumer.deferredQueue = []
  | .defer => consumer.deferredQueue.length < 80
  | .reject => consumer.deferredQueue.length = 80

theorem Counted.hearKeyId {consumer : BleConsumer} (counted : Counted consumer)
    (tickCount : UInt32) (keyId : UInt16) : Counted (hearKeyId tickCount consumer keyId).2 :=
  ⟨counted.count, counted.room⟩

theorem handleDataPdu_cases (mb : Mbedtls) (tickCount : UInt32) {consumer : BleConsumer}
    (counted : Counted consumer) (mac : EspBdAddr) (pdu : BeaconPduData) (number : Nat) :
    let keyId := getKeyIdFromKeySessionData pdu.keySessionData
    let heard := (hearKeyId tickCount consumer keyId).2
    let taken := ProcessingEvent.tookData mac number keyId
    (∃ key, (hearKeyId tickCount consumer keyId).1 = some key ∧ consumer.deferredQueue = [] ∧
      handleDataPdu mb tickCount consumer mac pdu number =
        (heard, [taken, .handed mac number key pdu (decryptAndNotify mb key pdu mac)])) ∨
    (((hearKeyId tickCount consumer keyId).1 = none ∨ consumer.deferredQueue ≠ []) ∧
      consumer.deferredQueue.length < 80 ∧
      handleDataPdu mb tickCount consumer mac pdu number =
        ({ heard with
          deferredQueue := heard.deferredQueue ++ [⟨pdu, number⟩]
          deferredQueueCount := heard.deferredQueueCount + 1 }, [taken])) ∨
    (consumer.deferredQueue.length = 80 ∧
      handleDataPdu mb tickCount consumer mac pdu number =
        (heard, [taken, .full mac number 80])) := by
  intro keyId heard taken
  have heardCounted : Counted heard := counted.hearKeyId tickCount keyId
  have deferred : ((hearKeyId tickCount consumer keyId).1 = none ∨ consumer.deferredQueue ≠ []) →
      handleDataPdu mb tickCount consumer mac pdu number =
      ((addToDeferredQueue heard ⟨pdu, number⟩).2,
        if (addToDeferredQueue heard ⟨pdu, number⟩).1 then [taken]
        else [taken, .full mac number heard.deferredQueue.length]) →
      (((hearKeyId tickCount consumer keyId).1 = none ∨ consumer.deferredQueue ≠ []) ∧
        consumer.deferredQueue.length < 80 ∧
        handleDataPdu mb tickCount consumer mac pdu number =
          ({ heard with
            deferredQueue := heard.deferredQueue ++ [⟨pdu, number⟩]
            deferredQueueCount := heard.deferredQueueCount + 1 }, [taken])) ∨
      (consumer.deferredQueue.length = 80 ∧
        handleDataPdu mb tickCount consumer mac pdu number =
          (heard, [taken, .full mac number 80])) := by
    intro reason result
    rw [result]
    by_cases below : heard.deferredQueue.length < 80
    · exact Or.inl ⟨reason, below, by rw [addToDeferredQueue_room _ below]; rfl⟩
    · have reached : heard.deferredQueue.length = 80 := by
        have room := heardCounted.room
        omega
      exact Or.inr ⟨reached, by rw [addToDeferredQueue_full _ reached, reached]; rfl⟩
  cases found : (hearKeyId tickCount consumer keyId).1 with
  | none =>
      refine Or.inr (found ▸ deferred (Or.inl found) ?_)
      simp only [keyId] at found
      simp only [handleDataPdu, found]
      rfl
  | some key =>
      cases waiting : isPduInDeferredQueue heard with
      | true =>
          have someWait : consumer.deferredQueue ≠ [] :=
            heardCounted.isPduInDeferredQueue_iff.mp waiting
          refine Or.inr (found ▸ deferred (Or.inr someWait) ?_)
          simp only [handleDataPdu, keyId, heard] at found waiting ⊢
          simp only [found, waiting]
          rfl
      | false =>
          have noneWaiting : heard.deferredQueue = [] := by
            by_contra some
            rw [heardCounted.isPduInDeferredQueue_iff.mpr some] at waiting
            contradiction
          refine Or.inl ⟨key, rfl, noneWaiting, ?_⟩
          simp only [handleDataPdu, keyId, heard] at found waiting ⊢
          simp only [found, waiting]
          rfl

theorem handleDataPdu_ledger (mb : Mbedtls) (tickCount : UInt32) {consumer : BleConsumer}
    (counted : Counted consumer) (mac : EspBdAddr) (pdu : BeaconPduData) (number : Nat) :
    Counted (handleDataPdu mb tickCount consumer mac pdu number).1 ∧
    (handleDataPdu mb tickCount consumer mac pdu number).1.macAddressArr =
      consumer.macAddressArr ∧
    (∀ event ∈ (handleDataPdu mb tickCount consumer mac pdu number).2, Justified event) ∧
    (∃ arrival, ArrivesWith consumer arrival ∧ ∀ log,
      ledgerOf mac (log ++ (handleDataPdu mb tickCount consumer mac pdu number).2)
          (handleDataPdu mb tickCount consumer mac pdu number).1.deferredQueue =
        (ledgerOf mac log consumer.deferredQueue).arrive number arrival) ∧
    ∀ sender, sender ≠ mac → ∀ log queue,
      ledgerOf sender (log ++ (handleDataPdu mb tickCount consumer mac pdu number).2) queue =
        ledgerOf sender log queue := by
  have heardCounted := counted.hearKeyId tickCount
    (getKeyIdFromKeySessionData pdu.keySessionData)
  obtain ⟨key, _, queue, result⟩ | ⟨_, below, result⟩ | ⟨reached, result⟩ :=
    handleDataPdu_cases mb tickCount counted mac pdu number
  · rw [result]
    refine ⟨heardCounted, rfl, by simp [Justified], ⟨.handOver, queue, fun log => ?_⟩, ?_⟩
    · simp [ledgerOf, Ledger.arrive, List.filterMap_cons, takenNumber, handedNumber, fullNumber,
        droppedNumber, hearKeyId]
    · intro sender other log queue
      exact ledgerOf_other other (by simp [ProcessingEvent.sender]) log queue
  · rw [result]
    have added := heardCounted.addToDeferredQueue ⟨pdu, number⟩
    rw [@addToDeferredQueue_room (hearKeyId tickCount consumer _).2 _ below] at added
    refine ⟨added, rfl, by simp [Justified], ⟨.defer, below, fun log => ?_⟩, ?_⟩
    · simp [ledgerOf, Ledger.arrive, List.filterMap_cons, takenNumber, handedNumber, fullNumber,
        droppedNumber, hearKeyId]
    · intro sender other log queue
      exact ledgerOf_other other (by simp [ProcessingEvent.sender]) log queue
  · rw [result]
    refine ⟨heardCounted, rfl, by simp [Justified], ⟨.reject, reached, fun log => ?_⟩, ?_⟩
    · simp [ledgerOf, Ledger.arrive, List.filterMap_cons, takenNumber, handedNumber, fullNumber,
        droppedNumber, hearKeyId]
    · intro sender other log queue
      exact ledgerOf_other other (by simp [ProcessingEvent.sender]) log queue

/-! ## A pass over the deferred queue -/

/-- What becomes of an item whose turn it is: by whether its key is in the cache, and
whether it is of the session heard last. -/
def itemOutcome (cache : KeyReconstructionCache 5) (lastPduKeyId : UInt16) (item : DeferredPdu) :
    Outcome :=
  if isKeyInCache cache item.keyId.toUInt8 then .handOver
  else if item.keyId = lastPduKeyId then .putBack
  else .drop

/-- The items of a batch with their outcomes.  The cache changes from item to item
only in its timestamps and its shortcut. -/
def batchOutcomes (tickCount : Nat → UInt32) (lastPduKeyId : UInt16) :
    Nat → KeyReconstructionCache 5 → UInt16 → List DeferredPdu → List (DeferredPdu × Outcome)
  | _, _, _, [] => []
  | i, cache, lastKeyId, item :: rest =>
      let looked :=
        if lastKeyId ≠ item.keyId then
          (getKeyFromCache cache item.keyId.toUInt8 (tickCount i)).2
        else cache
      (item, itemOutcome cache lastPduKeyId item) ::
        batchOutcomes tickCount lastPduKeyId (i + 1) looked item.keyId rest

/-- The batch that `process_deferred_queue` takes, with its outcomes. -/
def deferredBatch (tickCount : Nat → UInt32) (consumer : BleConsumer) :
    List (DeferredPdu × Outcome) :=
  match consumer.deferredQueue.take 20 with
  | [] => []
  | first :: others =>
      batchOutcomes tickCount consumer.lastPduKeyId 1
        (getKeyFromCache consumer.keyCache first.keyId.toUInt8 (tickCount 0)).2 first.keyId
        (first :: others)

theorem batchOutcomes_fst (tickCount : Nat → UInt32) (lastPduKeyId : UInt16)
    (items : List DeferredPdu) :
    ∀ (i : Nat) (cache : KeyReconstructionCache 5) (lastKeyId : UInt16),
      (batchOutcomes tickCount lastPduKeyId i cache lastKeyId items).map Prod.fst = items := by
  induction items with
  | nil => exact fun _ _ _ => rfl
  | cons item rest ih =>
      intro i cache lastKeyId
      simp only [batchOutcomes, List.map_cons, ih]

theorem deferredBatch_fst (tickCount : Nat → UInt32) (consumer : BleConsumer) :
    (deferredBatch tickCount consumer).map Prod.fst = consumer.deferredQueue.take 20 := by
  unfold deferredBatch
  split
  · rename_i none
    rw [none]
    rfl
  · rename_i some
    rw [some]
    exact batchOutcomes_fst _ _ _ _ _ _

structure LogsBatch (mac : EspBdAddr) (batch : List (DeferredPdu × Outcome))
    (events : List ProcessingEvent) : Prop where
  taken : events.filterMap (takenNumber mac) = []
  handed : events.filterMap (handedNumber mac) =
    (Ledger.settled .handOver batch).map DeferredPdu.arrival
  full : events.filterMap (fullNumber mac) = []
  dropped : events.filterMap (droppedNumber mac) =
    (Ledger.settled .drop batch).map DeferredPdu.arrival
  others : ∀ sender, sender ≠ mac → ∀ log queue,
    ledgerOf sender (log ++ events) queue = ledgerOf sender log queue
  justified : ∀ event ∈ events, Justified event

theorem logsBatch_nil (mac : EspBdAddr) : LogsBatch mac [] [] where
  taken := rfl
  handed := rfl
  full := rfl
  dropped := rfl
  others := fun _ _ _ _ => by rw [List.append_nil]
  justified := by simp

theorem logsBatch_handOver (mac : EspBdAddr) (item : DeferredPdu) (key : Key128b)
    (notified : Option Notification) :
    LogsBatch mac [(item, .handOver)] [.handed mac item.arrival key item.pdu notified] where
  taken := rfl
  handed := by simp [handedNumber, Ledger.settled_cons]
  full := rfl
  dropped := rfl
  others := by
    intro sender other log queue
    exact ledgerOf_other other (by simp [ProcessingEvent.sender]) log queue
  justified := by simp [Justified]

theorem logsBatch_drop (mac : EspBdAddr) (item : DeferredPdu) {lastPduKeyId : UInt16}
    (different : item.keyId ≠ lastPduKeyId) :
    LogsBatch mac [(item, .drop)] [.dropped mac item.arrival item.keyId lastPduKeyId false] where
  taken := rfl
  handed := rfl
  full := rfl
  dropped := by simp [droppedNumber, Ledger.settled_cons]
  others := by
    intro sender other log queue
    exact ledgerOf_other other (by simp [ProcessingEvent.sender]) log queue
  justified := by simp [Justified, different]

theorem logsBatch_putBack (mac : EspBdAddr) (item : DeferredPdu) :
    LogsBatch mac [(item, .putBack)] [] where
  taken := rfl
  handed := rfl
  full := rfl
  dropped := rfl
  others := fun _ _ _ _ => by rw [List.append_nil]
  justified := by simp

theorem settled_append (outcome : Outcome) (first second : List (DeferredPdu × Outcome)) :
    Ledger.settled outcome (first ++ second) =
      Ledger.settled outcome first ++ Ledger.settled outcome second := by
  simp [Ledger.settled]

theorem LogsBatch.append {mac : EspBdAddr} {first second : List (DeferredPdu × Outcome)}
    {events later : List ProcessingEvent} (logs : LogsBatch mac first events)
    (rest : LogsBatch mac second later) : LogsBatch mac (first ++ second) (events ++ later) where
  taken := by rw [List.filterMap_append, logs.taken, rest.taken]; rfl
  handed := by
    rw [List.filterMap_append, logs.handed, rest.handed, settled_append, List.map_append]
  full := by rw [List.filterMap_append, logs.full, rest.full]; rfl
  dropped := by
    rw [List.filterMap_append, logs.dropped, rest.dropped, settled_append, List.map_append]
  others := by
    intro sender other log queue
    rw [← List.append_assoc, rest.others sender other, logs.others sender other]
  justified := by
    intro event member
    rcases List.mem_append.mp member with early | late
    · exact logs.justified event early
    · exact rest.justified event late

theorem LogsBatch.ledger {mac : EspBdAddr} {batch : List (DeferredPdu × Outcome)}
    {events : List ProcessingEvent} (logs : LogsBatch mac batch events)
    (log : List ProcessingEvent) (queue rest : List DeferredPdu) :
    ledgerOf mac (log ++ events) (rest ++ Ledger.settled .putBack batch) =
      (ledgerOf mac log queue).pass
        (batch.map fun item => (item.1.arrival, item.2)) (rest.map DeferredPdu.arrival) := by
  simp only [ledgerOf, Ledger.pass, List.filterMap_append, logs.taken, logs.handed, logs.full,
    logs.dropped, Ledger.settled_map, List.append_nil, List.map_append]

def KeyKnown (pass : DeferredPass) : Prop :=
  pass.key.isSome = isKeyInCache pass.consumer.keyCache pass.lastKeyId.toUInt8

structure Turn (tickCount : UInt32) (pass : DeferredPass) (item : DeferredPdu)
    (next : DeferredPass) : Prop where
  counted : Counted next.consumer
  known : KeyKnown next
  lastKeyId : next.lastKeyId = item.keyId
  keyCache : next.consumer.keyCache =
    if pass.lastKeyId ≠ item.keyId then
      (getKeyFromCache pass.consumer.keyCache item.keyId.toUInt8 tickCount).2
    else pass.consumer.keyCache
  macAddress : next.consumer.macAddressArr = pass.consumer.macAddressArr
  lastPduKeyId : next.consumer.lastPduKeyId = pass.consumer.lastPduKeyId
  queue : next.consumer.deferredQueue = pass.consumer.deferredQueue ++ Ledger.settled .putBack
    [(item, itemOutcome pass.consumer.keyCache pass.consumer.lastPduKeyId item)]
  log : ∃ events, next.log = pass.log ++ events ∧ LogsBatch pass.consumer.macAddressArr
    [(item, itemOutcome pass.consumer.keyCache pass.consumer.lastPduKeyId item)] events

theorem lookupForItem_spec (tickCount : UInt32) {pass : DeferredPass} (known : KeyKnown pass)
    (item : DeferredPdu) :
    ∃ key, lookupForItem tickCount pass item =
        { consumer := { pass.consumer with
            keyCache :=
              if pass.lastKeyId ≠ item.keyId then
                (getKeyFromCache pass.consumer.keyCache item.keyId.toUInt8 tickCount).2
              else pass.consumer.keyCache }
          key := key
          lastKeyId := item.keyId
          log := pass.log } ∧
      KeyKnown (lookupForItem tickCount pass item) ∧
      key.isSome = isKeyInCache pass.consumer.keyCache item.keyId.toUInt8 := by
  by_cases same : pass.lastKeyId = item.keyId
  · have unchanged : lookupForItem tickCount pass item = pass := if_neg (not_not.mpr same)
    refine ⟨pass.key, ?_, unchanged.symm ▸ known, same ▸ known⟩
    rw [unchanged, ← same, if_neg (not_not.mpr rfl)]
  · refine ⟨(getKeyFromCache pass.consumer.keyCache item.keyId.toUInt8 tickCount).1, ?_, ?_,
      getKeyFromCache_isSome _ _ _⟩
    · simp [lookupForItem, same]
    · simp [lookupForItem, same, KeyKnown, getKeyFromCache_isSome, isKeyInCache_getKeyFromCache]

theorem settleItem_turn (mb : Mbedtls) (tickCount : UInt32) {pass : DeferredPass}
    (counted : Counted pass.consumer) (known : KeyKnown pass)
    (room : pass.consumer.deferredQueue.length < 80) (item : DeferredPdu) :
    Turn tickCount pass item (settleItem mb (lookupForItem tickCount pass item) item) := by
  obtain ⟨key, looked, knownNext, cached⟩ := lookupForItem_spec tickCount known item
  rw [looked] at knownNext ⊢
  cases key with
  | some key =>
      have outcome : itemOutcome pass.consumer.keyCache pass.consumer.lastPduKeyId item =
          .handOver := if_pos cached.symm
      refine ⟨⟨counted.count, counted.room⟩, knownNext, rfl, rfl, rfl, rfl, ?_, _, rfl, ?_⟩
      · rw [outcome]
        simp [settleItem, Ledger.settled_cons]
      · rw [outcome]
        exact logsBatch_handOver _ item key _
  | none =>
      have notCached : ¬ isKeyInCache pass.consumer.keyCache item.keyId.toUInt8 = true := by
        rw [← cached]
        simp
      by_cases heard : item.keyId = pass.consumer.lastPduKeyId
      · have outcome : itemOutcome pass.consumer.keyCache pass.consumer.lastPduKeyId item =
            .putBack := by
          rw [itemOutcome, if_neg notCached, if_pos heard]
        have added := counted.addToDeferredQueue item
        rw [addToDeferredQueue_room item room] at added
        simp only [settleItem, if_pos heard, addToDeferredQueue, deferredQueueSize, if_pos room,
          if_true]
        refine ⟨⟨added.count, added.room⟩, knownNext, rfl, rfl, rfl, rfl, ?_, [], by simp, ?_⟩
        · rw [outcome]
          simp [Ledger.settled_cons]
        · rw [outcome]
          exact logsBatch_putBack _ item
      · have outcome : itemOutcome pass.consumer.keyCache pass.consumer.lastPduKeyId item =
            .drop := by
          rw [itemOutcome, if_neg notCached, if_neg heard]
        have stillMissing := knownNext.symm
        simp only [Option.isSome_none] at stillMissing
        simp only [settleItem, if_neg heard, stillMissing]
        refine ⟨⟨counted.count, counted.room⟩, knownNext, rfl, rfl, rfl, rfl, ?_, _, rfl, ?_⟩
        · rw [outcome]
          simp [Ledger.settled_cons]
        · rw [outcome]
          exact logsBatch_drop _ item heard

/-- The second loop settles the items as `batchOutcomes` says, as long as the queue
has room for all of them. -/
theorem settleItems_spec (mb : Mbedtls) (tickCount : Nat → UInt32) (items : List DeferredPdu) :
    ∀ (i : Nat) (pass : DeferredPass), Counted pass.consumer → KeyKnown pass →
      pass.consumer.deferredQueue.length + items.length ≤ 80 →
      let batch := batchOutcomes tickCount pass.consumer.lastPduKeyId i pass.consumer.keyCache
        pass.lastKeyId items
      let result := settleItems mb tickCount i pass items
      Counted result.consumer ∧
      result.consumer.deferredQueue =
        pass.consumer.deferredQueue ++ Ledger.settled .putBack batch ∧
      result.consumer.macAddressArr = pass.consumer.macAddressArr ∧
      ∃ events, result.log = pass.log ++ events ∧
        LogsBatch pass.consumer.macAddressArr batch events := by
  induction items with
  | nil =>
      intro i pass counted _ _
      exact ⟨counted, by simp [batchOutcomes, settleItems], rfl, [], by simp [settleItems],
        logsBatch_nil _⟩
  | cons item rest ih =>
      intro i pass counted known room
      rw [List.length_cons] at room
      have turn := settleItem_turn mb (tickCount i) counted known (by omega) item
      simp only [settleItems, batchOutcomes]
      generalize settleItem mb (lookupForItem (tickCount i) pass item) item = next at turn
      have grown : next.consumer.deferredQueue.length ≤
          pass.consumer.deferredQueue.length + 1 := by
        rw [turn.queue, List.length_append]
        have atMost : (Ledger.settled .putBack [(item,
            itemOutcome pass.consumer.keyCache pass.consumer.lastPduKeyId item)]).length ≤ 1 :=
          (Ledger.settled_sublist _ _).length_le
        omega
      obtain ⟨first, firstLog, firstLogs⟩ := turn.log
      obtain ⟨countedEnd, queue, mac, later, laterLog, laterLogs⟩ :=
        ih (i + 1) next turn.counted turn.known (by omega)
      rw [turn.lastPduKeyId, turn.keyCache, turn.lastKeyId] at queue laterLogs
      rw [turn.macAddress] at mac laterLogs
      refine ⟨countedEnd, ?_, mac, first ++ later, ?_, firstLogs.append laterLogs⟩
      · rw [queue, turn.queue, List.append_assoc, ← settled_append]
        rfl
      · rw [laterLog, firstLog, List.append_assoc]

theorem takeDeferredBatch_spec (n : Nat) :
    ∀ {consumer : BleConsumer}, Counted consumer →
      (takeDeferredBatch n consumer).1 = consumer.deferredQueue.take n ∧
      Counted (takeDeferredBatch n consumer).2 ∧
      (takeDeferredBatch n consumer).2 =
        { consumer with
          deferredQueue := consumer.deferredQueue.drop n
          deferredQueueCount := (takeDeferredBatch n consumer).2.deferredQueueCount } := by
  induction n with
  | zero => exact fun {consumer} counted => ⟨rfl, counted, rfl⟩
  | succ n ih =>
      intro consumer counted
      cases queue : consumer.deferredQueue with
      | nil =>
          have none : getDeferredQueueItem consumer = none := by
            simp only [getDeferredQueueItem, queue]
          simp only [takeDeferredBatch, none]
          refine ⟨rfl, counted, ?_⟩
          rw [List.drop_nil, ← queue]
      | cons item others =>
          obtain ⟨count, taken⟩ : ∃ count, getDeferredQueueItem consumer =
              some (item, { consumer with
                deferredQueue := others
                deferredQueueCount := count }) := by
            simp only [getDeferredQueueItem, queue]
            exact ⟨_, rfl⟩
          obtain ⟨batch, countedEnd, remaining⟩ := ih (counted.getDeferredQueueItem taken)
          simp only [takeDeferredBatch, taken]
          exact ⟨by rw [batch, List.take_succ_cons], countedEnd, remaining⟩

theorem processDeferredQueue_spec (mb : Mbedtls) (tickCount : Nat → UInt32)
    {consumer : BleConsumer} (counted : Counted consumer) (log : List ProcessingEvent) :
    let batch := deferredBatch tickCount consumer
    let result := processDeferredQueue mb tickCount consumer log
    Counted result.1 ∧
    result.1.deferredQueue = consumer.deferredQueue.drop 20 ++ Ledger.settled .putBack batch ∧
    result.1.macAddressArr = consumer.macAddressArr ∧
    ∃ events, result.2 = log ++ events ∧ LogsBatch consumer.macAddressArr batch events := by
  obtain ⟨taken, countedRest, remaining⟩ := takeDeferredBatch_spec 20 counted
  simp only [processDeferredQueue, deferredBatch, maxProcessedPdusAtOnce, taken]
  generalize (takeDeferredBatch 20 consumer).2 = rest at countedRest remaining ⊢
  have behind : rest.deferredQueue = consumer.deferredQueue.drop 20 := by rw [remaining]
  have sameMac : rest.macAddressArr = consumer.macAddressArr := by rw [remaining]
  have sameHeard : rest.lastPduKeyId = consumer.lastPduKeyId := by rw [remaining]
  have sameCache : rest.keyCache = consumer.keyCache := by rw [remaining]
  cases front : consumer.deferredQueue.take 20 with
  | nil =>
      exact ⟨countedRest, by simpa using behind, sameMac, [], (List.append_nil log).symm,
        logsBatch_nil _⟩
  | cons first others =>
      have whole : (consumer.deferredQueue.drop 20).length + (first :: others).length ≤ 80 := by
        have room := counted.room
        rw [← front, List.length_drop, List.length_take]
        omega
      have spec := settleItems_spec mb tickCount (first :: others) 1
        ⟨{ rest with
            keyCache := (getKeyFromCache rest.keyCache first.keyId.toUInt8 (tickCount 0)).2 },
          (getKeyFromCache rest.keyCache first.keyId.toUInt8 (tickCount 0)).1, first.keyId, log⟩
        ⟨countedRest.count, countedRest.room⟩
        (by rw [KeyKnown, getKeyFromCache_isSome, isKeyInCache_getKeyFromCache])
        (by rw [← behind] at whole; exact whole)
      simp only [sameMac, sameHeard, behind, sameCache] at spec ⊢
      exact spec

def passOf (tickCount : Nat → UInt32) (consumer : BleConsumer) : List (Nat × Outcome) :=
  (deferredBatch tickCount consumer).map fun item => (item.1.arrival, item.2)

def behindPass (consumer : BleConsumer) : List Nat :=
  (consumer.deferredQueue.drop 20).map DeferredPdu.arrival

theorem passOf_front (tickCount : Nat → UInt32) (consumer : BleConsumer) :
    consumer.deferredQueue.map DeferredPdu.arrival =
      (passOf tickCount consumer).map Prod.fst ++ behindPass consumer := by
  have fronts : (passOf tickCount consumer).map Prod.fst =
      (consumer.deferredQueue.take 20).map DeferredPdu.arrival := by
    rw [passOf, List.map_map, ← deferredBatch_fst tickCount consumer, List.map_map]
    rfl
  rw [fronts, behindPass, ← List.map_append, List.take_append_drop]

end BleBroadcast.Receiver
