import BleBroadcast.Receiver.FrameCustody
import BleBroadcast.Receiver.SessionKeys

/-!
# The phases of a session

One session of one sender is heard.  Before its key is complete, its frames are deferred
and no pass is made.  Once the key is in the cache it stays there, every frame is handed
over under it, and as long as frames wait the pending flag of the record is up.
-/

set_option autoImplicit false

namespace BleBroadcast.Receiver

open BleBroadcast.Core BleBroadcast.Lib

/-- A frame of the session: as a key fragment frame it brings a fragment of the key. -/
structure SessionFrame (mb : Mbedtls) (mac : EspBdAddr) (keyId : UInt16) (key : Key128b)
    (frame : BeaconPduDataWithMacAddr) : Prop where
  sentBy : SentBy mb mac (fun _ => key) frame
  session : frame.keyId = keyId

/-! ## The cache -/

structure HoldsKey (keyByte : UInt8) (key : Key128b) (cache : KeyReconstructionCache 5) : Prop
    where
  shortcut : ShortcutSound cache
  there : ∃ i, (cache.map i).keyId = keyByte
  itsKey : ∀ i, (cache.map i).keyId = keyByte → (cache.map i).key = key

section Cache
variable {keyByte : UInt8} {key : Key128b} {cache : KeyReconstructionCache 5}

theorem HoldsKey.cached (holds : HoldsKey keyByte key cache) :
    isKeyInCache cache keyByte = true :=
  (isKeyInCache_iff holds.shortcut keyByte).mpr holds.there

theorem HoldsKey.lookup (holds : HoldsKey keyByte key cache) (used : keyByte ≠ 0)
    (tickCount : UInt32) :
    (getKeyFromCache cache keyByte tickCount).1 = some key ∧
      HoldsKey keyByte key (getKeyFromCache cache keyByte tickCount).2 := by
  have kept := getKeyFromCache_keeps cache keyByte tickCount
  constructor
  · obtain ⟨i, there, found⟩ | ⟨missing, _⟩ :=
      getKeyFromCache_cases holds.shortcut keyByte tickCount
    · rw [found, holds.itsKey i there]
    · obtain ⟨i, there⟩ := holds.there
      exact absurd there (missing i)
  · refine ⟨holds.shortcut.getKeyFromCache tickCount (Or.inl used), ?_, fun i there => ?_⟩
    · obtain ⟨i, there⟩ := holds.there
      exact ⟨i, (kept i).1.trans there⟩
    · rw [(kept i).2]
      exact holds.itsKey i ((kept i).1.symm.trans there)

theorem Blank.shortcut (blank : Blank cache) : ShortcutSound cache :=
  ⟨fun _ _ last => by simp [blank.unused] at last, by simp [blank.unused]⟩

theorem Blank.missing (blank : Blank cache) (used : keyByte ≠ 0) (i : Fin 5) :
    (cache.map i).keyId ≠ keyByte := by
  rw [blank.free i]
  exact used.symm

theorem Blank.lookup (blank : Blank cache) (used : keyByte ≠ 0) (tickCount : UInt32) :
    getKeyFromCache cache keyByte tickCount = (none, cache) := by
  obtain ⟨i, there, _⟩ | ⟨_, result⟩ := getKeyFromCache_touches blank.shortcut keyByte tickCount
  · exact absurd there (blank.missing used i)
  · exact result

theorem Blank.notCached (blank : Blank cache) (used : keyByte ≠ 0) :
    isKeyInCache cache keyByte = false := by
  rw [← getKeyFromCache_isSome cache keyByte 0, blank.lookup used]
  rfl

theorem Blank.store (blank : Blank cache) (used : keyByte ≠ 0) (key : Key128b)
    (tickCount : UInt32) :
    (addOrEvict cache key keyByte tickCount).1 = 0 ∧
      HoldsKey keyByte key (addOrEvict cache key keyByte tickCount).2.2 := by
  obtain ⟨noneFree, _⟩ | ⟨⟨i, there⟩, _⟩ | ⟨index, _, _, status, map, shortcut⟩ :=
    addKeyToCache_cases cache key keyByte tickCount
  · exact absurd (blank.free 0) (noneFree 0)
  · exact absurd there (blank.missing used i)
  · have added : ¬ (addKeyToCache cache key keyByte tickCount).1 = -1 := by
      rw [status]
      decide
    simp only [addOrEvict, if_neg added]
    refine ⟨status, shortcut blank.shortcut used, ⟨index, ?_⟩, fun i there => ?_⟩
    · rw [map, Function.update_self]
      rfl
    · rw [map] at there ⊢
      by_cases here : i = index
      · rw [here, Function.update_self]
        rfl
      · rw [Function.update_of_ne here] at there
        exact absurd there (blank.missing used i)

end Cache

/-! ## The record -/

structure AwaitsKey (consumer : BleConsumer) (log : List ProcessingEvent) : Prop where
  blank : Blank consumer.keyCache
  idle : consumer.processDeferredQRequestPending = false
  noneHanded : handovers log = []

structure HasKey (keyId : UInt16) (key : Key128b) (consumer : BleConsumer)
    (log : List ProcessingEvent) : Prop where
  holds : HoldsKey keyId.toUInt8 key consumer.keyCache
  awake : consumer.deferredQueue ≠ [] → consumer.processDeferredQRequestPending = true
  underKey : ∀ handover ∈ handovers log, handover.key = key

theorem HasKey.noneWaits {keyId : UInt16} {key : Key128b} {consumer : BleConsumer}
    {log : List ProcessingEvent} (has : HasKey keyId key consumer log)
    (idle : consumer.processDeferredQRequestPending = false) : consumer.deferredQueue = [] := by
  by_contra waits
  rw [has.awake waits] at idle
  contradiction

section Record
variable {mb : Mbedtls} {mac : EspBdAddr} {keyId : UInt16} {key : Key128b}
  {consumer : BleConsumer} {log : List ProcessingEvent}

theorem AwaitsKey.stamp (awaits : AwaitsKey consumer log) (tickCount : UInt32) :
    AwaitsKey (stampConsumer consumer tickCount) log :=
  ⟨awaits.blank, awaits.idle, awaits.noneHanded⟩

theorem HasKey.stamp (has : HasKey keyId key consumer log) (tickCount : UInt32) :
    HasKey keyId key (stampConsumer consumer tickCount) log :=
  ⟨has.holds, has.awake, has.underKey⟩

theorem AwaitsKey.hearKeyId (awaits : AwaitsKey consumer log) (used : keyId.toUInt8 ≠ 0)
    (tickCount : UInt32) :
    (hearKeyId tickCount consumer keyId).1 = none ∧
      AwaitsKey (hearKeyId tickCount consumer keyId).2 log := by
  have missing := awaits.blank.lookup used tickCount
  simp only [Receiver.hearKeyId, missing]
  exact ⟨trivial, awaits.blank, awaits.idle, awaits.noneHanded⟩

theorem HasKey.hearKeyId (has : HasKey keyId key consumer log) (used : keyId.toUInt8 ≠ 0)
    (tickCount : UInt32) :
    (hearKeyId tickCount consumer keyId).1 = some key ∧
      HasKey keyId key (hearKeyId tickCount consumer keyId).2 log := by
  obtain ⟨found, holds⟩ := has.holds.lookup used tickCount
  exact ⟨found, holds, has.awake, has.underKey⟩

theorem AwaitsKey.handleDataPdu (mb : Mbedtls) (awaits : AwaitsKey consumer log)
    (counted : Counted consumer) (used : keyId.toUInt8 ≠ 0) (tickCount : UInt32)
    {pdu : BeaconPduData} (session : getKeyIdFromKeySessionData pdu.keySessionData = keyId)
    (number : Nat) :
    AwaitsKey (handleDataPdu mb tickCount consumer mac pdu number).1
      (log ++ (handleDataPdu mb tickCount consumer mac pdu number).2) := by
  obtain ⟨missing, heard⟩ := awaits.hearKeyId used tickCount
  rw [← session] at missing heard
  obtain ⟨_, found, _⟩ | ⟨_, _, result⟩ | ⟨_, result⟩ :=
    handleDataPdu_cases mb tickCount counted mac pdu number
  · rw [missing] at found
    contradiction
  · rw [result]
    refine ⟨heard.blank, heard.idle, ?_⟩
    rw [handovers_append, awaits.noneHanded]
    rfl
  · rw [result]
    refine ⟨heard.blank, heard.idle, ?_⟩
    rw [handovers_append, awaits.noneHanded]
    rfl

theorem HasKey.handleDataPdu (mb : Mbedtls) (has : HasKey keyId key consumer log)
    (counted : Counted consumer) (used : keyId.toUInt8 ≠ 0) (tickCount : UInt32)
    {pdu : BeaconPduData} (session : getKeyIdFromKeySessionData pdu.keySessionData = keyId)
    (number : Nat) :
    HasKey keyId key (handleDataPdu mb tickCount consumer mac pdu number).1
      (log ++ (handleDataPdu mb tickCount consumer mac pdu number).2) := by
  obtain ⟨found, heard⟩ := has.hearKeyId used tickCount
  rw [← session] at found heard
  have rest : ∀ events : List ProcessingEvent, (∀ handover ∈ handovers events,
      handover.key = key) → ∀ handover ∈ handovers (log ++ events), handover.key = key := by
    intro events new handover member
    rw [handovers_append] at member
    exact (List.mem_append.mp member).elim (has.underKey handover) (new handover)
  obtain ⟨other, isKey, none, result⟩ | ⟨reason, _, result⟩ | ⟨_, result⟩ :=
    handleDataPdu_cases mb tickCount counted mac pdu number
  · rw [result]
    obtain rfl := Option.some.inj (isKey.symm.trans found)
    refine ⟨session ▸ heard.holds, heard.awake, rest _ ?_⟩
    simp [handovers, ProcessingEvent.handover]
  · have waits : consumer.deferredQueue ≠ [] := by
      rcases reason with missing | waits
      · rw [found] at missing
        contradiction
      · exact waits
    rw [result]
    refine ⟨session ▸ heard.holds, fun _ => heard.awake waits, rest _ ?_⟩
    simp [handovers, ProcessingEvent.handover]
  · rw [result]
    refine ⟨session ▸ heard.holds, heard.awake, rest _ ?_⟩
    simp [handovers, ProcessingEvent.handover]

/-! ## A pass -/

def handedEvents (mb : Mbedtls) (mac : EspBdAddr) (key : Key128b) (items : List DeferredPdu) :
    List ProcessingEvent :=
  items.map fun item =>
    .handed mac item.arrival key item.pdu (decryptAndNotify mb key item.pdu mac)

theorem settleItems_underKey (mb : Mbedtls) (tickCount : Nat → UInt32)
    (items : List DeferredPdu) :
    ∀ (i : Nat) (pass : DeferredPass), pass.key = some key → pass.lastKeyId = keyId →
      (∀ item ∈ items, item.keyId = keyId) →
      settleItems mb tickCount i pass items =
        { pass with
          log := pass.log ++ handedEvents mb pass.consumer.macAddressArr key items } := by
  induction items with
  | nil =>
      intro i pass _ _ _
      simp [settleItems, handedEvents]
  | cons item rest ih =>
      intro i pass found last session
      have same : item.keyId = keyId := session item List.mem_cons_self
      have looked : lookupForItem (tickCount i) pass item = pass :=
        if_neg (not_not.mpr (last.trans same.symm))
      have settled : settleItem mb pass item =
          { pass with
            log := pass.log ++ handedEvents mb pass.consumer.macAddressArr key [item] } := by
        simp only [settleItem, found]
        rfl
      rw [settleItems, looked, settled]
      have later := ih (i + 1)
        { pass with
          log := pass.log ++ handedEvents mb pass.consumer.macAddressArr key [item] }
        found last fun other member => session other (List.mem_cons_of_mem _ member)
      rw [later]
      simp [handedEvents]

theorem processDeferredQueue_underKey (mb : Mbedtls) (tickCount : Nat → UInt32)
    (counted : Counted consumer) (holds : HoldsKey keyId.toUInt8 key consumer.keyCache)
    (used : keyId.toUInt8 ≠ 0) (session : ∀ item ∈ consumer.deferredQueue, item.keyId = keyId)
    (log : List ProcessingEvent) :
    let result := processDeferredQueue mb tickCount consumer log
    HoldsKey keyId.toUInt8 key result.1.keyCache ∧
      result.1.deferredQueue = consumer.deferredQueue.drop 20 ∧
      result.2 = log ++
        handedEvents mb consumer.macAddressArr key (consumer.deferredQueue.take 20) := by
  obtain ⟨taken, _, remaining⟩ := takeDeferredBatch_spec 20 counted
  simp only [processDeferredQueue, maxProcessedPdusAtOnce, taken]
  generalize (takeDeferredBatch 20 consumer).2 = rest at remaining ⊢
  have cache : rest.keyCache = consumer.keyCache := by rw [remaining]
  have behind : rest.deferredQueue = consumer.deferredQueue.drop 20 := by rw [remaining]
  have sender : rest.macAddressArr = consumer.macAddressArr := by rw [remaining]
  cases front : consumer.deferredQueue.take 20 with
  | nil => exact ⟨by rw [cache]; exact holds, behind, (List.append_nil log).symm⟩
  | cons first others =>
      have batch : ∀ item ∈ first :: others, item.keyId = keyId := by
        rw [← front]
        exact fun item member => session item (List.mem_of_mem_take member)
      have one : first.keyId = keyId := batch first List.mem_cons_self
      obtain ⟨found, kept⟩ := holds.lookup used (tickCount 0)
      simp only [one, cache, found]
      rw [settleItems_underKey mb tickCount (first :: others) 1 _ rfl rfl batch]
      exact ⟨kept, behind, by rw [sender]⟩

/-- The pass of the record takes twenty frames, and leaves the flag up as long as more wait. -/
theorem HasKey.processPendingConsumer (mb : Mbedtls) (tickCount : Nat → UInt32)
    {sec : SecPduProcessing} {index : Fin 2}
    (has : HasKey keyId key (sec.consumerCollection.arr index) sec.log)
    (counted : Counted (sec.consumerCollection.arr index)) (used : keyId.toUInt8 ≠ 0)
    (session : ∀ item ∈ (sec.consumerCollection.arr index).deferredQueue, item.keyId = keyId)
    (pending : (sec.consumerCollection.arr index).processDeferredQRequestPending = true) :
    let consumer := sec.consumerCollection.arr index
    let next := processPendingConsumer mb tickCount sec index
    HasKey keyId key (next.consumerCollection.arr index) next.log ∧
      (next.consumerCollection.arr index).deferredQueue = consumer.deferredQueue.drop 20 ∧
      next.log = sec.log ++
        handedEvents mb consumer.macAddressArr key (consumer.deferredQueue.take 20) ∧
      ((next.consumerCollection.arr index).processDeferredQRequestPending = true →
        (next.consumerCollection.arr index).deferredQueue ≠ []) := by
  intro consumer next
  obtain ⟨holds, queue, logged⟩ :=
    processDeferredQueue_underKey mb tickCount counted has.holds used session sec.log
  obtain ⟨passed, _⟩ := processPendingConsumer_passed mb tickCount counted pending
  have parts : (next.consumerCollection.arr index).keyCache =
        (processDeferredQueue mb tickCount consumer sec.log).1.keyCache ∧
      (next.consumerCollection.arr index).deferredQueue =
        (processDeferredQueue mb tickCount consumer sec.log).1.deferredQueue ∧
      next.log = (processDeferredQueue mb tickCount consumer sec.log).2 := by
    simp only [next, consumer, Receiver.processPendingConsumer, if_pos pending, setConsumer,
      Function.update_self]
    split <;> exact ⟨rfl, rfl, trivial⟩
  obtain ⟨sameCache, sameQueue, sameLog⟩ := parts
  refine ⟨⟨by rw [sameCache]; exact holds, passed.pending.mpr, ?_⟩, sameQueue.trans queue,
    sameLog.trans logged, passed.pending.mp⟩
  rw [sameLog, logged, handovers_append]
  intro handover member
  rcases List.mem_append.mp member with early | late
  · exact has.underKey handover early
  · obtain ⟨event, logged, isHandover⟩ := List.mem_filterMap.mp late
    obtain ⟨item, _, rfl⟩ := List.mem_map.mp logged
    rw [← Option.some.inj isHandover]

end Record

/-! ## A completed key -/

structure OwnRecord (mac : EspBdAddr) (collection : BleConsumerCollection) (index : Fin 2) :
    Prop where
  address : (collection.arr index).macAddressArr = mac
  others : ∀ i, i ≠ index → (collection.arr i).processDeferredQRequestPending = false

theorem OwnRecord.found {mac : EspBdAddr} {collection : BleConsumerCollection} {index : Fin 2}
    (own : OwnRecord mac collection index) (records : RecordsSound collection)
    (nonzero : mac ≠ 0) : getIndexForMacAddr collection mac = some index :=
  getIndexForMacAddr_eq records.distinct own.address nonzero

theorem OwnRecord.replace {mac : EspBdAddr} {collection next : BleConsumerCollection}
    {index : Fin 2} (own : OwnRecord mac collection index) {consumer : BleConsumer}
    (arr : next.arr = Function.update collection.arr index consumer)
    (address : consumer.macAddressArr = (collection.arr index).macAddressArr) :
    OwnRecord mac next index where
  address := by rw [arr, Function.update_self, address, own.address]
  others := by
    intro i elsewhere
    rw [arr, Function.update_of_ne elsewhere]
    exact own.others i elsewhere

structure FramesKept (mb : Mbedtls) (mac : EspBdAddr) (index : Fin 2)
    (sec next : SecPduProcessing) : Prop where
  records : RecordsSound next.consumerCollection
  own : OwnRecord mac next.consumerCollection index
  queue : (next.consumerCollection.arr index).deferredQueue =
    (sec.consumerCollection.arr index).deferredQueue
  log : next.log = sec.log
  processingQueue : next.processingQueue = sec.processingQueue
  numbers : next.dataFramesTaken = sec.dataFramesTaken
  custody : ∀ numbered, Custody mb numbered sec → Custody mb numbered next

section Completion
variable {mb : Mbedtls} {mac : EspBdAddr} {keyId : UInt16} {key : Key128b}
  {sec : SecPduProcessing} {index : Fin 2}

theorem FramesKept.refl (records : RecordsSound sec.consumerCollection)
    (own : OwnRecord mac sec.consumerCollection index) : FramesKept mb mac index sec sec :=
  ⟨records, own, rfl, rfl, rfl, rfl, fun _ => id⟩

theorem FramesKept.trans {next last : SecPduProcessing} (kept : FramesKept mb mac index sec next)
    (later : FramesKept mb mac index next last) : FramesKept mb mac index sec last where
  records := later.records
  own := later.own
  queue := later.queue.trans kept.queue
  log := later.log.trans kept.log
  processingQueue := later.processingQueue.trans kept.processingQueue
  numbers := later.numbers.trans kept.numbers
  custody := fun numbered custody => later.custody numbered (kept.custody numbered custody)

theorem framesKept_record (mb : Mbedtls) (records : RecordsSound sec.consumerCollection)
    (own : OwnRecord mac sec.consumerCollection index) {record : BleConsumer}
    (counted : Counted record)
    (address : record.macAddressArr = (sec.consumerCollection.arr index).macAddressArr)
    (queue : record.deferredQueue = (sec.consumerCollection.arr index).deferredQueue) :
    FramesKept mb mac index sec
      { sec with consumerCollection := setConsumer sec.consumerCollection index record } where
  records := records.replace index counted address
  own := own.replace rfl address
  queue := by simpa only [setConsumer, Function.update_self] using queue
  log := rfl
  processingQueue := rfl
  numbers := rfl
  custody := fun _ custody => custody.record rfl rfl rfl (Or.inr ⟨address, queue⟩)

theorem keyReconstructionComplete_session (mb : Mbedtls) (nonzero : mac ≠ 0)
    (used : keyId.toUInt8 ≠ 0) (tickCount : UInt32)
    (records : RecordsSound sec.consumerCollection)
    (own : OwnRecord mac sec.consumerCollection index)
    (phase : AwaitsKey (sec.consumerCollection.arr index) sec.log ∨
      HasKey keyId key (sec.consumerCollection.arr index) sec.log) :
    let next := keyReconstructionComplete tickCount keyId.toUInt8 key mac sec
    FramesKept mb mac index sec next ∧
      HasKey keyId key (next.consumerCollection.arr index) next.log := by
  have counted := (records.counted index).stamp tickCount
  obtain ⟨missing, _⟩ | ⟨other, found, outcome⟩ :=
    keyReconstructionComplete_cases tickCount keyId.toUInt8 key mac sec
  · rw [own.found records nonzero] at missing
    contradiction
  obtain rfl : index = other := Option.some.inj ((own.found records nonzero).symm.trans found)
  simp only at outcome
  obtain ⟨result, known⟩ | ⟨missing, _, result⟩ := outcome
  · rw [result]
    refine ⟨framesKept_record mb records own counted rfl rfl, ?_⟩
    rcases phase with awaits | has
    · rcases known with cached | failed
      · exact absurd ((awaits.blank.notCached used).symm.trans cached) (by decide)
      · exact absurd (awaits.blank.store used key tickCount).1 failed
    · simpa only [setConsumer, Function.update_self] using has.stamp tickCount
  · rw [result]
    refine ⟨framesKept_record mb records own ⟨counted.count, counted.room⟩ rfl rfl, ?_⟩
    rcases phase with awaits | has
    · simp only [setConsumer, Function.update_self]
      refine ⟨(awaits.blank.store used key tickCount).2, fun _ => rfl, ?_⟩
      simp [awaits.noneHanded]
    · exact absurd (missing.symm.trans has.holds.cached) (by decide)

theorem registeredCallback_session (mb : Mbedtls) (nonzero : mac ≠ 0)
    (used : keyId.toUInt8 ≠ 0) (tickCount : Nat → UInt32) (calls : List KeyRecCall)
    (ofKey : ∀ call ∈ calls, call = ⟨keyId.toUInt8, key, mac⟩) :
    ∀ (made : Nat) (sec : SecPduProcessing), RecordsSound sec.consumerCollection →
      OwnRecord mac sec.consumerCollection index →
      AwaitsKey (sec.consumerCollection.arr index) sec.log ∨
        HasKey keyId key (sec.consumerCollection.arr index) sec.log →
      let next := (calls.foldl (fun state call =>
        registeredCallback tickCount call.keyId call.key call.macAddress state) (made, sec)).2
      FramesKept mb mac index sec next ∧ (calls = [] ∧ next = sec ∨
        HasKey keyId key (next.consumerCollection.arr index) next.log) := by
  induction calls with
  | nil => exact fun _ _ records own _ => ⟨.refl records own, Or.inl ⟨rfl, rfl⟩⟩
  | cons call rest ih =>
      intro made sec records own phase
      obtain rfl := ofKey call List.mem_cons_self
      obtain ⟨kept, has⟩ :=
        keyReconstructionComplete_session mb nonzero used (tickCount made) records own phase
      obtain ⟨later, ends⟩ := ih (fun other member => ofKey other (List.mem_cons_of_mem _ member))
        (made + 1) _ kept.records kept.own (Or.inr has)
      refine ⟨kept.trans later, Or.inr ?_⟩
      rcases ends with ⟨none, _⟩ | has
      · subst none
        exact has
      · exact has

/-! ## A batch of elements -/

/-- Where the session stands: the key is awaited and the reconstructor has made no call, or
the key is there. -/
def KeyPhase (mb : Mbedtls) (mac : EspBdAddr) (keyId : UInt16) (key : Key128b)
    (processed : List ReconstructorQueueElement) (km : KeyReconstructionCollection 20)
    (consumer : BleConsumer) (log : List ProcessingEvent) : Bool → Prop
  | false => AwaitsKey consumer log ∧ FedWith mb mac keyId key processed km []
  | true => HasKey keyId key consumer log ∧ ∃ calls, FedWith mb mac keyId key processed km calls

variable {processed : List ReconstructorQueueElement} {km : KeyReconstructionCollection 20}
  {consumer : BleConsumer} {log : List ProcessingEvent} {there : Bool}

theorem KeyPhase.record
    (phase : KeyPhase mb mac keyId key processed km consumer log there) :
    AwaitsKey consumer log ∨ HasKey keyId key consumer log := by
  cases there with
  | false => exact Or.inl phase.1
  | true => exact Or.inr phase.1

theorem KeyPhase.fed (phase : KeyPhase mb mac keyId key processed km consumer log there) :
    ∃ calls, FedWith mb mac keyId key processed km calls := by
  cases there with
  | false => exact ⟨[], phase.2⟩
  | true => exact phase.2

theorem KeyPhase.next (phase : KeyPhase mb mac keyId key processed km consumer log there)
    {other : BleConsumer} {later : List ProcessingEvent}
    (awaits : AwaitsKey consumer log → AwaitsKey other later)
    (has : HasKey keyId key consumer log → HasKey keyId key other later) :
    KeyPhase mb mac keyId key processed km other later there := by
  cases there with
  | false => exact ⟨awaits phase.1, phase.2⟩
  | true => exact ⟨has phase.1, phase.2⟩

theorem KeyPhase.handleKeyFragment (nonzero : mac ≠ 0) (used : keyId.toUInt8 ≠ 0)
    (tickCount : Nat → UInt32) (records : RecordsSound sec.consumerCollection)
    (own : OwnRecord mac sec.consumerCollection index)
    (phase : KeyPhase mb mac keyId key processed km (sec.consumerCollection.arr index) sec.log
      there)
    {element : ReconstructorQueueElement} (ofSession : OfSession mb mac keyId key element)
    (made : Nat) :
    let result := Receiver.handleKeyFragment mb (some (registeredCallback tickCount))
      (km, (made, sec)) element
    FramesKept mb mac index sec result.2.2 ∧
      ∃ later, (there = true → later = true) ∧
        KeyPhase mb mac keyId key (processed ++ [element]) result.1
          (result.2.2.consumerCollection.arr index) result.2.2.log later := by
  intro result
  have isResult := handleKeyFragment_calls mb (registeredCallback tickCount) km (made, sec) element
  simp only [result, isResult]
  generalize logs : Receiver.handleKeyFragment mb (some logKeyRecCall) (km, []) element = logged
  have fedNext : ∀ calls, FedWith mb mac keyId key processed km calls →
      FedWith mb mac keyId key (processed ++ [element]) logged.1 (calls ++ logged.2) := by
    intro calls fed
    have next := fed.step (by decide) ofSession
    rw [handleKeyFragment_log, logs] at next
    exact next
  obtain ⟨before, fed⟩ := phase.fed
  have ofKey : ∀ call ∈ logged.2, call = ⟨keyId.toUInt8, key, mac⟩ :=
    fun call member => (fedNext before fed).keys call (List.mem_append_right _ member)
  obtain ⟨kept, ends⟩ := registeredCallback_session mb nonzero used tickCount logged.2 ofKey made
    sec records own phase.record
  refine ⟨kept, ?_⟩
  rcases ends with ⟨none, same⟩ | has
  · rw [same]
    refine ⟨there, id, ?_⟩
    cases there with
    | false =>
        have next := fedNext [] phase.2
        rw [none] at next
        exact ⟨phase.1, next⟩
    | true => exact ⟨phase.1, _, fedNext before fed⟩
  · exact ⟨true, fun _ => rfl, has, _, fedNext before fed⟩

theorem KeyPhase.handleKeyFragments (nonzero : mac ≠ 0) (used : keyId.toUInt8 ≠ 0)
    (tickCount : Nat → UInt32) (batch : List ReconstructorQueueElement) :
    ∀ {processed : List ReconstructorQueueElement} {km : KeyReconstructionCollection 20}
      {sec : SecPduProcessing} {there : Bool} (made : Nat), RecordsSound sec.consumerCollection →
      OwnRecord mac sec.consumerCollection index →
      KeyPhase mb mac keyId key processed km (sec.consumerCollection.arr index) sec.log there →
      (∀ element ∈ batch, OfSession mb mac keyId key element) →
      let result := Receiver.handleKeyFragments mb (some (registeredCallback tickCount))
        (km, (made, sec)) batch
      FramesKept mb mac index sec result.2.2 ∧
        ∃ later, (there = true → later = true) ∧
          KeyPhase mb mac keyId key (processed ++ batch) result.1
            (result.2.2.consumerCollection.arr index) result.2.2.log later := by
  induction batch with
  | nil =>
      intro processed km sec there made records own phase _
      rw [List.append_nil]
      exact ⟨.refl records own, there, id, phase⟩
  | cons element rest ih =>
      intro processed km sec there made records own phase ofSession
      obtain ⟨kept, middle, toMiddle, next⟩ := phase.handleKeyFragment nonzero used tickCount
        records own (ofSession element List.mem_cons_self) made
      simp only [Receiver.handleKeyFragments, List.foldl_cons]
      generalize Receiver.handleKeyFragment mb _ (km, (made, sec)) element = result at kept next ⊢
      obtain ⟨kmNext, madeNext, secNext⟩ := result
      obtain ⟨later, final, toFinal, last⟩ := ih madeNext kept.records kept.own next
        fun other member => ofSession other (List.mem_cons_of_mem _ member)
      rw [List.append_assoc] at last
      exact ⟨kept.trans later, final, toFinal ∘ toMiddle, last⟩

end Completion

end BleBroadcast.Receiver
