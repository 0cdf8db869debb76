import BleBroadcast.Lib.Custody
import BleBroadcast.Receiver.ReceiverTasks

/-!
# The frames behind what is handed over

The DATA frames taken for a record are numbered, and a number travels with the PDU that
was read from its frame.  Whatever the handlers do, every PDU that waits or was handed
over is that of the frame with its number, under the address of that frame, and no
number is in two places at once.
-/

set_option autoImplicit false

namespace BleBroadcast.Receiver

open BleBroadcast.Core BleBroadcast.Lib

/-! ## What is handed over -/

/-- A call of `decrypt_and_notify`. -/
structure Handover where
  macAddress : EspBdAddr
  arrival : Nat
  key : Key128b
  pdu : BeaconPduData
  notified : Option Notification

def ProcessingEvent.handover : ProcessingEvent → Option Handover
  | .handed mac arrival key pdu notified => some ⟨mac, arrival, key, pdu, notified⟩
  | _ => none

def handovers (log : List ProcessingEvent) : List Handover :=
  log.filterMap ProcessingEvent.handover

theorem handovers_append (first second : List ProcessingEvent) :
    handovers (first ++ second) = handovers first ++ handovers second :=
  List.filterMap_append

/-- The PDU that `get_beacon_pdu_from_adv_data` reads from the frame. -/
def PduOf (frame : BeaconPduDataWithMacAddr) (pdu : BeaconPduData) : Prop :=
  ∃ stack, pdu = getBeaconPduFromAdvData stack frame.data frame.size

/-- The frame is a DATA frame of the sender the observers are told, and they are told what
its payload decrypts to. -/
structure Handover.Of (mb : Mbedtls) (handover : Handover) (frame : BeaconPduDataWithMacAddr) :
    Prop where
  sender : frame.macAddress = handover.macAddress
  data : getCommandFromPdu frame.data frame.size = dataCmd
  read : PduOf frame handover.pdu
  notified : handover.notified =
    decryptAndNotify mb handover.key handover.pdu handover.macAddress

def ReadAs (numbered : List BeaconPduDataWithMacAddr) (mac : EspBdAddr) (item : DeferredPdu) :
    Prop :=
  ∃ frame, numbered[item.arrival]? = some frame ∧ frame.macAddress = mac ∧
    getCommandFromPdu frame.data frame.size = dataCmd ∧ PduOf frame item.pdu

def HandedAs (mb : Mbedtls) (numbered : List BeaconPduDataWithMacAddr) (handover : Handover) :
    Prop :=
  ∃ frame, numbered[handover.arrival]? = some frame ∧ handover.Of mb frame

section
variable {mb : Mbedtls} {numbered : List BeaconPduDataWithMacAddr}

theorem getElem?_numbered {number : Nat} {frame : BeaconPduDataWithMacAddr}
    (there : numbered[number]? = some frame) (more : List BeaconPduDataWithMacAddr) :
    (numbered ++ more)[number]? = some frame :=
  (List.getElem?_append_left (List.getElem?_eq_some_iff.mp there).1).trans there

theorem ReadAs.later {mac : EspBdAddr} {item : DeferredPdu} (readAs : ReadAs numbered mac item)
    (more : List BeaconPduDataWithMacAddr) : ReadAs (numbered ++ more) mac item := by
  obtain ⟨frame, there, rest⟩ := readAs
  exact ⟨frame, getElem?_numbered there more, rest⟩

theorem HandedAs.later {handover : Handover} (handedAs : HandedAs mb numbered handover)
    (more : List BeaconPduDataWithMacAddr) : HandedAs mb (numbered ++ more) handover := by
  obtain ⟨frame, there, rest⟩ := handedAs
  exact ⟨frame, getElem?_numbered there more, rest⟩

theorem ReadAs.handedAs {mac : EspBdAddr} {item : DeferredPdu}
    (readAs : ReadAs numbered mac item) (key : Key128b) :
    HandedAs mb numbered
      ⟨mac, item.arrival, key, item.pdu, decryptAndNotify mb key item.pdu mac⟩ := by
  obtain ⟨frame, there, sender, data, read⟩ := readAs
  exact ⟨frame, there, sender, data, read, rfl⟩

end

/-! ## Numbers in use -/

def arrivalsHanded (log : List ProcessingEvent) : List Nat :=
  (handovers log).map Handover.arrival

theorem arrivalsHanded_append (first second : List ProcessingEvent) :
    arrivalsHanded (first ++ second) = arrivalsHanded first ++ arrivalsHanded second := by
  rw [arrivalsHanded, handovers_append, List.map_append, arrivalsHanded, arrivalsHanded]

def arrivalsWaiting (consumer : BleConsumer) : List Nat :=
  consumer.deferredQueue.map DeferredPdu.arrival

def waitingCount (collection : BleConsumerCollection) (number : Nat) : Nat :=
  ∑ i, (arrivalsWaiting (collection.arr i)).count number

theorem waitingCount_update {collection next : BleConsumerCollection} {index : Fin 2}
    {consumer : BleConsumer} (arr : next.arr = Function.update collection.arr index consumer)
    (number : Nat) :
    waitingCount next number + (arrivalsWaiting (collection.arr index)).count number =
      waitingCount collection number + (arrivalsWaiting consumer).count number := by
  rw [waitingCount, arr]
  exact sum_update (fun record => (arrivalsWaiting record).count number) collection.arr index
    consumer

/-- The numbers of the frames: what was handed over and what waits is of the frames with
their numbers, and no number is used twice. -/
structure Custody (mb : Mbedtls) (numbered : List BeaconPduDataWithMacAddr)
    (sec : SecPduProcessing) : Prop where
  numbers : numbered.length = sec.dataFramesTaken
  handed : ∀ handover ∈ handovers sec.log, HandedAs mb numbered handover
  waiting : ∀ i, ∀ item ∈ (sec.consumerCollection.arr i).deferredQueue,
    ReadAs numbered (sec.consumerCollection.arr i).macAddressArr item
  once : ∀ number, (arrivalsHanded sec.log).count number +
    waitingCount sec.consumerCollection number ≤ 1

section
variable {mb : Mbedtls} {numbered : List BeaconPduDataWithMacAddr} {sec : SecPduProcessing}

theorem custody_start (mb : Mbedtls) (garbage : Fin 2 → Fin 5 → KeyReconstructionMap) :
    Custody mb [] (startUpSecProcessing garbage).sec where
  numbers := rfl
  handed := by simp [startUpSecProcessing, handovers]
  waiting := by simp [startUpSecProcessing, createBleConsumerCollection, initBleConsumer]
  once := by
    intro number
    simp [startUpSecProcessing, createBleConsumerCollection, initBleConsumer, arrivalsHanded,
      handovers, waitingCount, arrivalsWaiting]

theorem Custody.unused (custody : Custody mb numbered sec) {number : Nat}
    (fresh : numbered.length ≤ number) :
    (arrivalsHanded sec.log).count number + waitingCount sec.consumerCollection number = 0 := by
  have notThere : ∀ frame, numbered[number]? ≠ some frame := by
    intro frame there
    rw [List.getElem?_eq_none fresh] at there
    contradiction
  have handed : number ∉ arrivalsHanded sec.log := by
    intro member
    obtain ⟨handover, isHanded, rfl⟩ := List.mem_map.mp member
    obtain ⟨frame, there, _⟩ := custody.handed handover isHanded
    exact notThere frame there
  have waiting : ∀ i, number ∉ arrivalsWaiting (sec.consumerCollection.arr i) := by
    intro i member
    obtain ⟨item, waits, rfl⟩ := List.mem_map.mp member
    obtain ⟨frame, there, _⟩ := custody.waiting i item waits
    exact notThere frame there
  rw [List.count_eq_zero.mpr handed, Nat.zero_add, waitingCount]
  exact Finset.sum_eq_zero fun i _ => List.count_eq_zero.mpr (waiting i)

/-- One record is replaced, `more` frames are numbered, and what the record and the log get
comes from the record or is new. -/
theorem Custody.replace {next : SecPduProcessing} {index : Fin 2} {consumer : BleConsumer}
    (custody : Custody mb numbered sec) (more : List BeaconPduDataWithMacAddr)
    (arr : next.consumerCollection.arr =
      Function.update sec.consumerCollection.arr index consumer)
    (numbers : next.dataFramesTaken = sec.dataFramesTaken + more.length)
    (handed : ∀ handover ∈ handovers next.log, HandedAs mb (numbered ++ more) handover)
    (waiting : ∀ item ∈ consumer.deferredQueue,
      ReadAs (numbered ++ more) consumer.macAddressArr item)
    (once : ∀ number, (arrivalsHanded next.log).count number +
      (arrivalsWaiting consumer).count number ≤ (arrivalsHanded sec.log).count number +
        (arrivalsWaiting (sec.consumerCollection.arr index)).count number +
        (List.range' numbered.length more.length).count number) :
    Custody mb (numbered ++ more) next where
  numbers := by rw [List.length_append, custody.numbers, numbers]
  handed := handed
  waiting := by
    rw [arr]
    exact (Function.forall_update_iff _ fun _ (record : BleConsumer) =>
      ∀ item ∈ record.deferredQueue, ReadAs (numbered ++ more) record.macAddressArr item).mpr
        ⟨waiting, fun i _ item member => (custody.waiting i item member).later more⟩
  once := by
    intro number
    have change := waitingCount_update arr number
    have added := once number
    have before := custody.once number
    by_cases old : number < numbered.length
    · have notNew : (List.range' numbered.length more.length).count number = 0 := by
        apply List.count_eq_zero.mpr
        intro member
        have below := (List.mem_range'_1.mp member).1
        omega
      omega
    · have unused := custody.unused (Nat.le_of_not_lt old)
      have new : (List.range' numbered.length more.length).count number ≤ 1 :=
        List.nodup_iff_count_le_one.mp List.nodup_range' number
      omega

theorem Custody.record {next : SecPduProcessing} {index : Fin 2} {consumer : BleConsumer}
    (custody : Custody mb numbered sec)
    (arr : next.consumerCollection.arr =
      Function.update sec.consumerCollection.arr index consumer)
    (numbers : next.dataFramesTaken = sec.dataFramesTaken)
    (log : handovers next.log = handovers sec.log)
    (queue : consumer.deferredQueue = [] ∨
      consumer.macAddressArr = (sec.consumerCollection.arr index).macAddressArr ∧
        consumer.deferredQueue = (sec.consumerCollection.arr index).deferredQueue) :
    Custody mb numbered next := by
  have same : ∀ number, (arrivalsWaiting consumer).count number ≤
      (arrivalsWaiting (sec.consumerCollection.arr index)).count number := by
    intro number
    rcases queue with emptied | ⟨_, kept⟩
    · simp [arrivalsWaiting, emptied]
    · rw [arrivalsWaiting, kept, arrivalsWaiting]
  have replaced := custody.replace [] arr (by rw [numbers, List.length_nil, Nat.add_zero])
    (by rw [log, List.append_nil]; exact custody.handed)
    (by
      intro item member
      rcases queue with emptied | ⟨sameMac, kept⟩
      · rw [emptied] at member
        exact absurd member List.not_mem_nil
      · rw [kept] at member
        rw [List.append_nil, sameMac]
        exact custody.waiting index item member)
    (by
      intro number
      have bound := same number
      rw [arrivalsHanded, log, ← arrivalsHanded]
      omega)
  rw [List.append_nil] at replaced
  exact replaced

theorem Custody.quiet {next : SecPduProcessing} (custody : Custody mb numbered sec)
    (collection : next.consumerCollection.arr = sec.consumerCollection.arr)
    (numbers : next.dataFramesTaken = sec.dataFramesTaken) (log : next.log = sec.log) :
    Custody mb numbered next :=
  custody.record (collection.trans (Function.update_eq_self (0 : Fin 2) _).symm) numbers
    (by rw [log]) (Or.inr ⟨rfl, rfl⟩)

/-! ## A new frame -/

theorem Custody.consumerForFrame (custody : Custody mb numbered sec) (mac : EspBdAddr)
    (tickCount : UInt32) :
    Custody mb numbered
      { sec with
        consumerCollection := (consumerForFrame sec.consumerCollection mac tickCount).2 } := by
  obtain ⟨index, _, result⟩ | ⟨_, index, _, result⟩ | ⟨_, result⟩ :=
    consumerForFrame_cases sec.consumerCollection mac tickCount
  · rw [result]
    exact custody.record rfl rfl rfl (Or.inr ⟨rfl, rfl⟩)
  · rw [result]
    exact custody.record rfl rfl rfl (Or.inl rfl)
  · rw [result]
    exact custody

theorem Custody.handleDataPdu (custody : Custody mb numbered sec) (tickCount : UInt32)
    {index : Fin 2} (counted : Counted (sec.consumerCollection.arr index))
    {frame : BeaconPduDataWithMacAddr}
    (own : (sec.consumerCollection.arr index).macAddressArr = frame.macAddress)
    (data : getCommandFromPdu frame.data frame.size = dataCmd) {pdu : BeaconPduData}
    (read : PduOf frame pdu) {next : SecPduProcessing}
    (arr : next.consumerCollection.arr = Function.update sec.consumerCollection.arr index
      (handleDataPdu mb tickCount (sec.consumerCollection.arr index) frame.macAddress pdu
        sec.dataFramesTaken).1)
    (numbers : next.dataFramesTaken = sec.dataFramesTaken + 1)
    (log : next.log = sec.log ++
      (handleDataPdu mb tickCount (sec.consumerCollection.arr index) frame.macAddress pdu
        sec.dataFramesTaken).2) :
    Custody mb (numbered ++ [frame]) next := by
  have there : (numbered ++ [frame])[sec.dataFramesTaken]? = some frame := by
    rw [← custody.numbers, List.getElem?_concat_length]
  have isNew : ReadAs (numbered ++ [frame]) frame.macAddress ⟨pdu, sec.dataFramesTaken⟩ :=
    ⟨frame, there, rfl, data, read⟩
  have old : ∀ item ∈ (sec.consumerCollection.arr index).deferredQueue,
      ReadAs (numbered ++ [frame]) frame.macAddress item := by
    intro item member
    have readAs := custody.waiting index item member
    rw [own] at readAs
    exact readAs.later [frame]
  have oldHanded : ∀ handover ∈ handovers sec.log, HandedAs mb (numbered ++ [frame]) handover :=
    fun handover member => (custody.handed handover member).later [frame]
  have one : ∀ number, (List.range' numbered.length [frame].length).count number =
      [sec.dataFramesTaken].count number := by
    intro number
    rw [custody.numbers]
    rfl
  obtain ⟨key, _, none, result⟩ | ⟨_, _, result⟩ | ⟨_, result⟩ :=
    handleDataPdu_cases mb tickCount counted frame.macAddress pdu sec.dataFramesTaken
  · rw [result] at arr log
    have logged : handovers next.log = handovers sec.log ++
        [⟨frame.macAddress, sec.dataFramesTaken, key, pdu,
          decryptAndNotify mb key pdu frame.macAddress⟩] := by
      rw [log, handovers_append]
      rfl
    refine custody.replace [frame] arr numbers ?_ ?_ fun number => ?_
    · rw [logged]
      intro handover member
      rcases List.mem_append.mp member with early | single
      · exact oldHanded handover early
      · rw [List.mem_singleton.mp single]
        exact isNew.handedAs key
    · intro item member
      rw [show (hearKeyId tickCount (sec.consumerCollection.arr index) _).2.deferredQueue = []
        from none] at member
      exact absurd member List.not_mem_nil
    · rw [one, arrivalsHanded, logged, List.map_append, List.count_append, ← arrivalsHanded]
      simp only [arrivalsWaiting, hearKeyId, List.map_cons, List.map_nil]
      omega
  · rw [result] at arr log
    have logged : handovers next.log = handovers sec.log := by
      rw [log, handovers_append]
      exact List.append_nil _
    refine custody.replace [frame] arr numbers (by rw [logged]; exact oldHanded) ?_
      fun number => ?_
    · intro item member
      rcases List.mem_append.mp member with waits | single
      · exact own ▸ old item waits
      · rw [List.mem_singleton.mp single]
        exact own ▸ isNew
    · rw [one, arrivalsHanded, logged, ← arrivalsHanded]
      simp only [arrivalsWaiting, hearKeyId, List.map_append, List.map_cons, List.map_nil,
        List.count_append]
      omega
  · rw [result] at arr log
    have logged : handovers next.log = handovers sec.log := by
      rw [log, handovers_append]
      exact List.append_nil _
    refine custody.replace [frame] arr numbers (by rw [logged]; exact oldHanded) ?_
      fun number => ?_
    · exact fun item member => own ▸ old item member
    · rw [one, arrivalsHanded, logged, ← arrivalsHanded]
      simp only [arrivalsWaiting, hearKeyId]
      omega

/-- The frames that `handle_event_new_pdu` numbers for one frame. -/
def numberedBy (sec : SecPduProcessing) (tickCount : UInt32) (frame : BeaconPduDataWithMacAddr) :
    List BeaconPduDataWithMacAddr :=
  if (consumerForFrame sec.consumerCollection frame.macAddress tickCount).1.isSome ∧
      getCommandFromPdu frame.data frame.size = dataCmd then [frame]
  else []

theorem Custody.handleNewFrame (tickCount : UInt32) (stack : BeaconPduData)
    {receiver : ReceiverState} (custody : Custody mb numbered receiver.sec)
    (records : RecordsSound receiver.sec.consumerCollection) (frame : BeaconPduDataWithMacAddr) :
    Custody mb (numbered ++ numberedBy receiver.sec tickCount frame)
      (handleNewFrame mb tickCount stack receiver frame).sec := by
  obtain ⟨sound, _, address⟩ := consumerForFrame_spec records frame.macAddress tickCount
  have looked := custody.consumerForFrame frame.macAddress tickCount
  simp only [Receiver.handleNewFrame, numberedBy]
  cases claimed : Receiver.consumerForFrame receiver.sec.consumerCollection frame.macAddress tickCount with
  | mk found collection =>
      rw [claimed] at sound address looked
      cases found with
      | none => simpa using looked
      | some index =>
          have own := address index rfl
          simp only at own sound looked ⊢
          by_cases data : getCommandFromPdu frame.data frame.size = dataCmd
          · simp only [data, if_true, Option.isSome_some, and_self]
            exact looked.handleDataPdu tickCount (sound.counted index) own data
              ⟨stack, rfl⟩ rfl rfl rfl
          · simp only [data, if_false, and_false, List.append_nil]
            split
            · exact looked.record rfl rfl (by rw [handovers_append]; exact List.append_nil _)
                (Or.inr ⟨rfl, rfl⟩)
            · exact looked

/-! ## A pass over the deferred frames -/

/-- Between two turns of the second loop: `items` are still to be settled. -/
structure PassCustody (mb : Mbedtls) (numbered : List BeaconPduDataWithMacAddr)
    (mac : EspBdAddr) (bound : Nat → Nat) (items : List DeferredPdu) (pass : DeferredPass) :
    Prop where
  sender : pass.consumer.macAddressArr = mac
  left : ∀ item ∈ items, ReadAs numbered mac item
  waiting : ∀ item ∈ pass.consumer.deferredQueue, ReadAs numbered mac item
  handed : ∀ handover ∈ handovers pass.log, HandedAs mb numbered handover
  once : ∀ number, (arrivalsHanded pass.log).count number +
    (arrivalsWaiting pass.consumer).count number +
    (items.map DeferredPdu.arrival).count number ≤ bound number

variable {mac : EspBdAddr} {bound : Nat → Nat} {item : DeferredPdu} {items : List DeferredPdu}
  {pass : DeferredPass}

theorem PassCustody.lookupForItem (custody : PassCustody mb numbered mac bound items pass)
    (tickCount : UInt32) (item : DeferredPdu) :
    PassCustody mb numbered mac bound items (lookupForItem tickCount pass item) := by
  unfold Receiver.lookupForItem
  split
  · exact ⟨custody.sender, custody.left, custody.waiting, custody.handed, custody.once⟩
  · exact custody

theorem PassCustody.settleItem
    (custody : PassCustody mb numbered mac bound (item :: items) pass) :
    PassCustody mb numbered mac bound items (settleItem mb pass item) := by
  have here := custody.left item List.mem_cons_self
  have later : ∀ other ∈ items, ReadAs numbered mac other :=
    fun other member => custody.left other (List.mem_cons_of_mem _ member)
  have once := custody.once
  simp only [List.map_cons, List.count_cons] at once
  unfold Receiver.settleItem
  cases pass.key with
  | some key =>
      refine ⟨custody.sender, later, custody.waiting, ?_, fun number => ?_⟩
      · intro handover member
        simp only [handovers_append, custody.sender] at member
        rcases List.mem_append.mp member with early | single
        · exact custody.handed handover early
        · rw [List.mem_singleton.mp single]
          exact here.handedAs key
      · have before := once number
        simp only [arrivalsHanded_append, List.count_append]
        simp only [arrivalsHanded, handovers, ProcessingEvent.handover, List.filterMap_cons,
          List.filterMap_nil, List.map_cons, List.map_nil, List.count_cons, List.count_nil] at before ⊢
        omega
  | none =>
      simp only
      split
      · unfold addToDeferredQueue
        split
        · refine ⟨custody.sender, later, ?_, custody.handed, fun number => ?_⟩
          · intro other member
            rcases List.mem_append.mp member with waits | single
            · exact custody.waiting other waits
            · rw [List.mem_singleton.mp single]
              exact here
          · have before := once number
            simp only [arrivalsWaiting, List.map_append, List.map_cons, List.map_nil,
              List.count_append, List.count_cons, List.count_nil, if_true] at before ⊢
            omega
        · refine ⟨custody.sender, later, custody.waiting, ?_, fun number => ?_⟩
          · simp only [Bool.false_eq_true, if_false, handovers_append]
            simpa [handovers, ProcessingEvent.handover] using custody.handed
          · have before := once number
            simp only [Bool.false_eq_true, if_false, arrivalsHanded_append, List.count_append]
            simp only [arrivalsHanded, handovers, ProcessingEvent.handover, List.filterMap_cons,
              List.filterMap_nil, List.map_nil, List.count_nil] at before ⊢
            omega
      · refine ⟨custody.sender, later, custody.waiting, ?_, fun number => ?_⟩
        · simp only [handovers_append]
          simpa [handovers, ProcessingEvent.handover] using custody.handed
        · have before := once number
          simp only [arrivalsHanded_append, List.count_append]
          simp only [arrivalsHanded, handovers, ProcessingEvent.handover, List.filterMap_cons,
            List.filterMap_nil, List.map_nil, List.count_nil] at before ⊢
          omega

theorem PassCustody.settleItems (tickCount : Nat → UInt32) (items : List DeferredPdu) :
    ∀ (i : Nat) (pass : DeferredPass), PassCustody mb numbered mac bound items pass →
      PassCustody mb numbered mac bound [] (settleItems mb tickCount i pass items) := by
  induction items with
  | nil => exact fun _ _ custody => custody
  | cons item rest ih =>
      intro i pass custody
      exact ih (i + 1) _ (custody.lookupForItem (tickCount i) item).settleItem

theorem Custody.processDeferredQueue (custody : Custody mb numbered sec)
    (tickCount : Nat → UInt32) {index : Fin 2}
    (counted : Counted (sec.consumerCollection.arr index)) :
    let result := processDeferredQueue mb tickCount (sec.consumerCollection.arr index) sec.log
    result.1.macAddressArr = (sec.consumerCollection.arr index).macAddressArr ∧
    (∀ item ∈ result.1.deferredQueue,
      ReadAs numbered (sec.consumerCollection.arr index).macAddressArr item) ∧
    (∀ handover ∈ handovers result.2, HandedAs mb numbered handover) ∧
    ∀ number, (arrivalsHanded result.2).count number +
      (arrivalsWaiting result.1).count number ≤ (arrivalsHanded sec.log).count number +
        (arrivalsWaiting (sec.consumerCollection.arr index)).count number := by
  have queued := custody.waiting index
  generalize sec.consumerCollection.arr index = consumer at counted queued ⊢
  obtain ⟨taken, _, remaining⟩ := takeDeferredBatch_spec 20 counted
  simp only [Receiver.processDeferredQueue, maxProcessedPdusAtOnce, taken]
  generalize (takeDeferredBatch 20 consumer).2 = rest at remaining ⊢
  have sender : rest.macAddressArr = consumer.macAddressArr := by rw [remaining]
  have behind : rest.deferredQueue = consumer.deferredQueue.drop 20 := by rw [remaining]
  have split : ∀ number, (arrivalsWaiting consumer).count number =
      (arrivalsWaiting rest).count number +
        ((consumer.deferredQueue.take 20).map DeferredPdu.arrival).count number := by
    intro number
    rw [arrivalsWaiting, arrivalsWaiting, behind, ← List.take_append_drop 20
      consumer.deferredQueue, List.map_append, List.count_append]
    simp only [List.take_append_drop]
    omega
  cases front : consumer.deferredQueue.take 20 with
  | nil =>
      refine ⟨sender, ?_, custody.handed, fun number => ?_⟩
      · rw [behind]
        exact fun item member => queued item (List.mem_of_mem_drop member)
      · have whole := split number
        show (arrivalsHanded sec.log).count number + (arrivalsWaiting rest).count number ≤ _
        omega
  | cons first others =>
      have initial : PassCustody mb numbered consumer.macAddressArr
          (fun number => (arrivalsHanded sec.log).count number +
            (arrivalsWaiting consumer).count number) (first :: others)
          ⟨{ rest with
              keyCache := (getKeyFromCache rest.keyCache first.keyId.toUInt8 (tickCount 0)).2 },
            (getKeyFromCache rest.keyCache first.keyId.toUInt8 (tickCount 0)).1, first.keyId,
            sec.log⟩ := by
        refine ⟨sender, ?_, ?_, custody.handed, fun number => ?_⟩
        · rw [← front]
          exact fun item member => queued item (List.mem_of_mem_take member)
        · simp only [behind]
          exact fun item member => queued item (List.mem_of_mem_drop member)
        · have whole := split number
          rw [front] at whole
          rw [whole, ← Nat.add_assoc]
          exact Nat.le_refl _
      have settled := initial.settleItems tickCount (first :: others) 1
      exact ⟨settled.sender, settled.waiting, settled.handed, settled.once⟩

theorem Custody.processPendingConsumer (custody : Custody mb numbered sec)
    (tickCount : Nat → UInt32) {index : Fin 2}
    (counted : Counted (sec.consumerCollection.arr index)) :
    Custody mb numbered (processPendingConsumer mb tickCount sec index) := by
  obtain ⟨sender, waiting, handed, once⟩ := custody.processDeferredQueue tickCount counted
  simp only [Receiver.processPendingConsumer]
  split
  · generalize Receiver.processDeferredQueue mb tickCount (sec.consumerCollection.arr index)
      sec.log = result at sender waiting handed once ⊢
    obtain ⟨settled, isSettled⟩ : ∃ settled, settled =
      (if isPduInDeferredQueue result.1 then result.1
        else { result.1 with processDeferredQRequestPending := false }) := ⟨_, rfl⟩
    have keeps : settled.macAddressArr = result.1.macAddressArr ∧
        settled.deferredQueue = result.1.deferredQueue := by
      rw [isSettled]
      split <;> exact ⟨rfl, rfl⟩
    obtain ⟨sameMac, sameQueue⟩ := keeps
    rw [← isSettled]
    have replaced : Custody mb (numbered ++ [])
        { sec with
          consumerCollection := setConsumer sec.consumerCollection index settled
          log := result.2 } := by
      refine custody.replace [] rfl rfl (by rw [List.append_nil]; exact handed)
        (by rw [List.append_nil, sameQueue, sameMac, sender]; exact waiting) fun number => ?_
      have bound := once number
      rw [arrivalsWaiting, ← sameQueue, ← arrivalsWaiting] at bound
      exact Nat.le_trans bound (Nat.le_add_right _ _)
    rw [List.append_nil] at replaced
    exact replaced
  · exact custody

/-! ## The rest of the handlers -/

theorem Custody.keyReconstructionComplete (custody : Custody mb numbered sec)
    (tickCount : UInt32) (keyId : UInt8) (key : Key128b) (mac : EspBdAddr) :
    Custody mb numbered (keyReconstructionComplete tickCount keyId key mac sec) := by
  obtain ⟨_, result⟩ | ⟨index, _, ⟨result, _⟩ | ⟨_, _, result⟩⟩ :=
    keyReconstructionComplete_cases tickCount keyId key mac sec
  · rw [result]
    exact custody
  · rw [result]
    exact custody.record rfl rfl rfl (Or.inr ⟨rfl, rfl⟩)
  · rw [result]
    exact custody.record rfl rfl rfl (Or.inr ⟨rfl, rfl⟩)

theorem Custody.processDeferredPdus (custody : Custody mb numbered sec)
    (records : RecordsSound sec.consumerCollection) (tickCount : Fin 2 → Nat → UInt32) :
    Custody mb numbered (handleEventProcessDeferredPdus mb tickCount sec) := by
  have move : DataMove anyPass sec (Receiver.processPendingConsumer mb (tickCount 0) sec 0) :=
    processPendingConsumer_move mb (tickCount 0) records 0 fun _ => trivial
  exact (custody.processPendingConsumer (tickCount 0) (records.counted 0)).processPendingConsumer
    (tickCount 1) (move.records.counted 1)

theorem Custody.handovers_subperm (custody : Custody mb numbered sec) :
    ∃ frames, frames.Subperm numbered ∧
      List.Forall₂ (fun handover frame => handover.Of mb frame) (handovers sec.log) frames := by
  refine exists_subperm_of_numbered ?_ custody.handed
  refine List.nodup_iff_count_le_one.mpr fun number => ?_
  have once := custody.once number
  rw [arrivalsHanded] at once
  omega

end

end BleBroadcast.Receiver
