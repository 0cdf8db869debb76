import BleBroadcast.Receiver.SenderTables
import BleBroadcast.Receiver.SessionPhases

/-!
# The frames of a session

One session of one sender is heard.  Its frames are taken from the processing queue in
batches, and as long as the queues have room, the DATA frames wait and are handed over in
the order they were taken in, and until the key is there, every genuine fragment was
processed or is queued.
-/

set_option autoImplicit false

namespace BleBroadcast.Receiver

open BleBroadcast.Core BleBroadcast.Lib

def dataFrames (frames : List BeaconPduDataWithMacAddr) : List BeaconPduDataWithMacAddr :=
  frames.filter fun frame => frame.command = dataCmd

def fragmentFrames (frames : List BeaconPduDataWithMacAddr) : List BeaconPduDataWithMacAddr :=
  frames.filter fun frame => frame.command = keyFragmentCmd

def BeaconPduDataWithMacAddr.element (frame : BeaconPduDataWithMacAddr) :
    ReconstructorQueueElement :=
  fragmentElement (BeaconKeyPduData.overlay frame.data) frame.macAddress

theorem dataFrames_concat (frames : List BeaconPduDataWithMacAddr)
    (frame : BeaconPduDataWithMacAddr) :
    dataFrames (frames ++ [frame]) = dataFrames frames ++ dataFrames [frame] :=
  List.filter_append ..

theorem fragmentFrames_concat (frames : List BeaconPduDataWithMacAddr)
    (frame : BeaconPduDataWithMacAddr) :
    fragmentFrames (frames ++ [frame]) = fragmentFrames frames ++ fragmentFrames [frame] :=
  List.filter_append ..

/-! ## Where the session stands -/

structure Unheard (mb : Mbedtls) (mac : EspBdAddr) (keyId : UInt16) (key : Key128b)
    (processed : List ReconstructorQueueElement) (receiver : ReceiverState) : Prop where
  unclaimed : ∀ i, Unclaimed (receiver.sec.consumerCollection.arr i)
  count : receiver.sec.consumerCollection.consumersCount = 0
  noneHanded : handovers receiver.sec.log = []
  noElement : processed = [] ∧ receiver.reconstructor.xQueueKeyReconstruction = []
  fed : FedWith mb mac keyId key [] receiver.reconstructor.keyCollection []

/-- What holds after the frames were taken and the elements processed; `there` tells whether
the record of the sender has the key. -/
structure SessionHeld (mb : Mbedtls) (mac : EspBdAddr) (keyId : UInt16) (key : Key128b)
    (frames : List BeaconPduDataWithMacAddr) (processed : List ReconstructorQueueElement)
    (there : Bool) (receiver : ReceiverState) : Prop where
  records : RecordsSound receiver.sec.consumerCollection
  waiting : ∀ frame ∈ receiver.sec.processingQueue, SessionFrame mb mac keyId key frame
  taken : ∀ frame ∈ frames, SessionFrame mb mac keyId key frame
  queued : ∀ element ∈ receiver.reconstructor.xQueueKeyReconstruction,
    OfSession mb mac keyId key element
  custody : Custody mb (dataFrames frames) receiver.sec
  phase : there = false ∧ Unheard mb mac keyId key processed receiver ∨
    ∃ index, OwnRecord mac receiver.sec.consumerCollection index ∧
      KeyPhase mb mac keyId key processed receiver.reconstructor.keyCollection
        (receiver.sec.consumerCollection.arr index) receiver.sec.log there

structure NothingLost (mb : Mbedtls) (mac : EspBdAddr) (frames : List BeaconPduDataWithMacAddr)
    (processed : List ReconstructorQueueElement) (there : Bool) (receiver : ReceiverState) :
    Prop where
  order : arrivalsHanded receiver.sec.log ++
      (queueOf receiver.sec.consumerCollection mac).map DeferredPdu.arrival =
    List.range receiver.sec.dataFramesTaken
  atHand : there = false → ∀ frame ∈ fragmentFrames frames, frame.element.tagMatches mb = true →
    frame.element.keyFragmentNo ∈ (genuineFragments mb
      (processed ++ receiver.reconstructor.xQueueKeyReconstruction)).map Prod.fst

/-- The queues have room for what the frames bring. -/
def FrameRoom (mac : EspBdAddr) (receiver : ReceiverState)
    (batch : List BeaconPduDataWithMacAddr) : Prop :=
  (queueOf receiver.sec.consumerCollection mac).length + (dataFrames batch).length ≤
      deferredQueueSize ∧
    receiver.reconstructor.xQueueKeyReconstruction.length + (fragmentFrames batch).length ≤
      maxElementsInQueue

section Step
variable {mb : Mbedtls} {mac : EspBdAddr} {keyId : UInt16} {key : Key128b}
  {frames : List BeaconPduDataWithMacAddr} {processed : List ReconstructorQueueElement}
  {there : Bool} {receiver : ReceiverState}

theorem sessionHeld_start (mb : Mbedtls) (mac : EspBdAddr) (keyId : UInt16) (key : Key128b)
    (garbage : Fin 2 → Fin 5 → KeyReconstructionMap) :
    SessionHeld mb mac keyId key [] [] false (startUpSecProcessing garbage) where
  records := recordsSound_start garbage
  waiting := by simp [startUpSecProcessing]
  taken := by simp
  queued := by simp [startUpSecProcessing, startUpKeyReconstructor]
  custody := custody_start mb garbage
  phase := by
    refine Or.inl ⟨rfl, fun i => ⟨rfl, blank_init (garbage i), rfl⟩, rfl, rfl, ⟨rfl, rfl⟩, ?_⟩
    exact fedWith_start 20 mb mac keyId key

theorem nothingLost_start (mb : Mbedtls) {mac : EspBdAddr} (nonzero : mac ≠ 0)
    (garbage : Fin 2 → Fin 5 → KeyReconstructionMap) :
    NothingLost mb mac [] [] false (startUpSecProcessing garbage) where
  order := by
    have missing : getIndexForMacAddr (createBleConsumerCollection garbage) mac = none :=
      getIndexForMacAddr_none.mpr fun _ => Ne.symm nonzero
    simp [startUpSecProcessing, arrivalsHanded, handovers, queueOf, missing]
  atHand := by simp [fragmentFrames]

theorem getIndexForMacAddr_unclaimed {collection : BleConsumerCollection}
    (unclaimed : ∀ i, Unclaimed (collection.arr i)) (nonzero : mac ≠ 0) :
    getIndexForMacAddr collection mac = none :=
  getIndexForMacAddr_none.mpr fun i => by
    rw [(unclaimed i).address]
    exact nonzero.symm

theorem OwnRecord.queue {collection : BleConsumerCollection} {index : Fin 2}
    (own : OwnRecord mac collection index) (records : RecordsSound collection)
    (nonzero : mac ≠ 0) : queueOf collection mac = (collection.arr index).deferredQueue :=
  queueOf_eq records.distinct own.address nonzero

theorem SessionHeld.items (held : SessionHeld mb mac keyId key frames processed there receiver)
    (i : Fin 2) :
    ∀ item ∈ (receiver.sec.consumerCollection.arr i).deferredQueue, item.keyId = keyId := by
  intro item member
  obtain ⟨frame, numbered, _, data, stack, isPdu⟩ := held.custody.waiting i item member
  have isFrame := held.taken frame
    (List.mem_of_mem_filter (List.mem_of_getElem? numbered))
  rw [DeferredPdu.keyId, isPdu, keyId_getBeaconPduFromAdvData stack (isFrame.sentBy.data data)]
  exact isFrame.session

/-! ## The record for a frame -/

structure RecordFor (mb : Mbedtls) (mac : EspBdAddr) (keyId : UInt16) (key : Key128b)
    (processed : List ReconstructorQueueElement) (there : Bool) (receiver : ReceiverState)
    (index : Fin 2) (collection : BleConsumerCollection) : Prop where
  records : RecordsSound collection
  own : OwnRecord mac collection index
  phase : KeyPhase mb mac keyId key processed receiver.reconstructor.keyCollection
    (collection.arr index) receiver.sec.log there
  queue : (collection.arr index).deferredQueue = queueOf receiver.sec.consumerCollection mac

theorem SessionHeld.lookup (held : SessionHeld mb mac keyId key frames processed there receiver)
    (nonzero : mac ≠ 0) (tickCount : UInt32) :
    ∃ index collection,
      consumerForFrame receiver.sec.consumerCollection mac tickCount = (some index, collection) ∧
        RecordFor mb mac keyId key processed there receiver index collection := by
  obtain ⟨records, queues, address⟩ := consumerForFrame_spec held.records mac tickCount
  have sameQueue : ∀ index, OwnRecord mac
      (consumerForFrame receiver.sec.consumerCollection mac tickCount).2 index →
      ((consumerForFrame receiver.sec.consumerCollection mac tickCount).2.arr
        index).deferredQueue = queueOf receiver.sec.consumerCollection mac :=
    fun index own => (own.queue records nonzero).symm.trans (queues mac nonzero)
  rcases held.phase with ⟨rfl, unheard⟩ | ⟨index, own, phase⟩
  · have missing := getIndexForMacAddr_unclaimed unheard.unclaimed nonzero
    have room := consumerForFrame_room missing ⟨0, (unheard.unclaimed 0).address⟩
      (by rw [unheard.count]; decide) tickCount
    obtain ⟨_, found, _⟩ | ⟨_, index, _, result⟩ | ⟨_, result⟩ :=
      consumerForFrame_cases receiver.sec.consumerCollection mac tickCount
    · rw [missing] at found
      contradiction
    · have own : OwnRecord mac
          (consumerForFrame receiver.sec.consumerCollection mac tickCount).2 index := by
        refine ⟨address index (by rw [result]), fun i elsewhere => ?_⟩
        rw [result]
        simp only [setConsumer, Function.update_of_ne elsewhere]
        exact (unheard.unclaimed i).idle
      refine ⟨index, _, Prod.ext (by rw [result]) rfl, records, own, ?_, sameQueue index own⟩
      rw [result]
      simp only [setConsumer, Function.update_self]
      refine ⟨⟨(unheard.unclaimed index).blank.clearCache, rfl, unheard.noneHanded⟩, ?_⟩
      rw [unheard.noElement.1]
      exact unheard.fed
    · rw [result] at room
      contradiction
  · obtain ⟨other, found, result⟩ | ⟨missing, _⟩ | ⟨missing, _⟩ :=
      consumerForFrame_cases receiver.sec.consumerCollection mac tickCount
    · obtain rfl : index = other :=
        Option.some.inj ((own.found held.records nonzero).symm.trans found)
      have ownNext : OwnRecord mac
          (consumerForFrame receiver.sec.consumerCollection mac tickCount).2 index := by
        rw [result]
        exact own.replace rfl rfl
      refine ⟨index, _, Prod.ext (by rw [result]) rfl, records, ownNext, ?_,
        sameQueue index ownNext⟩
      rw [result]
      simp only [setConsumer, Function.update_self]
      exact phase.next (·.stamp tickCount) (·.stamp tickCount)
    · rw [own.found held.records nonzero] at missing
      contradiction
    · rw [own.found held.records nonzero] at missing
      contradiction

/-! ## A new frame -/

theorem handleNewFrame_cases (mb : Mbedtls) (tickCount : UInt32) (stack : BeaconPduData)
    {receiver : ReceiverState} {frame : BeaconPduDataWithMacAddr} {index : Fin 2}
    {collection : BleConsumerCollection}
    (looked : consumerForFrame receiver.sec.consumerCollection frame.macAddress tickCount =
      (some index, collection)) :
    let sec := receiver.sec
    let pdu := getBeaconPduFromAdvData stack frame.data frame.size
    let data := handleDataPdu mb tickCount (collection.arr index) frame.macAddress pdu
      sec.dataFramesTaken
    let fragment := hearKeyId tickCount (collection.arr index) frame.keyId
    let next := handleNewFrame mb tickCount stack receiver frame
    (frame.command = dataCmd ∧
      next = { receiver with
        sec := { sec with
          consumerCollection := setConsumer collection index data.1
          dataFramesTaken := sec.dataFramesTaken + 1
          log := sec.log ++ data.2 } }) ∨
    (frame.command = keyFragmentCmd ∧
      next =
        { sec := { sec with
            consumerCollection := setConsumer collection index fragment.2
            log := sec.log ++ [.tookKeyFragment frame.macAddress frame.keyId] }
          reconstructor :=
            if fragment.1.isSome then receiver.reconstructor
            else (queueKeyForReconstruction receiver.reconstructor frame.element).2 }) ∨
    (frame.command ≠ dataCmd ∧ frame.command ≠ keyFragmentCmd ∧
      next = { receiver with sec := { sec with consumerCollection := collection } }) := by
  intro sec pdu data fragment next
  by_cases isData : frame.command = dataCmd
  · refine Or.inl ⟨isData, ?_⟩
    simp only [next, handleNewFrame, looked, if_pos (show getCommandFromPdu _ _ = _ from isData)]
    rfl
  · by_cases isFragment : frame.command = keyFragmentCmd
    · refine Or.inr (Or.inl ⟨isFragment, ?_⟩)
      simp only [next, handleNewFrame, looked, if_neg (show ¬ getCommandFromPdu _ _ = _ from isData),
        if_pos (show getCommandFromPdu _ _ = _ from isFragment)]
      have heard : hearKeyId tickCount (collection.arr index)
          (fragmentElement (BeaconKeyPduData.overlay frame.data) frame.macAddress).keyId =
            fragment := rfl
      rw [heard]
      cases fragment.1 <;> rfl
    · refine Or.inr (Or.inr ⟨isData, isFragment, ?_⟩)
      simp only [next, handleNewFrame, looked, if_neg (show ¬ getCommandFromPdu _ _ = _ from isData),
        if_neg (show ¬ getCommandFromPdu _ _ = _ from isFragment)]
      rfl

theorem queueKeyForReconstruction_cases {size : Nat} (control : KeyReconstructorControl size)
    (element : ReconstructorQueueElement) :
    let next := (queueKeyForReconstruction control element).2
    (next = control ∧
      (isKeyAvailable control.keyCollection element.consumerMacAddress element.keyByte = true ∨
        isKeyFragmentDecrypted control.keyCollection element.consumerMacAddress element.keyByte
          element.keyFragmentNo = true ∨
        ¬ control.xQueueKeyReconstruction.length < maxElementsInQueue)) ∨
    (control.xQueueKeyReconstruction.length < maxElementsInQueue ∧
      next = { control with
        xQueueKeyReconstruction := control.xQueueKeyReconstruction ++ [element] }) := by
  simp only [queueKeyForReconstruction]
  split
  · rename_i available
    exact Or.inl ⟨rfl, Or.inl available⟩
  · split
    · rename_i decrypted
      exact Or.inl ⟨rfl, Or.inr (Or.inl decrypted)⟩
    · split
      · rename_i below
        exact Or.inr ⟨below, rfl⟩
      · rename_i full
        exact Or.inl ⟨rfl, Or.inr (Or.inr full)⟩

theorem queueKeyForReconstruction_queue {size : Nat} (control : KeyReconstructorControl size)
    (element : ReconstructorQueueElement) :
    let next := (queueKeyForReconstruction control element).2
    next.keyCollection = control.keyCollection ∧
      (next.xQueueKeyReconstruction = control.xQueueKeyReconstruction ∨
        control.xQueueKeyReconstruction.length < maxElementsInQueue ∧
          next.xQueueKeyReconstruction = control.xQueueKeyReconstruction ++ [element]) := by
  intro next
  obtain ⟨kept, _⟩ | ⟨below, queued⟩ := queueKeyForReconstruction_cases control element
  · simp only [next, kept]
    exact ⟨trivial, Or.inl trivial⟩
  · simp only [next, queued]
    exact ⟨trivial, Or.inr ⟨below, trivial⟩⟩

theorem FedWith.collected {size : Nat} {km : KeyReconstructionCollection size}
    (fed : FedWith mb mac keyId key processed km []) :
    Feeding mac keyId.toUInt8 (Collector.empty.offers (genuineFragments mb processed)) km ∧
      ¬ (Collector.empty.offers (genuineFragments mb processed)).Full := by
  obtain ⟨collected, feeding, notFull, _, ⟨_, rfl⟩ | ⟨some, _⟩⟩ := fed.collecting
  · exact ⟨feeding, notFull⟩
  · exact absurd rfl some

theorem Feeding.decrypted {size : Nat} {km : KeyReconstructionCollection size} {keyByte : UInt8}
    {collected : Collector FragmentNo KeyFragment} (feeding : Feeding mac keyByte collected km)
    {number : FragmentNo} (decrypted : isKeyFragmentDecrypted km mac keyByte number = true) :
    (collected number).isSome = true := by
  rcases feeding.entry with ⟨index, found, rfl, _⟩ | ⟨missing, _⟩
  · rw [isKeyFragmentDecrypted_found found] at decrypted
    simp [KeyManagement.collected, decrypted]
  · simp [isKeyFragmentDecrypted, missing] at decrypted

theorem Feeding.unavailable {size : Nat} {km : KeyReconstructionCollection size} {keyByte : UInt8}
    {collected : Collector FragmentNo KeyFragment} (feeding : Feeding mac keyByte collected km) :
    isKeyAvailable km mac keyByte = false := by
  rcases feeding.entry with ⟨index, found, _⟩ | ⟨missing, _⟩
  · rw [isKeyAvailable_found found]
    exact beq_eq_false_iff_ne.mpr (feeding.opens index).unfinished
  · simp only [isKeyAvailable, missing]

theorem handleDataPdu_order (mb : Mbedtls) (tickCount : UInt32) {consumer : BleConsumer}
    (counted : Counted consumer) (mac : EspBdAddr) (pdu : BeaconPduData) (number : Nat) :
    let result := handleDataPdu mb tickCount consumer mac pdu number
    result.1.deferredQueue.length ≤ consumer.deferredQueue.length + 1 ∧
      (consumer.deferredQueue.length < deferredQueueSize →
        arrivalsHanded result.2 ++ result.1.deferredQueue.map DeferredPdu.arrival =
          consumer.deferredQueue.map DeferredPdu.arrival ++ [number]) := by
  obtain ⟨key, _, none, result⟩ | ⟨_, _, result⟩ | ⟨full, result⟩ :=
    handleDataPdu_cases mb tickCount counted mac pdu number
  · rw [result]
    simp only [hearKeyId, none]
    exact ⟨Nat.zero_le _, fun _ => rfl⟩
  · rw [result]
    simp only [hearKeyId, List.length_append, List.map_append]
    exact ⟨Nat.le_refl _, fun _ => rfl⟩
  · rw [result]
    refine ⟨Nat.le_succ _, fun below => ?_⟩
    rw [full] at below
    exact absurd below (by decide)

structure FrameTaken (mb : Mbedtls) (mac : EspBdAddr) (keyId : UInt16) (key : Key128b)
    (frames : List BeaconPduDataWithMacAddr) (processed : List ReconstructorQueueElement)
    (there : Bool) (receiver : ReceiverState) (frame : BeaconPduDataWithMacAddr)
    (next : ReceiverState) : Prop where
  held : SessionHeld mb mac keyId key (frames ++ [frame]) processed there next
  processingQueue : next.sec.processingQueue = receiver.sec.processingQueue
  deferred : (queueOf next.sec.consumerCollection mac).length ≤
    (queueOf receiver.sec.consumerCollection mac).length + (dataFrames [frame]).length
  fragments : next.reconstructor.xQueueKeyReconstruction.length ≤
    receiver.reconstructor.xQueueKeyReconstruction.length + (fragmentFrames [frame]).length
  within : receiver.reconstructor.xQueueKeyReconstruction.length ≤ maxElementsInQueue →
    next.reconstructor.xQueueKeyReconstruction.length ≤ maxElementsInQueue
  kept : FrameRoom mac receiver [frame] →
    NothingLost mb mac frames processed there receiver →
      NothingLost mb mac (frames ++ [frame]) processed there next

theorem numberedBy_found {frame : BeaconPduDataWithMacAddr} {index : Fin 2}
    {collection : BleConsumerCollection} {tickCount : UInt32}
    (looked : consumerForFrame receiver.sec.consumerCollection frame.macAddress tickCount =
      (some index, collection)) :
    numberedBy receiver.sec tickCount frame = dataFrames [frame] := by
  by_cases data : frame.command = dataCmd
  · simp [numberedBy, looked, dataFrames, data, show getCommandFromPdu _ _ = _ from data]
  · simp [numberedBy, looked, dataFrames, data, show ¬ getCommandFromPdu _ _ = _ from data]

theorem KeyPhase.quiet {consumer : BleConsumer} {log later : List ProcessingEvent}
    {km : KeyReconstructionCollection 20}
    (phase : KeyPhase mb mac keyId key processed km consumer log there)
    (same : handovers later = handovers log) :
    KeyPhase mb mac keyId key processed km consumer later there :=
  phase.next (fun awaits => ⟨awaits.blank, awaits.idle, same.trans awaits.noneHanded⟩)
    fun has => ⟨has.holds, has.awake, by rw [same]; exact has.underKey⟩

section Record
variable {index : Fin 2} {collection : BleConsumerCollection}

theorem RecordFor.data
    (record : RecordFor mb mac keyId key processed there receiver index collection)
    (nonzero : mac ≠ 0) (used : keyId.toUInt8 ≠ 0) (tickCount : UInt32) {pdu : BeaconPduData}
    (session : getKeyIdFromKeySessionData pdu.keySessionData = keyId) (number : Nat) :
    let data := handleDataPdu mb tickCount (collection.arr index) mac pdu number
    let next := setConsumer collection index data.1
    RecordsSound next ∧ OwnRecord mac next index ∧
      KeyPhase mb mac keyId key processed receiver.reconstructor.keyCollection (next.arr index)
        (receiver.sec.log ++ data.2) there ∧
      queueOf next mac = data.1.deferredQueue := by
  intro data next
  have counted := record.records.counted index
  obtain ⟨countedNext, sameMac, _⟩ := handleDataPdu_ledger mb tickCount counted mac pdu number
  have records : RecordsSound next := record.records.replace index countedNext sameMac
  have own : OwnRecord mac next index := record.own.replace rfl sameMac
  have there : next.arr index = data.1 := Function.update_self ..
  refine ⟨records, own, ?_, (own.queue records nonzero).trans (by rw [there])⟩
  rw [there]
  exact record.phase.next
    (fun awaits => awaits.handleDataPdu mb counted used tickCount session number)
    fun has => has.handleDataPdu mb counted used tickCount session number

theorem RecordFor.fragment
    (record : RecordFor mb mac keyId key processed there receiver index collection)
    (nonzero : mac ≠ 0) (used : keyId.toUInt8 ≠ 0) (tickCount : UInt32) :
    let heard := hearKeyId tickCount (collection.arr index) keyId
    let next := setConsumer collection index heard.2
    RecordsSound next ∧ OwnRecord mac next index ∧
      KeyPhase mb mac keyId key processed receiver.reconstructor.keyCollection (next.arr index)
        (receiver.sec.log ++ [.tookKeyFragment mac keyId]) there ∧
      queueOf next mac = queueOf receiver.sec.consumerCollection mac ∧
      heard.1.isSome = there := by
  intro heard next
  have records : RecordsSound next :=
    record.records.replace index ((record.records.counted index).hearKeyId tickCount keyId) rfl
  have own : OwnRecord mac next index := record.own.replace rfl rfl
  have isHeard : next.arr index = heard.2 := Function.update_self ..
  refine ⟨records, own, ?_, ?_, ?_⟩
  · rw [isHeard]
    refine (record.phase.next (fun awaits => (awaits.hearKeyId used tickCount).2)
      fun has => (has.hearKeyId used tickCount).2).quiet ?_
    rw [handovers_append]
    exact List.append_nil _
  · rw [own.queue records nonzero, isHeard]
    exact record.queue
  · have phase := record.phase
    cases there with
    | false => simp [heard, (phase.1.hearKeyId used tickCount).1]
    | true => simp [heard, (phase.1.hearKeyId used tickCount).1]

end Record

theorem arrivalsHanded_tookKeyFragment (log : List ProcessingEvent) (sender : EspBdAddr)
    (id : UInt16) :
    arrivalsHanded (log ++ [.tookKeyFragment sender id]) = arrivalsHanded log := by
  rw [arrivalsHanded_append]
  exact List.append_nil _

theorem fragment_atHand {control : KeyReconstructorControl 20}
    (fed : FedWith mb mac keyId key processed control.keyCollection [])
    {element : ReconstructorQueueElement} (ofSession : OfSession mb mac keyId key element)
    (room : control.xQueueKeyReconstruction.length < maxElementsInQueue)
    (genuine : element.tagMatches mb = true) :
    element.keyFragmentNo ∈ (genuineFragments mb (processed ++
      (queueKeyForReconstruction control element).2.xQueueKeyReconstruction)).map Prod.fst := by
  obtain ⟨feeding, _⟩ := fed.collected
  have session : element.keyByte = keyId.toUInt8 := by
    rw [ReconstructorQueueElement.keyByte, ofSession.session]
  obtain ⟨_, available | decrypted | full⟩ | ⟨_, queued⟩ :=
    queueKeyForReconstruction_cases control element
  · rw [ofSession.sender, session, feeding.unavailable] at available
    contradiction
  · rw [ofSession.sender, session] at decrypted
    have collected := feeding.decrypted decrypted
    rw [Collector.offers_isSome] at collected
    rcases collected with none | processed
    · simp [Collector.empty] at none
    · rw [genuineFragments, List.filter_append, List.map_append, List.map_append]
      exact List.mem_append_left _ processed
  · exact absurd room full
  · rw [queued, ← List.append_assoc, genuineFragments_concat, if_pos genuine, List.map_append]
    exact List.mem_append_right _ List.mem_cons_self

theorem SessionHeld.handleNewFrame
    (held : SessionHeld mb mac keyId key frames processed there receiver) (nonzero : mac ≠ 0)
    (used : keyId.toUInt8 ≠ 0) (tickCount : UInt32) (stack : BeaconPduData)
    {frame : BeaconPduDataWithMacAddr} (isFrame : SessionFrame mb mac keyId key frame) :
    FrameTaken mb mac keyId key frames processed there receiver frame
      (Receiver.handleNewFrame mb tickCount stack receiver frame) := by
  obtain ⟨index, collection, looked, record⟩ := held.lookup nonzero tickCount
  obtain ⟨sender, header, fragment⟩ := isFrame.sentBy
  rw [← sender] at looked
  have custody := held.custody.handleNewFrame tickCount stack held.records frame
  rw [numberedBy_found looked, ← dataFrames_concat] at custody
  have taken : ∀ other ∈ frames ++ [frame], SessionFrame mb mac keyId key other := by
    intro other member
    rcases List.mem_append.mp member with old | new
    · exact held.taken other old
    · rw [List.mem_singleton.mp new]
      exact isFrame
  obtain ⟨isData, result⟩ | ⟨isFragment, result⟩ | ⟨notData, notFragment, result⟩ :=
    handleNewFrame_cases mb tickCount stack looked
  · have session := (keyId_getBeaconPduFromAdvData stack (header isData)).trans isFrame.session
    obtain ⟨records, own, phase, queue⟩ :=
      record.data nonzero used tickCount session receiver.sec.dataFramesTaken
    obtain ⟨longer, ordered⟩ := handleDataPdu_order mb tickCount (record.records.counted index)
      mac (getBeaconPduFromAdvData stack frame.data frame.size) receiver.sec.dataFramesTaken
    have notFragment : frame.command ≠ keyFragmentCmd := by
      rw [isData]
      decide
    have oneData : dataFrames [frame] = [frame] := by simp [dataFrames, isData]
    have noFragment : fragmentFrames [frame] = [] := by simp [fragmentFrames, notFragment]
    rw [sender] at result
    rw [result] at custody ⊢
    rw [record.queue] at longer ordered
    refine ⟨⟨records, held.waiting, taken, held.queued, custody,
      Or.inr ⟨index, own, phase⟩⟩, rfl, ?_, Nat.le_add_right _ _, id, fun room lost => ⟨?_, ?_⟩⟩
    · rw [oneData]
      simp only [queue]
      exact longer
    · have below := room.1
      rw [oneData] at below
      simp only [queue, arrivalsHanded_append, List.append_assoc, ordered below]
      rw [← List.append_assoc, lost.order, List.range_succ]
    · rw [fragmentFrames_concat, noFragment, List.append_nil]
      exact lost.atHand
  · obtain ⟨records, own, phase, queue, isThere⟩ := record.fragment nonzero used tickCount
    have notData : frame.command ≠ dataCmd := by
      rw [isFragment]
      decide
    have noData : dataFrames [frame] = [] := by simp [dataFrames, notData]
    have oneFragment : fragmentFrames [frame] = [frame] := by simp [fragmentFrames, isFragment]
    have ofSession : OfSession mb mac keyId key frame.element := by
      have brought := fragment isFragment
      rw [isFrame.session] at brought
      rw [BeaconPduDataWithMacAddr.element, sender]
      exact brought
    rw [isFrame.session, sender, isThere] at result
    rw [result] at custody ⊢
    cases there with
    | true =>
        refine ⟨⟨records, held.waiting, taken, held.queued, custody, Or.inr ⟨index, own, phase⟩⟩,
          rfl, ?_, Nat.le_add_right _ _, id, fun _ lost => ⟨?_, ?_⟩⟩
        · simp only [queue]
          exact Nat.le_add_right _ _
        · rw [arrivalsHanded_tookKeyFragment, queue]
          exact lost.order
        · exact fun absurd => Bool.noConfusion absurd
    | false =>
        have fed := record.phase.2
        simp only [Bool.false_eq_true, if_false] at custody ⊢
        obtain ⟨entries, queueing⟩ :=
          queueKeyForReconstruction_queue receiver.reconstructor frame.element
        refine ⟨⟨records, held.waiting, taken, ?_, custody, Or.inr ⟨index, own, ?_⟩⟩, rfl, ?_, ?_,
          ?_, fun room lost => ⟨?_, ?_⟩⟩
        · intro element member
          rcases queueing with same | ⟨_, added⟩
          · rw [same] at member
            exact held.queued element member
          · rw [added] at member
            rcases List.mem_append.mp member with old | new
            · exact held.queued element old
            · rw [List.mem_singleton.mp new]
              exact ofSession
        · rw [entries]
          exact phase
        · simp only [queue]
          exact Nat.le_add_right _ _
        · rw [oneFragment]
          rcases queueing with same | ⟨_, added⟩
          · rw [same]
            exact Nat.le_add_right _ _
          · rw [added, List.length_append]
            exact Nat.le_refl _
        · intro before
          rcases queueing with same | ⟨below, added⟩
          · rw [same]
            exact before
          · rw [added, List.length_append]
            exact below
        · rw [arrivalsHanded_tookKeyFragment, queue]
          exact lost.order
        · intro _ other member genuine
          rw [fragmentFrames_concat, oneFragment] at member
          rcases List.mem_append.mp member with old | new
          · have before := lost.atHand rfl other old genuine
            rcases queueing with same | ⟨_, added⟩
            · rw [same]
              exact before
            · rw [added, ← List.append_assoc, genuineFragments_concat, List.map_append]
              exact List.mem_append_left _ before
          · rw [List.mem_singleton.mp new] at genuine ⊢
            have below := room.2
            rw [oneFragment] at below
            exact fragment_atHand fed ofSession below genuine
  · have queue := record.own.queue record.records nonzero
    rw [record.queue] at queue
    have noData : dataFrames [frame] = [] := by simp [dataFrames, notData]
    have noFragment : fragmentFrames [frame] = [] := by simp [fragmentFrames, notFragment]
    rw [result] at custody ⊢
    refine ⟨⟨record.records, held.waiting, taken, held.queued, custody,
      Or.inr ⟨index, record.own, record.phase⟩⟩, rfl, ?_, Nat.le_add_right _ _, id,
      fun _ lost => ⟨?_, ?_⟩⟩
    · simp only [queue]
      exact Nat.le_add_right _ _
    · simp only [queue]
      exact lost.order
    · rw [fragmentFrames_concat, noFragment, List.append_nil]
      exact lost.atHand

/-! ## A batch of frames -/

theorem dataFrames_cons (frame : BeaconPduDataWithMacAddr)
    (rest : List BeaconPduDataWithMacAddr) :
    dataFrames (frame :: rest) = dataFrames [frame] ++ dataFrames rest :=
  List.filter_append [frame] rest

theorem fragmentFrames_cons (frame : BeaconPduDataWithMacAddr)
    (rest : List BeaconPduDataWithMacAddr) :
    fragmentFrames (frame :: rest) = fragmentFrames [frame] ++ fragmentFrames rest :=
  List.filter_append [frame] rest

structure BatchTaken (mb : Mbedtls) (mac : EspBdAddr) (keyId : UInt16) (key : Key128b)
    (frames : List BeaconPduDataWithMacAddr) (processed : List ReconstructorQueueElement)
    (there : Bool) (receiver : ReceiverState) (batch : List BeaconPduDataWithMacAddr)
    (next : ReceiverState) : Prop where
  held : SessionHeld mb mac keyId key (frames ++ batch) processed there next
  processingQueue : next.sec.processingQueue = receiver.sec.processingQueue
  within : receiver.reconstructor.xQueueKeyReconstruction.length ≤ maxElementsInQueue →
    next.reconstructor.xQueueKeyReconstruction.length ≤ maxElementsInQueue
  kept : FrameRoom mac receiver batch → NothingLost mb mac frames processed there receiver →
    NothingLost mb mac (frames ++ batch) processed there next

theorem SessionHeld.handleNewFrames (nonzero : mac ≠ 0) (used : keyId.toUInt8 ≠ 0)
    (tickCount : Nat → UInt32) (stack : Nat → BeaconPduData)
    (batch : List BeaconPduDataWithMacAddr) :
    ∀ (i : Nat) {frames : List BeaconPduDataWithMacAddr} {receiver : ReceiverState},
      SessionHeld mb mac keyId key frames processed there receiver →
      (∀ frame ∈ batch, SessionFrame mb mac keyId key frame) →
      BatchTaken mb mac keyId key frames processed there receiver batch
        (Receiver.handleNewFrames mb tickCount stack i receiver batch) := by
  induction batch with
  | nil =>
      intro i frames receiver held _
      refine ⟨?_, rfl, id, fun _ lost => ?_⟩
      · rw [List.append_nil]
        exact held
      · rw [List.append_nil]
        exact lost
  | cons frame rest ih =>
      intro i frames receiver held isFrame
      have one := held.handleNewFrame nonzero used (tickCount i) (stack i)
        (isFrame frame List.mem_cons_self)
      have later := ih (i + 1) one.held
        fun other member => isFrame other (List.mem_cons_of_mem _ member)
      have whole : frames ++ frame :: rest = frames ++ [frame] ++ rest := by simp
      refine ⟨by rw [whole]; exact later.held, later.processingQueue.trans one.processingQueue,
        fun before => later.within (one.within before), fun room lost => ?_⟩
      obtain ⟨data, fragments⟩ := room
      rw [dataFrames_cons, List.length_append] at data
      rw [fragmentFrames_cons, List.length_append] at fragments
      have longer := one.deferred
      have moreFragments := one.fragments
      rw [whole]
      exact later.kept ⟨by omega, by omega⟩ (one.kept ⟨by omega, by omega⟩ lost)

end Step

end BleBroadcast.Receiver
