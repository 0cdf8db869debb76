import BleBroadcast.Receiver.CacheRefinement
import BleBroadcast.Receiver.DataDelivery
import BleBroadcast.Receiver.FragmentFeeding

/-!
# Under which key a frame is decrypted

One sender is heard.  Its cache runs next to the map of the sessions whose keys are
stored, and its collection next to the elements whose fragments were stored.  In a
run whose lookups are told apart by their low bytes and whose fragments are not
mixed, every DATA frame is decrypted under the key of the session it names.
-/

set_option autoImplicit false

namespace BleBroadcast.Receiver

open BleBroadcast.Core BleBroadcast.Lib

/-! ## The frames of a sender -/

/-- The session id in a frame, which frames of both commands have at the same place. -/
def BeaconPduDataWithMacAddr.keyId (frame : BeaconPduDataWithMacAddr) : UInt16 :=
  getKeyIdFromKeySessionData (BeaconKeyPduData.overlay frame.data).bcd.keySessionData

def BeaconPduDataWithMacAddr.command (frame : BeaconPduDataWithMacAddr) : UInt8 :=
  getCommandFromPdu frame.data frame.size

/-- A frame of the sender: as a DATA frame it has its header, as a key fragment frame it
brings a fragment of the key of its session. -/
structure SentBy (mb : Mbedtls) (mac : EspBdAddr) (keyOf : UInt16 → Key128b)
    (frame : BeaconPduDataWithMacAddr) : Prop where
  sender : frame.macAddress = mac
  data : frame.command = dataCmd → 9 ≤ frame.size
  fragment : frame.command = keyFragmentCmd → OfSession mb mac frame.keyId (keyOf frame.keyId)
    (fragmentElement (BeaconKeyPduData.overlay frame.data) mac)

def ReadFrom (sent : BeaconPduDataWithMacAddr → Prop) (pdu : BeaconPduData) : Prop :=
  ∃ frame stack, sent frame ∧ frame.command = dataCmd ∧
    pdu = getBeaconPduFromAdvData stack frame.data frame.size

theorem keyId_getBeaconPduFromAdvData (stack : BeaconPduData) {frame : BeaconPduDataWithMacAddr}
    (header : 9 ≤ frame.size) :
    getKeyIdFromKeySessionData
      (getBeaconPduFromAdvData stack frame.data frame.size).keySessionData = frame.keyId := by
  simp only [getBeaconPduFromAdvData, BeaconPduData.overlay, BeaconPduDataWithMacAddr.keyId,
    BeaconKeyPduData.overlay, keySessionOffset, if_pos (show 6 < frame.size by omega),
    if_pos (show 6 + 1 < frame.size by omega)]

/-- A PDU that is handed over was read from a DATA frame, and is decrypted under the key
of the session it names. -/
def HandedUnder (mb : Mbedtls) (sent : BeaconPduDataWithMacAddr → Prop)
    (keyOf : UInt16 → Key128b) : ProcessingEvent → Prop
  | .handed mac _ key pdu notified =>
      ReadFrom sent pdu ∧ key = keyOf (getKeyIdFromKeySessionData pdu.keySessionData) ∧
        notified = decryptAndNotify mb key pdu mac
  | _ => True

/-! ## The cache of the sender -/

/-- The cache in the record of the sender, or a fresh one while there is no record. -/
def cacheOf (collection : BleConsumerCollection) (mac : EspBdAddr) : KeyReconstructionCache 5 :=
  match getIndexForMacAddr collection mac with
  | some index => (collection.arr index).keyCache
  | none => initKeyCache (createKeyCache fun _ => ⟨fun _ => 0, 0, ⟨0, 0⟩⟩)

theorem cacheOf_eq {collection : BleConsumerCollection} (distinct : DistinctSenders collection)
    {mac : EspBdAddr} {index : Fin 2} (there : (collection.arr index).macAddressArr = mac)
    (nonzero : mac ≠ 0) : cacheOf collection mac = (collection.arr index).keyCache := by
  simp only [cacheOf, getIndexForMacAddr_eq distinct there nonzero]

structure Blank (cache : KeyReconstructionCache 5) : Prop where
  free : ∀ i, (cache.map i).keyId = 0
  unused : cache.lastKeyIdUsed = none

theorem blank_init (garbage : Fin 5 → KeyReconstructionMap) :
    Blank (initKeyCache (createKeyCache garbage)) := ⟨fun _ => rfl, rfl⟩

theorem Blank.clearCache {cache : KeyReconstructionCache 5} (blank : Blank cache) :
    Blank (clearCache cache) := by
  have fold : ∀ (slots : List (Fin 5)) (cache : KeyReconstructionCache 5), Blank cache →
      Blank (slots.foldl removeKeyFromCacheAtIndex cache) := by
    intro slots
    induction slots with
    | nil => exact fun _ blank => blank
    | cons index rest ih =>
        intro cache blank
        refine ih _ ⟨fun i => ?_, ?_⟩
        · by_cases here : i = index
          · simp [removeKeyFromCacheAtIndex, here, clearedSlot]
          · simp [removeKeyFromCacheAtIndex, here, blank.free i]
        · simp [removeKeyFromCacheAtIndex, clearSlot, blank.unused, setSlot]
  exact fold _ cache blank

theorem Blank.refines {cache : KeyReconstructionCache 5} (blank : Blank cache) :
    Refines ⟨cache, fun _ => none⟩ where
  shortcut := ⟨fun keyId _ last => by simp [blank.unused] at last, by simp [blank.unused]⟩
  distinct := fun i _ _ used => absurd (blank.free i) used
  slots := fun i used => absurd (blank.free i) used
  sessions := fun _ _ held => by simp at held
  separate := fun _ _ _ _ held => by simp at held

theorem Refines.of_blank {cache : KeyReconstructionCache 5} {keys : UInt16 → Option Key128b}
    (refines : Refines ⟨cache, keys⟩) (free : ∀ i, (cache.map i).keyId = 0) :
    keys = fun _ => none := by
  funext keyId
  by_contra held
  obtain ⟨key, stored⟩ := Option.ne_none_iff_exists'.mp held
  obtain ⟨used, i, slot, _⟩ := refines.sessions keyId key stored
  exact used (slot.symm.trans (free i))

/-- No slot is free, or the low byte of the id is not the mark of a free one. -/
def NotFreeMark (cache : KeyReconstructionCache 5) (keyId : UInt16) : Prop :=
  keyId.toUInt8 ≠ 0 ∨ ∀ i, (cache.map i).keyId ≠ 0

def SameIds (first second : KeyReconstructionCache 5) : Prop :=
  ∀ i, (second.map i).keyId = (first.map i).keyId

theorem SameIds.notFreeMark {first second : KeyReconstructionCache 5}
    (same : SameIds first second) {keyId : UInt16} (notFree : NotFreeMark first keyId) :
    NotFreeMark second keyId :=
  notFree.imp_right fun noneFree i => by
    rw [same i]
    exact noneFree i

theorem SameIds.trans {first second third : KeyReconstructionCache 5}
    (same : SameIds first second) (next : SameIds second third) : SameIds first third :=
  fun i => (next i).trans (same i)

/-- A lookup for this id is distinguished by its low byte. -/
def ToldApart (cache : KeyReconstructionCache 5) (keys : UInt16 → Option Key128b)
    (keyId : UInt16) : Prop :=
  LookupDistinguished ⟨cache, keys⟩ (.lookup keyId 0)

theorem ToldApart.lookup {cache : KeyReconstructionCache 5} {keys : UInt16 → Option Key128b}
    {keyId : UInt16} (told : ToldApart cache keys keyId) (refines : Refines ⟨cache, keys⟩)
    (tickCount : UInt32) :
    (getKeyFromCache cache keyId.toUInt8 tickCount).1 = keys keyId :=
  (refines.lookupSound_iff (.lookup keyId tickCount)).mpr told

theorem SameIds.toldApart {first second : KeyReconstructionCache 5}
    (same : SameIds first second) {keys : UInt16 → Option Key128b} {keyId : UInt16}
    (told : ToldApart first keys keyId) : ToldApart second keys keyId :=
  ⟨same.notFreeMark told.1, told.2⟩

theorem sameIds_lookup (cache : KeyReconstructionCache 5) (keyId : UInt8) (tickCount : UInt32) :
    SameIds cache (getKeyFromCache cache keyId tickCount).2 :=
  fun i => (getKeyFromCache_keeps cache keyId tickCount i).1

/-! ## What holds while the session keys are used -/

structure Unclaimed (record : BleConsumer) : Prop where
  address : record.macAddressArr = 0
  blank : Blank record.keyCache
  idle : record.processDeferredQRequestPending = false

structure SecKeyed (mb : Mbedtls) (mac : EspBdAddr) (keyOf : UInt16 → Key128b)
    (sent : BeaconPduDataWithMacAddr → Prop) (keys : UInt16 → Option Key128b)
    (sec : SecPduProcessing) : Prop where
  records : RecordsSound sec.consumerCollection
  claimed : ∀ i, (sec.consumerCollection.arr i).macAddressArr = mac ∨
    Unclaimed (sec.consumerCollection.arr i)
  refines : Refines ⟨cacheOf sec.consumerCollection mac, keys⟩
  sessionKeys : ∀ keyId key, keys keyId = some key → key = keyOf keyId
  deferred : ∀ i, ∀ item ∈ (sec.consumerCollection.arr i).deferredQueue, ReadFrom sent item.pdu
  waiting : ∀ frame ∈ sec.processingQueue, sent frame
  handed : ∀ event ∈ sec.log, HandedUnder mb sent keyOf event

variable {mb : Mbedtls} {mac : EspBdAddr} {keyOf : UInt16 → Key128b}
  {sent : BeaconPduDataWithMacAddr → Prop} {keys : UInt16 → Option Key128b}
  {sec : SecPduProcessing}

theorem secKeyed_start (garbage : Fin 2 → Fin 5 → KeyReconstructionMap) (nonzero : mac ≠ 0) :
    SecKeyed mb mac keyOf sent (fun _ => none) (startUpSecProcessing garbage).sec where
  records := recordsSound_start garbage
  claimed := fun i => Or.inr ⟨rfl, blank_init (garbage i), rfl⟩
  refines := by
    have missing : getIndexForMacAddr (createBleConsumerCollection garbage) mac = none :=
      getIndexForMacAddr_none.mpr fun _ => Ne.symm nonzero
    simp only [startUpSecProcessing, cacheOf, missing]
    exact (blank_init _).refines
  sessionKeys := fun _ _ absurd => by simp at absurd
  deferred := fun _ _ member => by
    simp [startUpSecProcessing, createBleConsumerCollection, initBleConsumer] at member
  waiting := by simp [startUpSecProcessing]
  handed := by simp [startUpSecProcessing]

theorem SecKeyed.withRecord (keyed : SecKeyed mb mac keyOf sent keys sec) (nonzero : mac ≠ 0)
    (next : SecPduProcessing) (index : Fin 2) (record : BleConsumer)
    {keysNext : UInt16 → Option Key128b} (records : RecordsSound next.consumerCollection)
    (arr : next.consumerCollection.arr = Function.update sec.consumerCollection.arr index record)
    (own : record.macAddressArr = mac) (refines : Refines ⟨record.keyCache, keysNext⟩)
    (sessionKeys : ∀ keyId key, keysNext keyId = some key → key = keyOf keyId)
    (deferred : ∀ item ∈ record.deferredQueue, ReadFrom sent item.pdu)
    (waiting : ∀ frame ∈ next.processingQueue, sent frame)
    (handed : ∀ event ∈ next.log, HandedUnder mb sent keyOf event) :
    SecKeyed mb mac keyOf sent keysNext next ∧
      cacheOf next.consumerCollection mac = record.keyCache := by
  have there : next.consumerCollection.arr index = record := by
    rw [arr, Function.update_self]
  have cache : cacheOf next.consumerCollection mac = record.keyCache := by
    rw [cacheOf_eq records.distinct (by rw [there]; exact own) nonzero, there]
  refine ⟨⟨records, ?_, by rw [cache]; exact refines, sessionKeys, ?_, waiting, handed⟩, cache⟩
  · rw [arr]
    exact (Function.forall_update_iff _ fun _ (record : BleConsumer) =>
      record.macAddressArr = mac ∨ Unclaimed record).mpr
        ⟨Or.inl own, fun i _ => keyed.claimed i⟩
  · rw [arr]
    exact (Function.forall_update_iff _ fun _ (record : BleConsumer) =>
      ∀ item ∈ record.deferredQueue, ReadFrom sent item.pdu).mpr
        ⟨deferred, fun i _ => keyed.deferred i⟩

/-! ## A new frame -/

theorem SecKeyed.consumerForFrame (keyed : SecKeyed mb mac keyOf sent keys sec)
    (nonzero : mac ≠ 0) (tickCount : UInt32) :
    let result := consumerForFrame sec.consumerCollection mac tickCount
    SecKeyed mb mac keyOf sent keys { sec with consumerCollection := result.2 } ∧
      SameIds (cacheOf sec.consumerCollection mac) (cacheOf result.2 mac) ∧
      ∀ index, result.1 = some index → (result.2.arr index).macAddressArr = mac := by
  intro result
  obtain ⟨records, _, address⟩ := consumerForFrame_spec keyed.records mac tickCount
  obtain ⟨index, found, isResult⟩ | ⟨missing, index, zero, isResult⟩ | ⟨missing, isResult⟩ :=
    consumerForFrame_cases sec.consumerCollection mac tickCount
  · have own := getIndexForMacAddr_some found
    have cache : cacheOf sec.consumerCollection mac =
        (sec.consumerCollection.arr index).keyCache :=
      cacheOf_eq keyed.records.distinct own nonzero
    obtain ⟨next, nextCache⟩ := keyed.withRecord nonzero
      { sec with consumerCollection := result.2 } index
      (stampConsumer (sec.consumerCollection.arr index) tickCount) records
      (by simp only [result, isResult, setConsumer]) own (cache ▸ keyed.refines)
      keyed.sessionKeys (keyed.deferred index) keyed.waiting keyed.handed
    refine ⟨next, fun i => ?_, address⟩
    rw [nextCache, cache]
    rfl
  · have free : Blank (sec.consumerCollection.arr index).keyCache := by
      rcases keyed.claimed index with own | unclaimed
      · exact absurd (own.symm.trans zero) nonzero
      · exact unclaimed.blank
    have fresh : ∀ i, ((cacheOf sec.consumerCollection mac).map i).keyId = 0 := by
      intro i
      simp only [cacheOf, missing]
      rfl
    have none := keyed.refines.of_blank fresh
    subst none
    obtain ⟨next, nextCache⟩ := keyed.withRecord nonzero
      { sec with consumerCollection := result.2 } index
      (stampConsumer
        { resetBleConsumer (sec.consumerCollection.arr index) with macAddressArr := mac }
        tickCount) records
      (by simp only [result, isResult, setConsumer]) rfl free.clearCache.refines
      keyed.sessionKeys (by simp [stampConsumer, resetBleConsumer]) keyed.waiting keyed.handed
    refine ⟨next, fun i => ?_, address⟩
    rw [nextCache, fresh i]
    exact free.clearCache.free i
  · have unchanged : result.2 = sec.consumerCollection := by
      simp only [result, isResult]
    rw [unchanged]
    exact ⟨keyed, fun _ => rfl, by simp [result, isResult]⟩

/-- The lookup made for a frame: for the key of a DATA frame, or only for whether the key
of the session is known. -/
def FrameToldApart (cache : KeyReconstructionCache 5) (keys : UInt16 → Option Key128b)
    (frame : BeaconPduDataWithMacAddr) : Prop :=
  (frame.command = dataCmd → ToldApart cache keys frame.keyId) ∧
  (frame.command = keyFragmentCmd → NotFreeMark cache frame.keyId)

theorem SameIds.frameToldApart {first second : KeyReconstructionCache 5}
    (same : SameIds first second) {frame : BeaconPduDataWithMacAddr}
    (told : FrameToldApart first keys frame) : FrameToldApart second keys frame :=
  ⟨fun data => same.toldApart (told.1 data), fun fragment => same.notFreeMark (told.2 fragment)⟩

theorem SecKeyed.handleDataPdu (keyed : SecKeyed mb mac keyOf sent keys sec) (nonzero : mac ≠ 0)
    {index : Fin 2} (own : (sec.consumerCollection.arr index).macAddressArr = mac)
    {pdu : BeaconPduData} (isRead : ReadFrom sent pdu) (tickCount : UInt32) (number : Nat)
    (told : ToldApart (cacheOf sec.consumerCollection mac) keys
      (getKeyIdFromKeySessionData pdu.keySessionData)) :
    let result := handleDataPdu mb tickCount (sec.consumerCollection.arr index) mac pdu number
    let next := { sec with
      consumerCollection := setConsumer sec.consumerCollection index result.1
      dataFramesTaken := sec.dataFramesTaken + 1
      log := sec.log ++ result.2 }
    SecKeyed mb mac keyOf sent keys next ∧
      SameIds (cacheOf sec.consumerCollection mac) (cacheOf next.consumerCollection mac) := by
  intro result next
  have cache := cacheOf_eq keyed.records.distinct own nonzero
  have refines := keyed.refines
  rw [cache] at told refines
  have looked := told.lookup refines tickCount
  have counted := keyed.records.counted index
  obtain ⟨countedNext, sameMac, _⟩ := handleDataPdu_ledger mb tickCount counted mac pdu number
  have kept : result.1.keyCache = (getKeyFromCache (sec.consumerCollection.arr index).keyCache
      (getKeyIdFromKeySessionData pdu.keySessionData).toUInt8 tickCount).2 := by
    obtain ⟨_, _, _, isResult⟩ | ⟨_, _, isResult⟩ | ⟨_, isResult⟩ :=
      handleDataPdu_cases mb tickCount counted mac pdu number <;>
      simp only [result, isResult, hearKeyId]
  have deferred : ∀ item ∈ result.1.deferredQueue, ReadFrom sent item.pdu := by
    obtain ⟨_, _, _, isResult⟩ | ⟨_, _, isResult⟩ | ⟨_, isResult⟩ :=
      handleDataPdu_cases mb tickCount counted mac pdu number
    · simp only [result, isResult, hearKeyId]
      exact keyed.deferred index
    · simp only [result, isResult, hearKeyId]
      intro item member
      rcases List.mem_append.mp member with old | new
      · exact keyed.deferred index item old
      · rw [List.mem_singleton.mp new]
        exact isRead
    · simp only [result, isResult, hearKeyId]
      exact keyed.deferred index
  have logged : ∀ event ∈ result.2, HandedUnder mb sent keyOf event := by
    obtain ⟨key, found, _, isResult⟩ | ⟨_, _, isResult⟩ | ⟨_, isResult⟩ :=
      handleDataPdu_cases mb tickCount counted mac pdu number
    · have isKey := keyed.sessionKeys _ key (looked.symm.trans found)
      simp [result, isResult, HandedUnder, isRead, ← isKey]
    · simp [result, isResult, HandedUnder]
    · simp [result, isResult, HandedUnder]
  have records := keyed.records.replace index countedNext sameMac
  obtain ⟨keyedNext, nextCache⟩ := keyed.withRecord nonzero next index result.1
    records rfl (sameMac.trans own)
    (by rw [kept]; exact refines.lookup tickCount told.1) keyed.sessionKeys deferred
    keyed.waiting fun event member => (List.mem_append.mp member).elim (keyed.handed event)
      (logged event)
  refine ⟨keyedNext, ?_⟩
  rw [nextCache, kept, cache]
  exact sameIds_lookup _ _ _

theorem SecKeyed.hearKeyId (keyed : SecKeyed mb mac keyOf sent keys sec) (nonzero : mac ≠ 0)
    {index : Fin 2} (own : (sec.consumerCollection.arr index).macAddressArr = mac)
    (tickCount : UInt32) {keyId : UInt16}
    (notFree : NotFreeMark (cacheOf sec.consumerCollection mac) keyId) :
    let next := { sec with
      consumerCollection := setConsumer sec.consumerCollection index
        (hearKeyId tickCount (sec.consumerCollection.arr index) keyId).2
      log := sec.log ++ [.tookKeyFragment mac keyId] }
    SecKeyed mb mac keyOf sent keys next ∧
      SameIds (cacheOf sec.consumerCollection mac) (cacheOf next.consumerCollection mac) := by
  intro next
  have cache := cacheOf_eq keyed.records.distinct own nonzero
  have refines := keyed.refines
  rw [cache] at notFree refines
  have counted := (keyed.records.counted index).hearKeyId tickCount keyId
  have records := keyed.records.replace index counted rfl
  obtain ⟨keyedNext, nextCache⟩ := keyed.withRecord nonzero next index
    (Receiver.hearKeyId tickCount (sec.consumerCollection.arr index) keyId).2 records
    rfl own (refines.lookup tickCount notFree) keyed.sessionKeys (keyed.deferred index)
    keyed.waiting fun event member => (List.mem_append.mp member).elim (keyed.handed event)
      fun new => by rw [List.mem_singleton.mp new]; trivial
  refine ⟨keyedNext, ?_⟩
  rw [nextCache, cache]
  exact sameIds_lookup _ _ _

def SessionFragment (mb : Mbedtls) (mac : EspBdAddr) (keyOf : UInt16 → Key128b)
    (element : ReconstructorQueueElement) : Prop :=
  OfSession mb mac element.keyId (keyOf element.keyId) element

structure FragmentsKeyed (mb : Mbedtls) (mac : EspBdAddr) (keyOf : UInt16 → Key128b)
    (fragments : List ReconstructorQueueElement) (control : KeyReconstructorControl 20) :
    Prop where
  provenance : Provenance mb ⟨control.keyCollection, fragments, []⟩
  stored : ∀ element ∈ fragments, SessionFragment mb mac keyOf element
  queued : ∀ element ∈ control.xQueueKeyReconstruction, SessionFragment mb mac keyOf element

theorem FragmentsKeyed.queueKeyForReconstruction {fragments : List ReconstructorQueueElement}
    {control : KeyReconstructorControl 20}
    (keyed : FragmentsKeyed mb mac keyOf fragments control) {element : ReconstructorQueueElement}
    (ofSession : SessionFragment mb mac keyOf element) :
    FragmentsKeyed mb mac keyOf fragments (queueKeyForReconstruction control element).2 := by
  simp only [Receiver.queueKeyForReconstruction]
  split
  · exact keyed
  · split
    · exact keyed
    · split
      · refine ⟨keyed.provenance, keyed.stored, fun other member => ?_⟩
        rcases List.mem_append.mp member with old | new
        · exact keyed.queued other old
        · rw [List.mem_singleton.mp new]
          exact ofSession
      · exact keyed

theorem handleNewFrame_keyed (nonzero : mac ≠ 0)
    (sentBy : ∀ frame, sent frame → SentBy mb mac keyOf frame) (tickCount : UInt32)
    (stack : BeaconPduData) {receiver : ReceiverState}
    (keyed : SecKeyed mb mac keyOf sent keys receiver.sec)
    {fragments : List ReconstructorQueueElement}
    (fragmentsKeyed : FragmentsKeyed mb mac keyOf fragments receiver.reconstructor)
    {frame : BeaconPduDataWithMacAddr} (isSent : sent frame)
    (told : FrameToldApart (cacheOf receiver.sec.consumerCollection mac) keys frame) :
    let next := handleNewFrame mb tickCount stack receiver frame
    SecKeyed mb mac keyOf sent keys next.sec ∧
      FragmentsKeyed mb mac keyOf fragments next.reconstructor ∧
      SameIds (cacheOf receiver.sec.consumerCollection mac)
        (cacheOf next.sec.consumerCollection mac) := by
  intro next
  have isFrame := sentBy frame isSent
  obtain ⟨keyedNext, same, address⟩ := keyed.consumerForFrame nonzero tickCount
  simp only [next, handleNewFrame, isFrame.sender]
  generalize Receiver.consumerForFrame receiver.sec.consumerCollection mac tickCount = claimed
    at keyedNext same address ⊢
  obtain ⟨found, collection⟩ := claimed
  simp only at keyedNext same address ⊢
  cases found with
  | none => exact ⟨keyedNext, fragmentsKeyed, same⟩
  | some index =>
      have own := address index rfl
      have toldNext := same.frameToldApart told
      simp only
      split
      · rename_i data
        have keyId := keyId_getBeaconPduFromAdvData stack (isFrame.data data)
        obtain ⟨keyedData, sameData⟩ := keyedNext.handleDataPdu nonzero own
          ⟨frame, stack, isSent, data, rfl⟩ tickCount receiver.sec.dataFramesTaken
          (by rw [keyId]; exact toldNext.1 data)
        exact ⟨keyedData, fragmentsKeyed, same.trans sameData⟩
      · split
        · rename_i fragment
          obtain ⟨keyedHeard, sameHeard⟩ :=
            keyedNext.hearKeyId nonzero own tickCount (toldNext.2 fragment)
          refine ⟨keyedHeard, ?_, same.trans sameHeard⟩
          split
          · exact fragmentsKeyed.queueKeyForReconstruction (isFrame.fragment fragment)
          · exact fragmentsKeyed
        · exact ⟨keyedNext, fragmentsKeyed, same⟩

theorem handleNewFrames_keyed (nonzero : mac ≠ 0)
    (sentBy : ∀ frame, sent frame → SentBy mb mac keyOf frame) (tickCount : Nat → UInt32)
    (stack : Nat → BeaconPduData) {fragments : List ReconstructorQueueElement}
    (batch : List BeaconPduDataWithMacAddr) :
    ∀ (i : Nat) (receiver : ReceiverState), SecKeyed mb mac keyOf sent keys receiver.sec →
      FragmentsKeyed mb mac keyOf fragments receiver.reconstructor →
      (∀ frame ∈ batch, sent frame) →
      (∀ frame ∈ batch,
        FrameToldApart (cacheOf receiver.sec.consumerCollection mac) keys frame) →
      SecKeyed mb mac keyOf sent keys
          (handleNewFrames mb tickCount stack i receiver batch).sec ∧
        FragmentsKeyed mb mac keyOf fragments
          (handleNewFrames mb tickCount stack i receiver batch).reconstructor := by
  induction batch with
  | nil => exact fun _ _ keyed fragmentsKeyed _ _ => ⟨keyed, fragmentsKeyed⟩
  | cons frame rest ih =>
      intro i receiver keyed fragmentsKeyed isSent told
      obtain ⟨keyedNext, fragmentsNext, same⟩ := handleNewFrame_keyed nonzero sentBy (tickCount i)
        (stack i) keyed fragmentsKeyed (isSent frame List.mem_cons_self)
        (told frame List.mem_cons_self)
      exact ih (i + 1) _ keyedNext fragmentsNext
        (fun other member => isSent other (List.mem_cons_of_mem _ member))
        fun other member => same.frameToldApart (told other (List.mem_cons_of_mem _ member))

/-! ## A pass over the deferred frames -/

structure PassKeyed (mb : Mbedtls) (keyOf : UInt16 → Key128b)
    (sent : BeaconPduDataWithMacAddr → Prop) (keys : UInt16 → Option Key128b)
    (pass : DeferredPass) : Prop where
  refines : Refines ⟨pass.consumer.keyCache, keys⟩
  key : pass.key = keys pass.lastKeyId
  deferred : ∀ item ∈ pass.consumer.deferredQueue, ReadFrom sent item.pdu
  handed : ∀ event ∈ pass.log, HandedUnder mb sent keyOf event

theorem PassKeyed.lookupForItem {pass : DeferredPass} (keyed : PassKeyed mb keyOf sent keys pass)
    (tickCount : UInt32) {item : DeferredPdu}
    (told : ToldApart pass.consumer.keyCache keys item.keyId) :
    PassKeyed mb keyOf sent keys (lookupForItem tickCount pass item) ∧
      (lookupForItem tickCount pass item).lastKeyId = item.keyId ∧
      SameIds pass.consumer.keyCache (lookupForItem tickCount pass item).consumer.keyCache := by
  by_cases same : pass.lastKeyId = item.keyId
  · have unchanged : Receiver.lookupForItem tickCount pass item = pass := if_neg (not_not.mpr same)
    rw [unchanged]
    exact ⟨keyed, same, fun _ => rfl⟩
  · simp only [Receiver.lookupForItem, if_pos same]
    exact ⟨⟨keyed.refines.lookup tickCount told.1, told.lookup keyed.refines tickCount,
      keyed.deferred, keyed.handed⟩, trivial, sameIds_lookup _ _ _⟩

theorem PassKeyed.settleItem {pass : DeferredPass} (keyed : PassKeyed mb keyOf sent keys pass)
    (sessionKeys : ∀ keyId key, keys keyId = some key → key = keyOf keyId)
    {item : DeferredPdu} (isRead : ReadFrom sent item.pdu)
    (current : pass.lastKeyId = item.keyId) :
    PassKeyed mb keyOf sent keys (settleItem mb pass item) ∧
      (settleItem mb pass item).consumer.keyCache = pass.consumer.keyCache := by
  unfold Receiver.settleItem
  cases found : pass.key with
  | some key =>
      have isKey := sessionKeys item.keyId key
        ((current ▸ keyed.key : pass.key = keys item.keyId).symm.trans found)
      refine ⟨⟨keyed.refines, found.symm.trans keyed.key, keyed.deferred, ?_⟩, rfl⟩
      intro event member
      rcases List.mem_append.mp member with old | new
      · exact keyed.handed event old
      · rw [List.mem_singleton.mp new]
        exact ⟨isRead, isKey, rfl⟩
  | none =>
      simp only
      split
      · have added : ∀ other ∈ (addToDeferredQueue pass.consumer item).2.deferredQueue,
            ReadFrom sent other.pdu := by
          intro other member
          unfold addToDeferredQueue at member
          split at member
          · rcases List.mem_append.mp member with old | new
            · exact keyed.deferred other old
            · rw [List.mem_singleton.mp new]
              exact isRead
          · exact keyed.deferred other member
        have cache : (addToDeferredQueue pass.consumer item).2.keyCache =
            pass.consumer.keyCache := by
          unfold addToDeferredQueue
          split <;> rfl
        refine ⟨⟨by rw [cache]; exact keyed.refines, found.symm.trans keyed.key, added, ?_⟩, cache⟩
        intro event member
        split at member
        · exact keyed.handed event member
        · rcases List.mem_append.mp member with old | new
          · exact keyed.handed event old
          · rw [List.mem_singleton.mp new]
            trivial
      · refine ⟨⟨keyed.refines, found.symm.trans keyed.key, keyed.deferred, ?_⟩, rfl⟩
        intro event member
        rcases List.mem_append.mp member with old | new
        · exact keyed.handed event old
        · rw [List.mem_singleton.mp new]
          trivial

theorem PassKeyed.settleItems (tickCount : Nat → UInt32)
    (sessionKeys : ∀ keyId key, keys keyId = some key → key = keyOf keyId)
    (items : List DeferredPdu) :
    ∀ (i : Nat) (pass : DeferredPass), PassKeyed mb keyOf sent keys pass →
      (∀ item ∈ items, ReadFrom sent item.pdu) →
      (∀ item ∈ items, ToldApart pass.consumer.keyCache keys item.keyId) →
      PassKeyed mb keyOf sent keys (settleItems mb tickCount i pass items) := by
  induction items with
  | nil => exact fun _ _ keyed _ _ => keyed
  | cons item rest ih =>
      intro i pass keyed isRead told
      obtain ⟨looked, current, same⟩ :=
        keyed.lookupForItem (tickCount i) (told item List.mem_cons_self)
      obtain ⟨settled, cache⟩ :=
        looked.settleItem sessionKeys (isRead item List.mem_cons_self) current
      refine ih (i + 1) _ settled
        (fun other member => isRead other (List.mem_cons_of_mem _ member)) fun other member => ?_
      rw [cache]
      exact same.toldApart (told other (List.mem_cons_of_mem _ member))

theorem processDeferredQueue_keyed (mb : Mbedtls) (tickCount : Nat → UInt32)
    {consumer : BleConsumer}
    (counted : Counted consumer) {log : List ProcessingEvent}
    (refines : Refines ⟨consumer.keyCache, keys⟩)
    (sessionKeys : ∀ keyId key, keys keyId = some key → key = keyOf keyId)
    (deferred : ∀ item ∈ consumer.deferredQueue, ReadFrom sent item.pdu)
    (handed : ∀ event ∈ log, HandedUnder mb sent keyOf event)
    (told : ∀ item ∈ consumer.deferredQueue.take 20,
      ToldApart consumer.keyCache keys item.keyId) :
    let result := processDeferredQueue mb tickCount consumer log
    Refines ⟨result.1.keyCache, keys⟩ ∧
      (∀ item ∈ result.1.deferredQueue, ReadFrom sent item.pdu) ∧
      ∀ event ∈ result.2, HandedUnder mb sent keyOf event := by
  obtain ⟨taken, _, remaining⟩ := takeDeferredBatch_spec 20 counted
  simp only [processDeferredQueue, maxProcessedPdusAtOnce, taken]
  generalize (takeDeferredBatch 20 consumer).2 = rest at remaining ⊢
  have cache : rest.keyCache = consumer.keyCache := by rw [remaining]
  have behind : ∀ item ∈ rest.deferredQueue, ReadFrom sent item.pdu := by
    rw [remaining]
    exact fun item member => deferred item (List.mem_of_mem_drop member)
  cases front : consumer.deferredQueue.take 20 with
  | nil => exact ⟨by rw [cache]; exact refines, behind, handed⟩
  | cons first others =>
      rw [front] at told
      have toldFirst := told first List.mem_cons_self
      have initial : PassKeyed mb keyOf sent keys
          ⟨{ rest with
              keyCache := (getKeyFromCache rest.keyCache first.keyId.toUInt8 (tickCount 0)).2 },
            (getKeyFromCache rest.keyCache first.keyId.toUInt8 (tickCount 0)).1, first.keyId,
            log⟩ := by
        rw [cache]
        exact ⟨refines.lookup (tickCount 0) toldFirst.1, toldFirst.lookup refines (tickCount 0),
          behind, handed⟩
      have isRead : ∀ item ∈ first :: others, ReadFrom sent item.pdu := by
        intro item member
        rw [← front] at member
        exact deferred item (List.mem_of_mem_take member)
      have settled := PassKeyed.settleItems tickCount sessionKeys (first :: others) 1 _ initial
        isRead fun item member => by
          simp only [cache]
          exact (sameIds_lookup _ _ _).toldApart (told item member)
      exact ⟨settled.refines, settled.deferred, settled.handed⟩

/-- The lookups of the pass of a record, if there is one. -/
def PassToldApart (keys : UInt16 → Option Key128b) (consumer : BleConsumer) : Prop :=
  consumer.processDeferredQRequestPending = true →
    ∀ item ∈ consumer.deferredQueue.take maxProcessedPdusAtOnce,
      ToldApart consumer.keyCache keys item.keyId

theorem processPendingConsumer_keyed (nonzero : mac ≠ 0) (tickCount : Nat → UInt32)
    (keyed : SecKeyed mb mac keyOf sent keys sec) (index : Fin 2)
    (told : PassToldApart keys (sec.consumerCollection.arr index)) :
    SecKeyed mb mac keyOf sent keys (processPendingConsumer mb tickCount sec index) := by
  have move : DataMove anyPass sec (processPendingConsumer mb tickCount sec index) :=
    processPendingConsumer_move mb tickCount keyed.records index fun _ => trivial
  have records := move.records
  by_cases pending : (sec.consumerCollection.arr index).processDeferredQRequestPending = true
  · have own : (sec.consumerCollection.arr index).macAddressArr = mac := by
      rcases keyed.claimed index with own | unclaimed
      · exact own
      · simp [unclaimed.idle] at pending
    have refines := keyed.refines
    rw [cacheOf_eq keyed.records.distinct own nonzero] at refines
    obtain ⟨refinesNext, deferred, handed⟩ := processDeferredQueue_keyed mb tickCount
      (keyed.records.counted index) refines keyed.sessionKeys (keyed.deferred index)
      keyed.handed (told pending)
    obtain ⟨_, _, sameMac, _⟩ :=
      processDeferredQueue_spec mb tickCount (keyed.records.counted index) sec.log
    simp only [processPendingConsumer, if_pos pending] at records ⊢
    generalize processDeferredQueue mb tickCount (sec.consumerCollection.arr index) sec.log =
      result at records refinesNext deferred handed sameMac ⊢
    obtain ⟨processed, log⟩ := result
    obtain ⟨settled, isSettled⟩ : ∃ settled, settled =
      (if isPduInDeferredQueue processed then processed
        else { processed with processDeferredQRequestPending := false }) := ⟨_, rfl⟩
    have keeps : settled.macAddressArr = processed.macAddressArr ∧
        settled.keyCache = processed.keyCache ∧
        settled.deferredQueue = processed.deferredQueue := by
      rw [isSettled]
      split
      · exact ⟨rfl, rfl, rfl⟩
      · exact ⟨rfl, rfl, rfl⟩
    obtain ⟨settledMac, settledCache, settledQueue⟩ := keeps
    rw [← isSettled] at records ⊢
    exact (keyed.withRecord nonzero
      { sec with
        consumerCollection := setConsumer sec.consumerCollection index settled
        log := log }
      index settled records rfl (settledMac.trans (sameMac.trans own))
      (by rw [settledCache]; exact refinesNext)
      keyed.sessionKeys (by rw [settledQueue]; exact deferred) keyed.waiting handed).1
  · have unchanged : processPendingConsumer mb tickCount sec index = sec := if_neg pending
    rw [unchanged]
    exact keyed

/-! ## A completed key -/

def keysAfter (mac : EspBdAddr) (keyId : UInt16) (key : Key128b) (tickCount : UInt32)
    (sec : SecPduProcessing) (keys : UInt16 → Option Key128b) : UInt16 → Option Key128b :=
  if (getIndexForMacAddr sec.consumerCollection mac).isSome then
    (cacheStep ⟨cacheOf sec.consumerCollection mac, keys⟩ (.complete keyId key tickCount)).stored
  else keys

theorem keysAfter_found {sec : SecPduProcessing} {mac : EspBdAddr} {index : Fin 2}
    (found : getIndexForMacAddr sec.consumerCollection mac = some index) (keyId : UInt16)
    (key : Key128b) (tickCount : UInt32) (keys : UInt16 → Option Key128b) :
    keysAfter mac keyId key tickCount sec keys =
      (cacheStep ⟨cacheOf sec.consumerCollection mac, keys⟩
        (.complete keyId key tickCount)).stored := by
  unfold keysAfter
  rw [found]
  rfl

theorem complete_sessionKeys {size : Nat} {history : CacheHistory size}
    {keyOf : UInt16 → Key128b}
    (sessionKeys : ∀ id key, history.stored id = some key → key = keyOf id) (keyId : UInt16)
    (tickCount : UInt32) :
    ∀ id key, (cacheStep history (.complete keyId (keyOf keyId) tickCount)).stored id = some key →
      key = keyOf id := by
  intro id key held
  rcases cacheStep_complete_stored held with ⟨rfl, isKey⟩ | old
  · exact isKey
  · exact sessionKeys id key old

/-- The record of the sender keeps its frames, and its cache makes the step of `cacheStep`. -/
theorem keyReconstructionComplete_record {sec : SecPduProcessing} {mac : EspBdAddr}
    {index : Fin 2} (found : getIndexForMacAddr sec.consumerCollection mac = some index)
    (keyId : UInt16) (key : Key128b) (tickCount : UInt32) (keys : UInt16 → Option Key128b) :
    ∃ record,
      keyReconstructionComplete tickCount keyId.toUInt8 key mac sec =
        { sec with consumerCollection := setConsumer sec.consumerCollection index record } ∧
      record.macAddressArr = (sec.consumerCollection.arr index).macAddressArr ∧
      record.deferredQueue = (sec.consumerCollection.arr index).deferredQueue ∧
      record.keyCache = (cacheStep ⟨(sec.consumerCollection.arr index).keyCache, keys⟩
        (.complete keyId key tickCount)).cache := by
  obtain ⟨missing, _⟩ | ⟨other, foundOther, outcome⟩ :=
    keyReconstructionComplete_cases tickCount keyId.toUInt8 key mac sec
  · rw [found] at missing
    contradiction
  obtain rfl : index = other := Option.some.inj (found.symm.trans foundOther)
  obtain ⟨result, kept⟩ | ⟨uncached, added, result⟩ := outcome
  · refine ⟨_, result, rfl, rfl, ?_⟩
    rcases kept with cached | failed
    · simp only [cacheStep, stampConsumer] at cached ⊢
      rw [if_pos cached]
    · simp only [cacheStep, stampConsumer] at failed ⊢
      split
      · rfl
      · exact (addOrEvict_failed failed).symm
  · refine ⟨_, result, rfl, rfl, ?_⟩
    simp only [cacheStep, stampConsumer] at uncached ⊢
    rw [if_neg (by rw [uncached]; exact Bool.false_ne_true)]

theorem keyReconstructionComplete_keyed (nonzero : mac ≠ 0) (tickCount : UInt32)
    (keyed : SecKeyed mb mac keyOf sent keys sec) {keyId : UInt16} (used : keyId.toUInt8 ≠ 0) :
    SecKeyed mb mac keyOf sent (keysAfter mac keyId (keyOf keyId) tickCount sec keys)
      (keyReconstructionComplete tickCount keyId.toUInt8 (keyOf keyId) mac sec) := by
  have move : DataMove anyPass sec
      (keyReconstructionComplete tickCount keyId.toUInt8 (keyOf keyId) mac sec) :=
    keyReconstructionComplete_move tickCount keyId.toUInt8 (keyOf keyId) mac keyed.records
  have records := move.records
  cases found : getIndexForMacAddr sec.consumerCollection mac with
  | none =>
      simp only [keysAfter, keyReconstructionComplete, getBleConsumerFromCollection, found,
        Option.isSome_none, Bool.false_eq_true, if_false]
      exact keyed
  | some index =>
      have own := getIndexForMacAddr_some found
      have cache := cacheOf_eq keyed.records.distinct own nonzero
      have distinguished : LookupDistinguished ⟨cacheOf sec.consumerCollection mac, keys⟩
          (.complete keyId (keyOf keyId) tickCount) := trivial
      have completed := keyed.refines.cacheStep distinguished (Or.inl used)
      have sessionKeys := @complete_sessionKeys _ ⟨cacheOf sec.consumerCollection mac, keys⟩ _
        keyed.sessionKeys keyId tickCount
      obtain ⟨record, result, sameMac, sameQueue, recordCache⟩ :=
        keyReconstructionComplete_record found keyId (keyOf keyId) tickCount keys
      rw [keysAfter_found found, result]
      rw [result] at records
      rw [cache] at completed sessionKeys ⊢
      refine (keyed.withRecord nonzero
        { sec with consumerCollection := setConsumer sec.consumerCollection index record }
        index record records rfl (sameMac.trans own) ?_ sessionKeys ?_ keyed.waiting
        keyed.handed).1
      · rw [recordCache]
        exact completed
      · rw [sameQueue]
        exact keyed.deferred index

/-! ## A batch of elements -/

/-- What the loop over a batch of elements works on: the collection with the elements
stored and the calls made so far, the processing, and the sessions stored. -/
structure FragmentLoop where
  history : CollectionHistory 20
  made : Nat
  sec : SecPduProcessing
  keys : UInt16 → Option Key128b

def FragmentLoop.call (tickCount : Nat → UInt32) (keyId : UInt16) (loop : FragmentLoop)
    (call : KeyRecCall) : FragmentLoop :=
  { loop with
    made := loop.made + 1
    sec := keyReconstructionComplete (tickCount loop.made) call.keyId call.key call.macAddress
      loop.sec
    keys := keysAfter call.macAddress keyId call.key (tickCount loop.made) loop.sec loop.keys }

def fragmentLoopStep (mb : Mbedtls) (tickCount : Nat → UInt32) (loop : FragmentLoop)
    (element : ReconstructorQueueElement) : FragmentLoop :=
  (handleKeyFragment mb (some logKeyRecCall) (loop.history.km, []) element).2.foldl
    (FragmentLoop.call tickCount element.keyId)
    { loop with history := collectStep mb loop.history element }

theorem call_state (tickCount : Nat → UInt32) (keyId : UInt16) (loop : FragmentLoop)
    (call : KeyRecCall) :
    ((loop.call tickCount keyId call).made, (loop.call tickCount keyId call).sec) =
      registeredCallback tickCount call.keyId call.key call.macAddress (loop.made, loop.sec) := by
  simp only [FragmentLoop.call, registeredCallback]

theorem foldl_call (tickCount : Nat → UInt32) (keyId : UInt16) (calls : List KeyRecCall) :
    ∀ loop : FragmentLoop,
      (calls.foldl (FragmentLoop.call tickCount keyId) loop).history = loop.history ∧
      ((calls.foldl (FragmentLoop.call tickCount keyId) loop).made,
        (calls.foldl (FragmentLoop.call tickCount keyId) loop).sec) =
        calls.foldl (fun state call =>
          registeredCallback tickCount call.keyId call.key call.macAddress state)
          (loop.made, loop.sec) := by
  induction calls with
  | nil => exact fun _ => ⟨rfl, rfl⟩
  | cons call rest ih =>
      intro loop
      rw [List.foldl_cons, List.foldl_cons, ← call_state]
      exact ih _

theorem fragmentLoopStep_history (mb : Mbedtls) (tickCount : Nat → UInt32) (loop : FragmentLoop)
    (element : ReconstructorQueueElement) :
    (fragmentLoopStep mb tickCount loop element).history = collectStep mb loop.history element := by
  rw [fragmentLoopStep, (foldl_call _ _ _ _).1]

theorem fragmentLoopStep_state (mb : Mbedtls) (tickCount : Nat → UInt32) (loop : FragmentLoop)
    (element : ReconstructorQueueElement) :
    handleKeyFragment mb (some (registeredCallback tickCount))
        (loop.history.km, (loop.made, loop.sec)) element =
      ((fragmentLoopStep mb tickCount loop element).history.km,
        ((fragmentLoopStep mb tickCount loop element).made,
          (fragmentLoopStep mb tickCount loop element).sec)) := by
  rw [fragmentLoopStep_history, fragmentLoopStep, (foldl_call _ _ _ _).2, handleKeyFragment_calls]
  simp only [collectStep]

theorem run_fragmentLoopStep (mb : Mbedtls) (tickCount : Nat → UInt32)
    (batch : List ReconstructorQueueElement) :
    ∀ loop : FragmentLoop,
      handleKeyFragments mb (some (registeredCallback tickCount))
          (loop.history.km, (loop.made, loop.sec)) batch =
        ((run (fragmentLoopStep mb tickCount) loop batch).history.km,
          ((run (fragmentLoopStep mb tickCount) loop batch).made,
            (run (fragmentLoopStep mb tickCount) loop batch).sec)) := by
  induction batch with
  | nil => exact fun _ => rfl
  | cons element rest ih =>
      intro loop
      rw [run_cons, ← ih, handleKeyFragments, List.foldl_cons, fragmentLoopStep_state]
      rfl

structure LoopKeyed (mb : Mbedtls) (mac : EspBdAddr) (keyOf : UInt16 → Key128b)
    (sent : BeaconPduDataWithMacAddr → Prop) (loop : FragmentLoop) : Prop where
  keyed : SecKeyed mb mac keyOf sent loop.keys loop.sec
  provenance : Provenance mb loop.history
  stored : ∀ element ∈ loop.history.stored, SessionFragment mb mac keyOf element

theorem Sourced.isSessionKey {elements : List ReconstructorQueueElement}
    {element : ReconstructorQueueElement} {call : KeyRecCall}
    (sourced : Sourced mb elements element call)
    (ofSession : ∀ element ∈ elements, SessionFragment mb mac keyOf element) :
    call.key = keyOf element.keyId := by
  obtain ⟨_, _, source, sources, bytes⟩ := sourced
  have isKey : call.key = get128bKeyFromFragments fun number => (source number).decrypted :=
    funext bytes
  rw [isKey]
  refine get128bKeyFromFragments_eq fun number => ?_
  obtain ⟨member, brings⟩ := sources number
  rw [(ofSession _ member).fragment brings.genuine, brings.session, brings.fragment]

theorem LoopKeyed.step (nonzero : mac ≠ 0) (tickCount : Nat → UInt32) {loop : FragmentLoop}
    (keyed : LoopKeyed mb mac keyOf sent loop) {element : ReconstructorQueueElement}
    (ofSession : SessionFragment mb mac keyOf element)
    (unmixed : Unmixed mb loop.history element) :
    LoopKeyed mb mac keyOf sent (fragmentLoopStep mb tickCount loop element) := by
  obtain ⟨provenance, sourced⟩ := keyed.provenance.collectStep unmixed
  have known : ∀ other ∈ element :: loop.history.stored, SessionFragment mb mac keyOf other := by
    intro other member
    rcases List.mem_cons.mp member with rfl | old
    · exact ofSession
    · exact keyed.stored other old
  have calls : ∀ (made : List KeyRecCall) (next : FragmentLoop),
      (∀ call ∈ made,
        element.keyByte ≠ 0 ∧ Sourced mb (element :: loop.history.stored) element call) →
      SecKeyed mb mac keyOf sent next.keys next.sec →
      SecKeyed mb mac keyOf sent
        (made.foldl (FragmentLoop.call tickCount element.keyId) next).keys
        (made.foldl (FragmentLoop.call tickCount element.keyId) next).sec := by
    intro made
    induction made with
    | nil => exact fun _ _ keyedNext => keyedNext
    | cons call rest ih =>
        intro next sourced keyedNext
        obtain ⟨used, fromElement⟩ := sourced call List.mem_cons_self
        have isKey := fromElement.isSessionKey known
        obtain ⟨callMac, callByte, _⟩ := fromElement
        refine ih _ (fun other member => sourced other (List.mem_cons_of_mem _ member)) ?_
        simp only [FragmentLoop.call, callMac, callByte, isKey, ofSession.sender]
        exact keyReconstructionComplete_keyed nonzero _ keyedNext used
  refine ⟨calls _ _ sourced keyed.keyed, ?_, ?_⟩
  · rw [fragmentLoopStep_history]
    exact provenance
  · rw [fragmentLoopStep_history]
    intro other member
    simp only [collectStep] at member
    split at member
    · exact known other member
    · exact keyed.stored other member

theorem LoopKeyed.run (nonzero : mac ≠ 0) (tickCount : Nat → UInt32)
    (batch : List ReconstructorQueueElement) :
    ∀ loop : FragmentLoop, LoopKeyed mb mac keyOf sent loop →
      (∀ element ∈ batch, SessionFragment mb mac keyOf element) →
      Guarded (collectStep mb) (Unmixed mb) loop.history batch →
      LoopKeyed mb mac keyOf sent (run (fragmentLoopStep mb tickCount) loop batch) := by
  induction batch with
  | nil => exact fun _ keyed _ _ => keyed
  | cons element rest ih =>
      intro loop keyed ofSession guarded
      have next := keyed.step nonzero tickCount (ofSession element List.mem_cons_self) guarded.1
      rw [run_cons]
      refine ih (fragmentLoopStep mb tickCount loop element) next
        (fun other member => ofSession other (List.mem_cons_of_mem _ member)) ?_
      rw [fragmentLoopStep_history]
      exact guarded.2

/-! ## Runs -/

/-- The receiver, the elements whose fragments were stored, newest first, and the sessions
whose keys are in the cache of the sender. -/
structure WatchedReceiver where
  receiver : ReceiverState
  fragments : List ReconstructorQueueElement
  keys : UInt16 → Option Key128b

def WatchedReceiver.start (garbage : Fin 2 → Fin 5 → KeyReconstructionMap) : WatchedReceiver :=
  ⟨startUpSecProcessing garbage, [], fun _ => none⟩

def WatchedReceiver.collection (watched : WatchedReceiver) : CollectionHistory 20 :=
  ⟨watched.receiver.reconstructor.keyCollection, watched.fragments, []⟩

/-- The elements that `handle_event_new_key_fragment_in_queue` takes. -/
def WatchedReceiver.batch (watched : WatchedReceiver) : List ReconstructorQueueElement :=
  watched.receiver.reconstructor.xQueueKeyReconstruction.take maxKeyProcessesAtOnce

def watchedStep (mb : Mbedtls) (watched : WatchedReceiver) (step : ReceiverStep) :
    WatchedReceiver :=
  let receiver := receiverStep mb watched.receiver step
  match step with
  | .newKeyFragmentInQueue tickCount =>
      let loop := run (fragmentLoopStep mb tickCount)
        ⟨watched.collection, 0, watched.receiver.sec, watched.keys⟩ watched.batch
      ⟨receiver, loop.history.stored, loop.keys⟩
  | _ => { watched with receiver := receiver }

/-- Every lookup of the step is distinguished by its low byte, and no fragment it stores is
mixed in. -/
def StepToldApart (mb : Mbedtls) (mac : EspBdAddr) (watched : WatchedReceiver) :
    ReceiverStep → Prop
  | .newPdu _ _ =>
      ∀ frame ∈ watched.receiver.sec.processingQueue.take maxProcessedPdusAtOnce,
        FrameToldApart (cacheOf watched.receiver.sec.consumerCollection mac) watched.keys frame
  | .newKeyFragmentInQueue _ =>
      Guarded (collectStep mb) (Unmixed mb) watched.collection watched.batch
  | .processDeferredPdus _ =>
      ∀ index, PassToldApart watched.keys (watched.receiver.sec.consumerCollection.arr index)
  | _ => True

instance notFreeMarkDecidable (cache : KeyReconstructionCache 5) (keyId : UInt16) :
    Decidable (NotFreeMark cache keyId) :=
  inferInstanceAs (Decidable (_ ∨ _))

instance toldApartDecidable (cache : KeyReconstructionCache 5)
    (keys : UInt16 → Option Key128b) (keyId : UInt16) : Decidable (ToldApart cache keys keyId) :=
  inferInstanceAs (Decidable (LookupDistinguished _ _))

instance frameToldApartDecidable (cache : KeyReconstructionCache 5)
    (keys : UInt16 → Option Key128b) (frame : BeaconPduDataWithMacAddr) :
    Decidable (FrameToldApart cache keys frame) :=
  inferInstanceAs (Decidable ((_ → _) ∧ (_ → _)))

instance passToldApartDecidable (keys : UInt16 → Option Key128b) (consumer : BleConsumer) :
    Decidable (PassToldApart keys consumer) :=
  inferInstanceAs (Decidable (_ → ∀ item ∈ _, _))

instance stepToldApartDecidable (mb : Mbedtls) (mac : EspBdAddr) (watched : WatchedReceiver) :
    ∀ step, Decidable (StepToldApart mb mac watched step)
  | .enqueuePdu _ _ _ => isTrue trivial
  | .newPdu _ _ => inferInstanceAs (Decidable (∀ frame ∈ _, _))
  | .newKeyFragmentInQueue _ => inferInstanceAs (Decidable (Guarded _ _ _ _))
  | .keyComplete _ _ _ _ => isTrue trivial
  | .processDeferredPdus _ => inferInstanceAs (Decidable (∀ _, PassToldApart _ _))

/-- The step puts only frames of the sender on the queue, and is no call of the callback
from outside of the reconstructor. -/
def OfSender (sent : BeaconPduDataWithMacAddr → Prop) : ReceiverStep → Prop
  | .enqueuePdu data size mac => sent ⟨fun i => if i < size then data i else 0, size, mac⟩
  | .keyComplete _ _ _ _ => False
  | _ => True

structure WatchedKeyed (mb : Mbedtls) (mac : EspBdAddr) (keyOf : UInt16 → Key128b)
    (sent : BeaconPduDataWithMacAddr → Prop) (watched : WatchedReceiver) : Prop where
  sec : SecKeyed mb mac keyOf sent watched.keys watched.receiver.sec
  fragments : FragmentsKeyed mb mac keyOf watched.fragments watched.receiver.reconstructor

theorem watchedKeyed_start (garbage : Fin 2 → Fin 5 → KeyReconstructionMap) (nonzero : mac ≠ 0) :
    WatchedKeyed mb mac keyOf sent (.start garbage) where
  sec := secKeyed_start garbage nonzero
  fragments := ⟨provenance_start mb, by simp [WatchedReceiver.start],
    by simp [WatchedReceiver.start, startUpSecProcessing, startUpKeyReconstructor]⟩

theorem WatchedKeyed.step (nonzero : mac ≠ 0)
    (sentBy : ∀ frame, sent frame → SentBy mb mac keyOf frame) {watched : WatchedReceiver}
    (keyed : WatchedKeyed mb mac keyOf sent watched) {step : ReceiverStep}
    (ofSender : OfSender sent step) (told : StepToldApart mb mac watched step) :
    WatchedKeyed mb mac keyOf sent (watchedStep mb watched step) := by
  cases step with
  | enqueuePdu data size sender =>
      refine ⟨?_, keyed.fragments⟩
      have sec := keyed.sec
      simp only [watchedStep, receiverStep, enqueuePduForProcessing]
      split
      · refine ⟨sec.records, sec.claimed, sec.refines, sec.sessionKeys, sec.deferred, ?_,
          sec.handed⟩
        intro frame member
        rcases List.mem_append.mp member with old | new
        · exact sec.waiting frame old
        · rw [List.mem_singleton.mp new]
          exact ofSender
      · exact sec
  | newPdu tickCount stack =>
      have sec := keyed.sec
      obtain ⟨secNext, fragmentsNext⟩ := handleNewFrames_keyed nonzero sentBy tickCount stack
        (watched.receiver.sec.processingQueue.take maxProcessedPdusAtOnce) 0
        { watched.receiver with
          sec := { watched.receiver.sec with
            processingQueue := watched.receiver.sec.processingQueue.drop maxProcessedPdusAtOnce } }
        ⟨sec.records, sec.claimed, sec.refines, sec.sessionKeys, sec.deferred,
          fun frame member => sec.waiting frame (List.mem_of_mem_drop member), sec.handed⟩
        keyed.fragments (fun frame member => sec.waiting frame (List.mem_of_mem_take member)) told
      exact ⟨secNext, fragmentsNext⟩
  | newKeyFragmentInQueue tickCount =>
      have queued := keyed.fragments.queued
      have loop := LoopKeyed.run nonzero tickCount watched.batch
        ⟨watched.collection, 0, watched.receiver.sec, watched.keys⟩
        ⟨keyed.sec, keyed.fragments.provenance, keyed.fragments.stored⟩
        (fun element member => queued element (List.mem_of_mem_take member)) told
      have same := run_fragmentLoopStep mb tickCount watched.batch
        ⟨watched.collection, 0, watched.receiver.sec, watched.keys⟩
      simp only [WatchedReceiver.collection, WatchedReceiver.batch] at loop same
      simp only [watchedStep, receiverStep, handleKeyFragmentsOfReceiver,
        handleEventNewKeyFragmentInQueue, same, WatchedReceiver.collection, WatchedReceiver.batch]
      refine ⟨loop.keyed, ⟨?_, loop.stored, ?_⟩⟩
      · have provenance := loop.provenance
        exact ⟨provenance.opens, provenance.free, provenance.distinct, provenance.sources⟩
      · exact fun element member => queued element (List.mem_of_mem_drop member)
  | keyComplete => exact absurd ofSender id
  | processDeferredPdus tickCount =>
      refine ⟨?_, keyed.fragments⟩
      have first := processPendingConsumer_keyed nonzero (tickCount 0) keyed.sec 0 (told 0)
      refine processPendingConsumer_keyed nonzero (tickCount 1) first 1 ?_
      rw [processPendingConsumer_other mb _ _ (by decide)]
      exact told 1

theorem run_watchedStep (mb : Mbedtls) (steps : List ReceiverStep) :
    ∀ watched : WatchedReceiver, (run (watchedStep mb) watched steps).receiver =
      run (receiverStep mb) watched.receiver steps := by
  induction steps with
  | nil => exact fun _ => rfl
  | cons step rest ih =>
      intro watched
      have same : (watchedStep mb watched step).receiver =
          receiverStep mb watched.receiver step := by
        cases step <;> rfl
      rw [run_cons, run_cons, ih, same]

/-- In every run over frames of one sender whose lookups are told apart and whose fragments
are not mixed, each DATA frame is handed over under the key of the session it names. -/
theorem handed_under_session_key (garbage : Fin 2 → Fin 5 → KeyReconstructionMap)
    (nonzero : mac ≠ 0) (sentBy : ∀ frame, sent frame → SentBy mb mac keyOf frame)
    {steps : List ReceiverStep} (ofSender : ∀ step ∈ steps, OfSender sent step)
    (told : Guarded (watchedStep mb) (StepToldApart mb mac) (.start garbage) steps) :
    ∀ event ∈ (run (receiverStep mb) (startUpSecProcessing garbage) steps).sec.log,
      HandedUnder mb sent keyOf event := by
  have main : ∀ (steps : List ReceiverStep) (watched : WatchedReceiver),
      WatchedKeyed mb mac keyOf sent watched → (∀ step ∈ steps, OfSender sent step) →
      Guarded (watchedStep mb) (StepToldApart mb mac) watched steps →
      WatchedKeyed mb mac keyOf sent (run (watchedStep mb) watched steps) := by
    intro steps
    induction steps with
    | nil => exact fun _ keyed _ _ => keyed
    | cons step rest ih =>
        intro watched keyed ofSender told
        exact ih _ (keyed.step nonzero sentBy (ofSender step List.mem_cons_self) told.1)
          (fun other member => ofSender other (List.mem_cons_of_mem _ member)) told.2
  have final := main steps _ (watchedKeyed_start garbage nonzero) ofSender told
  have sec := final.sec.handed
  rw [run_watchedStep] at sec
  exact sec

end BleBroadcast.Receiver
