import BleBroadcast.Receiver.BleConsumer
import BleBroadcast.Receiver.KeyReconstructor

/-!
# Processing of received frames

Model of `sec_pdu_processing.c`: the processing queue, the three handlers and the
callback of the key reconstructor.  Each handler is one step.  What it reads from
outside comes with the step: the tick count, and what the stack held where the
local `beacon_pdu_data` of a frame lies, both once for each frame of a batch.

Two ghosts are kept: DATA frames are numbered as they are taken from the
processing queue, and `log` records what became of them.
-/

set_option autoImplicit false

namespace BleBroadcast.Receiver

open BleBroadcast.Core

abbrev maxProcessingQueueElements : Nat := 100

abbrev maxProcessedPdusAtOnce : Nat := 20

structure BeaconPduDataWithMacAddr where
  data : Memory
  size : Nat
  macAddress : EspBdAddr

/-- What the observers are called with: they may read `payloadSize` bytes of the output. -/
structure Notification where
  payload : List UInt8
  payloadSize : Nat
  macAddress : EspBdAddr

inductive ProcessingEvent where
  /-- A DATA frame was taken from the processing queue for a sender. -/
  | tookData (mac : EspBdAddr) (arrival : Nat) (keyId : UInt16)
  | tookKeyFragment (mac : EspBdAddr) (keyId : UInt16)
  /-- A frame was handed to `decrypt_and_notify`. -/
  | handed (mac : EspBdAddr) (arrival : Nat) (key : Key128b) (pdu : BeaconPduData)
      (notified : Option Notification)
  /-- On arrival, `add_to_deferred_queue` failed with so many frames in the queue. -/
  | full (mac : EspBdAddr) (arrival : Nat) (queued : Nat)
  /-- `process_deferred_queue` dropped the frame.  Ghosts: the id heard last, and whether
  a key for the id of the frame was in the cache. -/
  | dropped (mac : EspBdAddr) (arrival : Nat) (keyId lastPduKeyId : UInt16) (cached : Bool)
  /-- Putting a frame back into the deferred queue failed. -/
  | lost (mac : EspBdAddr) (arrival : Nat)

structure SecPduProcessing where
  processingQueue : List BeaconPduDataWithMacAddr
  consumerCollection : BleConsumerCollection
  dataFramesTaken : Nat
  log : List ProcessingEvent

/-- The processing with the reconstructor it queues fragments for. -/
structure ReceiverState where
  sec : SecPduProcessing
  reconstructor : KeyReconstructorControl 20

def startUpSecProcessing (garbage : Fin 2 → Fin 5 → KeyReconstructionMap) : ReceiverState where
  sec :=
    { processingQueue := []
      consumerCollection := createBleConsumerCollection garbage
      dataFramesTaken := 0
      log := [] }
  reconstructor := startUpKeyReconstructor (maxBleConsumers * 10)

/-- `enqueue_pdu_for_processing`: copies `size` bytes into a zeroed element. -/
def enqueuePduForProcessing (sec : SecPduProcessing) (data : Memory) (size : Nat)
    (mac : EspBdAddr) : SecPduProcessing :=
  if sec.processingQueue.length < maxProcessingQueueElements then
    { sec with
      processingQueue :=
        sec.processingQueue ++ [⟨fun i => if i < size then data i else 0, size, mac⟩] }
  else sec

/-- `decrypt_pdu`, as called with an output buffer of `MAX_PDU_PAYLOAD_SIZE` bytes. -/
def decryptPdu (mb : Mbedtls) (key : Key128b) (pdu : BeaconPduData) : List UInt8 :=
  aesCtrDecryptPayload mb pdu.payload pdu.payloadSize key
    (buildNonce pdu.marker pdu.keySessionData pdu.xorSeed)

/-- `decrypt_and_notify`: no observer is called for an empty payload. -/
def decryptAndNotify (mb : Mbedtls) (key : Key128b) (pdu : BeaconPduData) (mac : EspBdAddr) :
    Option Notification :=
  let decrypted := decryptPdu mb key pdu
  let output := decrypted ++ (List.replicate maxPduPayloadSize 0).drop decrypted.length
  if pdu.payloadSize = 0 then none
  else some ⟨output.take pdu.payloadSize, pdu.payloadSize, mac⟩

/-! ## New frames -/

/-- The record of the sender of a frame: looked up, or added while there is room. -/
def consumerForFrame (collection : BleConsumerCollection) (mac : EspBdAddr)
    (tickCount : UInt32) : Option (Fin 2) × BleConsumerCollection :=
  let (found, looked) := getBleConsumerFromCollection collection mac tickCount
  match found with
  | some index => (some index, looked)
  | none =>
      if getActiveNoConsumers looked < maxBleConsumers then
        addConsumerToCollection looked mac tickCount
      else (none, looked)

/-- What both commands begin with: the lookup of the key, and the note of the id. -/
def hearKeyId (tickCount : UInt32) (consumer : BleConsumer) (keyId : UInt16) :
    Option Key128b × BleConsumer :=
  let (key, cache) := getKeyFromCache consumer.keyCache keyId.toUInt8 tickCount
  (key, { consumer with
    keyCache := cache
    lastPduKeyId := keyId })

/-- The `DATA_CMD` case on the record of the sender: the record and what is logged. -/
def handleDataPdu (mb : Mbedtls) (tickCount : UInt32) (consumer : BleConsumer)
    (mac : EspBdAddr) (pdu : BeaconPduData) (arrival : Nat) :
    BleConsumer × List ProcessingEvent :=
  let keyId := getKeyIdFromKeySessionData pdu.keySessionData
  let (key, heard) := hearKeyId tickCount consumer keyId
  let taken := ProcessingEvent.tookData mac arrival keyId
  match key, isPduInDeferredQueue heard with
  | some key, false =>
      (heard, [taken, .handed mac arrival key pdu (decryptAndNotify mb key pdu mac)])
  | _, _ =>
      let (added, deferred) := addToDeferredQueue heard ⟨pdu, arrival⟩
      (deferred, if added then [taken] else [taken, .full mac arrival heard.deferredQueue.length])

/-- What `queue_key_for_reconstruction` is called with for a key fragment frame. -/
def fragmentElement (pdu : BeaconKeyPduData) (mac : EspBdAddr) : ReconstructorQueueElement where
  keyId := getKeyIdFromKeySessionData pdu.bcd.keySessionData
  keyFragmentNo := getKeyFragmentIndexFromKeySessionData pdu.bcd.keySessionData
  encryptedKeyFragment := pdu.bcd.encKeyFragment
  keyHmac := pdu.bcd.keyFragmentHmac
  xorSeed := pdu.bcd.xorSeed
  consumerMacAddress := mac

/-- The body of the loop of `handle_event_new_pdu`. -/
def handleNewFrame (mb : Mbedtls) (tickCount : UInt32) (stack : BeaconPduData)
    (receiver : ReceiverState) (frame : BeaconPduDataWithMacAddr) : ReceiverState :=
  let sec := receiver.sec
  let mac := frame.macAddress
  let (found, collection) := consumerForFrame sec.consumerCollection mac tickCount
  match found with
  | none => { receiver with sec := { sec with consumerCollection := collection } }
  | some index =>
      let consumer := collection.arr index
      let command := getCommandFromPdu frame.data frame.size
      if command = dataCmd then
        let pdu := getBeaconPduFromAdvData stack frame.data frame.size
        let (next, events) := handleDataPdu mb tickCount consumer mac pdu sec.dataFramesTaken
        { receiver with
          sec := { sec with
            consumerCollection := setConsumer collection index next
            dataFramesTaken := sec.dataFramesTaken + 1
            log := sec.log ++ events } }
      else if command = keyFragmentCmd then
        let element := fragmentElement (BeaconKeyPduData.overlay frame.data) mac
        let (key, heard) := hearKeyId tickCount consumer element.keyId
        { sec := { sec with
            consumerCollection := setConsumer collection index heard
            log := sec.log ++ [.tookKeyFragment mac element.keyId] }
          reconstructor :=
            match key with
            | none => (queueKeyForReconstruction receiver.reconstructor element).2
            | some _ => receiver.reconstructor }
      else { receiver with sec := { sec with consumerCollection := collection } }

/-- The loop of `handle_event_new_pdu`, with the number of the frame in its batch. -/
def handleNewFrames (mb : Mbedtls) (tickCount : Nat → UInt32) (stack : Nat → BeaconPduData) :
    Nat → ReceiverState → List BeaconPduDataWithMacAddr → ReceiverState
  | _, receiver, [] => receiver
  | i, receiver, frame :: rest =>
      handleNewFrames mb tickCount stack (i + 1)
        (handleNewFrame mb (tickCount i) (stack i) receiver frame) rest

def handleEventNewPdu (mb : Mbedtls) (tickCount : Nat → UInt32) (stack : Nat → BeaconPduData)
    (receiver : ReceiverState) : ReceiverState :=
  let queue := receiver.sec.processingQueue
  handleNewFrames mb tickCount stack 0
    { receiver with
      sec := { receiver.sec with processingQueue := queue.drop maxProcessedPdusAtOnce } }
    (queue.take maxProcessedPdusAtOnce)

/-! ## Deferred frames -/

def takeDeferredBatch : Nat → BleConsumer → List DeferredPdu × BleConsumer
  | 0, consumer => ([], consumer)
  | n + 1, consumer =>
      match getDeferredQueueItem consumer with
      | some (item, rest) =>
          let (batch, remaining) := takeDeferredBatch n rest
          (item :: batch, remaining)
      | none => ([], consumer)

structure DeferredPass where
  consumer : BleConsumer
  key : Option Key128b
  lastKeyId : UInt16
  log : List ProcessingEvent

def DeferredPdu.keyId (item : DeferredPdu) : UInt16 :=
  getKeyIdFromKeySessionData item.pdu.keySessionData

/-- The lookup of the second loop, for a frame of another id than the one before it. -/
def lookupForItem (tickCount : UInt32) (pass : DeferredPass) (item : DeferredPdu) :
    DeferredPass :=
  if pass.lastKeyId ≠ item.keyId then
    let (key, cache) := getKeyFromCache pass.consumer.keyCache item.keyId.toUInt8 tickCount
    { pass with
      consumer := { pass.consumer with keyCache := cache }
      key := key
      lastKeyId := item.keyId }
  else pass

/-- The rest of the body of the second loop. -/
def settleItem (mb : Mbedtls) (pass : DeferredPass) (item : DeferredPdu) : DeferredPass :=
  let mac := pass.consumer.macAddressArr
  match pass.key with
  | some key =>
      { pass with
        log := pass.log ++
          [.handed mac item.arrival key item.pdu (decryptAndNotify mb key item.pdu mac)] }
  | none =>
      if item.keyId = pass.consumer.lastPduKeyId then
        let (added, consumer) := addToDeferredQueue pass.consumer item
        { pass with
          consumer := consumer
          log := if added then pass.log else pass.log ++ [.lost mac item.arrival] }
      else
        { pass with
          log := pass.log ++
            [.dropped mac item.arrival item.keyId pass.consumer.lastPduKeyId
              (isKeyInCache pass.consumer.keyCache item.keyId.toUInt8)] }

def settleItems (mb : Mbedtls) (tickCount : Nat → UInt32) :
    Nat → DeferredPass → List DeferredPdu → DeferredPass
  | _, pass, [] => pass
  | i, pass, item :: rest =>
      settleItems mb tickCount (i + 1)
        (settleItem mb (lookupForItem (tickCount i) pass item) item) rest

/-- `process_deferred_queue`: the record and the log. -/
def processDeferredQueue (mb : Mbedtls) (tickCount : Nat → UInt32) (consumer : BleConsumer)
    (log : List ProcessingEvent) : BleConsumer × List ProcessingEvent :=
  let (batch, rest) := takeDeferredBatch maxProcessedPdusAtOnce consumer
  match batch with
  | [] => (rest, log)
  | first :: _ =>
      let (key, cache) := getKeyFromCache rest.keyCache first.keyId.toUInt8 (tickCount 0)
      let pass := settleItems mb tickCount 1
        ⟨{ rest with keyCache := cache }, key, first.keyId, log⟩ batch
      (pass.consumer, pass.log)

/-- The body of the loop of `handle_event_process_deferred_pdus`. -/
def processPendingConsumer (mb : Mbedtls) (tickCount : Nat → UInt32) (sec : SecPduProcessing)
    (index : Fin 2) : SecPduProcessing :=
  let consumer := sec.consumerCollection.arr index
  if consumer.processDeferredQRequestPending then
    let (processed, log) := processDeferredQueue mb tickCount consumer sec.log
    let settled :=
      if isPduInDeferredQueue processed then processed
      else { processed with processDeferredQRequestPending := false }
    { sec with
      consumerCollection := setConsumer sec.consumerCollection index settled
      log := log }
  else sec

def handleEventProcessDeferredPdus (mb : Mbedtls) (tickCount : Fin 2 → Nat → UInt32)
    (sec : SecPduProcessing) : SecPduProcessing :=
  (List.finRange 2).foldl
    (fun sec index => processPendingConsumer mb (tickCount index) sec index) sec

/-! ## A reconstructed key -/

def keyReconstructionComplete (tickCount : UInt32) (keyId : UInt8) (reconstructedKey : Key128b)
    (mac : EspBdAddr) (sec : SecPduProcessing) : SecPduProcessing :=
  let (found, collection) :=
    getBleConsumerFromCollection sec.consumerCollection mac tickCount
  match found with
  | none => { sec with consumerCollection := collection }
  | some index =>
      let consumer := collection.arr index
      if isKeyInCache consumer.keyCache keyId then { sec with consumerCollection := collection }
      else
        let (status, _, cache) := addOrEvict consumer.keyCache reconstructedKey keyId tickCount
        let next := { consumer with
          keyCache := cache
          processDeferredQRequestPending :=
            if status = 0 then true else consumer.processDeferredQRequestPending }
        { sec with consumerCollection := setConsumer collection index next }

/-- The callback registered by `start_up_sec_processing`.  The number of calls made by
the handler so far picks the tick count. -/
def registeredCallback (tickCount : Nat → UInt32) :
    KeyReconstructionCompleteCb (Nat × SecPduProcessing) :=
  fun keyId key mac state =>
    (state.1 + 1, keyReconstructionComplete (tickCount state.1) keyId key mac state.2)

/-- `handle_event_new_key_fragment_in_queue` with the registered callback. -/
def handleKeyFragmentsOfReceiver (mb : Mbedtls) (tickCount : Nat → UInt32)
    (receiver : ReceiverState) : ReceiverState :=
  let (reconstructor, state) := handleEventNewKeyFragmentInQueue mb
    (some (registeredCallback tickCount)) receiver.reconstructor (0, receiver.sec)
  ⟨state.2, reconstructor⟩

/-! ## Runs -/

/-- A step of the receiver, with what it reads from outside. -/
inductive ReceiverStep where
  | enqueuePdu (data : Memory) (size : Nat) (mac : EspBdAddr)
  | newPdu (tickCount : Nat → UInt32) (stack : Nat → BeaconPduData)
  | newKeyFragmentInQueue (tickCount : Nat → UInt32)
  | keyComplete (tickCount : UInt32) (keyId : UInt8) (key : Key128b) (mac : EspBdAddr)
  | processDeferredPdus (tickCount : Fin 2 → Nat → UInt32)

def receiverStep (mb : Mbedtls) (receiver : ReceiverState) : ReceiverStep → ReceiverState
  | .enqueuePdu data size mac =>
      { receiver with sec := enqueuePduForProcessing receiver.sec data size mac }
  | .newPdu tickCount stack => handleEventNewPdu mb tickCount stack receiver
  | .newKeyFragmentInQueue tickCount => handleKeyFragmentsOfReceiver mb tickCount receiver
  | .keyComplete tickCount keyId key mac =>
      { receiver with sec := keyReconstructionComplete tickCount keyId key mac receiver.sec }
  | .processDeferredPdus tickCount =>
      { receiver with sec := handleEventProcessDeferredPdus mb tickCount receiver.sec }

end BleBroadcast.Receiver
