import Mathlib.Algebra.BigOperators.Group.Finset.Piecewise
import Mathlib.Algebra.Order.BigOperators.Group.Finset
import BleBroadcast.Receiver.AddressProvenance
import BleBroadcast.Receiver.FrameCustody
import BleBroadcast.Receiver.SenderTables

/-!
# From the radio to the observers

A frame that is heard lies in a private queue, with the authorization task, in the
processing queue, in the batch of a handler and in a deferred queue, before its payload is
handed over.  None of these places makes more frames than it was given.  So the observers
are told no payload that was not heard from the sender they are told, and none more often
than it was heard.
-/

set_option autoImplicit false

namespace BleBroadcast.Receiver

open BleBroadcast.Core BleBroadcast.Lib

def cutFrame (data : Memory) (size : Nat) (mac : EspBdAddr) : BeaconPduDataWithMacAddr :=
  ⟨fun i => if i < size then data i else 0, size, mac⟩

def Hearing.frame (heard : Hearing) : BeaconPduDataWithMacAddr :=
  cutFrame heard.data heard.dataSize heard.macAddress

def EnqueueCall.frame (call : EnqueueCall) : BeaconPduDataWithMacAddr :=
  cutFrame call.data call.size call.macAddress

def ScanPdu.frameOf (mac : EspBdAddr) (pdu : ScanPdu) : BeaconPduDataWithMacAddr :=
  cutFrame pdu.data pdu.size mac

theorem frameOf_scanPduOf (heard : Hearing) :
    (scanPduOf heard).frameOf heard.macAddress = heard.frame := by
  simp only [ScanPdu.frameOf, Hearing.frame, cutFrame, scanPduOf,
    BeaconPduDataWithMacAddr.mk.injEq, and_self, and_true]
  funext i
  split <;> rfl

/-! ## The private queues -/

def heldFrames (consumer : ConsumerAuthorizationStructure) : List BeaconPduDataWithMacAddr :=
  ((carriedPdu consumer).toList ++ consumer.privateQueue).map
    (ScanPdu.frameOf consumer.consumerAddr)

theorem heldFrames_congr {consumer next : ConsumerAuthorizationStructure}
    (same : SameSender consumer next) (queue : next.privateQueue = consumer.privateQueue) :
    heldFrames next = heldFrames consumer := by
  rw [heldFrames, heldFrames, carriedPdu, carriedPdu, same.lastProcessedPdu, same.address, queue]

theorem heldFrames_queued {consumer next : ConsumerAuthorizationStructure} {pdu : ScanPdu}
    (same : SameSender consumer next)
    (queue : next.privateQueue = consumer.privateQueue ++ [pdu]) :
    heldFrames next = heldFrames consumer ++ [pdu.frameOf consumer.consumerAddr] := by
  rw [heldFrames, heldFrames, carriedPdu, carriedPdu, same.lastProcessedPdu, same.address, queue,
    ← List.append_assoc, List.map_append, List.map_singleton]

theorem heldFrames_free {consumer : ConsumerAuthorizationStructure}
    (queue : consumer.privateQueue = []) (unused : consumer.lastProcessedPdu.timestampUs = 0) :
    heldFrames consumer = [] := by
  rw [heldFrames, carriedPdu, if_neg (not_not.mpr unused), queue]
  rfl

theorem authorizePdus_count (mac : EspBdAddr) (last : ScanPdu) (pdus : List ScanPdu)
    (kind : BeaconPduDataWithMacAddr → Bool) :
    ((authorizePdus mac last pdus).2.map EnqueueCall.frame).countP kind +
        [(authorizePdus mac last pdus).1.frameOf mac].countP kind ≤
      ((last :: pdus).map (ScanPdu.frameOf mac)).countP kind := by
  obtain ⟨final, calls⟩ := authorizePdus_eq mac pdus last
  have nonempty : last :: pdus ≠ [] := List.cons_ne_nil last pdus
  have isFinal : (last :: pdus).getLast nonempty = (authorizePdus mac last pdus).1 := by
    rw [List.getLast?_eq_some_getLast nonempty] at final
    exact Option.some.inj final
  have whole : (last :: pdus).map (ScanPdu.frameOf mac) =
      (last :: pdus).dropLast.map (ScanPdu.frameOf mac) ++
        [(authorizePdus mac last pdus).1.frameOf mac] := by
    rw [← isFinal, ← List.map_singleton, ← List.map_append, List.dropLast_append_getLast]
  have sub : ((authorizePdus mac last pdus).2.map EnqueueCall.frame).Sublist
      ((last :: pdus).dropLast.map (ScanPdu.frameOf mac)) := by
    rw [calls, passedOn, List.map_map]
    exact (selectedPairs_sublist authorizes (last :: pdus)).map (ScanPdu.frameOf mac)
  have bound := sub.countP_le (p := kind)
  rw [whole, List.countP_append]
  omega

theorem authorizeBatch_count (consumer : ConsumerAuthorizationStructure) (pdus : List ScanPdu)
    (kind : BeaconPduDataWithMacAddr → Bool) :
    ((authorizeBatch consumer pdus).2.map EnqueueCall.frame).countP kind +
        ((carriedPdu { consumer with
          lastProcessedPdu := (authorizeBatch consumer pdus).1 }).toList.map
            (ScanPdu.frameOf consumer.consumerAddr)).countP kind ≤
      (((carriedPdu consumer).toList ++ pdus).map
        (ScanPdu.frameOf consumer.consumerAddr)).countP kind := by
  have carries : ∀ final : ScanPdu,
      ((carriedPdu { consumer with lastProcessedPdu := final }).toList.map
        (ScanPdu.frameOf consumer.consumerAddr)).countP kind ≤
        [final.frameOf consumer.consumerAddr].countP kind := by
    intro final
    unfold carriedPdu
    split
    · exact Nat.le_refl _
    · exact Nat.zero_le _
  unfold authorizeBatch
  split
  · rename_i stamped
    have bound := authorizePdus_count consumer.consumerAddr consumer.lastProcessedPdu pdus kind
    have carried := carries (authorizePdus consumer.consumerAddr consumer.lastProcessedPdu pdus).1
    have start : carriedPdu consumer = some consumer.lastProcessedPdu := if_pos stamped
    rw [start]
    exact Nat.le_trans (Nat.add_le_add_left carried _) bound
  · rename_i notStamped
    have start : carriedPdu consumer = none := if_neg notStamped
    rw [start]
    cases pdus with
    | nil => simp [carriedPdu, ScanPdu.zero]
    | cons first rest =>
        have bound := authorizePdus_count consumer.consumerAddr first rest kind
        have carried := carries (authorizePdus consumer.consumerAddr first rest).1
        exact Nat.le_trans (Nat.add_le_add_left carried _) bound

def HeldWithin (history : List Hearing) (ao : AdvTimeAuthorizeStructure) : Prop :=
  ∀ kind : BeaconPduDataWithMacAddr → Bool,
    (ao.enqueued.map EnqueueCall.frame).countP kind +
      ∑ i, (heldFrames (ao.consumers i)).countP kind ≤
    (history.map Hearing.frame).countP kind

section
variable {history : List Hearing} {ao : AdvTimeAuthorizeStructure}

theorem heldWithin_start : HeldWithin [] initAdvTimeAuthorizeObject := by
  intro kind
  simp [initAdvTimeAuthorizeObject, initConsumerAuthorizationStructure, heldFrames, carriedPdu,
    ScanPdu.zero]

theorem heldFrames_claimed (attributed : Attributed history ao) {heard : Hearing}
    (ok : EntryGivenEmpty ao (.hear heard))
    (format : isPduInBeaconPduFormat heard.data heard.dataSize = true) {index : Fin 2}
    {claimed : AdvTimeAuthorizeStructure}
    (found : getConsumerIndexForAddr ao heard.macAddress = (some index, claimed)) :
    (claimed.consumers index).consumerAddr = heard.macAddress ∧
      ∀ i, heldFrames (claimed.consumers i) = heldFrames (ao.consumers i) := by
  have empty := ok format index (by rw [found]; rfl)
  obtain ⟨looked, there, result⟩ | ⟨missing, free, zero, result⟩ | ⟨_, _, result⟩ :=
    getConsumerIndexForAddr_cases ao heard.macAddress
  · obtain ⟨sameIndex, rfl⟩ := Prod.mk.inj (found.symm.trans result)
    rw [Option.some.inj sameIndex]
    exact ⟨there, fun _ => rfl⟩
  · obtain ⟨sameIndex, rfl⟩ := Prod.mk.inj (found.symm.trans result)
    rw [Option.some.inj sameIndex] at empty ⊢
    have queue := empty.resolve_left (missing free)
    have unused := (attributed.own free).unused zero
    refine ⟨by simp [setAuthorization], fun i => ?_⟩
    by_cases here : i = free
    · subst here
      rw [heldFrames_free queue unused]
      simp only [setAuthorization, Function.update_self]
      exact heldFrames_free queue unused
    · simp only [setAuthorization, Function.update_of_ne here]
  · exact absurd (found.symm.trans result) (by simp)

theorem HeldWithin.hear (within : HeldWithin history ao) (attributed : Attributed history ao)
    {heard : Hearing} (ok : EntryGivenEmpty ao (.hear heard)) :
    HeldWithin (history ++ [heard]) (scanCompleteCallback ao heard) := by
  intro kind
  have before := within kind
  obtain ⟨enqueued, same | ⟨index, claimed, format, found, entries⟩⟩ :=
    scanCompleteCallback_cases ao heard
  · rw [enqueued, same, List.map_append, List.countP_append]
    omega
  · obtain ⟨own, held⟩ := heldFrames_claimed attributed ok format found
    have each : ∀ i, (heldFrames ((scanCompleteCallback ao heard).consumers i)).countP kind ≤
        (heldFrames (ao.consumers i)).countP kind +
          if i = index then [heard.frame].countP kind else 0 := by
      intro i
      obtain ⟨sameSender, queue⟩ := entries i
      rw [← held i]
      rcases queue with same | ⟨rfl, appended⟩
      · rw [heldFrames_congr sameSender same]
        exact Nat.le_add_right _ _
      · rw [heldFrames_queued sameSender appended, own, frameOf_scanPduOf, List.countP_append,
          if_pos rfl]
    have all := Finset.sum_le_sum fun i (_ : i ∈ Finset.univ) => each i
    rw [Finset.sum_add_distrib, Finset.sum_ite_eq' Finset.univ index, if_pos
      (Finset.mem_univ index)] at all
    rw [enqueued, List.map_append, List.countP_append, List.map_singleton]
    omega

theorem HeldWithin.authorize (within : HeldWithin history ao) (index : Fin 2) :
    HeldWithin history (authorizeConsumer ao index) := by
  intro kind
  have before := within kind
  unfold authorizeConsumer
  split
  · obtain ⟨consumer, isConsumer⟩ : ∃ consumer, consumer = ao.consumers index := ⟨_, rfl⟩
    have batch := authorizeBatch_count consumer
      (consumer.privateQueue.take maxPduProcessPerConsumer) kind
    have held : (heldFrames consumer).countP kind =
        (((carriedPdu consumer).toList ++
          consumer.privateQueue.take maxPduProcessPerConsumer).map
            (ScanPdu.frameOf consumer.consumerAddr)).countP kind +
        ((consumer.privateQueue.drop maxPduProcessPerConsumer).map
            (ScanPdu.frameOf consumer.consumerAddr)).countP kind := by
      rw [heldFrames, ← List.countP_append, ← List.map_append, List.append_assoc,
        List.take_append_drop]
    have sums := sum_update (fun entry => (heldFrames entry).countP kind) ao.consumers index
      { consumer with
        privateQueue := consumer.privateQueue.drop maxPduProcessPerConsumer
        lastProcessedPdu := (authorizeBatch consumer
          (consumer.privateQueue.take maxPduProcessPerConsumer)).1 }
    have left : (heldFrames { consumer with
          privateQueue := consumer.privateQueue.drop maxPduProcessPerConsumer
          lastProcessedPdu := (authorizeBatch consumer
            (consumer.privateQueue.take maxPduProcessPerConsumer)).1 }).countP kind =
        ((carriedPdu { consumer with
          lastProcessedPdu := (authorizeBatch consumer
            (consumer.privateQueue.take maxPduProcessPerConsumer)).1 }).toList.map
              (ScanPdu.frameOf consumer.consumerAddr)).countP kind +
        ((consumer.privateQueue.drop maxPduProcessPerConsumer).map
            (ScanPdu.frameOf consumer.consumerAddr)).countP kind := by
      rw [heldFrames, List.map_append, List.countP_append]
      rfl
    simp only [processAuthorizationForConsumer, setAuthorization, ← isConsumer, List.map_append,
      List.countP_append] at sums ⊢
    omega
  · exact before

end

/-! ## The tasks -/

structure TasksWithin (mb : Mbedtls) (enqueued : List BeaconPduDataWithMacAddr)
    (tasks : ReceiverTasks) : Prop where
  records : RecordsSound tasks.receiver.sec.consumerCollection
  custody : ∃ numbered, Custody mb numbered tasks.receiver.sec ∧
    (numbered ++ waitingFrames tasks).Sublist enqueued

section
variable {mb : Mbedtls} {enqueued : List BeaconPduDataWithMacAddr} {tasks : ReceiverTasks}

theorem TasksWithin.enqueue (within : TasksWithin mb enqueued tasks) (data : Memory) (size : Nat)
    (mac : EspBdAddr) :
    TasksWithin mb (enqueued ++ [cutFrame data size mac])
      (enqueueAndSignal tasks data size mac) := by
  obtain ⟨numbered, custody, part⟩ := within.custody
  refine ⟨taskStep_records mb (.enqueuePdu data size mac) within.records, numbered, ?_, ?_⟩
  · simp only [enqueueAndSignal, enqueuePduForProcessing]
    split
    · exact custody.quiet rfl rfl rfl
    · exact custody
  · simp only [enqueueAndSignal, enqueuePduForProcessing, waitingFrames]
    split
    · rw [← List.append_assoc, ← List.append_assoc]
      rw [waitingFrames, ← List.append_assoc] at part
      exact part.append (List.Sublist.refl _)
    · exact part.trans (List.sublist_append_left _ _)

theorem TasksWithin.quiet {next : ReceiverTasks} (within : TasksWithin mb enqueued tasks)
    (records : RecordsSound next.receiver.sec.consumerCollection)
    (keeps : ∀ numbered, Custody mb numbered tasks.receiver.sec →
      Custody mb numbered next.receiver.sec)
    (frames : (waitingFrames next).Sublist (waitingFrames tasks)) :
    TasksWithin mb enqueued next := by
  obtain ⟨numbered, custody, part⟩ := within.custody
  exact ⟨records, numbered, keeps numbered custody, (frames.append_left numbered).trans part⟩

theorem TasksWithin.nextFrame (within : TasksWithin mb enqueued tasks) (tickCount : UInt32)
    (stack : BeaconPduData) :
    TasksWithin mb enqueued (handleNextFrame mb tickCount stack tasks) := by
  have records := taskStep_records mb (.nextFrame tickCount stack) within.records
  obtain ⟨numbered, custody, part⟩ := within.custody
  simp only [taskStep, handleNextFrame] at records ⊢
  cases batch : tasks.pduBatch with
  | nil => exact within
  | cons frame rest =>
      have same := handleNewFrame_sameRecords mb tickCount stack tasks.receiver frame
      rw [batch] at records
      refine ⟨records, _, custody.handleNewFrame tickCount stack within.records frame, ?_⟩
      refine List.Sublist.trans ?_ part
      rw [waitingFrames, waitingFrames, same.processingQueue, batch, List.append_assoc]
      refine List.Sublist.append_left ?_ numbered
      have one : (numberedBy tasks.receiver.sec tickCount frame).Sublist [frame] := by
        unfold numberedBy
        split
        · exact List.Sublist.refl _
        · exact List.nil_sublist _
      exact one.append (List.Sublist.refl _)

theorem TasksWithin.taskStep (within : TasksWithin mb enqueued tasks) (step : TaskStep)
    (noEnqueue : ∀ data size mac, step ≠ .enqueuePdu data size mac) :
    TasksWithin mb enqueued (taskStep mb tasks step) := by
  have records := taskStep_records mb step within.records
  cases step with
  | enqueuePdu data size mac => exact absurd rfl (noEnqueue data size mac)
  | waitForEvents =>
      refine within.quiet records (fun numbered custody => ?_) ?_ <;>
        simp only [Receiver.taskStep, waitForEvents, waitingFrames] <;> split
      · exact custody
      · exact custody
      · exact List.Sublist.refl _
      · exact List.Sublist.refl _
  | receivePdus =>
      refine within.quiet records (fun numbered custody => ?_) ?_ <;>
        simp only [Receiver.taskStep, receivePdus, waitingFrames] <;> split
      · exact custody.quiet rfl rfl rfl
      · exact custody
      · rw [List.take_append_drop]
        exact List.sublist_append_right _ _
      · exact List.Sublist.refl _
  | nextFrame tickCount stack => exact within.nextFrame tickCount stack
  | processDeferredPdus tickCount =>
      refine within.quiet records (fun numbered custody => ?_) ?_ <;>
        simp only [Receiver.taskStep, handleDeferredEvent, waitingFrames] <;> split
      · exact custody.processDeferredPdus within.records tickCount
      · exact custody
      · rw [(processDeferredAndSignal_sameRecords mb tickCount within.records).processingQueue]
      · exact List.Sublist.refl _
  | receiveKeyFragments =>
      refine within.quiet records (fun numbered custody => ?_) ?_ <;>
        simp only [Receiver.taskStep, receiveKeyFragments, waitingFrames] <;> split
      · exact custody
      · exact custody
      · exact List.Sublist.refl _
      · exact List.Sublist.refl _
  | nextKeyFragment tickCount =>
      refine within.quiet records (fun numbered custody => ?_) ?_
      · have keep : ∀ keyId key mac (state : SecPduProcessing × Bool),
            Custody mb numbered state.1 →
            Custody mb numbered (completeAndSignal tickCount keyId key mac state).1 :=
          fun keyId key mac _ kept => kept.keyReconstructionComplete tickCount keyId key mac
        obtain ⟨_, kept, _⟩ := handleNextKeyFragment_keeps mb keep custody
        exact kept
      · have sameBatch : (handleNextKeyFragment mb tickCount tasks).pduBatch = tasks.pduBatch := by
          simp only [handleNextKeyFragment]
          split <;> rfl
        rw [waitingFrames, waitingFrames, Receiver.taskStep, sameBatch,
          (handleNextKeyFragment_sameRecords mb tickCount tasks).processingQueue]

end

/-! ## The receiver -/

def heardBy (steps : List SystemStep) : List Hearing :=
  steps.filterMap fun
    | .hear heard => some heard
    | _ => none

/-- An entry that is given to a sender has nothing queued. -/
def GivenEmpty (system : ReceiverSystem) : SystemStep → Prop
  | .hear heard => EntryGivenEmpty system.authorization (.hear heard)
  | _ => True

instance givenEmptyDecidable (system : ReceiverSystem) :
    ∀ step, Decidable (GivenEmpty system step)
  | .hear heard => inferInstanceAs (Decidable (EntryGivenEmpty _ (.hear heard)))
  | .authorize _ => isTrue trivial
  | .enqueueNext => isTrue trivial
  | .task _ => isTrue trivial

structure SystemWithin (mb : Mbedtls) (history : List Hearing) (system : ReceiverSystem) :
    Prop where
  attributed : Attributed history system.authorization
  held : HeldWithin history system.authorization
  made : system.callsMade ≤ system.authorization.enqueued.length
  tasks : TasksWithin mb
    ((system.authorization.enqueued.take system.callsMade).map EnqueueCall.frame) system.tasks

section
variable {mb : Mbedtls} {history : List Hearing} {system : ReceiverSystem}

theorem systemWithin_start (mb : Mbedtls) (garbage : Fin 2 → Fin 5 → KeyReconstructionMap) :
    SystemWithin mb [] (startUpReceiver garbage) where
  attributed := attributed_start
  held := heldWithin_start
  made := Nat.zero_le _
  tasks := ⟨recordsSound_start garbage, [], custody_start mb garbage, List.Sublist.refl _⟩

theorem SystemWithin.enqueueNext (within : SystemWithin mb history system) :
    SystemWithin mb history (systemStep mb system .enqueueNext) := by
  simp only [systemStep]
  cases next : system.authorization.enqueued[system.callsMade]? with
  | none => exact within
  | some call =>
      refine ⟨within.attributed, within.held, ?_, ?_⟩
      · exact (List.getElem?_eq_some_iff.mp next).1
      · have grown : system.authorization.enqueued.take (system.callsMade + 1) =
            system.authorization.enqueued.take system.callsMade ++ [call] := by
          rw [List.take_add_one, next, Option.toList_some]
        simp only [grown, List.map_append, List.map_singleton]
        exact within.tasks.enqueue call.data call.size call.macAddress

theorem SystemWithin.authorize (within : SystemWithin mb history system) (index : Fin 2) :
    SystemWithin mb history (systemStep mb system (.authorize index)) := by
  simp only [systemStep]
  split
  · have grown : ∃ calls, (authorizeConsumer system.authorization index).enqueued =
        system.authorization.enqueued ++ calls := by
      unfold authorizeConsumer
      split
      · exact ⟨_, rfl⟩
      · exact ⟨[], (List.append_nil _).symm⟩
    obtain ⟨calls, grown⟩ := grown
    refine ⟨within.attributed.authorize index, within.held.authorize index, ?_, ?_⟩
    · rw [grown, List.length_append]
      exact Nat.le_trans within.made (Nat.le_add_right _ _)
    · simp only [grown, List.take_append_of_le_length within.made]
      exact within.tasks
  · exact within

theorem SystemWithin.step (within : SystemWithin mb history system) (step : SystemStep)
    (ok : GivenEmpty system step) :
    SystemWithin mb (history ++ heardBy [step]) (systemStep mb system step) := by
  cases step with
  | hear heard =>
      have enqueued := (scanCompleteCallback_cases system.authorization heard).1
      refine ⟨within.attributed.hear ok, within.held.hear within.attributed ok, ?_, ?_⟩ <;>
        simp only [systemStep, enqueued]
      · exact within.made
      · exact within.tasks
  | authorize index =>
      rw [show heardBy [.authorize index] = [] from rfl, List.append_nil]
      exact within.authorize index
  | enqueueNext =>
      rw [show heardBy [.enqueueNext] = [] from rfl, List.append_nil]
      exact within.enqueueNext
  | task step =>
      rw [show heardBy [.task step] = [] from rfl, List.append_nil]
      cases step with
      | enqueuePdu => exact within
      | waitForEvents =>
          exact ⟨within.attributed, within.held, within.made,
            within.tasks.taskStep .waitForEvents (by simp)⟩
      | receivePdus =>
          exact ⟨within.attributed, within.held, within.made,
            within.tasks.taskStep .receivePdus (by simp)⟩
      | nextFrame tickCount stack =>
          exact ⟨within.attributed, within.held, within.made,
            within.tasks.taskStep (.nextFrame tickCount stack) (by simp)⟩
      | processDeferredPdus tickCount =>
          exact ⟨within.attributed, within.held, within.made,
            within.tasks.taskStep (.processDeferredPdus tickCount) (by simp)⟩
      | receiveKeyFragments =>
          exact ⟨within.attributed, within.held, within.made,
            within.tasks.taskStep .receiveKeyFragments (by simp)⟩
      | nextKeyFragment tickCount =>
          exact ⟨within.attributed, within.held, within.made,
            within.tasks.taskStep (.nextKeyFragment tickCount) (by simp)⟩

theorem SystemWithin.run (steps : List SystemStep) :
    ∀ {history : List Hearing} {system : ReceiverSystem}, SystemWithin mb history system →
      Guarded (systemStep mb) GivenEmpty system steps →
      SystemWithin mb (history ++ heardBy steps) (run (systemStep mb) system steps) := by
  induction steps with
  | nil =>
      intro history system within _
      rw [heardBy, List.filterMap_nil, List.append_nil]
      exact within
  | cons step rest ih =>
      intro history system within guarded
      have result := ih (within.step step guarded.1) guarded.2
      rw [List.append_assoc, heardBy, heardBy, ← List.filterMap_append,
        List.singleton_append] at result
      exact result

end

/-- In every run of the receiver in which each entry has nothing queued when it is given to
a sender, the payloads handed to the observers are those of frames that were heard, each
under the address it was heard from, and none is handed over more often than it was heard. -/
theorem payloads_heard (mb : Mbedtls) (garbage : Fin 2 → Fin 5 → KeyReconstructionMap)
    (steps : List SystemStep)
    (guarded : Guarded (systemStep mb) GivenEmpty (startUpReceiver garbage) steps) :
    ∃ frames, frames.Subperm ((heardBy steps).map Hearing.frame) ∧
      List.Forall₂ (fun handover frame => handover.Of mb frame)
        (handovers
          (run (systemStep mb) (startUpReceiver garbage) steps).tasks.receiver.sec.log)
        frames := by
  have within := (systemWithin_start mb garbage).run steps guarded
  rw [List.nil_append] at within
  generalize run (systemStep mb) (startUpReceiver garbage) steps = system at within ⊢
  obtain ⟨numbered, custody, part⟩ := within.tasks.custody
  obtain ⟨frames, ofNumbered, all⟩ := custody.handovers_subperm
  refine ⟨frames, subperm_iff_countP.mpr fun kind => ?_, all⟩
  have first := ofNumbered.countP_le kind
  have second := ((List.sublist_append_left numbered _).trans part).countP_le (p := kind)
  have third := ((List.take_sublist system.callsMade system.authorization.enqueued).map
    EnqueueCall.frame).countP_le (p := kind)
  have fourth := within.held kind
  omega

/-- Frame `pduNo` of a sender is heard when it should be. -/
def heardOnTime (bytes : List UInt8) (pduNo : UInt8) : SystemStep :=
  .hear ⟨1 + 3000000 * pduNo.toNat, Memory.ofList (bytes.set pduNoOffset pduNo), bytes.length,
    0xA1, fun _ => 0⟩

def handleFiveFrames : List TaskStep :=
  [.waitForEvents, .receivePdus] ++ List.replicate 5 (.nextFrame 7 .zero) ++
    [.receiveKeyFragments] ++ List.replicate 4 (.nextKeyFragment 7) ++
    [.waitForEvents, .processDeferredPdus fun _ _ => 8]

def oneSessionHeard : List SystemStep :=
  ((List.finRange 4).map fun number =>
    heardOnTime (uniformFragmentFrame 1 1 number) (UInt8.ofNat (number.val + 1))) ++
  [heardOnTime [0xFF, 0x08, 0x00, dataCmd, 0, 0, 1, 0, 0x10, 0x42] 5,
    heardOnTime [0xFF, 0x08, 0x00, dataCmd, 0, 0, 1, 0, 0x10, 0x43] 6, .authorize (Fin.last 1)] ++
  List.replicate 5 .enqueueNext ++ handleFiveFrames.map .task

theorem payloads_heard_one_session :
    (handovers (run (systemStep tabulated) (startUpReceiver blankCaches)
      oneSessionHeard).tasks.receiver.sec.log).map Handover.macAddress = [0xA1] ∧
    ∃ frames, frames.Subperm ((heardBy oneSessionHeard).map Hearing.frame) ∧
      List.Forall₂ (fun handover frame => handover.Of tabulated frame)
        (handovers (run (systemStep tabulated) (startUpReceiver blankCaches)
          oneSessionHeard).tasks.receiver.sec.log) frames :=
  ⟨by decide +kernel, payloads_heard tabulated blankCaches oneSessionHeard (by decide +kernel)⟩

end BleBroadcast.Receiver
