import Mathlib.Algebra.BigOperators.Fin
import Mathlib.Algebra.Order.BigOperators.Group.Finset
import BleBroadcast.Lib.EndlessRun
import BleBroadcast.Receiver.KeyProvenance
import BleBroadcast.Receiver.NewPduSignal

/-!
# Does the loop over deferred frames end?

The handler of deferred frames sets its own event again while frames are left.  No frame
arrives and no key is completed any more, but frames may still be in the processing queue
and fragments with the reconstructor.  Frames of the id heard last are put back as long as
their key is missing.  If such a frame waits in a pending record and no new frame is taken
first, the processing task never comes to rest.
-/

set_option autoImplicit false

namespace BleBroadcast.Receiver

open BleBroadcast.Core BleBroadcast.Lib

/-! ## Endless runs of the tasks -/

/-- No frame arrives, and the fragment processed completes no key. -/
def NothingNew (mb : Mbedtls) (tasks : ReceiverTasks) : TaskStep → Prop
  | .enqueuePdu _ _ _ => False
  | .nextKeyFragment _ =>
      ∀ element ∈ tasks.fragmentBatch.head?, (handleKeyFragment mb (some logKeyRecCall)
        (tasks.receiver.reconstructor.keyCollection, []) element).2 = []
  | _ => True

/-- The step is an execution of `handle_event_process_deferred_pdus`. -/
def Executes (tasks : ReceiverTasks) : TaskStep → Prop
  | .processDeferredPdus _ =>
      tasks.events.processDeferredPdus = true ∧ tasks.events.newPdu = false ∧ tasks.pduBatch = []
  | _ => False

instance executesDecidable (tasks : ReceiverTasks) : ∀ step, Decidable (Executes tasks step)
  | .processDeferredPdus _ => inferInstanceAs (Decidable (_ ∧ _ ∧ _ = []))
  | .enqueuePdu _ _ _ => isFalse id
  | .waitForEvents => isFalse id
  | .receivePdus => isFalse id
  | .nextFrame _ _ => isFalse id
  | .receiveKeyFragments => isFalse id
  | .nextKeyFragment _ => isFalse id

/-- An execution sets `EVENT_PROCESS_DEFFERRED_PDUS` again. -/
def setsAgain (mb : Mbedtls) (tasks : ReceiverTasks) : TaskStep → Bool
  | .processDeferredPdus tickCount =>
      (processDeferredAndSignal mb tickCount tasks.receiver.sec).2
  | _ => false

/-- A frame of a sender served was delivered or discarded. -/
def SettlesFrame (before after : SecPduProcessing) : Prop :=
  ∃ index, (before.consumerCollection.arr index).processDeferredQRequestPending = true ∧
    ∃ event ∈ after.log.drop before.log.length,
      handedNumber (before.consumerCollection.arr index).macAddressArr event ≠ none ∨
        droppedNumber (before.consumerCollection.arr index).macAddressArr event ≠ none

instance settlesFrameDecidable (before after : SecPduProcessing) :
    Decidable (SettlesFrame before after) :=
  inferInstanceAs (Decidable (∃ _, _ ∧ ∃ event ∈ _, _))

/-- The handler is executed finitely often, and every execution that sets the event again has
settled a frame. -/
def EndsAlong (mb : Mbedtls) (tasks : ReceiverTasks) (schedule : Nat → TaskStep) : Prop :=
  let reached := stateAt (taskStep mb) tasks schedule
  (countedAt (taskStep mb) Executes tasks schedule).Finite ∧
  ∀ n, Executes (reached n) (schedule n) → setsAgain mb (reached n) (schedule n) = true →
    SettlesFrame (reached n).receiver.sec (reached (n + 1)).receiver.sec

/-- However the two tasks go on and whatever the ticks are, if nothing new comes in. -/
def DeferredLoopEnds (mb : Mbedtls) (tasks : ReceiverTasks) : Prop :=
  ∀ schedule, AlwaysGuarded (taskStep mb) (NothingNew mb) tasks schedule →
    EndsAlong mb tasks schedule

/-! ## When an execution settles a frame -/

/-- Every frame of the id heard last finds its key when its turn comes, after the lookups for
the frames before it. -/
def SettledInTurn (consumer : BleConsumer) : Prop :=
  ∀ before item after, consumer.deferredQueue = before ++ item :: after →
    item.keyId = consumer.lastPduKeyId →
      isKeyInCache (lookedUp consumer.keyCache before) item.keyId.toUInt8 = true

/-- No pending record holds a frame of the id heard last that is put back. -/
def AllSettled (sec : SecPduProcessing) : Prop :=
  ∀ i, (sec.consumerCollection.arr i).processDeferredQRequestPending = true →
    SettledInTurn (sec.consumerCollection.arr i)

/-- Some frame of the next batch is of another id, or finds its key when its turn comes. -/
def SomeSettled (consumer : BleConsumer) : Prop :=
  ∃ before item after, consumer.deferredQueue.take maxProcessedPdusAtOnce =
      before ++ item :: after ∧
    (item.keyId = consumer.lastPduKeyId →
      isKeyInCache (lookedUp consumer.keyCache before) item.keyId.toUInt8 = true)

/-- `EVENT_NEW_PDU` is set again, and frames wait: they come before the next execution. -/
def FramesAhead (tasks : ReceiverTasks) : Prop :=
  tasks.eventGroup.newPdu = true ∧ tasks.receiver.sec.processingQueue ≠ []

/-- In front of an execution no frame is to be put back, or frames are ahead and one that is
served now is settled. -/
def ExecutionSettles (tasks : ReceiverTasks) (step : TaskStep) : Prop :=
  Executes tasks step → AllSettled tasks.receiver.sec ∨
    (FramesAhead tasks ∧ ∃ i,
      (tasks.receiver.sec.consumerCollection.arr i).processDeferredQRequestPending = true ∧
        SomeSettled (tasks.receiver.sec.consumerCollection.arr i))

theorem itemOutcome_ne_putBack {cache : KeyReconstructionCache 5} {lastPduKeyId : UInt16}
    {item : DeferredPdu} :
    itemOutcome cache lastPduKeyId item ≠ .putBack ↔
      (item.keyId = lastPduKeyId → isKeyInCache cache item.keyId.toUInt8 = true) := by
  unfold itemOutcome
  split
  · rename_i found
    exact ⟨fun _ _ => found, fun _ => by decide⟩
  · rename_i missing
    split
    · rename_i heard
      exact ⟨fun differ => absurd rfl differ, fun found => absurd (found heard) missing⟩
    · rename_i other
      exact ⟨fun _ heard => absurd heard other, fun _ => by decide⟩

theorem settledInTurn_iff (consumer : BleConsumer) :
    SettledInTurn consumer ↔ ∀ item ∈ outcomesAlong consumer.lastPduKeyId consumer.keyCache
      consumer.deferredQueue, item.2 ≠ .putBack := by
  constructor
  · intro settled item member
    obtain ⟨before, after, split, outcome⟩ := outcomesAlong_mem member
    rw [outcome]
    exact itemOutcome_ne_putBack.mpr (settled before item.1 after split)
  · intro notBack before item after split
    have member : (item, itemOutcome (lookedUp consumer.keyCache before) consumer.lastPduKeyId
        item) ∈ outcomesAlong consumer.lastPduKeyId consumer.keyCache _ :=
      outcomesAlong_split before item after
    rw [← split] at member
    exact itemOutcome_ne_putBack.mp (notBack _ member)

theorem someSettled_iff (consumer : BleConsumer) :
    SomeSettled consumer ↔ ∃ item ∈ outcomesAlong consumer.lastPduKeyId consumer.keyCache
      (consumer.deferredQueue.take 20), item.2 ≠ .putBack := by
  constructor
  · rintro ⟨before, item, after, split, settled⟩
    have member : (item, itemOutcome (lookedUp consumer.keyCache before) consumer.lastPduKeyId
        item) ∈ outcomesAlong consumer.lastPduKeyId consumer.keyCache _ :=
      outcomesAlong_split before item after
    rw [← split] at member
    exact ⟨_, member, itemOutcome_ne_putBack.mpr settled⟩
  · rintro ⟨item, member, notBack⟩
    obtain ⟨before, after, split, outcome⟩ := outcomesAlong_mem member
    rw [outcome] at notBack
    exact ⟨before, item.1, after, split, itemOutcome_ne_putBack.mp notBack⟩

instance allSettledDecidable (sec : SecPduProcessing) : Decidable (AllSettled sec) :=
  decidable_of_iff (∀ i, (sec.consumerCollection.arr i).processDeferredQRequestPending = true →
      ∀ item ∈ outcomesAlong (sec.consumerCollection.arr i).lastPduKeyId
        (sec.consumerCollection.arr i).keyCache (sec.consumerCollection.arr i).deferredQueue,
        item.2 ≠ .putBack)
    (forall_congr' fun _ => imp_congr_right fun _ => (settledInTurn_iff _).symm)

theorem SettledInTurn.some {consumer : BleConsumer} (settled : SettledInTurn consumer)
    (waits : consumer.deferredQueue ≠ []) : SomeSettled consumer := by
  obtain ⟨item, rest, queue⟩ := List.exists_cons_of_ne_nil waits
  exact ⟨[], item, rest.take 19, by rw [queue]; rfl, settled [] item rest queue⟩

/-! ## A record with a frame that is put back -/

/-- A frame of the id heard last does not find its key when its turn comes. -/
def KeepsFrame (consumer : BleConsumer) : Prop :=
  ∃ before item after, consumer.deferredQueue = before ++ item :: after ∧
    item.keyId = consumer.lastPduKeyId ∧
      isKeyInCache (lookedUp consumer.keyCache before) item.keyId.toUInt8 = false

def SomeKept (sec : SecPduProcessing) : Prop :=
  ∃ i, (sec.consumerCollection.arr i).processDeferredQRequestPending = true ∧
    KeepsFrame (sec.consumerCollection.arr i)

theorem not_settledInTurn_iff (consumer : BleConsumer) :
    ¬ SettledInTurn consumer ↔ KeepsFrame consumer := by
  simp only [SettledInTurn, KeepsFrame, Classical.not_forall, Bool.not_eq_true, exists_prop]

theorem not_allSettled_iff (sec : SecPduProcessing) : ¬ AllSettled sec ↔ SomeKept sec := by
  simp only [AllSettled, SomeKept, Classical.not_forall, exists_prop, not_settledInTurn_iff]

/-- The frame is put back by every pass that takes it, and found by no lookup afterwards. -/
theorem KeepsFrame.passed {consumer next : BleConsumer} (keeps : KeepsFrame consumer)
    (passed : RecordPassed consumer next) : KeepsFrame next := by
  obtain ⟨before, item, after, whole, heard, missing⟩ := keeps
  have heardNext := heard.trans passed.lastPduKeyId.symm
  by_cases behind : 20 ≤ before.length
  · refine ⟨before.drop 20, item, after ++ Ledger.settled .putBack (outcomesAlong
      consumer.lastPduKeyId consumer.keyCache (consumer.deferredQueue.take 20)), ?_, heardNext, ?_⟩
    · rw [passed.queue, whole, List.drop_append_of_le_length behind, List.append_assoc,
        List.cons_append]
    · rw [(passed.cache.lookedUp _).cached, whole, List.take_append_of_le_length behind,
        ← lookedUp_append, List.take_append_drop]
      exact missing
  · obtain ⟨rest, front⟩ : ∃ rest, consumer.deferredQueue.take 20 = before ++ item :: rest := by
      refine ⟨after.take (20 - before.length - 1), ?_⟩
      rw [whole, List.take_append, List.take_of_length_le (by omega), ← Nat.sub_add_cancel
        (by omega : 1 ≤ 20 - before.length), List.take_succ_cons, Nat.add_sub_cancel]
    have isBack : item ∈ Ledger.settled .putBack (outcomesAlong consumer.lastPduKeyId
        consumer.keyCache (consumer.deferredQueue.take 20)) := by
      rw [Ledger.mem_settled, front]
      have outcome : (item, itemOutcome (lookedUp consumer.keyCache before)
          consumer.lastPduKeyId item) ∈ _ := outcomesAlong_split before item rest
      rwa [itemOutcome, if_neg (by simp [missing]), if_pos heard] at outcome
    obtain ⟨earlier, later, split⟩ := List.append_of_mem
      (passed.queue ▸ List.mem_append_right _ isBack : item ∈ next.deferredQueue)
    refine ⟨earlier, item, later, split, heardNext, ?_⟩
    by_contra found
    -- lookups find nothing that an earlier state of the cache did not have
    have inCache := isKeyInCache_of_lookedUp (Bool.eq_true_of_not_eq_false found)
    rw [passed.cache.cached, front, lookedUp_append] at inCache
    rw [isKeyInCache_of_lookedUp inCache] at missing
    contradiction

theorem KeepsFrame.pending {consumer next : BleConsumer} (keeps : KeepsFrame consumer)
    (passed : RecordPassed consumer next) : next.processDeferredQRequestPending = true := by
  obtain ⟨before, item, after, whole, _⟩ := keeps.passed passed
  exact passed.pending.mpr (by simp [whole])

/-! ## The log of an execution -/

/-- The batch of a record in an execution, with what becomes of its frames. -/
def servedBatch (consumer : BleConsumer) : List (DeferredPdu × Outcome) :=
  if consumer.processDeferredQRequestPending then
    outcomesAlong consumer.lastPduKeyId consumer.keyCache (consumer.deferredQueue.take 20)
  else []

theorem processPendingConsumer_log (mb : Mbedtls) (tickCount : Nat → UInt32)
    {sec : SecPduProcessing} {index : Fin 2}
    (counted : Counted (sec.consumerCollection.arr index)) :
    ∃ events, (processPendingConsumer mb tickCount sec index).log = sec.log ++ events ∧
      LogsBatch (sec.consumerCollection.arr index).macAddressArr
        (servedBatch (sec.consumerCollection.arr index)) events := by
  cases pending : (sec.consumerCollection.arr index).processDeferredQRequestPending with
  | false =>
      refine ⟨[], by simp [processPendingConsumer, pending], ?_⟩
      rw [servedBatch, pending]
      exact logsBatch_nil _
  | true =>
      rw [servedBatch, if_pos pending]
      exact (processPendingConsumer_passed mb tickCount counted pending).2

theorem processDeferredAndSignal_log (mb : Mbedtls) (tickCount : Fin 2 → Nat → UInt32)
    {sec : SecPduProcessing} (records : RecordsSound sec.consumerCollection) :
    ∃ events : Fin 2 → List ProcessingEvent,
      (processDeferredAndSignal mb tickCount sec).1.log.drop sec.log.length =
        events 0 ++ events 1 ∧
      ∀ i, LogsBatch (sec.consumerCollection.arr i).macAddressArr
        (servedBatch (sec.consumerCollection.arr i)) (events i) := by
  obtain ⟨result, firstSound, _, other, _⟩ := processDeferredAndSignal_passes mb tickCount records
  obtain ⟨early, firstLog, firstLogs⟩ :=
    processPendingConsumer_log mb (tickCount 0) (records.counted 0)
  obtain ⟨late, secondLog, secondLogs⟩ :=
    processPendingConsumer_log mb (tickCount 1) (firstSound.counted 1)
  rw [other] at secondLogs
  refine ⟨fun i => if i = 0 then early else late, ?_, fun i => ?_⟩
  · rw [result, secondLog, firstLog, List.append_assoc, List.drop_left]
    rfl
  · by_cases here : i = 0
    · subst here
      exact firstLogs
    · obtain rfl := Fin.eq_one_of_ne_zero i here
      exact secondLogs

theorem LogsBatch.settles {mac : EspBdAddr} {batch : List (DeferredPdu × Outcome)}
    {events : List ProcessingEvent} (logs : LogsBatch mac batch events)
    {item : DeferredPdu × Outcome} (member : item ∈ batch) (notBack : item.2 ≠ .putBack) :
    ∃ event ∈ events, handedNumber mac event ≠ none ∨ droppedNumber mac event ≠ none := by
  obtain ⟨item, outcome⟩ := item
  cases outcome with
  | handOver =>
      have handed : item.arrival ∈ events.filterMap (handedNumber mac) := by
        rw [logs.handed]
        exact List.mem_map_of_mem (Ledger.mem_settled.mpr member)
      obtain ⟨event, isLogged, number⟩ := List.mem_filterMap.mp handed
      exact ⟨event, isLogged, Or.inl (by simp [number])⟩
  | drop =>
      have dropped : item.arrival ∈ events.filterMap (droppedNumber mac) := by
        rw [logs.dropped]
        exact List.mem_map_of_mem (Ledger.mem_settled.mpr member)
      obtain ⟨event, isLogged, number⟩ := List.mem_filterMap.mp dropped
      exact ⟨event, isLogged, Or.inr (by simp [number])⟩
  | putBack => exact absurd rfl notBack

theorem LogsBatch.silent {mac : EspBdAddr} {batch : List (DeferredPdu × Outcome)}
    {events : List ProcessingEvent} (logs : LogsBatch mac batch events)
    (back : ∀ item ∈ batch, item.2 = .putBack) (sender : EspBdAddr) {event : ProcessingEvent}
    (member : event ∈ events) :
    handedNumber sender event = none ∧ droppedNumber sender event = none := by
  have none : ∀ outcome, outcome ≠ .putBack → Ledger.settled outcome batch = [] := by
    intro outcome notBack
    rw [List.eq_nil_iff_forall_not_mem]
    exact fun item isSettled => notBack (back _ (Ledger.mem_settled.mp isSettled))
  have silent : events.filterMap (handedNumber sender) = [] ∧
      events.filterMap (droppedNumber sender) = [] := by
    by_cases own : sender = mac
    · rw [own, logs.handed, logs.dropped, none _ (by decide), none _ (by decide)]
      exact ⟨rfl, rfl⟩
    · have same := logs.others sender own [] []
      simp only [ledgerOf, List.nil_append, List.filterMap_nil, Ledger.mk.injEq] at same
      exact ⟨same.2.1, same.2.2.2.1⟩
  exact ⟨List.filterMap_eq_nil_iff.mp silent.1 event member,
    List.filterMap_eq_nil_iff.mp silent.2 event member⟩

/-- An execution settles a frame exactly if a batch that it serves is not all put back. -/
theorem settlesFrame_iff (mb : Mbedtls) (tickCount : Fin 2 → Nat → UInt32)
    {sec : SecPduProcessing} (records : RecordsSound sec.consumerCollection) :
    SettlesFrame sec (processDeferredAndSignal mb tickCount sec).1 ↔
      ∃ i, (sec.consumerCollection.arr i).processDeferredQRequestPending = true ∧
        SomeSettled (sec.consumerCollection.arr i) := by
  obtain ⟨events, logged, logs⟩ := processDeferredAndSignal_log mb tickCount records
  have served : ∀ i, (∃ item ∈ servedBatch (sec.consumerCollection.arr i), item.2 ≠ .putBack) ↔
      (sec.consumerCollection.arr i).processDeferredQRequestPending = true ∧
        SomeSettled (sec.consumerCollection.arr i) := by
    intro i
    rw [servedBatch, someSettled_iff]
    split <;> simp_all
  constructor
  · rintro ⟨i, _, event, isLogged, settled⟩
    rw [logged, List.mem_append] at isLogged
    obtain ⟨j, member⟩ : ∃ j, event ∈ events j :=
      isLogged.elim (fun early => ⟨0, early⟩) fun late => ⟨1, late⟩
    refine ⟨j, (served j).mp ?_⟩
    by_contra allBack
    push Not at allBack
    obtain ⟨notHanded, notDropped⟩ :=
      (logs j).silent allBack (sec.consumerCollection.arr i).macAddressArr member
    rcases settled with handed | dropped
    · contradiction
    · contradiction
  · rintro ⟨i, pending, some⟩
    obtain ⟨item, inBatch, notBack⟩ := (served i).mpr ⟨pending, some⟩
    obtain ⟨event, member, settled⟩ := (logs i).settles inBatch notBack
    refine ⟨i, pending, event, ?_, settled⟩
    rw [logged, List.mem_append]
    by_cases here : i = 0
    · exact Or.inl (here ▸ member)
    · exact Or.inr (Fin.eq_one_of_ne_zero i here ▸ member)

/-! ## The measure of the loop -/

def deferredFrames (collection : BleConsumerCollection) : Nat :=
  ∑ i, (collection.arr i).deferredQueue.length

theorem deferredFrames_setConsumer (collection : BleConsumerCollection) (index : Fin 2)
    {consumer : BleConsumer} (more : Nat)
    (queue : consumer.deferredQueue.length ≤
      (collection.arr index).deferredQueue.length + more) :
    deferredFrames (setConsumer collection index consumer) ≤ deferredFrames collection + more := by
  simp only [deferredFrames, setConsumer, Fin.sum_univ_two]
  by_cases here : index = 0
  · subst here
    rw [Function.update_self, Function.update_of_ne (by decide)]
    omega
  · obtain rfl := Fin.eq_one_of_ne_zero index here
    rw [Function.update_self, Function.update_of_ne (by decide)]
    omega

theorem consumerForFrame_deferredFrames (collection : BleConsumerCollection) (mac : EspBdAddr)
    (tickCount : UInt32) :
    deferredFrames (consumerForFrame collection mac tickCount).2 ≤ deferredFrames collection := by
  obtain ⟨index, _, result⟩ | ⟨_, index, _, result⟩ | ⟨_, result⟩ :=
    consumerForFrame_cases collection mac tickCount
  · rw [result]
    exact deferredFrames_setConsumer collection index 0 (Nat.le_refl _)
  · rw [result]
    exact deferredFrames_setConsumer collection index 0 (Nat.zero_le _)
  · rw [result]

theorem handleDataPdu_length (mb : Mbedtls) (tickCount : UInt32) (consumer : BleConsumer)
    (mac : EspBdAddr) (pdu : BeaconPduData) (number : Nat) :
    (handleDataPdu mb tickCount consumer mac pdu number).1.deferredQueue.length ≤
      consumer.deferredQueue.length + 1 := by
  simp only [handleDataPdu, hearKeyId]
  split
  · exact Nat.le_succ _
  · simp only [addToDeferredQueue]
    split
    · rw [List.length_append, List.length_singleton]
    · exact Nat.le_succ _

theorem handleNewFrame_deferredFrames (mb : Mbedtls) (tickCount : UInt32) (stack : BeaconPduData)
    (receiver : ReceiverState) (frame : BeaconPduDataWithMacAddr) :
    deferredFrames (handleNewFrame mb tickCount stack receiver frame).sec.consumerCollection ≤
      deferredFrames receiver.sec.consumerCollection + 1 := by
  have looked := consumerForFrame_deferredFrames receiver.sec.consumerCollection frame.macAddress
    tickCount
  simp only [handleNewFrame]
  generalize consumerForFrame receiver.sec.consumerCollection frame.macAddress tickCount = claimed
    at looked ⊢
  obtain ⟨found, collection⟩ := claimed
  cases found with
  | none => exact Nat.le_succ_of_le looked
  | some index =>
      have oneMore : ∀ consumer : BleConsumer, consumer.deferredQueue.length ≤
          (collection.arr index).deferredQueue.length + 1 →
          deferredFrames (setConsumer collection index consumer) ≤
            deferredFrames receiver.sec.consumerCollection + 1 :=
        fun consumer queue => Nat.le_trans (deferredFrames_setConsumer collection index 1 queue)
          (Nat.add_le_add_right looked 1)
      simp only
      split
      · exact oneMore _ (handleDataPdu_length mb tickCount _ _ _ _)
      · split
        · exact oneMore _ (Nat.le_succ _)
        · exact Nat.le_succ_of_le looked

theorem RecordPassed.length_le {consumer next : BleConsumer}
    (passed : RecordPassed consumer next) :
    next.deferredQueue.length ≤ consumer.deferredQueue.length ∧
      (SomeSettled consumer → next.deferredQueue.length < consumer.deferredQueue.length) := by
  have batch : (outcomesAlong consumer.lastPduKeyId consumer.keyCache
      (consumer.deferredQueue.take 20)).length = (consumer.deferredQueue.take 20).length := by
    rw [← List.length_map Prod.fst, outcomesAlong_fst]
  have whole : (consumer.deferredQueue.drop 20).length +
      (consumer.deferredQueue.take 20).length = consumer.deferredQueue.length := by
    rw [Nat.add_comm, ← List.length_append, List.take_append_drop]
  rw [passed.queue, List.length_append, Ledger.settled, List.length_map]
  refine ⟨?_, fun some => ?_⟩
  · have fewer := List.length_filter_le (fun item => item.2 = Outcome.putBack)
      (outcomesAlong consumer.lastPduKeyId consumer.keyCache (consumer.deferredQueue.take 20))
    omega
  · obtain ⟨item, member, notBack⟩ := (someSettled_iff consumer).mp some
    have fewer := (List.length_filter_lt_length_iff_exists
      (p := fun item => item.2 = Outcome.putBack)).mpr ⟨item, member, by simpa using notBack⟩
    omega

def workLeft (tasks : ReceiverTasks) : Nat :=
  deferredFrames tasks.receiver.sec.consumerCollection +
    tasks.receiver.sec.processingQueue.length + tasks.pduBatch.length +
    tasks.eventGroup.processDeferredPdus.toNat + tasks.events.processDeferredPdus.toNat

theorem handleNextKeyFragment_quiet (mb : Mbedtls) (tickCount : UInt32) {tasks : ReceiverTasks}
    (nothing : NothingNew mb tasks (.nextKeyFragment tickCount)) :
    workLeft (handleNextKeyFragment mb tickCount tasks) = workLeft tasks := by
  cases batch : tasks.fragmentBatch with
  | nil => simp only [handleNextKeyFragment, batch]
  | cons element rest =>
      have noCall := nothing element (by rw [batch]; rfl)
      have result : (handleKeyFragment mb (some (completeAndSignal tickCount))
          (tasks.receiver.reconstructor.keyCollection, tasks.receiver.sec, false) element).2 =
            (tasks.receiver.sec, false) := by
        rw [handleKeyFragment_calls, noCall]
        rfl
      simp only [handleNextKeyFragment, batch, workLeft, result, Bool.or_false]

theorem taskStep_workLeft (mb : Mbedtls) {tasks : ReceiverTasks} {step : TaskStep}
    (nothing : NothingNew mb tasks step) (other : ¬ Executes tasks step) :
    workLeft (taskStep mb tasks step) ≤ workLeft tasks := by
  cases step with
  | enqueuePdu data size mac => exact absurd nothing id
  | waitForEvents =>
      simp only [taskStep, waitForEvents]
      split
      · exact Nat.le_refl _
      · rename_i waits
        have noEvent : tasks.events.processDeferredPdus = false := by
          simp only [Bool.or_eq_true, not_or, Bool.not_eq_true] at waits
          exact waits.1.2
        simp only [workLeft, EventBits.none, noEvent, Bool.toNat_false]
        omega
  | receivePdus =>
      simp only [taskStep, receivePdus]
      split
      · simp only [workLeft, List.length_drop, List.length_take]
        omega
      · exact Nat.le_refl _
  | nextFrame tickCount stack =>
      cases batch : tasks.pduBatch with
      | nil => simp only [taskStep, handleNextFrame, batch, Nat.le_refl]
      | cons frame rest =>
          have deferred := handleNewFrame_deferredFrames mb tickCount stack tasks.receiver frame
          have same := (handleNewFrame_sameRecords mb tickCount stack tasks.receiver
            frame).processingQueue
          simp only at same
          simp only [taskStep, handleNextFrame, batch, workLeft, same, List.length_cons]
          omega
  | processDeferredPdus tickCount =>
      have notDue : taskStep mb tasks (.processDeferredPdus tickCount) = tasks := by
        refine if_neg fun due => other ?_
        simpa [Executes, and_assoc] using due
      rw [notDue]
  | receiveKeyFragments =>
      simp only [taskStep, receiveKeyFragments]
      split <;> exact Nat.le_refl _
  | nextKeyFragment tickCount =>
      have same := handleNextKeyFragment_quiet mb tickCount nothing
      simp only [taskStep, same, Nat.le_refl]

/-! ## An execution that settles a frame if it sets the event again -/

theorem taskStep_executes (mb : Mbedtls) {tickCount : Fin 2 → Nat → UInt32}
    {tasks : ReceiverTasks} (executes : Executes tasks (.processDeferredPdus tickCount)) :
    taskStep mb tasks (.processDeferredPdus tickCount) =
      { tasks with
        receiver := { tasks.receiver with
          sec := (processDeferredAndSignal mb tickCount tasks.receiver.sec).1 }
        eventGroup := { tasks.eventGroup with
          processDeferredPdus := tasks.eventGroup.processDeferredPdus ||
            (processDeferredAndSignal mb tickCount tasks.receiver.sec).2 }
        events := { tasks.events with processDeferredPdus := false } } := by
  obtain ⟨due, taken, idle⟩ := executes
  exact if_pos (by simp [due, taken, idle])

theorem processDeferredAndSignal_deferredFrames (mb : Mbedtls)
    (tickCount : Fin 2 → Nat → UInt32) {sec : SecPduProcessing}
    (records : RecordsSound sec.consumerCollection) :
    let next := (processDeferredAndSignal mb tickCount sec).1
    deferredFrames next.consumerCollection ≤ deferredFrames sec.consumerCollection ∧
      (SettlesFrame sec next →
        deferredFrames next.consumerCollection < deferredFrames sec.consumerCollection) := by
  intro next
  have shorter : ∀ i, (next.consumerCollection.arr i).deferredQueue.length ≤
      (sec.consumerCollection.arr i).deferredQueue.length := by
    intro i
    obtain ⟨_, same⟩ | ⟨_, passed⟩ := processDeferredAndSignal_record mb tickCount records i
    · rw [same]
    · exact passed.length_le.1
  refine ⟨Finset.sum_le_sum fun i _ => shorter i, fun settles => ?_⟩
  obtain ⟨i, pending, some⟩ := (settlesFrame_iff mb tickCount records).mp settles
  have passed := processDeferredAndSignal_passed mb tickCount records pending
  exact Finset.sum_lt_sum (fun j _ => shorter j)
    ⟨i, Finset.mem_univ i, passed.length_le.2 some⟩

/-- Frames that are left although none was to be put back were behind a batch. -/
theorem AllSettled.settles (mb : Mbedtls) (tickCount : Fin 2 → Nat → UInt32)
    {sec : SecPduProcessing} (records : RecordsSound sec.consumerCollection)
    (settled : AllSettled sec) (again : (processDeferredAndSignal mb tickCount sec).2 = true) :
    SettlesFrame sec (processDeferredAndSignal mb tickCount sec).1 := by
  obtain ⟨i, pending⟩ := (processDeferredAndSignal_snd mb tickCount records).mp again
  obtain ⟨notPending, same⟩ | ⟨wasPending, passed⟩ :=
    processDeferredAndSignal_record mb tickCount records i
  · rw [same, notPending] at pending
    contradiction
  · have waits : (sec.consumerCollection.arr i).deferredQueue ≠ [] := by
      intro empty
      have left := passed.pending.mp pending
      rw [passed.queue, empty] at left
      exact left rfl
    exact (settlesFrame_iff mb tickCount records).mpr
      ⟨i, wasPending, (settled i wasPending).some waits⟩

theorem ExecutionSettles.progress (mb : Mbedtls) {tasks : ReceiverTasks} {step : TaskStep}
    (records : RecordsSound tasks.receiver.sec.consumerCollection)
    (settles : ExecutionSettles tasks step) (executes : Executes tasks step) :
    workLeft (taskStep mb tasks step) < workLeft tasks ∧
      (setsAgain mb tasks step = true →
        SettlesFrame tasks.receiver.sec (taskStep mb tasks step).receiver.sec) := by
  cases step with
  | processDeferredPdus tickCount =>
      have settlesFrame :
          (processDeferredAndSignal mb tickCount tasks.receiver.sec).2 = true →
            SettlesFrame tasks.receiver.sec
              (processDeferredAndSignal mb tickCount tasks.receiver.sec).1 := by
        intro again
        rcases settles executes with settled | ⟨_, someSettled⟩
        · exact settled.settles mb tickCount records again
        · exact (settlesFrame_iff mb tickCount records).mpr someSettled
      obtain ⟨fewer, less⟩ := processDeferredAndSignal_deferredFrames mb tickCount records
      have queue := processDeferredAndSignal_queue mb tickCount tasks.receiver.sec
      rw [taskStep_executes mb executes]
      refine ⟨?_, settlesFrame⟩
      simp only [workLeft, queue, executes.1, Bool.toNat_true, Bool.toNat_false]
      -- the event handled is one bit less, and a bit set again costs a frame
      cases again : (processDeferredAndSignal mb tickCount tasks.receiver.sec).2 with
      | false =>
          rw [Bool.or_false]
          omega
      | true =>
          have frameLess := less (settlesFrame again)
          rw [Bool.or_true, Bool.toNat_true]
          omega
  | _ => exact absurd executes id

abbrev TasksSound (tasks : ReceiverTasks) : Prop :=
  RecordsSound tasks.receiver.sec.consumerCollection

theorem stateAt_sound (mb : Mbedtls) {tasks : ReceiverTasks} (sound : TasksSound tasks)
    (schedule : Nat → TaskStep) (n : Nat) :
    TasksSound (stateAt (taskStep mb) tasks schedule n) := by
  induction n with
  | zero => exact sound
  | succ n ih => exact taskStep_records mb (schedule n) ih

/-- A step of a run that meets the condition. -/
structure EndingStep (mb : Mbedtls) (tasks : ReceiverTasks) (step : TaskStep) : Prop where
  nothing : NothingNew mb tasks step
  settles : ExecutionSettles tasks step

theorem EndingStep.workLeft_le {mb : Mbedtls} {tasks : ReceiverTasks} {step : TaskStep}
    (ending : EndingStep mb tasks step) (sound : TasksSound tasks) :
    workLeft (taskStep mb tasks step) ≤ workLeft tasks := by
  by_cases executes : Executes tasks step
  · exact Nat.le_of_lt (ending.settles.progress mb sound executes).1
  · exact taskStep_workLeft mb ending.nothing executes

theorem endsAlong_of_settles (mb : Mbedtls) {tasks : ReceiverTasks} (sound : TasksSound tasks)
    {schedule : Nat → TaskStep}
    (nothing : AlwaysGuarded (taskStep mb) (NothingNew mb) tasks schedule)
    (settles : AlwaysGuarded (taskStep mb) ExecutionSettles tasks schedule) :
    EndsAlong mb tasks schedule := by
  have ending : AlwaysGuarded (taskStep mb) (EndingStep mb) tasks schedule :=
    fun n => ⟨nothing n, settles n⟩
  constructor
  · apply AlwaysGuarded.finite workLeft _ _ _ sound ending
    · exact fun _ step sound _ => taskStep_records mb step sound
    · exact fun _ _ sound ending => ending.workLeft_le sound
    · exact fun _ _ sound ending executes => (ending.settles.progress mb sound executes).1
  · intro n executes
    exact ((settles n).progress mb (stateAt_sound mb sound schedule n) executes).2

/-! ## A loop that goes on for ever -/

/-- An execution is due, a frame is put back by it, and no frame is taken before the next. -/
structure Spins (tasks : ReceiverTasks) : Prop where
  records : RecordsSound tasks.receiver.sec.consumerCollection
  due : tasks.events.processDeferredPdus = true
  taken : tasks.events.newPdu = false
  idle : tasks.pduBatch = []
  alone : ¬ FramesAhead tasks
  keeps : SomeKept tasks.receiver.sec

/-- An execution, the next wait and the frames it has announced, of which there are none. -/
def spinning (n : Nat) : TaskStep :=
  if n % 3 = 0 then .processDeferredPdus fun _ _ => 0
  else if n % 3 = 1 then .waitForEvents
  else .receivePdus

theorem processDeferredAndSignal_keeps (mb : Mbedtls) (tickCount : Fin 2 → Nat → UInt32)
    {sec : SecPduProcessing} (records : RecordsSound sec.consumerCollection)
    (keeps : SomeKept sec) :
    (processDeferredAndSignal mb tickCount sec).2 = true ∧
      SomeKept (processDeferredAndSignal mb tickCount sec).1 := by
  obtain ⟨i, pending, keepsFrame⟩ := keeps
  have passed := processDeferredAndSignal_passed mb tickCount records pending
  have again := keepsFrame.pending passed
  exact ⟨(processDeferredAndSignal_snd mb tickCount records).mpr ⟨i, again⟩,
    i, again, keepsFrame.passed passed⟩

theorem Spins.round (mb : Mbedtls) {tasks : ReceiverTasks} (spins : Spins tasks) :
    Spins (taskStep mb (taskStep mb (taskStep mb tasks (.processDeferredPdus fun _ _ => 0))
      .waitForEvents) .receivePdus) := by
  obtain ⟨again, keeps⟩ := processDeferredAndSignal_keeps mb (fun _ _ => 0) spins.records
    spins.keeps
  have records := (processDeferredAndSignal_passes mb (fun _ _ => 0) spins.records).2.2.1
  have queue := processDeferredAndSignal_queue mb (fun _ _ => 0) tasks.receiver.sec
  have none : tasks.eventGroup.newPdu = true → tasks.receiver.sec.processingQueue = [] :=
    fun announced => of_not_not fun waits => spins.alone ⟨announced, waits⟩
  rw [taskStep_executes mb ⟨spins.due, spins.taken, spins.idle⟩]
  cases announced : tasks.eventGroup.newPdu with
  | false =>
      simp only [taskStep, waitForEvents, spins.taken, spins.idle, again, announced, receivePdus,
        Bool.or_false, Bool.or_true, List.isEmpty_nil, Bool.not_true, Bool.false_eq_true, if_false]
      exact ⟨records, rfl, rfl, rfl, fun ahead => Bool.false_ne_true ahead.1, keeps⟩
  | true =>
      simp only [taskStep, waitForEvents, spins.taken, spins.idle, again, announced, receivePdus,
        Bool.or_false, Bool.or_true, List.isEmpty_nil, Bool.not_true, Bool.false_eq_true, if_false,
        if_true]
      refine ⟨records, rfl, rfl, ?_, fun ahead => Bool.false_ne_true ahead.1, keeps⟩
      simp only [queue, none announced, List.take_nil]

theorem Spins.stateAt (mb : Mbedtls) {tasks : ReceiverTasks} (spins : Spins tasks) (n : Nat) :
    Spins (stateAt (taskStep mb) tasks spinning (3 * n)) := by
  induction n with
  | zero => exact spins
  | succ n ih =>
      have first : spinning (3 * n) = .processDeferredPdus fun _ _ => 0 :=
        if_pos (by omega)
      have second : spinning (3 * n + 1) = .waitForEvents := by
        rw [spinning, if_neg (by omega), if_pos (by omega)]
      have third : spinning (3 * n + 2) = .receivePdus := by
        rw [spinning, if_neg (by omega), if_neg (by omega)]
      have round := ih.round mb
      rw [← first, ← second, ← third] at round
      exact round

theorem Spins.infinite (mb : Mbedtls) {tasks : ReceiverTasks} (spins : Spins tasks) :
    AlwaysGuarded (taskStep mb) (NothingNew mb) tasks spinning ∧
      (countedAt (taskStep mb) Executes tasks spinning).Infinite := by
  constructor
  · intro n
    simp only [spinning]
    split
    · trivial
    · split <;> trivial
  · have apart : Function.Injective fun n : Nat => 3 * n := fun _ _ same => by
      simpa using same
    refine Set.infinite_of_injective_forall_mem apart fun n => ?_
    have there := spins.stateAt mb n
    have step : spinning (3 * n) = .processDeferredPdus fun _ _ => 0 := if_pos (by omega)
    show Executes _ (spinning (3 * n))
    rw [step]
    exact ⟨there.due, there.taken, there.idle⟩

/-- Where an execution does not meet the condition, it makes no progress itself, or the tasks
can go on from there for ever. -/
theorem DeferredLoopEnds.settles (mb : Mbedtls) {tasks : ReceiverTasks}
    (sound : TasksSound tasks) (ends : DeferredLoopEnds mb tasks) {schedule : Nat → TaskStep}
    (nothing : AlwaysGuarded (taskStep mb) (NothingNew mb) tasks schedule) :
    AlwaysGuarded (taskStep mb) ExecutionSettles tasks schedule := by
  intro n executes
  have recordsAt := stateAt_sound mb sound schedule n
  generalize reached : stateAt (taskStep mb) tasks schedule n = tasksAt at executes recordsAt ⊢
  by_contra fails
  obtain ⟨notSettled, notAhead⟩ := not_or.mp fails
  have keeps := (not_allSettled_iff _).mp notSettled
  cases isStep : schedule n with
  | processDeferredPdus tickCount =>
      rw [isStep] at executes
      by_cases ahead : FramesAhead tasksAt
      · -- the execution itself settles nothing and sets the event again
        have again := (processDeferredAndSignal_keeps mb tickCount recordsAt keeps).1
        have settles := (ends schedule nothing).2 n (by rw [reached, isStep]; exact executes)
          (by rw [reached, isStep]; exact again)
        rw [Lib.stateAt, reached, isStep, taskStep_executes mb executes] at settles
        exact notAhead ⟨ahead, (settlesFrame_iff mb tickCount recordsAt).mp settles⟩
      · have spins : Spins tasksAt :=
          ⟨recordsAt, executes.1, executes.2.1, executes.2.2, ahead, keeps⟩
        obtain ⟨quiet, infinite⟩ := spins.infinite mb
        rw [← reached] at quiet infinite
        exact infinite_switchAt infinite (ends _ (nothing.switchAt quiet)).1
  | _ =>
      rw [isStep] at executes
      exact executes

/-- The task comes to rest and makes progress until then, in every run in which each
execution of `handle_event_process_deferred_pdus` meets the condition.  From a reachable state
every run does so exactly if every run meets the condition. -/
theorem deferred_loop_ends_iff (mb : Mbedtls) (garbage : Fin 2 → Fin 5 → KeyReconstructionMap)
    (steps : List TaskStep) :
    let tasks := run (taskStep mb) (startUpTasks garbage) steps
    (∀ schedule, AlwaysGuarded (taskStep mb) (NothingNew mb) tasks schedule →
      AlwaysGuarded (taskStep mb) ExecutionSettles tasks schedule →
        EndsAlong mb tasks schedule) ∧
    (DeferredLoopEnds mb tasks ↔
      ∀ schedule, AlwaysGuarded (taskStep mb) (NothingNew mb) tasks schedule →
        AlwaysGuarded (taskStep mb) ExecutionSettles tasks schedule) := by
  intro tasks
  have records : RecordsSound tasks.receiver.sec.consumerCollection := run_records mb garbage steps
  have forward : ∀ schedule, AlwaysGuarded (taskStep mb) (NothingNew mb) tasks schedule →
      AlwaysGuarded (taskStep mb) ExecutionSettles tasks schedule →
        EndsAlong mb tasks schedule :=
    fun _ nothing settles => endsAlong_of_settles mb records nothing settles
  refine ⟨forward, fun ends schedule nothing => ?_, fun settles schedule nothing => ?_⟩
  · exact ends.settles mb records nothing
  · exact forward schedule nothing (settles schedule nothing)

/-! ## A loop that ends and one that does not -/

/-- The fragments of session 1 and a DATA frame arrive, and the key of session 1 is
reconstructed. -/
def keyOfSessionOne (dataKeyId : UInt8) : List TaskStep :=
  (List.finRange 4).map (fun number => .enqueuePdu
      (Memory.ofList (uniformFragmentFrame 1 1 number)) keyPduSize 0xA1) ++
    [.enqueuePdu (Memory.ofList [0xFF, 0x08, 0x00, dataCmd, 0, 0, dataKeyId, 0, 0x10, 0x42]) 10
        0xA1, .waitForEvents, .receivePdus] ++ List.replicate 5 (.nextFrame 7 .zero) ++
    [.receiveKeyFragments] ++ List.replicate 4 (.nextKeyFragment 7)

def handlingDeferred (n : Nat) : TaskStep :=
  if n = 0 then .waitForEvents else .processDeferredPdus fun _ _ => 8

theorem handlingDeferred_nothingNew (mb : Mbedtls) (tasks : ReceiverTasks) :
    AlwaysGuarded (taskStep mb) (NothingNew mb) tasks handlingDeferred := by
  intro n
  unfold handlingDeferred
  split <;> trivial

/-- Once the execution has handled the event, there is no other one. -/
theorem handlingDeferred_once (mb : Mbedtls) {tasks : ReceiverTasks}
    (handled : (stateAt (taskStep mb) tasks handlingDeferred 2).events.processDeferredPdus =
      false) {n : Nat}
    (executes : Executes (stateAt (taskStep mb) tasks handlingDeferred n) (handlingDeferred n)) :
    n = 1 := by
  have idle : ∀ later, (stateAt (taskStep mb) tasks handlingDeferred
      (later + 2)).events.processDeferredPdus = false := by
    intro later
    induction later with
    | zero => exact handled
    | succ later ih =>
        rw [show later + 1 + 2 = (later + 2) + 1 from rfl, stateAt]
        generalize stateAt (taskStep mb) tasks handlingDeferred (later + 2) = reached at ih ⊢
        simp only [handlingDeferred, Nat.add_eq_zero_iff, OfNat.ofNat_ne_zero, and_false,
          if_false, taskStep, handleDeferredEvent, ih, Bool.false_and, Bool.false_eq_true]
  rcases n with _ | _ | later
  · exact absurd executes id
  · rfl
  · have due := executes.1
    rw [idle later] at due
    contradiction

/-- A DATA frame of session 1 is handed over by the one execution that the key asks for. -/
theorem deferred_loop_ends_session_one :
    let tasks := run (taskStep tabulated) (startUpTasks blankCaches) (keyOfSessionOne 1)
    Executes (stateAt (taskStep tabulated) tasks handlingDeferred 1) (handlingDeferred 1) ∧
      EndsAlong tabulated tasks handlingDeferred := by
  intro tasks
  refine ⟨by decide +kernel, (deferred_loop_ends_iff tabulated blankCaches (keyOfSessionOne 1)).1
    handlingDeferred (handlingDeferred_nothingNew tabulated _) fun n executes => ?_⟩
  obtain rfl := handlingDeferred_once tabulated (by decide +kernel) executes
  exact Or.inl (by decide +kernel)

/-- The frame of session 2 is put back by the first execution, which settles nothing and
sets the event again. -/
theorem deferred_loop_spins :
    ¬ ∀ (mb : Mbedtls) (garbage : Fin 2 → Fin 5 → KeyReconstructionMap) (steps : List TaskStep),
      DeferredLoopEnds mb (run (taskStep mb) (startUpTasks garbage) steps) := by
  intro always
  have ends := always tabulated blankCaches (keyOfSessionOne 2) handlingDeferred
    (handlingDeferred_nothingNew tabulated _)
  have progress := ends.2 1
  revert progress
  decide +kernel

end BleBroadcast.Receiver
