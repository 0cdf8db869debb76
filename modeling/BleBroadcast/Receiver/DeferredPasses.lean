import BleBroadcast.Receiver.CacheLookups
import BleBroadcast.Receiver.DeferralRefinement

/-!
# What a pass over a deferred queue changes

A pass changes the queue and its counter, and makes lookups in the cache; the rest of
the record stays.  Which items a pass puts back depends on the cache only through the
lookups made before each of them, so the outcomes of many passes can be read off
the queue as it was before the first.
-/

set_option autoImplicit false

namespace BleBroadcast.Receiver

open BleBroadcast.Core BleBroadcast.Lib

/-! ## Lookups of the ids of items -/

/-- The cache after a lookup of the id of each item, in their order. -/
def lookedUp (cache : KeyReconstructionCache 5) (items : List DeferredPdu) :
    KeyReconstructionCache 5 :=
  items.foldl (fun cache item => (getKeyFromCache cache item.keyId.toUInt8 0).2) cache

@[simp] theorem lookedUp_nil (cache : KeyReconstructionCache 5) : lookedUp cache [] = cache := rfl

@[simp] theorem lookedUp_cons (cache : KeyReconstructionCache 5) (item : DeferredPdu)
    (rest : List DeferredPdu) :
    lookedUp cache (item :: rest) =
      lookedUp (getKeyFromCache cache item.keyId.toUInt8 0).2 rest := rfl

theorem lookedUp_append (cache : KeyReconstructionCache 5) (first second : List DeferredPdu) :
    lookedUp cache (first ++ second) = lookedUp (lookedUp cache first) second := by
  simp [lookedUp, List.foldl_append]

theorem SameLookups.lookedUp {first second : KeyReconstructionCache 5}
    (same : SameLookups first second) (items : List DeferredPdu) :
    SameLookups (lookedUp first items) (lookedUp second items) := by
  induction items generalizing first second with
  | nil => exact same
  | cons item rest ih => exact ih (same.lookup _ _ _)

theorem isKeyInCache_of_lookedUp {items : List DeferredPdu} {keyId : UInt8} :
    ∀ {cache : KeyReconstructionCache 5},
      isKeyInCache (lookedUp cache items) keyId = true → isKeyInCache cache keyId = true := by
  induction items with
  | nil => exact id
  | cons item rest ih => exact fun cached => isKeyInCache_of_lookup (ih cached)

/-- The items with their outcomes, each after the lookups of those before it. -/
def outcomesAlong (lastPduKeyId : UInt16) :
    KeyReconstructionCache 5 → List DeferredPdu → List (DeferredPdu × Outcome)
  | _, [] => []
  | cache, item :: rest =>
      (item, itemOutcome cache lastPduKeyId item) ::
        outcomesAlong lastPduKeyId (getKeyFromCache cache item.keyId.toUInt8 0).2 rest

theorem SameLookups.itemOutcome {first second : KeyReconstructionCache 5}
    (same : SameLookups first second) (lastPduKeyId : UInt16) (item : DeferredPdu) :
    itemOutcome first lastPduKeyId item = itemOutcome second lastPduKeyId item := by
  simp only [Receiver.itemOutcome, same.cached]

theorem SameLookups.outcomesAlong {first second : KeyReconstructionCache 5}
    (same : SameLookups first second) (lastPduKeyId : UInt16) (items : List DeferredPdu) :
    outcomesAlong lastPduKeyId first items = outcomesAlong lastPduKeyId second items := by
  induction items generalizing first second with
  | nil => rfl
  | cons item rest ih =>
      have next := ih (same.lookup item.keyId.toUInt8 0 0)
      simp only [Receiver.outcomesAlong, same.itemOutcome lastPduKeyId item, next]

theorem outcomesAlong_fst (lastPduKeyId : UInt16) (cache : KeyReconstructionCache 5)
    (items : List DeferredPdu) : (outcomesAlong lastPduKeyId cache items).map Prod.fst = items := by
  induction items generalizing cache with
  | nil => rfl
  | cons item rest ih => rw [outcomesAlong, List.map_cons, ih]

theorem outcomesAlong_split {lastPduKeyId : UInt16} {cache : KeyReconstructionCache 5}
    (before : List DeferredPdu) (item : DeferredPdu) (after : List DeferredPdu) :
    (item, itemOutcome (lookedUp cache before) lastPduKeyId item) ∈
      outcomesAlong lastPduKeyId cache (before ++ item :: after) := by
  induction before generalizing cache with
  | nil => exact List.mem_cons_self
  | cons first rest ih => exact List.mem_cons_of_mem _ ih

theorem outcomesAlong_mem {lastPduKeyId : UInt16} {items : List DeferredPdu}
    {settled : DeferredPdu × Outcome} :
    ∀ {cache : KeyReconstructionCache 5}, settled ∈ outcomesAlong lastPduKeyId cache items →
      ∃ before after, items = before ++ settled.1 :: after ∧
        settled.2 = itemOutcome (lookedUp cache before) lastPduKeyId settled.1 := by
  induction items with
  | nil => exact fun member => absurd member List.not_mem_nil
  | cons first rest ih =>
      intro cache member
      rcases List.mem_cons.mp member with rfl | later
      · exact ⟨[], rest, rfl, rfl⟩
      · obtain ⟨before, after, split, outcome⟩ := ih later
        exact ⟨first :: before, after, by rw [split, List.cons_append], outcome⟩

/-- The lookups of a batch leave out a repeated id and use other ticks; the outcomes are
the same. -/
theorem batchOutcomes_eq (tickCount : Nat → UInt32) (lastPduKeyId : UInt16)
    (items : List DeferredPdu) :
    ∀ (i : Nat) {cache along : KeyReconstructionCache 5} {lastKeyId : UInt16},
      SameLookups (getKeyFromCache cache lastKeyId.toUInt8 0).2 cache →
      SameLookups cache along →
      batchOutcomes tickCount lastPduKeyId i cache lastKeyId items =
        outcomesAlong lastPduKeyId along items := by
  induction items with
  | nil => exact fun _ {_ _ _} _ _ => rfl
  | cons item rest ih =>
      intro i cache along lastKeyId known same
      simp only [batchOutcomes, outcomesAlong, same.itemOutcome lastPduKeyId item]
      congr 1
      by_cases repeated : lastKeyId = item.keyId
      · subst repeated
        simp only [ne_eq, not_true_eq_false, if_false]
        exact ih (i + 1) known (known.symm.trans (same.lookup _ _ _))
      · rw [if_pos repeated]
        exact ih (i + 1) (getKeyFromCache_again _ _ _ _) (same.lookup _ _ _)

theorem deferredBatch_eq (tickCount : Nat → UInt32) (consumer : BleConsumer) :
    deferredBatch tickCount consumer =
      outcomesAlong consumer.lastPduKeyId consumer.keyCache (consumer.deferredQueue.take 20) := by
  unfold deferredBatch
  cases consumer.deferredQueue.take 20 with
  | nil => rfl
  | cons first others =>
      have again := getKeyFromCache_again consumer.keyCache first.keyId.toUInt8 (tickCount 0) 0
      have batch := batchOutcomes_eq tickCount consumer.lastPduKeyId (first :: others) 1 again
        (.refl _)
      have sameFirst : itemOutcome
          (getKeyFromCache consumer.keyCache first.keyId.toUInt8 (tickCount 0)).2
          consumer.lastPduKeyId first =
            itemOutcome consumer.keyCache consumer.lastPduKeyId first := by
        simp only [itemOutcome, isKeyInCache_getKeyFromCache]
      have rest := (again.trans ((SameLookups.refl _).lookup first.keyId.toUInt8 (tickCount 0)
        0)).outcomesAlong consumer.lastPduKeyId others
      simp only [outcomesAlong, sameFirst, rest] at batch ⊢
      exact batch

/-! ## The rest of the record -/

structure SameButQueue (first second : BleConsumer) : Prop where
  pending : second.processDeferredQRequestPending = first.processDeferredQRequestPending
  macAddress : second.macAddressArr = first.macAddressArr
  lastPdu : second.lastPdu = first.lastPdu
  lastPduKeyId : second.lastPduKeyId = first.lastPduKeyId

theorem SameButQueue.trans {first second third : BleConsumer} (same : SameButQueue first second)
    (next : SameButQueue second third) : SameButQueue first third :=
  ⟨next.pending.trans same.pending, next.macAddress.trans same.macAddress,
    next.lastPdu.trans same.lastPdu, next.lastPduKeyId.trans same.lastPduKeyId⟩

theorem sameButQueue_addToDeferredQueue (consumer : BleConsumer) (item : DeferredPdu) :
    SameButQueue consumer (addToDeferredQueue consumer item).2 ∧
      (addToDeferredQueue consumer item).2.keyCache = consumer.keyCache := by
  unfold addToDeferredQueue
  split <;> exact ⟨⟨rfl, rfl, rfl, rfl⟩, rfl⟩

theorem sameButQueue_takeDeferredBatch (n : Nat) :
    ∀ consumer : BleConsumer, SameButQueue consumer (takeDeferredBatch n consumer).2 ∧
      (takeDeferredBatch n consumer).2.keyCache = consumer.keyCache := by
  induction n with
  | zero => exact fun _ => ⟨⟨rfl, rfl, rfl, rfl⟩, rfl⟩
  | succ n ih =>
      intro consumer
      cases queue : consumer.deferredQueue with
      | nil =>
          simp only [takeDeferredBatch, getDeferredQueueItem, queue]
          exact ⟨⟨rfl, rfl, rfl, rfl⟩, trivial⟩
      | cons item others =>
          simp only [takeDeferredBatch, getDeferredQueueItem, queue]
          obtain ⟨same, cache⟩ := ih { consumer with
            deferredQueue := others
            deferredQueueCount :=
              if consumer.deferredQueueCount > 0 then consumer.deferredQueueCount - 1
              else consumer.deferredQueueCount }
          exact ⟨⟨same.pending, same.macAddress, same.lastPdu, same.lastPduKeyId⟩, cache⟩

theorem sameButQueue_settleItem (mb : Mbedtls) (pass : DeferredPass) (item : DeferredPdu) :
    SameButQueue pass.consumer (settleItem mb pass item).consumer ∧
      (settleItem mb pass item).consumer.keyCache = pass.consumer.keyCache ∧
      (settleItem mb pass item).lastKeyId = pass.lastKeyId := by
  unfold settleItem
  split
  · exact ⟨⟨rfl, rfl, rfl, rfl⟩, rfl, rfl⟩
  · split
    · obtain ⟨same, cache⟩ := sameButQueue_addToDeferredQueue pass.consumer item
      exact ⟨same, cache, rfl⟩
    · exact ⟨⟨rfl, rfl, rfl, rfl⟩, rfl, rfl⟩

theorem sameButQueue_settleItems (mb : Mbedtls) (tickCount : Nat → UInt32)
    (items : List DeferredPdu) :
    ∀ (i : Nat) (pass : DeferredPass) {along : KeyReconstructionCache 5},
      SameLookups (getKeyFromCache pass.consumer.keyCache pass.lastKeyId.toUInt8 0).2
        pass.consumer.keyCache →
      SameLookups pass.consumer.keyCache along →
      SameButQueue pass.consumer (settleItems mb tickCount i pass items).consumer ∧
        SameLookups (settleItems mb tickCount i pass items).consumer.keyCache
          (lookedUp along items) := by
  induction items with
  | nil => exact fun _ _ {_} _ same => ⟨⟨rfl, rfl, rfl, rfl⟩, same⟩
  | cons item rest ih =>
      intro i pass along known same
      have looked : SameButQueue pass.consumer (lookupForItem (tickCount i) pass item).consumer ∧
          SameLookups (getKeyFromCache (lookupForItem (tickCount i) pass item).consumer.keyCache
            (lookupForItem (tickCount i) pass item).lastKeyId.toUInt8 0).2
            (lookupForItem (tickCount i) pass item).consumer.keyCache ∧
          SameLookups (lookupForItem (tickCount i) pass item).consumer.keyCache
            (getKeyFromCache along item.keyId.toUInt8 0).2 := by
        unfold lookupForItem
        split
        · exact ⟨⟨rfl, rfl, rfl, rfl⟩, getKeyFromCache_again _ _ _ _, same.lookup _ _ _⟩
        · rename_i repeated
          have sameId : pass.lastKeyId = item.keyId := not_not.mp repeated
          exact ⟨⟨rfl, rfl, rfl, rfl⟩, known, known.symm.trans (sameId ▸ same.lookup _ _ _)⟩
      obtain ⟨sameLooked, knownLooked, sameAlong⟩ := looked
      obtain ⟨settled, cache, lastKeyId⟩ :=
        sameButQueue_settleItem mb (lookupForItem (tickCount i) pass item) item
      simp only [settleItems, lookedUp_cons]
      rw [← cache] at sameAlong
      obtain ⟨rest, cacheEnd⟩ := ih (i + 1)
        (settleItem mb (lookupForItem (tickCount i) pass item) item)
        (by rw [cache, lastKeyId]; exact knownLooked) sameAlong
      exact ⟨(sameLooked.trans settled).trans rest, cacheEnd⟩

theorem sameButQueue_processDeferredQueue (mb : Mbedtls) (tickCount : Nat → UInt32)
    {consumer : BleConsumer} (counted : Counted consumer) (log : List ProcessingEvent) :
    SameButQueue consumer (processDeferredQueue mb tickCount consumer log).1 ∧
      SameLookups (processDeferredQueue mb tickCount consumer log).1.keyCache
        (lookedUp consumer.keyCache (consumer.deferredQueue.take 20)) := by
  obtain ⟨batch, _, _⟩ := takeDeferredBatch_spec 20 counted
  obtain ⟨sameTaken, cacheTaken⟩ := sameButQueue_takeDeferredBatch 20 consumer
  simp only [processDeferredQueue, maxProcessedPdusAtOnce, batch]
  generalize (takeDeferredBatch 20 consumer).2 = rest at sameTaken cacheTaken ⊢
  cases consumer.deferredQueue.take 20 with
  | nil => exact ⟨sameTaken, by rw [cacheTaken]; exact .refl _⟩
  | cons first others =>
      have again := getKeyFromCache_again rest.keyCache first.keyId.toUInt8 (tickCount 0) 0
      obtain ⟨same, cache⟩ := sameButQueue_settleItems mb tickCount (first :: others) 1
        ⟨{ rest with
            keyCache := (getKeyFromCache rest.keyCache first.keyId.toUInt8 (tickCount 0)).2 },
          (getKeyFromCache rest.keyCache first.keyId.toUInt8 (tickCount 0)).1, first.keyId, log⟩
        again (.refl _)
      refine ⟨⟨same.pending.trans sameTaken.pending, same.macAddress.trans sameTaken.macAddress,
        same.lastPdu.trans sameTaken.lastPdu, same.lastPduKeyId.trans sameTaken.lastPduKeyId⟩,
        cache.trans ?_⟩
      rw [← cacheTaken]
      exact (again.trans ((SameLookups.refl _).lookup _ _ _)).lookedUp others

/-! ## A pending record -/

/-- What the pass of a pending record leaves: the frames behind the batch and those put back,
and the flag up exactly as long as there are any. -/
structure RecordPassed (consumer next : BleConsumer) : Prop where
  counted : Counted next
  queue : next.deferredQueue = consumer.deferredQueue.drop 20 ++ Ledger.settled .putBack
    (outcomesAlong consumer.lastPduKeyId consumer.keyCache (consumer.deferredQueue.take 20))
  pending : next.processDeferredQRequestPending = true ↔ next.deferredQueue ≠ []
  macAddress : next.macAddressArr = consumer.macAddressArr
  lastPduKeyId : next.lastPduKeyId = consumer.lastPduKeyId
  cache : SameLookups next.keyCache
    (lookedUp consumer.keyCache (consumer.deferredQueue.take 20))

theorem processPendingConsumer_passed (mb : Mbedtls) (tickCount : Nat → UInt32)
    {sec : SecPduProcessing} {index : Fin 2}
    (counted : Counted (sec.consumerCollection.arr index))
    (pending : (sec.consumerCollection.arr index).processDeferredQRequestPending = true) :
    RecordPassed (sec.consumerCollection.arr index)
      ((processPendingConsumer mb tickCount sec index).consumerCollection.arr index) ∧
    ∃ events, (processPendingConsumer mb tickCount sec index).log = sec.log ++ events ∧
      LogsBatch (sec.consumerCollection.arr index).macAddressArr
        (outcomesAlong (sec.consumerCollection.arr index).lastPduKeyId
          (sec.consumerCollection.arr index).keyCache
          ((sec.consumerCollection.arr index).deferredQueue.take 20)) events := by
  obtain ⟨countedNext, queue, _, logged⟩ :=
    processDeferredQueue_spec mb tickCount counted sec.log
  obtain ⟨same, cache⟩ := sameButQueue_processDeferredQueue mb tickCount counted sec.log
  rw [deferredBatch_eq] at queue logged
  have waits := countedNext.isPduInDeferredQueue_iff
  simp only [processPendingConsumer, if_pos pending, setConsumer, Function.update_self]
  refine ⟨?_, logged⟩
  split
  · rename_i left
    exact ⟨countedNext, queue, ⟨fun _ => waits.mp left, fun _ => same.pending.trans pending⟩,
      same.macAddress, same.lastPduKeyId, cache⟩
  · rename_i emptied
    exact ⟨⟨countedNext.count, countedNext.room⟩, queue,
      ⟨by simp, fun some => absurd (waits.mpr some) emptied⟩, same.macAddress,
      same.lastPduKeyId, cache⟩

end BleBroadcast.Receiver
