import BleBroadcast.Receiver.ConsumerResources

/-!
# The start of the processing engine

The requests of `start_up_sec_processing` and of the functions it calls, on a device where
nothing was started.  A task is a block like the others.  What the start of the scan filter or
of the key reconstructor keeps when it fails is in their own structures and is not read.
-/

set_option autoImplicit false

namespace BleBroadcast.Receiver.Resources

open BleBroadcast.Lib

/-- The memory of a `payload_decrypted_observer_collection`. -/
structure PdoCollectionMemory where
  self : Nat
  observers : Nat
  xMutex : Nat

/-- The memory of a `key_reconstruction_collection`. -/
structure KeyCollectionMemory where
  self : Nat
  km : Nat
  xMutex : Nat

/-- The handles of `sec_pdu_st` that `init_sec_processing_resources` sets. -/
structure SecPduMemory where
  processingQueue : Option Nat
  eventGroup : Option Nat
  consumerCollection : Option CollectionMemory
  payloadObservers : Option PdoCollectionMemory

/-- The memory of `ao_control_structure`. -/
structure AdvTimeMemory where
  privateQueues : List Nat
  xMutex : Nat
  eventGroup : Nat
  xTaskHandle : Nat

/-- The memory of `st_reconstructor_control`. -/
structure ReconstructorMemory where
  eventGroup : Nat
  xQueueKeyReconstruction : Nat
  keyCollection : KeyCollectionMemory
  xRecontructionKeyTask : Nat

structure EngineMemory where
  secPdu : SecPduMemory
  advTime : Option AdvTimeMemory
  reconstructor : Option ReconstructorMemory
  isSecPduProcessingInitialised : Bool
  xSecProcessingTask : Option Nat

section Program

variable (grants : Nat → Bool)

def createPdoCollection : Allocating (Option PdoCollectionMemory) :=
  allocating grants (pure none) fun self =>
    allocating grants (do release ⟨self, 0⟩; pure none) fun observers =>
      -- without a mutex the null pointers in the array are freed, and not the array
      allocating grants (do release ⟨self, 0⟩; pure none) fun xMutex =>
        pure (some { self, observers, xMutex })

def createNewKeyCollection : Allocating (Option KeyCollectionMemory) :=
  allocating grants (pure none) fun self =>
    allocating grants (do release ⟨self, 0⟩; pure none) fun km =>
      allocating grants (do release ⟨km, 0⟩; release ⟨self, 0⟩; pure none) fun xMutex =>
        pure (some { self, km, xMutex })

/-- Both checks after the collections are made read `consumer_collection`. -/
def initSecProcessingResources (collectionSize keyCacheSize : Nat) :
    Allocating (Int × SecPduMemory) :=
  allocating grants (pure (-1, ⟨none, none, none, none⟩)) fun processingQueue =>
    allocating grants
      (do releaseHandle none
          release ⟨processingQueue, 0⟩
          pure (-2, ⟨some processingQueue, none, none, none⟩))
      fun eventGroup => do
        match ← createBleConsumerCollection grants collectionSize keyCacheSize with
        | some collection => do
            let observers ← createPdoCollection grants
            pure (0, ⟨some processingQueue, some eventGroup, some collection, observers⟩)
        | none => do
            release ⟨processingQueue, 0⟩
            release ⟨eventGroup, 0⟩
            let observers ← createPdoCollection grants
            release ⟨processingQueue, 0⟩
            release ⟨eventGroup, 0⟩
            pure (-4, ⟨some processingQueue, some eventGroup, none, observers⟩)

/-- The loop over the senders of `init_adv_time_authorize_object`. -/
def initConsumerAuthorizationStructures : Nat → List Nat → Allocating (Option (List Nat))
  | 0, privateQueues => pure (some privateQueues)
  | remaining + 1, privateQueues =>
      allocating grants (pure none) fun privateQueue =>
        initConsumerAuthorizationStructures remaining (privateQueues ++ [privateQueue])

def initAdvTimeAuthorizeObject (senders : Nat) : Allocating (Option AdvTimeMemory) := do
  match ← initConsumerAuthorizationStructures grants senders [] with
  | none => pure none
  | some privateQueues =>
      allocating grants (pure none) fun xMutex =>
        allocating grants (pure none) fun eventGroup =>
          allocating grants (pure none) fun xTaskHandle =>
            pure (some { privateQueues, xMutex, eventGroup, xTaskHandle })

def startUpKeyReconstructor : Allocating (Option ReconstructorMemory) :=
  allocating grants (pure none) fun eventGroup =>
    allocating grants (pure none) fun queue => do
      match ← createNewKeyCollection grants with
      | none => pure none
      | some keyCollection =>
          allocating grants (do release ⟨queue, 0⟩; pure none) fun task =>
            pure (some ⟨eventGroup, queue, keyCollection, task⟩)

/-- The status of the first call is overwritten by that of the second. -/
def startUpSecProcessing (senders keyCacheSize : Nat) : Allocating (Int × EngineMemory) := do
  let resources ← initSecProcessingResources grants senders keyCacheSize
  match ← initAdvTimeAuthorizeObject grants senders with
  | none => pure (1, ⟨resources.2, none, none, false, none⟩)
  | some advTime =>
      match ← startUpKeyReconstructor grants with
      | none => pure (-3, ⟨resources.2, some advTime, none, false, none⟩)
      | some reconstructor =>
          allocating grants
            (pure (-2, ⟨resources.2, some advTime, some reconstructor, true, none⟩))
            fun task =>
              pure (0, ⟨resources.2, some advTime, some reconstructor, true, some task⟩)

end Program

variable {grants : Nat → Bool} {ledger : AllocationLedger} {senders cacheSize : Nat}

/-! ## The observers -/

theorem createPdoCollection_run (grants : Nat → Bool) (ledger : AllocationLedger) :
    ∃ observers after, (createPdoCollection grants).run ledger = some (observers, after) ∧
      after.attempts = ledger.attempts + requestsMade grants ledger.attempts 3 ∧
      (observers.isSome = true ↔ Granted grants ledger.attempts 3) := by
  have selfHeld : ∀ count, ledger.attempts ∈ ((ledger.holding (count + 1)).spent 1).live := by
    intro count
    simp
  unfold createPdoCollection
  cases first : grants ledger.attempts with
  | false =>
      rw [allocating_refused _ _ first]
      refine ⟨none, _, rfl, ?_, ?_⟩
      · simp [requestsMade, first]
      · simp [granted_succ, first]
  | true =>
      rw [allocating_granted _ _ first]
      cases second : grants (ledger.attempts + 1) with
      | false =>
          rw [allocating_refused _ _ second, bind_run _ (release_run (selfHeld 0))]
          refine ⟨none, _, rfl, ?_, ?_⟩
          · simp [requestsMade, first, second, AllocationLedger.released]
          · simp [granted_succ, first, second]
      | true =>
          rw [allocating_granted _ _ second, AllocationLedger.holding_holding]
          cases third : grants (ledger.attempts + 2) with
          | false =>
              rw [allocating_refused _ _ third, bind_run _ (release_run (selfHeld 1))]
              refine ⟨none, _, rfl, ?_, ?_⟩
              · simp [requestsMade, first, second, third, AllocationLedger.released]
              · simp [granted_succ, first, second, third]
          | true =>
              rw [allocating_granted _ _ third, AllocationLedger.holding_holding]
              refine ⟨some _, _, rfl, ?_, ?_⟩
              · simp [requestsMade, first, second, third]
              · simp [granted_succ, granted_zero, first, second, third]

theorem keepsGone_createPdoCollection : KeepsGone (createPdoCollection grants) := by
  have giveUp : ∀ self, KeepsGone (do release ⟨self, 0⟩
                                      pure (none : Option PdoCollectionMemory)) := by
    intro self
    apply (keepsGone_release _).bind
    intro _
    exact keepsGone_pure none
  unfold createPdoCollection
  apply (keepsGone_pure none).allocating
  intro self
  apply (giveUp self).allocating
  intro observers
  apply (giveUp self).allocating
  intro xMutex
  exact keepsGone_pure _

/-! ## The resources of the processing -/

theorem initSecProcessingResources_noQueue (refusal : grants ledger.attempts = false) :
    (initSecProcessingResources grants senders cacheSize).run ledger =
      some ((-1, ⟨none, none, none, none⟩), ledger.spent 1) := by
  unfold initSecProcessingResources
  rw [allocating_refused _ _ refusal]
  rfl

theorem aborts_withoutCollection (processingQueue eventGroup : Nat)
    (rest : Option PdoCollectionMemory → Unit → Allocating (Int × SecPduMemory)) :
    Aborts (do
      release ⟨processingQueue, 0⟩
      release ⟨eventGroup, 0⟩
      let observers ← createPdoCollection grants
      release ⟨processingQueue, 0⟩ >>= rest observers) := by
  apply (ensures_release ⟨processingQueue, 0⟩).stops
  intro _ afterQueue givenUp
  apply (keepsGone_release _).stops givenUp.2
  intro _ afterGroup goneGroup
  apply keepsGone_createPdoCollection.stops goneGroup
  intro observers afterObservers gone
  exact bind_stopped _ (release_gone gone)

theorem initSecProcessingResources_stops (queue : grants ledger.attempts = true)
    (refused : ¬ Granted grants (ledger.attempts + 1) (4 + 5 * senders)) :
    (initSecProcessingResources grants senders cacheSize).run ledger = none := by
  unfold initSecProcessingResources
  rw [allocating_granted _ _ queue]
  cases group : grants (ledger.holding 1).attempts with
  | false =>
      rw [allocating_refused _ _ group]
      exact aborts_releaseHandle_null.bind _ _
  | true =>
      have notCollection : ¬ Granted grants (ledger.holding 2).attempts (3 + 5 * senders) := by
        intro collection
        apply refused
        rw [show 4 + 5 * senders = (3 + 5 * senders) + 1 by omega]
        exact granted_succ.mpr ⟨group, collection⟩
      obtain granted | ⟨index, below, first⟩ :=
        granted_or_firstRefused grants (ledger.holding 2).attempts (3 + 5 * senders)
      · exact absurd granted notCollection
      · rw [allocating_granted _ _ group, AllocationLedger.holding_holding]
        have outcome : (createBleConsumerCollection grants senders cacheSize).run
            (ledger.holding 2) = _ := createBleConsumerCollection_refused below first
        split at outcome
        · rw [bind_run _ outcome]
          exact aborts_withoutCollection _ _ _ _
        · split at outcome
          · rw [bind_run _ outcome]
            exact aborts_withoutCollection _ _ _ _
          · exact bind_stopped _ outcome

theorem initSecProcessingResources_granted (queue : grants ledger.attempts = true)
    (granted : Granted grants (ledger.attempts + 1) (4 + 5 * senders)) :
    ∃ observers after, (initSecProcessingResources grants senders cacheSize).run ledger =
        some ((0, ⟨some ledger.attempts, some (ledger.attempts + 1),
          some (collectionFrom (ledger.attempts + 2) senders cacheSize), observers⟩), after) ∧
      after.attempts = ledger.attempts + (5 + 5 * senders) +
        requestsMade grants (ledger.attempts + (5 + 5 * senders)) 3 ∧
      (observers.isSome = true ↔
        Granted grants (ledger.attempts + (5 + 5 * senders)) 3) := by
  have group : grants (ledger.holding 1).attempts = true := granted 0 (by omega)
  have collection : Granted grants (ledger.attempts + 1 + 1) (3 + 5 * senders) :=
    granted.shift (by omega)
  obtain ⟨observers, after, run, attempts, present⟩ := createPdoCollection_run grants
    ((ledger.holding 2).holding (3 + 5 * senders))
  have start : ((ledger.holding 2).holding (3 + 5 * senders)).attempts =
      ledger.attempts + (5 + 5 * senders) := by
    simp only [AllocationLedger.holding_attempts]
    omega
  rw [start] at attempts present
  refine ⟨observers, after, ?_, attempts, present⟩
  unfold initSecProcessingResources
  rw [allocating_granted _ _ queue, allocating_granted _ _ group,
    AllocationLedger.holding_holding,
    bind_run _ (createBleConsumerCollection_granted collection)]
  simp only
  rw [bind_run _ run]
  rfl

/-- The requests of `init_sec_processing_resources` when it does not stop. -/
def secProcessingRequests (grants : Nat → Bool) (start senders : Nat) : Nat :=
  if grants start then
    5 + 5 * senders + requestsMade grants (start + (5 + 5 * senders)) 3
  else 1

structure HandlesAsGranted (grants : Nat → Bool) (start senders : Nat) (secPdu : SecPduMemory) :
    Prop where
  processingQueue : secPdu.processingQueue.isSome = true ↔ grants start = true
  eventGroup : secPdu.eventGroup.isSome = true ↔ grants start = true
  consumerCollection : secPdu.consumerCollection.isSome = true ↔ grants start = true
  payloadObservers : secPdu.payloadObservers.isSome = true ↔
    grants start = true ∧ Granted grants (start + (5 + 5 * senders)) 3

theorem initSecProcessingResources_outcome
    (whole : ¬ (grants ledger.attempts = true ∧
      ¬ Granted grants (ledger.attempts + 1) (4 + 5 * senders))) :
    ∃ resources middle,
      (initSecProcessingResources grants senders cacheSize).run ledger =
        some (resources, middle) ∧
      middle.attempts = ledger.attempts + secProcessingRequests grants ledger.attempts senders ∧
      HandlesAsGranted grants ledger.attempts senders resources.2 := by
  cases queue : grants ledger.attempts with
  | false =>
      refine ⟨_, _, initSecProcessingResources_noQueue queue, ?_, ?_⟩
      · simp [secProcessingRequests, queue]
      · constructor <;> simp [queue]
  | true =>
      have granted : Granted grants (ledger.attempts + 1) (4 + 5 * senders) := by
        by_contra refused
        exact whole ⟨queue, refused⟩
      obtain ⟨observers, middle, run, attempts, present⟩ :=
        initSecProcessingResources_granted queue granted
      refine ⟨_, middle, run, ?_, ?_⟩
      · rw [attempts, secProcessingRequests, if_pos queue, Nat.add_assoc]
      · constructor
        · simp [queue]
        · simp [queue]
        · simp [queue]
        · rw [present, queue]
          exact (and_iff_right rfl).symm

/-! ## The scan filter and the key reconstructor -/

theorem initConsumerAuthorizationStructures_acquires (privateQueues : List Nat) :
    Acquires grants senders (initConsumerAuthorizationStructures grants senders privateQueues)
      ledger := by
  induction senders generalizing privateQueues ledger with
  | zero => exact acquires_pure privateQueues
  | succ senders ih => exact Acquires.allocating ⟨_, rfl⟩ (ih _)

theorem initAdvTimeAuthorizeObject_acquires :
    Acquires grants (senders + 3) (initAdvTimeAuthorizeObject grants senders) ledger := by
  unfold initAdvTimeAuthorizeObject
  apply (initConsumerAuthorizationStructures_acquires []).bind
  · exact fun after => ⟨after, rfl⟩
  · intro privateQueues
    apply Acquires.allocating ⟨_, rfl⟩
    apply Acquires.allocating ⟨_, rfl⟩
    apply Acquires.allocating ⟨_, rfl⟩
    exact acquires_pure _

theorem createNewKeyCollection_acquires :
    Acquires grants 3 (createNewKeyCollection grants) ledger := by
  have selfHeld : ledger.attempts ∈ ((ledger.holding 1).spent 1).live := by simp
  have kmHeld : ledger.attempts + 1 ∈ (((ledger.holding 1).holding 1).spent 1).live := by simp
  have selfLeft : ledger.attempts ∈
      ((((ledger.holding 1).holding 1).spent 1).released (ledger.attempts + 1)).live := by simp
  unfold createNewKeyCollection
  apply Acquires.allocating ⟨_, rfl⟩
  apply Acquires.allocating
  · exact ⟨_, bind_run _ (release_run selfHeld)⟩
  · apply Acquires.allocating
    · refine ⟨((((ledger.holding 1).holding 1).spent 1).released
        (ledger.attempts + 1)).released ledger.attempts, ?_⟩
      rw [AllocationLedger.holding_attempts, bind_run _ (release_run kmHeld)]
      exact bind_run _ (release_run selfLeft)
    · exact acquires_pure _

theorem startUpKeyReconstructor_acquires :
    Acquires grants 6 (startUpKeyReconstructor grants) ledger := by
  have queueHeld : ledger.attempts + 1 ∈
      ((((ledger.holding 1).holding 1).holding 3).spent 1).live := by simp
  unfold startUpKeyReconstructor
  apply Acquires.allocating ⟨_, rfl⟩
  apply Acquires.allocating ⟨_, rfl⟩
  change Acquires grants (3 + 1) _ _
  apply createNewKeyCollection_acquires.bind
  · exact fun after => ⟨after, rfl⟩
  · intro keyCollection
    apply Acquires.allocating
    · exact ⟨_, bind_run _ (release_run queueHeld)⟩
    · exact acquires_pure _

/-! ## The status and what was made -/

theorem startUpSecProcessing_status {resources : Int × SecPduMemory} {middle : AllocationLedger}
    (run : (initSecProcessingResources grants senders cacheSize).run ledger =
      some (resources, middle)) :
    ∃ status engine after,
      (startUpSecProcessing grants senders cacheSize).run ledger =
        some ((status, engine), after) ∧
      engine.secPdu = resources.2 ∧
      (status = 0 ↔ Granted grants middle.attempts (senders + 10)) ∧
      (engine.isSecPduProcessingInitialised = true ↔
        Granted grants middle.attempts (senders + 9)) := by
  have initialising : Granted grants middle.attempts (senders + 3 + 6) ↔
      Granted grants middle.attempts (senders + 3) ∧
        Granted grants (middle.attempts + (senders + 3)) 6 := granted_add
  have succeeding : Granted grants middle.attempts (senders + 9 + 1) ↔
      Granted grants middle.attempts (senders + 9) ∧
        Granted grants (middle.attempts + (senders + 9)) 1 := granted_add
  have task_iff : Granted grants (middle.attempts + (senders + 9)) 1 ↔
      grants (middle.attempts + (senders + 9)) = true := by
    rw [granted_succ]
    exact and_iff_left granted_zero
  unfold startUpSecProcessing
  rw [bind_run _ run]
  by_cases filter : Granted grants middle.attempts (senders + 3)
  · obtain ⟨advTime, filterRun⟩ := initAdvTimeAuthorizeObject_acquires.1 filter
    rw [bind_run _ filterRun]
    by_cases keys : Granted grants (middle.holding (senders + 3)).attempts 6
    · obtain ⟨reconstructor, keysRun⟩ := startUpKeyReconstructor_acquires.1 keys
      have initialised := initialising.mpr ⟨filter, keys⟩
      simp only
      rw [bind_run _ keysRun, AllocationLedger.holding_holding]
      simp only
      cases task : grants (middle.attempts + (senders + 9)) with
      | false =>
          rw [allocating_refused _ _ task]
          refine ⟨-2, _, _, rfl, rfl, ?_, ?_⟩
          · apply iff_of_false (by decide)
            intro granted
            rw [task_iff.mp (succeeding.mp granted).2] at task
            contradiction
          · exact iff_of_true rfl initialised
      | true =>
          rw [allocating_granted _ _ task]
          refine ⟨0, _, _, rfl, rfl, ?_, ?_⟩
          · exact iff_of_true rfl (succeeding.mpr ⟨initialised, task_iff.mpr task⟩)
          · exact iff_of_true rfl initialised
    · obtain ⟨after, keysRun⟩ := startUpKeyReconstructor_acquires.2 keys
      simp only
      rw [bind_run _ keysRun]
      refine ⟨-3, _, _, rfl, rfl, ?_, ?_⟩
      · apply iff_of_false (by decide)
        exact fun granted => keys (initialising.mp (succeeding.mp granted).1).2
      · apply iff_of_false Bool.false_ne_true
        exact fun granted => keys (initialising.mp granted).2
  · obtain ⟨after, filterRun⟩ := initAdvTimeAuthorizeObject_acquires.2 filter
    rw [bind_run _ filterRun]
    refine ⟨1, _, _, rfl, rfl, ?_, ?_⟩
    · apply iff_of_false (by decide)
      exact fun granted => filter (initialising.mp (succeeding.mp granted).1).1
    · apply iff_of_false Bool.false_ne_true
      exact fun granted => filter (initialising.mp granted).1

theorem startUpSecProcessing_stops
    (stops : (initSecProcessingResources grants senders cacheSize).run ledger = none) :
    (startUpSecProcessing grants senders cacheSize).run ledger = none := by
  unfold startUpSecProcessing
  exact bind_stopped _ stops

/-- The first status is not looked at, and neither is the collection of the observers: a start
reports success if everything after the resources of the processing was made.  It can then
lack the queue, the events and the senders, or only the observers, and exactly the requests
that were refused decide which. -/
theorem start_up_memory (grants : Nat → Bool) (senders cacheSize : Nat)
    (ledger : AllocationLedger) :
    ((startUpSecProcessing grants senders cacheSize).run ledger = none ↔
      grants ledger.attempts = true ∧
        ¬ Granted grants (ledger.attempts + 1) (4 + 5 * senders)) ∧
    ∀ status engine after,
      (startUpSecProcessing grants senders cacheSize).run ledger =
        some ((status, engine), after) →
      (status = 0 ↔ Granted grants (ledger.attempts +
        secProcessingRequests grants ledger.attempts senders) (senders + 10)) ∧
      (engine.isSecPduProcessingInitialised = true ↔ Granted grants (ledger.attempts +
        secProcessingRequests grants ledger.attempts senders) (senders + 9)) ∧
      HandlesAsGranted grants ledger.attempts senders engine.secPdu := by
  by_cases defect : grants ledger.attempts = true ∧
      ¬ Granted grants (ledger.attempts + 1) (4 + 5 * senders)
  · have stops : (startUpSecProcessing grants senders cacheSize).run ledger = none :=
      startUpSecProcessing_stops (initSecProcessingResources_stops defect.1 defect.2)
    constructor
    · exact iff_of_true stops defect
    · intro status engine after run
      rw [stops] at run
      contradiction
  · obtain ⟨resources, middle, made, attempts, handles⟩ :=
      initSecProcessingResources_outcome defect
    obtain ⟨status, engine, after, run, secPdu, success, initialised⟩ :=
      startUpSecProcessing_status made
    constructor
    · apply iff_of_false
      · rw [run]
        exact Option.some_ne_none _
      · exact defect
    · intro status' engine' after' run'
      rw [run] at run'
      cases Option.some.inj run'
      rw [← attempts, secPdu]
      exact ⟨success, initialised, handles⟩

/-- Only the first request is refused: the start reports success and has no queue. -/
theorem start_up_memory_no_queue :
    ∃ engine after,
      (startUpSecProcessing (fun request => decide (request ≠ 0)) 2 5).run .initial =
        some ((0, engine), after) ∧
      engine.secPdu.processingQueue = none := by
  obtain ⟨stops, made⟩ := start_up_memory (fun request => decide (request ≠ 0)) 2 5 .initial
  cases run : (startUpSecProcessing (fun request => decide (request ≠ 0)) 2 5).run .initial with
  | none => exact absurd (stops.mp run).1 (by decide)
  | some result =>
      obtain ⟨⟨status, engine⟩, after⟩ := result
      obtain ⟨success, _, handles⟩ := made status engine after run
      obtain rfl : status = 0 := success.mpr (by decide)
      refine ⟨engine, after, rfl, ?_⟩
      apply Option.not_isSome_iff_eq_none.mp
      exact fun present => absurd (handles.processingQueue.mp present) (by decide)

end BleBroadcast.Receiver.Resources
