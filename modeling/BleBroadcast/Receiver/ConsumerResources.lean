import Mathlib.Data.List.Range
import BleBroadcast.Lib.AllocationLedger

/-!
# The memory of the sender collection

The requests and the releases by which `ble_consumer_collection.c`, `ble_consumer.c` and
`key_cache.c` make and destroy the collection.  An element of an array is a pointer into the
block of the array, so that the destruction of one sender releases an element of `arr`, and
that of a key cache every element of its `map`.

The record of a sender has only the handles of its memory.  A mutex that exists can be taken,
and what the freed array holds is still read.
-/

set_option autoImplicit false

namespace BleBroadcast.Receiver.Resources

open BleBroadcast.Lib

/-- The memory of a `key_reconstruction_cache`. -/
structure KeyCacheMemory where
  self : Nat
  map : Nat
  cacheSize : Nat
  xMutexCacheAccess : Option Nat

structure BleConsumerMemory where
  keyCache : KeyCacheMemory
  deferredQueue : Nat
  xMutex : Nat

/-- The memory of a `ble_consumer_collection`, with the senders in `arr`. -/
structure CollectionMemory where
  self : Nat
  xMutex : Nat
  arr : Nat
  consumers : List BleConsumerMemory

section Program

variable (grants : Nat → Bool)

def createKeyCache (cacheSize : Nat) : Allocating (Option KeyCacheMemory) :=
  allocating grants (pure none) fun self =>
    allocating grants (do release ⟨self, 0⟩; pure none) fun map =>
      pure (some { self, map, cacheSize, xMutexCacheAccess := none })

def destroyKeyCache (keyCache : KeyCacheMemory) : Allocating Unit := do
  releaseHandle keyCache.xMutexCacheAccess
  (List.range keyCache.cacheSize).forM fun i => release ⟨keyCache.map, i⟩
  release ⟨keyCache.self, 0⟩

def initKeyCache (keyCache : KeyCacheMemory) : Allocating (Option KeyCacheMemory) :=
  allocating grants (pure none) fun mutex =>
    pure (some { keyCache with xMutexCacheAccess := some mutex })

def createBleConsumerResources (pBleConsumer : BlockPointer) (keyCacheSize : Nat) :
    Allocating (Option BleConsumerMemory) := do
  match ← createKeyCache grants keyCacheSize with
  | none => do
      release pBleConsumer
      pure none
  | some keyCache =>
      allocating grants
        (do destroyKeyCache keyCache
            release pBleConsumer
            pure none)
        fun deferredQueue =>
          allocating grants
            (do release ⟨deferredQueue, 0⟩
                destroyKeyCache keyCache
                release pBleConsumer
                pure none)
            fun xMutex => pure (some { keyCache, deferredQueue, xMutex })

def initBleConsumer (consumer : BleConsumerMemory) : Allocating (Option BleConsumerMemory) := do
  match ← initKeyCache grants consumer.keyCache with
  | none => pure none
  | some keyCache => pure (some { consumer with keyCache })

def destroyBleConsumer (pBleConsumer : BlockPointer) (consumer : BleConsumerMemory) :
    Allocating Unit := do
  release ⟨consumer.deferredQueue, 0⟩
  destroyKeyCache consumer.keyCache
  release ⟨consumer.xMutex, 0⟩
  release pBleConsumer

/-- The loops that destroy senders, with their indices in `arr`. -/
def destroyBleConsumers (arr : Nat) (consumers : List (BleConsumerMemory × Nat)) :
    Allocating Unit :=
  consumers.forM fun entry => destroyBleConsumer ⟨arr, entry.2⟩ entry.1

/-- The end of `create_ble_consumer_collection` when a sender could not be made. -/
def abandonCollection (self xMutex arr : Nat) (created : List BleConsumerMemory) :
    Allocating (Option CollectionMemory) := do
  destroyBleConsumers arr created.zipIdx
  release ⟨arr, 0⟩
  release ⟨xMutex, 0⟩
  release ⟨self, 0⟩
  pure none

/-- The loop of `create_ble_consumer_collection`. -/
def createConsumers (self xMutex arr cacheSize : Nat) :
    Nat → List BleConsumerMemory → Allocating (Option CollectionMemory)
  | 0, created => pure (some { self, xMutex, arr, consumers := created })
  | remaining + 1, created => do
      match ← createBleConsumerResources grants ⟨arr, created.length⟩ cacheSize with
      | none => abandonCollection self xMutex arr created
      | some consumer =>
          match ← initBleConsumer grants consumer with
          | none => abandonCollection self xMutex arr created
          | some initialised =>
              createConsumers self xMutex arr cacheSize remaining (created ++ [initialised])

def createBleConsumerCollection (collectionSize senderKeyCacheSize : Nat) :
    Allocating (Option CollectionMemory) :=
  allocating grants (pure none) fun self =>
    allocating grants (do release ⟨self, 0⟩; pure none) fun xMutex =>
      allocating grants (do release ⟨xMutex, 0⟩; release ⟨self, 0⟩; pure none) fun arr =>
        createConsumers grants self xMutex arr senderKeyCacheSize collectionSize []

/-- The last sender is destroyed first. -/
def destroyBleConsumerCollection (collection : CollectionMemory) : Allocating Unit := do
  release ⟨collection.xMutex, 0⟩
  destroyBleConsumers collection.arr collection.consumers.zipIdx.reverse
  release ⟨collection.self, 0⟩

end Program

/-! ## The memory that is made -/

def consumerFrom (start cacheSize : Nat) : BleConsumerMemory where
  keyCache := { self := start, map := start + 1, cacheSize, xMutexCacheAccess := some (start + 4) }
  deferredQueue := start + 2
  xMutex := start + 3

def consumersFrom (start cacheSize size : Nat) : List BleConsumerMemory :=
  (List.range size).map fun i => consumerFrom (start + 5 * i) cacheSize

def collectionFrom (start size cacheSize : Nat) : CollectionMemory where
  self := start
  xMutex := start + 1
  arr := start + 2
  consumers := consumersFrom (start + 3) cacheSize size

theorem consumersFrom_succ (start cacheSize size : Nat) :
    consumersFrom start cacheSize (size + 1) =
      consumerFrom start cacheSize :: consumersFrom (start + 5) cacheSize size := by
  unfold consumersFrom
  rw [List.range_succ_eq_map, List.map_cons, List.map_map]
  apply congrArg (consumerFrom start cacheSize :: ·)
  apply List.map_congr_left
  intro i _
  simp only [Function.comp_apply]
  apply congrArg (consumerFrom · cacheSize)
  omega

variable {grants : Nat → Bool} {ledger : AllocationLedger} {cacheSize : Nat}

theorem createKeyCache_granted (granted : Granted grants ledger.attempts 2) :
    (createKeyCache grants cacheSize).run ledger =
      some (some ⟨ledger.attempts, ledger.attempts + 1, cacheSize, none⟩,
        ledger.holding 2) := by
  unfold createKeyCache
  rw [allocating_granted _ _ (granted 0 (by omega)),
    allocating_granted _ _ (granted 1 (by omega)), AllocationLedger.holding_holding]
  rfl

theorem createBleConsumerResources_granted {pBleConsumer : BlockPointer}
    (granted : Granted grants ledger.attempts 4) :
    (createBleConsumerResources grants pBleConsumer cacheSize).run ledger =
      some (some { consumerFrom ledger.attempts cacheSize with
        keyCache := ⟨ledger.attempts, ledger.attempts + 1, cacheSize, none⟩ },
        ledger.holding 4) := by
  unfold createBleConsumerResources
  rw [bind_run _ (createKeyCache_granted (granted.mono (by omega)))]
  simp only
  rw [allocating_granted _ _ (granted 2 (by omega)), AllocationLedger.holding_holding,
    allocating_granted _ _ (granted 3 (by omega)), AllocationLedger.holding_holding]
  rfl

theorem initBleConsumer_granted {consumer : BleConsumerMemory}
    (grant : grants ledger.attempts = true) :
    (initBleConsumer grants consumer).run ledger =
      some (some { consumer with
        keyCache := { consumer.keyCache with xMutexCacheAccess := some ledger.attempts } },
        ledger.holding 1) := by
  have initialised : (initKeyCache grants consumer.keyCache).run ledger =
      some (some { consumer.keyCache with xMutexCacheAccess := some ledger.attempts },
        ledger.holding 1) := by
    unfold initKeyCache
    rw [allocating_granted _ _ grant]
    rfl
  unfold initBleConsumer
  rw [bind_run _ initialised]
  rfl

theorem initBleConsumer_refused {consumer : BleConsumerMemory}
    (refusal : grants ledger.attempts = false) :
    (initBleConsumer grants consumer).run ledger = some (none, ledger.spent 1) := by
  have failed : (initKeyCache grants consumer.keyCache).run ledger =
      some (none, ledger.spent 1) := by
    unfold initKeyCache
    rw [allocating_refused _ _ refusal]
    rfl
  unfold initBleConsumer
  rw [bind_run _ failed]
  rfl

/-! ## What gives up the array -/

theorem destroyBleConsumer_givesUp (pBleConsumer : BlockPointer) (consumer : BleConsumerMemory) :
    Ensures (destroyBleConsumer pBleConsumer consumer) fun _ => GivenUp pBleConsumer := by
  unfold destroyBleConsumer
  apply Ensures.after
  intro _
  apply Ensures.after
  intro _
  apply Ensures.after
  intro _
  exact ensures_release pBleConsumer

theorem aborts_destroyKeyCache {keyCache : KeyCacheMemory}
    (noMutex : keyCache.xMutexCacheAccess = none) : Aborts (destroyKeyCache keyCache) := by
  unfold destroyKeyCache
  rw [noMutex]
  exact aborts_releaseHandle_null.bind _

theorem createKeyCache_refused {index : Nat} (below : index < 2)
    (refused : FirstRefused grants ledger.attempts index) :
    (createKeyCache grants cacheSize).run ledger = some (none, ledger.spent (index + 1)) := by
  unfold createKeyCache
  rcases Nat.lt_succ_iff_lt_or_eq.mp below with first | rfl
  · obtain rfl := Nat.lt_one_iff.mp first
    rw [allocating_refused _ _ refused.2]
    rfl
  · have held : ledger.attempts ∈ ((ledger.holding 1).spent 1).live := by simp
    have returned : ((ledger.holding 1).spent 1).released ledger.attempts =
        (ledger.holding 0).spent 2 := AllocationLedger.holding_returned
    rw [allocating_granted _ _ (refused.1 0 (by omega)), allocating_refused _ _ refused.2,
      bind_run _ (release_run held), returned, AllocationLedger.holding_zero]
    rfl

theorem createBleConsumerResources_refused {pBleConsumer : BlockPointer} {index : Nat}
    (below : index < 4) (refused : FirstRefused grants ledger.attempts index)
    {result : Option BleConsumerMemory} {after : AllocationLedger}
    (run : (createBleConsumerResources grants pBleConsumer cacheSize).run ledger =
      some (result, after)) :
    result = none ∧ GivenUp pBleConsumer after := by
  unfold createBleConsumerResources at run
  by_cases early : index < 2
  · rw [bind_run _ (createKeyCache_refused early refused)] at run
    exact (ensures_release pBleConsumer).returning none _ _ _ run
  · -- a sender without a queue or a mutex has a cache without a mutex
    have cacheAborts : ∀ rest : Unit → Allocating (Option BleConsumerMemory),
        Aborts (destroyKeyCache ⟨ledger.attempts, ledger.attempts + 1, cacheSize, none⟩ >>=
          rest) :=
      fun rest => (aborts_destroyKeyCache rfl).bind rest
    rw [bind_run _ (createKeyCache_granted (refused.1.mono (by omega)))] at run
    simp only at run
    by_cases third : index = 2
    · subst third
      rw [allocating_refused _ _ refused.2, cacheAborts _ _] at run
      contradiction
    · obtain rfl : index = 3 := by omega
      rw [allocating_granted _ _ (refused.1 2 (by omega)), AllocationLedger.holding_holding,
        allocating_refused _ _ refused.2, Aborts.after _ fun _ => cacheAborts _] at run
      contradiction

/-! ## The loop over the senders -/

variable {self xMutex arr : Nat}

theorem createConsumers_granted {remaining : Nat} {created : List BleConsumerMemory}
    (granted : Granted grants ledger.attempts (5 * remaining)) :
    (createConsumers grants self xMutex arr cacheSize remaining created).run ledger =
      some (some { self, xMutex, arr,
                   consumers := created ++ consumersFrom ledger.attempts cacheSize remaining },
        ledger.holding (5 * remaining)) := by
  induction remaining generalizing created ledger with
  | zero =>
      unfold createConsumers consumersFrom
      rw [Nat.mul_zero, AllocationLedger.holding_zero, List.range_zero, List.map_nil,
        List.append_nil]
      rfl
  | succ remaining ih =>
      have mutexGranted : grants (ledger.holding 4).attempts = true := granted 4 (by omega)
      have restGranted : Granted grants (ledger.holding 5).attempts (5 * remaining) :=
        granted.shift (by omega)
      unfold createConsumers
      rw [bind_run _ (createBleConsumerResources_granted (granted.mono (by omega)))]
      simp only
      rw [bind_run _ (initBleConsumer_granted mutexGranted), AllocationLedger.holding_holding]
      simp only
      rw [ih restGranted, AllocationLedger.holding_holding, consumersFrom_succ,
        List.append_assoc, AllocationLedger.holding_attempts, Nat.mul_succ, Nat.add_comm 5]
      rfl

theorem abandonCollection_givenUp {created : List BleConsumerMemory}
    (givenUp : GivenUp ⟨arr, created.length⟩ ledger) :
    (abandonCollection self xMutex arr created).run ledger = none := by
  obtain rfl : created = [] := List.length_eq_zero_iff.mp givenUp.1
  have noSender : (destroyBleConsumers arr [].zipIdx).run ledger = some ((), ledger) := rfl
  unfold abandonCollection
  rw [bind_run _ noSender]
  exact bind_stopped _ (release_gone givenUp.2)

theorem aborts_abandonCollection {created : List BleConsumerMemory} (some : created ≠ []) :
    Aborts (abandonCollection self xMutex arr created) := by
  cases created with
  | nil => exact absurd rfl some
  | cons first others =>
      unfold abandonCollection destroyBleConsumers
      cases others with
      | nil =>
          -- the array goes with its first sender
          have destroyed := destroyBleConsumer_givesUp ⟨arr, 0⟩ first
          apply Ensures.stops (destroyed.returning ())
          intro _ _ givenUp
          exact bind_stopped _ (release_gone givenUp.2.2)
      | cons second others =>
          have inner : Aborts (destroyBleConsumer ⟨arr, 1⟩ second) :=
            (destroyBleConsumer_givesUp ⟨arr, 1⟩ second).aborts_inner Nat.one_ne_zero
          apply Aborts.bind
          apply Aborts.after
          intro _
          exact inner.bind _

/-- The memory is not given back when a request of a later sender is refused. -/
theorem createConsumers_stops {remaining index : Nat} {created : List BleConsumerMemory}
    (some : created ≠ []) (below : index < 5 * remaining)
    (refused : FirstRefused grants ledger.attempts index) :
    (createConsumers grants self xMutex arr cacheSize remaining created).run ledger = none := by
  induction remaining generalizing created ledger index with
  | zero => omega
  | succ remaining ih =>
      unfold createConsumers
      by_cases resources : index < 4
      · cases run : (createBleConsumerResources grants ⟨arr, created.length⟩ cacheSize).run
            ledger with
        | none => exact bind_stopped _ run
        | some result =>
            obtain ⟨failed, givenUp⟩ := createBleConsumerResources_refused resources refused run
            rw [bind_run _ run, failed]
            exact abandonCollection_givenUp givenUp
      · rw [bind_run _ (createBleConsumerResources_granted (refused.1.mono (by omega)))]
        simp only
        by_cases mutex : index = 4
        · subst mutex
          rw [bind_run _ (initBleConsumer_refused refused.2)]
          exact aborts_abandonCollection some _
        · have mutexGranted : grants (ledger.holding 4).attempts = true :=
            refused.1 4 (by omega)
          rw [bind_run _ (initBleConsumer_granted mutexGranted),
            AllocationLedger.holding_holding]
          exact ih (List.append_ne_nil_of_right_ne_nil _ (List.cons_ne_nil _ _)) (by omega)
            (refused.shift (by omega))

theorem abandonCollection_empty {start : Nat} (before : start = ledger.attempts)
    (kept count : Nat) :
    (abandonCollection start (start + 1) (start + 2) []).run
        (((ledger.holding 3).holding kept).spent count) =
      some (none, ((ledger.spent 3).holding kept).spent count) := by
  subst before
  have noSender : (destroyBleConsumers (ledger.attempts + 2) [].zipIdx).run
      (((ledger.holding 3).holding kept).spent count) =
        some ((), ((ledger.holding 3).holding kept).spent count) := rfl
  have returned : (((((ledger.holding 3).holding kept).spent count).released
      (ledger.attempts + 2)).released (ledger.attempts + 1)).released ledger.attempts =
        ((ledger.spent 3).holding kept).spent count := by
    apply AllocationLedger.ext_mem
    · rfl
    · intro block
      have fresh : ∀ offset, ledger.attempts + offset ∉ ledger.live := by
        intro offset
        exact AllocationLedger.not_mem_of_le (Nat.le_add_right _ _)
      have first := fresh 0
      have second := fresh 1
      have third := fresh 2
      simp only [AllocationLedger.mem_released, AllocationLedger.mem_spent,
        AllocationLedger.mem_holding, AllocationLedger.holding_attempts,
        AllocationLedger.spent_attempts]
      grind
  unfold abandonCollection
  rw [bind_run _ noSender, bind_run _ (release_run _), bind_run _ (release_run _),
    bind_run _ (release_run _), returned]
  · rfl
  all_goals simp

theorem createConsumers_refused {remaining index start : Nat} (before : start = ledger.attempts)
    (below : index < 5 * remaining)
    (refused : FirstRefused grants (ledger.holding 3).attempts index) :
    (createConsumers grants start (start + 1) (start + 2) cacheSize remaining []).run
        (ledger.holding 3) =
      if index = 4 then some (none, ((ledger.spent 3).holding 4).spent 1) else none := by
  cases remaining with
  | zero => omega
  | succ remaining =>
      unfold createConsumers
      by_cases resources : index < 4
      · rw [if_neg (by omega)]
        cases run : (createBleConsumerResources grants ⟨start + 2, 0⟩ cacheSize).run
            (ledger.holding 3) with
        | none => exact bind_stopped _ run
        | some result =>
            obtain ⟨failed, givenUp⟩ := createBleConsumerResources_refused resources refused run
            rw [List.length_nil, bind_run _ run, failed]
            exact abandonCollection_givenUp givenUp
      · rw [bind_run _ (createBleConsumerResources_granted (refused.1.mono (by omega)))]
        simp only
        by_cases mutex : index = 4
        · subst mutex
          rw [if_pos rfl, bind_run _ (initBleConsumer_refused refused.2)]
          exact abandonCollection_empty before 4 1
        · have mutexGranted : grants ((ledger.holding 3).holding 4).attempts = true :=
            refused.1 4 (by omega)
          have later : FirstRefused grants (((ledger.holding 3).holding 4).holding 1).attempts
              (index - 5) := refused.shift (by omega)
          rw [if_neg mutex, bind_run _ (initBleConsumer_granted mutexGranted)]
          exact createConsumers_stops (List.cons_ne_nil _ _) (by omega) later

/-! ## The collection -/

variable {size : Nat}

theorem createBleConsumerCollection_granted
    (granted : Granted grants ledger.attempts (3 + 5 * size)) :
    (createBleConsumerCollection grants size cacheSize).run ledger =
      some (some (collectionFrom ledger.attempts size cacheSize),
        ledger.holding (3 + 5 * size)) := by
  have restGranted : Granted grants (ledger.holding 3).attempts (5 * size) :=
    granted.shift (by omega)
  unfold createBleConsumerCollection
  rw [allocating_granted _ _ (granted 0 (by omega)),
    allocating_granted _ _ (granted 1 (by omega)), AllocationLedger.holding_holding,
    allocating_granted _ _ (granted 2 (by omega)), AllocationLedger.holding_holding]
  simp only [AllocationLedger.holding_attempts]
  rw [createConsumers_granted restGranted, AllocationLedger.holding_holding]
  rfl

theorem createBleConsumerCollection_refused {index : Nat} (below : index < 3 + 5 * size)
    (refused : FirstRefused grants ledger.attempts index) :
    (createBleConsumerCollection grants size cacheSize).run ledger =
      if index < 3 then some (none, ledger.spent (index + 1))
      else if index = 7 then some (none, ((ledger.spent 3).holding 4).spent 1)
      else none := by
  unfold createBleConsumerCollection
  by_cases own : index < 3
  · rw [if_pos own]
    have firstReturned : ∀ count, ((ledger.holding 1).spent count).released ledger.attempts =
        (ledger.holding 0).spent (count + 1) :=
      fun count => AllocationLedger.holding_returned
    obtain rfl | rfl | rfl : index = 0 ∨ index = 1 ∨ index = 2 := by omega
    · rw [allocating_refused _ _ refused.2]
      rfl
    · have selfHeld : ledger.attempts ∈ ((ledger.holding 1).spent 1).live := by simp
      rw [allocating_granted _ _ (refused.1 0 (by omega)), allocating_refused _ _ refused.2,
        bind_run _ (release_run selfHeld), firstReturned, AllocationLedger.holding_zero]
      rfl
    · have mutexHeld : ledger.attempts + 1 ∈ ((ledger.holding (1 + 1)).spent 1).live := by
        simp
      have mutexReturned : ((ledger.holding (1 + 1)).spent 1).released (ledger.attempts + 1) =
          (ledger.holding 1).spent 2 := AllocationLedger.holding_returned
      have selfHeld : ledger.attempts ∈ ((ledger.holding 1).spent 2).live := by simp
      rw [allocating_granted _ _ (refused.1 0 (by omega)),
        allocating_granted _ _ (refused.1 1 (by omega)), AllocationLedger.holding_holding,
        allocating_refused _ _ refused.2, AllocationLedger.holding_attempts,
        bind_run _ (release_run mutexHeld), mutexReturned,
        bind_run _ (release_run selfHeld), firstReturned, AllocationLedger.holding_zero]
      rfl
  · have refusedLater : FirstRefused grants (ledger.holding 3).attempts (index - 3) :=
      refused.shift (by omega)
    rw [if_neg own, allocating_granted _ _ (refused.1 0 (by omega)),
      allocating_granted _ _ (refused.1 1 (by omega)), AllocationLedger.holding_holding,
      allocating_granted _ _ (refused.1 2 (by omega)), AllocationLedger.holding_holding]
    simp only [AllocationLedger.holding_attempts]
    rw [createConsumers_refused rfl (by omega) refusedLater]
    by_cases mutex : index = 7
    · subst mutex
      rfl
    · rw [if_neg mutex, if_neg (by omega)]

/-! ## The end of a collection -/

/-- The second entry of a map is not the start of a block. -/
theorem aborts_destroyKeyCache_large {keyCache : KeyCacheMemory}
    (large : 2 ≤ keyCache.cacheSize) : Aborts (destroyKeyCache keyCache) := by
  have second : 1 ∈ List.range keyCache.cacheSize := List.mem_range.mpr (by omega)
  unfold destroyKeyCache
  apply Aborts.after
  intro _
  apply Aborts.bind
  exact aborts_forM second (aborts_release_inner Nat.one_ne_zero)

theorem aborts_destroyBleConsumers {consumers : List (BleConsumerMemory × Nat)}
    {entry : BleConsumerMemory × Nat} (member : entry ∈ consumers)
    (defect : entry.2 ≠ 0 ∨ 2 ≤ entry.1.keyCache.cacheSize) :
    Aborts (destroyBleConsumers arr consumers) := by
  apply aborts_forM member
  rcases defect with inner | large
  · exact (destroyBleConsumer_givesUp ⟨arr, entry.2⟩ entry.1).aborts_inner inner
  · unfold destroyBleConsumer
    apply Aborts.after
    intro _
    exact (aborts_destroyKeyCache_large large).bind _

theorem aborts_destroyBleConsumerCollection {start : Nat}
    (defect : 2 ≤ size ∨ size = 1 ∧ 2 ≤ cacheSize) :
    Aborts (destroyBleConsumerCollection (collectionFrom start size cacheSize)) := by
  have destroying : Aborts (destroyBleConsumers (start + 2)
      (consumersFrom (start + 3) cacheSize size).zipIdx.reverse) := by
    obtain ⟨others, rfl⟩ : ∃ others, size = others + 1 :=
      Nat.exists_eq_succ_of_ne_zero (by omega)
    rw [consumersFrom_succ]
    rcases defect with several | ⟨_, large⟩
    · obtain ⟨rest, rfl⟩ : ∃ rest, others = rest + 1 :=
        Nat.exists_eq_succ_of_ne_zero (by omega)
      rw [consumersFrom_succ]
      have second : (consumerFrom (start + 3 + 5) cacheSize, 1) ∈
          (consumerFrom (start + 3) cacheSize :: consumerFrom (start + 3 + 5) cacheSize ::
            consumersFrom (start + 3 + 5 + 5) cacheSize rest).zipIdx.reverse := by simp
      exact aborts_destroyBleConsumers second (Or.inl Nat.one_ne_zero)
    · have first : (consumerFrom (start + 3) cacheSize, 0) ∈
          (consumerFrom (start + 3) cacheSize ::
            consumersFrom (start + 3 + 5) cacheSize others).zipIdx.reverse := by simp
      exact aborts_destroyBleConsumers first (Or.inr large)
  unfold destroyBleConsumerCollection
  apply Aborts.after
  intro _
  exact destroying.bind _

/-- What a destruction that does not stop leaves behind: the array if it has no sender, and
the map of the only sender if the map has no entry. -/
def LeftBehind (start size cacheSize block : Nat) : Prop :=
  size = 0 ∧ block = start + 2 ∨ size = 1 ∧ cacheSize = 0 ∧ block = start + 4

theorem destroyBleConsumerCollection_left
    (whole : ¬ (2 ≤ size ∨ size = 1 ∧ 2 ≤ cacheSize)) :
    ∃ after, (destroyBleConsumerCollection
        (collectionFrom ledger.attempts size cacheSize)).run (ledger.holding (3 + 5 * size)) =
        some ((), after) ∧
      ∀ block, block ∈ after.live ↔
        block ∈ ledger.live ∨ LeftBehind ledger.attempts size cacheSize block := by
  obtain rfl | ⟨rfl, rfl⟩ | ⟨rfl, rfl⟩ :
      size = 0 ∨ size = 1 ∧ cacheSize = 0 ∨ size = 1 ∧ cacheSize = 1 := by omega
  · have program : destroyBleConsumerCollection (collectionFrom ledger.attempts 0 cacheSize) =
        releaseAll [ledger.attempts + 1, ledger.attempts] := by
      simp [destroyBleConsumerCollection, collectionFrom, consumersFrom, destroyBleConsumers,
        releaseAll]
    rw [program]
    apply releaseAll_left
    · simp
    · simp
    · intro block
      simp only [LeftBehind, List.mem_cons, List.not_mem_nil]
      grind
  · have program : destroyBleConsumerCollection (collectionFrom ledger.attempts 1 0) =
        releaseAll [ledger.attempts + 1, ledger.attempts + 5, ledger.attempts + 7,
          ledger.attempts + 3, ledger.attempts + 6, ledger.attempts + 2, ledger.attempts] := by
      simp [destroyBleConsumerCollection, collectionFrom, consumersFrom, destroyBleConsumers,
        destroyBleConsumer, destroyKeyCache, releaseHandle, consumerFrom, releaseAll]
    rw [program]
    apply releaseAll_left
    · simp
    · simp
    · intro block
      simp only [LeftBehind, List.mem_cons, List.not_mem_nil]
      grind
  · have program : destroyBleConsumerCollection (collectionFrom ledger.attempts 1 1) =
        releaseAll [ledger.attempts + 1, ledger.attempts + 5, ledger.attempts + 7,
          ledger.attempts + 4, ledger.attempts + 3, ledger.attempts + 6, ledger.attempts + 2,
          ledger.attempts] := by
      simp [destroyBleConsumerCollection, collectionFrom, consumersFrom, destroyBleConsumers,
        destroyBleConsumer, destroyKeyCache, releaseHandle, consumerFrom, releaseAll]
    rw [program]
    apply releaseAll_left
    · simp
    · simp
    · intro block
      simp only [LeftBehind, List.mem_cons, List.not_mem_nil]
      grind

/-- Which requests are granted decides what the creation of a collection does: it makes the
whole collection, gives everything back, keeps the four blocks of the first sender or stops
the program.  A collection that was made can be destroyed if it has at most one sender, and
that sender a map of at most one entry. -/
theorem collection_memory (grants : Nat → Bool) (size cacheSize : Nat)
    (ledger : AllocationLedger) :
    (Granted grants ledger.attempts (3 + 5 * size) →
      (createBleConsumerCollection grants size cacheSize).run ledger =
        some (some (collectionFrom ledger.attempts size cacheSize),
          ledger.holding (3 + 5 * size))) ∧
    (∀ index < 3 + 5 * size, FirstRefused grants ledger.attempts index →
      (createBleConsumerCollection grants size cacheSize).run ledger =
        if index < 3 then some (none, ledger.spent (index + 1))
        else if index = 7 then some (none, ((ledger.spent 3).holding 4).spent 1)
        else none) ∧
    if 2 ≤ size ∨ size = 1 ∧ 2 ≤ cacheSize then
      (destroyBleConsumerCollection (collectionFrom ledger.attempts size cacheSize)).run
        (ledger.holding (3 + 5 * size)) = none
    else
      ∃ after, (destroyBleConsumerCollection
          (collectionFrom ledger.attempts size cacheSize)).run (ledger.holding (3 + 5 * size)) =
          some ((), after) ∧
        ∀ block, block ∈ after.live ↔
          block ∈ ledger.live ∨ LeftBehind ledger.attempts size cacheSize block := by
  refine ⟨createBleConsumerCollection_granted, ?_, ?_⟩
  · intro index below refused
    exact createBleConsumerCollection_refused below refused
  · split
    · next defect => exact aborts_destroyBleConsumerCollection defect _
    · next whole => exact destroyBleConsumerCollection_left whole

/-- Two senders with caches of five keys: without the mutex of the first cache four blocks are
kept, and a collection that was made cannot be destroyed. -/
theorem collection_memory_two_senders :
    (createBleConsumerCollection (fun request => decide (request ≠ 7)) 2 5).run .initial =
        some (none, ((AllocationLedger.initial.spent 3).holding 4).spent 1) ∧
      (createBleConsumerCollection (fun _ => true) 2 5).run .initial =
        some (some (collectionFrom 0 2 5), AllocationLedger.initial.holding 13) ∧
      (destroyBleConsumerCollection (collectionFrom 0 2 5)).run
        (AllocationLedger.initial.holding 13) = none := by
  refine ⟨?_, ?_, ?_⟩
  · exact (collection_memory (fun request => decide (request ≠ 7)) 2 5 .initial).2.1 7
      (by decide) (by decide)
  · exact (collection_memory (fun _ => true) 2 5 .initial).1 (by decide)
  · exact (collection_memory (fun _ => true) 2 5 .initial).2.2

end BleBroadcast.Receiver.Resources
