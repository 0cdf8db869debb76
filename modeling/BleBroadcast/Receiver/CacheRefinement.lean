import BleBroadcast.Lib.GuardedRun
import BleBroadcast.Core.BeaconPdu
import BleBroadcast.Receiver.KeyCache

/-!
# The key cache as a map over session ids

A frame names its session by a 14-bit id; the cache functions take the low byte
of it and treat the byte 0 as the mark of a free slot.  Here the cache runs next
to the map it stands for, from whole ids to keys, and a lookup is sound when it
returns what the map holds.  It is exactly when the low byte tells the session
from the free slots and from the other sessions stored.
-/

set_option autoImplicit false

namespace BleBroadcast.Receiver

open BleBroadcast.Core BleBroadcast.Lib

/-- A lookup for the id of a frame, or a completed reconstruction of a session's
key, with the tick count at that moment. -/
inductive CacheEvent where
  | lookup (keyId : UInt16) (tickCount : UInt32)
  | complete (keyId : UInt16) (key : Key128b) (tickCount : UInt32)

/-- The cache, and the key of each session that was stored and not evicted since. -/
structure CacheHistory (size : Nat) where
  cache : KeyReconstructionCache size
  stored : UInt16 → Option Key128b

variable {size : Nat}

def freshHistory (garbage : Fin size → KeyReconstructionMap) : CacheHistory size where
  cache := initKeyCache (createKeyCache garbage)
  stored := fun _ => none

/-- Evicting a slot takes away the session whose key it held: the one with its id byte. -/
def evictSlot (history : CacheHistory size) (index : Fin size) : UInt16 → Option Key128b :=
  fun keyId =>
    if keyId.toUInt8 = (history.cache.map index).keyId then none else history.stored keyId

/-- The cache calls of one event.  `get_key_from_cache` and `key_reconstruction_complete`
get the id through a `uint8_t` parameter. -/
def cacheStep (history : CacheHistory size) : CacheEvent → CacheHistory size
  | .lookup keyId tickCount =>
      { history with cache := (getKeyFromCache history.cache keyId.toUInt8 tickCount).2 }
  | .complete keyId key tickCount =>
      if isKeyInCache history.cache keyId.toUInt8 then history
      else
        let (status, evicted, cache) := addOrEvict history.cache key keyId.toUInt8 tickCount
        let kept :=
          match evicted with
          | some index => evictSlot history index
          | none => history.stored
        { cache := cache
          stored := if status = 0 then Function.update kept keyId (some key) else kept }

/-- A lookup returns a key exactly if the session's key is stored, and then that key. -/
def LookupSound (history : CacheHistory size) : CacheEvent → Prop
  | .lookup keyId tickCount =>
      (getKeyFromCache history.cache keyId.toUInt8 tickCount).1 = history.stored keyId
  | .complete _ _ _ => True

instance lookupSoundDecidable (history : CacheHistory size) :
    ∀ event, Decidable (LookupSound history event)
  | .lookup keyId tickCount =>
      inferInstanceAs (Decidable
        ((getKeyFromCache history.cache keyId.toUInt8 tickCount).1 = history.stored keyId))
  | .complete _ _ _ => isTrue trivial

/-- The low byte of the id is not the mark of a slot that is free, and no other
session with the same low byte is stored. -/
def LookupDistinguished (history : CacheHistory size) : CacheEvent → Prop
  | .lookup keyId _ =>
      (keyId.toUInt8 ≠ 0 ∨ ∀ i, (history.cache.map i).keyId ≠ 0) ∧
      ∀ other, other ≠ keyId → other.toUInt8 = keyId.toUInt8 → history.stored other = none
  | .complete _ _ _ => True

theorem forall_sameLowByte_iff (keyId : UInt16) (property : UInt16 → Prop) :
    (∀ other, other ≠ keyId → other.toUInt8 = keyId.toUInt8 → property other) ↔
      ∀ high : Fin 256, wordOfBytes (lowByte keyId) (UInt8.ofNat high) ≠ keyId →
        property (wordOfBytes (lowByte keyId) (UInt8.ofNat high)) := by
  constructor
  · exact fun every high different => every _ different (lowByte_wordOfBytes _ _)
  · intro every other different same
    have bound := (highByte other).toNat_lt
    have word := every ⟨(highByte other).toNat, bound⟩
    rw [UInt8.ofNat_toNat, show lowByte keyId = lowByte other from same.symm,
      wordOfBytes_bytes] at word
    exact word different

instance lookupDistinguishedDecidable (history : CacheHistory size) :
    ∀ event, Decidable (LookupDistinguished history event)
  | .lookup keyId _ =>
      have := decidable_of_iff _
        (forall_sameLowByte_iff keyId fun other => history.stored other = none).symm
      inferInstanceAs (Decidable ((_ ∨ _) ∧ _))
  | .complete _ _ _ => isTrue trivial

/-- No key is put under the mark of a free slot.  While a slot is free, a session
with that low byte counts as cached already, and nothing is stored. -/
def CompletionMarked (history : CacheHistory size) : CacheEvent → Prop
  | .lookup _ _ => True
  | .complete keyId _ _ => keyId.toUInt8 ≠ 0 ∨ ∃ i, (history.cache.map i).keyId = 0

structure Refines (history : CacheHistory size) : Prop where
  shortcut : ShortcutSound history.cache
  distinct : DistinctIds history.cache
  slots : ∀ i, (history.cache.map i).keyId ≠ 0 →
    ∃ keyId, keyId.toUInt8 = (history.cache.map i).keyId ∧
      history.stored keyId = some (history.cache.map i).key
  sessions : ∀ keyId key, history.stored keyId = some key →
    keyId.toUInt8 ≠ 0 ∧
      ∃ i, (history.cache.map i).keyId = keyId.toUInt8 ∧ (history.cache.map i).key = key
  separate : ∀ first second key otherKey, history.stored first = some key →
    history.stored second = some otherKey → first.toUInt8 = second.toUInt8 → first = second

theorem refines_fresh (garbage : Fin size → KeyReconstructionMap) :
    Refines (freshHistory garbage) where
  shortcut := shortcutSound_init garbage
  distinct := fun i _ _ nonzero => absurd (initKeyCache_free (createKeyCache garbage) i) nonzero
  slots := fun i nonzero => absurd (initKeyCache_free (createKeyCache garbage) i) nonzero
  sessions := fun _ _ absurd => by simp [freshHistory] at absurd
  separate := fun _ _ _ _ absurd => by simp [freshHistory] at absurd

/-- In a state where slots and sessions correspond, a lookup is sound exactly if
the low byte of its id is enough. -/
theorem Refines.lookupSound_iff {history : CacheHistory size} (refines : Refines history)
    (event : CacheEvent) : LookupSound history event ↔ LookupDistinguished history event := by
  cases event with
  | complete => exact Iff.rfl
  | lookup keyId tickCount =>
      simp only [LookupSound, LookupDistinguished]
      constructor
      · intro sound
        have hit : ∀ i, (history.cache.map i).keyId = keyId.toUInt8 →
            ∃ key, history.stored keyId = some key := by
          intro i there
          obtain ⟨index, _, result⟩ | ⟨missing, _⟩ :=
            getKeyFromCache_cases refines.shortcut keyId.toUInt8 tickCount
          · exact ⟨_, sound.symm.trans result⟩
          · exact absurd there (missing i)
        constructor
        · by_contra free
          simp only [not_or, not_not, not_forall] at free
          obtain ⟨zero, i, slot⟩ := free
          obtain ⟨key, stored⟩ := hit i (slot.trans zero.symm)
          exact (refines.sessions keyId key stored).1 zero
        · intro other different same
          by_contra held
          obtain ⟨otherKey, otherStored⟩ := Option.ne_none_iff_exists'.mp held
          obtain ⟨_, i, slot, _⟩ := refines.sessions other otherKey otherStored
          obtain ⟨key, stored⟩ := hit i (slot.trans same)
          exact different (refines.separate other keyId otherKey key otherStored stored same)
      · rintro ⟨notFree, alone⟩
        obtain ⟨index, slot, result⟩ | ⟨missing, result⟩ :=
          getKeyFromCache_cases refines.shortcut keyId.toUInt8 tickCount
        · have nonzero : (history.cache.map index).keyId ≠ 0 := by
            rcases notFree with nonzero | noneFree
            · rw [slot]
              exact nonzero
            · exact noneFree index
          obtain ⟨session, low, stored⟩ := refines.slots index nonzero
          have same : session = keyId := by
            by_contra different
            rw [alone session different (low.trans slot)] at stored
            contradiction
          rw [result, ← same, stored]
        · rw [result]
          cases held : history.stored keyId with
          | none => rfl
          | some key =>
              obtain ⟨_, i, slot, _⟩ := refines.sessions keyId key held
              exact absurd slot (missing i)

theorem Refines.store {history next : CacheHistory size} (refines : Refines history)
    {keyId : UInt16} {key : Key128b} {index : Fin size} {slot : KeyReconstructionMap}
    {tickCount : UInt32} {kept : UInt16 → Option Key128b} (nonzero : keyId.toUInt8 ≠ 0)
    (missing : ∀ i, (history.cache.map i).keyId ≠ keyId.toUInt8)
    (shortcut : ShortcutSound next.cache)
    (map : next.cache.map = Function.update history.cache.map index
      (storedSlot slot key keyId.toUInt8 tickCount))
    (stored : next.stored = Function.update kept keyId (some key))
    (keeps : ∀ id sessionKey, kept id = some sessionKey ↔
      history.stored id = some sessionKey ∧ id.toUInt8 ≠ (history.cache.map index).keyId) :
    Refines next := by
  have fresh : ∀ id sessionKey, history.stored id = some sessionKey →
      id.toUInt8 ≠ keyId.toUInt8 := by
    intro id sessionKey held same
    obtain ⟨_, i, there, _⟩ := refines.sessions id sessionKey held
    exact missing i (there.trans same)
  have storedCases : ∀ id sessionKey, next.stored id = some sessionKey →
      (id = keyId ∧ sessionKey = key) ∨
      (history.stored id = some sessionKey ∧ id.toUInt8 ≠ (history.cache.map index).keyId) := by
    intro id sessionKey held
    rw [stored] at held
    by_cases new : id = keyId
    · subst new
      rw [Function.update_self] at held
      exact Or.inl ⟨rfl, (Option.some.inj held).symm⟩
    · rw [Function.update_of_ne new] at held
      exact Or.inr ((keeps id sessionKey).mp held)
  refine ⟨shortcut, refines.distinct.update (fun _ i _ => missing i) map, ?_, ?_, ?_⟩
  · intro i used
    rw [map] at used ⊢
    rw [stored]
    by_cases here : i = index
    · subst here
      simp only [Function.update_self]
      exact ⟨keyId, rfl, by simp [storedSlot]⟩
    · rw [Function.update_of_ne here] at used ⊢
      obtain ⟨id, low, held⟩ := refines.slots i used
      refine ⟨id, low, ?_⟩
      have old : id ≠ keyId := by
        rintro rfl
        exact missing i low.symm
      rw [Function.update_of_ne old]
      refine (keeps id _).mpr ⟨held, ?_⟩
      rw [low]
      exact fun same => here (refines.distinct i index same used)
  · intro id sessionKey held
    rw [map]
    rcases storedCases id sessionKey held with ⟨rfl, rfl⟩ | ⟨old, elsewhere⟩
    · exact ⟨nonzero, index, by simp [storedSlot]⟩
    · obtain ⟨used, i, there, itsKey⟩ := refines.sessions id sessionKey old
      have other : i ≠ index := by
        rintro rfl
        exact elsewhere there.symm
      exact ⟨used, i, by rw [Function.update_of_ne other]; exact ⟨there, itsKey⟩⟩
  · intro first second firstKey secondKey firstHeld secondHeld same
    rcases storedCases first firstKey firstHeld with ⟨rfl, _⟩ | ⟨firstOld, _⟩ <;>
      rcases storedCases second secondKey secondHeld with ⟨rfl, _⟩ | ⟨secondOld, _⟩
    · rfl
    · exact absurd same.symm (fresh second secondKey secondOld)
    · exact absurd same (fresh first firstKey firstOld)
    · exact refines.separate first second firstKey secondKey firstOld secondOld same

theorem Refines.lookup {history : CacheHistory size} (refines : Refines history)
    {keyId : UInt16} (tickCount : UInt32)
    (notFree : keyId.toUInt8 ≠ 0 ∨ ∀ i, (history.cache.map i).keyId ≠ 0) :
    Refines { history with
      cache := (getKeyFromCache history.cache keyId.toUInt8 tickCount).2 } := by
  have keeps := getKeyFromCache_keeps history.cache keyId.toUInt8 tickCount
  refine ⟨refines.shortcut.getKeyFromCache tickCount notFree, ?_, ?_, ?_, refines.separate⟩
  · intro i j same used
    simp only [(keeps i).1, (keeps j).1] at same used
    exact refines.distinct i j same used
  · intro i used
    simp only [(keeps i).1, (keeps i).2] at used ⊢
    exact refines.slots i used
  · intro id key held
    obtain ⟨used, i, there, itsKey⟩ := refines.sessions id key held
    refine ⟨used, i, ?_⟩
    simp only [(keeps i).1, (keeps i).2]
    exact ⟨there, itsKey⟩

theorem Refines.cacheStep {history : CacheHistory size} (refines : Refines history)
    {event : CacheEvent} (distinguished : LookupDistinguished history event)
    (marked : CompletionMarked history event) : Refines (cacheStep history event) := by
  cases event with
  | lookup keyId tickCount => exact refines.lookup tickCount distinguished.1
  | complete keyId key tickCount =>
      by_cases there : isKeyInCache history.cache keyId.toUInt8 = true
      · simp only [Receiver.cacheStep, if_pos there]
        exact refines
      · have missing : ∀ i, (history.cache.map i).keyId ≠ keyId.toUInt8 := by
          intro i same
          exact there ((isKeyInCache_iff refines.shortcut keyId.toUInt8).mpr ⟨i, same⟩)
        have nonzero : keyId.toUInt8 ≠ 0 := by
          rcases marked with nonzero | ⟨i, free⟩
          · exact nonzero
          · intro zero
            exact missing i (free.trans zero.symm)
        simp only [Receiver.cacheStep, if_neg there]
        obtain ⟨index, slot, free, status, evicted, map, shortcut⟩ |
          ⟨index, slot, noneFree, status, evicted, map, shortcut⟩ | nothing :=
          addOrEvict_cases refines.shortcut key tickCount nonzero missing
        · refine refines.store nonzero missing shortcut map (by rw [status, if_pos rfl]) ?_
          intro id sessionKey
          rw [evicted]
          constructor
          · intro held
            refine ⟨held, ?_⟩
            rw [free]
            exact (refines.sessions id sessionKey held).1
          · exact And.left
        · refine refines.store nonzero missing shortcut map (by rw [status, if_pos rfl]) ?_
          intro id sessionKey
          rw [evicted]
          simp only [evictSlot]
          split
          · rename_i same
            exact ⟨fun absurd => by contradiction, fun both => absurd same both.2⟩
          · rename_i other
            exact ⟨fun held => ⟨held, other⟩, And.left⟩
        · simp only [nothing, show ¬ ((-1 : Int) = 0) by decide, if_false]
          exact refines

theorem cacheStep_complete_stored {history : CacheHistory size} {keyId : UInt16} {key : Key128b}
    {tickCount : UInt32} {id : UInt16} {sessionKey : Key128b}
    (held : (cacheStep history (.complete keyId key tickCount)).stored id = some sessionKey) :
    (id = keyId ∧ sessionKey = key) ∨ history.stored id = some sessionKey := by
  have kept : ∀ evicted : Option (Fin size),
      (match evicted with
        | some index => evictSlot history index
        | none => history.stored) id = some sessionKey → history.stored id = some sessionKey := by
    intro evicted held
    cases evicted with
    | none => exact held
    | some index =>
        simp only [evictSlot] at held
        split at held
        · contradiction
        · exact held
  simp only [cacheStep] at held
  split at held
  · exact Or.inr held
  · generalize addOrEvict _ _ _ _ = result at held
    simp only at held
    split at held
    · by_cases new : id = keyId
      · subst new
        rw [Function.update_self] at held
        exact Or.inl ⟨rfl, (Option.some.inj held).symm⟩
      · rw [Function.update_of_ne new] at held
        exact Or.inr (kept _ held)
    · exact Or.inr (kept _ held)

/-- Along every run of lookups and completions from a fresh cache that puts no key
under the mark of a free slot: all lookups are sound exactly if each one is
distinguished by its low byte. -/
theorem lookups_sound_iff (garbage : Fin size → KeyReconstructionMap) (events : List CacheEvent)
    (marked : Guarded cacheStep CompletionMarked (freshHistory garbage) events) :
    Guarded cacheStep LookupSound (freshHistory garbage) events ↔
      Guarded cacheStep LookupDistinguished (freshHistory garbage) events := by
  have main : ∀ (events : List CacheEvent) (history : CacheHistory size), Refines history →
      Guarded cacheStep CompletionMarked history events →
      (Guarded cacheStep LookupSound history events ↔
        Guarded cacheStep LookupDistinguished history events) := by
    intro events
    induction events with
    | nil => exact fun _ _ _ => Iff.rfl
    | cons event rest ih =>
        intro history refines marked
        rw [guarded_cons, guarded_cons, refines.lookupSound_iff event]
        refine and_congr_right fun distinguished => ?_
        exact ih _ (refines.cacheStep distinguished marked.1) marked.2
  exact main events (freshHistory garbage) (refines_fresh garbage) marked

theorem lookups_sound_iff_session_one :
    (Guarded cacheStep LookupSound (freshHistory fun _ : Fin 5 => ⟨fun _ => 0xA5, 7, 3, 0⟩)
        [.complete 1 (fun _ => 0x11) 100, .lookup 1 200] ↔
      Guarded cacheStep LookupDistinguished
        (freshHistory fun _ : Fin 5 => ⟨fun _ => 0xA5, 7, 3, 0⟩)
        [.complete 1 (fun _ => 0x11) 100, .lookup 1 200]) ∧
    Guarded cacheStep LookupSound (freshHistory fun _ : Fin 5 => ⟨fun _ => 0xA5, 7, 3, 0⟩)
      [.complete 1 (fun _ => 0x11) 100, .lookup 1 200] :=
  ⟨lookups_sound_iff _ _ ⟨Or.inl (by decide), trivial, trivial⟩, by decide⟩

/-- In a fresh cache of the size the receiver uses, a lookup for session 256 returns
the zeros of a free slot; and once session 1 is stored, a lookup for session 257
returns its key. -/
theorem lookups_confused :
    ¬ Guarded cacheStep LookupSound (freshHistory fun _ : Fin 5 => ⟨fun _ => 0xA5, 7, 3, 0⟩)
      [.lookup 256 100] ∧
    ¬ Guarded cacheStep LookupSound (freshHistory fun _ : Fin 5 => ⟨fun _ => 0xA5, 7, 3, 0⟩)
      [.complete 1 (fun _ => 0x11) 100, .lookup 257 200] := by
  constructor <;> decide

end BleBroadcast.Receiver
