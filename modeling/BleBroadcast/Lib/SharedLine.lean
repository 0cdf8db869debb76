import Mathlib.Logic.Function.Basic
import BleBroadcast.Lib.GuardedRun

/-!
# Devices on one line of requests

An owner turns devices on and off by requests that wait on one line, and learns from events
that a request was executed.  Events of a device that come between two turns of the owner are
handled as the stop coming last.  A device is started together with the stops of the others
that the owner believes to be on; at most one is then on at any time, if at a start the others
have nothing outstanding.
-/

set_option autoImplicit false

namespace BleBroadcast.Lib

universe u

/-- A request turns a device on or off, or touches none. -/
abbrev LineRequest (ι : Type u) := Option (ι × Bool)

structure SharedLine (ι : Type u) where
  state : ι → Bool
  device : ι → Bool
  requests : List (LineRequest ι)
  started : ι → Bool
  stopped : ι → Bool

inductive LineStep (ι : Type u) where
  | start (which : ι) (others : List ι) (before : Nat)
  | stop (which : ι)
  | neutral (count : Nat)
  | execute
  | handle
  /-- A device goes off by itself, and the owner is not told. -/
  | expire (which : ι)

variable {ι : Type u} [DecidableEq ι]

def turn (device : ι → Bool) : LineRequest ι → ι → Bool
  | none => device
  | some (which, on) => Function.update device which on

def stops (line : SharedLine ι) (others : List ι) : List (LineRequest ι) :=
  (others.filter line.state).map fun other => some (other, false)

def ask (line : SharedLine ι) (requests : List (LineRequest ι)) : SharedLine ι :=
  { line with requests := line.requests ++ requests }

def executeLine (line : SharedLine ι) : SharedLine ι :=
  match line.requests with
  | [] => line
  | request :: rest =>
      { line with
        device := turn line.device request
        requests := rest
        started := fun i => line.started i || decide (request = some (i, true))
        stopped := fun i => line.stopped i || decide (request = some (i, false)) }

def lineStep (line : SharedLine ι) : LineStep ι → SharedLine ι
  | .start which others before =>
      ask line (stops line others ++
        if line.state which then [] else List.replicate before none ++ [some (which, true)])
  | .stop which => ask line (stops line [which])
  | .neutral count => ask line (List.replicate count none)
  | .execute => executeLine line
  | .handle =>
      { line with
        state := fun i =>
          if line.stopped i then false else if line.started i then true else line.state i
        started := fun _ => false
        stopped := fun _ => false }
  | .expire which => { line with device := Function.update line.device which false }

def NoRequestOf (line : SharedLine ι) (which : ι) : Prop :=
  ∀ on, some (which, on) ∉ line.requests

def Settled (line : SharedLine ι) (which : ι) : Prop :=
  NoRequestOf line which ∧ line.started which = false ∧ line.stopped which = false

/-- At a start the others are known; and if a turn of the owner finds both events of a device
with nothing outstanding, it was the stop that was executed last. -/
def LineGuard (line : SharedLine ι) : LineStep ι → Prop
  | .start which others _ => ∀ other, other ≠ which → other ∈ others ∧ Settled line other
  | .handle => ∀ which, NoRequestOf line which → line.started which = true →
      line.stopped which = true → line.device which = false
  | _ => True

def AtMostOne (device : ι → Bool) : Prop :=
  ∀ i j, device i = true → device j = true → i = j

def StaysExclusive (device : ι → Bool) : List (LineRequest ι) → Prop
  | [] => AtMostOne device
  | request :: rest => AtMostOne device ∧ StaysExclusive (turn device request) rest

/-! ## Exclusive lines -/

section Exclusive

variable {device fewer : ι → Bool} {requests more : List (LineRequest ι)}

theorem StaysExclusive.now (exclusive : StaysExclusive device requests) : AtMostOne device := by
  cases requests with
  | nil => exact exclusive
  | cons request rest => exact exclusive.1

theorem staysExclusive_append :
    StaysExclusive device (requests ++ more) ↔
      StaysExclusive device requests ∧ StaysExclusive (requests.foldl turn device) more := by
  induction requests generalizing device with
  | nil => exact ⟨fun exclusive => ⟨exclusive.now, exclusive⟩, fun both => both.2⟩
  | cons request rest ih =>
      rw [List.cons_append, StaysExclusive, StaysExclusive, ih, and_assoc]
      rfl

theorem StaysExclusive.last (exclusive : StaysExclusive device requests) :
    AtMostOne (requests.foldl turn device) := by
  rw [← List.append_nil requests] at exclusive
  exact (staysExclusive_append.mp exclusive).2

omit [DecidableEq ι] in
theorem AtMostOne.mono (exclusive : AtMostOne device)
    (less : ∀ i, fewer i = true → device i = true) : AtMostOne fewer :=
  fun i j first second => exclusive i j (less i first) (less j second)

theorem turn_mono (less : ∀ i, fewer i = true → device i = true) (request : LineRequest ι) :
    ∀ i, turn fewer request i = true → turn device request i = true := by
  intro i on
  cases request with
  | none => exact less i on
  | some change =>
      obtain ⟨which, value⟩ := change
      simp only [turn] at on ⊢
      by_cases same : i = which
      · subst same
        rw [Function.update_self] at on ⊢
        exact on
      · rw [Function.update_of_ne same] at on ⊢
        exact less i on

theorem StaysExclusive.mono (exclusive : StaysExclusive device requests)
    (less : ∀ i, fewer i = true → device i = true) : StaysExclusive fewer requests := by
  induction requests generalizing device fewer with
  | nil => exact AtMostOne.mono exclusive less
  | cons request rest ih =>
      exact ⟨exclusive.1.mono less, ih exclusive.2 (turn_mono less request)⟩

theorem foldl_turn_other {which : ι} (others : ∀ on, some (which, on) ∉ requests) :
    requests.foldl turn device which = device which := by
  induction requests generalizing device with
  | nil => rfl
  | cons request rest ih =>
      have restOthers : ∀ on, some (which, on) ∉ rest :=
        fun on member => others on (List.mem_cons_of_mem _ member)
      rw [List.foldl_cons, ih restOthers]
      cases request with
      | none => rfl
      | some change =>
          obtain ⟨changed, value⟩ := change
          have different : which ≠ changed := by
            rintro rfl
            exact others value List.mem_cons_self
          exact Function.update_of_ne different _ _

theorem staysExclusive_of_quiet (quiet : ∀ which, some (which, true) ∉ requests)
    (exclusive : AtMostOne device) : StaysExclusive device requests := by
  induction requests generalizing device with
  | nil => exact exclusive
  | cons request rest ih =>
      refine ⟨exclusive, ih (fun which member => quiet which (List.mem_cons_of_mem _ member)) ?_⟩
      cases request with
      | none => exact exclusive
      | some change =>
          obtain ⟨which, value⟩ := change
          cases value with
          | true => exact absurd List.mem_cons_self (quiet which)
          | false =>
              apply exclusive.mono
              intro i on
              simp only [turn] at on
              by_cases same : i = which
              · subst same
                rw [Function.update_self] at on
                contradiction
              · rwa [Function.update_of_ne same] at on

theorem on_of_quiet (quiet : ∀ which, some (which, true) ∉ requests) {which : ι}
    (on : requests.foldl turn device which = true) :
    device which = true ∧ some (which, false) ∉ requests := by
  induction requests generalizing device with
  | nil => exact ⟨on, List.not_mem_nil⟩
  | cons request rest ih =>
      obtain ⟨before, notLater⟩ :=
        ih (fun which member => quiet which (List.mem_cons_of_mem _ member)) on
      cases request with
      | none => exact ⟨before, by simpa using notLater⟩
      | some change =>
          obtain ⟨changed, value⟩ := change
          cases value with
          | true => exact absurd List.mem_cons_self (quiet changed)
          | false =>
              simp only [turn] at before
              by_cases same : which = changed
              · subst same
                rw [Function.update_self] at before
                contradiction
              · rw [Function.update_of_ne same] at before
                refine ⟨before, ?_⟩
                intro member
                rcases List.mem_cons.mp member with head | later
                · cases head
                  exact same rfl
                · exact notLater later

end Exclusive

/-! ## What the steps keep -/

structure LineFollowed (line : SharedLine ι) : Prop where
  exclusive : StaysExclusive line.device line.requests
  stopped : ∀ i, line.started i = false → line.stopped i = true → line.device i = false
  settled : ∀ i, Settled line i → line.device i = true → line.state i = true

variable {line : SharedLine ι}

theorem LineFollowed.ask (followed : LineFollowed line) {requests : List (LineRequest ι)}
    (exclusive : StaysExclusive (line.requests.foldl turn line.device) requests) :
    LineFollowed (ask line requests) where
  exclusive := staysExclusive_append.mpr ⟨followed.exclusive, exclusive⟩
  stopped := followed.stopped
  settled := by
    rintro i ⟨noRequest, noStart, noStop⟩
    apply followed.settled i
    exact ⟨fun on member => noRequest on (List.mem_append_left _ member), noStart, noStop⟩

omit [DecidableEq ι] in
theorem stops_quiet (others : List ι) : ∀ which, some (which, true) ∉ stops line others := by
  intro which member
  obtain ⟨other, _, same⟩ := List.mem_map.mp member
  cases same

theorem LineFollowed.stop (followed : LineFollowed line) (others : List ι) :
    LineFollowed (Lib.ask line (stops line others)) :=
  followed.ask (staysExclusive_of_quiet (stops_quiet others) followed.exclusive.last)

omit [DecidableEq ι] in
theorem replicate_quiet (count : Nat) :
    ∀ which : ι, some (which, true) ∉ List.replicate count (none : LineRequest ι) := by
  intro which member
  cases (List.mem_replicate.mp member).2

theorem off_after_stops (followed : LineFollowed line) {which other : ι} {others : List ι}
    (guard : other ≠ which → other ∈ others ∧ Settled line other)
    (on : (stops line others).foldl turn (line.requests.foldl turn line.device) other = true) :
    other = which := by
  by_contra different
  obtain ⟨member, settled⟩ := guard different
  obtain ⟨before, notStopped⟩ := on_of_quiet (stops_quiet others) on
  rw [foldl_turn_other settled.1] at before
  apply notStopped
  apply List.mem_map.mpr
  exact ⟨other, List.mem_filter.mpr ⟨member, followed.settled other settled before⟩, rfl⟩

theorem LineFollowed.start (followed : LineFollowed line) {which : ι} {others : List ι}
    {before : Nat} (guard : LineGuard line (.start which others before)) :
    LineFollowed (lineStep line (.start which others before)) := by
  have alone : ∀ device : ι → Bool, (∀ i, device i = true → i = which) → AtMostOne device := by
    intro device only i j first second
    rw [only i first, only j second]
  have offs : ∀ other, (stops line others).foldl turn
      (line.requests.foldl turn line.device) other = true → other = which :=
    fun other => off_after_stops followed (guard other)
  apply followed.ask
  apply staysExclusive_append.mpr
  refine ⟨staysExclusive_of_quiet (stops_quiet others) followed.exclusive.last, ?_⟩
  split
  · exact alone _ offs
  · apply staysExclusive_append.mpr
    refine ⟨staysExclusive_of_quiet (replicate_quiet before) (alone _ offs), ?_⟩
    have still : ∀ i, (List.replicate before none).foldl turn
        ((stops line others).foldl turn (line.requests.foldl turn line.device)) i = true →
          i = which :=
      fun i on => offs i (on_of_quiet (replicate_quiet before) on).1
    refine ⟨alone _ still, alone _ ?_⟩
    intro i on
    by_contra different
    simp only [turn, Function.update_of_ne different] at on
    exact different (still i on)

theorem LineFollowed.execute (followed : LineFollowed line) :
    LineFollowed (executeLine line) := by
  cases requests : line.requests with
  | nil =>
      simp only [executeLine, requests]
      exact followed
  | cons request rest =>
      have exclusive := followed.exclusive
      rw [requests] at exclusive
      have earlier : ∀ i, (∀ on, request ≠ some (i, on)) → (∀ on, some (i, on) ∉ rest) →
          NoRequestOf line i := by
        intro i other noRest on member
        rw [requests] at member
        rcases List.mem_cons.mp member with head | later
        · exact other on head.symm
        · exact noRest on later
      simp only [executeLine, requests]
      cases request with
      | none =>
          refine ⟨exclusive.2, ?_, ?_⟩
          · intro i noStart stop
            exact followed.stopped i (by simpa using noStart) (by simpa using stop)
          · rintro i ⟨noRequest, noStart, noStop⟩ on
            apply followed.settled i ⟨earlier i (by simp) noRequest, ?_, ?_⟩ on
            · simpa using noStart
            · simpa using noStop
      | some change =>
          obtain ⟨which, value⟩ := change
          -- the device of the request has an event now, and the others are as before
          have other : ∀ i, i ≠ which → ∀ on, some (which, value) ≠ some (i, on) := by
            intro i different on same
            cases same
            exact different rfl
          refine ⟨exclusive.2, ?_, ?_⟩
          · intro i noStart stop
            by_cases same : i = which
            · subst same
              cases value with
              | true => simp at noStart
              | false => exact Function.update_self _ _ _
            · have apart := other i same
              simp only [turn, Function.update_of_ne same]
              exact followed.stopped i (by simpa [apart] using noStart)
                (by simpa [apart] using stop)
          · rintro i ⟨noRequest, noStart, noStop⟩ on
            by_cases same : i = which
            · subst same
              cases value with
              | true => simp at noStart
              | false => simp at noStop
            · have apart := other i same
              simp only [turn, Function.update_of_ne same] at on
              apply followed.settled i ⟨earlier i apart noRequest, ?_, ?_⟩ on
              · simpa [apart] using noStart
              · simpa [apart] using noStop

theorem LineFollowed.handle (followed : LineFollowed line) (guard : LineGuard line .handle) :
    LineFollowed (lineStep line .handle) where
  exclusive := followed.exclusive
  stopped := fun _ _ stop => by contradiction
  settled := by
    rintro i ⟨noRequest, _, _⟩ on
    change line.device i = true at on
    simp only [lineStep]
    cases stop : line.stopped i with
    | true =>
        have off : line.device i = false := by
          cases start : line.started i with
          | true => exact guard i noRequest start stop
          | false => exact followed.stopped i start stop
        rw [on] at off
        contradiction
    | false =>
        cases start : line.started i with
        | true => rfl
        | false => exact followed.settled i ⟨noRequest, start, stop⟩ on

theorem LineFollowed.expire (followed : LineFollowed line) (which : ι) :
    LineFollowed (lineStep line (.expire which)) := by
  have less : ∀ i, Function.update line.device which false i = true → line.device i = true := by
    intro i on
    by_cases same : i = which
    · subst same
      rw [Function.update_self] at on
      contradiction
    · rwa [Function.update_of_ne same] at on
  refine ⟨followed.exclusive.mono less, ?_, ?_⟩
  · intro i noStart stop
    by_contra on
    rw [Bool.not_eq_false] at on
    exact absurd (less i on) (by rw [followed.stopped i noStart stop]; decide)
  · exact fun i settled on => followed.settled i settled (less i on)

theorem LineFollowed.step (line : SharedLine ι) (step : LineStep ι)
    (followed : LineFollowed line) (guard : LineGuard line step) :
    LineFollowed (lineStep line step) := by
  cases step with
  | start which others before => exact followed.start guard
  | stop which => exact followed.stop [which]
  | neutral count =>
      exact followed.ask
        (staysExclusive_of_quiet (replicate_quiet count) followed.exclusive.last)
  | execute => exact followed.execute
  | handle => exact followed.handle guard
  | expire which => exact followed.expire which

end BleBroadcast.Lib
