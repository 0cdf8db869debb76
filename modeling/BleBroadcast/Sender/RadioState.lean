import BleBroadcast.Lib.GuardedRun
import BleBroadcast.Sender.BroadcastController

/-!
# The state of the broadcast and the radio

The calls that start and stop the broadcast, the BLE stack that executes their requests in
order, and the task of the controller.  Events that complete between two turns of the task
are merged, and a turn handles the completed start before the completed stop, whichever of
the two came last.
-/

set_option autoImplicit false

namespace BleBroadcast.Sender

open BleBroadcast.Core BleBroadcast.Lib

/-- `requests` are those that the stack has not executed, the oldest first, and `eventGroup`
the events that the task has not handled. -/
structure BroadcastingRadio where
  controller : BroadcastController
  requests : List GapRequest
  eventGroup : GapEvent → Bool
  advertising : Bool

def startUpRadio : BroadcastingRadio where
  controller := initBroadcastController
  requests := []
  eventGroup := fun _ => false
  advertising := false

def GapRequest.leavesAdvertising (before : Bool) : GapRequest → Bool
  | .startAdvertising _ => true
  | .stopAdvertising => false
  | .configAdvDataRaw _ => before
  | .stopScanning => before

/-- The stack executes the oldest request, and `esp_gap_cb` sets the bit of its event. -/
def executeRequest (radio : BroadcastingRadio) : BroadcastingRadio :=
  match radio.requests with
  | [] => radio
  | request :: rest =>
      { radio with
        requests := rest
        eventGroup := fun event =>
          radio.eventGroup event || decide (request.completion = some event)
        advertising := request.leavesAdvertising radio.advertising }

inductive RadioStep where
  | startBroadcasting (params : BleAdvParams)
  | stopBroadcasting
  | executeRequest
  /-- A turn of the loop of `ble_sender_main`. -/
  | handleEvents

def radioStep (radio : BroadcastingRadio) : RadioStep → BroadcastingRadio
  | .startBroadcasting params =>
      { radio with requests := radio.requests ++ startBroadcasting radio.controller params }
  | .stopBroadcasting =>
      { radio with requests := radio.requests ++ stopBroadcasting radio.controller }
  | .executeRequest => executeRequest radio
  | .handleEvents =>
      { radio with
        controller := handleGapEvents radio.controller radio.eventGroup
        eventGroup := fun _ => false }

def NothingOutstanding (radio : BroadcastingRadio) : Prop :=
  radio.requests = [] ∧ ∀ event, radio.eventGroup event = false

/-- With nothing outstanding, the state of the broadcast is that of the radio. -/
def RadioTracked (radio : BroadcastingRadio) : Prop :=
  NothingOutstanding radio →
    (radio.controller.broadcastState = .running ↔ radio.advertising = true)

/-- If a turn of the task finds both events and no request is outstanding, the radio is
silent: of the two it was the stop that was executed last. -/
def StopExecutedLast (radio : BroadcastingRadio) : RadioStep → Prop
  | .handleEvents =>
      radio.requests = [] → radio.eventGroup .advStartComplete = true →
        radio.eventGroup .advStopComplete = true → radio.advertising = false
  | _ => True

/-! ## What the steps keep -/

theorem handleGapEvents_broadcastState (bc : BroadcastController) (events : GapEvent → Bool) :
    (handleGapEvents bc events).broadcastState =
      if events .advStopComplete then .notRunning
      else if events .advStartComplete then .running
      else bc.broadcastState := by
  unfold handleGapEvents
  cases events .advStartComplete <;> cases events .advStopComplete <;>
    cases events .scanStartComplete <;> cases events .scanStopComplete <;> rfl

theorem handleGapEvents_scannerState {bc : BroadcastController} {events : GapEvent → Bool}
    (idle : bc.scannerState = .notActive) (noScan : events .scanStartComplete = false) :
    (handleGapEvents bc events).scannerState = .notActive := by
  simp only [handleGapEvents, noScan]
  cases events .advStartComplete <;> cases events .advStopComplete <;>
    cases events .scanStopComplete <;> first | exact idle | rfl

structure RadioFollowed (radio : BroadcastingRadio) : Prop where
  idleScanner : radio.controller.scannerState = .notActive
  noScan : radio.eventGroup .scanStartComplete = false
  broadcasts : ∀ request ∈ radio.requests,
    request.completion = some .advStartComplete ∨ request.completion = some .advStopComplete
  started : radio.eventGroup .advStartComplete = true →
    radio.eventGroup .advStopComplete = false → radio.advertising = true
  stopped : radio.eventGroup .advStartComplete = false →
    radio.eventGroup .advStopComplete = true → radio.advertising = false
  settled : radio.eventGroup .advStartComplete = false →
    radio.eventGroup .advStopComplete = false → radio.requests = [] →
      (radio.controller.broadcastState = .running ↔ radio.advertising = true)

theorem radioFollowed_start : RadioFollowed startUpRadio where
  idleScanner := rfl
  noScan := rfl
  broadcasts := by simp [startUpRadio]
  started := by simp [startUpRadio]
  stopped := by simp [startUpRadio]
  settled := by simp [startUpRadio, initBroadcastController]

theorem RadioFollowed.tracked {radio : BroadcastingRadio} (followed : RadioFollowed radio) :
    RadioTracked radio := fun ⟨noRequest, noEvent⟩ =>
  followed.settled (noEvent .advStartComplete) (noEvent .advStopComplete) noRequest

theorem RadioFollowed.request {radio : BroadcastingRadio} (followed : RadioFollowed radio)
    {requests : List GapRequest}
    (broadcasts : ∀ request ∈ requests, request.completion = some .advStartComplete ∨
      request.completion = some .advStopComplete) :
    RadioFollowed { radio with requests := radio.requests ++ requests } where
  idleScanner := followed.idleScanner
  noScan := followed.noScan
  broadcasts := by
    intro request member
    rcases List.mem_append.mp member with old | new
    · exact followed.broadcasts request old
    · exact broadcasts request new
  started := followed.started
  stopped := followed.stopped
  settled := fun noStart noStop none =>
    followed.settled noStart noStop (List.append_eq_nil_iff.mp none).1

theorem RadioFollowed.execute {radio : BroadcastingRadio} (followed : RadioFollowed radio) :
    RadioFollowed (executeRequest radio) := by
  cases requests : radio.requests with
  | nil =>
      simp only [executeRequest, requests]
      exact followed
  | cons request rest =>
      have kinds := followed.broadcasts
      rw [requests] at kinds
      have others : ∀ other ∈ rest, other.completion = some .advStartComplete ∨
          other.completion = some .advStopComplete :=
        fun other member => kinds other (List.mem_cons_of_mem _ member)
      have noScan := followed.noScan
      simp only [executeRequest, requests]
      cases request with
      | startAdvertising params =>
          refine ⟨followed.idleScanner, ?_, others, fun _ _ => rfl, ?_, ?_⟩
          · simp [GapRequest.completion, noScan]
          · simp [GapRequest.completion]
          · simp [GapRequest.completion]
      | stopAdvertising =>
          refine ⟨followed.idleScanner, ?_, others, ?_, fun _ _ => rfl, ?_⟩
          · simp [GapRequest.completion, noScan]
          · simp [GapRequest.completion]
          · simp [GapRequest.completion]
      | configAdvDataRaw data =>
          have absurd := kinds _ List.mem_cons_self
          simp [GapRequest.completion] at absurd
      | stopScanning =>
          have absurd := kinds _ List.mem_cons_self
          simp [GapRequest.completion] at absurd

/-- A turn of the task makes the state that of the radio, unless it finds both events and
the stop was not the last to be executed. -/
theorem RadioFollowed.handle {radio : BroadcastingRadio} (followed : RadioFollowed radio)
    (last : StopExecutedLast radio .handleEvents) :
    RadioFollowed (radioStep radio .handleEvents) where
  idleScanner := handleGapEvents_scannerState followed.idleScanner followed.noScan
  noScan := rfl
  broadcasts := followed.broadcasts
  started := fun absurd => by contradiction
  stopped := fun _ absurd => by contradiction
  settled := by
    intro _ _ noRequest
    simp only [radioStep] at noRequest ⊢
    rw [handleGapEvents_broadcastState]
    cases stop : radio.eventGroup .advStopComplete with
    | true =>
        have silent : radio.advertising = false := by
          cases start : radio.eventGroup .advStartComplete with
          | true => exact last noRequest start stop
          | false => exact followed.stopped start stop
        simp [silent]
    | false =>
        cases start : radio.eventGroup .advStartComplete with
        | true => simp [followed.started start stop]
        | false =>
            simp only [Bool.false_eq_true, if_false]
            exact followed.settled start stop noRequest

theorem RadioFollowed.step (radio : BroadcastingRadio) (step : RadioStep)
    (followed : RadioFollowed radio) (last : StopExecutedLast radio step) :
    RadioFollowed (radioStep radio step) := by
  cases step with
  | startBroadcasting params =>
      refine followed.request fun request member => Or.inl ?_
      rcases startBroadcasting_request request member with rfl | rfl
      · simp [startBroadcasting, followed.idleScanner] at member
      · rfl
  | stopBroadcasting =>
      refine followed.request fun request member => Or.inr ?_
      rw [stopBroadcasting_request request member]
      rfl
  | executeRequest => exact followed.execute
  | handleEvents => exact followed.handle last

theorem not_tracked_of_startLast (radio : BroadcastingRadio) (step : RadioStep)
    (_ : RadioFollowed radio) (notLast : ¬ StopExecutedLast radio step) :
    ¬ RadioTracked (radioStep radio step) := by
  cases step with
  | startBroadcasting params => exact absurd trivial notLast
  | stopBroadcasting => exact absurd trivial notLast
  | executeRequest => exact absurd trivial notLast
  | handleEvents =>
      simp only [StopExecutedLast, Classical.not_imp, Bool.not_eq_false] at notLast
      obtain ⟨noRequest, _, stop, advertising⟩ := notLast
      intro tracked
      have running := (tracked ⟨noRequest, fun _ => rfl⟩).mpr advertising
      simp [radioStep, handleGapEvents_broadcastState, stop] at running

/-! ## Runs -/

instance stopExecutedLastDecidable (radio : BroadcastingRadio) :
    ∀ step, Decidable (StopExecutedLast radio step)
  | .handleEvents => inferInstanceAs (Decidable (radio.requests = [] → _ = true → _ → _))
  | .startBroadcasting _ => isTrue trivial
  | .stopBroadcasting => isTrue trivial
  | .executeRequest => isTrue trivial

/-- The state of the broadcast is that of the radio in every state reached with nothing
outstanding, exactly in the runs in which no turn of the task handles a start that was
executed after a stop together with it. -/
theorem radio_tracked_iff (steps : List RadioStep) :
    (∀ reached, reached <+: steps → RadioTracked (run radioStep startUpRadio reached)) ↔
      Guarded radioStep StopExecutedLast startUpRadio steps :=
  (guarded_iff_always RadioFollowed.step not_tracked_of_startLast
    (fun _ followed => followed.tracked) radioFollowed_start steps).symm

/-- The second of two stops is executed after the state has followed the first, and the
start that was allowed by then completes before the next turn of the task. -/
def startAfterSecondStop (params : BleAdvParams) : List RadioStep :=
  [.startBroadcasting params, .executeRequest, .handleEvents,
    .stopBroadcasting, .stopBroadcasting, .executeRequest, .handleEvents,
    .startBroadcasting params, .executeRequest, .executeRequest, .handleEvents]

/-- The radio advertises, and the controller says that nothing runs. -/
theorem radio_not_tracked :
    ¬ RadioTracked (run radioStep startUpRadio (startAfterSecondStop ⟨880, 880⟩)) := by
  intro tracked
  have running := (tracked ⟨rfl, fun _ => rfl⟩).mpr rfl
  exact absurd running (by decide)

end BleBroadcast.Sender
