import BleBroadcast.Lib.SharedLine
import BleBroadcast.Sender.RadioState

/-!
# The broadcast and the scan on one radio

The controller with both halves: a start of the broadcast stops the scan first, and a start of
the scan stops the broadcast first.  Both go by the states that the task of the controller
sets, and both only request, so that the radio follows later.  A scan that was started with a
duration ends by itself, by an event that `esp_gap_cb` does not take for a stop.
-/

set_option autoImplicit false

namespace BleBroadcast.Sender

open BleBroadcast.Core BleBroadcast.Lib

/-- The interval and the window of `esp_ble_scan_params_t`. -/
structure BleScanParams where
  scanInterval : UInt16
  scanWindow : UInt16
  deriving DecidableEq

/-- The calls of the stack, with those of `start_scanning`. -/
inductive RadioRequest where
  | gap (request : GapRequest)
  | setScanParams (params : BleScanParams)
  | startScanning (duration : UInt32)
  deriving DecidableEq

def RadioRequest.completion : RadioRequest → Option GapEvent
  | .gap request => request.completion
  | .setScanParams _ => none
  | .startScanning _ => some .scanStartComplete

def startScanning (bc : BroadcastController) (params : BleScanParams) (duration : UInt32) :
    List RadioRequest :=
  (if bc.broadcastState = .running then (stopBroadcasting bc).map .gap else []) ++
    if bc.scannerState = .notActive then [.setScanParams params, .startScanning duration] else []

/-- `scanning` is the duration of the scan that runs. -/
structure SharedRadio where
  controller : BroadcastController
  requests : List RadioRequest
  eventGroup : GapEvent → Bool
  advertising : Bool
  scanning : Option UInt32

def startUpSharedRadio : SharedRadio where
  controller := initBroadcastController
  requests := []
  eventGroup := fun _ => false
  advertising := false
  scanning := none

def RadioRequest.leavesAdvertising (before : Bool) : RadioRequest → Bool
  | .gap request => request.leavesAdvertising before
  | .setScanParams _ => before
  | .startScanning _ => before

def RadioRequest.leavesScanning (before : Option UInt32) : RadioRequest → Option UInt32
  | .gap .stopScanning => none
  | .gap _ => before
  | .setScanParams _ => before
  | .startScanning duration => some duration

/-- The stack executes the oldest request, and `esp_gap_cb` sets the bit of its event. -/
def executeRadioRequest (radio : SharedRadio) : SharedRadio :=
  match radio.requests with
  | [] => radio
  | request :: rest =>
      { radio with
        requests := rest
        eventGroup := fun event =>
          radio.eventGroup event || decide (request.completion = some event)
        advertising := request.leavesAdvertising radio.advertising
        scanning := request.leavesScanning radio.scanning }

inductive SharedRadioStep where
  | startBroadcasting (params : BleAdvParams)
  | stopBroadcasting
  | setBroadcastingPayload (payload : List UInt8)
  | startScanning (params : BleScanParams) (duration : UInt32)
  | stopScanning
  | executeRequest
  /-- A turn of the loop of `ble_sender_main`. -/
  | handleEvents
  /-- The duration of the scan is over. -/
  | scanTimeout

def SharedRadio.request (radio : SharedRadio) (requests : List RadioRequest) : SharedRadio :=
  { radio with requests := radio.requests ++ requests }

def sharedRadioStep (radio : SharedRadio) : SharedRadioStep → SharedRadio
  | .startBroadcasting params =>
      radio.request ((startBroadcasting radio.controller params).map .gap)
  | .stopBroadcasting => radio.request ((stopBroadcasting radio.controller).map .gap)
  | .setBroadcastingPayload payload =>
      radio.request ((setBroadcastingPayload radio.controller payload).map .gap)
  | .startScanning params duration =>
      radio.request (startScanning radio.controller params duration)
  | .stopScanning => radio.request ((stopScanning radio.controller).map .gap)
  | .executeRequest => executeRadioRequest radio
  | .handleEvents =>
      { radio with
        controller := handleGapEvents radio.controller radio.eventGroup
        eventGroup := fun _ => false }
  | .scanTimeout =>
      { radio with scanning := radio.scanning.filter fun duration => decide (duration = 0) }

/-! ## The two halves -/

inductive RadioHalf where
  | broadcast
  | scan
  deriving DecidableEq

def RadioRequest.turns : RadioRequest → LineRequest RadioHalf
  | .gap (.configAdvDataRaw _) => none
  | .gap (.startAdvertising _) => some (.broadcast, true)
  | .gap .stopAdvertising => some (.broadcast, false)
  | .gap .stopScanning => some (.scan, false)
  | .setScanParams _ => none
  | .startScanning _ => some (.scan, true)

def startEvent : RadioHalf → GapEvent
  | .broadcast => .advStartComplete
  | .scan => .scanStartComplete

def stopEvent : RadioHalf → GapEvent
  | .broadcast => .advStopComplete
  | .scan => .scanStopComplete

def believedOn (bc : BroadcastController) : RadioHalf → Bool
  | .broadcast => decide (bc.broadcastState = .running)
  | .scan => decide (bc.scannerState = .active)

def halfOn (advertising : Bool) (scanning : Option UInt32) : RadioHalf → Bool
  | .broadcast => advertising
  | .scan => scanning.isSome

/-- The radio as two devices on the line of requests to the stack. -/
def lineOf (radio : SharedRadio) : SharedLine RadioHalf where
  state := believedOn radio.controller
  device := halfOn radio.advertising radio.scanning
  requests := radio.requests.map RadioRequest.turns
  started := fun half => radio.eventGroup (startEvent half)
  stopped := fun half => radio.eventGroup (stopEvent half)

def lineStepOf (radio : SharedRadio) : SharedRadioStep → LineStep RadioHalf
  | .startBroadcasting _ => .start .broadcast [.scan] 0
  | .stopBroadcasting => .stop .broadcast
  | .setBroadcastingPayload payload =>
      .neutral (setBroadcastingPayload radio.controller payload).length
  | .startScanning _ _ => .start .scan [.broadcast] 1
  | .stopScanning => .stop .scan
  | .executeRequest => .execute
  | .handleEvents => .handle
  | .scanTimeout =>
      if (radio.scanning.filter fun duration => decide (duration = 0)).isSome then .neutral 0
      else .expire .scan

theorem lineOf_request (radio : SharedRadio) (requests : List RadioRequest) :
    lineOf (radio.request requests) = ask (lineOf radio) (requests.map RadioRequest.turns) := by
  simp [lineOf, SharedRadio.request, ask]

theorem halfOn_leaves (request : RadioRequest) (advertising : Bool) (scanning : Option UInt32) :
    halfOn (request.leavesAdvertising advertising) (request.leavesScanning scanning) =
      turn (halfOn advertising scanning) request.turns := by
  funext half
  cases request with
  | gap request => cases request <;> cases half <;> rfl
  | setScanParams params => rfl
  | startScanning duration => cases half <;> rfl

theorem completion_start (request : RadioRequest) (half : RadioHalf) :
    request.completion = some (startEvent half) ↔ request.turns = some (half, true) := by
  cases request with
  | gap request =>
      cases request <;> cases half <;>
        simp [RadioRequest.completion, RadioRequest.turns, GapRequest.completion, startEvent]
  | setScanParams params => simp [RadioRequest.completion, RadioRequest.turns]
  | startScanning duration =>
      cases half <;> simp [RadioRequest.completion, RadioRequest.turns, startEvent]

theorem completion_stop (request : RadioRequest) (half : RadioHalf) :
    request.completion = some (stopEvent half) ↔ request.turns = some (half, false) := by
  cases request with
  | gap request =>
      cases request <;> cases half <;>
        simp [RadioRequest.completion, RadioRequest.turns, GapRequest.completion, stopEvent]
  | setScanParams params => simp [RadioRequest.completion, RadioRequest.turns]
  | startScanning duration =>
      cases half <;> simp [RadioRequest.completion, RadioRequest.turns, stopEvent]

theorem lineOf_execute (radio : SharedRadio) :
    lineOf (executeRadioRequest radio) = executeLine (lineOf radio) := by
  cases requests : radio.requests with
  | nil => simp [executeRadioRequest, executeLine, lineOf, requests]
  | cons request rest =>
      simp only [executeRadioRequest, executeLine, lineOf, requests, List.map_cons,
        halfOn_leaves, completion_start, completion_stop]

theorem handleGapEvents_scan (bc : BroadcastController) (events : GapEvent → Bool) :
    (handleGapEvents bc events).scannerState =
      if events .scanStopComplete then .notActive
      else if events .scanStartComplete then .active
      else bc.scannerState := by
  unfold handleGapEvents
  cases events .advStartComplete <;> cases events .advStopComplete <;>
    cases events .scanStartComplete <;> cases events .scanStopComplete <;> rfl

theorem believedOn_handle (bc : BroadcastController) (events : GapEvent → Bool)
    (half : RadioHalf) :
    believedOn (handleGapEvents bc events) half =
      if events (stopEvent half) then false
      else if events (startEvent half) then true
      else believedOn bc half := by
  cases half with
  | broadcast =>
      simp only [believedOn, handleGapEvents_broadcastState, startEvent, stopEvent]
      by_cases stop : events .advStopComplete = true
      · simp [stop]
      · by_cases start : events .advStartComplete = true
        · simp [stop, start]
        · simp [stop, start]
  | scan =>
      simp only [believedOn, handleGapEvents_scan, startEvent, stopEvent]
      by_cases stop : events .scanStopComplete = true
      · simp [stop]
      · by_cases start : events .scanStartComplete = true
        · simp [stop, start]
        · simp [stop, start]

theorem turns_stopBroadcasting (bc : BroadcastController) :
    ((stopBroadcasting bc).map RadioRequest.gap).map RadioRequest.turns =
      ([RadioHalf.broadcast].filter (believedOn bc)).map fun half => some (half, false) := by
  unfold stopBroadcasting
  split
  · next running => simp [believedOn, running, RadioRequest.turns]
  · next notRunning => simp [believedOn, notRunning]

theorem turns_stopScanning (bc : BroadcastController) :
    ((stopScanning bc).map RadioRequest.gap).map RadioRequest.turns =
      ([RadioHalf.scan].filter (believedOn bc)).map fun half => some (half, false) := by
  unfold stopScanning
  split
  · next active => simp [believedOn, active, RadioRequest.turns]
  · next notActive => simp [believedOn, notActive]

theorem turns_startBroadcasting (bc : BroadcastController) (params : BleAdvParams) :
    ((startBroadcasting bc params).map RadioRequest.gap).map RadioRequest.turns =
      (([RadioHalf.scan].filter (believedOn bc)).map fun half => some (half, false)) ++
        if believedOn bc .broadcast then [] else [some (.broadcast, true)] := by
  have scan : (if bc.scannerState = .active then stopScanning bc else []) = stopScanning bc := by
    unfold stopScanning
    split <;> rfl
  unfold startBroadcasting
  rw [scan, List.map_append, List.map_append, turns_stopScanning]
  apply congrArg
  cases state : bc.broadcastState with
  | notRunning => simp [believedOn, state, RadioRequest.turns]
  | running => simp [believedOn, state]

theorem turns_startScanning (bc : BroadcastController) (params : BleScanParams)
    (duration : UInt32) :
    (startScanning bc params duration).map RadioRequest.turns =
      (([RadioHalf.broadcast].filter (believedOn bc)).map fun half => some (half, false)) ++
        if believedOn bc .scan then [] else [none, some (.scan, true)] := by
  have broadcast : (if bc.broadcastState = .running then
      (stopBroadcasting bc).map RadioRequest.gap else []) =
        (stopBroadcasting bc).map RadioRequest.gap := by
    unfold stopBroadcasting
    split <;> rfl
  unfold startScanning
  rw [broadcast, List.map_append, turns_stopBroadcasting]
  apply congrArg
  cases state : bc.scannerState with
  | notActive => simp [believedOn, state, RadioRequest.turns]
  | active => simp [believedOn, state]

theorem turns_setBroadcastingPayload (bc : BroadcastController) (payload : List UInt8) :
    ((setBroadcastingPayload bc payload).map RadioRequest.gap).map RadioRequest.turns =
      List.replicate (setBroadcastingPayload bc payload).length none := by
  unfold setBroadcastingPayload
  split <;> rfl

theorem lineOf_step (radio : SharedRadio) (step : SharedRadioStep) :
    lineOf (sharedRadioStep radio step) = lineStep (lineOf radio) (lineStepOf radio step) := by
  cases step with
  | startBroadcasting params =>
      simp only [sharedRadioStep, lineOf_request, lineStepOf, lineStep, turns_startBroadcasting]
      rfl
  | stopBroadcasting =>
      simp only [sharedRadioStep, lineOf_request, lineStepOf, lineStep, turns_stopBroadcasting]
      rfl
  | setBroadcastingPayload payload =>
      simp only [sharedRadioStep, lineOf_request, lineStepOf, lineStep,
        turns_setBroadcastingPayload]
  | startScanning params duration =>
      simp only [sharedRadioStep, lineOf_request, lineStepOf, lineStep, turns_startScanning]
      rfl
  | stopScanning =>
      simp only [sharedRadioStep, lineOf_request, lineStepOf, lineStep, turns_stopScanning]
      rfl
  | executeRequest => exact lineOf_execute radio
  | handleEvents =>
      simp only [sharedRadioStep, lineStepOf, lineStep, lineOf]
      apply congrArg (SharedLine.mk · _ _ _ _)
      funext half
      exact believedOn_handle radio.controller radio.eventGroup half
  | scanTimeout =>
      simp only [sharedRadioStep, lineStepOf]
      cases kept : radio.scanning.filter fun duration => decide (duration = 0) with
      | none =>
          have off : halfOn radio.advertising none =
              Function.update (halfOn radio.advertising radio.scanning) .scan false := by
            funext half
            cases half <;> rfl
          simp only [Option.isSome_none, Bool.false_eq_true, if_false, lineStep, lineOf, off]
      | some duration =>
          have endless : radio.scanning = some duration :=
            (Option.filter_eq_some_iff.mp kept).1
          rw [← endless, Option.isSome_iff_exists.mpr ⟨duration, endless⟩, if_pos rfl]
          simp only [lineStep, ask, List.replicate_zero, List.append_nil]

/-! ## Runs -/

/-- No start or stop of the half is outstanding. -/
def HalfSettled (radio : SharedRadio) (half : RadioHalf) : Prop :=
  (∀ request ∈ radio.requests, ∀ on, request.turns ≠ some (half, on)) ∧
    radio.eventGroup (startEvent half) = false ∧ radio.eventGroup (stopEvent half) = false

/-- A half is started when the other has nothing outstanding.  If a turn of the task finds
both events of a half and no request of it is outstanding, the half is off. -/
def CalledInTurn (radio : SharedRadio) : SharedRadioStep → Prop
  | .startBroadcasting _ => HalfSettled radio .scan
  | .startScanning _ _ => HalfSettled radio .broadcast
  | .handleEvents => ∀ half, (∀ request ∈ radio.requests, ∀ on,
      request.turns ≠ some (half, on)) → radio.eventGroup (startEvent half) = true →
        radio.eventGroup (stopEvent half) = true →
          halfOn radio.advertising radio.scanning half = false
  | _ => True

theorem noRequestOf_iff {radio : SharedRadio} {half : RadioHalf} :
    NoRequestOf (lineOf radio) half ↔
      ∀ request ∈ radio.requests, ∀ on, request.turns ≠ some (half, on) := by
  constructor
  · intro noRequest request member on same
    exact noRequest on (List.mem_map.mpr ⟨request, member, same⟩)
  · intro others on member
    obtain ⟨request, listed, same⟩ := List.mem_map.mp member
    exact others request listed on same

theorem settled_iff {radio : SharedRadio} {half : RadioHalf} :
    Settled (lineOf radio) half ↔ HalfSettled radio half :=
  and_congr noRequestOf_iff Iff.rfl

theorem lineGuard_of_calledInTurn {radio : SharedRadio} {step : SharedRadioStep}
    (inTurn : CalledInTurn radio step) : LineGuard (lineOf radio) (lineStepOf radio step) := by
  cases step with
  | startBroadcasting params =>
      intro other different
      cases other with
      | broadcast => exact absurd rfl different
      | scan => exact ⟨List.mem_singleton_self _, settled_iff.mpr inTurn⟩
  | startScanning params duration =>
      intro other different
      cases other with
      | broadcast => exact ⟨List.mem_singleton_self _, settled_iff.mpr inTurn⟩
      | scan => exact absurd rfl different
  | handleEvents =>
      intro half noRequest start stop
      exact inTurn half (noRequestOf_iff.mp noRequest) start stop
  | scanTimeout =>
      simp only [lineStepOf]
      split <;> trivial
  | stopBroadcasting => trivial
  | setBroadcastingPayload payload => trivial
  | stopScanning => trivial
  | executeRequest => trivial

theorem lineFollowed_start : LineFollowed (lineOf startUpSharedRadio) where
  exclusive := by
    intro first second on
    cases first <;> simp [lineOf, startUpSharedRadio, halfOn] at on
  stopped := by simp [lineOf, startUpSharedRadio]
  settled := by
    intro half _ on
    cases half <;> simp [lineOf, startUpSharedRadio, halfOn] at on

theorem lineFollowed_step (radio : SharedRadio) (step : SharedRadioStep)
    (followed : LineFollowed (lineOf radio)) (inTurn : CalledInTurn radio step) :
    LineFollowed (lineOf (sharedRadioStep radio step)) := by
  rw [lineOf_step]
  exact followed.step _ _ (lineGuard_of_calledInTurn inTurn)

/-- The radio does not advertise and scan at once, in any run in which a half is started only
when nothing of the other is outstanding and in which the task never takes a stop and a later
start of the same half together.  A half that is on with nothing outstanding is known to the
controller. -/
theorem shared_radio_exclusive (steps : List SharedRadioStep)
    (inTurn : Guarded sharedRadioStep CalledInTurn startUpSharedRadio steps) :
    ∀ reached, reached <+: steps →
      let radio := run sharedRadioStep startUpSharedRadio reached
      ¬ (radio.advertising = true ∧ radio.scanning.isSome = true) ∧
        (HalfSettled radio .broadcast → radio.advertising = true →
          radio.controller.broadcastState = .running) ∧
        (HalfSettled radio .scan → radio.scanning.isSome = true →
          radio.controller.scannerState = .active) := by
  intro reached isPrefix radio
  have followed : LineFollowed (lineOf radio) :=
    (inTurn.of_prefix isPrefix).preserves lineFollowed_step lineFollowed_start
  refine ⟨?_, ?_, ?_⟩
  · rintro ⟨advertising, scanning⟩
    have same := followed.exclusive.now .broadcast .scan advertising scanning
    contradiction
  · intro settled on
    exact of_decide_eq_true (followed.settled .broadcast (settled_iff.mpr settled) on)
  · intro settled on
    exact of_decide_eq_true (followed.settled .scan (settled_iff.mpr settled) on)

instance halvesDecidable (good : RadioHalf → Prop) [∀ half, Decidable (good half)] :
    Decidable (∀ half, good half) :=
  decidable_of_iff (good .broadcast ∧ good .scan)
    ⟨fun both half => match half with | .broadcast => both.1 | .scan => both.2,
      fun all => ⟨all .broadcast, all .scan⟩⟩

instance halfSettledDecidable (radio : SharedRadio) (half : RadioHalf) :
    Decidable (HalfSettled radio half) := inferInstanceAs (Decidable (_ ∧ _ ∧ _))

instance calledInTurnDecidable (radio : SharedRadio) :
    ∀ step, Decidable (CalledInTurn radio step)
  | .startBroadcasting _ => inferInstanceAs (Decidable (HalfSettled radio .scan))
  | .startScanning _ _ => inferInstanceAs (Decidable (HalfSettled radio .broadcast))
  | .handleEvents => inferInstanceAs (Decidable (∀ _, _))
  | .stopBroadcasting => isTrue trivial
  | .setBroadcastingPayload _ => isTrue trivial
  | .stopScanning => isTrue trivial
  | .executeRequest => isTrue trivial
  | .scanTimeout => isTrue trivial

def scanAfterBroadcast : List SharedRadioStep :=
  [.startBroadcasting ⟨880, 880⟩, .executeRequest, .handleEvents, .startScanning ⟨160, 160⟩ 0,
    .executeRequest, .executeRequest, .executeRequest, .handleEvents]

theorem shared_radio_exclusive_handover :
    let radio := run sharedRadioStep startUpSharedRadio scanAfterBroadcast
    radio.scanning = some 0 ∧ radio.advertising = false ∧
      radio.controller.scannerState = .active := by
  have known := shared_radio_exclusive scanAfterBroadcast (by decide) scanAfterBroadcast
    (List.prefix_refl _)
  exact ⟨rfl, rfl, known.2.2 (by decide) rfl⟩

-- a scan that is started before the start of the broadcast has completed does not stop it
example :
    let radio := run sharedRadioStep startUpSharedRadio [.startBroadcasting ⟨880, 880⟩,
      .startScanning ⟨160, 160⟩ 0, .executeRequest, .executeRequest, .executeRequest]
    radio.advertising = true ∧ radio.scanning = some 0 := by decide

end BleBroadcast.Sender
