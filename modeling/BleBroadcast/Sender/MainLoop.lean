import BleBroadcast.Core.TestPdu
import BleBroadcast.Sender.SecondSender

/-!
# The main loop of the sender

The main task of `sender_main.c` over the timer callback, the controller and the stack of the
sender.  It waits for a command, starts the broadcast and the timer, and sets the end PDU of
the test once the callback has counted all packets.  The first sender waits for a command on
the serial line, the second one for some time.
-/

set_option autoImplicit false

namespace BleBroadcast.Sender

open BleBroadcast.Core BleBroadcast.Lib

/-- `sender_app` and `sender_app_2nd`. -/
inductive SenderVersion where
  | first
  | second
  deriving DecidableEq

def versionStep (mb : Mbedtls) : SenderVersion → BroadcastingSender → BroadcastStep →
    BroadcastingSender
  | .first => broadcastStep mb
  | .second => secondSenderStep mb

/-- The state of the main loop, with the calls of `sender_test_start_pdu` and of
`sender_test_end_pdu` one after the other. -/
inductive SenderMainState where
  | waitForStartCmd
  | testStartPdu
  | startBroadcast
  | startTimer
  | broadcastPdu
  | testEndPdu
  | endMeasurement
  deriving DecidableEq

/-- `startCmdReceived` is the binary semaphore that the serial line gives. -/
structure SenderMain where
  sender : BroadcastingSender
  startCmdReceived : Bool
  state : SenderMainState
  measurements : List Measurement

/-- `app_main`, up to its loop. -/
def startSenderMain (draws : RandomDraws) : SenderMain where
  sender :=
    { app := { startSenderApp draws with timerStarted := false }
      defaultBleAdvParams := ⟨msToNConvertion 550, msToNConvertion 550⟩
      controller := initBroadcastController
      eventGroup := fun _ => false
      outstanding := fun _ => false
      point := .returned
      log := [] }
  startCmdReceived := false
  state := .waitForStartCmd
  measurements := []

abbrev maxSerialMsgSize : Nat := 30

/-- `START_CMD_SERIAL`: "START_TEST". -/
def startCmdSerial : List UInt8 := [0x53, 0x54, 0x41, 0x52, 0x54, 0x5F, 0x54, 0x45, 0x53, 0x54]

/-- Data from the serial line that leaves room for a zero in `PC_SERIAL_BUFFER`.  The callback
does not check this: longer data is written past the end of the buffer. -/
abbrev SerialMessage := { data : List UInt8 // data.length < maxSerialMsgSize }

/-- `serial_data_received`: the command is looked for up to the first zero. -/
def serialDataReceived (main : SenderMain) (data : SerialMessage) : SenderMain :=
  if startCmdSerial <:+: data.val.takeWhile (fun byte => byte != 0) then
    { main with startCmdReceived := true }
  else main

def setPayload (sender : BroadcastingSender) (payload : List UInt8) : BroadcastingSender :=
  makeRequests sender (setBroadcastingPayload sender.controller payload)

/-- The next call of the main loop. -/
def mainLoop (version : SenderVersion) (main : SenderMain) : SenderMain :=
  match main.state with
  | .waitForStartCmd =>
      if version = .second then { main with state := .testStartPdu }
      else if main.startCmdReceived then
        { main with startCmdReceived := false, state := .testStartPdu }
      else main
  | .testStartPdu =>
      { main with sender := setPayload main.sender buildTestStartPdu, state := .startBroadcast }
  | .startBroadcast =>
      { main with
        sender := makeRequests main.sender
          (startBroadcasting main.sender.controller main.sender.defaultBleAdvParams)
        state := .startTimer }
  | .startTimer =>
      { main with
        sender := { main.sender with app := { main.sender.app with timerStarted := true } }
        measurements := main.measurements ++ [.started]
        state := .broadcastPdu }
  | .broadcastPdu =>
      if noPacketToSend ≤ main.sender.app.packetSendCounter.toNat then
        { main with state := .testEndPdu }
      else main
  | .testEndPdu =>
      { main with sender := setPayload main.sender buildTestEndPdu, state := .endMeasurement }
  | .endMeasurement =>
      { main with measurements := main.measurements ++ [.ended], state := .testEndPdu }

inductive SenderMainStep where
  | serialData (data : SerialMessage)
  | mainLoop
  /-- A step of the callback, the stack or the task of the controller. -/
  | task (step : BroadcastStep)

def senderMainStep (mb : Mbedtls) (version : SenderVersion) (main : SenderMain) :
    SenderMainStep → SenderMain
  | .serialData data => serialDataReceived main data
  | .mainLoop => mainLoop version main
  | .task step => { main with sender := versionStep mb version main.sender step }

/-! ## What is passed on -/

/-- Data that a sender may pass to the stack: the frame of a PDU it has produced, or the end
PDU after the last one. -/
def Passable (emitted : List Emission) (data : List UInt8) : Prop :=
  (∃ emission ∈ emitted, data = emission.frame) ∨
    (data = buildTestEndPdu ∧ emitted.length = noPacketToSend)

def CallbackPoint.Holds (point : CallbackPoint) (frame : List UInt8) : Prop :=
  point = .waiting frame ∨ point = .behindLoop frame

structure PassesOn (sender : BroadcastingSender) : Prop where
  counted : sender.app.packetSendCounter.toNat = sender.app.trace.emitted.length
  limit : sender.app.trace.emitted.length ≤ noPacketToSend
  marked : ∀ emission ∈ sender.app.trace.emitted, emission.marker = myMarker
  pending : ∀ frame, sender.point.Holds frame →
    ∃ emission ∈ sender.app.trace.emitted, frame = emission.frame
  data : ∀ data ∈ configuredData sender.log, Passable sender.app.trace.emitted data

theorem Passable.later {emitted : List Emission} {data : List UInt8}
    (passable : Passable emitted data) (emission : Emission)
    (below : emitted.length < noPacketToSend) : Passable (emitted ++ [emission]) data := by
  rcases passable with ⟨earlier, member, frame⟩ | ⟨_, done⟩
  · exact Or.inl ⟨earlier, List.mem_append_left _ member, frame⟩
  · omega

theorem configuredData_of_requests {requests : List GapRequest} {data : List UInt8}
    (member : data ∈ configuredData (requests.map .requested)) :
    .configAdvDataRaw data ∈ requests := by
  obtain ⟨event, made, isData⟩ := List.mem_filterMap.mp member
  obtain ⟨request, there, rfl⟩ := List.mem_map.mp made
  cases request with
  | configAdvDataRaw other =>
      obtain rfl := Option.some.inj isData
      exact there
  | startAdvertising params => contradiction
  | stopAdvertising => contradiction
  | stopScanning => contradiction

theorem setBroadcastingPayload_request {bc : BroadcastController} {payload : List UInt8} :
    ∀ request ∈ setBroadcastingPayload bc payload, request = .configAdvDataRaw payload := by
  intro request member
  unfold setBroadcastingPayload at member
  split at member
  · exact List.mem_singleton.mp member
  · exact absurd member List.not_mem_nil

section
variable {sender : BroadcastingSender}

theorem PassesOn.request (passes : PassesOn sender) {requests : List GapRequest}
    (passable : ∀ data, .configAdvDataRaw data ∈ requests →
      Passable sender.app.trace.emitted data) :
    PassesOn (makeRequests sender requests) where
  counted := passes.counted
  limit := passes.limit
  marked := passes.marked
  pending := passes.pending
  data := by
    intro data member
    simp only [makeRequests, configuredData_append] at member
    rcases List.mem_append.mp member with old | new
    · exact passes.data data old
    · exact passable data (configuredData_of_requests new)

theorem PassesOn.setPayload (passes : PassesOn sender) {payload : List UInt8}
    (passable : Passable sender.app.trace.emitted payload) :
    PassesOn (makeRequests sender (setBroadcastingPayload sender.controller payload)) := by
  refine passes.request fun data member => ?_
  obtain rfl := GapRequest.configAdvDataRaw.inj (setBroadcastingPayload_request _ member)
  exact passable

theorem PassesOn.start (passes : PassesOn sender) (params : BleAdvParams) :
    PassesOn (makeRequests sender (startBroadcasting sender.controller params)) := by
  refine passes.request fun data member => ?_
  rcases startBroadcasting_request _ member with same | same <;> contradiction

theorem PassesOn.stop (passes : PassesOn sender) :
    PassesOn (makeRequests sender (stopBroadcasting sender.controller)) :=
  passes.request fun _ member => GapRequest.noConfusion (stopBroadcasting_request _ member)

theorem PassesOn.quiet (passes : PassesOn sender) {next : BroadcastingSender}
    (packets : next.app.packetSendCounter = sender.app.packetSendCounter)
    (trace : next.app.trace = sender.app.trace) (log : next.log = sender.log)
    (pending : ∀ frame, next.point.Holds frame →
      ∃ emission ∈ sender.app.trace.emitted, frame = emission.frame) : PassesOn next where
  counted := by rw [packets, trace, passes.counted]
  limit := by rw [trace]; exact passes.limit
  marked := by rw [trace]; exact passes.marked
  pending := by rw [trace]; exact pending
  data := by rw [log, trace]; exact passes.data

theorem not_holds_of_returned {point : CallbackPoint} (returned : point = .returned)
    (frame : List UInt8) : ¬ point.Holds frame := by
  subst returned
  rintro (waiting | behind)
  · exact CallbackPoint.noConfusion waiting
  · exact CallbackPoint.noConfusion behind

/-! ## The callback -/

theorem nextCall_honest (app : SenderApp) (payload : AcceptedPayload) (draws : RandomDraws) :
    (nextCall app payload draws).Honest := by
  unfold nextCall
  split
  · rfl
  · exact ⟨payload.property, rfl⟩

theorem PassesOn.produced {mb : Mbedtls} (passes : PassesOn sender)
    (below : ¬ noPacketToSend ≤ sender.app.packetSendCounter.toNat)
    (returned : sender.point = .returned) {call : SenderCall} (honest : call.Honest)
    {trace : SenderTrace} (made : senderStep mb sender.app.trace call = some trace) :
    ∃ emission, trace.emitted.drop sender.app.trace.emitted.length = [emission] ∧
      emission ∈ trace.emitted ∧
      PassesOn { sender with
        app := afterCall sender.app trace
        log := sender.log ++ [.produced emission] } := by
  obtain ⟨_, _, emission, _, _, emitted, _, _, marked⟩ := senderStep_honest honest made
  have few : sender.app.trace.emitted.length < noPacketToSend := by
    rw [← passes.counted]
    exact Nat.not_le.mp below
  have length : trace.emitted.length = sender.app.trace.emitted.length + 1 := by
    rw [emitted, List.length_append, List.length_singleton]
  refine ⟨emission, by rw [emitted, List.drop_left], by simp [emitted], ?_⟩
  refine ⟨?_, ?_, ?_, ?_, ?_⟩
  · have one : (1 : UInt32).toNat = 1 := rfl
    simp only [afterCall]
    rw [UInt32.toNat_add, passes.counted, one, length]
    simp only [noPacketToSend] at few
    omega
  · simp only [afterCall]
    omega
  · simp only [afterCall, emitted]
    intro other member
    rcases List.mem_append.mp member with old | new
    · exact passes.marked other old
    · rw [List.mem_singleton.mp new]
      exact marked
  · exact fun frame holds => absurd holds (not_holds_of_returned returned frame)
  · simp only [afterCall, configuredData_produced, emitted]
    exact fun data member => (passes.data data member).later emission few

theorem PassesOn.stopForNewKey (passes : PassesOn sender) (returned : sender.point = .returned)
    {emission : Emission} (member : emission ∈ sender.app.trace.emitted) :
    PassesOn (stopForNewKey sender emission) := by
  simp only [Sender.stopForNewKey]
  split
  · refine passes.stop.quiet rfl rfl rfl fun frame holds => ?_
    rcases holds with waiting | behind
    · exact ⟨emission, member, (CallbackPoint.waiting.inj waiting).symm⟩
    · exact CallbackPoint.noConfusion behind
  · exact passes.quiet rfl rfl rfl fun frame holds =>
      absurd holds (not_holds_of_returned returned frame)

theorem PassesOn.stopOrSetPayload (passes : PassesOn sender)
    (returned : sender.point = .returned) {emission : Emission}
    (member : emission ∈ sender.app.trace.emitted) :
    PassesOn (stopOrSetPayload sender emission) := by
  simp only [Sender.stopOrSetPayload]
  split
  · refine passes.stop.quiet rfl rfl rfl fun frame holds => ?_
    rcases holds with waiting | behind
    · exact ⟨emission, member, (CallbackPoint.waiting.inj waiting).symm⟩
    · exact CallbackPoint.noConfusion behind
  · refine (passes.setPayload (Or.inl ⟨emission, member, rfl⟩)).quiet rfl rfl rfl
      fun frame holds => ?_
    exact absurd holds (not_holds_of_returned returned frame)

theorem PassesOn.beginCallback (mb : Mbedtls) (passes : PassesOn sender)
    (below : ¬ noPacketToSend ≤ sender.app.packetSendCounter.toNat)
    (returned : sender.point = .returned) (payload : AcceptedPayload) (draws : RandomDraws) :
    PassesOn (beginCallback mb sender payload draws) := by
  cases made : senderStep mb sender.app.trace (nextCall sender.app payload draws) with
  | none =>
      simp only [Sender.beginCallback, made]
      refine passes.quiet rfl rfl rfl fun frame holds => ?_
      rcases holds with waiting | behind <;> contradiction
  | some trace =>
      obtain ⟨emission, drop, member, next⟩ :=
        passes.produced below returned (nextCall_honest sender.app payload draws) made
      simp only [Sender.beginCallback, made, drop]
      exact next.stopForNewKey returned member

theorem PassesOn.beginSecondCallback (mb : Mbedtls) (passes : PassesOn sender)
    (below : ¬ noPacketToSend ≤ sender.app.packetSendCounter.toNat)
    (returned : sender.point = .returned) (payload : AcceptedPayload) (draws : RandomDraws) :
    PassesOn (beginSecondCallback mb sender payload draws) := by
  cases made : senderStep mb sender.app.trace (nextCall sender.app payload draws) with
  | none =>
      simp only [Sender.beginSecondCallback, made]
      refine passes.quiet rfl rfl rfl fun frame holds => ?_
      rcases holds with waiting | behind <;> contradiction
  | some trace =>
      obtain ⟨emission, drop, member, next⟩ :=
        passes.produced below returned (nextCall_honest sender.app payload draws) made
      simp only [Sender.beginSecondCallback, made, drop]
      exact next.stopOrSetPayload returned member

theorem PassesOn.continueCallback (passes : PassesOn sender) :
    PassesOn (continueCallback sender) := by
  unfold Sender.continueCallback
  split
  · exact passes
  · rename_i frame there
    split
    · refine passes.quiet rfl rfl rfl fun other holds => ?_
      rcases holds with waiting | behind
      · exact CallbackPoint.noConfusion waiting
      · obtain rfl := CallbackPoint.behindLoop.inj behind
        exact passes.pending frame (Or.inl there)
    · exact passes
  · rename_i frame there
    refine (passes.setPayload (Or.inl (passes.pending frame (Or.inr there)))).quiet rfl rfl rfl
      fun other holds => ?_
    rcases holds with waiting | behind <;> contradiction
  · refine (passes.start sender.defaultBleAdvParams).quiet rfl rfl rfl fun other holds => ?_
    rcases holds with waiting | behind <;> contradiction
  · exact passes

theorem PassesOn.versionStep (mb : Mbedtls) (version : SenderVersion) (passes : PassesOn sender)
    (step : BroadcastStep) : PassesOn (versionStep mb version sender step) := by
  have fired : PassesOn { sender with app := { sender.app with timerStarted := false } } :=
    passes.quiet rfl rfl rfl passes.pending
  have other : ∀ other, timerTicks [other] = [] → PassesOn (broadcastStep mb sender other) := by
    intro other noTick
    cases other with
    | timer payload draws => contradiction
    | callback => exact passes.continueCallback
    | complete event =>
        simp only [broadcastStep]
        split
        · exact passes.quiet rfl rfl rfl passes.pending
        · exact passes
    | handleEvents => exact passes.quiet rfl rfl rfl passes.pending
  cases step with
  | timer payload draws =>
      cases version with
      | first =>
          simp only [Sender.versionStep, broadcastStep, fireTimer]
          split
          · rename_i due
            split
            · exact fired
            · rename_i below
              exact fired.beginCallback mb below due.2 payload draws
          · exact passes
      | second =>
          simp only [Sender.versionStep, secondSenderStep, fireSecondTimer]
          split
          · rename_i due
            split
            · exact fired
            · rename_i below
              exact fired.beginSecondCallback mb below due.2 payload draws
          · exact passes
  | callback => cases version <;> exact other .callback rfl
  | complete event => cases version <;> exact other (.complete event) rfl
  | handleEvents => cases version <;> exact other .handleEvents rfl

theorem beginCallback_emitted (mb : Mbedtls) (payload : AcceptedPayload) (draws : RandomDraws) :
    sender.app.trace.emitted <+:
      (beginCallback mb sender payload draws).app.trace.emitted ∧
    sender.app.trace.emitted <+:
      (beginSecondCallback mb sender payload draws).app.trace.emitted := by
  cases made : senderStep mb sender.app.trace (nextCall sender.app payload draws) with
  | none =>
      simp only [beginCallback, beginSecondCallback, made]
      exact ⟨List.prefix_rfl, List.prefix_rfl⟩
  | some trace =>
      obtain ⟨_, _, emission, _, _, emitted, _⟩ :=
        senderStep_honest (nextCall_honest sender.app payload draws) made
      have more : sender.app.trace.emitted <+: trace.emitted :=
        emitted ▸ List.prefix_append _ _
      simp only [beginCallback, beginSecondCallback, made, emitted, List.drop_left,
        stopForNewKey, stopOrSetPayload]
      constructor
      · split <;> exact more
      · split <;> exact more

theorem versionStep_emitted (mb : Mbedtls) (version : SenderVersion) (step : BroadcastStep) :
    sender.app.trace.emitted <+: (versionStep mb version sender step).app.trace.emitted := by
  have other : ∀ other, timerTicks [other] = [] →
      sender.app.trace.emitted <+: (broadcastStep mb sender other).app.trace.emitted := by
    intro other noTick
    cases other with
    | timer payload draws => contradiction
    | callback =>
        simp only [broadcastStep, continueCallback]
        split
        · exact List.prefix_rfl
        · split <;> exact List.prefix_rfl
        · exact List.prefix_rfl
        · exact List.prefix_rfl
        · exact List.prefix_rfl
    | complete event =>
        simp only [broadcastStep]
        split <;> exact List.prefix_rfl
    | handleEvents => exact List.prefix_rfl
  cases step with
  | timer payload draws =>
      obtain ⟨first, second⟩ := @beginCallback_emitted
        { sender with app := { sender.app with timerStarted := false } } mb payload draws
      cases version with
      | first =>
          simp only [versionStep, broadcastStep, fireTimer]
          split
          · split
            · exact List.prefix_rfl
            · exact first
          · exact List.prefix_rfl
      | second =>
          simp only [versionStep, secondSenderStep, fireSecondTimer]
          split
          · split
            · exact List.prefix_rfl
            · exact second
          · exact List.prefix_rfl
  | callback => cases version <;> exact other .callback rfl
  | complete event => cases version <;> exact other (.complete event) rfl
  | handleEvents => cases version <;> exact other .handleEvents rfl

theorem versionStep_untimed (mb : Mbedtls) (version : SenderVersion) (step : BroadcastStep)
    (stopped : sender.app.timerStarted = false) (returned : sender.point = .returned) :
    (versionStep mb version sender step).app = sender.app ∧
    (versionStep mb version sender step).point = sender.point ∧
    (sender.controller.broadcastState = .notRunning ∧ ¬ Awaited sender .advStartComplete →
      (versionStep mb version sender step).controller.broadcastState = .notRunning ∧
      ¬ Awaited (versionStep mb version sender step) .advStartComplete) := by
  have other : ∀ other, timerTicks [other] = [] →
      (broadcastStep mb sender other).app = sender.app ∧
      (broadcastStep mb sender other).point = sender.point ∧
      (sender.controller.broadcastState = .notRunning ∧ ¬ Awaited sender .advStartComplete →
        (broadcastStep mb sender other).controller.broadcastState = .notRunning ∧
        ¬ Awaited (broadcastStep mb sender other) .advStartComplete) := by
    intro other noTick
    cases other with
    | timer payload draws => contradiction
    | callback =>
        simp only [broadcastStep, continueCallback, returned]
        exact ⟨trivial, trivial, id⟩
    | complete event =>
        simp only [broadcastStep]
        split
        · rename_i outstanding
          refine ⟨rfl, rfl, fun idle => ⟨idle.1, ?_⟩⟩
          rw [awaited_complete outstanding]
          exact idle.2
        · exact ⟨rfl, rfl, id⟩
    | handleEvents =>
        refine ⟨rfl, rfl, fun idle => ?_⟩
        obtain ⟨notRunning, noStart⟩ := idle
        rw [Awaited, not_or, Bool.not_eq_true, Bool.not_eq_true] at noStart
        refine ⟨handleGapEvents_notRunning notRunning noStart.2, ?_⟩
        simp [Awaited, broadcastStep, noStart.1]
  cases step with
  | timer payload draws =>
      cases version with
      | first => simp [versionStep, broadcastStep, fireTimer, stopped]
      | second => simp [versionStep, secondSenderStep, fireSecondTimer, stopped]
  | callback => cases version <;> exact other .callback rfl
  | complete event => cases version <;> exact other (.complete event) rfl
  | handleEvents => cases version <;> exact other .handleEvents rfl

end

/-! ## Runs -/

def SenderMainState.BeforeBroadcast : SenderMainState → Prop
  | .waitForStartCmd => True
  | .testStartPdu => True
  | .startBroadcast => True
  | _ => False

def SenderMainState.BeforeTimer : SenderMainState → Prop
  | .startTimer => True
  | state => state.BeforeBroadcast

def SenderMainState.AfterPackets : SenderMainState → Prop
  | .testEndPdu => True
  | .endMeasurement => True
  | _ => False

theorem SenderMainState.BeforeBroadcast.beforeTimer {state : SenderMainState}
    (early : state.BeforeBroadcast) : state.BeforeTimer := by
  cases state with
  | startTimer => exact trivial
  | waitForStartCmd => exact early
  | testStartPdu => exact early
  | startBroadcast => exact early
  | broadcastPdu => exact early
  | testEndPdu => exact early
  | endMeasurement => exact early

/-- What has been measured: nothing, or all from the one start, without an end before all
packets are produced. -/
def MeasuredOnce (emitted : List Emission) (measurements : List Measurement) : Prop :=
  (measurements = [] ∧ emitted = []) ∨
    ∃ ends, measurements = .started :: List.replicate ends .ended ∧
      (ends ≠ 0 → emitted.length = noPacketToSend)

structure MainSound (main : SenderMain) : Prop where
  passes : PassesOn main.sender
  idle : main.state.BeforeBroadcast →
    main.sender.controller.broadcastState = .notRunning ∧
      ¬ Awaited main.sender .advStartComplete
  untimed : main.state.BeforeTimer → main.sender.app.timerStarted = false ∧
    main.sender.point = .returned ∧ main.sender.app.trace.emitted = [] ∧ main.measurements = []
  measured : MeasuredOnce main.sender.app.trace.emitted main.measurements
  timed : ¬ main.state.BeforeTimer → main.measurements ≠ []
  done : main.state.AfterPackets → main.sender.app.trace.emitted.length = noPacketToSend

theorem mainSound_start (draws : RandomDraws) : MainSound (startSenderMain draws) where
  passes :=
    { counted := rfl
      limit := Nat.zero_le _
      marked := fun _ member => absurd member List.not_mem_nil
      pending := fun frame holds => absurd holds (not_holds_of_returned rfl frame)
      data := fun _ member => absurd member List.not_mem_nil }
  idle := fun _ => ⟨rfl, by simp [Awaited, startSenderMain]⟩
  untimed := fun _ => ⟨rfl, rfl, rfl, rfl⟩
  measured := Or.inl ⟨rfl, rfl⟩
  timed := fun started => absurd trivial started
  done := fun after => after.elim

section
variable {main : SenderMain}

theorem MainSound.task (mb : Mbedtls) (version : SenderVersion) (sound : MainSound main)
    (step : BroadcastStep) :
    MainSound { main with sender := versionStep mb version main.sender step } := by
  have passes := sound.passes.versionStep mb version step
  have more : main.sender.app.trace.emitted <+:
      (versionStep mb version main.sender step).app.trace.emitted :=
    versionStep_emitted mb version step
  have stillDone : main.sender.app.trace.emitted.length = noPacketToSend →
      (versionStep mb version main.sender step).app.trace.emitted.length = noPacketToSend := by
    intro all
    have upper := passes.limit
    have lower := more.length_le
    omega
  by_cases before : main.state.BeforeTimer
  · obtain ⟨stopped, returned, none, unmeasured⟩ := sound.untimed before
    obtain ⟨app, point, idle⟩ := versionStep_untimed mb version step stopped returned
    refine ⟨passes, fun early => idle (sound.idle early), fun _ => ?_, ?_, sound.timed,
      fun after => stillDone (sound.done after)⟩
    · simp only [app, point]
      exact ⟨stopped, returned, none, unmeasured⟩
    · simp only [app]
      exact sound.measured
  · refine ⟨passes, fun early => absurd early.beforeTimer before,
      fun early => absurd early before, ?_, sound.timed,
      fun after => stillDone (sound.done after)⟩
    rcases sound.measured with ⟨none, _⟩ | ⟨ends, measured, all⟩
    · exact absurd none (sound.timed before)
    · exact Or.inr ⟨ends, measured, fun some => stillDone (all some)⟩

theorem MainSound.mainLoop (version : SenderVersion) (sound : MainSound main) :
    MainSound (mainLoop version main) := by
  obtain ⟨sender, startCmdReceived, state, measurements⟩ := main
  obtain ⟨passes, idle, untimed, measured, timed, done⟩ := sound
  have commanded : state = .waitForStartCmd → ∀ startCmdReceived,
      MainSound ⟨sender, startCmdReceived, .testStartPdu, measurements⟩ := by
    rintro rfl startCmdReceived
    exact ⟨passes, idle, untimed, measured, fun late => absurd trivial late,
      fun after => after.elim⟩
  cases state with
  | waitForStartCmd =>
      simp only [Sender.mainLoop]
      split
      · exact commanded rfl startCmdReceived
      · split
        · exact commanded rfl false
        · exact ⟨passes, idle, untimed, measured, timed, done⟩
  | testStartPdu =>
      -- the controller ignores the start PDU: the broadcast does not run
      have ignored := setBroadcastingPayload_notRunning (idle trivial).1 buildTestStartPdu
      have same : setPayload sender buildTestStartPdu = sender := by
        simp [setPayload, ignored, makeRequests]
      simp only [Sender.mainLoop, same]
      exact ⟨passes, idle, untimed, measured, fun late => absurd trivial late,
        fun after => after.elim⟩
  | startBroadcast =>
      exact ⟨passes.start sender.defaultBleAdvParams, fun early => early.elim, untimed, measured,
        fun late => absurd trivial late, fun after => after.elim⟩
  | startTimer =>
      obtain ⟨_, _, none, unmeasured⟩ := untimed trivial
      refine ⟨passes.quiet rfl rfl rfl passes.pending, fun early => early.elim,
        fun early => early.elim, Or.inr ⟨0, ?_, fun some => absurd rfl some⟩, fun _ => ?_,
        fun after => after.elim⟩
      · rw [show measurements = [] from unmeasured]
        rfl
      · simp [Sender.mainLoop]
  | broadcastPdu =>
      simp only [Sender.mainLoop]
      split
      · rename_i all
        rw [passes.counted] at all
        exact ⟨passes, fun early => early.elim, fun early => early.elim, measured, timed,
          fun _ => Nat.le_antisymm passes.limit all⟩
      · exact ⟨passes, idle, untimed, measured, timed, done⟩
  | testEndPdu =>
      exact ⟨passes.setPayload (Or.inr ⟨rfl, done trivial⟩), fun early => early.elim,
        fun early => early.elim, measured, timed, fun _ => done trivial⟩
  | endMeasurement =>
      refine ⟨passes, fun early => early.elim, fun early => early.elim, ?_, fun _ => ?_,
        fun _ => done trivial⟩
      · rcases measured with ⟨none, _⟩ | ⟨ends, before, _⟩
        · exact absurd none (timed id)
        · refine Or.inr ⟨ends + 1, ?_, fun _ => done trivial⟩
          simp only [Sender.mainLoop, show measurements = _ from before]
          rw [List.cons_append, List.replicate_succ']
      · simp [Sender.mainLoop]

theorem MainSound.serialDataReceived (sound : MainSound main) (data : SerialMessage) :
    MainSound (serialDataReceived main data) := by
  unfold Sender.serialDataReceived
  split
  · exact ⟨sound.passes, sound.idle, sound.untimed, sound.measured, sound.timed, sound.done⟩
  · exact sound

theorem MainSound.step (mb : Mbedtls) (version : SenderVersion) (sound : MainSound main)
    (step : SenderMainStep) : MainSound (senderMainStep mb version main step) := by
  cases step with
  | serialData data => exact sound.serialDataReceived data
  | mainLoop => exact sound.mainLoop version
  | task step => exact sound.task mb version step

end

theorem mainSound_run (mb : Mbedtls) (version : SenderVersion) (draws : RandomDraws)
    (steps : List SenderMainStep) :
    MainSound (run (senderMainStep mb version) (startSenderMain draws) steps) :=
  run_preserves MainSound (fun _ step sound => sound.step mb version step)
    (mainSound_start draws) steps

/-- A frame of the protocol and a test PDU differ in their second byte. -/
theorem frame_second {emission : Emission} (marked : emission.marker = myMarker) :
    emission.frame[1]? = some (myMarker 1) := by
  cases emission with
  | data session plaintext nonce pdu =>
      have same : pdu.marker = myMarker := marked
      simp [Emission.frame, BeaconPduData.frame_eq, same]
  | keyFragment session number pdu =>
      have same : pdu.marker = myMarker := marked
      simp [Emission.frame, BeaconKeyPduData.frame_eq, BeaconKeyPduData.bytes, same]

theorem PassesOn.noStartPdu {sender : BroadcastingSender} (passes : PassesOn sender) :
    buildTestStartPdu ∉ configuredData sender.log := by
  intro member
  rcases passes.data _ member with ⟨emission, produced, frame⟩ | ⟨isEnd, _⟩
  · have second := frame_second (passes.marked emission produced)
    rw [← frame] at second
    exact absurd second (by decide)
  · exact absurd isEnd (by decide)

/-- In every run of the tasks of a sender, whatever it passes to the stack is the frame of a
PDU it has produced, or the end PDU once all packets are produced.  It is never the start
PDU.  The sender starts to measure once, before the first PDU, and ends after the last. -/
theorem sender_main_loop (mb : Mbedtls) (version : SenderVersion) (draws : RandomDraws)
    (steps : List SenderMainStep) :
    let final := run (senderMainStep mb version) (startSenderMain draws) steps
    (∀ data ∈ configuredData final.sender.log, Passable final.sender.app.trace.emitted data) ∧
    buildTestStartPdu ∉ configuredData final.sender.log ∧
    MeasuredOnce final.sender.app.trace.emitted final.measurements := by
  have sound := mainSound_run mb version draws steps
  exact ⟨sound.passes.data, sound.passes.noStartPdu, sound.measured⟩

end BleBroadcast.Sender
