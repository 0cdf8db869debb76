import BleBroadcast.Lib.GuardedRun
import BleBroadcast.Sender.BroadcastController
import BleBroadcast.Sender.NonceFreshness
import BleBroadcast.Sender.SenderApp
import BleBroadcast.Sender.SessionOrder

/-!
# PDUs on air

The timer callback of the sender application with the broadcast controller under it.  The
callback stops the broadcast, waits in a loop until the controller says that it does not
run, and only then passes the PDU to the controller, which ignores it in that state.  The
BLE stack and the task of the controller take their steps at any point in between.
-/

set_option autoImplicit false

namespace BleBroadcast.Sender

open BleBroadcast.Core BleBroadcast.Lib

/-- A payload that `encrypt_payload` does not reject. -/
abbrev AcceptedPayload := { payload : List UInt8 // payload.length ≤ maxPduPayloadSize }

/-- Where the timer callback is: it has returned, waits in its loop or goes on behind it,
with the bytes of its local PDU, or a division by zero has stopped it. -/
inductive CallbackPoint where
  | returned
  | waiting (frame : List UInt8)
  | behindLoop (frame : List UInt8)
  | payloadSet
  | trapped
  deriving DecidableEq

inductive SenderEvent where
  | produced (emission : Emission)
  | requested (request : GapRequest)

/-- `outstanding` are the requests that the stack has not completed, and `eventGroup` the
events that the task of the controller has not handled.  The log is a ghost. -/
structure BroadcastingSender where
  app : SenderApp
  defaultBleAdvParams : BleAdvParams
  controller : BroadcastController
  eventGroup : GapEvent → Bool
  outstanding : GapEvent → Bool
  point : CallbackPoint
  log : List SenderEvent

/-- `MS_TO_N_CONVERTION`: units of 0.625 ms. -/
def msToNConvertion (ms : Nat) : UInt16 := UInt16.ofNat (ms * 8 / 5)

def makeRequests (sender : BroadcastingSender) (requests : List GapRequest) :
    BroadcastingSender :=
  { sender with
    outstanding := fun event =>
      sender.outstanding event || requests.any fun request => request.completion = some event
    log := sender.log ++ requests.map .requested }

/-- `app_main` and `sender_test_start_pdu`, with any rotation count and any start PDU. -/
def startBroadcastingSender (draws : RandomDraws) (count : UInt32) (testStartPdu : List UInt8) :
    BroadcastingSender :=
  let started : BroadcastingSender :=
    { app := { startSenderApp draws with
        trace := .start (setKeyReplacementPduCount (initPayloadEncryption draws) count) }
      defaultBleAdvParams := ⟨msToNConvertion 550, msToNConvertion 550⟩
      controller := initBroadcastController
      eventGroup := fun _ => false
      outstanding := fun _ => false
      point := .returned
      log := [] }
  let tested := makeRequests started (setBroadcastingPayload started.controller testStartPdu)
  makeRequests tested (startBroadcasting tested.controller tested.defaultBleAdvParams)

/-! ## The callback -/

/-- The call for the next PDU: after every third data PDU a key fragment. -/
def nextCall (app : SenderApp) (payload : AcceptedPayload) (draws : RandomDraws) : SenderCall :=
  if (getAndIncrementPduSendCounter app).1 = pduToKeyFragmentRatio then
    .getKeyFragmentPdu (fillMarkerInKeyPdu .zero) draws
  else .encryptPayload payload.val (fillMarkerInPdu .zero) draws

def afterCall (app : SenderApp) (trace : SenderTrace) : SenderApp :=
  { (getAndIncrementPduSendCounter app).2 with
    trace := trace
    packetSendCounter := app.packetSendCounter + 1 }

/-- `encrypt_new_payload` and `encrypt_new_key_fragment` after their call: for a key id that
is not the one noted the broadcast is stopped and the loop entered.  Otherwise they return,
and the timer is started. -/
def stopForNewKey (sender : BroadcastingSender) (emission : Emission) : BroadcastingSender :=
  let keyId := sender.app.trace.state.keyId
  if sender.app.prevKeyId ≠ keyId.toUInt32 then
    let interval := msToNConvertion (getAdvIntervalFromKeyId keyId)
    { makeRequests sender (stopBroadcasting sender.controller) with
      defaultBleAdvParams := ⟨interval, interval⟩
      point := .waiting emission.frame }
  else { sender with app := { sender.app with timerStarted := true } }

/-- `packet_send_timeout_timer`, up to the loop or to its end. -/
def beginCallback (mb : Mbedtls) (sender : BroadcastingSender) (payload : AcceptedPayload)
    (draws : RandomDraws) : BroadcastingSender :=
  match senderStep mb sender.app.trace (nextCall sender.app payload draws) with
  | none => { sender with point := .trapped }
  | some trace =>
      let called := { sender with app := afterCall sender.app trace }
      match trace.emitted.drop sender.app.trace.emitted.length with
      | [] => { called with app := { called.app with timerStarted := true } }
      | emission :: _ =>
          stopForNewKey { called with log := sender.log ++ [.produced emission] } emission

/-- The timer fires if it was started, and no sooner than the callback has returned. -/
def fireTimer (mb : Mbedtls) (sender : BroadcastingSender) (payload : AcceptedPayload)
    (draws : RandomDraws) : BroadcastingSender :=
  if sender.app.timerStarted ∧ sender.point = .returned then
    let fired := { sender with app := { sender.app with timerStarted := false } }
    if noPacketToSend ≤ sender.app.packetSendCounter.toNat then fired
    else beginCallback mb fired payload draws
  else sender

/-- The callback goes on: it looks at the state in the loop, sets the payload behind it, or
starts the broadcast and the timer. -/
def continueCallback (sender : BroadcastingSender) : BroadcastingSender :=
  match sender.point with
  | .returned => sender
  | .waiting frame =>
      if sender.controller.broadcastState = .notRunning then
        { sender with point := .behindLoop frame }
      else sender
  | .behindLoop frame =>
      { makeRequests sender (setBroadcastingPayload sender.controller frame) with
        app := { sender.app with
          broadcastPayloads := sender.app.broadcastPayloads ++ [frame] }
        point := .payloadSet }
  | .payloadSet =>
      { makeRequests sender
          (startBroadcasting sender.controller sender.defaultBleAdvParams) with
        app := { sender.app with
          prevKeyId := sender.app.trace.state.keyId.toUInt32
          timerStarted := true }
        point := .returned }
  | .trapped => sender

inductive BroadcastStep where
  | timer (payload : AcceptedPayload) (draws : RandomDraws)
  | callback
  /-- The stack completes a request: `esp_gap_cb` sets the bit of the event. -/
  | complete (event : GapEvent)
  /-- The task of the controller wakes up. -/
  | handleEvents

def broadcastStep (mb : Mbedtls) (sender : BroadcastingSender) : BroadcastStep → BroadcastingSender
  | .timer payload draws => fireTimer mb sender payload draws
  | .callback => continueCallback sender
  | .complete event =>
      if sender.outstanding event then
        { sender with
          outstanding := Function.update sender.outstanding event false
          eventGroup := Function.update sender.eventGroup event true }
      else sender
  | .handleEvents =>
      { sender with
        controller := handleGapEvents sender.controller sender.eventGroup
        eventGroup := fun _ => false }

/-- The stack has completed every request, and its events are handled, before the timer
fires again. -/
def CompletedInTime (sender : BroadcastingSender) : BroadcastStep → Prop
  | .timer _ _ => ∀ event, sender.outstanding event = false ∧ sender.eventGroup event = false
  | _ => True

instance completedInTimeDecidable (sender : BroadcastingSender) :
    ∀ step, Decidable (CompletedInTime sender step)
  | .timer _ _ =>
      decidable_of_iff
        (∀ event ∈ [GapEvent.advStartComplete, .advStopComplete, .scanStartComplete,
          .scanStopComplete], sender.outstanding event = false ∧ sender.eventGroup event = false)
        ⟨fun all event => all event (by cases event <;> simp), fun all event _ => all event⟩
  | .callback => isTrue trivial
  | .complete _ => isTrue trivial
  | .handleEvents => isTrue trivial

def timerTicks (steps : List BroadcastStep) : List RandomDraws :=
  steps.filterMap fun
    | .timer _ draws => some draws
    | _ => none

theorem timerTicks_append (first second : List BroadcastStep) :
    timerTicks (first ++ second) = timerTicks first ++ timerTicks second :=
  List.filterMap_append

/-! ## What was passed to the stack -/

/-- The data is passed to the stack before another PDU is produced. -/
def ConfiguredNext (frame : List UInt8) : List SenderEvent → Prop
  | [] => False
  | .produced _ :: _ => False
  | .requested request :: rest =>
      request = .configAdvDataRaw frame ∨ ConfiguredNext frame rest

/-- Every PDU is passed to the stack, in its full length, before the next one is produced. -/
def EveryPduOnAir : List SenderEvent → Prop
  | [] => True
  | .produced emission :: rest => ConfiguredNext emission.frame rest ∧ EveryPduOnAir rest
  | .requested _ :: rest => EveryPduOnAir rest

instance configuredNextDecidable (frame : List UInt8) :
    ∀ log, Decidable (ConfiguredNext frame log)
  | [] => isFalse id
  | .produced _ :: _ => isFalse id
  | .requested request :: rest =>
      have := configuredNextDecidable frame rest
      inferInstanceAs (Decidable (request = .configAdvDataRaw frame ∨ ConfiguredNext frame rest))

instance everyPduOnAirDecidable : ∀ log, Decidable (EveryPduOnAir log)
  | [] => isTrue trivial
  | .produced emission :: rest =>
      have := everyPduOnAirDecidable rest
      inferInstanceAs (Decidable (ConfiguredNext emission.frame rest ∧ EveryPduOnAir rest))
  | .requested _ :: rest => everyPduOnAirDecidable rest

def NothingConfigured (log : List SenderEvent) : Prop :=
  ∀ data, SenderEvent.requested (.configAdvDataRaw data) ∉ log

theorem NothingConfigured.append {log later : List SenderEvent} (nothing : NothingConfigured log)
    (nothingLater : NothingConfigured later) : NothingConfigured (log ++ later) := by
  intro data member
  rcases List.mem_append.mp member with old | new
  · exact nothing data old
  · exact nothingLater data new

theorem ConfiguredNext.configured {frame : List UInt8} {log : List SenderEvent}
    (next : ConfiguredNext frame log) : SenderEvent.requested (.configAdvDataRaw frame) ∈ log := by
  induction log with
  | nil => exact next.elim
  | cons event rest ih =>
      cases event with
      | produced emission => exact next.elim
      | requested request =>
          rcases next with rfl | later
          · exact List.mem_cons_self
          · exact List.mem_cons_of_mem _ (ih later)

theorem everyPduOnAir_iff {log : List SenderEvent} (nothing : NothingConfigured log) :
    EveryPduOnAir log ↔ ∀ emission, SenderEvent.produced emission ∉ log := by
  induction log with
  | nil => simp [EveryPduOnAir]
  | cons event rest ih =>
      have nothingLater : NothingConfigured rest :=
        fun data member => nothing data (List.mem_cons_of_mem _ member)
      cases event with
      | produced emission =>
          refine iff_of_false (fun onAir => ?_) fun none => none emission List.mem_cons_self
          exact nothingLater _ onAir.1.configured
      | requested request =>
          rw [EveryPduOnAir, ih nothingLater]
          simp

/-! ## Runs -/

def CallbackPoint.Stopping : CallbackPoint → Prop
  | .waiting _ => True
  | .behindLoop _ => True
  | _ => False

/-- No data was passed to the stack.  From the loop on no start of the broadcast is under
way, so that behind the loop it still does not run. -/
structure Silent (sender : BroadcastingSender) : Prop where
  log : NothingConfigured sender.log
  noStart : sender.point.Stopping →
    sender.outstanding .advStartComplete = false ∧ sender.eventGroup .advStartComplete = false
  stopped : ∀ frame, sender.point = .behindLoop frame →
    sender.controller.broadcastState = .notRunning

theorem nothingConfigured_requests {requests : List GapRequest}
    (other : ∀ data, GapRequest.configAdvDataRaw data ∉ requests) :
    NothingConfigured (requests.map .requested) := by
  intro data member
  obtain ⟨request, made, same⟩ := List.mem_map.mp member
  exact other data (SenderEvent.requested.inj same ▸ made)

theorem nothingConfigured_start (bc : BroadcastController) (params : BleAdvParams) :
    NothingConfigured ((startBroadcasting bc params).map .requested) := by
  refine nothingConfigured_requests fun data member => ?_
  rcases startBroadcasting_request _ member with same | same <;> contradiction

theorem nothingConfigured_stop (bc : BroadcastController) :
    NothingConfigured ((stopBroadcasting bc).map .requested) :=
  nothingConfigured_requests fun _ member =>
    GapRequest.noConfusion (stopBroadcasting_request _ member)

theorem nothingConfigured_produced (emission : Emission) :
    NothingConfigured [.produced emission] := by
  intro data member
  exact SenderEvent.noConfusion (List.mem_singleton.mp member)

theorem silent_start (draws : RandomDraws) (count : UInt32) (testStartPdu : List UInt8) :
    Silent (startBroadcastingSender draws count testStartPdu) where
  log := by
    have ignored : setBroadcastingPayload initBroadcastController testStartPdu = [] :=
      setBroadcastingPayload_notRunning rfl testStartPdu
    simp only [startBroadcastingSender, makeRequests, ignored, List.map_nil, List.nil_append]
    exact nothingConfigured_start _ _
  noStart := fun inside => inside.elim
  stopped := fun frame there => CallbackPoint.noConfusion there

section
variable {sender : BroadcastingSender}

theorem Silent.away {log : List SenderEvent} {next : BroadcastingSender}
    (nothing : NothingConfigured log) (sameLog : next.log = log)
    (away : ¬ next.point.Stopping) : Silent next where
  log := by
    rw [sameLog]
    exact nothing
  noStart := fun inside => absurd inside away
  stopped := by
    intro frame there
    rw [there] at away
    exact absurd trivial away

theorem Silent.stopForNewKey {emission : Emission} (nothing : NothingConfigured sender.log)
    (away : ¬ sender.point.Stopping)
    (completed : ∀ event, sender.outstanding event = false ∧ sender.eventGroup event = false) :
    Silent (stopForNewKey sender emission) := by
  simp only [Sender.stopForNewKey]
  split
  · refine ⟨nothing.append (nothingConfigured_stop _), fun _ => ⟨?_, ?_⟩,
      fun frame there => CallbackPoint.noConfusion there⟩
    · -- the only request that may be under way is the one to stop
      simp only [makeRequests, (completed .advStartComplete).1, Bool.false_or,
        List.any_eq_false, decide_eq_true_eq]
      intro request member
      rw [stopBroadcasting_request request member]
      decide
    · exact (completed .advStartComplete).2
  · exact Silent.away nothing rfl away

theorem Silent.beginCallback (mb : Mbedtls) (silent : Silent sender)
    (returned : sender.point = .returned)
    (completed : ∀ event, sender.outstanding event = false ∧ sender.eventGroup event = false)
    (payload : AcceptedPayload) (draws : RandomDraws) :
    Silent (beginCallback mb sender payload draws) := by
  have away : ¬ sender.point.Stopping := by
    rw [returned]
    exact id
  cases made : senderStep mb sender.app.trace (nextCall sender.app payload draws) with
  | none =>
      simp only [Sender.beginCallback, made]
      exact Silent.away silent.log rfl id
  | some trace =>
      cases produced : trace.emitted.drop sender.app.trace.emitted.length with
      | nil =>
          simp only [Sender.beginCallback, made, produced]
          exact Silent.away silent.log rfl away
      | cons emission rest =>
          simp only [Sender.beginCallback, made, produced]
          exact Silent.stopForNewKey (silent.log.append (nothingConfigured_produced emission))
            away completed

theorem Silent.fireTimer (mb : Mbedtls) (silent : Silent sender)
    (completed : ∀ event, sender.outstanding event = false ∧ sender.eventGroup event = false)
    (payload : AcceptedPayload) (draws : RandomDraws) :
    Silent (fireTimer mb sender payload draws) := by
  unfold Sender.fireTimer
  split
  · rename_i due
    have fired : Silent { sender with app := { sender.app with timerStarted := false } } :=
      ⟨silent.log, silent.noStart, silent.stopped⟩
    split
    · exact fired
    · exact fired.beginCallback mb due.2 completed payload draws
  · exact silent

theorem Silent.continueCallback (silent : Silent sender) : Silent (continueCallback sender) := by
  unfold Sender.continueCallback
  split
  · exact silent
  · rename_i frame there
    split
    · rename_i notRunning
      exact ⟨silent.log, fun _ => silent.noStart (by rw [there]; trivial), fun _ _ => notRunning⟩
    · exact silent
  · rename_i frame there
    -- the controller ignores the payload: the broadcast does not run
    have ignored := setBroadcastingPayload_notRunning (silent.stopped frame there) frame
    refine Silent.away silent.log ?_ id
    simp only [makeRequests, ignored, List.map_nil, List.append_nil]
  · exact Silent.away (silent.log.append (nothingConfigured_start _ _)) rfl id
  · exact silent

theorem Silent.complete (silent : Silent sender) {event : GapEvent}
    (outstanding : sender.outstanding event = true) :
    Silent { sender with
      outstanding := Function.update sender.outstanding event false
      eventGroup := Function.update sender.eventGroup event true } where
  log := silent.log
  noStart := by
    intro inside
    obtain ⟨notUnderWay, notSet⟩ := silent.noStart inside
    have other : GapEvent.advStartComplete ≠ event := by
      rintro rfl
      rw [notUnderWay] at outstanding
      contradiction
    simp only [Function.update_of_ne other]
    exact ⟨notUnderWay, notSet⟩
  stopped := silent.stopped

theorem Silent.handleEvents (silent : Silent sender) :
    Silent { sender with
      controller := handleGapEvents sender.controller sender.eventGroup
      eventGroup := fun _ => false } where
  log := silent.log
  noStart := fun inside => ⟨(silent.noStart inside).1, rfl⟩
  stopped := by
    intro frame there
    have inside : sender.point.Stopping := by
      rw [show sender.point = .behindLoop frame from there]
      trivial
    exact handleGapEvents_notRunning (silent.stopped frame there) (silent.noStart inside).2

theorem Silent.step (mb : Mbedtls) (silent : Silent sender) (step : BroadcastStep)
    (inTime : CompletedInTime sender step) : Silent (broadcastStep mb sender step) := by
  cases step with
  | timer payload draws => exact silent.fireTimer mb inTime payload draws
  | callback => exact silent.continueCallback
  | complete event =>
      simp only [broadcastStep]
      split
      · rename_i outstanding
        exact silent.complete outstanding
      · exact silent
  | handleEvents => exact silent.handleEvents

/-! ## PDUs and the timer -/

theorem stopForNewKey_log (emission : Emission) :
    sender.log <+: (stopForNewKey sender emission).log := by
  simp only [stopForNewKey]
  split
  · exact List.prefix_append _ _
  · exact List.prefix_rfl

theorem broadcastStep_log (mb : Mbedtls) (step : BroadcastStep) :
    sender.log <+: (broadcastStep mb sender step).log := by
  cases step with
  | timer payload draws =>
      simp only [broadcastStep, fireTimer]
      split
      · split
        · exact List.prefix_rfl
        · simp only [beginCallback]
          split
          · exact List.prefix_rfl
          · split
            · exact List.prefix_rfl
            · refine List.IsPrefix.trans ?_ (stopForNewKey_log _)
              exact List.prefix_append _ _
      · exact List.prefix_rfl
  | callback =>
      simp only [broadcastStep, continueCallback]
      split
      · exact List.prefix_rfl
      · split <;> exact List.prefix_rfl
      · exact List.prefix_append _ _
      · exact List.prefix_append _ _
      · exact List.prefix_rfl
  | complete event =>
      simp only [broadcastStep]
      split <;> exact List.prefix_rfl
  | handleEvents => exact List.prefix_rfl

structure Unfired (sender : BroadcastingSender) : Prop where
  returned : sender.point = .returned
  started : sender.app.timerStarted = true
  packets : sender.app.packetSendCounter = 0
  rotation : sender.app.trace.state.keyReplacementPacketCounter ≠ 0
  none : ∀ emission, SenderEvent.produced emission ∉ sender.log

theorem unfired_start (draws : RandomDraws) {count : UInt32} (positive : count ≠ 0)
    (testStartPdu : List UInt8) :
    Unfired (startBroadcastingSender draws count testStartPdu) where
  returned := rfl
  started := rfl
  packets := rfl
  rotation := positive
  none := by
    intro emission member
    simp [startBroadcastingSender, makeRequests] at member

theorem nextCall_accepted (app : SenderApp) (payload : AcceptedPayload) (draws : RandomDraws) :
    ¬ (nextCall app payload draws).Rejected := by
  unfold nextCall
  split
  · exact id
  · exact Nat.not_lt.mpr payload.property

theorem Unfired.timer (mb : Mbedtls) (unfired : Unfired sender) (payload : AcceptedPayload)
    (draws : RandomDraws) :
    ∃ emission, SenderEvent.produced emission ∈ (fireTimer mb sender payload draws).log := by
  obtain ⟨trace, made, _⟩ := senderStep_returns mb unfired.rotation
    (nextCall sender.app payload draws)
  obtain ⟨rejected, _⟩ | ⟨_, _, emission, _, _, emitted, _⟩ := senderStep_cases made
  · exact absurd rejected (nextCall_accepted sender.app payload draws)
  · refine ⟨emission, ?_⟩
    have below : ¬ noPacketToSend ≤ sender.app.packetSendCounter.toNat := by
      rw [unfired.packets]
      decide
    have produced : trace.emitted.drop sender.app.trace.emitted.length = [emission] := by
      rw [emitted, List.drop_left]
    have sameCall : nextCall { sender.app with timerStarted := false } payload draws =
        nextCall sender.app payload draws := rfl
    simp only [fireTimer, unfired.started, unfired.returned, and_self, if_true, if_neg below,
      beginCallback, sameCall, made, produced]
    exact (stopForNewKey_log emission).subset (by simp)

theorem Unfired.other (mb : Mbedtls) (unfired : Unfired sender) {step : BroadcastStep}
    (other : timerTicks [step] = []) : Unfired (broadcastStep mb sender step) := by
  obtain ⟨returned, started, packets, rotation, none⟩ := unfired
  cases step with
  | timer payload draws => simp [timerTicks] at other
  | callback =>
      simp only [broadcastStep, continueCallback, returned]
      exact ⟨returned, started, packets, rotation, none⟩
  | complete event =>
      simp only [broadcastStep]
      split <;> exact ⟨returned, started, packets, rotation, none⟩
  | handleEvents => exact ⟨returned, started, packets, rotation, none⟩

end

theorem run_log (mb : Mbedtls) (steps : List BroadcastStep) (sender : BroadcastingSender) :
    sender.log <+: (run (broadcastStep mb) sender steps).log :=
  run_preserves (fun next : BroadcastingSender => sender.log <+: next.log)
    (fun _ step before => before.trans (broadcastStep_log mb step)) List.prefix_rfl steps

theorem Unfired.run_produced_iff (mb : Mbedtls) (steps : List BroadcastStep) :
    ∀ {sender : BroadcastingSender}, Unfired sender →
      ((∀ emission, SenderEvent.produced emission ∉ (run (broadcastStep mb) sender steps).log) ↔
        timerTicks steps = []) := by
  induction steps with
  | nil => exact fun unfired => iff_of_true unfired.none rfl
  | cons step rest ih =>
      intro sender unfired
      have ticks : timerTicks (step :: rest) = timerTicks [step] ++ timerTicks rest :=
        timerTicks_append [step] rest
      by_cases other : timerTicks [step] = []
      · rw [run_cons, ih (unfired.other mb other), ticks, other, List.nil_append]
      · refine iff_of_false (fun none => ?_) fun noTicks => ?_
        · cases step with
          | timer payload draws =>
              obtain ⟨emission, produced⟩ := unfired.timer mb payload draws
              exact none emission ((run_log mb rest _).subset produced)
          | callback => exact other rfl
          | complete event => exact other rfl
          | handleEvents => exact other rfl
        · rw [ticks] at noTicks
          exact other (List.append_eq_nil_iff.mp noTicks).1

/-- If the stack completes every request before the next tick: the sender never passes data
to the stack, and all PDUs of a run are on air only if the timer never fires. -/
theorem pdus_on_air_iff (mb : Mbedtls) (draws : RandomDraws) (count : UInt32)
    (positive : count ≠ 0) (testStartPdu : List UInt8) (steps : List BroadcastStep)
    (inTime : Guarded (broadcastStep mb) CompletedInTime
      (startBroadcastingSender draws count testStartPdu) steps) :
    let final := run (broadcastStep mb) (startBroadcastingSender draws count testStartPdu) steps
    NothingConfigured final.log ∧ (EveryPduOnAir final.log ↔ timerTicks steps = []) := by
  intro final
  have silent : Silent final := inTime.preserves (fun _ step silent ok => silent.step mb step ok)
    (silent_start draws count testStartPdu)
  refine ⟨silent.log, ?_⟩
  rw [everyPduOnAir_iff silent.log]
  exact (unfired_start draws positive testStartPdu).run_produced_iff mb steps

theorem testPayload10Bytes_accepted : testPayload10Bytes.length ≤ maxPduPayloadSize := by decide

def testPayload : AcceptedPayload := ⟨testPayload10Bytes, testPayload10Bytes_accepted⟩

def stopAndGoOn : List BroadcastStep :=
  [.complete .advStopComplete, .handleEvents, .callback, .callback, .callback]

def oneTick : List BroadcastStep :=
  [.complete .advStartComplete, .handleEvents, .timer testPayload ⟨fun _ => 2, 2, 0x10⟩] ++
    stopAndGoOn

theorem pdus_on_air_one_tick :
    let final := run (broadcastStep tabulated)
      (startBroadcastingSender ⟨fun _ => 1, 1, 0⟩ 200 [0xFF]) oneTick
    final.point = .returned ∧ NothingConfigured final.log ∧
      (EveryPduOnAir final.log ↔ timerTicks oneTick = []) :=
  ⟨by decide +kernel, pdus_on_air_iff tabulated ⟨fun _ => 1, 1, 0⟩ 200 (by decide) [0xFF] oneTick
    (by decide +kernel)⟩

/-- The first key fragment is never passed to the stack, although the callback has returned. -/
theorem first_pdu_not_on_air :
    ¬ ∀ (mb : Mbedtls) (draws : RandomDraws) (count : UInt32) (testStartPdu : List UInt8)
      (steps : List BroadcastStep), count ≠ 0 →
      Guarded (broadcastStep mb) CompletedInTime
        (startBroadcastingSender draws count testStartPdu) steps →
      (run (broadcastStep mb) (startBroadcastingSender draws count testStartPdu)
        steps).point = .returned →
      EveryPduOnAir (run (broadcastStep mb) (startBroadcastingSender draws count testStartPdu)
        steps).log := by
  intro always
  have onAir := always tabulated ⟨fun _ => 1, 1, 0⟩ 200 [0xFF] oneTick (by decide)
    (by decide +kernel) (by decide +kernel)
  revert onAir
  decide +kernel

/-! ## The callback in one piece -/

theorem run_stopAndGoOn (mb : Mbedtls) {sender : BroadcastingSender} {frame : List UInt8}
    (waiting : sender.point = .waiting frame)
    (stopping : sender.controller.broadcastState = .running →
      sender.outstanding .advStopComplete = true)
    (noStart : sender.eventGroup .advStartComplete = false) :
    let final := run (broadcastStep mb) sender stopAndGoOn
    final.point = .returned ∧
    final.app = { sender.app with
      broadcastPayloads := sender.app.broadcastPayloads ++ [frame]
      prevKeyId := sender.app.trace.state.keyId.toUInt32
      timerStarted := true } := by
  obtain ⟨stopped, handled, notRunning, samePoint, sameApp⟩ : ∃ stopped,
      run (broadcastStep mb) sender [.complete .advStopComplete, .handleEvents] = stopped ∧
      stopped.controller.broadcastState = .notRunning ∧ stopped.point = .waiting frame ∧
      stopped.app = sender.app := by
    refine ⟨_, rfl, ?_, ?_, ?_⟩ <;> simp only [run_cons, run_nil, broadcastStep]
    · cases state : sender.controller.broadcastState with
      | notRunning =>
          split
          · apply handleGapEvents_notRunning state
            simpa using noStart
          · exact handleGapEvents_notRunning state noStart
      | running =>
          simp only [stopping state, if_true, handleGapEvents, Function.update_self]
          split <;> split <;> rfl
    · split <;> exact waiting
    · split <;> rfl
  have split : run (broadcastStep mb) sender stopAndGoOn =
      run (broadcastStep mb) stopped [.callback, .callback, .callback] := by
    rw [← handled]
    rfl
  simp only [split, run_cons, run_nil, broadcastStep, continueCallback, samePoint, notRunning,
    if_true, makeRequests, sameApp]
  exact ⟨trivial, trivial⟩

/-- What follows a PDU is `broadcastProduced`, whether the loop is entered or not. -/
theorem run_stopForNewKey (mb : Mbedtls) {sender : BroadcastingSender}
    (returned : sender.point = .returned)
    (noStart : sender.eventGroup .advStartComplete = false) (emission : Emission)
    (others : List Emission) :
    ∃ steps, timerTicks steps = [] ∧
      let final := run (broadcastStep mb) (stopForNewKey sender emission) steps
      final.point = .returned ∧
      final.app = { broadcastProduced sender.app (emission :: others) with
        timerStarted := true } := by
  by_cases newKey : sender.app.prevKeyId ≠ sender.app.trace.state.keyId.toUInt32
  · refine ⟨stopAndGoOn, rfl, ?_⟩
    have stopping : (stopForNewKey sender emission).controller.broadcastState = .running →
        (stopForNewKey sender emission).outstanding .advStopComplete = true := by
      simp only [stopForNewKey, if_pos newKey, makeRequests]
      intro running
      simp [stopBroadcasting, running, GapRequest.completion]
    have waiting : (stopForNewKey sender emission).point = .waiting emission.frame := by
      simp only [stopForNewKey, if_pos newKey]
    have sameEvents : (stopForNewKey sender emission).eventGroup = sender.eventGroup := by
      simp only [stopForNewKey, if_pos newKey, makeRequests]
    have sameApp : (stopForNewKey sender emission).app = sender.app := by
      simp only [stopForNewKey, if_pos newKey, makeRequests]
    obtain ⟨returnedAgain, app⟩ := run_stopAndGoOn mb waiting stopping (sameEvents ▸ noStart)
    refine ⟨returnedAgain, ?_⟩
    rw [app, sameApp]
    simp only [broadcastProduced, if_pos newKey]
  · refine ⟨[], rfl, ?_⟩
    simp only [stopForNewKey, broadcastProduced, if_neg newKey, run_nil]
    exact ⟨returned, trivial⟩

theorem packetSendTimeoutTimer_calls {mb : Mbedtls} {app next : SenderApp} {draws : RandomDraws}
    (below : ¬ noPacketToSend ≤ app.packetSendCounter.toNat)
    (fires : packetSendTimeoutTimer mb app draws = some next) :
    ∃ trace, senderStep mb app.trace (nextCall app testPayload draws) = some trace ∧
      next = { broadcastProduced (afterCall app trace)
        (trace.emitted.drop app.trace.emitted.length) with timerStarted := true } := by
  have called : ∃ sent, countAndProduce mb (getAndIncrementPduSendCounter app).2
      (nextCall app testPayload draws) = some sent ∧ next = { sent with timerStarted := true } := by
    simp only [packetSendTimeoutTimer, if_neg below, encryptNewKeyFragment,
      encryptNewPayload] at fires
    split at fires
    · rename_i fragment
      obtain ⟨sent, made, result⟩ := Option.bind_eq_some_iff.mp fires
      refine ⟨sent, ?_, (Option.some.inj result).symm⟩
      rw [nextCall, if_pos fragment]
      exact made
    · rename_i payload
      obtain ⟨sent, made, result⟩ := Option.bind_eq_some_iff.mp fires
      refine ⟨sent, ?_, (Option.some.inj result).symm⟩
      rw [nextCall, if_neg payload]
      exact made
  obtain ⟨sent, made, rfl⟩ := called
  obtain ⟨trace, step, result⟩ := Option.bind_eq_some_iff.mp made
  refine ⟨trace, step, ?_⟩
  rw [← Option.some.inj result]
  rfl

/-- With the stack between its steps the callback is the one of `packetSendTimeoutTimer`. -/
theorem run_callback (mb : Mbedtls) {sender : BroadcastingSender} {next : SenderApp}
    (returned : sender.point = .returned)
    (completed : ∀ event, sender.outstanding event = false ∧ sender.eventGroup event = false)
    (draws : RandomDraws) (fires : timerFires mb sender.app draws = some next) :
    ∃ steps, timerTicks steps = [] ∧
      let final := run (broadcastStep mb) sender (.timer testPayload draws :: steps)
      final.point = .returned ∧ final.app = next := by
  have started : sender.app.timerStarted = true := by
    refine Classical.byContradiction fun notStarted => ?_
    simp [timerFires, notStarted] at fires
  simp only [timerFires, if_pos started] at fires
  by_cases done : noPacketToSend ≤ sender.app.packetSendCounter.toNat
  · refine ⟨[], rfl, ?_⟩
    simp only [packetSendTimeoutTimer, if_pos done] at fires
    simp only [run_cons, run_nil, broadcastStep, fireTimer, started, returned, and_self, if_true,
      if_pos done]
    exact ⟨trivial, Option.some.inj fires⟩
  · have below : ¬ noPacketToSend ≤
        ({ sender.app with timerStarted := false } : SenderApp).packetSendCounter.toNat := done
    obtain ⟨trace, step, rfl⟩ := packetSendTimeoutTimer_calls below fires
    have begun : broadcastStep mb sender (.timer testPayload draws) =
        beginCallback mb { sender with app := { sender.app with timerStarted := false } }
          testPayload draws := by
      simp only [broadcastStep, fireTimer, started, returned, and_self, if_true, if_neg done]
    simp only [run_cons, begun, beginCallback, step]
    cases produced : trace.emitted.drop sender.app.trace.emitted.length with
    | nil => exact ⟨[], rfl, returned, rfl⟩
    | cons emission rest =>
        exact @run_stopForNewKey mb
          { sender with
            app := afterCall { sender.app with timerStarted := false } trace
            log := sender.log ++ [.produced emission] }
          returned (completed .advStartComplete).2 emission rest

def stackCompletes : List BroadcastStep :=
  [.complete .advStartComplete, .complete .advStopComplete, .complete .scanStartComplete,
    .complete .scanStopComplete, .handleEvents]

theorem complete_other (mb : Mbedtls) (sender : BroadcastingSender) (event : GapEvent) :
    let next := broadcastStep mb sender (.complete event)
    next.point = sender.point ∧ next.app = sender.app ∧
    ∀ other, next.outstanding other = (sender.outstanding other && other != event) := by
  simp only [broadcastStep]
  split
  · refine ⟨rfl, rfl, fun other => ?_⟩
    by_cases here : other = event
    · subst here
      simp
    · simp [here]
  · rename_i notOutstanding
    refine ⟨rfl, rfl, fun other => ?_⟩
    by_cases here : other = event
    · subst here
      simpa using notOutstanding
    · simp [here]

theorem run_stackCompletes (mb : Mbedtls) (sender : BroadcastingSender) :
    let next := run (broadcastStep mb) sender stackCompletes
    next.point = sender.point ∧ next.app = sender.app ∧
    ∀ event, next.outstanding event = false ∧ next.eventGroup event = false := by
  obtain ⟨firstPoint, firstApp, first⟩ := complete_other mb sender .advStartComplete
  obtain ⟨secondPoint, secondApp, second⟩ := complete_other mb _ .advStopComplete
  obtain ⟨thirdPoint, thirdApp, third⟩ := complete_other mb _ .scanStartComplete
  obtain ⟨fourthPoint, fourthApp, fourth⟩ := complete_other mb _ .scanStopComplete
  refine ⟨fourthPoint.trans (thirdPoint.trans (secondPoint.trans firstPoint)),
    fourthApp.trans (thirdApp.trans (secondApp.trans firstApp)), fun event => ⟨?_, rfl⟩⟩
  have left : (run (broadcastStep mb) sender stackCompletes).outstanding event =
      (sender.outstanding event && event != .advStartComplete && event != .advStopComplete &&
        event != .scanStartComplete && event != .scanStopComplete) := by
    rw [← first, ← second, ← third, ← fourth]
    rfl
  rw [left]
  cases event <;> simp

theorem completedInTime_of_noTicks {steps : List BroadcastStep} (noTicks : timerTicks steps = [])
    (mb : Mbedtls) (sender : BroadcastingSender) :
    Guarded (broadcastStep mb) CompletedInTime sender steps := by
  refine guarded_of_forall fun step member state => ?_
  cases step with
  | timer payload draws =>
      have none := List.filterMap_eq_nil_iff.mp noTicks _ member
      contradiction
  | callback => trivial
  | complete event => trivial
  | handleEvents => trivial

/-- Every run of the application is one of the application on its controller, with a stack
that completes all requests in time. -/
theorem senderAppRun_onStack (mb : Mbedtls) (draws : List RandomDraws) :
    ∀ {sender : BroadcastingSender} {final : SenderApp}, sender.point = .returned →
      (∀ event, sender.outstanding event = false ∧ sender.eventGroup event = false) →
      senderAppRun mb sender.app draws = some final →
      ∃ steps, timerTicks steps = draws ∧
        Guarded (broadcastStep mb) CompletedInTime sender steps ∧
        (run (broadcastStep mb) sender steps).app = final := by
  induction draws with
  | nil =>
      intro sender final _ _ run
      exact ⟨[], rfl, trivial, Option.some.inj run⟩
  | cons drawn rest ih =>
      intro sender final returned completed run
      obtain ⟨next, fires, run⟩ := Option.bind_eq_some_iff.mp run
      obtain ⟨goOn, goOnTicks, returnedAgain, sameApp⟩ :=
        run_callback mb returned completed drawn fires
      obtain ⟨samePoint, settledApp, settled⟩ := run_stackCompletes mb
        (Lib.run (broadcastStep mb) sender (.timer testPayload drawn :: goOn))
      obtain ⟨steps, ticks, inTime, final⟩ := ih (samePoint.trans returnedAgain) settled
        (by rw [settledApp, sameApp]; exact run)
      refine ⟨(.timer testPayload drawn :: goOn) ++ (stackCompletes ++ steps), ?_, ?_, ?_⟩
      · have tick : timerTicks (.timer testPayload drawn :: goOn) = drawn :: timerTicks goOn := rfl
        rw [timerTicks_append, timerTicks_append, tick, goOnTicks, ticks]
        rfl
      · refine guarded_append.mpr ⟨⟨completed, completedInTime_of_noTicks goOnTicks mb _⟩,
          guarded_append.mpr ⟨completedInTime_of_noTicks rfl mb _, inTime⟩⟩
      · rw [run_append, run_append]
        exact final

end BleBroadcast.Sender
