import BleBroadcast.Sender.OnAir
import BleBroadcast.Sender.RadioState

/-!
# The second sender

The application of `sender_app_2nd` differs from the first in its timer callback: while the
key id stays the same, it passes its PDU to the controller of the running broadcast.  Only
the first PDU under another key id is still set in between, where the controller ignores it.
-/

set_option autoImplicit false

namespace BleBroadcast.Sender

open BleBroadcast.Core BleBroadcast.Lib

/-- `encrypt_new_payload` and `encrypt_new_key_fragment` of `sender_app_2nd` after their call:
with the key id noted, the payload is set at once, and the timer started. -/
def stopOrSetPayload (sender : BroadcastingSender) (emission : Emission) : BroadcastingSender :=
  let keyId := sender.app.trace.state.keyId
  if sender.app.prevKeyId ≠ keyId.toUInt32 then
    let interval := msToNConvertion (getAdvIntervalFromKeyId keyId)
    { makeRequests sender (stopBroadcasting sender.controller) with
      defaultBleAdvParams := ⟨interval, interval⟩
      point := .waiting emission.frame }
  else
    { makeRequests sender (setBroadcastingPayload sender.controller emission.frame) with
      app := { sender.app with
        broadcastPayloads := sender.app.broadcastPayloads ++ [emission.frame]
        timerStarted := true } }

/-- `packet_send_timeout_timer`, up to the loop or to its end. -/
def beginSecondCallback (mb : Mbedtls) (sender : BroadcastingSender) (payload : AcceptedPayload)
    (draws : RandomDraws) : BroadcastingSender :=
  match senderStep mb sender.app.trace (nextCall sender.app payload draws) with
  | none => { sender with point := .trapped }
  | some trace =>
      let called := { sender with app := afterCall sender.app trace }
      match trace.emitted.drop sender.app.trace.emitted.length with
      | [] => { called with app := { called.app with timerStarted := true } }
      | emission :: _ =>
          stopOrSetPayload { called with log := sender.log ++ [.produced emission] } emission

def fireSecondTimer (mb : Mbedtls) (sender : BroadcastingSender) (payload : AcceptedPayload)
    (draws : RandomDraws) : BroadcastingSender :=
  if sender.app.timerStarted ∧ sender.point = .returned then
    let fired := { sender with app := { sender.app with timerStarted := false } }
    if noPacketToSend ≤ sender.app.packetSendCounter.toNat then fired
    else beginSecondCallback mb fired payload draws
  else sender

/-- The rest of the callback, the stack and the task of the controller are those of the first
sender. -/
def secondSenderStep (mb : Mbedtls) (sender : BroadcastingSender) :
    BroadcastStep → BroadcastingSender
  | .timer payload draws => fireSecondTimer mb sender payload draws
  | .callback => broadcastStep mb sender .callback
  | .complete event => broadcastStep mb sender (.complete event)
  | .handleEvents => broadcastStep mb sender .handleEvents

/-! ## What is passed to the stack -/

/-- The data that the stack was given to advertise, in order. -/
def configuredData (log : List SenderEvent) : List (List UInt8) :=
  log.filterMap fun
    | .requested (.configAdvDataRaw data) => some data
    | _ => none

theorem configuredData_append (log later : List SenderEvent) :
    configuredData (log ++ later) = configuredData log ++ configuredData later :=
  List.filterMap_append

theorem configuredData_nothing {log : List SenderEvent} (nothing : NothingConfigured log) :
    configuredData log = [] := by
  refine List.filterMap_eq_nil_iff.mpr fun event member => ?_
  cases event with
  | produced emission => rfl
  | requested request =>
      cases request with
      | configAdvDataRaw data => exact absurd member (nothing data)
      | startAdvertising params => rfl
      | stopAdvertising => rfl
      | stopScanning => rfl

def Emission.notedKeyId (emission : Emission) : UInt32 := emission.session.keyId.toUInt32

def lastKeyId (noted : UInt32) (emitted : List Emission) : UInt32 :=
  emitted.foldl (fun _ emission => emission.notedKeyId) noted

@[simp] theorem lastKeyId_concat (noted : UInt32) (emitted : List Emission)
    (emission : Emission) :
    lastKeyId noted (emitted ++ [emission]) = emission.notedKeyId := by
  simp [lastKeyId]

/-- The PDU has the key id noted before it, and its frame fits into an advertisement. -/
def Emission.GoesOnAir (noted : UInt32) (emission : Emission) : Prop :=
  emission.notedKeyId = noted ∧ emission.frame.length ≤ maxGapDataLen

instance (noted : UInt32) (emission : Emission) : Decidable (emission.GoesOnAir noted) :=
  inferInstanceAs (Decidable (_ ∧ _))

/-- The frames of the PDUs that have the key id of the PDU before them. -/
def framesOnAir : UInt32 → List Emission → List (List UInt8)
  | _, [] => []
  | noted, emission :: rest =>
      (if emission.GoesOnAir noted then [emission.frame] else []) ++
        framesOnAir emission.notedKeyId rest

theorem framesOnAir_concat (emitted : List Emission) (emission : Emission) :
    ∀ noted : UInt32, framesOnAir noted (emitted ++ [emission]) =
      framesOnAir noted emitted ++
        if emission.GoesOnAir (lastKeyId noted emitted) then [emission.frame] else [] := by
  induction emitted with
  | nil =>
      intro noted
      rw [List.nil_append, framesOnAir, framesOnAir, framesOnAir, List.append_nil,
        List.nil_append]
      rfl
  | cons first rest ih =>
      intro noted
      rw [List.cons_append, framesOnAir, ih, framesOnAir, List.append_assoc]
      rfl

/-! ## Runs -/

def Awaited (sender : BroadcastingSender) (event : GapEvent) : Prop :=
  sender.outstanding event = true ∨ sender.eventGroup event = true

def BroadcastStopped (sender : BroadcastingSender) : Prop :=
  sender.controller.broadcastState = .notRunning ∧ ¬ Awaited sender .advStartComplete ∧
    ¬ Awaited sender .advStopComplete

/-- What is under way at each point of the callback: the start of the broadcast once it has
returned, and the stop while it is in its loop. -/
def PhaseAt (sender : BroadcastingSender) : CallbackPoint → Prop
  | .returned => ¬ Awaited sender .advStopComplete ∧
      (Awaited sender .advStartComplete ∨ sender.controller.broadcastState = .running)
  | .waiting _ => ¬ Awaited sender .advStartComplete ∧
      (sender.eventGroup .advStopComplete = true → sender.outstanding .advStopComplete = false) ∧
      (sender.controller.broadcastState = .notRunning → ¬ Awaited sender .advStopComplete)
  | .behindLoop _ => BroadcastStopped sender
  | .payloadSet => BroadcastStopped sender
  | .trapped => True

def NotedAt (app : SenderApp) : CallbackPoint → Prop
  | .returned => app.prevKeyId = lastKeyId 0 app.trace.emitted
  | .waiting _ => app.trace.state.keyId.toUInt32 = lastKeyId 0 app.trace.emitted
  | .behindLoop _ => app.trace.state.keyId.toUInt32 = lastKeyId 0 app.trace.emitted
  | .payloadSet => app.trace.state.keyId.toUInt32 = lastKeyId 0 app.trace.emitted
  | .trapped => True

structure OnAir (sender : BroadcastingSender) : Prop where
  data : configuredData sender.log = framesOnAir 0 sender.app.trace.emitted
  noted : NotedAt sender.app sender.point
  phase : PhaseAt sender sender.point

theorem onAir_start (draws : RandomDraws) (count : UInt32) (testStartPdu : List UInt8) :
    OnAir (startBroadcastingSender draws count testStartPdu) where
  data := configuredData_nothing (silent_start draws count testStartPdu).log
  noted := rfl
  phase := by
    have ignored : setBroadcastingPayload initBroadcastController testStartPdu = [] :=
      setBroadcastingPayload_notRunning rfl testStartPdu
    simp only [startBroadcastingSender, makeRequests, ignored, PhaseAt, Awaited]
    simp [startBroadcasting, initBroadcastController, GapRequest.completion]

section
variable {sender : BroadcastingSender} {point : CallbackPoint}

theorem awaited_complete {event : GapEvent} (outstanding : sender.outstanding event = true)
    (other : GapEvent) :
    Awaited { sender with
      outstanding := Function.update sender.outstanding event false
      eventGroup := Function.update sender.eventGroup event true } other ↔
      Awaited sender other := by
  by_cases here : other = event
  · subst here
    simp [Awaited, outstanding]
  · simp [Awaited, Function.update_of_ne here]

theorem PhaseAt.complete (phase : PhaseAt sender point) {event : GapEvent}
    (outstanding : sender.outstanding event = true) :
    PhaseAt { sender with
      outstanding := Function.update sender.outstanding event false
      eventGroup := Function.update sender.eventGroup event true } point := by
  have same := awaited_complete outstanding
  cases point with
  | returned => exact ⟨by rw [same]; exact phase.1, by rw [same]; exact phase.2⟩
  | waiting frame =>
      obtain ⟨noStart, once, stopped⟩ := phase
      refine ⟨by rw [same]; exact noStart, ?_, by rw [same]; exact stopped⟩
      by_cases here : GapEvent.advStopComplete = event
      · subst here
        intro _
        simp
      · simp only [Function.update_of_ne here]
        exact once
  | behindLoop frame =>
      exact ⟨phase.1, by rw [same]; exact phase.2.1, by rw [same]; exact phase.2.2⟩
  | payloadSet =>
      exact ⟨phase.1, by rw [same]; exact phase.2.1, by rw [same]; exact phase.2.2⟩
  | trapped => trivial

theorem BroadcastStopped.handleEvents (stopped : BroadcastStopped sender) :
    BroadcastStopped { sender with
      controller := handleGapEvents sender.controller sender.eventGroup
      eventGroup := fun _ => false } := by
  obtain ⟨notRunning, noStart, noStop⟩ := stopped
  rw [Awaited, not_or, Bool.not_eq_true, Bool.not_eq_true] at noStart noStop
  refine ⟨handleGapEvents_notRunning notRunning noStart.2, ?_, ?_⟩
  · simp [Awaited, noStart.1]
  · simp [Awaited, noStop.1]

theorem PhaseAt.handleEvents (phase : PhaseAt sender point) :
    PhaseAt { sender with
      controller := handleGapEvents sender.controller sender.eventGroup
      eventGroup := fun _ => false } point := by
  cases point with
  | returned =>
      obtain ⟨noStop, started⟩ := phase
      rw [Awaited, not_or, Bool.not_eq_true, Bool.not_eq_true] at noStop
      refine ⟨by simp [Awaited, noStop.1], ?_⟩
      rw [handleGapEvents_broadcastState, noStop.2]
      rcases started with (outstanding | event) | running
      · exact Or.inl (Or.inl outstanding)
      · exact Or.inr (by simp [event])
      · exact Or.inr (by simp [running])
  | waiting frame =>
      obtain ⟨noStart, once, stopped⟩ := phase
      rw [Awaited, not_or, Bool.not_eq_true, Bool.not_eq_true] at noStart
      refine ⟨by simp [Awaited, noStart.1], fun event => Bool.noConfusion event, ?_⟩
      rw [handleGapEvents_broadcastState, noStart.2]
      cases event : sender.eventGroup .advStopComplete with
      | true => simp [Awaited, once event]
      | false =>
          intro notRunning
          have noStop := stopped notRunning
          rw [Awaited, not_or, Bool.not_eq_true] at noStop
          simp [Awaited, noStop.1]
  | behindLoop frame => exact BroadcastStopped.handleEvents phase
  | payloadSet => exact BroadcastStopped.handleEvents phase
  | trapped => trivial

/-! ## The callback -/

theorem PhaseAt.running (phase : PhaseAt sender .returned)
    (completed : ∀ event, sender.outstanding event = false ∧ sender.eventGroup event = false) :
    sender.controller.broadcastState = .running := by
  rcases phase.2 with (outstanding | handled) | running
  · rw [(completed _).1] at outstanding
    contradiction
  · rw [(completed _).2] at handled
    contradiction
  · exact running

theorem senderStep_noted {mb : Mbedtls} {trace next : SenderTrace} {call : SenderCall}
    (step : senderStep mb trace call = some next) :
    next.emitted = trace.emitted ∨
      ∃ emission, next.emitted = trace.emitted ++ [emission] ∧
        emission.notedKeyId = next.state.keyId.toUInt32 := by
  rcases senderStep_cases step with ⟨_, rfl⟩ | ⟨_, _, emission, _, state, emitted, session, _⟩
  · exact Or.inl rfl
  · refine Or.inr ⟨emission, emitted, ?_⟩
    rw [Emission.notedKeyId, session, state]
    rfl

theorem configuredData_produced (log : List SenderEvent) (emission : Emission) :
    configuredData (log ++ [.produced emission]) = configuredData log := by
  rw [configuredData_append]
  exact List.append_nil _

theorem configuredData_requests {log : List SenderEvent} {requests : List GapRequest}
    (nothing : NothingConfigured (requests.map .requested)) :
    configuredData (log ++ requests.map .requested) = configuredData log := by
  rw [configuredData_append, configuredData_nothing nothing, List.append_nil]

theorem configuredData_setPayload {bc : BroadcastController}
    (running : bc.broadcastState = .running) (log : List SenderEvent) (frame : List UInt8) :
    configuredData (log ++ (setBroadcastingPayload bc frame).map .requested) =
      configuredData log ++ if frame.length ≤ maxGapDataLen then [frame] else [] := by
  rw [configuredData_append]
  by_cases fits : frame.length ≤ maxGapDataLen
  · simp [setBroadcastingPayload, configuredData, running, fits]
  · simp [setBroadcastingPayload, configuredData, running, fits]

theorem OnAir.stopOrSetPayload {emission : Emission} {emitted : List Emission}
    (data : configuredData sender.log = framesOnAir 0 emitted)
    (produced : sender.app.trace.emitted = emitted ++ [emission])
    (current : emission.notedKeyId = sender.app.trace.state.keyId.toUInt32)
    (noted : sender.app.prevKeyId = lastKeyId 0 emitted) (returned : sender.point = .returned)
    (completed : ∀ event, sender.outstanding event = false ∧ sender.eventGroup event = false)
    (running : sender.controller.broadcastState = .running) :
    OnAir (stopOrSetPayload sender emission) := by
  simp only [Sender.stopOrSetPayload]
  split
  · rename_i newKey
    have away : ¬ emission.GoesOnAir (lastKeyId 0 emitted) := by
      rintro ⟨same, _⟩
      rw [current, ← noted] at same
      exact newKey same.symm
    refine ⟨?_, ?_, ?_⟩
    · simp only [makeRequests]
      rw [configuredData_requests (nothingConfigured_stop _), data, produced,
        framesOnAir_concat, if_neg away, List.append_nil]
    · simp only [NotedAt, makeRequests]
      rw [← current, produced, lastKeyId_concat]
    · simp [PhaseAt, Awaited, makeRequests, completed, stopBroadcasting, running,
        GapRequest.completion]
  · rename_i sameKey
    have kept : emission.notedKeyId = lastKeyId 0 emitted := by
      rw [current, ← noted]
      exact (not_not.mp sameKey).symm
    have none : ∀ event, ¬ (setBroadcastingPayload sender.controller emission.frame).any
        (fun request => request.completion = some event) = true := by
      intro event
      unfold setBroadcastingPayload
      split
      · simp [GapRequest.completion]
      · simp
    refine ⟨?_, ?_, ?_⟩
    · simp only [makeRequests]
      rw [configuredData_setPayload running, data, produced, framesOnAir_concat]
      simp only [Emission.GoesOnAir, kept, true_and]
    · simp only [makeRequests, returned, NotedAt]
      rw [produced, lastKeyId_concat, kept]
      exact noted
    · simp only [makeRequests, returned, PhaseAt, Awaited, completed, none, Bool.false_or,
        Bool.false_eq_true, or_false, running]
      exact ⟨id, Or.inr trivial⟩

theorem OnAir.beginSecondCallback (mb : Mbedtls) (onAir : OnAir sender)
    (returned : sender.point = .returned)
    (completed : ∀ event, sender.outstanding event = false ∧ sender.eventGroup event = false)
    (payload : AcceptedPayload) (draws : RandomDraws) :
    OnAir (beginSecondCallback mb sender payload draws) := by
  obtain ⟨data, noted, phase⟩ := onAir
  rw [returned] at noted phase
  have running := phase.running completed
  cases made : senderStep mb sender.app.trace (nextCall sender.app payload draws) with
  | none =>
      simp only [Sender.beginSecondCallback, made]
      exact ⟨data, trivial, trivial⟩
  | some trace =>
      rcases senderStep_noted made with same | ⟨emission, emitted, current⟩
      · simp only [Sender.beginSecondCallback, made, same, List.drop_length]
        refine ⟨?_, ?_, ?_⟩
        · simp only [afterCall, same]
          exact data
        · simp only [returned, NotedAt, afterCall, same]
          exact noted
        · simp only [returned]
          exact phase
      · simp only [Sender.beginSecondCallback, made, emitted, List.drop_left]
        refine OnAir.stopOrSetPayload ?_ emitted current noted returned completed running
        simp only [configuredData_produced]
        exact data

theorem OnAir.fireSecondTimer (mb : Mbedtls) (onAir : OnAir sender)
    (completed : ∀ event, sender.outstanding event = false ∧ sender.eventGroup event = false)
    (payload : AcceptedPayload) (draws : RandomDraws) :
    OnAir (fireSecondTimer mb sender payload draws) := by
  unfold Sender.fireSecondTimer
  split
  · rename_i due
    have fired : OnAir { sender with app := { sender.app with timerStarted := false } } := by
      obtain ⟨data, noted, phase⟩ := onAir
      refine ⟨data, ?_, phase⟩
      rw [due.2] at noted ⊢
      exact noted
    split
    · exact fired
    · exact fired.beginSecondCallback mb due.2 completed payload draws
  · exact onAir

theorem OnAir.continueCallback (onAir : OnAir sender) : OnAir (continueCallback sender) := by
  obtain ⟨data, noted, phase⟩ := onAir
  unfold Sender.continueCallback
  split
  · exact ⟨data, noted, phase⟩
  · rename_i frame there
    rw [there] at noted phase
    split
    · rename_i notRunning
      exact ⟨data, noted, notRunning, phase.1, phase.2.2 notRunning⟩
    · rename_i stillRunning
      exact ⟨data, there ▸ noted, there ▸ phase⟩
  · rename_i frame there
    rw [there] at noted phase
    -- the controller ignores the payload: the broadcast does not run
    have ignored := setBroadcastingPayload_notRunning phase.1 frame
    refine ⟨?_, noted, phase.1, ?_, ?_⟩
    · simp only [makeRequests, ignored, List.map_nil, List.append_nil]
      exact data
    · simp only [Awaited, makeRequests, ignored, List.any_nil, Bool.or_false]
      exact phase.2.1
    · simp only [Awaited, makeRequests, ignored, List.any_nil, Bool.or_false]
      exact phase.2.2
  · rename_i there
    rw [there] at noted phase
    obtain ⟨notRunning, noStart, noStop⟩ := phase
    refine ⟨?_, noted, ?_, ?_⟩
    · simp only [makeRequests]
      rw [configuredData_requests (nothingConfigured_start _ _)]
      exact data
    · rintro (outstanding | handled)
      · simp only [makeRequests, Bool.or_eq_true, List.any_eq_true, decide_eq_true_eq]
          at outstanding
        rcases outstanding with before | ⟨request, member, stops⟩
        · exact noStop (Or.inl before)
        · rcases startBroadcasting_request request member with rfl | rfl
          · simp [GapRequest.completion] at stops
          · simp [GapRequest.completion] at stops
      · exact noStop (Or.inr handled)
    · left
      left
      simp [makeRequests, startBroadcasting, notRunning, GapRequest.completion]
  · exact ⟨data, noted, phase⟩

theorem OnAir.step (mb : Mbedtls) (step : BroadcastStep) (onAir : OnAir sender)
    (inTime : CompletedInTime sender step) : OnAir (secondSenderStep mb sender step) := by
  cases step with
  | timer payload draws => exact onAir.fireSecondTimer mb inTime payload draws
  | callback => exact onAir.continueCallback
  | complete event =>
      simp only [secondSenderStep, broadcastStep]
      split
      · rename_i outstanding
        exact ⟨onAir.data, onAir.noted, onAir.phase.complete outstanding⟩
      · exact onAir
  | handleEvents => exact ⟨onAir.data, onAir.noted, onAir.phase.handleEvents⟩

end

/-- If the stack completes every request before the next tick: what the second sender passes
to the stack, in order, are the frames of exactly those PDUs that have the key id of the PDU
before them and fit into an advertisement. -/
theorem second_sender_on_air (mb : Mbedtls) (draws : RandomDraws) (count : UInt32)
    (testStartPdu : List UInt8) (steps : List BroadcastStep)
    (inTime : Guarded (secondSenderStep mb) CompletedInTime
      (startBroadcastingSender draws count testStartPdu) steps) :
    let final := run (secondSenderStep mb) (startBroadcastingSender draws count testStartPdu) steps
    configuredData final.log = framesOnAir 0 final.app.trace.emitted :=
  (inTime.preserves (fun _ step onAir ok => onAir.step mb step ok)
    (onAir_start draws count testStartPdu)).data

def twoTicks : List BroadcastStep :=
  oneTick ++ [.complete .advStartComplete, .handleEvents,
    .timer testPayload ⟨fun _ => 3, 3, 0x11⟩]

/-- The key fragment of the first tick is not passed on, the data PDU of the second is. -/
theorem second_sender_on_air_two_ticks :
    let final := run (secondSenderStep tabulated)
      (startBroadcastingSender ⟨fun _ => 1, 1, 0⟩ 200 [0xFF]) twoTicks
    final.app.trace.emitted.length = 2 ∧ (configuredData final.log).length = 1 ∧
    configuredData final.log = framesOnAir 0 final.app.trace.emitted :=
  ⟨by decide +kernel, by decide +kernel, second_sender_on_air tabulated ⟨fun _ => 1, 1, 0⟩ 200
    [0xFF] twoTicks (by decide +kernel)⟩

end BleBroadcast.Sender
