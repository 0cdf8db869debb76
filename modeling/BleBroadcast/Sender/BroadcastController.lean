import BleBroadcast.Core.BeaconPdu

/-!
# The broadcast controller

Model of the broadcasting half of `ble_broadcast_controller.c`: which requests its functions
make to the BLE stack, and how its task follows the events by which the stack completes
them.  A buffer and its size are a list of bytes, and no pointer is null.
-/

set_option autoImplicit false

namespace BleBroadcast.Sender

open BleBroadcast.Core

inductive BroadcastState where
  | notRunning
  | running
  deriving DecidableEq

inductive ScannerState where
  | notActive
  | active
  deriving DecidableEq

/-- The fields of `esp_ble_adv_params_t` that the application changes. -/
structure BleAdvParams where
  advIntMin : UInt16
  advIntMax : UInt16
  deriving DecidableEq

/-- The calls of the stack: `esp_ble_gap_config_adv_data_raw` and the others. -/
inductive GapRequest where
  | configAdvDataRaw (data : List UInt8)
  | startAdvertising (params : BleAdvParams)
  | stopAdvertising
  | stopScanning
  deriving DecidableEq

/-- The events of the stack that change a state of the controller. -/
inductive GapEvent where
  | advStartComplete
  | advStopComplete
  | scanStartComplete
  | scanStopComplete
  deriving DecidableEq

structure BroadcastController where
  broadcastState : BroadcastState
  scannerState : ScannerState

/-- `bc` as it is initialised. -/
def initBroadcastController : BroadcastController := ⟨.notRunning, .notActive⟩

def setBroadcastingPayload (bc : BroadcastController) (payload : List UInt8) :
    List GapRequest :=
  if payload.length ≤ maxGapDataLen ∧ bc.broadcastState = .running then
    [.configAdvDataRaw payload]
  else []

def stopBroadcasting (bc : BroadcastController) : List GapRequest :=
  if bc.broadcastState = .running then [.stopAdvertising] else []

def stopScanning (bc : BroadcastController) : List GapRequest :=
  if bc.scannerState = .active then [.stopScanning] else []

def startBroadcasting (bc : BroadcastController) (params : BleAdvParams) : List GapRequest :=
  (if bc.scannerState = .active then stopScanning bc else []) ++
    if bc.broadcastState = .notRunning then [.startAdvertising params] else []

/-- A turn of the loop of `ble_sender_main`, with the bits that the wait returned. -/
def handleGapEvents (bc : BroadcastController) (events : GapEvent → Bool) :
    BroadcastController :=
  let started := if events .advStartComplete then { bc with broadcastState := .running } else bc
  let stopped :=
    if events .advStopComplete then { started with broadcastState := .notRunning } else started
  let scanning :=
    if events .scanStartComplete then { stopped with scannerState := .active } else stopped
  if events .scanStopComplete then { scanning with scannerState := .notActive } else scanning

def GapRequest.completion : GapRequest → Option GapEvent
  | .configAdvDataRaw _ => none
  | .startAdvertising _ => some .advStartComplete
  | .stopAdvertising => some .advStopComplete
  | .stopScanning => some .scanStopComplete

/-! ## What the requests depend on -/

theorem setBroadcastingPayload_notRunning {bc : BroadcastController}
    (notRunning : bc.broadcastState = .notRunning) (payload : List UInt8) :
    setBroadcastingPayload bc payload = [] := by
  simp [setBroadcastingPayload, notRunning]

theorem stopBroadcasting_request {bc : BroadcastController} :
    ∀ request ∈ stopBroadcasting bc, request = .stopAdvertising := by
  intro request member
  unfold stopBroadcasting at member
  split at member
  · exact List.mem_singleton.mp member
  · exact absurd member List.not_mem_nil

theorem stopScanning_request {bc : BroadcastController} :
    ∀ request ∈ stopScanning bc, request = .stopScanning := by
  intro request member
  unfold stopScanning at member
  split at member
  · exact List.mem_singleton.mp member
  · exact absurd member List.not_mem_nil

theorem startBroadcasting_request {bc : BroadcastController} {params : BleAdvParams} :
    ∀ request ∈ startBroadcasting bc params,
      request = .stopScanning ∨ request = .startAdvertising params := by
  intro request member
  rcases List.mem_append.mp member with stop | start
  · split at stop
    · exact Or.inl (stopScanning_request request stop)
    · exact absurd stop List.not_mem_nil
  · split at start
    · exact Or.inr (List.mem_singleton.mp start)
    · exact absurd start List.not_mem_nil

/-- Only the completion of a start makes the state `running`. -/
theorem handleGapEvents_notRunning {bc : BroadcastController} {events : GapEvent → Bool}
    (notRunning : bc.broadcastState = .notRunning)
    (noStart : events .advStartComplete = false) :
    (handleGapEvents bc events).broadcastState = .notRunning := by
  have afterStop : (if events .advStopComplete then { bc with broadcastState := .notRunning }
      else bc : BroadcastController).broadcastState = .notRunning := by
    split
    · rfl
    · exact notRunning
  simp only [handleGapEvents, noStart, Bool.false_eq_true, if_false]
  -- the events of the scanner leave the state of the broadcast
  split <;> split <;> exact afterStop

end BleBroadcast.Sender
