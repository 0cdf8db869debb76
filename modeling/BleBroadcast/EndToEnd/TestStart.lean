import BleBroadcast.EndToEnd.FrameRoundTrip
import BleBroadcast.Receiver.ReceiverApp
import BleBroadcast.Sender.MainLoop

/-!
# The start of a test

Senders of both versions and the application of a receiver that hears nothing else.  A sender
sets the start PDU before its broadcast runs, where the controller ignores it, so the start
is never on air and the receiver does not begin to measure.  The one exception is an
advertisement without data, for which the callback reads what an earlier one left behind.
-/

set_option autoImplicit false

namespace BleBroadcast.EndToEnd

open BleBroadcast.Core BleBroadcast.Lib BleBroadcast.Sender BleBroadcast.Receiver

universe u

variable {ι : Type u}

structure TestBed (ι : Type u) where
  senders : ι → SenderMain
  receiver : ReceiverApp

def startTestBed (draws : ι → RandomDraws) : TestBed ι where
  senders := fun i => startSenderMain (draws i)
  receiver := startUpReceiverApp

inductive TestBedStep (ι : Type u) where
  | sender (i : ι) (step : SenderMainStep)
  /-- The receiver hears an advertisement of a sender. -/
  | hear (i : ι) (heard : Hearing)
  | receiverTurn

def testBedStep [DecidableEq ι] (mb : Mbedtls) (version : ι → SenderVersion) (bed : TestBed ι) :
    TestBedStep ι → TestBed ι
  | .sender i step =>
      { bed with
        senders := Function.update bed.senders i
          (senderMainStep mb (version i) (bed.senders i) step) }
  | .hear _ heard => { bed with receiver := receiverAppStep bed.receiver (.scanResult heard) }
  | .receiverTurn => { bed with receiver := receiverAppStep bed.receiver .turn }

/-- What is heard of a sender is data that it has passed to its stack, or no data. -/
def HeardFromSender (bed : TestBed ι) : TestBedStep ι → Prop
  | .hear i heard => heard.dataSize = 0 ∨
      ∃ data ∈ configuredData (bed.senders i).sender.log,
        heard.dataSize = data.length ∧ Holds heard.data data
  | _ => True

instance heardFromSenderDecidable (bed : TestBed ι) : ∀ step, Decidable (HeardFromSender bed step)
  | .hear i heard =>
      inferInstanceAs (Decidable (heard.dataSize = 0 ∨
        ∃ data ∈ configuredData (bed.senders i).sender.log,
          heard.dataSize = data.length ∧ heard.data.bytes data.length = data))
  | .sender _ _ => isTrue trivial
  | .receiverTurn => isTrue trivial

def NoStartWithData : TestBedStep ι → Prop
  | .hear _ heard => heard.ShowsStart → heard.dataSize = 0
  | _ => True

def receiverSteps (steps : List (TestBedStep ι)) : List ReceiverAppStep :=
  steps.filterMap fun
    | .hear _ heard => some (.scanResult heard)
    | .receiverTurn => some .turn
    | .sender _ _ => none

theorem run_receiver [DecidableEq ι] (mb : Mbedtls) (version : ι → SenderVersion)
    (steps : List (TestBedStep ι)) :
    ∀ bed : TestBed ι, (run (testBedStep mb version) bed steps).receiver =
      run receiverAppStep bed.receiver (receiverSteps steps) := by
  induction steps with
  | nil => exact fun bed => rfl
  | cons step rest ih =>
      intro bed
      rw [run_cons, ih]
      cases step <;> rfl

/-! ## What can be heard -/

theorem not_showsStart_of_passable {emitted : List Emission} {heard : Hearing}
    {data : List UInt8} (passable : Passable emitted data)
    (marked : ∀ emission ∈ emitted, emission.marker = myMarker)
    (holds : Holds heard.data data) : ¬ heard.ShowsStart := by
  rintro ⟨isTest, isStart⟩
  rcases passable with ⟨emission, member, rfl⟩ | ⟨rfl, _⟩
  · have second := frame_second (marked emission member)
    obtain ⟨inside, byte⟩ := List.getElem?_eq_some_iff.mp second
    have read : heard.data 1 = myMarker 1 := (holds.byte inside).trans byte
    rw [not_isTestPdu_of_marker read] at isTest
    contradiction
  · have built : ∀ i, i < testPduSize → heard.data i = (buildTestPdu .endTest).getD i 0 := by
      intro i below
      have inside : i < buildTestEndPdu.length := below
      rw [holds.byte inside, List.getD_eq_getElem?_getD,
        List.getElem?_eq_getElem (show i < (buildTestPdu .endTest).length from inside)]
      rfl
    obtain ⟨_, command⟩ := isTestPdu_build built
    rw [isTestStartPdu, command] at isStart
    exact absurd isStart (by decide)

def SendersSound (bed : TestBed ι) : Prop := ∀ i, MainSound (bed.senders i)

theorem SendersSound.step [DecidableEq ι] (mb : Mbedtls) (version : ι → SenderVersion)
    {bed : TestBed ι} (sound : SendersSound bed) (step : TestBedStep ι) :
    SendersSound (testBedStep mb version bed step) := by
  cases step with
  | sender i step =>
      intro j
      by_cases here : j = i
      · subst here
        simp only [testBedStep, Function.update_self]
        exact (sound j).step mb (version j) step
      · simp only [testBedStep, Function.update_of_ne here]
        exact sound j
  | hear i heard => exact sound
  | receiverTurn => exact sound

theorem SendersSound.noStart {bed : TestBed ι} (sound : SendersSound bed)
    {step : TestBedStep ι} (fromSender : HeardFromSender bed step) : NoStartWithData step := by
  cases step with
  | hear i heard =>
      intro start
      rcases fromSender with empty | ⟨data, configured, _, holds⟩
      · exact empty
      · have passes := (sound i).passes
        exact absurd start
          (not_showsStart_of_passable (passes.data data configured) passes.marked holds)
  | sender i step => trivial
  | receiverTurn => trivial

/-- In every run of any number of senders and a receiver that hears only their
advertisements: if the receiver has begun to measure, it has heard an advertisement without
data and found a start in the buffer all the same. -/
theorem start_only_without_data [DecidableEq ι] (mb : Mbedtls) (version : ι → SenderVersion)
    (draws : ι → RandomDraws) (steps : List (TestBedStep ι))
    (fromSenders : Guarded (testBedStep mb version) HeardFromSender (startTestBed draws) steps)
    (measures : (run (testBedStep mb version) (startTestBed draws) steps).receiver.measurements ≠
      []) :
    ∃ i heard, TestBedStep.hear i heard ∈ steps ∧ heard.dataSize = 0 ∧ heard.ShowsStart := by
  have noStart : ∀ step ∈ steps, NoStartWithData step :=
    (fromSenders.entails (fun _ step sound _ => SendersSound.step mb version sound step)
      (fun _ _ sound ok => SendersSound.noStart sound ok)
      (fun i => mainSound_start (draws i))).forall
  rw [run_receiver] at measures
  obtain ⟨heard, member, start⟩ := exists_start_of_measures (receiverSteps steps) measures
  obtain ⟨step, there, isHeard⟩ := List.mem_filterMap.mp member
  cases step with
  | hear i other =>
      obtain rfl := ReceiverAppStep.scanResult.inj (Option.some.inj isHeard)
      exact ⟨i, other, there, noStart _ there start, start⟩
  | sender i step => contradiction
  | receiverTurn => exact ReceiverAppStep.noConfusion (Option.some.inj isHeard)

def emptyHearing (left : List UInt8) : Hearing where
  timestampUs := 0
  data := Memory.ofList left
  dataSize := 0
  macAddress := 0xA1
  stack := fun _ => 0

/-- A sender of the second version starts its broadcast, and its timer fires twice.  The
receiver hears it without data, with a start left in the buffer. -/
def startLeftBehind : List (TestBedStep Unit) :=
  (List.replicate 4 SenderMainStep.mainLoop ++ twoTicks.map SenderMainStep.task).map
    (.sender ()) ++ [.hear () (emptyHearing buildTestStartPdu), .receiverTurn]

theorem start_only_without_data_left_behind :
    ∃ i heard, TestBedStep.hear i heard ∈ startLeftBehind ∧ heard.dataSize = 0 ∧
      heard.ShowsStart :=
  start_only_without_data tabulated (fun _ => .second) (fun _ => ⟨fun _ => 1, 1, 0⟩)
    startLeftBehind (by decide +kernel) (by decide +kernel)

end BleBroadcast.EndToEnd
