import Mathlib.Data.Finset.Basic
import BleBroadcast.Core.TestPdu
import BleBroadcast.Lib.GuardedRun
import BleBroadcast.Lib.SlotTable
import BleBroadcast.Receiver.AdvTimeAuthorize

/-!
# The receiver application

Model of `receiver_main.c`: its scan callback sets an event when a test starts or when all
senders have ended it, and the main loop follows the events.  What the application is for is
one measurement, from the first start that is heard to the first end that is heard once all
senders have ended.
-/

set_option autoImplicit false

namespace BleBroadcast.Receiver

open BleBroadcast.Core BleBroadcast.Lib

abbrev sendersNumber : Nat := 2

structure ActiveTestSender where
  address : EspBdAddr
  testEndReceived : Bool

inductive ReceiverStateMachine where
  | waitForTestStartPdu
  | scanningPdus
  | cleanupState
  deriving DecidableEq

/-- The bits of `receiverAppEventGroup`, the static variables and the state of the main loop,
with the calls it has made. -/
structure ReceiverApp where
  eventStartPdu : Bool
  eventEndPdu : Bool
  receivedTestStart : Bool
  testSenders : Fin sendersNumber → ActiveTestSender
  state : ReceiverStateMachine
  measurements : List Measurement

def startUpReceiverApp : ReceiverApp where
  eventStartPdu := false
  eventEndPdu := false
  receivedTestStart := false
  testSenders := fun _ => ⟨0, false⟩
  state := .waitForTestStartPdu
  measurements := []

def receivedAllTestEnds (testSenders : Fin sendersNumber → ActiveTestSender) : Bool :=
  (List.finRange sendersNumber).countP (fun i => (testSenders i).testEndReceived) == sendersNumber

/-- The loop of `check_and_add_test_sender`, from the slots that are left. -/
def checkAndAddFrom (testSenders : Fin sendersNumber → ActiveTestSender) (mac : EspBdAddr) :
    List (Fin sendersNumber) → Fin sendersNumber → ActiveTestSender
  | [] => testSenders
  | i :: rest =>
      if (testSenders i).address ≠ mac ∧ (testSenders i).address = 0 then
        Function.update testSenders i ⟨mac, true⟩
      else if (testSenders i).address ≠ 0 ∧ (testSenders i).address = mac then testSenders
      else checkAndAddFrom testSenders mac rest

def checkAndAddTestSender (testSenders : Fin sendersNumber → ActiveTestSender)
    (mac : EspBdAddr) : Fin sendersNumber → ActiveTestSender :=
  checkAndAddFrom testSenders mac (List.finRange sendersNumber)

def Hearing.ShowsStart (heard : Hearing) : Prop :=
  isTestPdu heard.data = true ∧ isTestStartPdu heard.data = true

def Hearing.ShowsEnd (heard : Hearing) : Prop :=
  isTestPdu heard.data = true ∧ isTestStartPdu heard.data = false ∧
    isTestEndPdu heard.data = true

instance (heard : Hearing) : Decidable heard.ShowsStart := inferInstanceAs (Decidable (_ ∧ _))

instance (heard : Hearing) : Decidable heard.ShowsEnd :=
  inferInstanceAs (Decidable (_ ∧ _ ∧ _))

def receiverAppScanCompleteCallback (app : ReceiverApp) (heard : Hearing) : ReceiverApp :=
  if heard.ShowsStart then
    if app.receivedTestStart = false then
      { app with eventStartPdu := true, receivedTestStart := true }
    else app
  else if heard.ShowsEnd then
    let testSenders := checkAndAddTestSender app.testSenders heard.macAddress
    { app with
      testSenders := testSenders
      eventEndPdu := app.eventEndPdu || receivedAllTestEnds testSenders }
  else app

/-- `esp_gap_cb` with a scan result: an advertisement that is too long is dropped. -/
def scanResult (app : ReceiverApp) (heard : Hearing) : ReceiverApp :=
  if heard.dataSize ≤ maxGapDataLen then receiverAppScanCompleteCallback app heard else app

/-- A turn of `ble_receiver_main_loop`: both events are cleared, and the state sees one. -/
def mainLoopTurn (app : ReceiverApp) : ReceiverApp :=
  let waited := { app with eventStartPdu := false, eventEndPdu := false }
  match app.state with
  | .waitForTestStartPdu =>
      if app.eventStartPdu then
        { waited with
          measurements := app.measurements ++ [.started]
          state := .scanningPdus }
      else waited
  | .scanningPdus => if app.eventEndPdu then { waited with state := .cleanupState } else waited
  | .cleanupState =>
      { waited with
        measurements := app.measurements ++ [.ended]
        state := .waitForTestStartPdu }

inductive ReceiverAppStep where
  | scanResult (heard : Hearing)
  | turn

def receiverAppStep (app : ReceiverApp) : ReceiverAppStep → ReceiverApp
  | .scanResult heard => scanResult app heard
  | .turn => mainLoopTurn app

/-! ## What the application is for -/

/-- How far the one measurement is. -/
inductive TestPhase where
  | quiet
  | announced
  | measuring
  | allEnded
  | cleaning
  | finished
  deriving DecidableEq

def TestPhase.measurements : TestPhase → List Measurement
  | .quiet => []
  | .announced => []
  | .measuring => [.started]
  | .allEnded => [.started]
  | .cleaning => [.started]
  | .finished => [.started, .ended]

/-- A test as it is meant: the addresses, other than zero, under which its end was heard, and
how far the measurement is. -/
structure TestRun where
  enders : Finset EspBdAddr
  phase : TestPhase

def quietTestRun : TestRun := ⟨∅, .quiet⟩

def TestRun.hearStart (test : TestRun) : TestRun :=
  match test.phase with
  | .quiet => { test with phase := .announced }
  | _ => test

def TestRun.hearEnd (test : TestRun) (mac : EspBdAddr) : TestRun :=
  let enders := if mac = 0 then test.enders else insert mac test.enders
  match test.phase with
  | .measuring => ⟨enders, if sendersNumber ≤ enders.card then .allEnded else .measuring⟩
  | phase => ⟨enders, phase⟩

def TestRun.turn (test : TestRun) : TestRun :=
  match test.phase with
  | .announced => { test with phase := .measuring }
  | .allEnded => { test with phase := .cleaning }
  | .cleaning => { test with phase := .finished }
  | _ => test

def testRunStep (test : TestRun) : ReceiverAppStep → TestRun
  | .scanResult heard =>
      if maxGapDataLen < heard.dataSize then test
      else if heard.ShowsStart then test.hearStart
      else if heard.ShowsEnd then test.hearEnd heard.macAddress
      else test
  | .turn => test.turn

/-! ## The table of senders -/

structure SendersFollow (enders : Finset EspBdAddr)
    (testSenders : Fin sendersNumber → ActiveTestSender) : Prop where
  first : FirstSeen 0 (fun i => (testSenders i).address) enders
  received : ∀ i, (testSenders i).testEndReceived = true ↔ (testSenders i).address ≠ 0
  ordered : (testSenders 0).address = 0 → (testSenders 1).address = 0

theorem forall_sender {P : Fin sendersNumber → Prop} : (∀ i, P i) ↔ P 0 ∧ P 1 :=
  Fin.forall_fin_two

theorem SendersFollow.allReceived {enders : Finset EspBdAddr}
    {testSenders : Fin sendersNumber → ActiveTestSender}
    (follow : SendersFollow enders testSenders) :
    receivedAllTestEnds testSenders = true ↔ sendersNumber ≤ enders.card := by
  have full := follow.first.full_iff
  rw [Fintype.card_fin] at full
  rw [← full, receivedAllTestEnds, beq_iff_eq]
  have length : (List.finRange sendersNumber).length = sendersNumber := List.length_finRange
  conv_lhs => rhs; rw [← length]
  rw [List.countP_eq_length]
  constructor
  · intro all i
    exact (follow.received i).mp (all i (List.mem_finRange i))
  · intro used i _
    exact (follow.received i).mpr (used i)

theorem address_update (testSenders : Fin sendersNumber → ActiveTestSender)
    (i : Fin sendersNumber) (mac : EspBdAddr) :
    (fun j => (Function.update testSenders i ⟨mac, true⟩ j).address) =
      Function.update (fun j => (testSenders j).address) i mac := by
  funext j
  by_cases here : j = i
  · subst here
    simp
  · simp [here]

theorem SendersFollow.claim {enders : Finset EspBdAddr}
    {testSenders : Fin sendersNumber → ActiveTestSender}
    (follow : SendersFollow enders testSenders) {i : Fin sendersNumber} {mac : EspBdAddr}
    (isFree : (testSenders i).address = 0) (proper : mac ≠ 0)
    (missing : ∀ j, (testSenders j).address ≠ mac)
    (next : i = 0 ∨ (testSenders 0).address ≠ 0) :
    SendersFollow (insert mac enders) (Function.update testSenders i ⟨mac, true⟩) where
  first := by
    rw [address_update]
    exact follow.first.claim isFree proper missing
  received := by
    intro j
    by_cases here : j = i
    · subst here
      rw [Function.update_self]
      exact iff_of_true rfl proper
    · rw [Function.update_of_ne here]
      exact follow.received j
  ordered := by
    intro firstFree
    rcases next with rfl | used
    · rw [Function.update_self] at firstFree
      exact absurd firstFree proper
    · by_cases here : 0 = i
      · subst here
        rw [Function.update_self] at firstFree
        exact absurd firstFree proper
      · rw [Function.update_of_ne here] at firstFree
        exact absurd firstFree used

theorem SendersFollow.again {enders : Finset EspBdAddr}
    {testSenders : Fin sendersNumber → ActiveTestSender}
    (follow : SendersFollow enders testSenders) {mac : EspBdAddr} (proper : mac ≠ 0)
    (kept : (∃ i, (testSenders i).address = mac) ∨ ∀ i, (testSenders i).address ≠ 0) :
    SendersFollow (insert mac enders) testSenders :=
  ⟨follow.first.again proper kept, follow.received, follow.ordered⟩

theorem SendersFollow.checkAndAdd {enders : Finset EspBdAddr}
    {testSenders : Fin sendersNumber → ActiveTestSender}
    (follow : SendersFollow enders testSenders) (mac : EspBdAddr) :
    SendersFollow (if mac = 0 then enders else insert mac enders)
      (checkAndAddTestSender testSenders mac) := by
  have slots : List.finRange sendersNumber = [0, 1] := rfl
  rw [checkAndAddTestSender, slots]
  by_cases zero : mac = 0
  · -- the address zero is neither taken nor found
    subst zero
    simp only [checkAndAddFrom, ne_eq, if_true, not_and_self, if_false]
    exact follow
  · rw [if_neg zero]
    simp only [checkAndAddFrom]
    by_cases firstFree : (testSenders 0).address = 0
    · have secondFree := follow.ordered firstFree
      have missing : ∀ j, (testSenders j).address ≠ mac := by
        rw [forall_sender, firstFree, secondFree]
        exact ⟨fun same => zero same.symm, fun same => zero same.symm⟩
      rw [if_pos ⟨missing 0, firstFree⟩]
      exact follow.claim firstFree zero missing (Or.inl rfl)
    · rw [if_neg fun both => firstFree both.2]
      by_cases inFirst : (testSenders 0).address = mac
      · rw [if_pos ⟨firstFree, inFirst⟩]
        exact follow.again zero (Or.inl ⟨0, inFirst⟩)
      · rw [if_neg fun both => inFirst both.2]
        by_cases secondFree : (testSenders 1).address = 0
        · have missing : ∀ j, (testSenders j).address ≠ mac := by
            rw [forall_sender, secondFree]
            exact ⟨inFirst, fun same => zero same.symm⟩
          rw [if_pos ⟨missing 1, secondFree⟩]
          exact follow.claim secondFree zero missing (Or.inr firstFree)
        · rw [if_neg fun both => secondFree both.2, ite_self]
          exact follow.again zero (Or.inr (forall_sender.mpr ⟨firstFree, secondFree⟩))

/-! ## The application and the test -/

def TestPhase.state : TestPhase → ReceiverStateMachine
  | .quiet => .waitForTestStartPdu
  | .announced => .waitForTestStartPdu
  | .measuring => .scanningPdus
  | .allEnded => .scanningPdus
  | .cleaning => .cleanupState
  | .finished => .waitForTestStartPdu

structure FollowsTest (test : TestRun) (app : ReceiverApp) : Prop where
  senders : SendersFollow test.enders app.testSenders
  heard : app.receivedTestStart = decide (test.phase ≠ .quiet)
  start : app.eventStartPdu = decide (test.phase = .announced)
  notEnded : test.phase = .measuring → app.eventEndPdu = false
  ended : test.phase = .allEnded → app.eventEndPdu = true
  state : app.state = test.phase.state
  measurements : app.measurements = test.phase.measurements

theorem followsTest_start : FollowsTest quietTestRun startUpReceiverApp where
  senders :=
    { first := ⟨fun _ _ _ used => absurd rfl used, fun _ used => absurd rfl used,
        Finset.notMem_empty 0, fun _ _ member => absurd member (Finset.notMem_empty _)⟩
      received := fun _ => by simp [startUpReceiverApp]
      ordered := fun _ => rfl }
  heard := rfl
  start := rfl
  notEnded := fun _ => rfl
  ended := fun phase => by contradiction
  state := rfl
  measurements := rfl

section
variable {test : TestRun} {app : ReceiverApp}

theorem hearStart_again (heard : test.phase ≠ .quiet) : test.hearStart = test := by
  obtain ⟨enders, phase⟩ := test
  cases phase with
  | quiet => exact absurd rfl heard
  | announced => rfl
  | measuring => rfl
  | allEnded => rfl
  | cleaning => rfl
  | finished => rfl

theorem FollowsTest.hearStart (follows : FollowsTest test app) :
    FollowsTest test.hearStart (if app.receivedTestStart = false then
      { app with eventStartPdu := true, receivedTestStart := true } else app) := by
  by_cases quiet : test.phase = .quiet
  · have unheard : app.receivedTestStart = false := by
      rw [follows.heard, quiet]
      rfl
    rw [if_pos unheard]
    obtain ⟨senders, heard, start, notEnded, ended, state, measurements⟩ := follows
    obtain ⟨enders, phase⟩ := test
    subst quiet
    exact ⟨senders, rfl, rfl, fun other => by contradiction, fun other => by contradiction,
      state, measurements⟩
  · have again : app.receivedTestStart = true := by
      rw [follows.heard]
      exact decide_eq_true quiet
    rw [if_neg (by rw [again]; decide), hearStart_again quiet]
    exact follows

theorem FollowsTest.hearEnd (follows : FollowsTest test app) (mac : EspBdAddr) :
    FollowsTest (test.hearEnd mac)
      { app with
        testSenders := checkAndAddTestSender app.testSenders mac
        eventEndPdu := app.eventEndPdu ||
          receivedAllTestEnds (checkAndAddTestSender app.testSenders mac) } := by
  obtain ⟨senders, heard, start, notEnded, ended, state, measurements⟩ := follows
  obtain ⟨enders, phase⟩ := test
  have more := senders.checkAndAdd mac
  have all := more.allReceived
  cases phase with
  | measuring =>
      -- the event is set by this PDU if all senders have ended with it
      simp only [TestRun.hearEnd]
      by_cases enough : sendersNumber ≤ (if mac = 0 then enders else insert mac enders).card
      · rw [if_pos enough]
        refine ⟨more, heard, start, fun other => by contradiction, fun _ => ?_, state,
          measurements⟩
        rw [all.mpr enough, Bool.or_true]
      · rw [if_neg enough]
        refine ⟨more, heard, start, fun _ => ?_, fun other => by contradiction, state,
          measurements⟩
        rw [notEnded rfl, Bool.false_or, Bool.eq_false_iff]
        exact fun set => enough (all.mp set)
  | allEnded =>
      refine ⟨more, heard, start, fun other => by contradiction, fun _ => ?_, state,
        measurements⟩
      rw [ended rfl, Bool.true_or]
  | quiet => exact ⟨more, heard, start, fun other => by contradiction,
      fun other => by contradiction, state, measurements⟩
  | announced => exact ⟨more, heard, start, fun other => by contradiction,
      fun other => by contradiction, state, measurements⟩
  | cleaning => exact ⟨more, heard, start, fun other => by contradiction,
      fun other => by contradiction, state, measurements⟩
  | finished => exact ⟨more, heard, start, fun other => by contradiction,
      fun other => by contradiction, state, measurements⟩

theorem FollowsTest.turn (follows : FollowsTest test app) :
    FollowsTest test.turn (mainLoopTurn app) := by
  obtain ⟨senders, heard, start, notEnded, ended, state, measurements⟩ := follows
  obtain ⟨enders, phase⟩ := test
  cases phase with
  | quiet =>
      simp only [mainLoopTurn, state, TestPhase.state, start]
      exact ⟨senders, heard, rfl, fun _ => rfl, fun other => by contradiction, rfl,
        measurements⟩
  | announced =>
      simp only [mainLoopTurn, state, TestPhase.state, start]
      refine ⟨senders, heard, rfl, fun _ => rfl, fun other => by contradiction, rfl, ?_⟩
      rw [measurements]
      rfl
  | measuring =>
      simp only [mainLoopTurn, state, TestPhase.state, notEnded rfl]
      exact ⟨senders, heard, rfl, fun _ => rfl, fun other => by contradiction, rfl,
        measurements⟩
  | allEnded =>
      simp only [mainLoopTurn, state, TestPhase.state, ended rfl]
      exact ⟨senders, heard, rfl, fun other => by contradiction, fun other => by contradiction,
        rfl, measurements⟩
  | cleaning =>
      simp only [mainLoopTurn, state, TestPhase.state]
      refine ⟨senders, heard, rfl, fun other => by contradiction,
        fun other => by contradiction, rfl, ?_⟩
      rw [measurements]
      rfl
  | finished =>
      -- no further start sets the event
      simp only [mainLoopTurn, state, TestPhase.state, start]
      exact ⟨senders, heard, rfl, fun other => by contradiction, fun other => by contradiction,
        rfl, measurements⟩

theorem FollowsTest.step (follows : FollowsTest test app) (step : ReceiverAppStep) :
    FollowsTest (testRunStep test step) (receiverAppStep app step) := by
  cases step with
  | turn => exact follows.turn
  | scanResult heard =>
      simp only [testRunStep, receiverAppStep, scanResult]
      by_cases fits : heard.dataSize ≤ maxGapDataLen
      · rw [if_neg (Nat.not_lt.mpr fits), if_pos fits, receiverAppScanCompleteCallback]
        by_cases start : heard.ShowsStart
        · rw [if_pos start, if_pos start]
          exact follows.hearStart
        · rw [if_neg start, if_neg start]
          by_cases ended : heard.ShowsEnd
          · rw [if_pos ended, if_pos ended]
            exact follows.hearEnd heard.macAddress
          · rw [if_neg ended, if_neg ended]
            exact follows
      · rw [if_pos (Nat.not_le.mp fits), if_neg fits]
        exact follows

theorem FollowsTest.run (steps : List ReceiverAppStep) (follows : FollowsTest test app) :
    FollowsTest (run testRunStep test steps) (run receiverAppStep app steps) := by
  induction steps generalizing test app with
  | nil => exact follows
  | cons step rest ih => exact ih (follows.step step)

end

theorem exists_start_of_phase (steps : List ReceiverAppStep) :
    ∀ test : TestRun, test.phase = .quiet → (run testRunStep test steps).phase ≠ .quiet →
      ∃ heard, .scanResult heard ∈ steps ∧ heard.ShowsStart := by
  induction steps with
  | nil => exact fun test quiet moved => absurd quiet moved
  | cons step rest ih =>
      intro test quiet moved
      by_cases still : (testRunStep test step).phase = .quiet
      · obtain ⟨heard, member, start⟩ := ih (testRunStep test step) still moved
        exact ⟨heard, List.mem_cons_of_mem _ member, start⟩
      · cases step with
        | turn => simp [testRunStep, TestRun.turn, quiet] at still
        | scanResult heard =>
            by_cases start : heard.ShowsStart
            · exact ⟨heard, List.mem_cons_self, start⟩
            · refine absurd ?_ still
              simp only [testRunStep, if_neg start]
              split
              · exact quiet
              · split
                · simp only [TestRun.hearEnd, quiet]
                · exact quiet

/-- The application measures only if it has heard a start. -/
theorem exists_start_of_measures (steps : List ReceiverAppStep)
    (measures : (run receiverAppStep startUpReceiverApp steps).measurements ≠ []) :
    ∃ heard, .scanResult heard ∈ steps ∧ heard.ShowsStart := by
  refine exists_start_of_phase steps quietTestRun rfl fun quiet => measures ?_
  rw [(FollowsTest.run steps followsTest_start).measurements, quiet]
  rfl

/-- In every run the application takes the one measurement of the test: it starts with the
first turn after a start is heard and ends with the turn after the one that finds the end,
which is heard, in between, once two senders have ended. -/
theorem receiver_app_refines_test (steps : List ReceiverAppStep) :
    (run receiverAppStep startUpReceiverApp steps).measurements =
      (run testRunStep quietTestRun steps).phase.measurements :=
  (FollowsTest.run steps followsTest_start).measurements

end BleBroadcast.Receiver
