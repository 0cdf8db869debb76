import BleBroadcast.EndToEnd.HonestAuthorization
import BleBroadcast.EndToEnd.SessionTransfer
import BleBroadcast.Receiver.PayloadProvenance

/-!
# A session from the radio to the observers

The receiver with its authorization task and its processing task.  An honest sender is heard
in one session: every PDU but the last one is authorized by the PDU after it, passed on,
and decrypted once the key is there.
-/

set_option autoImplicit false

namespace BleBroadcast.EndToEnd

open BleBroadcast.Core BleBroadcast.Lib BleBroadcast.Sender BleBroadcast.Receiver

/-- `callsMade` of the calls that the authorization task makes have been made. -/
structure ReceiverPipeline where
  authorization : AdvTimeAuthorizeStructure
  callsMade : Nat
  receiver : ReceiverState

def startUpPipeline (garbage : Fin 2 → Fin 5 → KeyReconstructionMap) : ReceiverPipeline where
  authorization := initAdvTimeAuthorizeObject
  callsMade := 0
  receiver := startUpSecProcessing garbage

inductive HandlerStep where
  | newPdu (tickCount : Nat → UInt32) (stack : Nat → BeaconPduData)
  | newKeyFragmentInQueue (tickCount : Nat → UInt32)
  | processDeferredPdus (tickCount : Fin 2 → Nat → UInt32)

def HandlerStep.receiverStep : HandlerStep → ReceiverStep
  | .newPdu tickCount stack => .newPdu tickCount stack
  | .newKeyFragmentInQueue tickCount => .newKeyFragmentInQueue tickCount
  | .processDeferredPdus tickCount => .processDeferredPdus tickCount

inductive PipelineStep where
  | hear (heard : Hearing)
  | authorize (index : Fin 2)
  | enqueueNext
  | handler (step : HandlerStep)

def enqueueStep (call : EnqueueCall) : ReceiverStep :=
  .enqueuePdu call.data call.size call.macAddress

/-- The authorization task makes the calls of a batch before it goes on to the next one. -/
def pipelineStep (mb : Mbedtls) (pipeline : ReceiverPipeline) : PipelineStep → ReceiverPipeline
  | .hear heard =>
      { pipeline with authorization := authorizeStep pipeline.authorization (.hear heard) }
  | .authorize index =>
      if pipeline.callsMade = pipeline.authorization.enqueued.length then
        { pipeline with authorization := authorizeStep pipeline.authorization (.authorize index) }
      else pipeline
  | .enqueueNext =>
      match pipeline.authorization.enqueued[pipeline.callsMade]? with
      | none => pipeline
      | some call =>
          { pipeline with
            callsMade := pipeline.callsMade + 1
            receiver := receiverStep mb pipeline.receiver (enqueueStep call) }
  | .handler step =>
      { pipeline with receiver := receiverStep mb pipeline.receiver step.receiverStep }

/-- No queue refuses what the step puts on it. -/
def PipelineFits (mac : EspBdAddr) (pipeline : ReceiverPipeline) : PipelineStep → Prop
  | .hear heard => PrivateQueuesHaveRoom pipeline.authorization (.hear heard)
  | .authorize _ => True
  | .enqueueNext =>
      pipeline.receiver.sec.processingQueue.length < maxProcessingQueueElements
  | .handler step => StepFits mac pipeline.receiver step.receiverStep

instance pipelineFitsDecidable (mac : EspBdAddr) (pipeline : ReceiverPipeline) :
    ∀ step, Decidable (PipelineFits mac pipeline step)
  | .hear heard =>
      inferInstanceAs (Decidable (PrivateQueuesHaveRoom pipeline.authorization (.hear heard)))
  | .authorize _ => isTrue trivial
  | .enqueueNext => inferInstanceAs (Decidable (_ < _))
  | .handler step => inferInstanceAs (Decidable (StepFits mac _ step.receiverStep))

structure PipelineAtRest (pipeline : ReceiverPipeline) : Prop where
  authorized : ∀ i, (pipeline.authorization.consumers i).privateQueue = []
  called : pipeline.callsMade = pipeline.authorization.enqueued.length
  processed : AtRest pipeline.receiver

def hearingsOf (steps : List PipelineStep) : List Hearing :=
  steps.filterMap fun
    | .hear heard => some heard
    | _ => none

/-! ## The two tasks apart -/

/-- The pipeline is where its authorization task and its processing task have come by these
steps of their own. -/
structure Comprises (mb : Mbedtls) (mac : EspBdAddr)
    (garbage : Fin 2 → Fin 5 → KeyReconstructionMap) (authorizing : List AuthorizeStep)
    (processing : List ReceiverStep) (pipeline : ReceiverPipeline) : Prop where
  authorization : run authorizeStep initAdvTimeAuthorizeObject authorizing =
    pipeline.authorization
  authorizingFits : Guarded authorizeStep PrivateQueuesHaveRoom initAdvTimeAuthorizeObject
    authorizing
  receiver : run (receiverStep mb) (startUpSecProcessing garbage) processing =
    pipeline.receiver
  processingFits : Guarded (receiverStep mb) (StepFits mac) (startUpSecProcessing garbage)
    processing
  made : pipeline.callsMade ≤ pipeline.authorization.enqueued.length
  frames : enqueuedFrames processing =
    (pipeline.authorization.enqueued.take pipeline.callsMade).map EnqueueCall.frame
  callback : ∀ step ∈ processing, OwnCallback step

section
variable {mb : Mbedtls} {mac : EspBdAddr} {garbage : Fin 2 → Fin 5 → KeyReconstructionMap}
  {authorizing : List AuthorizeStep} {processing : List ReceiverStep}
  {pipeline : ReceiverPipeline}

theorem comprises_start (mb : Mbedtls) (mac : EspBdAddr)
    (garbage : Fin 2 → Fin 5 → KeyReconstructionMap) :
    Comprises mb mac garbage [] [] (startUpPipeline garbage) where
  authorization := rfl
  authorizingFits := trivial
  receiver := rfl
  processingFits := trivial
  made := Nat.zero_le _
  frames := rfl
  callback := fun _ member => absurd member List.not_mem_nil

theorem authorizeStep_enqueued (ao : AdvTimeAuthorizeStructure) (step : AuthorizeStep) :
    ao.enqueued <+: (authorizeStep ao step).enqueued := by
  cases step with
  | hear heard =>
      have same : (authorizeStep ao (.hear heard)).enqueued = ao.enqueued :=
        (scanCompleteCallback_cases ao heard).1
      rw [same]
  | authorize index =>
      simp only [authorizeStep, authorizeConsumer]
      split
      · exact List.prefix_append _ _
      · exact List.prefix_rfl

theorem Comprises.authorizationStep
    (comprises : Comprises mb mac garbage authorizing processing pipeline)
    (step : AuthorizeStep) (fits : PrivateQueuesHaveRoom pipeline.authorization step) :
    Comprises mb mac garbage (authorizing ++ [step]) processing
      { pipeline with authorization := authorizeStep pipeline.authorization step } := by
  obtain ⟨later, more⟩ := authorizeStep_enqueued pipeline.authorization step
  refine ⟨?_, ?_, comprises.receiver, comprises.processingFits, ?_, ?_, comprises.callback⟩
  · rw [run_append, comprises.authorization]
    rfl
  · refine guarded_append.mpr ⟨comprises.authorizingFits, ?_, trivial⟩
    rw [comprises.authorization]
    exact fits
  · simp only [← more, List.length_append]
    exact Nat.le_trans comprises.made (Nat.le_add_right _ _)
  · simp only [← more]
    rw [List.take_append_of_le_length comprises.made]
    exact comprises.frames

theorem Comprises.processingStep
    (comprises : Comprises mb mac garbage authorizing processing pipeline)
    (step : ReceiverStep) (fits : StepFits mac pipeline.receiver step) (own : OwnCallback step)
    {callsMade : Nat} (made : callsMade ≤ pipeline.authorization.enqueued.length)
    (frames : (pipeline.authorization.enqueued.take callsMade).map EnqueueCall.frame =
      (pipeline.authorization.enqueued.take pipeline.callsMade).map EnqueueCall.frame ++
        enqueuedFrames [step]) :
    Comprises mb mac garbage authorizing (processing ++ [step])
      { pipeline with
        callsMade := callsMade
        receiver := receiverStep mb pipeline.receiver step } := by
  refine ⟨comprises.authorization, comprises.authorizingFits, ?_, ?_, made, ?_, ?_⟩
  · rw [run_append, comprises.receiver]
    rfl
  · refine guarded_append.mpr ⟨comprises.processingFits, ?_, trivial⟩
    rw [comprises.receiver]
    exact fits
  · rw [frames, ← comprises.frames]
    exact List.filterMap_append
  · intro other member
    rcases List.mem_append.mp member with earlier | last
    · exact comprises.callback other earlier
    · rw [List.mem_singleton.mp last]
      exact own

theorem Comprises.step (comprises : Comprises mb mac garbage authorizing processing pipeline)
    {step : PipelineStep} (fits : PipelineFits mac pipeline step) :
    ∃ authorizingNext processingNext,
      Comprises mb mac garbage authorizingNext processingNext (pipelineStep mb pipeline step) ∧
      hearings authorizingNext = hearings authorizing ++ hearingsOf [step] := by
  have heardMore : ∀ more, hearings (authorizing ++ more) =
      hearings authorizing ++ hearings more := fun more => List.filterMap_append
  cases step with
  | hear heard =>
      exact ⟨_, _, comprises.authorizationStep (.hear heard) fits, heardMore _⟩
  | authorize index =>
      by_cases called : pipeline.callsMade = pipeline.authorization.enqueued.length
      · simp only [pipelineStep, if_pos called]
        exact ⟨_, _, comprises.authorizationStep (.authorize index) trivial, heardMore _⟩
      · simp only [pipelineStep, if_neg called]
        exact ⟨_, _, comprises, (List.append_nil _).symm⟩
  | enqueueNext =>
      cases next : pipeline.authorization.enqueued[pipeline.callsMade]? with
      | none =>
          simp only [pipelineStep, next]
          exact ⟨_, _, comprises, (List.append_nil _).symm⟩
      | some call =>
          simp only [pipelineStep, next]
          obtain ⟨inside, isCall⟩ := List.getElem?_eq_some_iff.mp next
          refine ⟨_, _, comprises.processingStep (enqueueStep call) fits trivial inside ?_,
            (List.append_nil _).symm⟩
          rw [List.take_succ_eq_append_getElem inside, isCall, List.map_append]
          rfl
  | handler step =>
      refine ⟨_, _, comprises.processingStep _ fits ?_ comprises.made ?_, (List.append_nil _).symm⟩
      · cases step <;> trivial
      · cases step <;> exact (List.append_nil _).symm

theorem Comprises.run (steps : List PipelineStep) :
    ∀ {authorizing : List AuthorizeStep} {processing : List ReceiverStep}
      {pipeline : ReceiverPipeline},
      Comprises mb mac garbage authorizing processing pipeline →
      Guarded (pipelineStep mb) (PipelineFits mac) pipeline steps →
      ∃ authorizingLast processingLast,
        Comprises mb mac garbage authorizingLast processingLast
          (run (pipelineStep mb) pipeline steps) ∧
        hearings authorizingLast = hearings authorizing ++ hearingsOf steps := by
  induction steps with
  | nil =>
      intro authorizing processing pipeline comprises _
      exact ⟨_, _, comprises, (List.append_nil _).symm⟩
  | cons step rest ih =>
      intro authorizing processing pipeline comprises guarded
      obtain ⟨_, _, next, heardOne⟩ := comprises.step guarded.1
      obtain ⟨_, _, last, heardRest⟩ := ih next guarded.2
      refine ⟨_, _, last, ?_⟩
      rw [heardRest, heardOne, List.append_assoc]
      exact congrArg _ List.filterMap_append.symm

end

/-! ## What is passed on -/

theorem cutFrame_of_bytes {data : Memory} {size : Nat} {emission : Emission}
    (bytes : data.bytes size = emission.frame) (mac : EspBdAddr) :
    cutFrame data size mac = frameOf mac emission := by
  have length : size = emission.frame.length := by
    rw [← bytes, Memory.length_bytes]
  subst length
  have holds : Holds data emission.frame := bytes
  simp only [cutFrame, frameOf, BeaconPduDataWithMacAddr.mk.injEq, and_true]
  funext i
  by_cases inside : i < emission.frame.length
  · rw [if_pos inside, holds.byte inside, Memory.ofList, List.getD_eq_getElem?_getD,
      List.getElem?_eq_getElem inside]
    rfl
  · simp [Memory.ofList, inside]

section
variable {mb : Mbedtls} {mac : EspBdAddr} {trace : SenderTrace} {history : List Hearing}
  {count : Nat}

theorem HeardOnTime.positive (heard : HeardOnTime mac trace.emitted history)
    (genuine : ∀ emission ∈ trace.emitted, emission.Genuine mb) (inOrder : InOrder count trace) :
    ∀ first, history.head? = some first → 0 < first.pduNo := by
  intro first isFirst
  obtain ⟨_, rfl⟩ := List.head?_eq_some_iff.mp isFirst
  have complete := heard.complete
  cases emitted : trace.emitted with
  | nil =>
      rw [emitted] at complete
      cases complete
  | cons emission others =>
      have read := (heard.reads genuine inOrder (emission, first) (by simp [emitted])).2
      have one := inOrder.first emission (by simp [emitted])
      have number : first.pduNo = emission.pduNo := read.pduNo
      rw [number, UInt16.lt_iff_toNat_lt, one]
      decide

theorem HeardOnTime.enqueued (heard : HeardOnTime mac trace.emitted history)
    (genuine : ∀ emission ∈ trace.emitted, emission.Genuine mb) (inOrder : InOrder count trace)
    {session : Session} (own : ∀ emission ∈ trace.emitted, emission.session = session)
    {authorizing : List AuthorizeStep} (isHistory : Receiver.hearings authorizing = history)
    (room : Guarded authorizeStep PrivateQueuesHaveRoom initAdvTimeAuthorizeObject authorizing)
    (authorized : ∀ i, ((run authorizeStep initAdvTimeAuthorizeObject authorizing).consumers
      i).privateQueue = []) :
    (run authorizeStep initAdvTimeAuthorizeObject authorizing).enqueued.map EnqueueCall.frame =
      trace.emitted.dropLast.map (frameOf mac) := by
  subst isHistory
  have ids : ConsecutiveIdsDiffer trace.emitted := by
    refine List.isChain_iff_forall_rel_of_append_cons_cons.mpr ?_
    intro first second before after split differ
    rw [own first (by simp [split]), own second (by simp [split])] at differ
    exact absurd rfl differ
  obtain ⟨received, index, queue, enqueued⟩ := single_sender_authorized
    (heard.heardFrom genuine inOrder ids) (heard.positive genuine inOrder) room
  rw [authorized index, List.append_nil] at queue
  have same : ∀ first ∈ trace.emitted, ∀ second ∈ trace.emitted,
      sameSession first second = true := by
    intro first isFirst second isSecond
    exact decide_eq_true ((own first isFirst).trans (own second isSecond).symm)
  have passed := heard.passedOn genuine inOrder ids
  rw [selectedPairs_eq_dropLast _ same, ← queue, ← enqueued] at passed
  have frames : List.Forall₂ (fun call emission => EnqueueCall.frame call = frameOf mac emission)
      (run authorizeStep initAdvTimeAuthorizeObject authorizing).enqueued
      trace.emitted.dropLast := by
    refine List.Forall₂.imp ?_ (List.forall₂_map_left_iff.mp (List.forall₂_map_right_iff.mp
      (List.forall₂_eq_eq_eq ▸ passed)))
    intro call emission equal
    obtain ⟨bytes, address⟩ := Prod.mk.inj equal
    rw [EnqueueCall.frame, address]
    exact cutFrame_of_bytes bytes mac
  exact List.forall₂_eq_eq_eq ▸ List.forall₂_map_left_iff.mpr
    (List.forall₂_map_right_iff.mpr frames)

end

/-- An honest sender is heard without loss and in time while it stays in one session, and the
pipeline runs in any order of its steps until nothing is left to be done, with no queue
refusing anything.  The observers have then been called with the plaintexts of all its data
PDUs but the last PDU, once each and in order, if the fragments of the key are among them. -/
theorem heard_session_notified (mb : Mbedtls) (initial : RandomDraws) (count : UInt32)
    (several : 2 ≤ count.toNat) (wide : count.toNat ≤ 65536) {calls : List SenderCall}
    {final : SenderTrace} (honest : ∀ call ∈ calls, call.Honest)
    (sent : senderRun mb (.start (setKeyReplacementPduCount (initPayloadEncryption initial) count))
      calls = some final)
    {session : Session} (own : ∀ emission ∈ final.emitted, emission.session = session)
    (fits : ∀ emission ∈ final.emitted, emission.frame.length ≤ maxGapDataLen)
    (keyed : ∀ number, ∃ pdu, .keyFragment session number pdu ∈ final.emitted.dropLast)
    (used : session.keyId.toUInt8 ≠ 0) {mac : EspBdAddr} (nonzero : mac ≠ 0)
    (garbage : Fin 2 → Fin 5 → KeyReconstructionMap) {steps : List PipelineStep}
    (heard : HeardOnTime mac final.emitted (hearingsOf steps))
    (room : Guarded (pipelineStep mb) (PipelineFits mac) (startUpPipeline garbage) steps)
    (rest : PipelineAtRest (run (pipelineStep mb) (startUpPipeline garbage) steps)) :
    notifications
        (run (pipelineStep mb) (startUpPipeline garbage) steps).receiver.sec.log =
      (final.emitted.dropLast.filterMap dataPlaintext).filterMap (notificationOf mac) := by
  have genuine : ∀ emission ∈ final.emitted, emission.Genuine mb :=
    senderRun_genuine ((coherent_init initial).setCount count) sent
  have inOrder := senderRun_inOrder several wide (inOrder_start initial several) honest sent
  obtain ⟨authorizing, processing, comprises, history⟩ :=
    (comprises_start mb mac garbage).run steps room
  have among : ∀ emission ∈ final.emitted.dropLast, emission ∈ final.emitted :=
    fun emission member => List.dropLast_subset _ member
  have passed := heard.enqueued genuine inOrder own history comprises.authorizingFits
    (by rw [comprises.authorization]; exact rest.authorized)
  have frames := comprises.frames
  rw [rest.called, List.take_length, ← comprises.authorization, passed] at frames
  rw [← comprises.receiver]
  refine genuine_session_notified (fun emission member => genuine emission (among emission member))
    (fun emission member => own emission (among emission member))
    (fun emission member => fits emission (among emission member)) keyed used nonzero garbage
    frames comprises.callback comprises.processingFits ?_
  rw [comprises.receiver]
  exact rest.processed

/-- The PDUs of `sentInSession`, and another data PDU of the session. -/
def sentLonger : Option SenderTrace :=
  let draws : RandomDraws := ⟨fun _ => 1, 1, 0x10⟩
  senderRun tabulated (.start (setKeyReplacementPduCount (initPayloadEncryption draws) 200))
    (.encryptPayload [0x74] (fillMarkerInPdu .zero) draws ::
      (List.replicate 4 (.getKeyFragmentPdu (fillMarkerInKeyPdu .zero) draws) ++
        [.encryptPayload [0x75] (fillMarkerInPdu .zero) draws]))

def emittedLonger : List Emission := (sentLonger.map SenderTrace.emitted).getD []

theorem sentLonger_eq : ∃ final, sentLonger = some final ∧ emittedLonger = final.emitted := by
  have produced : sentLonger.isSome = true := by decide +kernel
  obtain ⟨final, isFinal⟩ := Option.isSome_iff_exists.mp produced
  exact ⟨final, isFinal, by simp [emittedLonger, isFinal]⟩

def hearAndProcess (mac : EspBdAddr) (emitted : List Emission) : List PipelineStep :=
  (hearingsOnTime mac 1 emitted).map PipelineStep.hear ++
    (List.finRange 2).map PipelineStep.authorize ++ List.replicate 5 PipelineStep.enqueueNext ++
    [.handler (.newPdu (fun _ => 7) (fun _ => .zero)),
      .handler (.newKeyFragmentInQueue fun _ => 7),
      .handler (.processDeferredPdus fun _ _ => 8)]

theorem hearingsOf_hearAndProcess (mac : EspBdAddr) (emitted : List Emission) :
    hearingsOf (hearAndProcess mac emitted) = hearingsOnTime mac 1 emitted := by
  have heard : ∀ history : List Hearing,
      hearingsOf (history.map PipelineStep.hear) = history := by
    intro history
    induction history with
    | nil => rfl
    | cons first rest ih => exact congrArg (first :: ·) ih
  simp only [hearingsOf, hearAndProcess, List.filterMap_append]
  rw [← hearingsOf, heard]
  simp [List.finRange_succ]

/-- The data PDU at the start of the session is decrypted, the one at its end is not. -/
theorem heard_session_notified_longer :
    notifications (run (pipelineStep tabulated) (startUpPipeline blankCaches)
      (hearAndProcess 0xA1 emittedLonger)).receiver.sec.log = [⟨[0x74], 1, 0xA1⟩] := by
  have single : ∀ emission ∈ emittedLonger, emission.session = ⟨0, 1, fun _ => 1⟩ := by
    decide +kernel
  have fits : ∀ emission ∈ emittedLonger, emission.frame.length ≤ maxGapDataLen := by
    decide +kernel
  have numbers : ∀ number, number ∈ emittedLonger.dropLast.filterMap fragmentNumber := by
    decide +kernel
  have room : Guarded (pipelineStep tabulated) (PipelineFits 0xA1) (startUpPipeline blankCaches)
      (hearAndProcess 0xA1 emittedLonger) := by
    decide +kernel
  have rest : PipelineAtRest (run (pipelineStep tabulated) (startUpPipeline blankCaches)
      (hearAndProcess 0xA1 emittedLonger)) := by
    have lengths : ∀ i, ((run (pipelineStep tabulated) (startUpPipeline blankCaches)
        (hearAndProcess 0xA1 emittedLonger)).authorization.consumers i).privateQueue.length =
          0 := by
      decide +kernel
    exact ⟨fun i => List.length_eq_zero_iff.mp (lengths i), by decide +kernel,
      by decide +kernel, by decide +kernel, by decide +kernel⟩
  have keyed := keyed_of_numbers
    (fun emission member => single emission (List.dropLast_subset _ member)) numbers
  have plaintexts : (emittedLonger.dropLast.filterMap dataPlaintext).filterMap
      (notificationOf 0xA1) = [⟨[0x74], 1, 0xA1⟩] := by
    have one : emittedLonger.dropLast.filterMap dataPlaintext = [[0x74]] := by decide +kernel
    rw [one]
    rfl
  obtain ⟨final, sent, emitted⟩ := sentLonger_eq
  rw [← plaintexts]
  rw [emitted] at single fits keyed room rest ⊢
  refine heard_session_notified tabulated ⟨fun _ => 1, 1, 0x10⟩ 200 (by decide) (by decide)
    (by decide) sent single fits keyed (by decide) (by decide) blankCaches ?_ room rest
  rw [hearingsOf_hearAndProcess]
  exact heardOnTime_hearingsOnTime 0xA1 final.emitted 1 (by decide)

end BleBroadcast.EndToEnd
