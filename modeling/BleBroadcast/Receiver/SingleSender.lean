import BleBroadcast.Receiver.BatchIndependence
import BleBroadcast.Receiver.ScanFilter

/-!
# Authorization with a single sender

All frames heard come from one address, and none is stopped by the filter.  One entry of
the table takes them all, and the frames passed on are those that a comparison of all
neighbours heard passes on.
-/

set_option autoImplicit false

namespace BleBroadcast.Receiver

open BleBroadcast.Core BleBroadcast.Lib

/-- The filter lets `heard` through if the frame noted last is `last`. -/
def Hearing.PassesAfter (last heard : Hearing) : Prop :=
  last.keyId = heard.keyId → last.pduNo < heard.pduNo

/-- Frames of one sender in our format, none of which the filter stops. -/
structure HeardFrom (mac : EspBdAddr) (history : List Hearing) : Prop where
  sender : ∀ heard ∈ history, heard.macAddress = mac
  format : ∀ heard ∈ history, isPduInBeaconPduFormat heard.data heard.dataSize = true
  stamped : ∀ heard ∈ history, heard.timestampUs ≠ 0
  passes : history.IsChain Hearing.PassesAfter

theorem HeardFrom.tail {mac : EspBdAddr} {heard : Hearing} {rest : List Hearing}
    (heardFrom : HeardFrom mac (heard :: rest)) : HeardFrom mac rest where
  sender := fun other member => heardFrom.sender other (List.mem_cons_of_mem _ member)
  format := fun other member => heardFrom.format other (List.mem_cons_of_mem _ member)
  stamped := fun other member => heardFrom.stamped other (List.mem_cons_of_mem _ member)
  passes := (List.isChain_cons.mp heardFrom.passes).2

/-! ## One hearing -/

theorem getConsumerIndexForAddr_foremost {ao : AdvTimeAuthorizeStructure} {mac : EspBdAddr}
    {index : Fin 2} (there : (ao.consumers index).consumerAddr = mac)
    (foremost : ∀ i < index, (ao.consumers i).consumerAddr ≠ mac) :
    getConsumerIndexForAddr ao mac = (some index, ao) := by
  have found : (Fin.find? fun i => (ao.consumers i).consumerAddr == mac) = some index :=
    Fin.find?_eq_some_iff.mpr ⟨by simpa using there, by simpa using foremost⟩
  simp only [getConsumerIndexForAddr, found]

theorem scanCompleteCallback_takes {ao claimed : AdvTimeAuthorizeStructure} {heard : Hearing}
    {index : Fin 2} (format : isPduInBeaconPduFormat heard.data heard.dataSize = true)
    (found : getConsumerIndexForAddr ao heard.macAddress = (some index, claimed))
    (passes : (claimed.consumers 0).lastPduKeyId = heard.keyId →
      (claimed.consumers 0).lastPduNo < heard.pduNo) :
    scanCompleteCallback ao heard =
      { noteLastPdu (sendToPrivateQueue claimed index heard) heard.pduNo heard.keyId with
        heard := ao.heard + 1 } := by
  rw [scanCompleteCallback]
  obtain ⟨sameId, notAbove, _⟩ | ⟨_, taken⟩ := filterAdvertisement_found format found
  · exact absurd (passes sameId) (UInt16.not_lt.mpr notAbove)
  · rw [taken]

/-- The state after hearings of one sender: `last` was heard last, and the frames `placed`
were put into the queue of the entry `index`. -/
structure TakesSender (index : Fin 2) (mac : EspBdAddr) (last : Hearing)
    (placed received : List ScanPdu) (ao : AdvTimeAuthorizeStructure) : Prop where
  compared : ComparedUpTo index mac [] placed received ao
  foremost : ∀ i < index, (ao.consumers i).consumerAddr ≠ mac
  idle : ∀ i, i ≠ index → (ao.consumers i).active = false
  keyId : (ao.consumers 0).lastPduKeyId = last.keyId
  pduNo : (ao.consumers 0).lastPduNo = last.pduNo

theorem ComparedUpTo.congr {index : Fin 2} {mac : EspBdAddr} {earlier : List EnqueueCall}
    {placed received : List ScanPdu} {ao next : AdvTimeAuthorizeStructure}
    (compared : ComparedUpTo index mac earlier placed received ao)
    (address : (next.consumers index).consumerAddr = (ao.consumers index).consumerAddr)
    (queue : (next.consumers index).privateQueue = (ao.consumers index).privateQueue)
    (last : (next.consumers index).lastProcessedPdu = (ao.consumers index).lastProcessedPdu)
    (enqueued : next.enqueued = ao.enqueued) :
    ComparedUpTo index mac earlier placed received next where
  address := address.trans compared.address
  queue := by rw [queue, compared.queue]
  carried := by rw [carriedPdu, last, ← compared.carried, carriedPdu]
  enqueued := enqueued.trans compared.enqueued

theorem noteLastPdu_send {ao : AdvTimeAuthorizeStructure} {index : Fin 2} (heard : Hearing)
    (room : (ao.consumers index).privateQueue.length < consumerPrivateQueueSize)
    (pduNo keyId : UInt16) :
    let noted := noteLastPdu (sendToPrivateQueue ao index heard) pduNo keyId
    noted.enqueued = ao.enqueued ∧ (noted.consumers 0).lastPduNo = pduNo ∧
    (noted.consumers 0).lastPduKeyId = keyId ∧
    ∀ i, (noted.consumers i).consumerAddr = (ao.consumers i).consumerAddr ∧
      (noted.consumers i).active = (ao.consumers i).active ∧
      (noted.consumers i).lastProcessedPdu = (ao.consumers i).lastProcessedPdu ∧
      (noted.consumers i).privateQueue =
        if i = index then (ao.consumers i).privateQueue ++ [scanPduOf heard]
        else (ao.consumers i).privateQueue := by
  intro noted
  refine ⟨sendToPrivateQueue_enqueued ao index heard,
    by simp [noted, noteLastPdu, setAuthorization],
    by simp [noted, noteLastPdu, setAuthorization], fun i => ?_⟩
  obtain ⟨send, _⟩ := sendToPrivateQueue_entry ao index heard i
  obtain ⟨note, sameQueue⟩ :=
    noteLastPdu_entry (sendToPrivateQueue ao index heard) pduNo keyId i
  refine ⟨note.address.trans send.address, note.active.trans send.active,
    note.lastProcessedPdu.trans send.lastProcessedPdu, sameQueue.trans ?_⟩
  rw [sendToPrivateQueue_room ao index heard room]
  by_cases here : i = index
  · subst here
    simp [setAuthorization]
  · simp [setAuthorization, here]

section
variable {index : Fin 2} {mac : EspBdAddr} {last : Hearing} {placed received : List ScanPdu}
  {ao : AdvTimeAuthorizeStructure}

theorem TakesSender.hear (takes : TakesSender index mac last placed received ao)
    {heard : Hearing} (sender : heard.macAddress = mac)
    (format : isPduInBeaconPduFormat heard.data heard.dataSize = true)
    (passes : last.PassesAfter heard)
    (room : (ao.consumers index).privateQueue.length < consumerPrivateQueueSize) :
    TakesSender index mac heard (placed ++ [scanPduOf heard]) received
      (scanCompleteCallback ao heard) := by
  obtain ⟨compared, foremost, idle, keyId, pduNo⟩ := takes
  have found : getConsumerIndexForAddr ao heard.macAddress = (some index, ao) := by
    rw [sender]
    exact getConsumerIndexForAddr_foremost compared.address foremost
  rw [scanCompleteCallback_takes format found (by rw [keyId, pduNo]; exact passes)]
  obtain ⟨enqueued, notedNo, notedId, entries⟩ :=
    noteLastPdu_send heard room heard.pduNo heard.keyId
  have placing := compared.place (scanPduOf heard)
  refine ⟨placing.congr ?_ ?_ ?_ enqueued, fun i before => ?_, fun i other => ?_, notedId, notedNo⟩
  · simpa [privateQueueStep, setAuthorization] using (entries index).1
  · simpa [privateQueueStep, setAuthorization] using (entries index).2.2.2
  · simpa [privateQueueStep, setAuthorization] using (entries index).2.2.1
  · rw [(entries i).1]
    exact foremost i before
  · rw [(entries i).2.1]
    exact idle i other

theorem TakesSender.authorize (takes : TakesSender index mac last placed received ao)
    (stamped : ∀ pdu ∈ placed, pdu.timestampUs ≠ 0) (i : Fin 2) :
    ∃ received, TakesSender index mac last placed received (authorizeConsumer ao i) := by
  by_cases active : (ao.consumers i).active = true
  · have here : i = index := Classical.byContradiction fun other => by
      rw [takes.idle i other] at active
      contradiction
    subst here
    have step : authorizeConsumer ao i = privateQueueStep i ao .process := if_pos active
    have fields := authorizeConsumer_entry ao i
    rw [step] at fields ⊢
    refine ⟨_, takes.compared.process stamped, fun j before => ?_, fun j other => ?_, ?_, ?_⟩
    · rw [(fields j).1]
      exact takes.foremost j before
    · rw [(fields j).2.1]
      exact takes.idle j other
    · rw [(fields 0).2.2.2]
      exact takes.keyId
    · rw [(fields 0).2.2.1]
      exact takes.pduNo
  · rw [authorizeConsumer, if_neg active]
    exact ⟨received, takes⟩

/-! ## Runs -/

theorem TakesSender.run (steps : List AuthorizeStep) :
    ∀ {last : Hearing} {placed received : List ScanPdu} {ao : AdvTimeAuthorizeStructure},
      TakesSender index mac last placed received ao →
      (∀ pdu ∈ placed, pdu.timestampUs ≠ 0) →
      (∀ first, (hearings steps).head? = some first → last.PassesAfter first) →
      HeardFrom mac (hearings steps) → Guarded authorizeStep PrivateQueuesHaveRoom ao steps →
      ∃ received, ComparedUpTo index mac [] (placed ++ (hearings steps).map scanPduOf) received
        (run authorizeStep ao steps) := by
  induction steps with
  | nil =>
      intro last placed received ao takes _ _ _ _
      exact ⟨received, by simpa [hearings] using takes.compared⟩
  | cons step rest ih =>
      intro last placed received ao takes stamped passes heardFrom guarded
      cases step with
      | authorize i =>
          obtain ⟨later, takesNext⟩ := takes.authorize stamped i
          exact ih takesNext stamped passes heardFrom guarded.2
      | hear heard =>
          rw [hearings_hear] at heardFrom passes ⊢
          have takesNext := takes.hear (heardFrom.sender heard List.mem_cons_self)
            (heardFrom.format heard List.mem_cons_self) (passes heard rfl) (guarded.1 index)
          have stampedNext : ∀ pdu ∈ placed ++ [scanPduOf heard], pdu.timestampUs ≠ 0 := by
            intro pdu member
            rcases List.mem_append.mp member with old | new
            · exact stamped pdu old
            · rw [List.mem_singleton.mp new]
              exact heardFrom.stamped heard List.mem_cons_self
          have result := ih takesNext stampedNext (List.isChain_cons.mp heardFrom.passes).1
            heardFrom.tail guarded.2
          rw [List.append_assoc] at result
          exact result

end

theorem takesSender_claimed {ao claimed : AdvTimeAuthorizeStructure} {heard : Hearing}
    {index : Fin 2} (format : isPduInBeaconPduFormat heard.data heard.dataSize = true)
    (positive : 0 < heard.pduNo)
    (found : getConsumerIndexForAddr ao heard.macAddress = (some index, claimed))
    (noCalls : claimed.enqueued = []) (noNote : (claimed.consumers 0).lastPduNo = 0)
    (empty : ∀ i, (claimed.consumers i).privateQueue = [] ∧
      (claimed.consumers i).lastProcessedPdu = .zero)
    (address : (claimed.consumers index).consumerAddr = heard.macAddress)
    (foremost : ∀ i < index, (claimed.consumers i).consumerAddr ≠ heard.macAddress)
    (idle : ∀ i, i ≠ index → (claimed.consumers i).active = false) :
    TakesSender index heard.macAddress heard [scanPduOf heard] []
      (scanCompleteCallback ao heard) := by
  have room : (claimed.consumers index).privateQueue.length < consumerPrivateQueueSize := by
    rw [(empty index).1]
    decide
  rw [scanCompleteCallback_takes format found fun _ => by rw [noNote]; exact positive]
  obtain ⟨enqueued, notedNo, notedId, entries⟩ :=
    noteLastPdu_send heard room heard.pduNo heard.keyId
  refine ⟨⟨(entries index).1.trans address, ?_, ?_, enqueued.trans noCalls⟩,
    fun i before => ?_, fun i other => ?_, notedId, notedNo⟩
  · simpa [(empty index).1] using (entries index).2.2.2
  · have unprocessed := (entries index).2.2.1.trans (empty index).2
    simp [carriedPdu, unprocessed, ScanPdu.zero]
  · rw [(entries i).1]
    exact foremost i before
  · rw [(entries i).2.1]
    exact idle i other

theorem takesSender_start {heard : Hearing}
    (format : isPduInBeaconPduFormat heard.data heard.dataSize = true)
    (positive : 0 < heard.pduNo) :
    ∃ index, TakesSender index heard.macAddress heard [scanPduOf heard] []
      (scanCompleteCallback initAdvTimeAuthorizeObject heard) := by
  have zero : ∀ i, (initAdvTimeAuthorizeObject.consumers i).consumerAddr = 0 := fun _ => rfl
  by_cases unaddressed : heard.macAddress = 0
  · have found := getConsumerIndexForAddr_foremost
      (show (initAdvTimeAuthorizeObject.consumers 0).consumerAddr = heard.macAddress from
        unaddressed.symm)
      fun i before => absurd before (Fin.not_lt_zero i)
    exact ⟨0, takesSender_claimed format positive found rfl rfl (fun _ => ⟨rfl, rfl⟩)
      unaddressed.symm (fun i before => absurd before (Fin.not_lt_zero i)) fun _ _ => rfl⟩
  · obtain ⟨index, there, _⟩ | ⟨_, free, _, found⟩ | ⟨_, noneFree, _⟩ :=
      getConsumerIndexForAddr_cases initAdvTimeAuthorizeObject heard.macAddress
    · exact absurd ((zero index).symm.trans there).symm unaddressed
    · refine ⟨free, takesSender_claimed format positive found rfl ?_ (fun i => ?_) ?_
        (fun i before => ?_) fun i other => ?_⟩
      · by_cases here : (0 : Fin 2) = free
        · subst here
          rfl
        · simp only [setAuthorization, Function.update_of_ne here]
          rfl
      · by_cases here : i = free
        · subst here
          simp [setAuthorization, initAdvTimeAuthorizeObject, initConsumerAuthorizationStructure]
        · simp [setAuthorization, here, initAdvTimeAuthorizeObject,
            initConsumerAuthorizationStructure]
      · simp [setAuthorization]
      · simp only [setAuthorization, Function.update_of_ne (ne_of_lt before), zero]
        exact Ne.symm unaddressed
      · simp only [setAuthorization, Function.update_of_ne other]
        rfl
    · exact absurd (zero 0) (noneFree 0)

/-- Whatever the schedule of the task: the frames taken from the queue of the sender so far
are the first ones heard, and those passed on are the ones their successors authorize. -/
theorem single_sender_authorized {mac : EspBdAddr} {steps : List AuthorizeStep}
    (heardFrom : HeardFrom mac (hearings steps))
    (positive : ∀ first, (hearings steps).head? = some first → 0 < first.pduNo)
    (room : Guarded authorizeStep PrivateQueuesHaveRoom initAdvTimeAuthorizeObject steps) :
    let final := run authorizeStep initAdvTimeAuthorizeObject steps
    ∃ received index, received ++ (final.consumers index).privateQueue =
        (hearings steps).map scanPduOf ∧ final.enqueued = passedOn mac received := by
  induction steps with
  | nil => exact ⟨[], 0, rfl, rfl⟩
  | cons step rest ih =>
      cases step with
      | authorize i => exact ih heardFrom positive room.2
      | hear heard =>
          rw [hearings_hear] at heardFrom positive ⊢
          obtain ⟨index, takes⟩ :=
            takesSender_start (heardFrom.format heard List.mem_cons_self) (positive heard rfl)
          rw [heardFrom.sender heard List.mem_cons_self] at takes
          have stamped : ∀ pdu ∈ [scanPduOf heard], pdu.timestampUs ≠ 0 := by
            intro pdu member
            rw [List.mem_singleton.mp member]
            exact heardFrom.stamped heard List.mem_cons_self
          obtain ⟨received, compared⟩ := takes.run rest stamped
            (List.isChain_cons.mp heardFrom.passes).1 heardFrom.tail room.2
          exact ⟨received, index, compared.queue, compared.enqueued⟩

end BleBroadcast.Receiver
