import BleBroadcast.Receiver.AdvTimeAuthorize

/-!
# The filter for repeated advertisements

`scan_complete_callback` drops an advertisement with the key id noted last and a PDU
number not above the one noted last.  It notes both for all senders in one place, so
what is dropped is determined by the merged sequence of hearings.  With two senders
this is right exactly if a hearing is covered by that sequence if and only if it
repeats the frame heard before from its own sender.
-/

set_option autoImplicit false

namespace BleBroadcast.Receiver

open BleBroadcast.Core BleBroadcast.Lib

/-! ## Streams of hearings -/

abbrev Hearing.pduNo (heard : Hearing) : UInt16 := (scanPduOf heard).pduNo

abbrev Hearing.keyId (heard : Hearing) : UInt16 := (scanPduOf heard).keyId

/-- The frame heard last from the same sender is heard again.  `past` is what was heard
before, the newest first. -/
def Repeats : (past : List Hearing) → Hearing → Prop
  | [], _ => False
  | last :: past, heard =>
      if last.macAddress = heard.macAddress then
        last.keyId = heard.keyId ∧ last.pduNo = heard.pduNo
      else Repeats past heard

/-- Since the key id last changed, in the hearings of all senders, the id was that of
the new hearing and a PDU number was at least its own.  Before any hearing both are 0. -/
def BlockCovers : (past : List Hearing) → Hearing → Prop
  | [], heard => heard.keyId = 0 ∧ heard.pduNo = 0
  | last :: past, heard =>
      last.keyId = heard.keyId ∧ (heard.pduNo ≤ last.pduNo ∨ BlockCovers past heard)

instance repeatsDecidable : ∀ past heard, Decidable (Repeats past heard)
  | [], _ => isFalse id
  | last :: past, heard =>
      have := repeatsDecidable past heard
      inferInstanceAs (Decidable (if last.macAddress = heard.macAddress then
        last.keyId = heard.keyId ∧ last.pduNo = heard.pduNo else Repeats past heard))

instance blockCoversDecidable : ∀ past heard, Decidable (BlockCovers past heard)
  | [], heard => inferInstanceAs (Decidable (heard.keyId = 0 ∧ heard.pduNo = 0))
  | last :: past, heard =>
      have := blockCoversDecidable past heard
      inferInstanceAs (Decidable (last.keyId = heard.keyId ∧
        (heard.pduNo ≤ last.pduNo ∨ BlockCovers past heard)))

/-- The stream of a sender without the repeated hearings. -/
def firstHearings (mac : EspBdAddr) : (past rest : List Hearing) → List QueuedPdu
  | _, [] => []
  | past, heard :: rest =>
      let later := firstHearings mac (heard :: past) rest
      if heard.macAddress = mac ∧ ¬ Repeats past heard then
        ⟨mac, past.length, scanPduOf heard⟩ :: later
      else later

/-- Inside a session of a sender the PDU numbers do not decrease. -/
def StreamInOrder (mac : EspBdAddr) (history : List Hearing) : Prop :=
  (history.filter fun heard => heard.macAddress = mac).IsChain fun first second =>
    first.keyId = second.keyId → first.pduNo ≤ second.pduNo

instance streamInOrderDecidable (mac : EspBdAddr) (history : List Hearing) :
    Decidable (StreamInOrder mac history) :=
  inferInstanceAs (Decidable (List.IsChain _ _))

def StreamsApart : (past rest : List Hearing) → Prop
  | _, [] => True
  | past, heard :: rest =>
      (Repeats past heard ↔ BlockCovers past heard) ∧ StreamsApart (heard :: past) rest

instance streamsApartDecidable : ∀ past rest, Decidable (StreamsApart past rest)
  | _, [] => isTrue trivial
  | past, heard :: rest =>
      have := streamsApartDecidable (heard :: past) rest
      inferInstanceAs (Decidable ((Repeats past heard ↔ BlockCovers past heard) ∧
        StreamsApart (heard :: past) rest))

def QueuesOwnStream (mac : EspBdAddr) (history : List Hearing)
    (ao : AdvTimeAuthorizeStructure) : Prop :=
  ao.queued.filter (fun queued => queued.consumerAddr = mac) = firstHearings mac [] history

/-! ## What the filter lets through -/

def uncovered : (past rest : List Hearing) → List QueuedPdu
  | _, [] => []
  | past, heard :: rest =>
      let later := uncovered (heard :: past) rest
      if BlockCovers past heard then later
      else ⟨heard.macAddress, past.length, scanPduOf heard⟩ :: later

theorem uncovered_later (past : List Hearing) {rest : List Hearing} :
    ∀ queued ∈ uncovered past rest, past.length ≤ queued.hearing := by
  induction rest generalizing past with
  | nil => simp [uncovered]
  | cons heard rest ih =>
      intro queued member
      have later : queued ∈ uncovered (heard :: past) rest → past.length ≤ queued.hearing := by
        intro inside
        have bound := ih (heard :: past) queued inside
        rw [List.length_cons] at bound
        omega
      unfold uncovered at member
      split at member
      · exact later member
      · rcases List.mem_cons.mp member with rfl | inside
        · exact Nat.le_refl _
        · exact later inside

theorem firstHearings_later {mac : EspBdAddr} (past : List Hearing) {rest : List Hearing} :
    ∀ queued ∈ firstHearings mac past rest, past.length ≤ queued.hearing := by
  induction rest generalizing past with
  | nil => simp [firstHearings]
  | cons heard rest ih =>
      intro queued member
      have later : queued ∈ firstHearings mac (heard :: past) rest →
          past.length ≤ queued.hearing := by
        intro inside
        have bound := ih (heard :: past) queued inside
        rw [List.length_cons] at bound
        omega
      unfold firstHearings at member
      split at member
      · rcases List.mem_cons.mp member with rfl | inside
        · exact Nat.le_refl _
        · exact later inside
      · exact later member

theorem uncovered_cons_filter (mac : EspBdAddr) (past : List Hearing) (heard : Hearing)
    (rest : List Hearing) :
    (uncovered past (heard :: rest)).filter (fun queued => queued.consumerAddr = mac) =
      if heard.macAddress = mac ∧ ¬ BlockCovers past heard then
        ⟨mac, past.length, scanPduOf heard⟩ ::
          (uncovered (heard :: past) rest).filter fun queued => queued.consumerAddr = mac
      else (uncovered (heard :: past) rest).filter fun queued => queued.consumerAddr = mac := by
  simp only [uncovered]
  by_cases covered : BlockCovers past heard
  · simp [covered]
  · by_cases own : heard.macAddress = mac
    · simp [covered, own]
    · simp [covered, own]

/-- Two lists that may begin with an element of number `n`, and go on with later ones. -/
theorem headed_eq_iff {n : Nat} (queued : QueuedPdu) (numbered : queued.hearing = n)
    {first second : List QueuedPdu} (firstLater : ∀ other ∈ first, n + 1 ≤ other.hearing)
    (secondLater : ∀ other ∈ second, n + 1 ≤ other.hearing) (p q : Prop) [Decidable p]
    [Decidable q] :
    (if p then queued :: first else first) = (if q then queued :: second else second) ↔
      (p ↔ q) ∧ first = second := by
  by_cases left : p <;> by_cases right : q
  · simp [left, right]
  · rw [if_pos left, if_neg right]
    refine iff_of_false (fun same => ?_) fun both => right (both.1.mp left)
    have bound := secondLater queued (same ▸ List.mem_cons_self)
    omega
  · rw [if_neg left, if_pos right]
    refine iff_of_false (fun same => ?_) fun both => left (both.1.mpr right)
    have bound := firstLater queued (same ▸ List.mem_cons_self)
    omega
  · simp [left, right]

/-- What is not covered is, for both senders, their stream without repetitions, exactly
if the streams are kept apart. -/
theorem uncovered_own_iff {first second : EspBdAddr} {past rest : List Hearing}
    (senders : ∀ heard ∈ rest, heard.macAddress = first ∨ heard.macAddress = second) :
    ((∀ mac, mac = first ∨ mac = second →
      (uncovered past rest).filter (fun queued => queued.consumerAddr = mac) =
        firstHearings mac past rest)) ↔ StreamsApart past rest := by
  induction rest generalizing past with
  | nil => simp [uncovered, firstHearings, StreamsApart]
  | cons heard rest ih =>
      have inner := @ih (heard :: past)
        fun other member => senders other (List.mem_cons_of_mem heard member)
      have split : ∀ mac, (uncovered past (heard :: rest)).filter
            (fun queued => queued.consumerAddr = mac) = firstHearings mac past (heard :: rest) ↔
          ((heard.macAddress = mac ∧ ¬ BlockCovers past heard) ↔
            (heard.macAddress = mac ∧ ¬ Repeats past heard)) ∧
          (uncovered (heard :: past) rest).filter (fun queued => queued.consumerAddr = mac) =
            firstHearings mac (heard :: past) rest := by
        intro mac
        rw [uncovered_cons_filter]
        exact headed_eq_iff ⟨mac, past.length, scanPduOf heard⟩ rfl
          (fun other member =>
            uncovered_later (heard :: past) other (List.mem_of_mem_filter member))
          (firstHearings_later (heard :: past)) _ _
      simp only [split]
      rw [StreamsApart, ← inner]
      constructor
      · intro both
        refine ⟨?_, fun mac sender => (both mac sender).2⟩
        have own := (both _ (senders heard List.mem_cons_self)).1
        simp only [true_and] at own
        exact not_iff_not.mp own.symm
      · intro apart mac sender
        refine ⟨?_, apart.2 mac sender⟩
        rw [apart.1]

/-! ## The state of the filter -/

/-- After the hearings `past` of two senders, the first entry holds what is covered, and
every other entry in use belongs to one of the senders. -/
structure FollowsHearings (first second : EspBdAddr) (past : List Hearing)
    (ao : AdvTimeAuthorizeStructure) : Prop where
  heard : ao.heard = past.length
  covers : ∀ heard, BlockCovers past heard ↔
    (ao.consumers 0).lastPduKeyId = heard.keyId ∧ heard.pduNo ≤ (ao.consumers 0).lastPduNo
  entries : ∀ i, (ao.consumers i).consumerAddr = 0 ∨
    (ao.consumers i).consumerAddr = first ∨ (ao.consumers i).consumerAddr = second
  distinct : (ao.consumers 0).consumerAddr = (ao.consumers 1).consumerAddr →
    (ao.consumers 0).consumerAddr = 0

theorem followsHearings_start (first second : EspBdAddr) :
    FollowsHearings first second [] initAdvTimeAuthorizeObject where
  heard := rfl
  covers := by
    intro heard
    have zero : heard.pduNo = 0 ↔ heard.pduNo ≤ 0 := by
      rw [UInt16.le_iff_toNat_le, ← UInt16.toNat_inj]
      exact Nat.le_zero.symm
    simp only [BlockCovers, initAdvTimeAuthorizeObject, initConsumerAuthorizationStructure, zero]
    exact and_congr_left' eq_comm
  entries := fun _ => Or.inl rfl
  distinct := fun _ => rfl

variable {first second : EspBdAddr} {past : List Hearing} {ao : AdvTimeAuthorizeStructure}

theorem FollowsHearings.change {next : AdvTimeAuthorizeStructure}
    (follows : FollowsHearings first second past ao) (heard : next.heard = ao.heard)
    (pduNo : (next.consumers 0).lastPduNo = (ao.consumers 0).lastPduNo)
    (keyId : (next.consumers 0).lastPduKeyId = (ao.consumers 0).lastPduKeyId)
    (addresses : ∀ i, (next.consumers i).consumerAddr = (ao.consumers i).consumerAddr) :
    FollowsHearings first second past next where
  heard := heard.trans follows.heard
  covers := by
    intro other
    rw [pduNo, keyId]
    exact follows.covers other
  entries := by
    intro i
    rw [addresses i]
    exact follows.entries i
  distinct := by
    rw [addresses 0, addresses 1]
    exact follows.distinct

theorem FollowsHearings.claim (follows : FollowsHearings first second past ao) {mac : EspBdAddr}
    (sender : mac = first ∨ mac = second) :
    ∃ index claimed, getConsumerIndexForAddr ao mac = (some index, claimed) ∧
      (claimed.consumers index).consumerAddr = mac ∧
      FollowsHearings first second past claimed ∧ claimed.queued = ao.queued ∧
      ∀ i, (claimed.consumers i).privateQueue = (ao.consumers i).privateQueue := by
  obtain ⟨index, there, result⟩ | ⟨missing, free, zero, result⟩ | ⟨missing, noneFree, _⟩ :=
    getConsumerIndexForAddr_cases ao mac
  · exact ⟨index, ao, result, there, follows, rfl, fun _ => rfl⟩
  · refine ⟨free, _, result, by simp [setAuthorization], ⟨follows.heard, ?_, ?_, ?_⟩, rfl, ?_⟩
    · intro heard
      rw [follows.covers heard]
      by_cases here : free = 0
      · subst here
        simp [setAuthorization]
      · simp [setAuthorization, Ne.symm here]
    · intro i
      by_cases here : i = free
      · subst here
        simpa [setAuthorization] using Or.inr sender
      · simpa [setAuthorization, here] using follows.entries i
    · intro same
      by_cases here : free = 0
      · subst here
        simp only [setAuthorization, Function.update_self,
          Function.update_of_ne (by decide : (1 : Fin 2) ≠ 0)] at same
        exact absurd same.symm (missing 1)
      · have second : free = 1 := Fin.eq_one_of_ne_zero free here
        subst second
        simp only [setAuthorization, Function.update_self,
          Function.update_of_ne (by decide : (0 : Fin 2) ≠ 1)] at same
        exact absurd same (missing 0)
    · intro i
      by_cases here : i = free
      · subst here
        simp [setAuthorization]
      · simp [setAuthorization, here]
  · have other : ∀ i, (ao.consumers i).consumerAddr = if mac = first then second else first := by
      intro i
      rcases follows.entries i with none | one | two
      · exact absurd none (noneFree i)
      · rw [if_neg fun same => missing i (one.trans same.symm), one]
      · have isFirst : mac = first := sender.resolve_right fun same =>
          missing i (two.trans same.symm)
        rw [if_pos isFirst, two]
    exact absurd (follows.distinct ((other 0).trans (other 1).symm)) (noneFree 0)

theorem sendToPrivateQueue_room (ao : AdvTimeAuthorizeStructure) (index : Fin 2)
    (heard : Hearing) (room : (ao.consumers index).privateQueue.length < 50) :
    sendToPrivateQueue ao index heard =
      { setAuthorization ao index
          { ao.consumers index with
            privateQueue := (ao.consumers index).privateQueue ++ [scanPduOf heard] } with
        queued := ao.queued ++ [⟨(ao.consumers index).consumerAddr, ao.heard, scanPduOf heard⟩] } :=
  if_pos room

theorem FollowsHearings.send (follows : FollowsHearings first second past ao) (index : Fin 2)
    (heard : Hearing) (room : (ao.consumers index).privateQueue.length < 50)
    (notCovered : ¬ BlockCovers past heard) :
    FollowsHearings first second (heard :: past)
      { noteLastPdu (sendToPrivateQueue ao index heard) heard.pduNo heard.keyId with
        heard := ao.heard + 1 } where
  heard := by rw [follows.heard, List.length_cons]
  covers := by
    intro other
    have before := follows.covers other
    have self := follows.covers heard
    simp only [noteLastPdu, setAuthorization, Function.update_self, BlockCovers, before]
    rw [self] at notCovered
    simp only [UInt16.le_iff_toNat_le] at notCovered ⊢
    constructor
    · rintro ⟨sameId, below | ⟨lastId, below⟩⟩
      · exact ⟨sameId, below⟩
      · refine ⟨sameId, ?_⟩
        have above : ¬ heard.pduNo.toNat ≤ (ao.consumers 0).lastPduNo.toNat :=
          fun notAbove => notCovered ⟨lastId.trans sameId.symm, notAbove⟩
        omega
    · exact fun both => ⟨both.1, Or.inl both.2⟩
  entries := by
    intro i
    have before := follows.entries i
    rw [sendToPrivateQueue_room ao index heard room]
    by_cases noted : i = 0 <;> by_cases sent : i = index <;>
      simp_all [noteLastPdu, setAuthorization, Function.update_apply]
  distinct := by
    have before := follows.distinct
    rw [sendToPrivateQueue_room ao index heard room]
    by_cases here : index = 0
    · subst here
      simpa [noteLastPdu, setAuthorization] using before
    · have second : index = 1 := Fin.eq_one_of_ne_zero index here
      subst second
      simpa [noteLastPdu, setAuthorization] using before

/-- A hearing of one of the two senders: it is put into the private queue of its sender
exactly if it is not covered. -/
theorem scanCompleteCallback_follows (follows : FollowsHearings first second past ao)
    (heard : Hearing) (sender : heard.macAddress = first ∨ heard.macAddress = second)
    (format : isPduInBeaconPduFormat heard.data heard.dataSize = true)
    (room : ∀ i, (ao.consumers i).privateQueue.length < 50) :
    FollowsHearings first second (heard :: past) (scanCompleteCallback ao heard) ∧
    (scanCompleteCallback ao heard).queued = ao.queued ++
      if BlockCovers past heard then []
      else [⟨heard.macAddress, past.length, scanPduOf heard⟩] := by
  obtain ⟨index, claimed, found, own, followsClaim, sameLog, sameQueues⟩ := follows.claim sender
  have space : (claimed.consumers index).privateQueue.length < 50 := by
    rw [sameQueues index]
    exact room index
  have sent : (sendToPrivateQueue claimed index heard).queued =
      ao.queued ++ [⟨heard.macAddress, past.length, scanPduOf heard⟩] := by
    rw [sendToPrivateQueue_room claimed index heard space, own, sameLog, followsClaim.heard]
  have sameHeard : claimed.heard = ao.heard := followsClaim.heard.trans follows.heard.symm
  have covered := followsClaim.covers heard
  simp only [scanCompleteCallback]
  obtain ⟨sameId, notAbove, stopped⟩ | ⟨above, taken⟩ := filterAdvertisement_found format found
  · rw [show (scanPduOf heard).keyId = heard.keyId from rfl] at sameId
    rw [show (scanPduOf heard).pduNo = heard.pduNo from rfl] at notAbove
    have isCovered : BlockCovers past heard := covered.mpr ⟨sameId, notAbove⟩
    rw [stopped, if_pos isCovered, ← sameHeard]
    refine ⟨⟨by rw [followsClaim.heard, List.length_cons], ?_, followsClaim.entries,
      followsClaim.distinct⟩, by rw [List.append_nil]; exact sameLog⟩
    intro other
    rw [BlockCovers, followsClaim.covers other, ← sameId]
    simp only [UInt16.le_iff_toNat_le] at notAbove ⊢
    constructor
    · rintro ⟨lastId, below | both⟩
      · exact ⟨lastId, by omega⟩
      · exact both
    · exact fun both => ⟨both.1, Or.inr both⟩
  · have notCovered : ¬ BlockCovers past heard := by
      rw [covered]
      exact fun both => absurd (above both.1) (UInt16.not_lt.mpr both.2)
    rw [taken, if_neg notCovered, ← sameHeard]
    exact ⟨followsClaim.send index heard space notCovered, sent⟩

theorem authorizeConsumer_follows (follows : FollowsHearings first second past ao)
    (index : Fin 2) :
    FollowsHearings first second past (authorizeConsumer ao index) ∧
    (authorizeConsumer ao index).queued = ao.queued := by
  have sameHeard : (authorizeConsumer ao index).heard = ao.heard := by
    unfold authorizeConsumer
    split <;> rfl
  have sameLog : (authorizeConsumer ao index).queued = ao.queued := by
    unfold authorizeConsumer
    split <;> rfl
  have fields := authorizeConsumer_entry ao index
  exact ⟨follows.change sameHeard (fields 0).2.2.1 (fields 0).2.2.2 fun i => (fields i).1, sameLog⟩

/-! ## Runs -/

def PrivateQueuesHaveRoom (ao : AdvTimeAuthorizeStructure) : AuthorizeStep → Prop
  | .hear _ => ∀ i, (ao.consumers i).privateQueue.length < consumerPrivateQueueSize
  | .authorize _ => True

instance privateQueuesHaveRoomDecidable (ao : AdvTimeAuthorizeStructure) :
    ∀ step, Decidable (PrivateQueuesHaveRoom ao step)
  | .hear _ => inferInstanceAs (Decidable (∀ i,
      (ao.consumers i).privateQueue.length < consumerPrivateQueueSize))
  | .authorize _ => isTrue trivial

theorem run_uncovered (steps : List AuthorizeStep) :
    ∀ {past : List Hearing} {ao : AdvTimeAuthorizeStructure},
      FollowsHearings first second past ao →
      (∀ heard ∈ hearings steps, (heard.macAddress = first ∨ heard.macAddress = second) ∧
        isPduInBeaconPduFormat heard.data heard.dataSize = true) →
      Guarded authorizeStep PrivateQueuesHaveRoom ao steps →
      (run authorizeStep ao steps).queued = ao.queued ++ uncovered past (hearings steps) := by
  induction steps with
  | nil =>
      intro past ao _ _ _
      exact (List.append_nil _).symm
  | cons step rest ih =>
      intro past ao follows senders guarded
      cases step with
      | authorize index =>
          obtain ⟨followsNext, sameLog⟩ := authorizeConsumer_follows follows index
          rw [run_cons, hearings_authorize, authorizeStep_authorize,
            ih followsNext senders guarded.2, sameLog]
      | hear heard =>
          obtain ⟨sender, format⟩ := senders heard List.mem_cons_self
          obtain ⟨followsNext, logged⟩ :=
            scanCompleteCallback_follows follows heard sender format guarded.1
          rw [run_cons, hearings_hear, authorizeStep_hear, ih followsNext
            (fun other member => senders other (List.mem_cons_of_mem _ member)) guarded.2, logged]
          simp only [uncovered, List.append_assoc]
          split <;> rfl

/-- For two senders, and as long as no private queue is full: each sender's private queue
gets exactly its own stream without the repeated hearings if and only if, for every
hearing, the merged sequence covers it exactly when it repeats one. -/
theorem queues_own_streams_iff (first second : EspBdAddr) (steps : List AuthorizeStep)
    (senders : ∀ heard ∈ hearings steps,
      (heard.macAddress = first ∨ heard.macAddress = second) ∧
        isPduInBeaconPduFormat heard.data heard.dataSize = true)
    (guarded : Guarded authorizeStep PrivateQueuesHaveRoom initAdvTimeAuthorizeObject steps) :
    (∀ mac, mac = first ∨ mac = second →
      QueuesOwnStream mac (hearings steps) (run authorizeStep initAdvTimeAuthorizeObject steps)) ↔
    StreamsApart [] (hearings steps) := by
  have logged := run_uncovered steps (followsHearings_start first second) senders guarded
  simp only [QueuesOwnStream, logged]
  exact uncovered_own_iff fun heard member => (senders heard member).1

def dataHeard (mac : EspBdAddr) (keyId pduNo : UInt8) (timestampUs : Int) : Hearing where
  timestampUs := timestampUs
  data := Memory.ofList [0xFF, 0x08, 0x00, dataCmd, pduNo, 0, keyId, 0, 0x10, 0x42]
  dataSize := 10
  macAddress := mac
  stack := fun _ => 0

def hearFrame (mac : EspBdAddr) (keyId pduNo : UInt8) (timestampUs : Int) : AuthorizeStep :=
  .hear (dataHeard mac keyId pduNo timestampUs)

def separateSessions : List AuthorizeStep :=
  [hearFrame 0xA1 5 1 1000, hearFrame 0xA1 5 1 2000, hearFrame 0xA1 5 2 3000,
    hearFrame 0xB2 6 1 4000, hearFrame 0xB2 6 2 5000]

theorem queues_own_streams_separate_sessions :
    (firstHearings 0xA1 [] (hearings separateSessions)).map QueuedPdu.hearing = [0, 2] ∧
    ∀ mac, mac = 0xA1 ∨ mac = 0xB2 →
      QueuesOwnStream mac (hearings separateSessions)
        (run authorizeStep initAdvTimeAuthorizeObject separateSessions) :=
  ⟨by decide +kernel,
    (queues_own_streams_iff 0xA1 0xB2 separateSessions (by decide +kernel)
      (by decide +kernel)).mpr (by decide +kernel)⟩

def sameKeyId : List AuthorizeStep := [hearFrame 0xA1 5 2 1000, hearFrame 0xB2 5 1 2000]

/-- The frame of the second sender is not queued, although it was heard for the first time. -/
theorem other_sender_filtered :
    ¬ ∀ (first second : EspBdAddr) (steps : List AuthorizeStep), first ≠ 0 → second ≠ 0 →
      first ≠ second →
      (∀ heard ∈ hearings steps, (heard.macAddress = first ∨ heard.macAddress = second) ∧
        isPduInBeaconPduFormat heard.data heard.dataSize = true) →
      StreamInOrder first (hearings steps) → StreamInOrder second (hearings steps) →
      Guarded authorizeStep PrivateQueuesHaveRoom initAdvTimeAuthorizeObject steps →
      ∀ mac, mac = first ∨ mac = second →
        QueuesOwnStream mac (hearings steps)
          (run authorizeStep initAdvTimeAuthorizeObject steps) := by
  intro always
  have own := always 0xA1 0xB2 sameKeyId (by decide) (by decide) (by decide) (by decide +kernel)
    (by decide +kernel) (by decide +kernel) (by decide +kernel) 0xB2 (Or.inr rfl)
  have numbers := congrArg (List.map QueuedPdu.hearing) own
  revert numbers
  decide +kernel

end BleBroadcast.Receiver
