import BleBroadcast.Sender.SenderTrace

/-!
# The sender application

Model of the timer callback of `sender_main.c`: after every third data PDU a key
fragment PDU is produced, and a PDU is handed to the radio when the key id changed.
The timer fires once for each time it is started, and the callback starts it again
until all packets are produced.
-/

set_option autoImplicit false

namespace BleBroadcast.Sender

open BleBroadcast.Core

abbrev noPacketToSend : Nat := 2000

abbrev pduToKeyFragmentRatio : UInt16 := 3

def testPayload10Bytes : List UInt8 :=
  [0x74, 0x5d, 0xa3, 0x45, 0xa1, 0x1b, 0x0e, 0x02, 0x2a, 0x7f]

/-- The static variables of the application, with the sender's trace. -/
structure SenderApp where
  trace : SenderTrace
  packetSendCounter : UInt32
  pduSendCounter : UInt16
  prevKeyId : UInt32
  /-- The arguments of `set_broadcasting_payload`, in order. -/
  broadcastPayloads : List (List UInt8)
  timerStarted : Bool

/-- `app_main` and `sender_test_start_pdu`: the key is drawn and the timer started. -/
def startSenderApp (draws : RandomDraws) : SenderApp where
  trace := .start (initPayloadEncryption draws)
  packetSendCounter := 0
  pduSendCounter := pduToKeyFragmentRatio
  prevKeyId := 0
  broadcastPayloads := []
  timerStarted := true

def getAndIncrementPduSendCounter (app : SenderApp) : UInt16 × SenderApp :=
  (app.pduSendCounter, { app with
    pduSendCounter :=
      if app.pduSendCounter = pduToKeyFragmentRatio then 0 else app.pduSendCounter + 1 })

/-- The end of `encrypt_new_payload` and of `encrypt_new_key_fragment`: nothing after a
call that produced nothing, else a broadcast of the PDU if its key id is a new one. -/
def broadcastProduced (app : SenderApp) (produced : List Emission) : SenderApp :=
  match produced with
  | [] => app
  | emission :: _ =>
      let keyId := app.trace.state.keyId.toUInt32
      if app.prevKeyId ≠ keyId then
        { app with
          broadcastPayloads := app.broadcastPayloads ++ [emission.frame]
          prevKeyId := keyId }
      else app

def countAndProduce (mb : Mbedtls) (app : SenderApp) (call : SenderCall) : Option SenderApp := do
  let trace ← senderStep mb app.trace call
  some (broadcastProduced
    { app with
      trace := trace
      packetSendCounter := app.packetSendCounter + 1 }
    (trace.emitted.drop app.trace.emitted.length))

def encryptNewPayload (mb : Mbedtls) (app : SenderApp) (draws : RandomDraws) :
    Option SenderApp :=
  countAndProduce mb app (.encryptPayload testPayload10Bytes (fillMarkerInPdu .zero) draws)

def encryptNewKeyFragment (mb : Mbedtls) (app : SenderApp) (draws : RandomDraws) :
    Option SenderApp :=
  countAndProduce mb app (.getKeyFragmentPdu (fillMarkerInKeyPdu .zero) draws)

def packetSendTimeoutTimer (mb : Mbedtls) (app : SenderApp) (draws : RandomDraws) :
    Option SenderApp :=
  if noPacketToSend ≤ app.packetSendCounter.toNat then some app
  else do
    let (value, counted) := getAndIncrementPduSendCounter app
    let sent ←
      if value = pduToKeyFragmentRatio then encryptNewKeyFragment mb counted draws
      else encryptNewPayload mb counted draws
    some { sent with timerStarted := true }

/-- The timer fires, if it was started: a one-shot timer is stopped by that. -/
def timerFires (mb : Mbedtls) (app : SenderApp) (draws : RandomDraws) : Option SenderApp :=
  if app.timerStarted then
    packetSendTimeoutTimer mb { app with timerStarted := false } draws
  else none

def senderAppRun (mb : Mbedtls) : SenderApp → List RandomDraws → Option SenderApp
  | app, [] => some app
  | app, draws :: rest => do
      let next ← timerFires mb app draws
      senderAppRun mb next rest

/-! ## The schedule -/

/-- What the PDU number `k`, counted from 0, is: in which session, and every fourth one
the next key fragment. -/
def Emission.OnSchedule (emission : Emission) (k : Nat) : Prop :=
  emission.session.number = (k + 1) / 200 ∧
    (k % 4 = 0 → ∃ session pdu, emission = .keyFragment session (Fin.ofNat 4 (k / 4)) pdu)

/-- After `count` packets all counters are functions of `count`. -/
structure AfterPackets (mb : Mbedtls) (count : Nat) (app : SenderApp) : Prop where
  packets : app.packetSendCounter.toNat = count
  limit : count ≤ 2000
  ratio : app.pduSendCounter.toNat = (count + 3) % 4
  rotation : app.trace.state.keyReplacementPacketCounter = 200
  encrypted : app.trace.state.encryptedPacketCounter = count % 200
  replaced : app.trace.state.keysReplaced = count / 200
  fragment : app.trace.state.keyFragmentNo.val = (count + 3) / 4 % 4
  emitted : app.trace.emitted.length = count
  coherent : Coherent app.trace.state
  emissions : ∀ (k : Nat) (emission : Emission), app.trace.emitted[k]? = some emission →
    emission.OnSchedule k ∧ emission.Genuine mb
  latest : ∀ emission, app.trace.emitted.getLast? = some emission →
    emission.session = currentSession app.trace.state

theorem afterPackets_start (mb : Mbedtls) (draws : RandomDraws) :
    AfterPackets mb 0 (startSenderApp draws) where
  packets := rfl
  limit := Nat.zero_le _
  ratio := rfl
  rotation := rfl
  encrypted := rfl
  replaced := rfl
  fragment := rfl
  emitted := rfl
  coherent := coherent_init draws
  emissions := by simp [startSenderApp, SenderTrace.start]
  latest := by simp [startSenderApp, SenderTrace.start]

theorem replaceKeyIfDue_afterPackets {state : PayloadEncryption} (draws : RandomDraws)
    {count : Nat} (rotation : state.keyReplacementPacketCounter = 200)
    (encrypted : state.encryptedPacketCounter = count % 200)
    (replaced : state.keysReplaced = count / 200) :
    ∃ current, replaceKeyIfDue (countPacket state) draws = some current ∧
      current.keyReplacementPacketCounter = 200 ∧
      current.encryptedPacketCounter = (count + 1) % 200 ∧
      current.keysReplaced = (count + 1) / 200 ∧
      current.keyFragmentNo = state.keyFragmentNo := by
  obtain ⟨current, rotated⟩ := replaceKeyIfDue_isSome (countPacket state) draws
    (by simp only [countPacket, rotation]; decide)
  have counted : (state.encryptedPacketCounter + 1) % 2 ^ 64 = count % 200 + 1 := by
    rw [encrypted]
    omega
  have due : replacementDue (countPacket state) = true ↔ (count % 200 + 1) % 200 = 0 := by
    simp only [replacementDue, countPacket, counted, rotation, beq_iff_eq]
    rfl
  refine ⟨current, rotated, ?_⟩
  obtain ⟨notDue, rfl⟩ | ⟨isDue, rfl⟩ := replaceKeyIfDue_cases rotated
  · have different : (count % 200 + 1) % 200 ≠ 0 := by
      rw [ne_eq, ← due, notDue]
      decide
    refine ⟨rotation, ?_, ?_, rfl⟩
    · simp only [countPacket, counted]
      omega
    · simp only [countPacket, replaced]
      omega
  · have zero := due.mp isDue
    refine ⟨rotation, ?_, ?_, rfl⟩
    · simp only
      omega
    · simp only [keyReplacementCb, countPacket, replaced]
      omega

@[simp] theorem broadcastProduced_trace (app : SenderApp) (produced : List Emission) :
    (broadcastProduced app produced).trace = app.trace := by
  simp only [broadcastProduced]
  split
  · rfl
  · split <;> rfl

@[simp] theorem broadcastProduced_packetSendCounter (app : SenderApp)
    (produced : List Emission) :
    (broadcastProduced app produced).packetSendCounter = app.packetSendCounter := by
  simp only [broadcastProduced]
  split
  · rfl
  · split <;> rfl

@[simp] theorem broadcastProduced_pduSendCounter (app : SenderApp) (produced : List Emission) :
    (broadcastProduced app produced).pduSendCounter = app.pduSendCounter := by
  simp only [broadcastProduced]
  split
  · rfl
  · split <;> rfl

theorem getAndIncrementPduSendCounter_next {app : SenderApp} {count : Nat}
    (ratio : app.pduSendCounter.toNat = (count + 3) % 4) :
    (getAndIncrementPduSendCounter app).2.pduSendCounter.toNat = (count + 1 + 3) % 4 ∧
      ((getAndIncrementPduSendCounter app).1 = pduToKeyFragmentRatio ↔ count % 4 = 0) := by
  have three : app.pduSendCounter = pduToKeyFragmentRatio ↔ (count + 3) % 4 = 3 := by
    rw [← UInt16.toNat_inj, ratio]
    rfl
  simp only [getAndIncrementPduSendCounter, three]
  constructor
  · split
    · simp only [UInt16.reduceToNat]
      omega
    · have one : (1 : UInt16).toNat = 1 := rfl
      rw [UInt16.toNat_add, ratio, one]
      omega
  · omega

theorem AfterPackets.produce {mb : Mbedtls} {count : Nat} {app next : SenderApp}
    {emission : Emission}
    (after : AfterPackets mb count app) (below : count < 2000)
    (packets : next.packetSendCounter = app.packetSendCounter + 1)
    (ratio : next.pduSendCounter.toNat = (count + 1 + 3) % 4)
    (rotation : next.trace.state.keyReplacementPacketCounter = 200)
    (encrypted : next.trace.state.encryptedPacketCounter = (count + 1) % 200)
    (replaced : next.trace.state.keysReplaced = (count + 1) / 200)
    (fragment : next.trace.state.keyFragmentNo.val = (count + 1 + 3) / 4 % 4)
    (coherent : Coherent next.trace.state)
    (emitted : next.trace.emitted = app.trace.emitted ++ [emission])
    (scheduled : emission.OnSchedule count) (genuine : emission.Genuine mb)
    (session : emission.session = currentSession next.trace.state) :
    AfterPackets mb (count + 1) next where
  packets := by
    have one : (1 : UInt32).toNat = 1 := rfl
    rw [packets, UInt32.toNat_add, after.packets, one]
    omega
  limit := below
  ratio := ratio
  rotation := rotation
  encrypted := encrypted
  replaced := replaced
  fragment := fragment
  emitted := by rw [emitted, List.length_append, after.emitted, List.length_singleton]
  coherent := coherent
  emissions := by
    intro k other found
    rw [emitted] at found
    rcases Nat.lt_trichotomy k count with earlier | rfl | later
    · rw [List.getElem?_append_left (by rw [after.emitted]; exact earlier)] at found
      exact after.emissions k other found
    · rw [List.getElem?_append_right (by rw [after.emitted]), after.emitted, Nat.sub_self,
        List.getElem?_cons_zero] at found
      exact Option.some.inj found ▸ ⟨scheduled, genuine⟩
    · rw [List.getElem?_eq_none (by simp [after.emitted]; omega)] at found
      contradiction
  latest := by
    intro other last
    rw [emitted, List.getLast?_concat] at last
    exact Option.some.inj last ▸ session

def scheduledCall (app : SenderApp) (draws : RandomDraws) : SenderCall :=
  if app.pduSendCounter = pduToKeyFragmentRatio then
    .getKeyFragmentPdu (fillMarkerInKeyPdu .zero) draws
  else .encryptPayload testPayload10Bytes (fillMarkerInPdu .zero) draws

theorem packetSendTimeoutTimer_call {mb : Mbedtls} {app : SenderApp} {draws : RandomDraws}
    {trace : SenderTrace} (notDone : ¬ noPacketToSend ≤ app.packetSendCounter.toNat)
    (step : senderStep mb app.trace (scheduledCall app draws) = some trace) :
    ∃ next, packetSendTimeoutTimer mb app draws = some next ∧ next.trace = trace ∧
      next.packetSendCounter = app.packetSendCounter + 1 ∧
      next.pduSendCounter = (getAndIncrementPduSendCounter app).2.pduSendCounter ∧
      next.timerStarted = true := by
  obtain ⟨sent, made, sameTrace, packets, ratio⟩ : ∃ sent,
      countAndProduce mb (getAndIncrementPduSendCounter app).2 (scheduledCall app draws) =
        some sent ∧ sent.trace = trace ∧
      sent.packetSendCounter = app.packetSendCounter + 1 ∧
      sent.pduSendCounter = (getAndIncrementPduSendCounter app).2.pduSendCounter := by
    refine ⟨broadcastProduced { (getAndIncrementPduSendCounter app).2 with
      trace := trace
      packetSendCounter := app.packetSendCounter + 1 }
      (trace.emitted.drop app.trace.emitted.length), ?_, by simp, by simp, by simp⟩
    have same : senderStep mb (getAndIncrementPduSendCounter app).2.trace
        (scheduledCall app draws) = some trace := step
    simp only [countAndProduce, same, Option.bind_eq_bind, Option.bind_some]
    rfl
  refine ⟨{ sent with timerStarted := true }, ?_, sameTrace, packets, ratio, rfl⟩
  have value : (getAndIncrementPduSendCounter app).1 = app.pduSendCounter := rfl
  simp only [packetSendTimeoutTimer, if_neg notDone, value, encryptNewKeyFragment,
    encryptNewPayload]
  unfold scheduledCall at made
  split at made
  · rename_i fragment
    rw [if_pos fragment, made]
    rfl
  · rename_i payload
    rw [if_neg payload, made]
    rfl

theorem AfterPackets.callback {mb : Mbedtls} {count : Nat} {app : SenderApp}
    {draws : RandomDraws} {trace : SenderTrace} {emission : Emission}
    (after : AfterPackets mb count app) (below : count < 2000)
    (step : senderStep mb app.trace (scheduledCall app draws) = some trace)
    (emitted : trace.emitted = app.trace.emitted ++ [emission])
    (rotation : trace.state.keyReplacementPacketCounter = 200)
    (encrypted : trace.state.encryptedPacketCounter = (count + 1) % 200)
    (replaced : trace.state.keysReplaced = (count + 1) / 200)
    (fragment : trace.state.keyFragmentNo.val = (count + 1 + 3) / 4 % 4)
    (coherent : Coherent trace.state) (scheduled : emission.OnSchedule count)
    (genuine : emission.Genuine mb) (session : emission.session = currentSession trace.state) :
    ∃ next emission, packetSendTimeoutTimer mb app draws = some next ∧
      AfterPackets mb (count + 1) next ∧ next.timerStarted = true ∧
      next.trace.emitted = app.trace.emitted ++ [emission] := by
  have notDone : ¬ noPacketToSend ≤ app.packetSendCounter.toNat := by
    rw [after.packets]
    exact Nat.not_le.mpr below
  obtain ⟨next, made, rfl, packets, nextRatio, started⟩ := packetSendTimeoutTimer_call notDone step
  obtain ⟨ratio, _⟩ := getAndIncrementPduSendCounter_next after.ratio
  rw [← nextRatio] at ratio
  exact ⟨next, emission, made, after.produce below packets ratio rotation encrypted replaced
    fragment coherent emitted scheduled genuine session, started, emitted⟩

theorem packetSendTimeoutTimer_produces (mb : Mbedtls) {count : Nat} {app : SenderApp}
    (after : AfterPackets mb count app) (below : count < 2000) (draws : RandomDraws) :
    ∃ next emission, packetSendTimeoutTimer mb app draws = some next ∧
      AfterPackets mb (count + 1) next ∧ next.timerStarted = true ∧
      next.trace.emitted = app.trace.emitted ++ [emission] := by
  obtain ⟨current, rotated, rotation, encrypted, replaced, sameFragment⟩ :=
    replaceKeyIfDue_afterPackets draws after.rotation after.encrypted after.replaced
  have coherent : Coherent current := after.coherent.countPacket.replaceKeyIfDue rotated
  obtain ⟨_, isFragment⟩ := getAndIncrementPduSendCounter_next after.ratio
  by_cases fourth : count % 4 = 0
  · have call : scheduledCall app draws = .getKeyFragmentPdu (fillMarkerInKeyPdu .zero) draws :=
      if_pos (isFragment.mpr fourth)
    have step := senderStep_getKeyFragmentPdu mb (fillMarkerInKeyPdu .zero) rotated
    rw [← call] at step
    have number : current.keyFragmentNo = Fin.ofNat 4 (count / 4) := by
      apply Fin.ext
      have value := after.fragment
      simp only [sameFragment, value, Fin.val_ofNat]
      omega
    have nextNumber : (getNextKeyFragment current).2.keyFragmentNo.val =
        (count + 1 + 3) / 4 % 4 := by
      simp only [getNextKeyFragment, followingFragmentNo_eq, number, Fin.val_add, Fin.val_ofNat]
      simp only [Fin.isValue, Fin.val_one]
      omega
    refine after.callback below step rfl rotation encrypted replaced nextNumber
      coherent.getNextKeyFragment ⟨replaced, fun _ => ?_⟩
      (genuine_filledKeyPdu mb coherent _ _ _) rfl
    rw [number]
    exact ⟨_, _, rfl⟩
  · have call : scheduledCall app draws =
        .encryptPayload testPayload10Bytes (fillMarkerInPdu .zero) draws :=
      if_neg fun isRatio => fourth (isFragment.mp isRatio)
    have accepted : testPayload10Bytes.length ≤ maxPduPayloadSize := by decide
    have step := senderStep_encryptPayload mb accepted (fillMarkerInPdu .zero) rotated
    rw [← call] at step
    have sameNumber : current.keyFragmentNo.val = (count + 1 + 3) / 4 % 4 := by
      rw [sameFragment, after.fragment]
      omega
    exact after.callback below step rfl rotation encrypted replaced sameNumber coherent
      ⟨replaced, fun isFourth => absurd isFourth fourth⟩
      (genuine_filledPdu mb coherent.keyId (by decide) _ _) rfl

/-! ## Runs of the timer -/

theorem AfterPackets.timer {mb : Mbedtls} {count : Nat} {app : SenderApp}
    (after : AfterPackets mb count app)
    (timerStarted : Bool) : AfterPackets mb count { app with timerStarted := timerStarted } :=
  ⟨after.packets, after.limit, after.ratio, after.rotation, after.encrypted, after.replaced,
    after.fragment, after.emitted, after.coherent, after.emissions, after.latest⟩

theorem timerFires_returns (mb : Mbedtls) {count : Nat} {app : SenderApp}
    (after : AfterPackets mb count app) (started : app.timerStarted = true) (draws : RandomDraws) :
    ∃ next, timerFires mb app draws = some next ∧
      ((AfterPackets mb (count + 1) next ∧ next.timerStarted = true ∧
          ∃ emission, next.trace.emitted = app.trace.emitted ++ [emission]) ∨
        (count = 2000 ∧ AfterPackets mb count next ∧ next.timerStarted = false ∧
          next.trace = app.trace)) := by
  simp only [timerFires, if_pos started]
  by_cases below : count < 2000
  · obtain ⟨next, emission, made, afterNext, startedNext, emitted⟩ :=
      packetSendTimeoutTimer_produces mb (after.timer false) below draws
    exact ⟨next, made, Or.inl ⟨afterNext, startedNext, emission, emitted⟩⟩
  · have limit := after.limit
    have reached : count = 2000 := by omega
    have done : noPacketToSend ≤ app.packetSendCounter.toNat := by
      rw [after.packets]
      exact Nat.not_lt.mp below
    exact ⟨{ app with timerStarted := false }, if_pos done,
      Or.inr ⟨reached, after.timer false, rfl, rfl⟩⟩

theorem senderAppRun_after {mb : Mbedtls} {window : List RandomDraws} :
    ∀ {count : Nat} {app final : SenderApp}, AfterPackets mb count app →
      senderAppRun mb app window = some final →
      ∃ reached, AfterPackets mb reached final ∧
        app.trace.emitted <+: final.trace.emitted ∧
        (reached = count + window.length ∨
          (reached = 2000 ∧ reached + 1 = count + window.length)) := by
  induction window with
  | nil =>
      intro count app final after run
      obtain rfl := Option.some.inj run
      exact ⟨count, after, List.prefix_rfl, Or.inl rfl⟩
  | cons draws rest ih =>
      intro count app final after run
      obtain ⟨next, fired, run⟩ := Option.bind_eq_some_iff.mp run
      have started : app.timerStarted = true := by
        by_contra notStarted
        simp [timerFires, notStarted] at fired
      obtain ⟨other, made, outcome⟩ := timerFires_returns mb after started draws
      obtain rfl := Option.some.inj (made.symm.trans fired)
      rcases outcome with ⟨afterNext, _, emission, emitted⟩ | ⟨limit, afterNext, stopped, sameTrace⟩
      · obtain ⟨reached, afterFinal, produced, lengths⟩ := ih afterNext run
        refine ⟨reached, afterFinal, ?_, ?_⟩
        · exact (emitted ▸ List.prefix_append _ _ : app.trace.emitted <+: _).trans produced
        · rw [List.length_cons]
          omega
      · cases rest with
        | nil =>
            obtain rfl := Option.some.inj run
            refine ⟨count, afterNext, by rw [sameTrace], Or.inr ⟨limit, ?_⟩⟩
            simp
        | cons later others =>
            obtain ⟨_, again, _⟩ := Option.bind_eq_some_iff.mp run
            simp [timerFires, stopped] at again

/-- Any 16 executions inside one session, the current one, produce all four fragments of
its key. -/
theorem window_produces_fragments {mb : Mbedtls} {count : Nat} {before after : SenderApp}
    {window : List RandomDraws} (reachable : AfterPackets mb count before)
    (length : window.length = 16) (run : senderAppRun mb before window = some after)
    {session : Session}
    (inside : ∀ emission ∈ after.trace.emitted.drop before.trace.emitted.length,
      emission.session = session) :
    session = currentSession after.trace.state ∧
    (∀ emission ∈ after.trace.emitted.drop before.trace.emitted.length, emission.Genuine mb) ∧
    ∀ number, ∃ pdu, Emission.keyFragment session number pdu ∈
      after.trace.emitted.drop before.trace.emitted.length := by
  obtain ⟨reached, afterReached, _, lengths⟩ := senderAppRun_after reachable run
  rw [length] at lengths
  rw [reachable.emitted] at inside ⊢
  have emitted : ∀ k, count ≤ k → (early : k < after.trace.emitted.length) →
      after.trace.emitted[k] ∈ after.trace.emitted.drop count := by
    intro k late early
    refine List.mem_iff_getElem?.mpr ⟨k - count, ?_⟩
    rw [List.getElem?_drop, Nat.add_sub_cancel' late, List.getElem?_eq_getElem early]
  have scheduled : ∀ k, (early : k < after.trace.emitted.length) →
      after.trace.emitted[k].OnSchedule k :=
    fun k early => (afterReached.emissions k _ (List.getElem?_eq_getElem early)).1
  have total := afterReached.emitted
  -- a window that ends with the execution after the last packet spans two sessions
  have whole : reached = count + 16 := by
    rcases lengths with whole | ⟨limit, short⟩
    · exact whole
    · have first := scheduled 1985 (by omega)
      have last := scheduled 1999 (by omega)
      have sameSession := (inside _ (emitted 1985 (by omega) (by omega))).trans
        (inside _ (emitted 1999 (by omega) (by omega))).symm
      have numbers := first.1
      rw [sameSession, last.1] at numbers
      omega
  refine ⟨?_, ?_, fun number => ?_⟩
  · have inRange : count + 15 < after.trace.emitted.length := by omega
    have last : after.trace.emitted.getLast? = some after.trace.emitted[count + 15] := by
      rw [List.getLast?_eq_getElem?, List.getElem?_eq_getElem (by omega)]
      congr 2
      omega
    rw [← afterReached.latest _ last]
    exact (inside _ (emitted _ (by omega) (by omega))).symm
  · intro emission member
    obtain ⟨k, found⟩ := List.mem_iff_getElem?.mp (List.mem_of_mem_drop member)
    exact (afterReached.emissions k emission found).2
  · obtain ⟨k, late, early, residue⟩ : ∃ k, count ≤ k ∧ k < count + 16 ∧
        k % 16 = 4 * number.val := by
      have bound := number.isLt
      exact ⟨count + (4 * number.val + 16 - count % 16) % 16, by omega, by omega, by omega⟩
    have member := emitted k late (by omega)
    obtain ⟨own, pdu, isFragment⟩ := (scheduled k (by omega)).2 (by omega)
    rw [isFragment] at member
    have isNumber : Fin.ofNat 4 (k / 4) = number := by
      apply Fin.ext
      rw [Fin.val_ofNat]
      omega
    have isSession : own = session := inside _ member
    rw [isNumber, isSession] at member
    exact ⟨pdu, member⟩

end BleBroadcast.Sender
