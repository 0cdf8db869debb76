import BleBroadcast.EndToEnd.FrameRoundTrip
import BleBroadcast.Receiver.FragmentFeeding
import BleBroadcast.Sender.SenderApp

/-!
# From the sender's timer to the receiver's key

Sixteen executions of the timer callback inside one session produce all four
fragments of its key.  However they arrive, the reconstructor passes on that key,
and no earlier than with the fourth of them.
-/

set_option autoImplicit false

namespace BleBroadcast.EndToEnd

open BleBroadcast.Core BleBroadcast.Sender BleBroadcast.Receiver

/-- What the receiver queues for a frame it overlays with `beacon_key_pdu_data`. -/
def queuedElement (frame : List UInt8) (mac : EspBdAddr) : ReconstructorQueueElement :=
  fragmentElement (BeaconKeyPduData.overlay (Memory.ofList frame)) mac

/-- An element that the PDUs of a window can bring about: that of one of its key fragment
PDUs, or one of the session with a tag that does not match. -/
inductive FeedsFrom (mb : Mbedtls) (mac : EspBdAddr) (session : Session)
    (window : List Emission) : ReconstructorQueueElement → Prop where
  | produced {number : FragmentNo} {pdu : BeaconKeyPduData}
      (member : Emission.keyFragment session number pdu ∈ window) :
      FeedsFrom mb mac session window (queuedElement pdu.frame mac)
  | forged {element : ReconstructorQueueElement} (sender : element.consumerMacAddress = mac)
      (ofSession : element.keyId = session.keyId) (mismatch : element.tagMatches mb = false) :
      FeedsFrom mb mac session window element

theorem queuedElement_genuine {mb : Mbedtls} {session : Session} {number : FragmentNo}
    {pdu : BeaconKeyPduData} (genuine : (Emission.keyFragment session number pdu).Genuine mb)
    (mac : EspBdAddr) :
    (queuedElement pdu.frame mac).keyId = session.keyId ∧
      (queuedElement pdu.frame mac).keyFragmentNo = number ∧
      (queuedElement pdu.frame mac).tagMatches mb = true ∧
      (queuedElement pdu.frame mac).decrypted = split128bKeyToFragment session.key number := by
  obtain ⟨bits, _, isSession, encrypted, tag⟩ := genuine
  exact fragmentElement_of_frame mb (holds_ofList pdu.frame) bits isSession encrypted tag mac

theorem FeedsFrom.ofSession {mb : Mbedtls} {mac : EspBdAddr} {session : Session}
    {window : List Emission} {element : ReconstructorQueueElement}
    (genuine : ∀ emission ∈ window, emission.Genuine mb)
    (feeds : FeedsFrom mb mac session window element) :
    OfSession mb mac session.keyId session.key element := by
  cases feeds with
  | produced member =>
      obtain ⟨isSession, number, _, decrypted⟩ := queuedElement_genuine (genuine _ member) mac
      exact ⟨rfl, isSession, fun _ => by rw [decrypted, number]⟩
  | forged sender ofSession mismatch =>
      exact ⟨sender, ofSession, fun accepted => by simp [mismatch] at accepted⟩

/-- Key transport, for every reachable state of the application and every 16 consecutive
executions of the callback inside one session: that session is the current one, all four
fragments of its key are produced, and a reconstructor fed with the fragments in any way
has called back exactly if it got all four, always with the session's key. -/
theorem key_transport (mb : Mbedtls) (initial : RandomDraws)
    {earlier window : List RandomDraws} {before after : SenderApp}
    (reached : senderAppRun mb (startSenderApp initial) earlier = some before)
    (length : window.length = 16) (run : senderAppRun mb before window = some after)
    {session : Session}
    (inside : ∀ emission ∈ after.trace.emitted.drop before.trace.emitted.length,
      emission.session = session)
    (mac : EspBdAddr) {size : Nat} (positive : 0 < size)
    {stream : List ReconstructorQueueElement}
    (feeds : ∀ element ∈ stream, FeedsFrom mb mac session
      (after.trace.emitted.drop before.trace.emitted.length) element) :
    session = currentSession after.trace.state ∧
    (∀ number, ∃ pdu, Emission.keyFragment session number pdu ∈
        after.trace.emitted.drop before.trace.emitted.length ∧
      (queuedElement pdu.frame mac).keyFragmentNo = number ∧
      (queuedElement pdu.frame mac).tagMatches mb = true) ∧
    ∀ processed, processed <+: stream →
      let calls := (handleKeyFragments mb (some logKeyRecCall)
        (createNewKeyCollection size, []) processed).2
      (calls ≠ [] ↔ ∀ number, ∃ element ∈ processed,
        element.tagMatches mb = true ∧ element.keyFragmentNo = number) ∧
      ∀ call ∈ calls, call = ⟨session.keyId.toUInt8, session.key, mac⟩ := by
  obtain ⟨count, reachable, _⟩ := senderAppRun_after (afterPackets_start mb initial) reached
  obtain ⟨current, genuine, complete⟩ := window_produces_fragments reachable length run inside
  refine ⟨current, fun number => ?_, fun processed isPrefix => ?_⟩
  · obtain ⟨pdu, member⟩ := complete number
    obtain ⟨_, isNumber, accepted, _⟩ := queuedElement_genuine (genuine _ member) mac
    exact ⟨pdu, member, isNumber, accepted⟩
  · exact fed_calls mb positive fun element member =>
      (feeds element (isPrefix.subset member)).ofSession genuine

def queuedElements (mac : EspBdAddr) (produced : List Emission) :
    List ReconstructorQueueElement :=
  produced.filterMap fun emission =>
    match emission with
    | .data .. => none
    | .keyFragment _ _ pdu => some (queuedElement pdu.frame mac)

/-- The first 16 executions after start: the key of session 1 repeats the byte 1, and the
four fragments among their PDUs are processed in the order they were produced. -/
theorem key_transport_first_window :
    let draws : RandomDraws := ⟨fun _ => 1, 1, 0x10⟩
    ∃ after, senderAppRun tabulated (startSenderApp draws) (List.replicate 16 draws) = some after ∧
      let calls := (handleKeyFragments tabulated (some logKeyRecCall)
        (createNewKeyCollection 2, []) (queuedElements 7 after.trace.emitted)).2
      calls ≠ [] ∧ ∀ call ∈ calls, call = ⟨1, fun _ => 1, 7⟩ := by
  intro draws
  have sessions : (senderAppRun tabulated (startSenderApp draws) (List.replicate 16 draws)).map
      (fun after => after.trace.emitted.map fun emission => (emission.session.number,
        emission.session.keyId, List.ofFn emission.session.key)) =
      some (List.replicate 16 (0, 1, List.replicate 16 1)) := by
    decide +kernel
  obtain ⟨after, run, sessions⟩ := Option.map_eq_some_iff.mp sessions
  have inside : ∀ emission ∈ after.trace.emitted, emission.session = ⟨0, 1, fun _ => 1⟩ := by
    intro emission member
    have listed := List.mem_map_of_mem (f := fun emission : Emission =>
      (emission.session.number, emission.session.keyId, List.ofFn emission.session.key)) member
    rw [sessions] at listed
    simp only [List.mem_replicate, Prod.mk.injEq] at listed
    obtain ⟨_, number, keyId, key⟩ := listed
    have isKey : emission.session.key = fun _ => 1 := List.ofFn_injective (key.trans (by decide))
    rw [← number, ← keyId, ← isKey]
  have feeds : ∀ element ∈ queuedElements 7 after.trace.emitted,
      FeedsFrom tabulated 7 ⟨0, 1, fun _ => 1⟩ after.trace.emitted element := by
    intro element member
    obtain ⟨emission, produced, queued⟩ := List.mem_filterMap.mp member
    cases emission with
    | data => simp at queued
    | keyFragment session number pdu =>
        obtain rfl := Option.some.inj queued
        obtain rfl : session = ⟨0, 1, fun _ => 1⟩ := inside _ produced
        exact .produced produced
  have started : senderAppRun tabulated (startSenderApp draws) [] =
      some (startSenderApp draws) := rfl
  obtain ⟨_, complete, called⟩ := key_transport tabulated draws started
    List.length_replicate run inside 7 (Nat.succ_pos 1) feeds
  obtain ⟨fired, key⟩ := called _ List.prefix_rfl
  refine ⟨after, run, fired.mpr fun number => ?_, key⟩
  obtain ⟨pdu, produced, isNumber, accepted⟩ := complete number
  exact ⟨_, List.mem_filterMap.mpr ⟨_, produced, rfl⟩, accepted, isNumber⟩

end BleBroadcast.EndToEnd
