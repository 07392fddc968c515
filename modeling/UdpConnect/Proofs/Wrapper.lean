/-
What the wrapper makes of the events.

An event of a message is handed on as a part of the buffer, so everything hangs on where the
event points: into the datagram that was received last, and that is in the buffer
(`udcProcessEvents_points`).  Then a turn calls the handler the event is for with what the
event says, unless nobody has subscribed (`dispatch_eq`), and so does a whole call of
`ProcessEvents` until it returns, or meets a message nobody has subscribed to
(`processEvents_tells`).
-/
import UdpConnect.Proofs.Frame
import UdpConnect.Proofs.Payload
import UdpConnect.Proofs.Stages
import UdpConnect.Wrapper

namespace UdpConnect

open Memory Past

/-! ### Where events point -/

section Points

variable {s : UdcServerImpl} {e : UdcEvent} {time : Milliseconds}

theorem receiveLoop_points (fuel : Nat) : ∀ (s : UdcServerImpl) (n : Nat),
    Capacity s.messageBuffer n → (UdcServerImpl.receiveLoop time fuel s n).2 = some e →
      ∃ k, k ≤ (UdcServerImpl.receiveLoop time fuel s n).1.messageBufferSize ∧ Points k e := by
  induction fuel with
  | zero =>
      intro s n _ h
      cases h
  | succ fuel ih =>
      intro s n hcap h
      unfold UdcServerImpl.receiveLoop at h ⊢
      cases hr : (s.receive n).2.1 with
      | none =>
          rw [receive_none hr] at h
          cases h
      | some address =>
          obtain ⟨p, hp, hturn, hcap'⟩ := turn_of_receive time hcap hr
          have hroom : (s.receive n).2.2 ≤ s.messageBufferSize := hp.room
          have hsize := hturn.size
          have hpoints :
              ((s.receive n).1.handleDatagram address (s.receive n).2.2 time).2 = some e →
                Points (s.receive n).2.2 e := handleDatagram_points
          rw [receive_some hr] at h ⊢
          simp only at h ⊢
          generalize (s.receive n).1.handleDatagram address (s.receive n).2.2 time = t at *
          obtain ⟨s', event⟩ := t
          cases event with
          | none => exact ih s' _ hcap' h
          | some e' => exact ⟨_, hroom.trans (Nat.le_of_eq hsize.symm), hpoints h⟩

/-- An event that is reported as a connection event is one. -/
theorem points_of_connection {b : MessageBuffer} {eventType : UdcEventType} {id : UdcEndPointId}
    (h : e.report b = .connection eventType id) (n : Nat) : Points n e := by
  unfold UdcEvent.report udcGetResultConnectionEvent at h
  by_cases hcode : e.eventType.code > UdcEventType.connectionRegained.code
  · rw [if_pos hcode] at h
    cases h
  · exact Or.inl (Nat.not_lt.mp hcode)

theorem points_of_report {b : MessageBuffer} {report : Option Report} {event : Option UdcEvent}
    (hreport : event.map (UdcEvent.report b) = report)
    (h : report = none ∨ ∃ eventType id, report = some (.connection eventType id))
    (he : event = some e) (n : Nat) : Points n e := by
  rw [he] at hreport
  rcases h with hnone | ⟨eventType, id, hsome⟩
  · rw [hnone] at hreport
    cases hreport
  · rw [hsome] at hreport
    exact points_of_connection (Option.some.inj hreport) n

theorem tick_points (order : List UdcEndPointId)
    (h : (s.updateClientConnectionStatus time order).2 = some e) (n : Nat) : Points n e := by
  refine updateClientConnectionStatus_rule time (P := fun _ => True)
    (Q := fun _ event => ∀ e, event = some e → Points n e) ?_ ?_ ?_ order s trivial e h
  · intro t _ e he
    cases he
  · intro t id t' _ _
    trivial
  · intro t id t' e' _ hperf e he
    exact points_of_report hperf.report (tick_report _ id time) he n

/-- **An event points into the buffer.** -/
theorem udcProcessEvents_points (order : List UdcEndPointId)
    (h : (udcProcessEvents s order time).2 = some e) :
    ∃ k, k ≤ (udcProcessEvents s order time).1.messageBufferSize ∧ Points k e := by
  rcases udcProcessEvents_cases s order time with ⟨-, heq⟩ | ⟨-, ⟨-, heq⟩ | ⟨-, heq⟩⟩
  · rw [heq] at h ⊢
    exact ⟨0, Nat.zero_le _, points_of_report (updatePendingClients_performs time).report
      (poll_report _ time) h 0⟩
  · rw [heq] at h ⊢
    exact ⟨0, Nat.zero_le _, tick_points order h 0⟩
  · rw [heq] at h ⊢
    exact receiveLoop_points _ _ _ (capacity_full _) h

theorem size_updateClientConnectionStatus (s : UdcServerImpl) (time : Milliseconds)
    (order : List UdcEndPointId) :
    (s.updateClientConnectionStatus time order).1.messageBufferSize = s.messageBufferSize := by
  refine updateClientConnectionStatus_rule time
    (P := fun t => t.messageBufferSize = s.messageBufferSize)
    (Q := fun t _ => t.messageBufferSize = s.messageBufferSize) ?_ ?_ ?_ order s rfl
  · intro t ht
    exact ht
  · intro t id t' ht hperf
    exact hperf.size.trans ht
  · intro t id t' e ht hperf
    exact hperf.size.trans ht

theorem size_receiveMessages (s : UdcServerImpl) (time : Milliseconds) :
    (s.receiveMessages time).1.messageBufferSize = s.messageBufferSize :=
  step_stages (P := fun t => t.messageBufferSize = s.messageBufferSize)
    (show (Op.receiveMessages time).Admissible s from trivial)
    (fun _ _ ht hstage => hstage.size.trans ht) rfl

theorem size_udcProcessEvents (s : UdcServerImpl) (order : List UdcEndPointId)
    (time : Milliseconds) :
    (udcProcessEvents s order time).1.messageBufferSize = s.messageBufferSize := by
  have hpoll := (updatePendingClients_performs (s := s) time).size
  have htick := size_updateClientConnectionStatus (s.updatePendingClients time).1 time order
  rcases udcProcessEvents_cases s order time with ⟨-, heq⟩ | ⟨-, ⟨-, heq⟩ | ⟨-, heq⟩⟩
  · rw [heq]
    exact hpoll
  · rw [heq]
    exact htick.trans hpoll
  · rw [heq]
    exact (size_receiveMessages _ time).trans (htick.trans hpoll)

end Points

namespace Wrapper

/-! ### What a turn comes to -/

/-- What a report is for the handlers; an id is handed out by the call that asks for it. -/
def invocation : Report → Option Invocation
  | .connection .connectionSuccess id => some (.onConnectionSuccess id)
  | .connection .connectionTimeout id => some (.onConnectionTimeout id)
  | .connection .connectionLost id => some (.onConnectionLost id)
  | .connection .connectionRegained id => some (.onConnectionRegained id)
  | .message ⟨.ipv4 ip, port⟩ msgIndex data =>
      some (.onReceivedMessageIPv4 ip port ⟨msgIndex, data⟩)
  | .message ⟨.ipv6 ip, port⟩ msgIndex data =>
      some (.onReceivedMessageIPv6 ip port ⟨msgIndex, data⟩)
  | _ => none

def Invocation.handler : Invocation → Handler
  | .onConnectionSuccess _ => .onConnectionSuccess
  | .onConnectionTimeout _ => .onConnectionTimeout
  | .onConnectionLost _ => .onConnectionLost
  | .onConnectionRegained _ => .onConnectionRegained
  | .onReceivedMessageIPv4 _ _ _ => .onReceivedMessageIPv4
  | .onReceivedMessageIPv6 _ _ _ => .onReceivedMessageIPv6

/-- The handler is null and has to be there. -/
def Missed (subscribed : Handler → Bool) (i : Invocation) : Bool :=
  (i.handler == .onReceivedMessageIPv4 || i.handler == .onReceivedMessageIPv6) &&
    !subscribed i.handler

/-- What becomes of a report. -/
def answer (subscribed : Handler → Bool) : Option Invocation → Except Exception (List Invocation)
  | none => .ok []
  | some i =>
      if Missed subscribed i then .error .nullReference
      else .ok ([i].filter fun i => subscribed i.handler)

section Answer

variable {subscribed : Handler → Bool} {said : Option Invocation} {i : Invocation}

theorem answer_missed (h : Missed subscribed i = true) :
    answer subscribed (some i) = .error .nullReference :=
  if_pos h

theorem answer_heeded (h : ∀ i, said = some i → Missed subscribed i = false) :
    answer subscribed said = .ok (said.toList.filter fun i => subscribed i.handler) := by
  cases said with
  | none => rfl
  | some i => exact if_neg (by rw [h i rfl]; exact Bool.false_ne_true)

end Answer

section New

variable {signature : UdcSignature} {server : UdcServerImpl}

theorem size_created {bytes : List UInt8} (h : udcCreateServer signature bytes = some server) :
    server.messageBufferSize = bytes.length := by
  unfold udcCreateServer at h
  split at h
  · rw [← Option.some.inj h]
    simp [UdcServerImpl.messageBufferSize, UdcServerImpl.new, MsgHeader.serializeMsgSignature,
      MessageBuffer.size]
  · cases h

/-- An array of .NET has fewer than `2 ^ 31` elements. -/
theorem size_new {bufferSize : Nat} {allocated : Bool}
    (h : Wrapper.new signature bufferSize allocated = .ok server) :
    server.messageBufferSize < 2 ^ 31 := by
  unfold Wrapper.new at h
  simp only at h
  split at h
  · cases h
  · rename_i hlength
    split at h
    · cases h
    · rename_i server' hserver
      rw [← Except.ok.inj h, size_created hserver, List.length_replicate]
      simp only [Bool.or_eq_true, decide_eq_true_eq, not_or, Nat.not_le] at hlength
      exact hlength.2

end New

section Dispatch

variable {e : UdcEvent} {b : MessageBuffer} {n : Nat} {subscribed : Handler → Bool}

theorem segment_of_points (hsmall : b.size < 2 ^ 31) {index size : Nat}
    (h : index + size ≤ b.size) :
    ArraySegment.new b.bytes (asInt index) (asInt size)
      = .ok ⟨index, slice b.bytes index size⟩ := by
  have hlength : (b.bytes.length : Int) = b.size := rfl
  rw [asInt_of_lt (by omega), asInt_of_lt (by omega), ArraySegment.new, hlength,
    if_pos ⟨by omega, by omega, by omega⟩]
  rfl

theorem invokeConnection_eq (handler : Handler) (invoke : UdcEndPointId → Invocation)
    (hcode : e.eventType.code ≤ 3)
    (hinvocation : ∀ id, invocation (.connection e.eventType id) = some (invoke id))
    (hhandler : ∀ id, (invoke id).handler = handler)
    (hmissed : ∀ id, Missed subscribed (invoke id) = false) :
    invokeConnection (subscribed handler) invoke e
      = answer subscribed (invocation (e.report b)) := by
  have hsome : udcGetResultConnectionEvent e = some e.endPointId := if_neg (Nat.not_lt.mpr hcode)
  have hreport : e.report b = .connection e.eventType e.endPointId := by
    rw [UdcEvent.report, hsome]
  rw [invokeConnection, hsome, hreport, hinvocation]
  simp only [answer, hmissed, Bool.false_eq_true, if_false, List.filter_cons, List.filter_nil,
    hhandler]

theorem invokeMessage_eq {Address : Type} {handler : Handler}
    {invoke : Address → UInt16 → ArraySegment → Invocation} {address : Address} {port : UInt16}
    {index size : Nat} (hsmall : b.size < 2 ^ 31) (hinside : index + size ≤ b.size)
    (hinvocation : invocation (e.report b)
      = some (invoke address port ⟨index, slice b.bytes index size⟩))
    (hmissed : Missed subscribed (invoke address port ⟨index, slice b.bytes index size⟩)
      = !subscribed handler)
    (hhandler : (invoke address port ⟨index, slice b.bytes index size⟩).handler = handler) :
    invokeMessage (subscribed handler) invoke b.bytes (some (address, port, index, size))
      = answer subscribed (invocation (e.report b)) := by
  rw [hinvocation]
  simp only [invokeMessage, segment_of_points hsmall hinside, answer, hmissed]
  cases h : subscribed handler with
  | true => simp [hhandler, h]
  | false => simp

/-- **A turn calls the handler the event is for**, with what the event says. -/
theorem dispatch_eq (hpoints : Points n e) (hn : n ≤ b.size) (hsmall : b.size < 2 ^ 31)
    (subscribed : Handler → Bool) :
    dispatch subscribed b.bytes e = answer subscribed (invocation (e.report b)) := by
  obtain ⟨eventType, endPointId, address, port, msgIndex, msgSize⟩ := e
  cases eventType with
  | connectionSuccess =>
      simp only [dispatch]
      exact invokeConnection_eq .onConnectionSuccess .onConnectionSuccess
        (Nat.le_of_ble_eq_true rfl) (fun _ => rfl) (fun _ => rfl) fun _ => rfl
  | connectionTimeout =>
      simp only [dispatch]
      exact invokeConnection_eq .onConnectionTimeout .onConnectionTimeout
        (Nat.le_of_ble_eq_true rfl) (fun _ => rfl) (fun _ => rfl) fun _ => rfl
  | connectionLost =>
      simp only [dispatch]
      exact invokeConnection_eq .onConnectionLost .onConnectionLost
        (Nat.le_of_ble_eq_true rfl) (fun _ => rfl) (fun _ => rfl) fun _ => rfl
  | connectionRegained =>
      simp only [dispatch]
      exact invokeConnection_eq .onConnectionRegained .onConnectionRegained
        (Nat.le_of_ble_eq_true rfl) (fun _ => rfl) (fun _ => rfl) fun _ => rfl
  | receiveMessageIPv4 =>
      rcases hpoints with hcode | ⟨htype, hend⟩
      · exact absurd hcode (show ¬ 4 ≤ 3 by decide)
      · cases address with
        | ipv6 ip => cases htype
        | ipv4 ip =>
            exact invokeMessage_eq hsmall (Nat.le_trans (Nat.le_of_eq hend) hn) rfl rfl rfl
  | receiveMessageIPv6 =>
      rcases hpoints with hcode | ⟨htype, hend⟩
      · exact absurd hcode (show ¬ 5 ≤ 3 by decide)
      · cases address with
        | ipv4 ip => cases htype
        | ipv6 ip =>
            exact invokeMessage_eq hsmall (Nat.le_trans (Nat.le_of_eq hend) hn) rfl rfl rfl

end Dispatch

/-! ### What a call of `ProcessEvents` comes to -/

/-- What there is to tell until a null pointer comes back. -/
def told : List Frame → UdcServerImpl → List Invocation
  | [], _ => []
  | x :: frames, s =>
      match x.event s with
      | none => []
      | some e =>
          (invocation (e.report (udcProcessEvents s x.order x.time).1.messageBuffer)).toList ++
            told frames (x.next s)

/-- The handlers call what they like, and whatever arrives may arrive in between. -/
def Fair (s : UdcServerImpl) (x : Frame) : Prop :=
  Throughout (fun s op => op.Admissible s) (udcProcessEvents s x.order x.time).1 x.handler

instance (s : UdcServerImpl) (x : Frame) : Decidable (Fair s x) :=
  inferInstanceAs (Decidable (Throughout _ _ _))

/-- The handlers that are there are called in turn, up to a message whose handler is not. -/
structure Tells (subscribed : Handler → Bool) (frames : List Frame) (s : UdcServerImpl)
    (p : Processed) : Prop where
  invocations : p.invocations
    = ((told frames s).takeWhile fun i => !Missed subscribed i).filter fun i => subscribed i.handler
  threw : ∀ e, p.ending = .threw e ↔
    e = .nullReference ∧ ∃ i ∈ told frames s, Missed subscribed i = true
  returned : p.ending = .returned ↔
    (∀ i ∈ told frames s, Missed subscribed i = false) ∧
      Once Frame.next (fun s x => x.event s = none) s frames

section Loop

variable {s : UdcServerImpl} {x : Frame} {frames : List Frame} {subscribed : Handler → Bool}
  {e : UdcEvent} {m_buffer : UdcServerImpl → List UInt8}

theorem told_cons (he : x.event s = some e) : told (x :: frames) s
    = (invocation (e.report (udcProcessEvents s x.order x.time).1.messageBuffer)).toList
      ++ told frames (x.next s) := by
  rw [told, he]

theorem size_next (hfair : Fair s x) : (x.next s).messageBufferSize = s.messageBufferSize :=
  run_stages (P := fun t => t.messageBufferSize = s.messageBufferSize)
    (fun _ _ _ ht hstage => hstage.size.trans ht) x.handler _ hfair
    (size_udcProcessEvents s x.order x.time)

theorem tells_null (he : x.event s = none) :
    Tells subscribed (x :: frames) s (processEvents m_buffer subscribed (x :: frames) s) := by
  have htold : told (x :: frames) s = [] := by rw [told, he]
  have honce : Once Frame.next (fun s x => x.event s = none) s (x :: frames) :=
    once_cons.mpr (Or.inl he)
  have heq : processEvents m_buffer subscribed (x :: frames) s
      = ⟨(udcProcessEvents s x.order x.time).1, [], .returned⟩ := by
    rw [processEvents, he]
  rw [heq]
  refine ⟨by rw [htold]; rfl, fun e => ?_, ?_⟩
  · rw [htold]
    simp
  · rw [htold]
    simp [honce]

theorem tells_missed (he : x.event s = some e) {i : Invocation}
    (hinvocation : invocation
      (e.report (udcProcessEvents s x.order x.time).1.messageBuffer) = some i)
    (hmissed : Missed subscribed i = true) {p : Processed} (hnone : p.invocations = [])
    (hthrew : p.ending = .threw .nullReference) : Tells subscribed (x :: frames) s p := by
  have htold : told (x :: frames) s = i :: told frames (x.next s) := by
    rw [told_cons he, hinvocation]
    rfl
  refine ⟨?_, fun e' => ?_, ?_⟩
  · rw [htold, hnone, List.takeWhile_cons, hmissed]
    rfl
  · rw [htold, hthrew]
    constructor
    · intro h
      cases h
      exact ⟨rfl, i, List.mem_cons_self, hmissed⟩
    · rintro ⟨rfl, -⟩
      rfl
  · rw [htold, hthrew]
    refine iff_of_false nofun ?_
    rintro ⟨hall, -⟩
    rw [hall i List.mem_cons_self] at hmissed
    cases hmissed

theorem tells_heeded (he : x.event s = some e)
    (hheeded : ∀ i, invocation (e.report (udcProcessEvents s x.order x.time).1.messageBuffer)
      = some i → Missed subscribed i = false) {p : Processed}
    (h : Tells subscribed frames (x.next s) p) :
    Tells subscribed (x :: frames) s
      { p with
        invocations := ((invocation (e.report
          (udcProcessEvents s x.order x.time).1.messageBuffer)).toList.filter
            fun i => subscribed i.handler) ++ p.invocations } := by
  have htold : told (x :: frames) s = _ := told_cons he
  generalize invocation (e.report (udcProcessEvents s x.order x.time).1.messageBuffer) = said at *
  have honce : Once Frame.next (fun s x => x.event s = none) s (x :: frames) ↔
      Once Frame.next (fun s x => x.event s = none) (x.next s) frames := by
    rw [once_cons, he]
    simp
  cases said with
  | none =>
      rw [Option.toList_none, List.nil_append] at htold
      refine ⟨?_, fun e' => ?_, ?_⟩
      · rw [htold]
        exact h.invocations
      · rw [htold]
        exact h.threw e'
      · rw [htold, honce]
        exact h.returned
  | some i =>
      have hi := hheeded i rfl
      rw [Option.toList_some, List.singleton_append] at htold
      refine ⟨?_, fun e' => ?_, ?_⟩
      · rw [htold, List.takeWhile_cons, hi, Bool.not_false, if_pos rfl, List.filter_cons]
        simp only [Option.toList_some, List.filter_cons, List.filter_nil, h.invocations]
        split <;> rfl
      · rw [htold, h.threw e']
        simp [hi]
      · rw [htold, honce, h.returned, List.forall_mem_cons]
        simp [hi]

/-- What a call of `ProcessEvents` does, in any state of a server with a small enough buffer. -/
theorem tells_processEvents (hplace : InPlace m_buffer) (subscribed : Handler → Bool)
    (frames : List Frame) :
    ∀ s, s.messageBufferSize < 2 ^ 31 → Always Frame.next Fair s frames →
      Tells subscribed frames s (processEvents m_buffer subscribed frames s) := by
  induction frames with
  | nil =>
      intro s _ _
      exact ⟨rfl, fun e => by simp [processEvents, told], by simp [processEvents, once_nil]⟩
  | cons x frames ih =>
      intro s hsmall hframes
      cases he : x.event s with
      | none => exact tells_null he
      | some e =>
          obtain ⟨n, hn, hpoints⟩ := udcProcessEvents_points x.order he
          have hsize := size_udcProcessEvents s x.order x.time
          have hbuffer : (udcProcessEvents s x.order x.time).1.messageBuffer.size < 2 ^ 31 :=
            Nat.lt_of_le_of_lt (Nat.le_of_eq hsize) hsmall
          have hdispatch := dispatch_eq hpoints hn hbuffer subscribed
          have hrest := ih (x.next s) (by rw [size_next hframes.1]; exact hsmall) hframes.2
          unfold processEvents
          simp only [he, hplace _]
          by_cases hmissed : ∃ i, invocation (e.report
              (udcProcessEvents s x.order x.time).1.messageBuffer) = some i ∧
                Missed subscribed i = true
          · obtain ⟨i, hsaid, hmissed⟩ := hmissed
            rw [hdispatch, hsaid, answer_missed hmissed]
            exact tells_missed he hsaid hmissed rfl rfl
          · have hheeded : ∀ i, invocation (e.report
                (udcProcessEvents s x.order x.time).1.messageBuffer) = some i →
                  Missed subscribed i = false := by
              intro i hsaid
              exact Bool.eq_false_iff.mpr fun h => hmissed ⟨i, hsaid, h⟩
            rw [hdispatch, answer_heeded hheeded]
            exact tells_heeded he hheeded hrest

/--
**`ProcessEvents` calls the handlers there are, each with what its event says**, in the life
of a server the wrapper has made, as long as the array stays in place.  It never hands out more
than the buffer, it returns at the first null pointer, and it throws exactly if a message comes
and nobody has subscribed to it.
-/
theorem processEvents_tells {signature : UdcSignature} {bufferSize : Nat} {allocated : Bool}
    {server : UdcServerImpl} {ops : List Op} (hplace : InPlace m_buffer)
    (hnew : Wrapper.new signature bufferSize allocated = .ok server)
    (h : Throughout (fun s op => op.Admissible s) server ops)
    (hframes : Always Frame.next Fair (runState server ops) frames) :
    Tells subscribed frames (runState server ops)
      (processEvents m_buffer subscribed frames (runState server ops)) := by
  have hsize : (runState server ops).messageBufferSize = server.messageBufferSize :=
    run_stages (P := fun t => t.messageBufferSize = server.messageBufferSize)
      (fun _ _ _ ht hstage => hstage.size.trans ht) ops _ h rfl
  refine tells_processEvents hplace subscribed frames _ ?_ hframes
  rw [hsize]
  exact size_new hnew

/-- Two connections are lost, of which nobody wants to know, and then a message comes. -/
def lostFrames : List Frame :=
  [⟨[1, 2], exampleTime + 100,
      [.arriveIPv4 0 (.datagram ⟨exampleIP 9, 9, [1, 2, 3, 4, 4, 65], default⟩)]⟩,
    ⟨[2, 1], exampleTime + 100, []⟩, ⟨[1, 2], exampleTime + 100, []⟩,
    ⟨[1, 2], exampleTime + 100, []⟩]

/-- An array that the library's pointer stays right for. -/
def bufferInPlace (s : UdcServerImpl) : List UInt8 := s.messageBuffer.bytes

theorem processEvents_tells_message :
    (processEvents bufferInPlace (· != .onConnectionLost) lostFrames
          (runState exampleServer bothOps)).invocations
        = [.onReceivedMessageIPv4 (exampleIP 9) 9 ⟨5, [65]⟩] ∧
      (processEvents bufferInPlace (· != .onConnectionLost) lostFrames
          (runState exampleServer bothOps)).ending = .returned := by
  have htold : told lostFrames (runState exampleServer bothOps)
      = [.onConnectionLost 1, .onConnectionLost 2,
          .onReceivedMessageIPv4 (exampleIP 9) 9 ⟨5, [65]⟩] := by
    decide +kernel
  have h : Tells (· != .onConnectionLost) lostFrames (runState exampleServer bothOps)
      (processEvents bufferInPlace (· != .onConnectionLost) lostFrames
        (runState exampleServer bothOps)) :=
    processEvents_tells (fun _ => rfl)
      (show Wrapper.new exampleSignature 7 true = .ok exampleServer from rfl)
      (by decide +kernel) (by decide +kernel)
  refine ⟨h.invocations.trans ?_, h.returned.mpr ⟨?_, ?_⟩⟩
  · rw [htold]
    rfl
  · rw [htold]
    decide
  · exact ⟨lostFrames.take 3, ⟨[1, 2], exampleTime + 100, []⟩, [], rfl, by decide +kernel⟩

end Loop

end Wrapper

end UdpConnect
