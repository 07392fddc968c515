/-
How a connection is made when nothing is lost.

A asks once, B answers without remembering anything, and A is connected after one round trip
(`meet_connects`), unless it has a connection under the address B answers from.  Then A takes no
notice of the answer, and the endpoint stays in front of the queue.
-/
import UdpConnect.Proofs.Rounds

namespace UdpConnect

open Memory AlternatingBit Swap

/-- A goes on with the connection in front of its queue, and what comes of it. -/
def Wiring.meet (w : Wiring) (x : Times) (a b : UdcServerImpl) :
    (UdcServerImpl × UdcServerImpl) × List Report × List Report :=
  let poll := a.updatePendingClients x.tick
  let out := w.deliver x.answer a poll.1 b
  (out.1, (poll.2.map (UdcEvent.report poll.1.messageBuffer)).toList ++ out.2.1, out.2.2)

/-- The endpoint in front of the queue is due to ask for its connection to B. -/
structure Asking (w : Wiring) (x : Times) (r : ClientRef) (a : UdcServerImpl) : Prop where
  front : a.pendingClients.head? = some r
  outgoing : (a.heap r).outgoingAddress = w.addressB
  early : (a.heap r).needsConnectionTimeoutEvent x.tick = false
  due : (a.heap r).needsConnectionAttempt x.tick = true

/-- A is connected to B by the endpoint. -/
structure Joined (w : Wiring) (x : Times) (r : ClientRef) (a a' : UdcServerImpl) : Prop where
  byId : a'.clientsById.lookup (a.heap r).id = some r
  byAddress : a'.clientsByAddress.lookup w.addressB = some r
  pending : a'.pendingClients = a.pendingClients.tail
  client : a'.heap r
    = ((a.heap r).retryConnecting x.tick).receiveConnectionHandshake x.answer

section Meeting

variable {w : Wiring} {r : ClientRef} {p q : Protocol} {a b : UdcServerImpl} {x : Times}
  {time : Milliseconds} {id : UdcEndPointId}
  {signature : UdcSignature} {buffer : MessageBuffer} {trace : List (Op × Outcome)}

theorem id_lt_run (run : ServerRun signature buffer trace a) :
    ∀ r < a.nextRef, (a.heap r).id < 2 ^ 32 :=
  clients_run (F := fun c => c.id < 2 ^ 32) (fun _ _ _ _ hid _ => hid)
    (fun _ _ _ _ hstep h => lt_of_eq_of_lt (congrArg Settings.id hstep.settings) h) run

/-- The turn of the queue, when its front is due. -/
theorem poll_asks (h : Asking w x r a) : a.protocol.poll x.tick
    = ⟨a.protocol.setClient r ((a.heap r).retryConnecting x.tick),
      [(w.addressB, .connectionRequest (a.heap r).id)], none⟩ := by
  unfold Protocol.poll
  rw [show a.protocol.pendingClients.head? = some r from h.front,
    show a.protocol.heap = a.heap from rfl]
  simp only [h.early, h.due, Bool.false_eq_true, if_false, if_true, h.outgoing]

/-- B answers a request, and A takes the answer for a handshake. -/
theorem talk_request (w : Wiring) (time : Milliseconds) (id : UdcEndPointId) (p q : Protocol) :
    w.talk time [.connectionRequest id] p q
      = (((p.handshake w.addressB time id).state, q),
        (p.handshake w.addressB time id).report.toList, []) := by
  simp only [Wiring.talk, each, Protocol.handle, Reaction.step, List.flatMap_cons,
    List.flatMap_nil, List.append_nil, List.map_cons, List.map_nil, List.filterMap_cons,
    List.filterMap_nil]
  cases (p.handshake w.addressB time id).report <;> rfl

/-- The answer finds the endpoint in front, unless the address is taken. -/
theorem handshake_front (hfront : p.pendingClients.head? = some r) (hid : (p.heap r).id = id) :
    p.handshake w.addressB time id =
      if w.addressB ∈ p.clientsByAddress then p.idle
      else ⟨p.accepted w.addressB time id r, [], some (.connection .connectionSuccess id)⟩ := by
  unfold Protocol.handshake
  rw [hfront]
  simp only [hid, ne_eq, not_true_eq_false, if_false]
  rfl

/--
**One round trip connects**, and B remembers nothing of it.  If A has a connection under B's
address already, the answer does nothing, and the endpoint stays where it is.
-/
theorem meet_connects (run : ServerRun signature buffer trace a) (hwired : Wired w a b)
    (h : Asking w x r a) :
    Wired w (w.meet x a b).1.1 (w.meet x a b).1.2 ∧
      (w.meet x a b).1.2.protocol = b.protocol ∧ (w.meet x a b).2.2 = [] ∧
      if w.addressB ∈ a.clientsByAddress then
        (w.meet x a b).1.1.protocol
            = a.protocol.setClient r ((a.heap r).retryConnecting x.tick) ∧
          (w.meet x a b).2.1 = []
      else
        Joined w x r a (w.meet x a b).1.1 ∧
          (w.meet x a b).2.1 = [.connection .connectionSuccess (a.heap r).id] := by
  have hr : r < a.nextRef := (rooted_serverRun run).pending r (List.mem_of_mem_head? h.front)
  have hperf := updatePendingClients_performs (s := a) x.tick
  rw [poll_asks h] at hperf
  have hsuits : ∀ y ∈ [(w.addressB, Message.connectionRequest (a.heap r).id)], Suits w a b y := by
    intro y hy
    rw [List.mem_singleton.mp hy]
    exact suits_word (length_le32 _) rfl (id_lt_run run r hr)
  obtain ⟨hkept, hstates, htold⟩ := deliver_talk hwired hperf hsuits x.answer
  have hid : ((a.protocol.setClient r ((a.heap r).retryConnecting x.tick)).heap r).id
      = (a.heap r).id := by
    rw [Protocol.heap_setClient_self]
    rfl
  have hanswer : (a.protocol.setClient r ((a.heap r).retryConnecting x.tick)).handshake w.addressB
      x.answer (a.heap r).id = _ := handshake_front h.front hid
  simp only [List.map_cons, List.map_nil, talk_request, hanswer] at hstates htold
  obtain ⟨hstateA, hstateB⟩ := Prod.mk.inj hstates
  have htold' :
      (w.meet x a b).2 = (w.deliver x.answer a (a.updatePendingClients x.tick).1 b).2 := by
    unfold Wiring.meet
    simp only [hperf.report]
    rfl
  refine ⟨hwired.kept hkept, hstateB, ?_, ?_⟩
  · rw [htold', htold]
  · by_cases htaken : w.addressB ∈ a.clientsByAddress
    · have htaken' : w.addressB ∈ (a.protocol.setClient r
        ((a.heap r).retryConnecting x.tick)).clientsByAddress := htaken
      simp only [if_pos htaken'] at hstateA htold
      rw [if_pos htaken, htold', htold]
      exact ⟨hstateA, rfl⟩
    · have hfree : w.addressB ∉ (a.protocol.setClient r
        ((a.heap r).retryConnecting x.tick)).clientsByAddress := htaken
      simp only [if_neg hfree] at hstateA htold
      rw [if_neg htaken, htold', htold]
      refine ⟨⟨?_, ?_, ?_, ?_⟩, rfl⟩
      · exact (congrArg (fun p => p.clientsById.lookup (a.heap r).id) hstateA).trans
          (Finmap.lookup_insert _)
      · exact (congrArg (fun p => p.clientsByAddress.lookup w.addressB) hstateA).trans
          (Finmap.lookup_insert _)
      · exact congrArg Protocol.pendingClients hstateA
      · refine (congrArg (fun p => p.heap r) hstateA).trans ?_
        simp [Protocol.accepted, Protocol.setClient]

/-- The first connect call has been made, and its address is free. -/
def askingOps : List Op := [.tryBindIPv4 true, .tryConnectIPv4 (exampleIP 2) 2 1000 5000]

theorem meet_connects_first : Joined exampleWiring ⟨5000, 5020⟩ 0 (runState exampleServer askingOps)
    (exampleWiring.meet ⟨5000, 5020⟩ (runState exampleServer askingOps)
      (runState exampleServer [.tryBindIPv4 true])).1.1 := by
  have run : ServerRun exampleSignature exampleBuffer (runTrace exampleServer askingOps)
      (runState exampleServer askingOps) := run_of_admissible askingOps (by decide +kernel)
  have hwired : Wired exampleWiring (runState exampleServer askingOps)
      (runState exampleServer [.tryBindIPv4 true]) := by
    refine ⟨?_, ?_, ?_, ?_, ?_, ?_⟩ <;> decide +kernel
  have hasking : Asking exampleWiring ⟨5000, 5020⟩ 0 (runState exampleServer askingOps) := by
    refine ⟨?_, ?_, ?_, ?_⟩ <;> decide +kernel
  have hfree : exampleWiring.addressB ∉ (runState exampleServer askingOps).clientsByAddress := by
    decide +kernel
  have h := (meet_connects run hwired hasking).2.2.2
  rw [if_neg hfree] at h
  exact h.1

end Meeting

end UdpConnect
