/-
Sessions that follow each other over the same two addresses.

Disconnecting drops A's client but not what is in flight, and B forgets nothing.  Over
FIFO channels a later session starts on an empty link all the same: the handshake that
A accepts answers a request of the new endpoint, and whatever the earlier session left
in flight was in front of it.

`Pair.items` is the word of what matters in flight in either direction, with the stamps
of its datagrams, those on their way to A first.  B answers in place, so that the word
only ever loses items at B and at the network, and A takes from its front and adds to
its end (`Session.items`).  Its stamps rise from the front to the end, which is all the
argument needs.

`Phase` says which endpoint A has: none, one that is connecting, or one that is
connected.
-/
import UdpConnect.Proofs.Sender

namespace UdpConnect

open Memory AlternatingBit

/-! ### Items -/

/-- What there is to know about a datagram that is part of a connection. -/
inductive Item where
  | reliable
  | connection (endPointId : UdcEndPointId)
deriving DecidableEq

/-- A message that A sends to B. -/
def Message.outward : Message → Option Item
  | .reliable _ _ _ => some .reliable
  | .connectionRequest endPointId => some (.connection endPointId)
  | _ => none

/-- A message that B answers A with. -/
def Message.inward : Message → Option Item
  | .reliableHandshake _ _ => some .reliable
  | .connectionHandshake endPointId => some (.connection endPointId)
  | _ => none

/-- A packet as an item, with its stamp. -/
def itemOf (read : Message → Option Item) (signature : UdcSignature) (p : Packet) :
    Option (Item × Nat) :=
  ((decode signature.bytes p.bytes).bind read).map fun item => (item, p.mark.stamp)

/-- What is in flight, on its way to A first, and oldest first. -/
def Pair.items (w : Wiring) (s : Pair) : List (Item × Nat) :=
  (s.inFlightA w).filterMap (itemOf Message.inward s.a.packetSignature) ++
    (s.inFlightB w).filterMap (itemOf Message.outward s.b.packetSignature)

section Items

variable {signature signature' : UdcSignature} {m m' : Message} {read : Message → Option Item}
  {p : Protocol} {address : UdcAddressMux} {time : Milliseconds}

/-- A message that is read under another signature is the message that was sent. -/
theorem decode_of_encode (h : decode signature'.bytes (encode signature.bytes m) = some m')
    (hm : m.WF) : m' = m := by
  obtain ⟨hencode, hm'⟩ := encode_of_decode h
  simp only [encode] at hencode
  obtain ⟨-, hrest⟩ := List.append_inj hencode (signature'.size.trans signature.size.symm)
  obtain ⟨hid, hbody⟩ := List.cons.inj hrest
  have hread := decodeBody_body hm'
  rw [toByte_injective hid, hbody, decodeBody_body hm] at hread
  exact (Option.some.inj hread).symm

theorem itemOf_unread {packet : Packet}
    (h : ∀ m, decode signature.bytes packet.bytes = some m → read m = none) :
    itemOf read signature packet = none := by
  unfold itemOf
  cases hd : decode signature.bytes packet.bytes with
  | none => rfl
  | some m => rw [Option.bind_some, h m hd, Option.map_none]

/-- There is at most one reply, and it is of the kind of the message it answers. -/
theorem handle_reply (p : Protocol) (address : UdcAddressMux) (time : Milliseconds)
    (hm : m.WF) : (p.handle address time m).sends = [] ∨
    ∃ reply, (p.handle address time m).sends = [(address, reply)] ∧ reply.WF ∧
      reply.inward = m.outward ∧ reply.outward = none := by
  cases m with
  | connectionRequest endPointId => exact Or.inr ⟨_, rfl, hm, rfl, rfl⟩
  | connectionHandshake endPointId => exact Or.inl (handshake_sends endPointId)
  | ping timeStamp => exact Or.inr ⟨_, rfl, hm, rfl, rfl⟩
  | pong timeStamp => exact Or.inl (answer_sends timeStamp id)
  | unreliable data => exact Or.inl rfl
  | reliable kind timeStamp data =>
      cases kind with
      | reset => exact Or.inr ⟨_, rfl, hm.1, rfl, rfl⟩
      | bit b => exact Or.inr ⟨_, rfl, hm, rfl, rfl⟩
  | reliableHandshake kind timeStamp => exact Or.inl (answer_sends timeStamp _)

/-- A reply reads as the item it answers, or as none. -/
theorem items_reply (signature signature' : UdcSignature) (p : Protocol) (time : Milliseconds)
    (mark : Mark) {packet : Packet} (hmark : packet.mark = mark)
    (q : Packet → Bool) :
    (((replyPackets signature mark (p.react signature time packet).sends).filter q).filterMap
      (itemOf Message.inward signature')).Sublist
        (itemOf Message.outward signature packet).toList := by
  unfold Protocol.react
  cases hd : decode signature.bytes packet.bytes with
  | none => exact List.nil_sublist _
  | some m =>
      obtain ⟨-, hm⟩ := encode_of_decode hd
      rcases handle_reply p packet.address time hm with
        hnone | ⟨reply, hsends, hreply, hinward, -⟩
      · rw [show (p.handle packet.address time m).sends = [] from hnone]
        exact List.nil_sublist _
      · have hitem : itemOf Message.outward signature packet
            = m.outward.map fun item => (item, mark.stamp) := by
          rw [itemOf, hd, hmark]
          rfl
        rw [show (p.handle packet.address time m).sends = _ from hsends, hitem]
        refine ((List.filter_sublist (p := q)).filterMap _).trans ?_
        show (List.filterMap _ [_]).Sublist _
        rw [List.filterMap_cons, itemOf]
        cases hr : decode signature'.bytes (encode signature.bytes reply) with
        | none => exact List.nil_sublist _
        | some m' =>
            rw [decode_of_encode hr hreply, Option.bind_some, hinward]
            cases m.outward with
            | none => exact List.nil_sublist _
            | some item => exact List.Sublist.refl _

/-- A's replies are not items. -/
theorem items_reply_outward (signature signature' : UdcSignature) (p : Protocol)
    (time : Milliseconds) (mark : Mark) (packet : Packet) (q : Packet → Bool) :
    ((replyPackets signature mark (p.react signature time packet).sends).filter q).filterMap
      (itemOf Message.outward signature') = [] := by
  refine List.filterMap_eq_nil_iff.mpr fun x hx => ?_
  obtain ⟨y, hy, rfl⟩ := List.mem_map.mp (List.mem_filter.mp hx).1
  unfold Protocol.react at hy
  cases hd : decode signature.bytes packet.bytes with
  | none =>
      rw [hd] at hy
      cases hy
  | some m =>
      rw [hd] at hy
      obtain ⟨-, hm⟩ := encode_of_decode hd
      rcases handle_reply p packet.address time hm with
        hnone | ⟨reply, hsends, hreply, -, houtward⟩
      · rw [show (p.handle packet.address time m).sends = [] from hnone] at hy
        cases hy
      · rw [show (p.handle packet.address time m).sends = _ from hsends] at hy
        rw [List.mem_singleton.mp hy]
        refine itemOf_unread fun m' hm' => ?_
        rw [decode_of_encode hm' hreply]
        exact houtward

end Items

/-! ### The word under B's call and A's -/

section Word

variable {w : Wiring} {s : Pair} {srv srv' : UdcServerImpl} {packet : Packet}
  {time : Milliseconds} {event : Option UdcEvent} {new got : List Packet}

/-- B's turn moves the item it answers to the end of what is on its way to A, or loses it. -/
theorem items_turnB (hlistens : Listens (socketFor w.addressA w.socketB) w.addressA s.b.socket)
    (hturn : Turn time s.b packet srv event) :
    ((s.afterTurnB w srv packet (s.b.protocol.react s.b.packetSignature time packet)).items
      w).Sublist (s.items w) := by
  obtain ⟨hinbox, -⟩ := hlistens.taken hturn.taken
  have hreply := items_reply s.b.packetSignature s.a.packetSignature s.b.protocol time
    packet.mark rfl (fun x => decide (x.address = w.addressA))
  unfold Pair.items Pair.inFlightA Pair.inFlightB
  simp only [Pair.afterTurnB, hinbox, hturn.signature, List.cons_append, List.filterMap_append,
    filterMap_cons_toList, List.append_assoc]
  exact List.Sublist.append_left (List.Sublist.append_left
    (List.Sublist.append_right hreply _) _) _

/-- B in the middle of a call has only lost items. -/
structure MidB (w : Wiring) (s : Pair) (srv : UdcServerImpl) (new : List Packet) : Prop where
  signature : srv.packetSignature = s.b.packetSignature
  sent : srv.socket.history.sent = s.b.socket.history.sent ++ new
  listens : Listens (socketFor w.addressA w.socketB) w.addressA srv.socket
  items : ((s.during w srv new [] []).items w).Sublist (s.items w)

theorem midB_turn (h : MidB w s srv new) (hturn : Turn time srv packet srv' event) :
    MidB w s srv' (new ++ replyPackets srv.packetSignature packet.mark
      (srv.protocol.react srv.packetSignature time packet).sends) where
  signature := hturn.signature.trans h.signature
  sent := by
    rw [hturn.sent, h.sent, List.append_assoc]
    rfl
  listens := h.listens.shrinks hturn.drained
  items := by
    refine List.Sublist.trans ?_ h.items
    have hstep := items_turnB (s := s.during w srv new [] []) h.listens hturn
    have hsame : ((s.during w srv new [] []).afterTurnB w srv' packet
        (srv.protocol.react srv.packetSignature time packet)).items w
        = (s.during w srv' (new ++ replyPackets srv.packetSignature packet.mark
            (srv.protocol.react srv.packetSignature time packet).sends) [] []).items w := by
      simp [Pair.items, Pair.inFlightA, Pair.inFlightB, Pair.during, Pair.afterTurnB]
    rw [← hsame]
    exact hstep

theorem midB_stop (h : MidB w s srv new) (hlast : LastTurn srv srv') : MidB w s srv' new where
  signature := hlast.signature.trans h.signature
  sent := hlast.sent.trans h.sent
  listens := h.listens.shrinks hlast.drained
  items := by
    refine List.Sublist.trans ?_ h.items
    unfold Pair.items Pair.inFlightB
    simp only [Pair.during, hlast.signature]
    refine List.Sublist.append_left (List.Sublist.filterMap _ (List.Sublist.append_right ?_ _)) _
    rcases hlast.drained (socketFor w.addressA w.socketB) with hsame | ⟨p, hcons⟩
    · rw [hsame]
    · rw [hcons]
      exact List.sublist_cons_self p _

/-- A call of B loses items, and does nothing else to the word. -/
theorem receiveB_items (hlistens : Listens (socketFor w.addressA w.socketB) w.addressA s.b.socket)
    (time : Milliseconds) :
    ((s.receiveB w time).items w).Sublist (s.items w) ∧
      Listens (socketFor w.addressA w.socketB) w.addressA (s.receiveB w time).b.socket := by
  have hstart : MidB w s s.b [] := by
    refine ⟨rfl, (List.append_nil _).symm, hlistens, ?_⟩
    simp only [Pair.items, Pair.inFlightA, Pair.inFlightB, Pair.during, List.filter_nil,
      List.append_nil]
    exact List.Sublist.refl _
  obtain ⟨new, hmid⟩ : ∃ new, MidB w s (s.b.receiveMessages time).1 new := by
    refine receiveMessages_rule time (P := fun srv => ∃ new, MidB w s srv new)
      (Q := fun srv _ => ∃ new, MidB w s srv new) (C := fun _ => True) ?_ ?_ ?_
      (fun _ _ => trivial) ⟨[], hstart⟩
    · rintro srv srv' ⟨new, h⟩ hlast
      exact ⟨new, midB_stop h hlast⟩
    · rintro srv p srv' ⟨new, h⟩ hturn -
      exact ⟨_, midB_turn h hturn⟩
    · rintro srv p srv' e ⟨new, h⟩ hturn -
      exact ⟨_, midB_turn h hturn⟩
  have hnew : newPackets w.addressA s.b (s.b.receiveMessages time).1
      = new.filter (·.address = w.addressA) := by
    rw [newPackets, hmid.sent, List.drop_left]
  refine ⟨?_, hmid.listens⟩
  have hsame : (s.receiveB w time).items w
      = (s.during w (s.b.receiveMessages time).1 new [] []).items w := by
    simp only [Pair.items, Pair.inFlightA, Pair.inFlightB, Pair.receiveB, Pair.during, hnew]
  rw [hsame]
  exact hmid.items

/-- A's turn takes the item in front. -/
theorem items_turnA (hlistens : Listens (socketFor w.addressB w.socketA) w.addressB srv.socket)
    (hturn : Turn time srv packet srv' event) :
    (s.duringA w srv new).items w = (itemOf Message.inward srv.packetSignature packet).toList ++
      (s.duringA w srv' (new ++ replyPackets srv.packetSignature packet.mark
        (srv.protocol.react srv.packetSignature time packet).sends)).items w := by
  obtain ⟨hinbox, -⟩ := hlistens.taken hturn.taken
  have hreply := items_reply_outward srv.packetSignature s.b.packetSignature srv.protocol time
    packet.mark packet (fun x => decide (x.address = w.addressB))
  unfold Pair.items Pair.inFlightA Pair.inFlightB
  simp only [Pair.duringA, hinbox, hturn.signature, List.cons_append, List.filterMap_append,
    filterMap_cons_toList, List.filter_append, hreply, List.append_nil, List.append_assoc]

end Word

/-! ### Phases -/

/-- The endpoint that A has. -/
inductive Phase where
  | idle
  | waiting (endPointId : UdcEndPointId) (r : ClientRef)
  | connected (endPointId : UdcEndPointId) (r : ClientRef)

structure Idle (p : Protocol) : Prop where
  byId : ∀ i, p.clientsById.lookup i = none
  byAddress : ∀ a, p.clientsByAddress.lookup a = none
  pending : p.pendingClients = []

structure Waiting (w : Wiring) (endPointId : UdcEndPointId) (r : ClientRef) (p : Protocol) :
    Prop where
  byId : ∀ i, p.clientsById.lookup i = none
  byAddress : ∀ a, p.clientsByAddress.lookup a = none
  pending : p.pendingClients = [r]
  id : (p.heap r).id = endPointId
  outgoing : (p.heap r).outgoingAddress = w.addressB
  state : (p.heap r).reliableState = 0
  queue : (p.heap r).reliableMessages = []

/-- A link on which nothing has been sent. -/
def newLink : Link Numbered where
  mode := .bit false
  queue := []
  expected := none
  data := []
  acks := []
  clock := 0
  since := 0
  base := 0
  popped := []
  reported := []
  heard := []

def InPhase (w : Wiring) (size : Nat) (p : Protocol) : Phase → Prop
  | .idle => Idle p
  | .waiting endPointId r => Waiting w endPointId r p
  | .connected endPointId r => ∃ l, Sender w endPointId r size p l

section Phases

variable {w : Wiring} {size : Nat} {p : Protocol} {time : Milliseconds} {address : UdcAddressMux}
  {m : Message} {endPointId : UdcEndPointId} {r : ClientRef}

/-- Without a client to answer, only the expected bits change. -/
theorem handle_unanswered (time : Milliseconds) (h : p.clientsByAddress.lookup address = none)
    (hm : ∀ endPointId, m ≠ .connectionHandshake endPointId) :
    ∃ states, (p.handle address time m).state = { p with reliableStates := states } := by
  have hanswer : ∀ timeStamp change, (p.answer address time timeStamp change).state = p := by
    intro timeStamp change
    unfold Protocol.answer
    rw [h]
    rfl
  cases m with
  | connectionHandshake endPointId => exact absurd rfl (hm endPointId)
  | pong timeStamp => exact ⟨_, hanswer timeStamp id⟩
  | reliableHandshake kind timeStamp => exact ⟨_, hanswer timeStamp _⟩
  | reliable kind timeStamp data => cases kind <;> exact ⟨_, rfl⟩
  | _ => exact ⟨_, rfl⟩

theorem Idle.handle (h : Idle p) (m : Message) : Idle (p.handle address time m).state := by
  by_cases hm : ∃ endPointId, m = .connectionHandshake endPointId
  · obtain ⟨endPointId, rfl⟩ := hm
    simp only [Protocol.handle, Protocol.handshake, h.pending, List.head?_nil]
    exact h
  · obtain ⟨states, hstate⟩ := handle_unanswered (m := m) time (h.byAddress address)
      fun endPointId hc => hm ⟨endPointId, hc⟩
    rw [hstate]
    exact ⟨h.byId, h.byAddress, h.pending⟩

theorem reliable_receiveConnectionHandshake (c : UdcClient) (time : Milliseconds) :
    (c.receiveConnectionHandshake time).reliableState = c.reliableState := by
  unfold UdcClient.receiveConnectionHandshake
  cases c.isConnected <;> rfl

/-- A handshake that names the waiting endpoint connects it; nothing else changes it. -/
theorem Waiting.handle (size : Nat) (time : Milliseconds) (h : Waiting w endPointId r p)
    (m : Message) :
    Waiting w endPointId r (p.handle w.addressB time m).state ∨
      (m = .connectionHandshake endPointId ∧
        Sender w endPointId r size (p.handle w.addressB time m).state newLink ∧
        (p.handle w.addressB time m).report.isSome) := by
  by_cases hm : ∃ endPointId, m = .connectionHandshake endPointId
  · obtain ⟨named, rfl⟩ := hm
    have hfree : w.addressB ∉ p.clientsByAddress := Finmap.lookup_eq_none.mp (h.byAddress _)
    simp only [Protocol.handle, Protocol.handshake, h.pending, List.head?_cons, h.id, if_neg hfree]
    by_cases hnamed : endPointId = named
    · subst hnamed
      right
      obtain ⟨hsame, -⟩ := receiveConnectionHandshake_same (p.heap r) time
      simp only [ne_eq, not_true_eq_false, if_false]
      refine ⟨trivial, ⟨fun i => ?_, fun a => ?_, rfl, ?_, ?_, ?_, fun data hdata => ?_⟩, rfl⟩
      · by_cases hi : i = endPointId
        · rw [hi, if_pos rfl]
          exact Finmap.lookup_insert _
        · rw [if_neg hi]
          exact (Finmap.lookup_insert_of_ne _ hi).trans (h.byId i)
      · by_cases ha : a = w.addressB
        · rw [ha, if_pos rfl]
          exact Finmap.lookup_insert _
        · rw [if_neg ha]
          exact (Finmap.lookup_insert_of_ne _ ha).trans (h.byAddress a)
      · show ((p.setClient r _).heap r).outgoingAddress = _
        rw [Protocol.heap_setClient_self, hsame.outgoingAddress]
        exact h.outgoing
      · show ((p.setClient r _).heap r).reliableState = _
        rw [Protocol.heap_setClient_self, reliable_receiveConnectionHandshake]
        exact h.state
      · show ((p.setClient r _).heap r).reliableMessages = _
        rw [Protocol.heap_setClient_self, queue_receiveConnectionHandshake]
        exact h.queue
      · have hqueue : ((p.setClient r ((p.heap r).receiveConnectionHandshake time)).heap
            r).reliableMessages = [] := by
          rw [Protocol.heap_setClient_self, queue_receiveConnectionHandshake]
          exact h.queue
        exact absurd (hqueue ▸ hdata) List.not_mem_nil
    · left
      rw [if_pos hnamed]
      exact h
  · left
    obtain ⟨states, hstate⟩ := handle_unanswered (m := m) time (h.byAddress w.addressB)
      fun endPointId hc => hm ⟨endPointId, hc⟩
    rw [hstate]
    exact ⟨h.byId, h.byAddress, h.pending, h.id, h.outgoing, h.state, h.queue⟩

/-- A client that is connected stays connected, whatever A receives. -/
theorem connected_handle {l : Link Numbered} (h : Sender w endPointId r size p l) (m : Message) :
    ∃ l', Sender w endPointId r size (p.handle w.addressB time m).state l' := by
  by_cases hm : m.ackKind = none
  · exact ⟨l, sender_handle_other h hm⟩
  · cases m with
    | reliableHandshake kind timeStamp =>
        by_cases htime : time < timeStamp
        · simp only [Protocol.handle, Protocol.answer, h.byAddress, if_true, if_pos htime]
          exact ⟨l, h⟩
        · exact ⟨_, sender_handle_ack h htime default []⟩
    | _ => exact absurd rfl hm

/-- **What A receives leaves it in its phase, unless it connects the waiting endpoint.** -/
theorem handle_phase (time : Milliseconds) {phase : Phase} (h : InPhase w size p phase)
    (m : Message) :
    InPhase w size (p.handle w.addressB time m).state phase ∨
      ∃ endPointId r, phase = .waiting endPointId r ∧ m = .connectionHandshake endPointId ∧
        Sender w endPointId r size (p.handle w.addressB time m).state newLink ∧
        (p.handle w.addressB time m).report.isSome := by
  cases phase with
  | idle => exact Or.inl (Idle.handle h m)
  | waiting endPointId r =>
      rcases Waiting.handle size time h m with hstay | ⟨hm, hsender, hreport⟩
      · exact Or.inl hstay
      · exact Or.inr ⟨endPointId, r, rfl, hm, hsender, hreport⟩
  | connected endPointId r =>
      obtain ⟨l, hsender⟩ := h
      exact Or.inl (connected_handle hsender m)

end Phases

end UdpConnect
