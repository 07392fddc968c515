/-
Which call sends a connection request, which one answers it, and which one reports the
success.

What a server hands to `send` is read back as a message, whatever the four bytes in front
of it: it was asked for by the call, or it answers a datagram that the call has received
(`Origin`).  So a request comes from a tick that met the client in front (`request_step`),
a handshake from a `receiveMessages` call that received a request from the same address
(`handshake_step`), and a success from one whose last datagram was a handshake for the
client in front (`success_step`).
-/
import UdpConnect.Proofs.Attempts
import UdpConnect.Proofs.Link

namespace UdpConnect

open Memory AlternatingBit

/-- The datagrams handed to `send` between two states of a server. -/
def newSent (before after : UdcServerImpl) : List Packet :=
  after.socket.history.sent.drop before.socket.history.sent.length

/-- A message that `sendReliableMessage` lets into a queue, for a buffer of this size. -/
def Sendable (size : Nat) (data : List UInt8) : Prop :=
  data.length < 2 ^ 32 ∧ u32 (9 + data.length : Nat) ≤ size

/-- What holds of a server between any two stages of its calls. -/
structure Ready (s : UdcServerImpl) : Prop where
  rooted : Rooted s.protocol
  queued : Queued (Sendable s.messageBufferSize) s.protocol

/-- Why a stage of a call has sent a packet, having received these datagrams. -/
inductive Origin (op : Op) (s : UdcServerImpl) (got : List Packet) (p : Packet) : Prop
  | asked {c : Change} {m : Message} (hasks : op.Asks s c)
      (hsend : (p.address, m) ∈ (s.protocol.change c).sends) (hbytes : p.bytes = wire s.front m)
  | reply {time : Milliseconds} {q : Packet} {m m' : Message} (hop : op = .receiveMessages time)
      (hgot : q ∈ got) (hread : decode s.packetSignature.bytes q.bytes = some m)
      (hsend : (p.address, m') ∈ (s.protocol.handle q.address time m).sends)
      (hbytes : p.bytes = encode s.packetSignature.bytes m')

/-- What the packet tells of the call that sent it, if it reads as a request or a handshake. -/
structure Tells (op : Op) (signature : UdcSignature) (got : List Packet) (p : Packet) : Prop where
  request : ∀ (reader : UdcSignature) id,
    decode reader.bytes p.bytes = some (.connectionRequest id) →
      ∃ time, op = .updatePendingClients time
  handshake : ∀ (reader : UdcSignature) id,
    decode reader.bytes p.bytes = some (.connectionHandshake id) →
      p.bytes = encode signature.bytes (.connectionHandshake id) ∧
        ∃ time, op = .receiveMessages time ∧ ∃ q ∈ got, q.address = p.address ∧
          decode signature.bytes q.bytes = some (.connectionRequest id)

/-! ### Reading what was sent -/

section Reading

variable {front : List UInt8} {reader : UdcSignature} {m : Message} {p : Protocol} {c : Change}
  {time : Milliseconds} {address : UdcAddressMux} {id : UdcEndPointId}

theorem le32_injective {n k : Nat} (hn : n < 2 ^ 32) (hk : k < 2 ^ 32) (h : le32 n = le32 k) :
    n = k := by
  have hword := congrArg ofLe32 h
  rw [ofLe32_le32, ofLe32_le32, Nat.mod_eq_of_lt hn, Nat.mod_eq_of_lt hk] at hword
  exact hword

/-- A message that is one word is read with the word it was sent with. -/
theorem read_word {m' : Message} (hfront : front.length = 4) (hword : m.body.length = 4)
    (h : decode reader.bytes (wire front m) = some m') : m'.body = m.body := by
  obtain ⟨-, hbody⟩ := decode_wire hfront h
  have hlen : (encode front m).length = 9 := by
    simp [encode, hfront, hword]
  rw [hlen] at hbody
  exact hbody.trans (List.take_of_length_le (Nat.le_of_eq hword))

/-- What reads as a request is one, and its word is the id. -/
theorem read_request (hfront : front.length = 4)
    (h : decode reader.bytes (wire front m) = some (.connectionRequest id)) :
    ∃ i, m = .connectionRequest i ∧ le32 id = le32 i := by
  obtain ⟨hid, -⟩ := decode_wire hfront h
  cases m with
  | connectionRequest i =>
      exact ⟨i, rfl, read_word (m := .connectionRequest i) hfront (length_le32 i) h⟩
  | reliable kind timeStamp data => rcases kind with _ | _ | _ <;> cases hid
  | reliableHandshake kind timeStamp => rcases kind with _ | _ | _ <;> cases hid
  | _ => cases hid

/-- What reads as a handshake is one, and its word is the id. -/
theorem read_handshake (hfront : front.length = 4)
    (h : decode reader.bytes (wire front m) = some (.connectionHandshake id)) :
    ∃ i, m = .connectionHandshake i ∧ le32 id = le32 i := by
  obtain ⟨hid, -⟩ := decode_wire hfront h
  cases m with
  | connectionHandshake i =>
      exact ⟨i, rfl, read_word (m := .connectionHandshake i) hfront (length_le32 i) h⟩
  | reliable kind timeStamp data => rcases kind with _ | _ | _ <;> cases hid
  | reliableHandshake kind timeStamp => rcases kind with _ | _ | _ <;> cases hid
  | _ => cases hid

/-- What a message is answered with. -/
theorem handle_answers {x : UdcAddressMux × Message} {m : Message}
    (h : x ∈ (p.handle address time m).sends) :
    (∃ i, m = .connectionRequest i ∧ x = (address, .connectionHandshake i)) ∨
      (∃ timeStamp, x.2 = .pong timeStamp) ∨
        ∃ kind timeStamp, x.2 = .reliableHandshake kind timeStamp := by
  cases m with
  | connectionRequest i => exact Or.inl ⟨i, rfl, List.mem_singleton.mp h⟩
  | connectionHandshake i =>
      rw [show (p.handle address time (.connectionHandshake i)).sends = [] from
        handshake_sends i] at h
      cases h
  | ping timeStamp => exact Or.inr (Or.inl ⟨timeStamp, by rw [List.mem_singleton.mp h]⟩)
  | pong timeStamp =>
      rw [show (p.handle address time (.pong timeStamp)).sends = [] from
        answer_sends timeStamp _] at h
      cases h
  | unreliable data => cases h
  | reliable kind timeStamp data =>
      refine Or.inr (Or.inr ⟨kind, timeStamp, ?_⟩)
      cases kind <;> rw [List.mem_singleton.mp h]
  | reliableHandshake kind timeStamp =>
      rw [show (p.handle address time (.reliableHandshake kind timeStamp)).sends = [] from
        answer_sends timeStamp _] at h
      cases h

/-- The messages that a connection is made with. -/
def Message.Connecting (m : Message) : Prop :=
  (∃ i, m = .connectionRequest i) ∨ ∃ i, m = .connectionHandshake i

/-- Only a poll and a datagram make a server send one. -/
theorem connecting_change (h : (address, m) ∈ (p.change c).sends) (hm : m.Connecting) :
    (∃ time, c = .poll time) ∨ ∃ address' time m', c = .handle address' time m' := by
  cases c with
  | connect address' timeout time =>
      simp only [Protocol.change, Protocol.connect] at h
      split at h <;> cases h
  | disconnect endPointId => cases h
  | push endPointId data => cases h
  | say endPointId data =>
      obtain rfl : m = .unreliable data := (say_sends h).1
      rcases hm with ⟨i, hm⟩ | ⟨i, hm⟩ <;> cases hm
  | poll time => exact Or.inl ⟨time, rfl⟩
  | tick endPointId time =>
      have hother : ¬ m.Connecting := by
        obtain ⟨r, -, -, rfl | hsend⟩ := tick_sends h
        · rintro (⟨i, hi⟩ | ⟨i, hi⟩) <;> cases hi
        · rcases mem_sendReliable hsend with ⟨-, rfl⟩ | ⟨-, msg, -, rfl⟩ <;>
            rintro (⟨i, hi⟩ | ⟨i, hi⟩) <;> cases hi
      exact absurd hm hother
  | handle address' time m' => exact Or.inr ⟨address', time, m', rfl⟩

/-- A request is sent by a tick only, for the client in front. -/
theorem request_change (h : (address, .connectionRequest id) ∈ (p.change c).sends) :
    ∃ time r, c = .poll time ∧ p.pendingClients.head? = some r ∧
      address = (p.heap r).outgoingAddress ∧ id = (p.heap r).id := by
  rcases connecting_change h (Or.inl ⟨id, rfl⟩) with ⟨time, rfl⟩ | ⟨address', time, m, rfl⟩
  · simp only [Protocol.change, Protocol.poll] at h
    cases hfront : p.pendingClients.head? with
    | none =>
        rw [hfront] at h
        cases h
    | some r =>
        rw [hfront] at h
        simp only at h
        split at h
        · cases h
        · split at h
          · obtain ⟨haddress, hid⟩ := Prod.mk.inj (List.mem_singleton.mp h)
            exact ⟨time, r, rfl, rfl, haddress, Message.connectionRequest.inj hid⟩
          · cases h
  · rcases handle_answers h with ⟨i, -, hx⟩ | ⟨timeStamp, hx⟩ | ⟨kind, timeStamp, hx⟩ <;> cases hx

/-- A handshake answers a request from the same address, and has its id. -/
theorem handshake_change (h : (address, .connectionHandshake id) ∈ (p.change c).sends) :
    ∃ time, c = .handle address time (.connectionRequest id) := by
  rcases connecting_change h (Or.inr ⟨id, rfl⟩) with ⟨time, rfl⟩ | ⟨address', time, m, rfl⟩
  · cases (poll_sends h).choose_spec
  · rcases handle_answers h with ⟨i, rfl, hx⟩ | ⟨timeStamp, hx⟩ | ⟨kind, timeStamp, hx⟩
    · cases hx
      exact ⟨time, rfl⟩
    · cases hx
    · cases hx

end Reading

/-! ### One stage -/

section Stages

variable {s s' : UdcServerImpl} {op : Op} {p : Packet} {got : List Packet}

theorem ready_new (signature : UdcSignature) (buffer : MessageBuffer) :
    Ready (.new signature buffer) where
  rooted := rooted_new signature buffer
  queued := by
    intro r msg hmsg
    cases hmsg

theorem ready_stage (h : Ready s) (hstage : Stage op s s') : Ready s' where
  rooted := rooted_stage h.rooted hstage
  queued := by
    rw [hstage.size]
    apply queued_stage h.queued hstage
    intro endPointId data _ hlen hfits
    exact ⟨hlen, hfits⟩

/-- Whatever a call asks to be sent fits into the buffer. -/
theorem fits_asked (h : Ready s) {c : Change} (hasks : op.Asks s c) :
    ∀ x ∈ (s.protocol.change c).sends, x.2.Fits s.messageBufferSize := by
  intro x hx
  cases hasks with
  | connectIPv4 ip port timeout time | connectIPv6 ip port timeout time =>
      simp only [Protocol.change, Protocol.connect] at hx
      split at hx <;> cases hx
  | disconnect endPointId => cases hx
  | say endPointId hfits =>
      rw [(say_sends hx).1]
      exact hfits
  | push endPointId hlen hfits => cases hx
  | poll time =>
      obtain ⟨endPointId, hrequest⟩ := poll_sends hx
      rw [hrequest]
      exact fits_word (nine_le s) rfl (length_le32 _)
  | tick time order endPointId =>
      obtain ⟨r, -, -, hping | hsend⟩ := tick_sends hx
      · rw [hping]
        exact fits_word (nine_le s) rfl (length_le32 _)
      · rcases mem_sendReliable hsend with ⟨-, hm⟩ | ⟨-, msg, hfront, hm⟩
        · rw [hm]
          exact fits_word (nine_le s) rfl (length_le32 _)
        · obtain ⟨hlen, hfits⟩ := h.queued r msg (List.mem_of_mem_head? hfront)
          rw [hm]
          exact fits_reliable hlen hfits

/-- What a stage sends and receives. -/
theorem stage_origin (h : Ready s) (hstage : Stage op s s') : ∃ new got,
    s'.socket.history.sent = s.socket.history.sent ++ new ∧
      s'.socket.history.received = s.socket.history.received ++ got ∧
      ∀ p ∈ new, Origin op s got p := by
  cases hstage with
  | quiet hquiet =>
      refine ⟨[], [], hquiet.sent.trans (List.append_nil _).symm,
        hquiet.received.trans (List.append_nil _).symm, ?_⟩
      intro p hp
      cases hp
  | call hasks hperf hstate hsends =>
      obtain ⟨new, hsocket, hnew⟩ := hperf.socket
      refine ⟨new, [], by rw [hsocket], by rw [hsocket, List.append_nil], ?_⟩
      intro p hp
      rw [hnew (by rw [hsends]; exact fits_asked h hasks), hsends] at hp
      obtain ⟨x, hx, rfl⟩ := List.mem_map.mp hp
      exact .asked hasks hx rfl
  | @turn time packet event hop hturn =>
      refine ⟨_, [packet], hturn.sent, hturn.received, ?_⟩
      intro p hp
      obtain ⟨x, hx, rfl⟩ := List.mem_map.mp hp
      unfold Protocol.react at hx
      cases hm : decode s.packetSignature.bytes packet.bytes with
      | none =>
          rw [hm] at hx
          cases hx
      | some m =>
          rw [hm] at hx
          exact .reply hop List.mem_cons_self hm hx rfl

/-- Reading a packet tells what call it is from. -/
theorem Origin.tells (h : Origin op s got p) : Tells op s.packetSignature got p := by
  cases h with
  | @asked c m hasks hsend hbytes =>
      refine ⟨?_, ?_⟩
      · intro reader id hread
        rw [hbytes] at hread
        obtain ⟨i, rfl, -⟩ := read_request length_front hread
        obtain ⟨time, r, rfl, -⟩ := request_change hsend
        cases hasks with
        | poll time => exact ⟨time, rfl⟩
      · intro reader id hread
        rw [hbytes] at hread
        obtain ⟨i, rfl, -⟩ := read_handshake length_front hread
        obtain ⟨time, rfl⟩ := handshake_change hsend
        cases hasks
  | @reply time q m m' hop hgot hread hsend hbytes =>
      have hwire : p.bytes = wire s.packetSignature.bytes m' := by
        rw [hbytes, wire_word s.packetSignature.size (handle_replies hsend).2.1]
      refine ⟨?_, ?_⟩
      · intro reader id hrequest
        rw [hwire] at hrequest
        obtain ⟨i, rfl, -⟩ := read_request s.packetSignature.size hrequest
        obtain ⟨time', r, hc, -⟩ := request_change (c := .handle q.address time m) hsend
        cases hc
      · intro reader id hhandshake
        rw [hwire] at hhandshake
        obtain ⟨i, rfl, hword⟩ := read_handshake s.packetSignature.size hhandshake
        obtain ⟨time', hc⟩ := handshake_change (c := .handle q.address time m) hsend
        obtain ⟨haddress, -, rfl⟩ := Change.handle.inj hc
        obtain ⟨-, hlt⟩ := encode_of_decode hhandshake
        obtain ⟨-, hlt'⟩ := encode_of_decode hread
        obtain rfl : id = i := le32_injective hlt hlt' hword
        exact ⟨hbytes, time, hop, q, hgot, haddress, hread⟩

end Stages

/-! ### One call -/

/-- Between the two states of a call these datagrams were received, all of them queued before. -/
structure Receives (s t : UdcServerImpl) (got : List Packet) : Prop where
  received : t.socket.history.received = s.socket.history.received ++ got
  queued : ∀ q ∈ got, ∃ name, q ∈ s.socket.inbox name
  left : ∀ name, ∀ q ∈ t.socket.inbox name, q ∈ s.socket.inbox name

/-- A success is on its way: the client in front is still the one it was. -/
structure Waits (s t : UdcServerImpl) : Prop where
  signature : t.packetSignature = s.packetSignature
  pending : t.pendingClients = s.pendingClients
  ids : ∀ r, (t.heap r).id = (s.heap r).id

section Calls

variable {s s' t t' : UdcServerImpl} {op : Op} {p packet : Packet} {got : List Packet}
  {time : Milliseconds} {event : Option UdcEvent} {reader : UdcSignature} {id : UdcEndPointId}

theorem Tells.mono {signature : UdcSignature} {got' : List Packet} (h : Tells op signature got p)
    (hsub : ∀ q ∈ got, q ∈ got') : Tells op signature got' p where
  request := h.request
  handshake reader id hread := by
    obtain ⟨hbytes, time, hop, q, hq, hrest⟩ := h.handshake reader id hread
    exact ⟨hbytes, time, hop, q, hsub q hq, hrest⟩

theorem newReceived_eq (h : t.socket.history.received = s.socket.history.received ++ got) :
    newReceived s t = got := by
  unfold newReceived
  rw [h, List.drop_left]

theorem newSent_eq {new : List Packet}
    (h : t.socket.history.sent = s.socket.history.sent ++ new) : newSent s t = new := by
  unfold newSent
  rw [h, List.drop_left]

/-- What holds of the packets of every stage of a call holds of those of the call. -/
theorem newSent_stages {Q : Packet → Prop} (h : Ready s) (hadm : op.Admissible s)
    (hstage : ∀ t t', Ready t → Stage op t t' → ∃ new,
      t'.socket.history.sent = t.socket.history.sent ++ new ∧ ∀ p ∈ new, Q p) :
    ∀ p ∈ newSent s (step s op).1, Q p := by
  have hall := step_stages (s := s)
    (P := fun t => Ready t ∧ ∃ new,
      t.socket.history.sent = s.socket.history.sent ++ new ∧ ∀ p ∈ new, Q p) hadm ?_
    ⟨h, [], (List.append_nil _).symm, fun p hp => by cases hp⟩
  · obtain ⟨-, new, hsent, hnew⟩ := hall
    rw [newSent_eq hsent]
    exact hnew
  · rintro t t' ⟨hready, new, hsent, hnew⟩ hlater
    obtain ⟨new', hsent', hnew'⟩ := hstage t t' hready hlater
    refine ⟨ready_stage hready hlater, new ++ new', ?_, ?_⟩
    · rw [hsent', hsent, List.append_assoc]
    · intro p hp
      rcases List.mem_append.mp hp with hp | hp
      · exact hnew p hp
      · exact hnew' p hp

/-- Every packet of a call tells what the call is. -/
theorem tells_step (h : Ready s) (hadm : op.Admissible s) :
    ∀ p ∈ newSent s (step s op).1,
      Tells op s.packetSignature (newReceived s (step s op).1) p := by
  have hall := step_stages (s := s)
    (P := fun t => Ready t ∧ t.packetSignature = s.packetSignature ∧ ∃ new got,
      t.socket.history.sent = s.socket.history.sent ++ new ∧
        t.socket.history.received = s.socket.history.received ++ got ∧
          ∀ p ∈ new, Tells op s.packetSignature got p) hadm ?_
    ⟨h, rfl, [], [], (List.append_nil _).symm, (List.append_nil _).symm, fun p hp => by cases hp⟩
  · obtain ⟨-, -, new, got, hsent, hreceived, htells⟩ := hall
    rw [newSent_eq hsent, newReceived_eq hreceived]
    exact htells
  · rintro t t' ⟨hready, hsignature, new, got, hsent, hreceived, htells⟩ hstage
    obtain ⟨new', got', hsent', hreceived', horigin⟩ := stage_origin hready hstage
    refine ⟨ready_stage hready hstage, hstage.signature.trans hsignature, new ++ new', got ++ got',
      ?_, ?_, ?_⟩
    · rw [hsent', hsent, List.append_assoc]
    · rw [hreceived', hreceived, List.append_assoc]
    · intro p hp
      rcases List.mem_append.mp hp with hp | hp
      · exact (htells p hp).mono fun q hq => List.mem_append_left _ hq
      · rw [← hsignature]
        exact (horigin p hp).tells.mono fun q hq => List.mem_append_right _ hq

/-- **A request is sent by a tick, for the client in front**, to that client's address. -/
theorem request_step (h : Ready s) (hadm : op.Admissible s) (hp : p ∈ newSent s (step s op).1)
    (hread : decode reader.bytes p.bytes = some (.connectionRequest id)) :
    ∃ time r, op = .updatePendingClients time ∧ s.pendingClients.head? = some r ∧
      p.address = (s.heap r).outgoingAddress ∧
      p.bytes = encode s.front (.connectionRequest (s.heap r).id) := by
  obtain ⟨time, rfl⟩ := (tells_step h hadm p hp).request reader id hread
  obtain ⟨new, got, hsent, -, horigin⟩ := stage_origin h
    (Stage.performs (.poll time) (updatePendingClients_performs (s := s) time))
  rw [show (step s (.updatePendingClients time)).1 = (s.updatePendingClients time).1 from rfl,
    newSent_eq hsent] at hp
  cases horigin p hp with
  | asked hasks hsend hbytes =>
      rw [hbytes] at hread
      obtain ⟨i, rfl, -⟩ := read_request length_front hread
      obtain ⟨time', r, -, hfront, haddress, rfl⟩ := request_change hsend
      refine ⟨time, r, rfl, hfront, haddress, hbytes.trans ?_⟩
      exact wire_word length_front (length_le32 _)
  | reply hop hgot hread hsend hbytes => cases hop

/-! The datagrams that a call receives. -/

theorem Receives.refl (s : UdcServerImpl) : Receives s s [] where
  received := (List.append_nil _).symm
  queued q hq := by cases hq
  left _ _ hq := hq

theorem Receives.turn (h : Receives s t got) (hturn : Turn time t packet t' event) :
    Receives s t' (got ++ [packet]) where
  received := by rw [hturn.received, h.received, List.append_assoc]
  queued q hq := by
    rcases List.mem_append.mp hq with hq | hq
    · exact h.queued q hq
    · obtain ⟨name, htaken⟩ := hturn.taken
      rw [List.mem_singleton.mp hq]
      exact ⟨name, h.left name packet (by rw [htaken]; exact List.mem_cons_self)⟩
  left name q hq := by
    apply h.left name
    rcases hturn.drained name with hsame | ⟨q', hcons⟩
    · rw [← hsame]
      exact hq
    · rw [hcons]
      exact List.mem_cons_of_mem _ hq

theorem Receives.last (h : Receives s t got) (hlast : LastTurn t t') : Receives s t' got where
  received := hlast.received.trans h.received
  queued := h.queued
  left name q hq := by
    apply h.left name
    rcases hlast.drained name with hsame | ⟨q', hcons⟩
    · rw [← hsame]
      exact hq
    · rw [hcons]
      exact List.mem_cons_of_mem _ hq

theorem receives_receiveMessages (s : UdcServerImpl) (time : Milliseconds) :
    Receives s (s.receiveMessages time).1 (newReceived s (s.receiveMessages time).1) := by
  have hall := receiveMessages_rule (s := s) time (C := fun _ => True)
    (P := fun t => ∃ got, Receives s t got) (Q := fun t _ => ∃ got, Receives s t got)
    (fun t t' ⟨got, h⟩ hlast => ⟨got, h.last hlast⟩)
    (fun t packet t' ⟨got, h⟩ hturn _ => ⟨_, h.turn hturn⟩)
    (fun t packet t' e ⟨got, h⟩ hturn _ => ⟨_, h.turn hturn⟩)
    (fun _ _ => trivial) ⟨[], .refl s⟩
  obtain ⟨got, h⟩ := hall
  rw [newReceived_eq h.received]
  exact h

/-! The datagram that makes a success. -/

/-- A change of which the application sees nothing leaves the queue, and every id. -/
theorem quiet_effect {p p' : Protocol} {c : Change} (h : p.Effect c p' []) :
    p'.pendingClients = p.pendingClients ∧ ∀ r, (p'.heap r).id = (p.heap r).id := by
  generalize hns : ([] : List Note) = ns at h
  cases h with
  | update c hsame hconn =>
      refine ⟨rfl, ?_⟩
      intro r
      rw [heap_setClient]
      split
      · rename_i heq
        rw [heq]
        exact hsame.id
      · rfl
  | other states => exact ⟨rfl, fun _ => rfl⟩
  | _ => cases hns

/-- A success is a handshake for the client in front. -/
theorem success_effect {p p' : Protocol} {c : Change}
    (h : p.Effect c p' [.event .connectionSuccess id]) : ∃ address time r,
      c = .handle address time (.connectionHandshake id) ∧ p.pendingClients.head? = some r ∧
        (p.heap r).id = id := by
  generalize hns : [Note.event .connectionSuccess id] = ns at h
  cases h with
  | @accept address time r rest c hpending hsame hconn hfree =>
      cases hns
      exact ⟨address, time, r, rfl, by rw [hpending]; rfl, rfl⟩
  | _ => cases hns

theorem Waits.turn (h : Waits s t) (hturn : Turn time t packet t' none) : Waits s t' := by
  have hsignature := hturn.signature.trans h.signature
  have hreport := hturn.report
  rcases protocol_turn hturn with ⟨-, hstate⟩ | ⟨m, hm, hstate⟩
  · exact ⟨hsignature, (congrArg Protocol.pendingClients hstate).trans h.pending,
      fun r => (congrArg (fun q : Protocol => (q.heap r).id) hstate).trans (h.ids r)⟩
  · have heffect := change_effect (p := t.protocol) (.handle packet.address time m)
    rw [Protocol.react, hm] at hreport
    rw [show (t.protocol.change (.handle packet.address time m)).report = none from hreport.symm]
      at heffect
    obtain ⟨hpending, hids⟩ := quiet_effect heffect
    refine ⟨hsignature, ?_, ?_⟩
    · exact (congrArg Protocol.pendingClients hstate).trans (hpending.trans h.pending)
    · intro r
      exact (congrArg (fun q : Protocol => (q.heap r).id) hstate).trans ((hids r).trans (h.ids r))

/-- A change that reports a success is the handling of a handshake for the client in front. -/
theorem success_change {p : Protocol} {c : Change} {e : UdcEvent} {b : MessageBuffer}
    (hreport : (some e).map (UdcEvent.report b) = (p.change c).report)
    (htype : e.eventType = .connectionSuccess) : ∃ address time r,
      c = .handle address time (.connectionHandshake e.endPointId) ∧
        p.pendingClients.head? = some r ∧ (p.heap r).id = e.endPointId := by
  have hquiet : c.note = none := by
    cases c with
    | disconnect endPointId => cases hreport
    | _ => rfl
  have hnote : e.note = some (.event .connectionSuccess e.endPointId) := by
    unfold UdcEvent.note udcGetResultConnectionEvent
    rw [htype]
    rfl
  have heffect := change_effect (p := p) c
  rw [hquiet, note_of_report hreport, Option.bind_some, hnote] at heffect
  exact success_effect heffect

/-- What a call that reports a success has received. -/
structure Accepts (s t : UdcServerImpl) (before : List Packet) (q : Packet) (r : ClientRef)
    (endPointId : UdcEndPointId) : Prop where
  receives : Receives s t (before ++ [q])
  front : s.pendingClients.head? = some r
  id : (s.heap r).id = endPointId
  reads : decode s.packetSignature.bytes q.bytes = some (.connectionHandshake endPointId)

theorem Waits.success (h : Waits s t) (hreceives : Receives s t got) {e : UdcEvent}
    (hturn : Turn time t packet t' (some e)) (htype : e.eventType = .connectionSuccess) :
    ∃ r, Accepts s t' got packet r e.endPointId := by
  have hreport := hturn.report
  unfold Protocol.react at hreport
  cases hm : decode t.packetSignature.bytes packet.bytes with
  | none =>
      rw [hm] at hreport
      cases hreport
  | some m =>
      rw [hm] at hreport
      obtain ⟨address, time', r, hc, hfront, hid⟩ :=
        success_change (c := .handle packet.address time m) hreport htype
      obtain ⟨-, -, rfl⟩ := Change.handle.inj hc
      refine ⟨r, hreceives.turn hturn, ?_, (h.ids r).symm.trans hid, ?_⟩
      · rw [← h.pending]
        exact hfront
      · rw [← h.signature]
        exact hm

/-- **A success is reported by a `receiveMessages` call whose last datagram was a handshake for
the client in front.** -/
theorem success_step {e : UdcEvent} (hevent : (step s op).2.event = some e)
    (htype : e.eventType = .connectionSuccess) : ∃ time before q r,
      op = .receiveMessages time ∧ Accepts s (step s op).1 before q r e.endPointId := by
  cases op with
  | updatePendingClients time =>
      have hperf := updatePendingClients_performs (s := s) time
      rw [show (s.updatePendingClients time).2 = some e from hevent] at hperf
      obtain ⟨address, time', r, hc, -⟩ := success_change (c := .poll time) hperf.report htype
      cases hc
  | updateClientConnectionStatus time order =>
      have hother := updateClientConnectionStatus_rule time (P := fun _ => True)
        (Q := fun _ event => ∀ e, event = some e → e.eventType ≠ .connectionSuccess)
        (fun _ _ e he => by cases he) (fun _ _ _ _ _ => trivial) ?_ order s trivial
      · exact absurd htype (hother e hevent)
      · intro t id t' e' _ hperf e he htype
        cases he
        obtain ⟨address, time', r, hc, -⟩ :=
          success_change (c := .tick id time) hperf.report htype
        cases hc
  | receiveMessages time =>
      have hall := receiveMessages_rule (s := s) time (C := fun _ => True)
        (P := fun t => Waits s t ∧ ∃ got, Receives s t got)
        (Q := fun t event => ∀ e, event = some e → e.eventType = .connectionSuccess →
          ∃ before q r, Accepts s t before q r e.endPointId)
        (fun t t' _ _ e he => by cases he) ?_ ?_ (fun _ _ => trivial)
        ⟨⟨rfl, rfl, fun _ => rfl⟩, [], .refl s⟩
      · obtain ⟨before, q, r, haccepts⟩ := hall e hevent htype
        exact ⟨time, before, q, r, rfl, haccepts⟩
      · rintro t packet t' ⟨hwaits, got, hgot⟩ hturn -
        exact ⟨hwaits.turn hturn, _, hgot.turn hturn⟩
      · rintro t packet t' e' ⟨hwaits, got, hgot⟩ hturn - e he htype
        cases he
        obtain ⟨r, haccepts⟩ := hwaits.success hgot hturn htype
        exact ⟨got, packet, r, haccepts⟩
  | _ => cases hevent

end Calls

end UdpConnect
