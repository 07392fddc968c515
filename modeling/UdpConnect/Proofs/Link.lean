/-
The pair as an instance of the alternating-bit protocol.

`Models` relates a pair whose server A has one client, connected to B, to a link of the
library: the client's bit and queue are the sender, B's entry for A's address is the
receiver, and what the sockets and the network hold is read packet by packet as frames
and acknowledgements.  Whatever does not read as one is not on the link.

This file has the receiver's side and the network.  A datagram B handles is one step of
the link, or none (`turnB_simulates`); a datagram lost at a socket, a reply A cannot
read, and what the network does are steps of the channel.  `Terms` decide which steps
there are, so the theorems here and in `Proofs/Sender.lean` serve every result about
a link.
-/
import UdpConnect.Proofs.Pair

namespace UdpConnect

open Memory AlternatingBit

/-! ### Sockets that hear from one peer -/

/-- Only this socket holds datagrams, and they are all from one address. -/
structure Listens (name : SocketName) (peer : UdcAddressMux) (m : UdcSocketMux) : Prop where
  quiet : ∀ name', name' ≠ name → m.inbox name' = []
  source : ∀ p ∈ m.inbox name, p.address = peer

section Sockets

variable {name : SocketName} {peer : UdcAddressMux} {m m' : UdcSocketMux}

theorem Listens.shrinks (h : Listens name peer m)
    (hshrinks : ∀ name', Shrinks (m.inbox name') (m'.inbox name')) : Listens name peer m' where
  quiet name' hne := by
    rcases hshrinks name' with hsame | ⟨p, hcons⟩
    · rw [hsame, h.quiet name' hne]
    · rw [h.quiet name' hne] at hcons
      cases hcons
  source p hp := by
    rcases hshrinks name with hsame | ⟨q, hcons⟩
    · rw [hsame] at hp
      exact h.source p hp
    · exact h.source p (by rw [hcons]; exact List.mem_cons_of_mem _ hp)

/-- What is taken from a queue is the oldest datagram of the peer. -/
theorem Listens.taken (h : Listens name peer m) {packet : Packet}
    (htaken : ∃ name', m.inbox name' = packet :: m'.inbox name') :
    m.inbox name = packet :: m'.inbox name ∧ packet.address = peer := by
  obtain ⟨name', hname⟩ := htaken
  by_cases heq : name' = name
  · subst heq
    exact ⟨hname, h.source packet (by rw [hname]; exact List.mem_cons_self)⟩
  · rw [h.quiet name' heq] at hname
    cases hname

theorem inboxAt_modify {Address : Type} {family : Address → UdcAddress}
    (sockets : List (UdcSocket Address)) (index : Nat) (d : Datagram Address)
    (negative : NegativeLength) (j : Nat) :
    inboxAt family (sockets.modify index fun s => ⟨s.pending ++ [.datagram d negative]⟩) j
      = inboxAt family sockets j ++
        if index = j ∧ j < sockets.length then [d.packet family] else [] := by
  unfold inboxAt
  rw [List.getElem?_modify]
  by_cases hlt : j < sockets.length
  · rw [List.getElem?_eq_getElem hlt]
    by_cases heq : index = j
    · simp [heq, hlt, UdcSocket.inbox]
    · simp [heq]
  · rw [List.getElem?_eq_none (Nat.not_lt.mp hlt)]
    simp [hlt]

/-- A datagram that arrives is the newest at its socket, unless there is no such socket. -/
theorem inbox_arrival (s : UdcServerImpl) (negative : NegativeLength) (peer : UdcAddressMux)
    (index : Nat) (p : Packet) :
    ∃ new, (new = [] ∨ new = [⟨peer, p.bytes, p.mark⟩]) ∧
      (step s (arrivalFrom negative peer index p)).1.socket.inbox (socketFor peer index)
        = s.socket.inbox (socketFor peer index) ++ new ∧
      ∀ name', name' ≠ socketFor peer index →
        (step s (arrivalFrom negative peer index p)).1.socket.inbox name'
          = s.socket.inbox name' := by
  obtain ⟨ip | ip, port⟩ := peer
  · refine ⟨_, ?_,
      inboxAt_modify s.socket.socketIPv4 index ⟨ip, port, p.bytes, p.mark⟩ negative index,
      fun name' hne => ?_⟩
    · split
      · exact Or.inr rfl
      · exact Or.inl rfl
    · cases name' with
      | ipv4 j =>
          have hj : index ≠ j := fun h => hne (by rw [h]; rfl)
          refine (inboxAt_modify s.socket.socketIPv4 index _ negative j).trans ?_
          rw [if_neg fun h => hj h.1, List.append_nil]
          rfl
      | ipv6 j => rfl
  · refine ⟨_, ?_,
      inboxAt_modify s.socket.socketIPv6 index ⟨ip, port, p.bytes, p.mark⟩ negative index,
      fun name' hne => ?_⟩
    · split
      · exact Or.inr rfl
      · exact Or.inl rfl
    · cases name' with
      | ipv4 j => rfl
      | ipv6 j =>
          have hj : index ≠ j := fun h => hne (by rw [h]; rfl)
          refine (inboxAt_modify s.socket.socketIPv6 index _ negative j).trans ?_
          rw [if_neg fun h => hj h.1, List.append_nil]
          rfl

theorem listens_arrival {s : UdcServerImpl} {index : Nat}
    (h : Listens (socketFor peer index) peer s.socket) (negative : NegativeLength) (p : Packet) :
    Listens (socketFor peer index) peer (step s (arrivalFrom negative peer index p)).1.socket := by
  obtain ⟨new, hnew, hinbox, hothers⟩ := inbox_arrival s negative peer index p
  refine ⟨fun name' hne => ?_, fun q hq => ?_⟩
  · rw [hothers name' hne, h.quiet name' hne]
  · rw [hinbox] at hq
    rcases List.mem_append.mp hq with hq | hq
    · exact h.source q hq
    · rcases hnew with rfl | rfl
      · cases hq
      · rw [List.mem_singleton.mp hq]

end Sockets

/-! ### What the network does -/

/-- A selection in rising order loses and repeats in place. -/
theorem stutter_select {α : Type} (xs : List α) {order : List Nat}
    (h : order.Pairwise (· ≤ ·)) : Stutter xs (select order xs) := by
  induction xs generalizing order with
  | nil => simp [select, Stutter.nil]
  | cons x xs ih =>
      induction order with
      | nil => exact Stutter.to_nil _
      | cons i order ihorder =>
          obtain ⟨hle, hrest⟩ := List.pairwise_cons.mp h
          cases i with
          | zero => exact .copy (ihorder hrest)
          | succ i =>
              -- the first element is not selected any more
              have hshift : select ((i + 1) :: order) (x :: xs)
                  = select (((i + 1) :: order).map Nat.pred) xs := by
                unfold select
                rw [List.filterMap_map]
                refine List.filterMap_congr fun j hj => ?_
                obtain ⟨k, rfl⟩ : ∃ k, j = k + 1 := by
                  rcases List.mem_cons.mp hj with rfl | hj
                  · exact ⟨i, rfl⟩
                  · exact ⟨j - 1, by have := hle j hj; omega⟩
                rfl
              rw [hshift]
              refine .drop (ih ?_)
              exact List.pairwise_map.mpr (h.imp fun hab => Nat.pred_le_pred hab)

theorem mem_select {α : Type} {xs : List α} {order : List Nat} :
    ∀ y ∈ select order xs, y ∈ xs := by
  intro y hy
  obtain ⟨i, -, hi⟩ := List.mem_filterMap.mp hy
  exact List.mem_of_getElem? hi

/-! ### The relation -/

/-- A's only client, under this reference, is connected to B and is the sender of the link. -/
structure Sender (w : Wiring) (endPointId : UdcEndPointId) (r : ClientRef) (size : Nat)
    (p : Protocol) (l : Link Numbered) : Prop where
  byId : ∀ i, p.clientsById.lookup i = if i = endPointId then some r else none
  byAddress : ∀ a, p.clientsByAddress.lookup a = if a = w.addressB then some r else none
  pending : p.pendingClients = []
  outgoing : (p.heap r).outgoingAddress = w.addressB
  mode : (p.heap r).reliableState = stateOf l.mode
  queue : (p.heap r).reliableMessages = l.queue.map Prod.fst
  fits : ∀ data ∈ (p.heap r).reliableMessages,
    data.length < 2 ^ 32 ∧ u32 (9 + data.length : Nat) ≤ size

/-- The pair, with A's client `r`, is the link; `earlier` are the messages of former clients. -/
structure Models (w : Wiring) (endPointId : UdcEndPointId) (r : ClientRef)
    (earlier : List Numbered) (s : Pair) (l : Link Numbered) : Prop where
  sender : Sender w endPointId r s.a.messageBufferSize s.a.protocol l
  expected : s.b.protocol.reliableStates.lookup w.addressA
    = l.expected.map fun b => stateOf (.bit b)
  listensA : Listens (socketFor w.addressB w.socketA) w.addressB s.a.socket
  listensB : Listens (socketFor w.addressA w.socketB) w.addressA s.b.socket
  data : l.data = (s.b.socket.inbox (socketFor w.addressA w.socketB) ++ s.toB).filterMap
    (frameOf s.b.packetSignature)
  acks : l.acks = (s.a.socket.inbox (socketFor w.addressB w.socketA) ++ s.toA).filterMap
    (ackOf s.a.packetSignature)
  numbered : earlier ++ l.popped ++ l.queue = s.accepted.zipIdx
  reported : l.reported = s.reported
  heard : l.heard = s.heard
  base : l.base = earlier.length
  clock : l.clock = s.clock
  since : l.since = s.since

/-- The link after some steps is the pair's. -/
def Simulates (T : Terms Numbered) (w : Wiring) (endPointId : UdcEndPointId) (r : ClientRef)
    (earlier : List Numbered) (l : Link Numbered) (s : Pair) : Prop :=
  ∃ l', Evolves T l l' ∧ Models w endPointId r earlier s l'

section Relation

variable {T : Terms Numbered} {w : Wiring} {endPointId : UdcEndPointId} {r : ClientRef}
  {earlier : List Numbered} {s s' : Pair} {l l' : Link Numbered}

theorem Sender.congr {size : Nat} {p : Protocol} (h : Sender w endPointId r size p l)
    (hmode : l'.mode = l.mode) (hqueue : l'.queue = l.queue) :
    Sender w endPointId r size p l' :=
  ⟨h.byId, h.byAddress, h.pending, h.outgoing, hmode ▸ h.mode, hqueue ▸ h.queue, h.fits⟩

/-- Nothing has changed but what is in flight. -/
structure Carried (s s' : Pair) : Prop where
  stateA : s'.a.protocol = s.a.protocol
  expected : s'.b.protocol.reliableStates = s.b.protocol.reliableStates
  signatureA : s'.a.packetSignature = s.a.packetSignature
  signatureB : s'.b.packetSignature = s.b.packetSignature
  sizeA : s'.a.messageBufferSize = s.a.messageBufferSize
  accepted : s'.accepted = s.accepted
  reported : s'.reported = s.reported
  heard : s'.heard = s.heard
  clock : s'.clock = s.clock
  since : s'.since = s.since

/-- The packets on their way to B, those at its socket first. -/
def Pair.inFlightB (w : Wiring) (s : Pair) : List Packet :=
  s.b.socket.inbox (socketFor w.addressA w.socketB) ++ s.toB

/-- The packets on their way to A, those at its socket first. -/
def Pair.inFlightA (w : Wiring) (s : Pair) : List Packet :=
  s.a.socket.inbox (socketFor w.addressB w.socketA) ++ s.toA

/-- What happens to the packets in flight, and to nothing else, is the channel's doing. -/
theorem Models.channel (h : Models w endPointId r earlier s l) (hcarried : Carried s s')
    (hlistensA : Listens (socketFor w.addressB w.socketA) w.addressB s'.a.socket)
    (hlistensB : Listens (socketFor w.addressA w.socketB) w.addressA s'.b.socket)
    (hdata : T.channel.may ((s.inFlightB w).filterMap (frameOf s.b.packetSignature))
      ((s'.inFlightB w).filterMap (frameOf s.b.packetSignature)))
    (hacks : T.channel.may ((s.inFlightA w).filterMap (ackOf s.a.packetSignature))
      ((s'.inFlightA w).filterMap (ackOf s.a.packetSignature))) :
    Simulates T w endPointId r earlier l s' := by
  rw [show (s.inFlightB w).filterMap (frameOf s.b.packetSignature) = l.data from h.data.symm]
    at hdata
  rw [show (s.inFlightA w).filterMap (ackOf s.a.packetSignature) = l.acks from h.acks.symm]
    at hacks
  refine ⟨_, .single (.channel l hdata hacks), ?_, ?_, hlistensA, hlistensB, ?_, ?_, ?_, ?_, ?_,
    h.base, ?_, ?_⟩
  · rw [hcarried.stateA, hcarried.sizeA]
    exact h.sender.congr rfl rfl
  · rw [hcarried.expected]
    exact h.expected
  · rw [hcarried.signatureB]
    rfl
  · rw [hcarried.signatureA]
    rfl
  · rw [hcarried.accepted]
    exact h.numbered
  · rw [hcarried.reported]
    exact h.reported
  · rw [hcarried.heard]
    exact h.heard
  · rw [hcarried.clock]
    exact h.clock
  · rw [hcarried.since]
    exact h.since

theorem networkA_simulates (h : Models w endPointId r earlier s l) (order : List Nat)
    (hchannel : T.channel.may s.toA (select order s.toA)) :
    Simulates T w endPointId r earlier l (s.step w (.networkA order)) :=
  h.channel ⟨rfl, rfl, rfl, rfl, rfl, rfl, rfl, rfl, rfl, rfl⟩ h.listensA h.listensB
    (T.channel.refl _) (T.channel.filterMap _ (T.channel.append_left _ hchannel))

theorem networkB_simulates (h : Models w endPointId r earlier s l) (order : List Nat)
    (hchannel : T.channel.may s.toB (select order s.toB)) :
    Simulates T w endPointId r earlier l (s.step w (.networkB order)) :=
  h.channel ⟨rfl, rfl, rfl, rfl, rfl, rfl, rfl, rfl, rfl, rfl⟩ h.listensA h.listensB
    (T.channel.filterMap _ (T.channel.append_left _ hchannel)) (T.channel.refl _)

/-- An arrival changes a server's sockets only. -/
theorem step_arrivalFrom (srv : UdcServerImpl) (negative : NegativeLength) (peer : UdcAddressMux)
    (index : Nat) (p : Packet) :
    ∃ socket, (step srv (arrivalFrom negative peer index p)).1 = { srv with socket := socket } := by
  obtain ⟨ip | ip, port⟩ := peer
  · exact ⟨_, rfl⟩
  · exact ⟨_, rfl⟩

theorem filterMap_cons_toList {α β : Type} (f : α → Option β) (x : α) (xs : List α) :
    (x :: xs).filterMap f = (f x).toList ++ xs.filterMap f := by
  cases hx : f x with
  | none => rw [List.filterMap_cons_none hx, Option.toList_none, List.nil_append]
  | some y => rw [List.filterMap_cons_some hx, Option.toList_some, List.singleton_append]

/-- What has arrived reads as what was sent, unless nothing has. -/
theorem filterMap_arrived {α β : Type} (f : α → Option β) {x : α} {new : List α}
    (h : new = [] ∨ new = [x]) : (new.filterMap f).Sublist (f x).toList := by
  rcases h with rfl | rfl
  · exact List.nil_sublist _
  · rw [filterMap_cons_toList, List.filterMap_nil, List.append_nil]

theorem deliverA_simulates (h : Models w endPointId r earlier s l) :
    Simulates T w endPointId r earlier l (s.step w .deliverA) := by
  unfold Pair.step
  cases htoA : s.toA with
  | nil => exact ⟨l, .refl, h⟩
  | cons p rest =>
      obtain ⟨socket, hsocket⟩ := step_arrivalFrom s.a w.negative w.addressB w.socketA p
      obtain ⟨new, hnew, hinbox, -⟩ := inbox_arrival s.a w.negative w.addressB w.socketA p
      have hlistens := listens_arrival h.listensA w.negative p
      simp only [hsocket] at hinbox hlistens ⊢
      refine h.channel ⟨rfl, rfl, rfl, rfl, rfl, rfl, rfl, rfl, rfl, rfl⟩ hlistens h.listensB
        (T.channel.refl _) (T.channel.sublist ?_)
      unfold Pair.inFlightA
      simp only [hinbox, htoA, List.append_assoc, List.filterMap_append]
      rw [filterMap_cons_toList]
      exact List.Sublist.append_left ((filterMap_arrived _ hnew).append_right _) _

theorem deliverB_simulates (h : Models w endPointId r earlier s l) :
    Simulates T w endPointId r earlier l (s.step w .deliverB) := by
  unfold Pair.step
  cases htoB : s.toB with
  | nil => exact ⟨l, .refl, h⟩
  | cons p rest =>
      obtain ⟨socket, hsocket⟩ := step_arrivalFrom s.b w.negative w.addressA w.socketB p
      obtain ⟨new, hnew, hinbox, -⟩ := inbox_arrival s.b w.negative w.addressA w.socketB p
      have hlistens := listens_arrival h.listensB w.negative p
      simp only [hsocket] at hinbox hlistens ⊢
      refine h.channel ⟨rfl, rfl, rfl, rfl, rfl, rfl, rfl, rfl, rfl, rfl⟩ h.listensA hlistens
        (T.channel.sublist ?_) (T.channel.refl _)
      unfold Pair.inFlightB
      simp only [hinbox, htoB, List.append_assoc, List.filterMap_append]
      rw [filterMap_cons_toList]
      exact List.Sublist.append_left ((filterMap_arrived _ hnew).append_right _) _

end Relation

/-! ### What B does with a datagram -/

section Receiver

variable {T : Terms Numbered} {w : Wiring} {endPointId : UdcEndPointId} {r : ClientRef}
  {earlier : List Numbered} {s : Pair} {l : Link Numbered} {p : Protocol}
  {address : UdcAddressMux} {time : Milliseconds} {m : Message}

theorem answer_sends (timeStamp : Nat) (change : UdcClient → UdcClient) :
    (p.answer address time timeStamp change).sends = [] := by
  unfold Protocol.answer
  cases p.clientsByAddress.lookup address with
  | none => rfl
  | some r => simp only; split <;> rfl

theorem handshake_sends (endPointId : UdcEndPointId) :
    (p.handshake address time endPointId).sends = [] := by
  unfold Protocol.handshake
  cases p.pendingClients.head? with
  | none => rfl
  | some r => simp only; split; · rfl
              · split <;> rfl

/-- Replies are messages of one word. -/
theorem handle_replies {x : UdcAddressMux × Message} (hx : x ∈ (p.handle address time m).sends) :
    x.1 = address ∧ x.2.body.length = 4 ∧ x.2.dataKind = none ∧ x.2.ackKind = m.dataKind := by
  have hno : ∀ {xs : List (UdcAddressMux × Message)}, xs = [] → x ∉ xs := fun h hx => by
    rw [h] at hx
    cases hx
  cases m with
  | connectionRequest endPointId =>
      rw [List.mem_singleton.mp hx]
      exact ⟨rfl, length_le32 _, rfl, rfl⟩
  | connectionHandshake endPointId => exact absurd hx (hno (handshake_sends endPointId))
  | ping timeStamp =>
      rw [List.mem_singleton.mp hx]
      exact ⟨rfl, length_le32 _, rfl, rfl⟩
  | pong timeStamp => exact absurd hx (hno (answer_sends timeStamp id))
  | unreliable data => cases hx
  | reliable kind timeStamp data =>
      cases kind with
      | reset =>
          rw [List.mem_singleton.mp hx]
          exact ⟨rfl, length_le32 _, rfl, rfl⟩
      | bit b =>
          rw [List.mem_singleton.mp hx]
          exact ⟨rfl, length_le32 _, rfl, rfl⟩
  | reliableHandshake kind timeStamp => exact absurd hx (hno (answer_sends timeStamp _))

/-- A message that is not reliable leaves the expected bits alone and reports no reliable one. -/
theorem handle_other (p : Protocol) (address : UdcAddressMux) (time : Milliseconds)
    (hm : m.dataKind = none) :
    (p.handle address time m).state.reliableStates = p.reliableStates ∧
      ∀ peer mark, reportedBy peer mark (p.handle address time m).report = [] := by
  have hanswer : ∀ timeStamp change,
      (p.answer address time timeStamp change).state.reliableStates = p.reliableStates ∧
        ∀ peer mark, reportedBy peer mark (p.answer address time timeStamp change).report = [] := by
    intro timeStamp change
    unfold Protocol.answer
    cases p.clientsByAddress.lookup address with
    | none => exact ⟨rfl, fun _ _ => rfl⟩
    | some r =>
        simp only
        split
        · exact ⟨rfl, fun _ _ => rfl⟩
        · refine ⟨rfl, fun _ _ => ?_⟩
          split <;> rfl
  cases m with
  | connectionRequest endPointId => exact ⟨rfl, fun _ _ => rfl⟩
  | connectionHandshake endPointId =>
      show (p.handshake address time endPointId).state.reliableStates = _ ∧
        ∀ peer mark, reportedBy peer mark (p.handshake address time endPointId).report = []
      unfold Protocol.handshake
      cases p.pendingClients.head? with
      | none => exact ⟨rfl, fun _ _ => rfl⟩
      | some r =>
          simp only
          split
          · exact ⟨rfl, fun _ _ => rfl⟩
          · split <;> exact ⟨rfl, fun _ _ => rfl⟩
  | ping timeStamp => exact ⟨rfl, fun _ _ => rfl⟩
  | pong timeStamp => exact hanswer timeStamp id
  | unreliable data =>
      exact ⟨rfl, fun _ _ => by simp [Protocol.handle, reportedBy, MsgReliable.size]⟩
  | reliable kind timeStamp data => cases hm
  | reliableHandshake kind timeStamp => exact hanswer timeStamp _

/-- The packets a turn sends. -/
def replyPackets (signature : UdcSignature) (mark : Mark)
    (sends : List (UdcAddressMux × Message)) : List Packet :=
  sends.map fun p => ⟨p.1, encode signature.bytes p.2, mark⟩

/-- Replies to anything but a reliable message do not read as acknowledgements. -/
theorem ackOf_replies (signature signature' : UdcSignature) (mark : Mark)
    (hm : m.dataKind = none) (q : Packet → Bool) :
    ((replyPackets signature mark (p.handle address time m).sends).filter q).filterMap
      (ackOf signature') = [] := by
  refine List.filterMap_eq_nil_iff.mpr fun packet hpacket => ?_
  obtain ⟨x, hx, rfl⟩ := List.mem_map.mp (List.mem_filter.mp hpacket).1
  obtain ⟨-, hword, -, hack⟩ := handle_replies hx
  rw [← wire_word signature.size hword]
  exact ackOf_other signature.size (hack.trans hm)

/-- The pair after a turn of B's receive loop. -/
def Pair.afterTurnB (w : Wiring) (s : Pair) (srv : UdcServerImpl) (packet : Packet)
    (reaction : Reaction) : Pair :=
  { s with
    b := srv
    toA := s.toA ++ (replyPackets s.b.packetSignature packet.mark reaction.sends).filter
      (·.address = w.addressA)
    reported := s.reported ++ reportedBy w.addressA packet.mark reaction.report
    heard := s.heard ++ [packet].filterMap (frameOf s.b.packetSignature) }

theorem unread_of_other {signature : UdcSignature} {packet : Packet}
    (hother : ∀ m, decode signature.bytes packet.bytes = some m → m.dataKind = none) :
    frameOf signature packet = none := by
  unfold frameOf
  cases hd : decode signature.bytes packet.bytes with
  | none => rfl
  | some m =>
      have hm := hother m hd
      cases m with
      | reliable kind timeStamp data => cases hm
      | _ => rfl

/-- A datagram that is not a reliable message is none of the link's business. -/
theorem turnB_other (h : Models w endPointId r earlier s l) {srv : UdcServerImpl}
    {packet : Packet} {event : Option UdcEvent} (hturn : Turn time s.b packet srv event)
    (hother : ∀ m, decode s.b.packetSignature.bytes packet.bytes = some m → m.dataKind = none) :
    Simulates T w endPointId r earlier l
      (s.afterTurnB w srv packet (s.b.protocol.react s.b.packetSignature time packet)) := by
  obtain ⟨hinbox, -⟩ := h.listensB.taken hturn.taken
  have hlistens := h.listensB.shrinks hturn.drained
  have hstate := congrArg Protocol.reliableStates hturn.state
  unfold Protocol.react at hstate ⊢
  have hframe := unread_of_other hother
  have hdata : (s.inFlightB w).filterMap (frameOf s.b.packetSignature)
      = (srv.socket.inbox (socketFor w.addressA w.socketB) ++ s.toB).filterMap
        (frameOf s.b.packetSignature) := by
    rw [Pair.inFlightB, hinbox, List.cons_append, List.filterMap_cons, hframe]
  cases hd : decode s.b.packetSignature.bytes packet.bytes with
  | none =>
      rw [hd] at hstate
      refine h.channel ⟨rfl, hstate, rfl, hturn.signature, rfl, rfl, ?_, ?_, rfl, rfl⟩ h.listensA
        hlistens ?_ ?_
      · exact List.append_nil _
      · simp [Pair.afterTurnB, hframe]
      · rw [hdata]
        exact T.channel.refl _
      · simp only [Pair.inFlightA, Pair.afterTurnB, replyPackets, Protocol.idle, List.map_nil,
          List.filter_nil, List.append_nil]
        exact T.channel.refl _
  | some m =>
      rw [hd] at hstate
      have hm := hother m hd
      obtain ⟨hsame, hreport⟩ := handle_other s.b.protocol packet.address time hm
      refine h.channel ⟨rfl, hstate.trans hsame, rfl, hturn.signature, rfl, rfl, ?_, ?_, rfl, rfl⟩
        h.listensA hlistens ?_ ?_
      · simp [Pair.afterTurnB, hreport]
      · simp [Pair.afterTurnB, hframe]
      · rw [hdata]
        exact T.channel.refl _
      · simp only [Pair.inFlightA, Pair.afterTurnB, ← List.append_assoc]
        rw [List.filterMap_append (l := _ ++ _), ackOf_replies _ _ _ hm, List.append_nil]
        exact T.channel.refl _

/-- The reply to a reliable message reads as its acknowledgement, or as nothing. -/
theorem ackOf_reply (signature signature' : UdcSignature) (address : UdcAddressMux)
    (kind : Kind) (timeStamp : Nat) (mark : Mark) :
    (([⟨address, encode signature.bytes (.reliableHandshake kind timeStamp), mark⟩] :
      List Packet).filterMap (ackOf signature')).Sublist [mark.tag kind] := by
  have hword : (Message.reliableHandshake kind timeStamp).body.length = 4 := length_le32 timeStamp
  rw [← wire_word signature.size hword]
  rcases ackOf_wire signature' address mark signature.size kind timeStamp with hack | hack
  · rw [List.filterMap_cons, hack]
    exact List.nil_sublist _
  · rw [List.filterMap_cons, hack]
    exact List.Sublist.refl _

section Handling

variable (mark : Mark) (rest : List (Frame Numbered)) (kind : Kind) (timeStamp : Nat)
  (data : List UInt8)

/-- The bit B expects is the receiver's. -/
theorem expected_reliable
    (h : p.reliableStates.lookup address = l.expected.map fun b => stateOf (.bit b)) :
    (p.reliable address kind timeStamp data).state.reliableStates.lookup address
      = (l.receive (mark.frame kind data) rest).expected.map
        fun b => stateOf (.bit b) := by
  cases kind with
  | reset =>
      simp only [Protocol.reliable, Link.receive]
      cases hexpected : l.expected with
      | none =>
          rw [hexpected] at h
          rw [h]
          exact h
      | some b =>
          rw [hexpected] at h
          rw [h]
          exact Finmap.lookup_insert _
  | bit b => exact Finmap.lookup_insert _

/-- B reports what the receiver reports. -/
theorem reported_reliable
    (h : p.reliableStates.lookup address = l.expected.map fun b => stateOf (.bit b)) :
    (l.receive (mark.frame kind data) rest).reported
      = l.reported ++ reportedBy address mark (p.reliable address kind timeStamp data).report := by
  cases kind with
  | reset => exact (List.append_nil _).symm
  | bit b =>
      have hiff : (p.reliableStates.lookup address = none ∨
          p.reliableStates.lookup address = some (stateOf (.bit b))) ↔ l.Accepts b := by
        rw [h, Link.Accepts]
        cases l.expected <;> simp
      simp only [Protocol.reliable, Link.receive, Mark.frame_tag, Mark.tag_kind, hiff]
      split
      · simp [reportedBy]
      · exact (List.append_nil _).symm

end Handling

/-- **A reliable message that B handles is a frame that the receiver handles.** -/
theorem turnB_reliable (h : Models w endPointId r earlier s l) {srv : UdcServerImpl}
    {packet : Packet} {event : Option UdcEvent} (hturn : Turn time s.b packet srv event)
    {kind : Kind} {timeStamp : Nat} {data : List UInt8}
    (hd : decode s.b.packetSignature.bytes packet.bytes
      = some (.reliable kind timeStamp data))
    (hallowed : T.receive l (packet.mark.frame kind data)) :
    Simulates T w endPointId r earlier l
      (s.afterTurnB w srv packet (s.b.protocol.react s.b.packetSignature time packet)) := by
  obtain ⟨hinbox, haddress⟩ := h.listensB.taken hturn.taken
  have hlistens := h.listensB.shrinks hturn.drained
  have hstate := congrArg Protocol.reliableStates hturn.state
  unfold Protocol.react at hstate ⊢
  rw [hd] at hstate ⊢
  rw [haddress] at hstate ⊢
  have hread : frameOf s.b.packetSignature packet = some (packet.mark.frame kind data) := by
    unfold frameOf
    rw [hd]
  have hdata : l.data = packet.mark.frame kind data ::
      (srv.socket.inbox (socketFor w.addressA w.socketB) ++ s.toB).filterMap
        (frameOf s.b.packetSignature) := by
    rw [h.data, hinbox, List.cons_append, List.filterMap_cons, hread]
  have hsends : (s.b.protocol.reliable w.addressA kind timeStamp data).sends
      = [(w.addressA, .reliableHandshake kind timeStamp)] := by cases kind <;> rfl
  have hacks : (s.inFlightA w ++ (replyPackets s.b.packetSignature packet.mark
      (s.b.protocol.reliable w.addressA kind timeStamp data).sends).filter
        (·.address = w.addressA)).filterMap (ackOf s.a.packetSignature)
      = l.acks ++ ([⟨w.addressA,
          encode s.b.packetSignature.bytes (.reliableHandshake kind timeStamp), packet.mark⟩] :
        List Packet).filterMap (ackOf s.a.packetSignature) := by
    rw [List.filterMap_append, h.acks, hsends]
    simp [replyPackets, Pair.inFlightA]
  -- the receiver's step, and then the channel drops the reply if A cannot read it
  have hreply := ackOf_reply s.b.packetSignature s.a.packetSignature w.addressA kind timeStamp
    packet.mark
  have hexpected := expected_reliable packet.mark
    ((srv.socket.inbox (socketFor w.addressA w.socketB) ++ s.toB).filterMap
      (frameOf s.b.packetSignature)) kind timeStamp data h.expected
  have hreported := reported_reliable packet.mark
    ((srv.socket.inbox (socketFor w.addressA w.socketB) ++ s.toB).filterMap
      (frameOf s.b.packetSignature)) kind timeStamp data h.expected
  have hheard := heard_receive (l := l) (packet.mark.frame kind data)
    ((srv.socket.inbox (socketFor w.addressA w.socketB) ++ s.toB).filterMap
      (frameOf s.b.packetSignature))
  have hframe := receive_frame (l := l) (packet.mark.frame kind data)
    ((srv.socket.inbox (socketFor w.addressA w.socketB) ++ s.toB).filterMap
      (frameOf s.b.packetSignature))
  have hstep := Step.receive l hdata hallowed
  generalize hl : l.receive (packet.mark.frame kind data)
    ((srv.socket.inbox (socketFor w.addressA w.socketB) ++ s.toB).filterMap
      (frameOf s.b.packetSignature)) = l₁
    at hframe hstep hexpected hreported hheard
  obtain ⟨hmode, hqueue, hrest, hacks₁, hclock, hsince, hpopped⟩ := hframe
  refine ⟨{ l₁ with
      acks := l.acks ++ ([⟨w.addressA,
          encode s.b.packetSignature.bytes (.reliableHandshake kind timeStamp), packet.mark⟩] :
        List Packet).filterMap (ackOf s.a.packetSignature) },
    .tail (.single hstep) (.channel l₁ (T.channel.refl _) ?_), ?_⟩
  · rw [hacks₁]
    exact T.channel.sublist (List.Sublist.append_left hreply l.acks)
  · refine ⟨h.sender.congr hmode hqueue, ?_, h.listensA, hlistens, ?_, ?_, ?_, ?_, ?_,
      hheard.2.trans h.base, hclock.trans h.clock, hsince.trans h.since⟩
    · refine (congrArg (fun states : UdcAddressMap Int => states.lookup w.addressA) hstate).trans
        hexpected
    · refine hrest.trans ?_
      show _ = List.filterMap (frameOf srv.packetSignature) _
      rw [hturn.signature]
      rfl
    · refine hacks.symm.trans ?_
      simp only [Pair.inFlightA, List.append_assoc]
      rfl
    · show earlier ++ l₁.popped ++ l₁.queue = _
      rw [hpopped, hqueue]
      exact h.numbered
    · refine hreported.trans ?_
      rw [h.reported]
      rfl
    · refine hheard.1.trans ?_
      simp [Pair.afterTurnB, hread, h.heard]

/-- **A datagram B handles is a step of the link, or none.** -/
theorem turnB_simulates (h : Models w endPointId r earlier s l) {srv : UdcServerImpl}
    {packet : Packet} {event : Option UdcEvent} (hturn : Turn time s.b packet srv event)
    (hallowed : ∀ kind timeStamp data, decode s.b.packetSignature.bytes packet.bytes
        = some (.reliable kind timeStamp data) →
      T.receive l (packet.mark.frame kind data)) :
    Simulates T w endPointId r earlier l
      (s.afterTurnB w srv packet (s.b.protocol.react s.b.packetSignature time packet)) := by
  by_cases hother : ∀ m, decode s.b.packetSignature.bytes packet.bytes = some m →
      m.dataKind = none
  · exact turnB_other h hturn hother
  · simp only [not_forall] at hother
    obtain ⟨m, hd, hm⟩ := hother
    cases m with
    | reliable kind timeStamp data => exact turnB_reliable h hturn hd (hallowed _ _ _ hd)
    | _ => exact absurd rfl hm

/-! ### A whole call of B -/

/-- The frames that have reached B when it handles a message. -/
def Pair.heardBy (s : Pair) (x : Reception) : List (Frame Numbered) :=
  s.heard ++ (x.received.drop s.b.socket.history.received.length).filterMap
    (frameOf s.b.packetSignature)

/-- The link has the receiver that B is when it handles a message, and the sender that A is. -/
structure SeesB (w : Wiring) (endPointId : UdcEndPointId) (r : ClientRef)
    (earlier : List Numbered) (s : Pair) (x : Reception) (l : Link Numbered) : Prop where
  expected : x.state.reliableStates.lookup w.addressA
    = l.expected.map fun b => stateOf (.bit b)
  reported : l.reported = s.reported
  heard : ∀ g ∈ l.heard, g ∈ s.heardBy x
  sender : Sender w endPointId r s.a.messageBufferSize s.a.protocol l
  numbered : earlier ++ l.popped ++ l.queue = s.accepted.zipIdx

/-- The message may be received, if it is a reliable one. -/
def MayReceive (T : Terms Numbered) (w : Wiring) (endPointId : UdcEndPointId) (r : ClientRef)
    (earlier : List Numbered) (s : Pair) (x : Reception) : Prop :=
  ∀ l, SeesB w endPointId r earlier s x l → ∀ kind timeStamp data,
    x.message = .reliable kind timeStamp data → T.receive l (x.mark.frame kind data)

/-- The pair in the middle of a call of B that has sent and received so much. -/
def Pair.during (w : Wiring) (s : Pair) (srv : UdcServerImpl) (new got : List Packet)
    (reports : List Numbered) : Pair :=
  { s with
    b := srv
    toA := s.toA ++ new.filter (·.address = w.addressA)
    reported := s.reported ++ reports
    heard := s.heard ++ got.filterMap (frameOf s.b.packetSignature) }

/-- The call has sent and received so much, and the link has followed. -/
structure DuringB (T : Terms Numbered) (w : Wiring) (endPointId : UdcEndPointId) (r : ClientRef)
    (earlier : List Numbered) (s : Pair) (l : Link Numbered) (srv : UdcServerImpl)
    (new got : List Packet) (reports : List Numbered) : Prop where
  signature : srv.packetSignature = s.b.packetSignature
  sent : srv.socket.history.sent = s.b.socket.history.sent ++ new
  received : srv.socket.history.received = s.b.socket.history.received ++ got
  simulates : Simulates T w endPointId r earlier l (s.during w srv new got reports)

variable {srv srv' : UdcServerImpl} {new got : List Packet}

theorem duringB_turn (h : DuringB T w endPointId r earlier s l srv new got []) {packet : Packet}
    {event : Option UdcEvent} (hturn : Turn time srv packet srv' event)
    (hmeets : TurnMeets (MayReceive T w endPointId r earlier s) srv packet) :
    DuringB T w endPointId r earlier s l srv'
      (new ++ replyPackets srv.packetSignature packet.mark
        (srv.protocol.react srv.packetSignature time packet).sends)
      (got ++ [packet])
      (reportedBy w.addressA packet.mark
        (srv.protocol.react srv.packetSignature time packet).report) where
  signature := hturn.signature.trans h.signature
  sent := by
    rw [hturn.sent, h.sent, List.append_assoc]
    rfl
  received := by rw [hturn.received, h.received, List.append_assoc]
  simulates := by
    obtain ⟨l₁, hevolves, hmodels⟩ := h.simulates
    have hheard : ∀ g ∈ l₁.heard, ∀ m, g ∈ s.heardBy ⟨⟨srv.protocol, packet.address, m⟩,
        packet.mark, srv.socket.history.received ++ [packet]⟩ := by
      intro g hg m
      rw [hmodels.heard] at hg
      rw [Pair.heardBy, h.received, List.append_assoc, List.drop_left, List.filterMap_append,
        ← List.append_assoc]
      exact List.mem_append_left _ hg
    obtain ⟨l₂, hevolves', hmodels'⟩ := turnB_simulates hmodels hturn
      fun kind timeStamp data hd => hmeets _ hd l₁
        ⟨hmodels.expected, hmodels.reported.trans (List.append_nil _), fun g hg => hheard g hg _,
          hmodels.sender, hmodels.numbered⟩ kind timeStamp data rfl
    refine ⟨l₂, hevolves.trans hevolves', ?_⟩
    have hsame : (s.during w srv new got []).afterTurnB w srv' packet
        (srv.protocol.react srv.packetSignature time packet)
        = s.during w srv' (new ++ replyPackets srv.packetSignature packet.mark
            (srv.protocol.react srv.packetSignature time packet).sends) (got ++ [packet])
          (reportedBy w.addressA packet.mark
            (srv.protocol.react srv.packetSignature time packet).report) := by
      simp [Pair.during, Pair.afterTurnB, h.signature]
    rw [← hsame]
    exact hmodels'

theorem duringB_stop (h : DuringB T w endPointId r earlier s l srv new got [])
    (hlast : LastTurn srv srv') : DuringB T w endPointId r earlier s l srv' new got [] where
  signature := hlast.signature.trans h.signature
  sent := hlast.sent.trans h.sent
  received := hlast.received.trans h.received
  simulates := by
    obtain ⟨l₁, hevolves, hmodels⟩ := h.simulates
    have hlistens := hmodels.listensB.shrinks hlast.drained
    have hcarried : Carried (s.during w srv new got []) (s.during w srv' new got []) :=
      ⟨rfl, congrArg Protocol.reliableStates hlast.state, rfl, hlast.signature, rfl, rfl, rfl,
        rfl, rfl, rfl⟩
    have hsub : ((s.during w srv' new got []).inFlightB w).Sublist
        ((s.during w srv new got []).inFlightB w) := by
      refine List.Sublist.append_right ?_ _
      show (srv'.socket.inbox _).Sublist (srv.socket.inbox _)
      rcases hlast.drained (socketFor w.addressA w.socketB) with hsame | ⟨p, hcons⟩
      · rw [hsame]
      · rw [hcons]
        exact List.sublist_cons_self p _
    obtain ⟨l₂, hevolves', hmodels'⟩ := hmodels.channel hcarried hmodels.listensA hlistens
      (T.channel.sublist (hsub.filterMap _)) (T.channel.refl _)
    exact ⟨l₂, hevolves.trans hevolves', hmodels'⟩

/-- **A call of B is a number of steps of the link.** -/
theorem receiveB_simulates (h : Models w endPointId r earlier s l)
    (hallowed : ∀ x ∈ s.b.receptions time, MayReceive T w endPointId r earlier s x) :
    Simulates T w endPointId r earlier l (s.step w (.receiveB time)) := by
  have hstart : DuringB T w endPointId r earlier s l s.b [] [] [] := by
    refine ⟨rfl, (List.append_nil _).symm, (List.append_nil _).symm, l, .refl, ?_⟩
    have hsame : s.during w s.b [] [] [] = s := by simp [Pair.during]
    rw [hsame]
    exact h
  obtain ⟨new, got, hduring⟩ := receiveMessages_rule time
    (P := fun srv => ∃ new got, DuringB T w endPointId r earlier s l srv new got [])
    (Q := fun srv event => ∃ new got, DuringB T w endPointId r earlier s l srv new got
      (reportedBy w.addressA srv.socket.history.mark
        (event.map (UdcEvent.report srv.messageBuffer))))
    (C := MayReceive T w endPointId r earlier s)
    (fun srv srv' ⟨new, got, h⟩ hlast => ⟨new, got, duringB_stop h hlast⟩)
    (fun srv p srv' ⟨new, got, h⟩ hturn hmeets => by
      have hnext := duringB_turn h hturn hmeets
      rw [← hturn.report] at hnext
      exact ⟨_, _, hnext⟩)
    (fun srv p srv' e ⟨new, got, h⟩ hturn hmeets => by
      have hnext := duringB_turn h hturn hmeets
      rw [← hturn.report, ← hturn.mark] at hnext
      exact ⟨_, _, hnext⟩)
    hallowed ⟨[], [], hstart⟩
  have hnew : newPackets w.addressA s.b (s.b.receiveMessages time).1
      = new.filter (·.address = w.addressA) := by
    rw [newPackets, hduring.sent, List.drop_left]
  have hgot : newReceived s.b (s.b.receiveMessages time).1 = got := by
    rw [newReceived, hduring.received, List.drop_left]
  have hstep : s.step w (.receiveB time)
      = s.during w (s.b.receiveMessages time).1 new got
        (reportedBy w.addressA (s.b.receiveMessages time).1.socket.history.mark
          ((s.b.receiveMessages time).2.map
            (UdcEvent.report (s.b.receiveMessages time).1.messageBuffer))) := by
    simp only [Pair.step, Pair.receiveB, hnew, hgot, Pair.during]
  rw [hstep]
  exact hduring.simulates

end Receiver

end UdpConnect
