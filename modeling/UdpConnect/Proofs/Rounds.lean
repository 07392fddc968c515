/-
Rounds in which nothing is lost.

In a round a server has its turn with one client and with no other, each datagram it sends to
the peer arrives there and is received by a call of its own, and so does each answer on the way
back (`Wiring.round`).  Between two rounds nothing is in flight, and what the two servers do in one
is what their messages do (`round_exchange`).

For the reliable queue a round is a round of the alternating-bit protocol, so a queue of `k`
messages is delivered, whole and in order, in `k + 2` rounds (`rounds_deliver`).
-/
import UdpConnect.Lib.LossFree
import UdpConnect.Proofs.Community
import UdpConnect.Proofs.Frame
import UdpConnect.Proofs.Commute
import UdpConnect.Proofs.Losses
import UdpConnect.Proofs.Payload
import UdpConnect.Proofs.Session
import UdpConnect.Proofs.Timer

namespace UdpConnect

open Memory AlternatingBit Swap

/-! ### A round -/

/-- Each packet arrives from `source` and is received by a call of its own. -/
def UdcServerImpl.receiveEach (negative : NegativeLength) (time : Milliseconds)
    (source : UdcAddressMux) (index : Nat) (packets : List Packet) :
    UdcServerImpl → UdcServerImpl × List (List Packet × Option Report) :=
  each (fun p => UdcServerImpl.receiveAlone time ⟨index, ⟨source, p.bytes, p.mark⟩, negative⟩)
    packets

/-- When a round begins, and when its datagrams arrive. -/
structure Times where
  tick : Milliseconds
  answer : Milliseconds

/-- What A has sent to B arrives there, and B's answers arrive at A; what A and what B report. -/
def Wiring.deliver (w : Wiring) (time : Milliseconds) (a a' b : UdcServerImpl) :
    (UdcServerImpl × UdcServerImpl) × List Report × List Report :=
  let atB := b.receiveEach w.negative time w.addressA w.socketB (newPackets w.addressB a a')
  let atA := a'.receiveEach w.negative time w.addressB w.socketA
    ((atB.2.flatMap Prod.fst).filter (·.address = w.addressA))
  ((atA.1, atB.1), atA.2.filterMap Prod.snd, atB.2.filterMap Prod.snd)

/-- A's turn with the client, and what comes of it. -/
def Wiring.round (w : Wiring) (endPointId : UdcEndPointId) (x : Times) (a b : UdcServerImpl) :
    (UdcServerImpl × UdcServerImpl) × List Report × List Report :=
  let turn := a.updateClientConnectionStatus x.tick [endPointId]
  let out := w.deliver x.answer a turn.1 b
  (out.1, (turn.2.map (UdcEvent.report turn.1.messageBuffer)).toList ++ out.2.1, out.2.2)

/-- Rounds one after the other. -/
def Wiring.rounds (w : Wiring) (endPointId : UdcEndPointId) :
    List Times → UdcServerImpl → UdcServerImpl →
      (UdcServerImpl × UdcServerImpl) × List Report × List Report
  | [], a, b => ((a, b), [], [])
  | x :: xs, a, b =>
      let y := w.round endPointId x a b
      let z := rounds w endPointId xs y.1.1 y.1.2
      (z.1, y.2.1 ++ z.2.1, y.2.2 ++ z.2.2)

/-- B handles the messages, and A what B answers. -/
def Wiring.talk (w : Wiring) (time : Milliseconds) (ms : List Message) (p q : Protocol) :
    (Protocol × Protocol) × List Report × List Report :=
  let atB := each (fun m q => (q.handle w.addressA time m).step) ms q
  let atA := each (fun m p => (p.handle w.addressB time m).step)
    ((atB.2.flatMap Prod.fst).map Prod.snd) p
  ((atA.1, atB.1), atA.2.filterMap Prod.snd, atB.2.filterMap Prod.snd)

/-- A round as far as the messages go. -/
def Wiring.exchange (w : Wiring) (r : ClientRef) (x : Times) (p q : Protocol) :
    (Protocol × Protocol) × List Report × List Report :=
  let turn := p.tickClient r x.tick
  let out := w.talk x.answer (turn.sends.map Prod.snd) turn.state q
  (out.1, turn.report.toList ++ out.2.1, out.2.2)

/-- How many sockets hear from an address of this family. -/
def UdcServerImpl.socketsFor (s : UdcServerImpl) (source : UdcAddressMux) : Nat :=
  match source.address with
  | .ipv4 _ => s.socket.socketIPv4.length
  | .ipv6 _ => s.socket.socketIPv6.length

section Hearing

variable {s : UdcServerImpl} {d : Incoming}

theorem queue_replicate {Address : Type} (n : Nat) :
    (List.replicate n (⟨[]⟩ : UdcSocket Address)).map UdcSocket.queue = List.replicate n [] := by
  rw [List.map_replicate]
  rfl

theorem queue_arrival {Address : Type} {n index : Nat} (hindex : index < n)
    (arrival : Arrival Address) :
    ((List.replicate n (⟨[]⟩ : UdcSocket Address)).modify index
      fun s => ⟨s.pending ++ [arrival]⟩).map UdcSocket.queue
        = List.replicate index [] ++ [arrival.parcel?] :: List.replicate (n - (index + 1)) [] := by
  rw [List.modify_eq_take_cons_drop (by rwa [List.length_replicate]), List.map_append,
    List.map_cons, List.take_replicate, List.drop_replicate, queue_replicate, queue_replicate,
    Nat.min_eq_left (Nat.le_of_lt hindex), List.getElem_replicate]
  rfl

theorem socketsFor_congr {t : UdcServerImpl} (h : SameShape s t) (source : UdcAddressMux) :
    t.socketsFor source = s.socketsFor source := by
  obtain ⟨ip | ip, port⟩ := source
  · exact h.socketIPv4
  · exact h.socketIPv6

/-- A datagram alone in the queues is reached if it fits. -/
theorem reaches_alone {n : Nat} {x : Parcel} (hn : n < 2 ^ 31) (hpos : 0 < x.length)
    (hfits : x.length ≤ n) (before after : Nat) :
    Reaches n (List.replicate before [] ++ [some x] :: List.replicate after []) := by
  refine ⟨hn, _, x, [], _, rfl, hpos, hfits, ?_⟩
  intro queue hqueue x' hhead
  rw [List.eq_of_mem_replicate hqueue] at hhead
  cases hhead

/-- A datagram is heard if there is a socket for it and it fits the buffer. -/
theorem hears_bound (hbound : d.index < s.socketsFor d.packet.address)
    (hsmall : s.messageBufferSize < 2 ^ 31) (hpos : 0 < d.packet.bytes.length)
    (hfits : d.packet.bytes.length ≤ s.messageBufferSize) : s.hears d = true := by
  refine (scan_found_iff _ _).mpr ?_
  obtain ⟨index, ⟨⟨ip | ip, port⟩, bytes, mark⟩, negative⟩ := d
  · have hqueues : (s.arrived ⟨index, ⟨⟨.ipv4 ip, port⟩, bytes, mark⟩, negative⟩).socket.queues
        = List.replicate (s.socket.socketIPv6.length + index) [] ++
          [some ⟨bytes.length, negative⟩] ::
            List.replicate (s.socket.socketIPv4.length - (index + 1)) [] := by
      rw [← List.replicate_append_replicate, List.append_assoc, ← queue_replicate]
      exact congrArg _ (queue_arrival hbound _)
    rw [hqueues]
    exact reaches_alone hsmall hpos hfits _ _
  · have hqueues : (s.arrived ⟨index, ⟨⟨.ipv6 ip, port⟩, bytes, mark⟩, negative⟩).socket.queues
        = List.replicate index [] ++ [some ⟨bytes.length, negative⟩] ::
          List.replicate (s.socket.socketIPv6.length - (index + 1) + s.socket.socketIPv4.length) []
        := by
      rw [← List.replicate_append_replicate, ← List.cons_append, ← List.append_assoc]
      exact congrArg₂ _ (queue_arrival hbound _) (queue_replicate _)
    rw [hqueues]
    exact reaches_alone hsmall hpos hfits _ _

/-- **Receiving datagrams one by one is handling their messages one by one.** -/
theorem receiveEach_mirrors (s : UdcServerImpl) (negative : NegativeLength)
    (time : Milliseconds) {source : UdcAddressMux} {index : Nat}
    (hbound : index < s.socketsFor source) (hsmall : s.messageBufferSize < 2 ^ 31)
    (mark : Mark) (xs : List (UdcAddressMux × Message))
    (hxs : ∀ x ∈ xs, x.2.WF ∧ 5 + x.2.body.length ≤ s.messageBufferSize) :
    Mirrors (SameShape s) UdcServerImpl.protocol
      (List.map fun out => (replyPackets s.packetSignature mark out.1, out.2))
      (UdcServerImpl.receiveEach negative time source index
        (replyPackets s.packetSignature mark xs))
      (each (fun m p => (p.handle source time m).step) (xs.map Prod.snd)) := by
  have hall : ∀ x ∈ xs, Mirrors (SameShape s) UdcServerImpl.protocol
      (fun out => (replyPackets s.packetSignature mark out.1, out.2))
      (UdcServerImpl.receiveAlone time
        ⟨index, ⟨source, encode s.packetSignature.bytes x.2, mark⟩, negative⟩)
      (fun p => (p.handle source time x.2).step) := by
    intro x hx
    obtain ⟨hwf, hfits⟩ := hxs x hx
    have hlen : (encode s.packetSignature.bytes x.2).length = 5 + x.2.body.length := by
      rw [encode, List.length_append, List.length_cons, s.packetSignature.size]
      omega
    have hhears :
        s.hears ⟨index, ⟨source, encode s.packetSignature.bytes x.2, mark⟩, negative⟩ = true :=
      hears_bound hbound hsmall (by simp only [hlen]; omega) (by simp only [hlen]; exact hfits)
    have h := receiveAlone_mirrors s time
      ⟨index, ⟨source, encode s.packetSignature.bytes x.2, mark⟩, negative⟩
    simp only [hhears, if_true, Protocol.react, decode_encode s.packetSignature.size hwf] at h
    exact h
  have h := Mirrors.each xs hall
  unfold UdcServerImpl.receiveEach replyPackets
  simp only [funext (each_map _ _)]
  exact h

end Hearing

section Fronts

variable {s : UdcServerImpl} {d : Incoming} {time : Milliseconds}

/-- A datagram that carries the signature leaves it in the buffer. -/
theorem front_receiveAlone (time : Milliseconds) (hfront : s.front = s.packetSignature.bytes)
    (hagrees : Agrees s.packetSignature d.packet.bytes) :
    (s.receiveAlone time d).1.front = s.packetSignature.bytes := by
  obtain ⟨hshape, -, -⟩ := arrived_frame s d
  have hsame : (s.arrived d).front = s.front := by
    obtain ⟨index, ⟨⟨ip | ip, port⟩, bytes, mark⟩, negative⟩ := d <;> rfl
  obtain ⟨new, hnew, hinbox, hothers⟩ :=
    inbox_arrival s.emptied d.negative d.packet.address d.index d.packet
  have hagree : (s.arrived d).socket.Agree (s.arrived d).packetSignature := by
    intro name q hq
    rw [hshape.signature]
    have hq : q ∈ (step s.emptied (arrivalFrom d.negative d.packet.address
      d.index d.packet)).1.socket.inbox name := hq
    by_cases hname : name = socketFor d.packet.address d.index
    · rw [hname, hinbox, inbox_idle (backlog_emptied s), List.nil_append] at hq
      rcases hnew with rfl | rfl
      · cases hq
      · rw [List.mem_singleton.mp hq]
        exact hagrees
    · rw [hothers name hname, inbox_idle (backlog_emptied s)] at hq
      cases hq
  have h := receiveMessages_front (s := s.arrived d)
    (by rw [hsame, hshape.signature, hfront]) (keepsSignature_of_agree hagree time)
  rw [hshape.signature] at h
  exact h

theorem front_receiveEach (negative : NegativeLength) (time : Milliseconds)
    (source : UdcAddressMux) (index : Nat) (mark : Mark) (xs : List (UdcAddressMux × Message)) :
    ∀ s : UdcServerImpl, s.front = s.packetSignature.bytes →
      ∀ signature, signature = s.packetSignature →
      (s.receiveEach negative time source index (replyPackets signature mark xs)).1.front
        = signature.bytes := by
  induction xs with
  | nil =>
      rintro s hfront _ rfl
      exact hfront
  | cons x xs ih =>
      rintro s hfront _ rfl
      have hkeeps := (receiveAlone_mirrors s time
        ⟨index, ⟨source, encode s.packetSignature.bytes x.2, mark⟩, negative⟩).keeps s
          ⟨rfl, rfl, rfl, rfl⟩
      have hagrees : Agrees s.packetSignature (encode s.packetSignature.bytes x.2) := by
        rw [Agrees, take_encode]
      have hnext := front_receiveAlone time
        (d := ⟨index, ⟨source, encode s.packetSignature.bytes x.2, mark⟩, negative⟩) hfront hagrees
      exact ih _ (hnext.trans (congrArg UdcSignature.bytes hkeeps.signature.symm)) _
        hkeeps.signature.symm

end Fronts

/-! ### What a round is -/

/-- A and B can hear each other. -/
structure Wired (w : Wiring) (a b : UdcServerImpl) : Prop where
  front : a.front = a.packetSignature.bytes
  signature : b.packetSignature = a.packetSignature
  socketA : w.socketA < a.socketsFor w.addressB
  socketB : w.socketB < b.socketsFor w.addressA
  smallA : a.messageBufferSize < 2 ^ 31
  smallB : b.messageBufferSize < 2 ^ 31

/-- And A has a connection to B, for which nothing is queued that does not fit. -/
structure Facing (w : Wiring) (endPointId : UdcEndPointId) (r : ClientRef)
    (a b : UdcServerImpl) : Prop extends Wired w a b where
  byId : a.clientsById.lookup endPointId = some r
  byAddress : a.clientsByAddress.lookup w.addressB = some r
  outgoing : (a.heap r).outgoingAddress = w.addressB
  room : ∀ msg ∈ (a.heap r).reliableMessages,
    9 + msg.length ≤ a.messageBufferSize ∧ 9 + msg.length ≤ b.messageBufferSize

/-- The message goes to B, and fits both buffers. -/
structure Suits (w : Wiring) (a b : UdcServerImpl) (x : UdcAddressMux × Message) : Prop where
  address : x.1 = w.addressB
  wf : x.2.WF
  fits : x.2.Fits a.messageBufferSize
  roomA : 5 + x.2.body.length ≤ a.messageBufferSize
  roomB : 5 + x.2.body.length ≤ b.messageBufferSize

section Exchange

variable {w : Wiring} {endPointId : UdcEndPointId} {r : ClientRef} {a b a' b' : UdcServerImpl}
  {p : Protocol} {address : UdcAddressMux} {time : Milliseconds} {m : Message}

theorem suits_word (hbody : m.body.length = 4) (hdata : m.data = []) (hwf : m.WF) :
    Suits w a b (w.addressB, m) := by
  have hnine := nine_le a
  have hnine' := nine_le b
  exact ⟨rfl, hwf, fits_word hnine hdata hbody, by simp only; omega, by simp only; omega⟩

/-- A client's turn sends what suits to the client's address. -/
theorem turn_suits (h : Facing w endPointId r a b) (time : Milliseconds) :
    ∀ y ∈ (a.protocol.tickClient r time).sends, Suits w a b y := by
  rintro ⟨address, m⟩ hy
  have htick : a.protocol.tick endPointId time = a.protocol.tickClient r time := by
    rw [Protocol.tick, show a.protocol.clientsById.lookup endPointId = some r from h.byId]
  rw [← htick] at hy
  obtain ⟨r', hlookup, haddress, hkind⟩ := tick_sends hy
  obtain rfl : r = r' := Option.some.inj (h.byId.symm.trans hlookup)
  obtain rfl : address = w.addressB := haddress.trans h.outgoing
  rcases hkind with hm | hm
  · obtain rfl : m = .ping (u32 time) := hm
    exact suits_word (length_le32 _) rfl (u32_lt time)
  · rcases mem_sendReliable hm with ⟨-, rfl⟩ | ⟨-, msg, hfront, rfl⟩
    · exact suits_word (length_le32 _) rfl ⟨u32_lt time, rfl⟩
    · obtain ⟨hroom, hroom'⟩ := h.room msg (List.mem_of_mem_head? hfront)
      have hsmall := h.smallA
      have hlen : (Message.reliable (.bit ((a.protocol.heap r).reliableState ≠ 0)) (u32 time)
          msg).body.length = 4 + msg.length := by
        rw [Message.body, List.length_append, length_le32]
      refine ⟨rfl, u32_lt time, fits_reliable (by omega) ?_, ?_, ?_⟩
      · rw [u32_of_lt (by omega)]
        exact hroom
      · rw [hlen]
        omega
      · rw [hlen]
        omega

/-- The answer to a message is a word like the one that came. -/
theorem handle_sends (hm : m.WF) : ∀ y ∈ (p.handle address time m).sends,
    y.1 = address ∧ y.2.WF ∧ y.2.body.length = 4 := by
  intro y hy
  rcases handle_reply p address time hm with hnone | ⟨reply, hsends, hwf, -, -⟩
  · rw [hnone] at hy
    cases hy
  · have hkind := handle_answers hy
    rw [hsends] at hy
    obtain rfl := List.mem_singleton.mp hy
    refine ⟨rfl, hwf, ?_⟩
    rcases hkind with ⟨i, -, hi⟩ | ⟨t, ht⟩ | ⟨kind, t, ht⟩
    · rw [hi]
      exact length_le32 _
    · rw [ht]
      exact length_le32 _
    · rw [ht]
      exact length_le32 _

/-- What a call and its answers keep. -/
structure Kept (a b a' b' : UdcServerImpl) : Prop where
  shapeA : SameShape a a'
  shapeB : SameShape b b'
  front : a'.front = a.packetSignature.bytes

theorem Wired.kept (h : Wired w a b) (hkept : Kept a b a' b') : Wired w a' b' where
  front := by rw [hkept.front, hkept.shapeA.signature]
  signature := by rw [hkept.shapeB.signature, hkept.shapeA.signature, h.signature]
  socketA := by
    rw [socketsFor_congr hkept.shapeA]
    exact h.socketA
  socketB := by
    rw [socketsFor_congr hkept.shapeB]
    exact h.socketB
  smallA := by
    rw [hkept.shapeA.size]
    exact h.smallA
  smallB := by
    rw [hkept.shapeB.size]
    exact h.smallB

/-- The packets of a call that sends what suits. -/
theorem performs_packets (h : Wired w a b) {event : Option UdcEvent} {reaction : Reaction}
    (hperf : Performs a a' event reaction) (hsuits : ∀ y ∈ reaction.sends, Suits w a b y) :
    SameShape a a' ∧ newPackets w.addressB a a'
      = replyPackets a.packetSignature a.socket.history.mark reaction.sends := by
  obtain ⟨new, hsocket, hnew⟩ := hperf.socket
  obtain rfl := hnew fun y hy => (hsuits y hy).fits
  refine ⟨⟨hperf.signature, hperf.size, by rw [hsocket], by rw [hsocket]⟩, ?_⟩
  rw [newPackets, hsocket, List.drop_left, List.filter_eq_self.mpr fun y hy => ?_]
  · refine List.map_congr_left fun y hy => ?_
    rw [UdcServerImpl.wirePacket,
      wire_short length_front ((hsuits y hy).roomA.trans_lt a.messageBuffer.size_lt), h.front]
  · obtain ⟨x, hx, rfl⟩ := List.mem_map.mp hy
    exact decide_eq_true (hsuits x hx).address

/-- **What is delivered is what the messages do.** -/
theorem deliver_talk (h : Wired w a b) {event : Option UdcEvent} {reaction : Reaction}
    (hperf : Performs a a' event reaction) (hsuits : ∀ y ∈ reaction.sends, Suits w a b y)
    (time : Milliseconds) :
    Kept a b (w.deliver time a a' b).1.1 (w.deliver time a a' b).1.2 ∧
      ((w.deliver time a a' b).1.1.protocol, (w.deliver time a a' b).1.2.protocol)
        = (w.talk time (reaction.sends.map Prod.snd) reaction.state b.protocol).1 ∧
      (w.deliver time a a' b).2
        = (w.talk time (reaction.sends.map Prod.snd) reaction.state b.protocol).2 := by
  obtain ⟨hshape, hpackets⟩ := performs_packets h hperf hsuits
  have hfront := hperf.front
  have hstate := hperf.state
  unfold Wiring.deliver Wiring.talk
  simp only [hpackets]
  generalize a.socket.history.mark = mark
  -- B receives what A has sent
  have hB := receiveEach_mirrors b w.negative time h.socketB h.smallB mark reaction.sends
    fun y hy => ⟨(hsuits y hy).wf, (hsuits y hy).roomB⟩
  rw [h.signature] at hB
  have hkeptB := hB.keeps b ⟨rfl, rfl, rfl, rfl⟩
  have hstateB := hB.state b ⟨rfl, rfl, rfl, rfl⟩
  have houtB := hB.out b ⟨rfl, rfl, rfl, rfl⟩
  have hanswers : ∀ y ∈ (each (fun m q => (q.handle w.addressA time m).step)
      (reaction.sends.map Prod.snd) b.protocol).2.flatMap Prod.fst,
      y.1 = w.addressA ∧ y.2.WF ∧ y.2.body.length = 4 := by
    intro y hy
    obtain ⟨out, hout, hy⟩ := List.mem_flatMap.mp hy
    obtain ⟨m, hm, q, rfl⟩ := each_mem hout
    obtain ⟨z, hz, rfl⟩ := List.mem_map.mp hm
    exact handle_sends (hsuits z hz).wf y hy
  generalize each (fun m q => (q.handle w.addressA time m).step) (reaction.sends.map Prod.snd)
    b.protocol = atB at hstateB houtB hanswers
  generalize b.receiveEach w.negative time w.addressA w.socketB
    (replyPackets a.packetSignature mark reaction.sends) = srvB at hkeptB hstateB houtB
  -- A receives the answers
  have hreplies : (srvB.2.flatMap Prod.fst).filter (·.address = w.addressA)
      = replyPackets a'.packetSignature mark (atB.2.flatMap Prod.fst) := by
    rw [houtB, List.flatMap_map, hshape.signature, List.filter_eq_self.mpr fun y hy => ?_]
    · simp only [replyPackets, List.map_flatMap]
    · obtain ⟨out, hout, hy⟩ := List.mem_flatMap.mp hy
      obtain ⟨z, hz, rfl⟩ := List.mem_map.mp hy
      exact decide_eq_true (hanswers z (List.mem_flatMap.mpr ⟨out, hout, hz⟩)).1
  have hsocketA : w.socketA < a'.socketsFor w.addressB := by
    rw [socketsFor_congr hshape]
    exact h.socketA
  have hA := receiveEach_mirrors a' w.negative time hsocketA (hshape.size ▸ h.smallA) mark
    (atB.2.flatMap Prod.fst) fun y hy => by
      have hnine := nine_le a'
      obtain ⟨-, hwf, hlen⟩ := hanswers y hy
      exact ⟨hwf, by omega⟩
  have hkeptA := hA.keeps a' ⟨rfl, rfl, rfl, rfl⟩
  have hstateA := hA.state a' ⟨rfl, rfl, rfl, rfl⟩
  have houtA := hA.out a' ⟨rfl, rfl, rfl, rfl⟩
  have hfrontA := front_receiveEach w.negative time w.addressB w.socketA mark
    (atB.2.flatMap Prod.fst) a' (by rw [hfront, h.front, hshape.signature]) _ rfl
  rw [hreplies]
  refine ⟨⟨hshape.trans hkeptA, hkeptB, ?_⟩, ?_, ?_⟩
  · rw [hfrontA, hshape.signature]
  · rw [hstateA, hstateB, hstate]
  · rw [houtA, houtB, hstate, List.filterMap_map, List.filterMap_map]
    rfl

theorem tick_single (hlookup : a.clientsById.lookup endPointId = some r) :
    a.updateClientConnectionStatus time [endPointId] = a.tickClient r time := by
  rw [(order_turn time [] hlookup).2]
  generalize a.tickClient r time = t
  obtain ⟨s', _ | event⟩ := t <;> rfl

/-- **A round is what the messages do.** -/
theorem round_exchange (h : Facing w endPointId r a b) (x : Times) :
    Kept a b (w.round endPointId x a b).1.1 (w.round endPointId x a b).1.2 ∧
      ((w.round endPointId x a b).1.1.protocol, (w.round endPointId x a b).1.2.protocol)
        = (w.exchange r x a.protocol b.protocol).1 ∧
      (w.round endPointId x a b).2 = (w.exchange r x a.protocol b.protocol).2 := by
  have hperf := tickClient_performs (s := a) x.tick r
  rw [← tick_single h.byId] at hperf
  obtain ⟨hkept, hstates, hreports⟩ := deliver_talk h.toWired hperf (turn_suits h x.tick) x.answer
  refine ⟨hkept, hstates, ?_⟩
  unfold Wiring.round Wiring.exchange
  simp only [hreports, hperf.report]

end Exchange

/-! ### What the messages of a round do -/

/-- A's queue and B's expected bit are the two ends. -/
structure Plays (w : Wiring) (r : ClientRef) (x : Ends (List UInt8)) (p q : Protocol) : Prop where
  byAddress : p.clientsByAddress.lookup w.addressB = some r
  queue : (p.heap r).reliableMessages = x.queue
  mode : (p.heap r).reliableState = stateOf x.mode
  expected : q.reliableStates.lookup w.addressA = x.expected.map fun b => stateOf (.bit b)

/-- The client has heard from B at this time, and measured this ping. -/
structure UdcClient.Hears (c : UdcClient) (ping time : Milliseconds) : Prop where
  isConnected : c.isConnected = true
  lastReceivedTime : c.lastReceivedTime = time
  pingLastSetTime : c.pingLastSetTime = time
  ping : c.ping = ping

/-- What a client that was lost, or was not, reports when it is answered. -/
def UdcClient.regained (c : UdcClient) : List Report :=
  if c.isConnected then [] else [.connection .connectionRegained c.id]

/-- What a round has come to when these messages have been said, after the turn that left the
client as it is. -/
structure Rounded (w : Wiring) (r : ClientRef) (x : Times) (ms : List Message) (p : Protocol)
    (c : UdcClient) (y : Ends (List UInt8) × List (List UInt8))
    (out : (Protocol × Protocol) × List Report × List Report) : Prop where
  plays : Plays w r y.1 out.1.1 out.1.2
  toldB : out.2.2 = y.2.map fun data => .message w.addressA MsgReliable.size data
  client : ∃ c', out.1.1 = p.setClient r c'
  settings : (out.1.1.heap r).settings = c.settings
  timer : (out.1.1.heap r).reliableSentTime = 0
  silent : ms = [] → (out.1.1.heap r).isConnected = c.isConnected ∧ out.2.1 = []
  hears : ms ≠ [] → (out.1.1.heap r).Hears (x.answer - u32 x.tick) x.answer ∧
    out.2.1 = c.regained

section Talking

variable {w : Wiring} {r : ClientRef} {p q : Protocol} {time : Milliseconds} {ms : List Message}
  {x : Ends (List UInt8)} {timeStamp : Nat} {c : UdcClient} {change : UdcClient → UdcClient}

theorem talk_append (w : Wiring) (time : Milliseconds) (ms ms' : List Message) (p q : Protocol) :
    w.talk time (ms ++ ms') p q =
      ((w.talk time ms' (w.talk time ms p q).1.1 (w.talk time ms p q).1.2).1,
        (w.talk time ms p q).2.1
          ++ (w.talk time ms' (w.talk time ms p q).1.1 (w.talk time ms p q).1.2).2.1,
        (w.talk time ms p q).2.2
          ++ (w.talk time ms' (w.talk time ms p q).1.1 (w.talk time ms p q).1.2).2.2) := by
  simp only [Wiring.talk, each_append, List.flatMap_append, List.map_append, List.filterMap_append]

/-- What an answer does to the client. -/
theorem answered_only (c : UdcClient) (change : UdcClient → UdcClient)
    (hchange : (change c).isConnected = c.isConnected ∧ (change c).settings = c.settings)
    (timeStamp : Nat) (time : Milliseconds) :
    (c.answered time timeStamp change).1.Hears (time - timeStamp) time ∧
      (c.answered time timeStamp change).1.settings = c.settings ∧
      (c.answered time timeStamp change).2.toList = c.regained := by
  obtain ⟨hconn, hsettings⟩ := hchange
  have hpong := receivePong_eq (change c) (timeStamp : Milliseconds) time
  obtain ⟨hsame, -, hregained⟩ := receivePong_same (change c) (timeStamp : Milliseconds) time
  have hid : (change c).id = c.id := congrArg Settings.id hsettings
  unfold UdcClient.answered UdcClient.regained
  simp only [hregained, hconn, hsame.id, hid]
  rw [hpong]
  refine ⟨⟨rfl, rfl, rfl, rfl⟩, hsettings, ?_⟩
  cases c.isConnected <;> rfl

/-- And what it does not. -/
structure SameQueue (c c' : UdcClient) : Prop where
  reliableMessages : c'.reliableMessages = c.reliableMessages
  reliableState : c'.reliableState = c.reliableState
  reliableSentTime : c'.reliableSentTime = c.reliableSentTime

theorem answered_queue (c : UdcClient) (time : Milliseconds) (timeStamp : Nat)
    (change : UdcClient → UdcClient) :
    SameQueue (change c) (c.answered time timeStamp change).1 := by
  unfold UdcClient.answered
  simp only
  rw [receivePong_eq]
  exact ⟨rfl, rfl, rfl⟩

/-- An answer in time finds its client. -/
theorem answer_finds (hlookup : p.clientsByAddress.lookup w.addressB = some r)
    (htime : ¬ time < timeStamp) (change : UdcClient → UdcClient) :
    p.answer w.addressB time timeStamp change
      = ⟨p.setClient r ((p.heap r).answered time timeStamp change).1, [],
        ((p.heap r).answered time timeStamp change).2⟩ := by
  rw [answer_eq_touch, Protocol.target, if_neg htime, hlookup]
  rfl

/-- A ping is answered, and changes nothing but what A knows of the connection. -/
theorem talk_ping (h : Plays w r x p q) (htime : ¬ time < timeStamp) :
    w.talk time [.ping timeStamp] p q
      = ((p.setClient r ((p.heap r).answered time timeStamp id).1, q),
        ((p.heap r).answered time timeStamp id).2.toList, []) := by
  have hanswer := answer_finds h.byAddress htime id
  simp only [Wiring.talk, each, Protocol.handle, Reaction.step, List.flatMap_cons,
    List.flatMap_nil, List.append_nil, List.map_cons, List.map_nil, List.filterMap_cons,
    List.filterMap_nil]
  rw [hanswer]
  cases ((p.heap r).answered time timeStamp id).2 <;> rfl

/-- A reliable message is acknowledged, whatever B makes of it. -/
theorem talk_reliable (h : Plays w r x p q) (htime : ¬ time < timeStamp) (kind : Kind)
    (data : List UInt8) :
    w.talk time [.reliable kind timeStamp data] p q
      = ((p.setClient r ((p.heap r).answered time timeStamp
            fun c => c.acceptHandshake (stateOf kind)).1,
          (q.reliable w.addressA kind timeStamp data).state),
        ((p.heap r).answered time timeStamp fun c => c.acceptHandshake (stateOf kind)).2.toList,
        (q.reliable w.addressA kind timeStamp data).report.toList) := by
  have hanswer := answer_finds h.byAddress htime fun c => c.acceptHandshake (stateOf kind)
  have hsends : (q.reliable w.addressA kind timeStamp data).sends
      = [(w.addressA, .reliableHandshake kind timeStamp)] := by
    cases kind <;> rfl
  simp only [Wiring.talk, each, Protocol.handle, Reaction.step, hsends, List.flatMap_cons,
    List.flatMap_nil, List.append_nil, List.map_cons, List.map_nil]
  rw [hanswer]
  cases (q.reliable w.addressA kind timeStamp data).report <;>
    cases ((p.heap r).answered time timeStamp fun c => c.acceptHandshake (stateOf kind)).2 <;> rfl

theorem Plays.setClient {x' : Ends (List UInt8)} {q' : Protocol} (h : Plays w r x p q)
    (hqueue : c.reliableMessages = x'.queue) (hmode : c.reliableState = stateOf x'.mode)
    (hexpected : q'.reliableStates.lookup w.addressA
      = x'.expected.map fun b => stateOf (.bit b)) : Plays w r x' (p.setClient r c) q' where
  byAddress := h.byAddress
  queue := by rw [Protocol.heap_setClient_self, hqueue]
  mode := by rw [Protocol.heap_setClient_self, hmode]
  expected := hexpected

theorem setClient_setClient (p : Protocol) (r : ClientRef) (c c' : UdcClient) :
    (p.setClient r c).setClient r c' = p.setClient r c' := by
  simp [Protocol.setClient]

end Talking

/-! ### One round -/

/-- A round takes no negative time, on a clock that never runs below zero. -/
def Times.Forward (x : Times) : Prop := 0 ≤ x.tick ∧ x.tick ≤ x.answer

instance (x : Times) : Decidable x.Forward := inferInstanceAs (Decidable (_ ∧ _))

section OneRound

variable {w : Wiring} {r : ClientRef} {p q : Protocol} {x : Times} {ends : Ends (List UInt8)}
  {c : UdcClient} {mode : Kind}

/-- The time stamp of a round, which is shortened to 32 bits, is never in the future. -/
theorem Times.Forward.stamp (h : x.Forward) : ¬ x.answer < (u32 x.tick : Nat) :=
  not_lt.mpr (le_trans (u32_le h.1) h.2)

/-- A client that says nothing. -/
theorem rounded_nothing (h : Plays w r ends p q) (hqueue : c.reliableMessages = ends.queue)
    (hmode : c.reliableState = stateOf mode) (htimer : c.reliableSentTime = 0) :
    Rounded w r x [] p c ({ ends with mode := mode }, [])
      (w.talk x.answer [] (p.setClient r c) q) := by
  have hsame : (w.talk x.answer [] (p.setClient r c) q).1.1.heap r = c :=
    Protocol.heap_setClient_self p r c
  refine ⟨h.setClient hqueue hmode h.expected, rfl, ⟨c, rfl⟩, ?_, ?_, fun _ => ⟨?_, rfl⟩,
    fun hne => absurd rfl hne⟩
  · rw [hsame]
  · rw [hsame, htimer]
  · rw [hsame]

/-- What becomes of two ends when the message in front, or the reset, has been acknowledged. -/
def exchanged (data : List UInt8) : Ends (List UInt8) → Ends (List UInt8) × List (List UInt8)
  | ⟨queue, .reset, expected⟩ => (⟨queue, .bit false, expected.map fun _ => false⟩, [])
  | ⟨queue, .bit b, expected⟩ =>
      (⟨queue.tail, .bit !b, some !b⟩, if expected.all (· = b) then [data] else [])

/-- A client that sends the message in front, or a reset. -/
theorem rounded_reliable (h : Plays w r ends p q) (hx : x.Forward)
    (hqueue : c.reliableMessages = ends.queue) (hmode : c.reliableState = stateOf ends.mode)
    (data : List UInt8) :
    Rounded w r x [.reliable ends.mode (u32 x.tick) data] p c (exchanged data ends)
      (w.talk x.answer [.reliable ends.mode (u32 x.tick) data] (p.setClient r c) q) := by
  have hplays : Plays w r ends (p.setClient r c) q := h.setClient hqueue hmode h.expected
  obtain ⟨hstate, hsent, hmessages⟩ := acceptHandshake_match hmode
  have hexpected := h.expected
  rw [talk_reliable hplays hx.stamp, Protocol.heap_setClient_self, setClient_setClient]
  obtain ⟨hhears, hsettings, htold⟩ := answered_only c
    (fun c => c.acceptHandshake (stateOf ends.mode))
    ⟨(acceptHandshake_same c _).2, settings_acceptHandshake c _⟩ (u32 x.tick) x.answer
  have hlast := answered_queue c x.answer (u32 x.tick) fun c =>
    c.acceptHandshake (stateOf ends.mode)
  refine ⟨?_, ?_, ⟨_, rfl⟩, ?_, ?_, fun hnil => absurd hnil (List.cons_ne_nil _ _),
    fun _ => ⟨?_, htold⟩⟩
  · obtain ⟨queue, _ | b, expected⟩ := ends
    · refine h.setClient ?_ ?_ ?_
      · rw [hlast.reliableMessages, hmessages, if_pos rfl, hqueue]
        rfl
      · rw [hlast.reliableState, hstate]
        rfl
      · cases expected with
        | none => simp [exchanged, Protocol.reliable, hexpected]
        | some b => simp [exchanged, Protocol.reliable, hexpected, stateOf]
    · refine h.setClient ?_ ?_ ?_
      · rw [hlast.reliableMessages, hmessages, if_neg Kind.noConfusion, hqueue]
        rfl
      · rw [hlast.reliableState, hstate]
        cases b <;> rfl
      · simp [exchanged, Protocol.reliable]
  · obtain ⟨queue, _ | b, expected⟩ := ends
    · rfl
    · cases expected with
      | none => simp [exchanged, Protocol.reliable, hexpected]
      | some b' =>
          by_cases hb : b' = b
          · simp [exchanged, Protocol.reliable, hexpected, hb]
          · have hne : ¬ stateOf (.bit b') = stateOf (.bit b) := by
              rw [stateOf_inj]
              exact fun h => hb (Kind.bit.inj h)
            simp [exchanged, Protocol.reliable, hexpected, hb, hne]
  · rw [Protocol.heap_setClient_self, hsettings]
  · rw [Protocol.heap_setClient_self, hlast.reliableSentTime, hsent]
  · rw [Protocol.heap_setClient_self]
    exact hhears

/-- **What the reliable message of a turn comes to** is a round of the two ends. -/
theorem rounded_turn (h : Plays w r ends p q) (hx : x.Forward) (hsettled : (p.heap r).Settled) :
    Rounded w r x ((p.heap r).sendReliable x.tick).2 p ((p.heap r).turned x.tick)
      (ends.round ((p.heap r).needsReliableReset x.tick))
      (w.talk x.answer ((p.heap r).sendReliable x.tick).2
        (p.setClient r ((p.heap r).turned x.tick)) q) := by
  obtain ⟨hstate, hsent⟩ := turned_reliable (p.heap r) x.tick
  have hmessages := (reliableMessages_turned (p.heap r) x.tick).1
  generalize (p.heap r).turned x.tick = c at hstate hsent hmessages
  have hqueue := h.queue
  have hmode := h.mode
  unfold UdcClient.sendReliable at hstate hsent ⊢
  obtain ⟨queue, mode, expected⟩ := ends
  cases queue with
  | nil =>
      simp only [hqueue] at hstate hsent ⊢
      exact rounded_nothing h (hmessages.trans hqueue) (hstate.trans hmode)
        (hsent.trans (hsettled hqueue))
  | cons m rest =>
      simp only [hqueue] at hstate hsent ⊢
      cases mode with
      | reset =>
          simp only [if_pos (show (p.heap r).reliableState = -1 from hmode)] at hstate hsent ⊢
          exact rounded_reliable h hx (hmessages.trans hqueue) (hstate.trans hmode) []
      | bit b =>
          have hbit : ¬ (p.heap r).reliableState = -1 := by
            rw [hmode]
            cases b <;> nofun
          simp only [if_neg hbit] at hstate hsent ⊢
          by_cases hneeds : (p.heap r).needsReliableReset x.tick
          · simp only [if_pos hneeds] at hstate hsent ⊢
            simp only [hneeds]
            exact rounded_nothing h (hmessages.trans hqueue) hstate hsent
          · simp only [if_neg hneeds] at hstate hsent ⊢
            have hkind : (.bit (decide ((p.heap r).reliableState ≠ 0)) : Kind) = .bit b := by
              rw [hmode]
              cases b <;> rfl
            rw [hkind, Bool.eq_false_iff.mpr hneeds]
            exact rounded_reliable h hx (hmessages.trans hqueue)
              ((hstate.trans (setSendReliable_same _ _).1).trans hmode) m

/-- The ping behind it changes nothing about the queue. -/
theorem Rounded.ping {ms : List Message} {y : Ends (List UInt8) × List (List UInt8)}
    (h : Rounded w r x ms p c y (w.talk x.answer ms (p.setClient r c) q)) (hx : x.Forward)
    (c' : UdcClient) :
    Rounded w r x (ms ++ c'.sendPing x.tick) p c y
      (w.talk x.answer (ms ++ c'.sendPing x.tick) (p.setClient r c) q) := by
  unfold UdcClient.sendPing
  by_cases hneeds : c'.needsPing x.tick
  · rw [if_pos hneeds, talk_append, talk_ping h.plays hx.stamp]
    obtain ⟨hplays, htoldB, ⟨d, hd⟩, hsettings, htimer, hsilent, hhears⟩ := h
    generalize w.talk x.answer ms (p.setClient r c) q = out at *
    obtain ⟨⟨p', q'⟩, toldA, toldB⟩ := out
    obtain ⟨hhears', hsettings', htold⟩ :=
      answered_only (p'.heap r) id ⟨rfl, rfl⟩ (u32 x.tick) x.answer
    have hlast := answered_queue (p'.heap r) x.answer (u32 x.tick) id
    refine ⟨hplays.setClient ?_ ?_ hplays.expected, ?_, ?_, ?_, ?_, fun hnil => ?_,
      fun _ => ⟨?_, ?_⟩⟩
    · rw [hlast.reliableMessages]
      exact hplays.queue
    · rw [hlast.reliableState]
      exact hplays.mode
    · rw [List.append_nil]
      exact htoldB
    · simp only at hd
      rw [hd, setClient_setClient]
      exact ⟨_, rfl⟩
    · rw [Protocol.heap_setClient_self, hsettings']
      exact hsettings
    · rw [Protocol.heap_setClient_self, hlast.reliableSentTime]
      exact htimer
    · exact absurd hnil (List.append_ne_nil_of_right_ne_nil _ (List.cons_ne_nil _ _))
    · rw [Protocol.heap_setClient_self]
      exact hhears'
    · have hid : (p'.heap r).id = c.id := congrArg Settings.id hsettings
      by_cases hms : ms = []
      · obtain ⟨hconn, hnone⟩ := hsilent hms
        simp only at hconn hnone
        rw [hnone, List.nil_append, htold, UdcClient.regained, hconn, hid, UdcClient.regained]
      · obtain ⟨hheard, hsome⟩ := hhears hms
        simp only at hheard hsome
        have hnone : (p'.heap r).regained = [] := if_pos hheard.isConnected
        rw [hsome, htold, hnone, List.append_nil]
  · rw [if_neg hneeds, List.append_nil]
    exact h

/-- **What the messages of a round do** is a round of the two ends. -/
theorem exchange_rounded (h : Plays w r ends p q) (hx : x.Forward)
    (hsettled : (p.heap r).Settled) :
    Rounded w r x ((p.tickClient r x.tick).sends.map Prod.snd) p ((p.heap r).turned x.tick)
      (ends.round ((p.heap r).needsReliableReset x.tick))
      (w.talk x.answer ((p.tickClient r x.tick).sends.map Prod.snd)
        (p.tickClient r x.tick).state q) := by
  have hsends : (p.tickClient r x.tick).sends.map Prod.snd
      = ((p.heap r).sendReliable x.tick).2
        ++ ((p.heap r).sendReliable x.tick).1.sendPing x.tick := by
    rw [(tickClient_client p r x.tick).1, List.map_map]
    exact List.map_id _
  rw [hsends, tickClient_state]
  exact (rounded_turn h hx hsettled).ping hx _

end OneRound

/-! ### The two ends of servers that run -/

/-- The reliable state is one of three, and no message is in flight while none is queued. -/
structure UdcClient.Toggles (c : UdcClient) : Prop where
  settled : c.Settled
  kind : ∃ kind, c.reliableState = stateOf kind

/-- No bit is expected yet, or one of the two. -/
def Bits (p : Protocol) : Prop :=
  ∀ address, ∃ expected : Option Bool,
    p.reliableStates.lookup address = expected.map fun b => stateOf (.bit b)

section Reachable

variable {p : Protocol} {r : ClientRef} {c : UdcClient} {s : UdcServerImpl} {time : Milliseconds}
  {signature : UdcSignature} {buffer : MessageBuffer} {trace : List (Op × Outcome)}

theorem kind_sendReliable (h : ∃ kind, c.reliableState = stateOf kind) (time : Milliseconds) :
    ∃ kind, (c.sendReliable time).1.reliableState = stateOf kind := by
  rcases reliableTurn_sendReliable c time with ⟨-, hstate, -⟩ | ⟨-, -, -, hstate, -⟩ |
    ⟨-, -, -, hstate, -⟩
  · rwa [hstate]
  · exact ⟨.reset, hstate⟩
  · rwa [hstate]

theorem kind_acceptHandshake (h : ∃ kind, c.reliableState = stateOf kind) (state : Int) :
    ∃ kind, (c.acceptHandshake state).reliableState = stateOf kind := by
  unfold UdcClient.acceptHandshake
  by_cases hstate : state = c.reliableState
  · rw [if_pos hstate]
    by_cases hzero : state = 0
    · exact ⟨.bit true, if_pos hzero⟩
    · exact ⟨.bit false, if_neg hzero⟩
  · rwa [if_neg hstate]

theorem toggles_step {change : Change} (hstep : p.ClientStep r change c)
    (h : (p.heap r).Toggles) : c.Toggles := by
  refine ⟨settled_step hstep h.settled, ?_⟩
  cases hstep with
  | turn =>
      rw [(turned_reliable _ _).1]
      exact kind_sendReliable h.kind _
  | handshake =>
      rw [receiveConnectionHandshake_eq]
      exact h.kind
  | pong =>
      rw [receivePong_eq]
      exact h.kind
  | reliableHandshake =>
      rw [receivePong_eq]
      exact kind_acceptHandshake h.kind _
  | _ => exact h.kind

theorem toggles_run (run : ServerRun signature buffer trace s) :
    ∀ r < s.nextRef, (s.heap r).Toggles :=
  clients_run (fun _ _ _ _ _ _ => ⟨fun _ => rfl, .bit false, rfl⟩)
    (fun _ _ _ _ hstep h => toggles_step hstep h) run

theorem bits_handle (h : Bits p) (address : UdcAddressMux) (time : Milliseconds) (m : Message) :
    Bits (p.handle address time m).state := by
  by_cases hm : m.dataKind = none
  · intro a
    rw [(handle_other p address time hm).1]
    exact h a
  · cases m with
    | reliable kind timeStamp data =>
        have hstate : (p.reliable address kind timeStamp data).state.reliableStates
            = stepBits address kind p.reliableStates :=
          congrArg (fun t => t.1.reliableStates) (reliable_step (p := p) kind data)
        intro a
        rw [show (p.handle address time (.reliable kind timeStamp data)).state.reliableStates
          = stepBits address kind p.reliableStates from hstate, lookup_stepBits]
        by_cases ha : a = address
        · rw [if_pos ha]
          obtain ⟨expected, he⟩ := h address
          rw [he]
          cases kind with
          | reset => exact ⟨expected.map fun _ => false, by cases expected <;> rfl⟩
          | bit b => exact ⟨some !b, rfl⟩
        · rw [if_neg ha]
          exact h a
    | _ => exact absurd rfl hm

theorem bits_change (h : Bits p) (change : Change) : Bits (p.change change).state := by
  have hsame : ∀ {p' : Protocol}, p'.reliableStates = p.reliableStates → Bits p' := by
    intro p' hstates a
    rw [hstates]
    exact h a
  cases change with
  | handle address time m => exact bits_handle h address time m
  | connect address timeout time =>
      apply hsame
      simp only [Protocol.change, Protocol.connect]
      split <;> rfl
  | disconnect endPointId =>
      apply hsame
      simp only [Protocol.change, Protocol.disconnect]
      split <;> rfl
  | push endPointId data =>
      apply hsame
      simp only [Protocol.change, Protocol.push]
      split <;> rfl
  | say endPointId data =>
      apply hsame
      simp only [Protocol.change, Protocol.say]
      split
      · rfl
      · split <;> rfl
  | poll time =>
      apply hsame
      simp only [Protocol.change, Protocol.poll]
      split
      · rfl
      · split
        · rfl
        · split <;> rfl
  | tick endPointId time =>
      apply hsame
      simp only [Protocol.change, Protocol.tick]
      split
      · rfl
      · rw [tickClient_state]
        rfl

theorem bits_run (run : ServerRun signature buffer trace s) : Bits s.protocol := by
  refine run.preserves (P := fun s => Bits s.protocol) (fun _ => ⟨none, rfl⟩) ?_
  rintro s ⟨op, outcome⟩ s' hs ⟨hadm, heq⟩
  have hs' : s' = (step s op).1 := by rw [heq]
  rw [hs']
  refine step_stages (P := fun s => Bits s.protocol) hadm ?_ hs
  intro t t' ht hstage
  rcases hstage.state with hsame | ⟨c, hstate, -⟩
  · rw [hsame]
    exact ht
  · rw [hstate]
    exact bits_change ht c

end Reachable

/-! ### Rounds -/

/-- What the two servers have come to, and B has reported, are what the two ends are. -/
structure Followed (w : Wiring) (endPointId : UdcEndPointId) (r : ClientRef)
    (y : Ends (List UInt8) × List (List UInt8))
    (out : (UdcServerImpl × UdcServerImpl) × List Report × List Report) : Prop where
  facing : Facing w endPointId r out.1.1 out.1.2
  plays : Plays w r y.1 out.1.1.protocol out.1.2.protocol
  toldB : out.2.2 = y.2.map fun data => .message w.addressA MsgReliable.size data
  timer : (out.1.1.heap r).reliableSentTime = 0

/-- What a client reports in its turn. -/
def UdcClient.lost (c : UdcClient) (time : Milliseconds) : List Report :=
  if c.needsConnectionLostEvent time then [.connection .connectionLost c.id] else []

/-- A round in which A says something is heard of, and may regain the connection. -/
structure Answered (r : ClientRef) (x : Times) (a : UdcServerImpl)
    (out : (UdcServerImpl × UdcServerImpl) × List Report × List Report) : Prop where
  hears : (out.1.1.heap r).Hears (x.answer - u32 x.tick) x.answer
  toldA : out.2.1 = (a.heap r).lost x.tick ++ ((a.heap r).turned x.tick).regained

section Rounds

variable {w : Wiring} {endPointId : UdcEndPointId} {r : ClientRef} {a b a' b' : UdcServerImpl}
  {x : Times} {xs : List Times} {ends : Ends (List UInt8)} {c : UdcClient}

/-- Whatever becomes of the client, A and B still face each other. -/
theorem Facing.kept (h : Facing w endPointId r a b) (hkept : Kept a b a' b')
    (hclient : a'.protocol = a.protocol.setClient r c)
    (houtgoing : c.outgoingAddress = (a.heap r).outgoingAddress)
    (hqueue : c.reliableMessages <:+ (a.heap r).reliableMessages) :
    Facing w endPointId r a' b' where
  toWired := h.toWired.kept hkept
  byId := (congrArg (fun p => p.clientsById.lookup endPointId) hclient).trans h.byId
  byAddress := (congrArg (fun p => p.clientsByAddress.lookup w.addressB) hclient).trans h.byAddress
  outgoing := by
    rw [show a'.heap r = c from
      (congrArg (fun p => p.heap r) hclient).trans (Protocol.heap_setClient_self _ _ _), houtgoing,
      h.outgoing]
  room msg hmsg := by
    rw [show a'.heap r = c from
      (congrArg (fun p => p.heap r) hclient).trans (Protocol.heap_setClient_self _ _ _)] at hmsg
    rw [hkept.shapeA.size, hkept.shapeB.size]
    exact h.room msg (hqueue.subset hmsg)

theorem round_suffix (ends : Ends (List UInt8)) (impatient : Bool) :
    (ends.round impatient).1.queue <:+ ends.queue := by
  obtain ⟨queue, mode, expected⟩ := ends
  cases queue with
  | nil => exact List.suffix_refl _
  | cons m rest =>
      cases mode with
      | reset => exact List.suffix_refl _
      | bit b =>
          cases impatient with
          | true => exact List.suffix_refl _
          | false => exact List.suffix_cons m rest

theorem tickClient_report (p : Protocol) (r : ClientRef) (time : Milliseconds) :
    (p.tickClient r time).report.toList = (p.heap r).lost time := by
  unfold Protocol.tickClient UdcClient.lost
  rw [← needsLost_sendReliable]
  have hid : ((p.heap r).sendReliable time).1.id = (p.heap r).id := (sendReliable_same _ _).1.id
  by_cases hlost : ((p.heap r).sendReliable time).1.needsConnectionLostEvent time
  · simp only [if_pos hlost, hid]
    rfl
  · simp only [if_neg hlost]
    rfl

/-- The step. -/
theorem round_followed (h : Facing w endPointId r a b)
    (hplays : Plays w r ends a.protocol b.protocol) (hx : x.Forward)
    (hsettled : (a.heap r).Settled) :
    Followed w endPointId r (ends.round ((a.heap r).needsReliableReset x.tick))
        (w.round endPointId x a b) ∧
      ((a.protocol.tickClient r x.tick).sends ≠ [] →
        Answered r x a (w.round endPointId x a b)) := by
  obtain ⟨hkept, hstates, htold⟩ := round_exchange h x
  have hrounded := exchange_rounded hplays hx hsettled
  rw [Wiring.exchange] at hstates htold
  simp only [tickClient_report] at hstates htold
  rw [show a.protocol.heap = a.heap from rfl] at hrounded htold
  generalize w.talk x.answer ((a.protocol.tickClient r x.tick).sends.map Prod.snd)
    (a.protocol.tickClient r x.tick).state b.protocol = out at hstates htold hrounded
  obtain ⟨hplays', htoldB, ⟨c, hc⟩, hsettings, htimer, -, hhears⟩ := hrounded
  obtain ⟨hstateA, hstateB⟩ := Prod.mk.inj hstates
  rw [← hstateA] at hplays' hc hsettings htimer hhears
  rw [← hstateB] at hplays'
  have hheap : (w.round endPointId x a b).1.1.heap r = c :=
    (congrArg (fun p => p.heap r) hc).trans (Protocol.heap_setClient_self _ _ _)
  refine ⟨⟨h.kept hkept hc ?_ ?_, hplays', ?_, htimer⟩, fun hsends => ⟨?_, ?_⟩⟩
  · rw [← hheap]
    exact congrArg Settings.outgoingAddress (hsettings.trans (settings_turned _ _))
  · have hqueue := hplays'.queue
    rw [show (w.round endPointId x a b).1.1.protocol.heap r
      = (w.round endPointId x a b).1.1.heap r from rfl, hheap] at hqueue
    rw [hqueue, show (a.heap r).reliableMessages = ends.queue from hplays.queue]
    exact round_suffix _ _
  · rw [htold]
    exact htoldB
  · exact (hhears fun hnil => hsends (List.map_eq_nil_iff.mp hnil)).1
  · rw [htold, (hhears fun hnil => hsends (List.map_eq_nil_iff.mp hnil)).2]

/-- The run, once the timer of the queue has been stopped. -/
theorem rounds_followed (xs : List Times) : ∀ (a b : UdcServerImpl) (ends : Ends (List UInt8)),
    Facing w endPointId r a b → Plays w r ends a.protocol b.protocol →
      (a.heap r).reliableSentTime = 0 → (∀ x ∈ xs, x.Forward) →
      Followed w endPointId r (Ends.rounds (List.replicate xs.length false) ends)
        (w.rounds endPointId xs a b) := by
  induction xs with
  | nil =>
      intro a b ends h hplays htimer _
      exact ⟨h, hplays, rfl, htimer⟩
  | cons x xs ih =>
      intro a b ends h hplays htimer hxs
      have hpatient : (a.heap r).needsReliableReset x.tick = false := if_pos htimer
      obtain ⟨hround, -⟩ := round_followed h hplays (hxs x List.mem_cons_self) fun _ => htimer
      rw [hpatient] at hround
      have hrest := ih _ _ _ hround.facing hround.plays hround.timer
        fun y hy => hxs y (List.mem_cons_of_mem _ hy)
      refine ⟨hrest.facing, hrest.plays, ?_, hrest.timer⟩
      rw [Wiring.rounds]
      simp only [hround.toldB, hrest.toldB]
      rw [List.length_cons, List.replicate_succ, Ends.rounds, List.map_append]

theorem plays_run {signature signature' : UdcSignature} {buffer buffer' : MessageBuffer}
    {trace trace' : List (Op × Outcome)} (runA : ServerRun signature buffer trace a)
    (runB : ServerRun signature' buffer' trace' b) (h : Facing w endPointId r a b) :
    (a.heap r).Settled ∧ ∃ ends, Plays w r ends a.protocol b.protocol := by
  have hr : r < a.nextRef := ((rooted_serverRun runA).byId _ _ h.byId).1
  obtain ⟨hsettled, kind, hkind⟩ := toggles_run runA r hr
  obtain ⟨expected, hexpected⟩ := bits_run runB w.addressA
  exact ⟨hsettled, ⟨(a.heap r).reliableMessages, kind, expected⟩, h.byAddress, rfl, hkind,
    hexpected⟩

/--
**While nothing is lost the queue empties in two rounds more than it is long**, and B reports
what was queued, whole and in order.  Only if B expects the other bit, the message in front may
be taken for one that was reported before.
-/
theorem rounds_deliver {signature signature' : UdcSignature} {buffer buffer' : MessageBuffer}
    {trace trace' : List (Op × Outcome)} (runA : ServerRun signature buffer trace a)
    (runB : ServerRun signature' buffer' trace' b) (h : Facing w endPointId r a b)
    (hxs : ∀ x ∈ xs, x.Forward) (hlong : (a.heap r).reliableMessages.length + 2 ≤ xs.length) :
    ((w.rounds endPointId xs a b).1.1.heap r).reliableMessages = [] ∧
      ∃ told, (w.rounds endPointId xs a b).2.2
          = told.map (fun data => .message w.addressA MsgReliable.size data) ∧
        (told = (a.heap r).reliableMessages ∨ told = (a.heap r).reliableMessages.tail) ∧
        ((a.heap r).reliableState = -1 ∨ b.reliableStates.lookup w.addressA = none ∨
            b.reliableStates.lookup w.addressA = some (a.heap r).reliableState →
          told = (a.heap r).reliableMessages) := by
  obtain ⟨hsettled, ends, hplays⟩ := plays_run runA runB h
  have hqueue : (a.heap r).reliableMessages = ends.queue := hplays.queue
  have hmode : (a.heap r).reliableState = stateOf ends.mode := hplays.mode
  have hexpected : b.reliableStates.lookup w.addressA = _ := hplays.expected
  cases xs with
  | nil => simp at hlong
  | cons x xs =>
      -- the timer may run out in the first round, and is stopped from then on
      obtain ⟨hround, -⟩ := round_followed h hplays (hxs x List.mem_cons_self) hsettled
      have hrest := rounds_followed xs _ _ _ hround.facing hround.plays hround.timer
        fun y hy => hxs y (List.mem_cons_of_mem _ hy)
      generalize (a.heap r).needsReliableReset x.tick = impatient at hround hrest
      have htold : (w.rounds endPointId (x :: xs) a b).2.2
          = (Ends.rounds (impatient :: List.replicate xs.length false) ends).2.map
            fun data => .message w.addressA MsgReliable.size data := by
        rw [Wiring.rounds]
        simp only [hround.toldB, hrest.toldB]
        rw [Ends.rounds, List.map_append]
      have hdrain : (Ends.rounds (impatient :: List.replicate xs.length false) ends).1.queue = [] :=
        rounds_drain ends impatient (by rw [hqueue, List.length_cons] at hlong; omega)
      rw [hqueue, hmode, hexpected]
      refine ⟨hrest.plays.queue.trans hdrain, _, htold, ?_, fun haligned => ?_⟩
      · have hcost := rounds_cost (impatient :: List.replicate xs.length false) ends
        rwa [hdrain, List.append_nil] at hcost
      · have hends : ends.Aligned := by
          obtain ⟨queue, _ | b, expected⟩ := ends
          · trivial
          · cases expected with
            | none => rfl
            | some b' =>
                have hbit : stateOf (.bit b) ≠ -1 := by cases b <;> decide
                simp only [hbit, Option.map_some, reduceCtorEq, Option.some.injEq, stateOf_inj,
                  false_or] at haligned
                exact decide_eq_true (Kind.bit.inj haligned)
        have hconserve := (rounds_conserve (impatient :: List.replicate xs.length false) ends
          hends).1
        rwa [hdrain, List.append_nil] at hconserve

/-- A has queued two messages, and B is new. -/
def queuedOps : List Op :=
  connectedOps ++ [.sendMessage 1 [65] .reliableMessage, .sendMessage 1 [66] .reliableMessage]

def fourRounds : List Times := List.replicate 4 ⟨20, 30⟩

theorem facing_queued : Facing exampleWiring 1 0 (runState exampleServer queuedOps)
    (runState exampleServer [.tryBindIPv4 true]) := by
  refine ⟨⟨?_, ?_, ?_, ?_, ?_, ?_⟩, ?_, ?_, ?_, ?_⟩ <;> decide +kernel

theorem rounds_deliver_two : (exampleWiring.rounds 1 fourRounds (runState exampleServer queuedOps)
    (runState exampleServer [.tryBindIPv4 true])).2.2
      = [.message exampleWiring.addressA 9 [65], .message exampleWiring.addressA 9 [66]] := by
  have hqueue : ((runState exampleServer queuedOps).heap 0).reliableMessages = [[65], [66]] := by
    decide +kernel
  have hnew : (runState exampleServer [.tryBindIPv4 true]).reliableStates.lookup
      exampleWiring.addressA = none := by decide +kernel
  have hforward : ∀ x ∈ fourRounds, x.Forward := by
    intro x hx
    rw [List.eq_of_mem_replicate hx]
    exact ⟨by decide, by decide⟩
  have hlong : ((runState exampleServer queuedOps).heap 0).reliableMessages.length + 2
      ≤ fourRounds.length := by
    rw [hqueue]
    exact Nat.le_refl 4
  have runA : ServerRun exampleSignature exampleBuffer (runTrace exampleServer queuedOps)
      (runState exampleServer queuedOps) := run_of_admissible queuedOps (by decide +kernel)
  have runB : ServerRun exampleSignature exampleBuffer
      (runTrace exampleServer [.tryBindIPv4 true])
      (runState exampleServer [.tryBindIPv4 true]) :=
    run_of_admissible [.tryBindIPv4 true] (by decide +kernel)
  obtain ⟨-, told, htold, -, hall⟩ := rounds_deliver runA runB facing_queued hforward hlong
  rw [htold, hall (Or.inr (Or.inl hnew)), hqueue]
  rfl

end Rounds

end UdpConnect
