/-
Every datagram carries the signature.

The signature is written into the message buffer once, and whatever is sent is sent
from that buffer.  Every `recvfrom` writes over the front of the buffer.  After a
datagram that holds a whole header the signature is there again: either it was part of
the datagram, or the receive loop has put it back.  After a datagram that is shorter
than a header, or too long for the length given, it is not put back.  `strays` lists
what those write, and as long as it agrees with the signature nothing is lost.

The other way to send a datagram without its signature is a payload so long that its
size goes around in `uint32_t`, for an endpoint that takes it (`Op.NoWrap`).
-/
import UdpConnect.Proofs.Guards

namespace UdpConnect

open Memory

/-! ### Strays -/

section Strays

variable {Address : Type}

/-- What the next `receivePacket` of a socket writes without the header being looked at. -/
def UdcSocket.stray (s : UdcSocket Address) (n : Nat) : Option (List UInt8) :=
  match s.pending with
  | .datagram d _ :: _ =>
      if n < 2 ^ 31 ∧ (n < d.bytes.length ∨ d.bytes.length < MsgHeader.size) then
        some (d.bytes.take n)
      else none
  | _ => none

/-- The same for a pass over the sockets of one family. -/
def straysFirst : List (UdcSocket Address) → MessageBuffer → Nat → List (List UInt8)
  | [], _, _ => []
  | socket :: rest, b, n =>
      let r := receivePacket socket b n
      (socket.stray n).toList ++ if r.code = 1 then [] else straysFirst rest r.buffer r.size

end Strays

def UdcSocketMux.strays (m : UdcSocketMux) (b : MessageBuffer) (n : Nat) : List (List UInt8) :=
  let r := m.receiveIPv6 b n
  straysFirst m.socketIPv6 b n ++
    if r.address.isSome then [] else straysFirst r.mux.socketIPv4 r.buffer r.size

def UdcServerImpl.straysLoop (time : Milliseconds) : Nat → UdcServerImpl → Nat →
    List (List UInt8)
  | 0, _, _ => []
  | fuel + 1, s, msgSize =>
      s.socket.strays s.messageBuffer msgSize ++
        match s.receive msgSize with
        | (_, none, _) => []
        | (s, some address, msgSize) =>
            match s.handleDatagram address msgSize time with
            | (_, some _) => []
            | (s, none) => straysLoop time fuel s msgSize

/-- What one call of `receiveMessages` lets short and truncated datagrams write. -/
def UdcServerImpl.strays (s : UdcServerImpl) (time : Milliseconds) : List (List UInt8) :=
  straysLoop time (s.socket.backlog + 1) s s.messageBufferSize

/-- The leading bytes are those of the signature. -/
def Agrees (signature : UdcSignature) (d : List UInt8) : Prop := d.take 4 <+: signature.bytes

instance (signature : UdcSignature) (d : List UInt8) : Decidable (Agrees signature d) := by
  unfold Agrees
  infer_instance

/-! ### The front of the buffer while receiving -/

section Receiving

variable {signature : UdcSignature}

/-- Writing what agrees with the signature over the signature leaves the signature. -/
theorem take_write_agrees {b : MessageBuffer} {d : List UInt8} (hroom : d.length ≤ b.size)
    (hfront : b.bytes.take 4 = signature.bytes) (hagrees : Agrees signature d) :
    (b.write 0 d).bytes.take 4 = signature.bytes := by
  have hsize := signature.size
  obtain ⟨rest, hrest⟩ := hagrees
  rw [MessageBuffer.write_bytes, memcpy_zero hroom, List.take_append]
  rcases Nat.lt_or_ge d.length 4 with hshort | hlong
  · rw [List.take_of_length_le (Nat.le_of_lt hshort)] at hrest ⊢
    have hdrop : (b.bytes.drop d.length).take (4 - d.length) = rest := by
      rw [← List.drop_take, hfront, ← hrest, List.drop_left]
    rw [hdrop, hrest]
  · have hlen : rest = [] := by
      have := congrArg List.length hrest
      rw [List.length_append, List.length_take, Nat.min_eq_left hlong, hsize] at this
      exact List.eq_nil_of_length_eq_zero (by omega)
    rw [hlen, List.append_nil] at hrest
    rw [hrest, Nat.sub_eq_zero_of_le hlong, List.take_zero, List.append_nil]

variable {Address : Type} {b : MessageBuffer} {n : Nat}

/-- A socket leaves the signature, or returns a datagram that holds a header. -/
theorem receivePacket_front (s : UdcSocket Address) (hcap : Capacity b n)
    (hfront : b.bytes.take 4 = signature.bytes)
    (hstray : ∀ d ∈ s.stray n, Agrees signature d) :
    (receivePacket s b n).buffer.bytes.take 4 = signature.bytes ∨
      ((receivePacket s b n).code = 1 ∧ MsgHeader.size ≤ (receivePacket s b n).size) := by
  have hr := receivePacket_received s b hcap.1
  generalize receivePacket s b n = r at hr
  have hroom : n < 2 ^ 31 → n ≤ b.size := fun h => by rcases hcap.2 with h' | h' <;> omega
  cases hr with
  | @success d _ rest hpending hpos hfits hn =>
      rcases Nat.lt_or_ge d.bytes.length MsgHeader.size with hshort | hlong
      · left
        have hmem : s.stray n = some d.bytes := by
          simp only [UdcSocket.stray, hpending, if_pos (And.intro hn (Or.inr hshort)),
            List.take_of_length_le hfits]
        exact take_write_agrees (hfits.trans (hroom hn)) hfront (hstray _ hmem)
      · exact Or.inr ⟨rfl, hlong⟩
  | @truncated d _ rest hpending hlong hn =>
      left
      have hmem : s.stray n = some (d.bytes.take n) := by
        simp only [UdcSocket.stray, hpending, if_pos (And.intro hn (Or.inl hlong))]
      refine take_write_agrees ?_ hfront (hstray _ hmem)
      rw [List.length_take]
      exact (Nat.min_le_left _ _).trans (hroom hn)
  | dropped hpending hn => exact Or.inl hfront
  | skipped hpending hempty hcode => exact Or.inl hfront
  | idle hidle hcode => exact Or.inl hfront

theorem receiveFirst_front (family : Address → UdcAddress) (sockets : List (UdcSocket Address))
    (hcap : Capacity b n)
    (hfront : b.bytes.take 4 = signature.bytes)
    (hstrays : ∀ d ∈ straysFirst sockets b n, Agrees signature d) :
    (receiveFirst receivePacket sockets b n).buffer.bytes.take 4 = signature.bytes ∨
      ((receiveFirst receivePacket sockets b n).source.isSome = true ∧
        MsgHeader.size ≤ (receiveFirst receivePacket sockets b n).size) := by
  induction sockets generalizing b n with
  | nil => exact Or.inl hfront
  | cons s rest ih =>
      have hone := receivePacket_front s hcap hfront fun d hd =>
        hstrays d (List.mem_append_left _ (Option.mem_toList.mpr hd))
      rw [receiveFirst]
      by_cases hcode : (receivePacket s b n).code = 1
      · simp only [if_pos hcode]
        obtain ⟨d, hd⟩ := receivePacket_returned (s := s) family hcap hcode
        exact hone.imp id fun h => ⟨by rw [hd.source]; rfl, h.2⟩
      · simp only [if_neg hcode]
        refine ih (receivePacket_asked (s := s) family hcap).capacity
          (hone.resolve_right fun h => hcode h.1) fun d hd => hstrays d ?_
        rw [straysFirst, if_neg hcode]
        exact List.mem_append_right _ hd

variable {m : UdcSocketMux}

theorem receiveIPv4_front (hcap : Capacity b n) (hfront : b.bytes.take 4 = signature.bytes)
    (hstrays : ∀ d ∈ straysFirst m.socketIPv4 b n, Agrees signature d) :
    (m.receiveIPv4 b n).buffer.bytes.take 4 = signature.bytes ∨
      ((m.receiveIPv4 b n).address.isSome = true ∧ MsgHeader.size ≤ (m.receiveIPv4 b n).size) := by
  have h : (receiveFirst receivePacketIPv4 m.socketIPv4 b n).buffer.bytes.take 4
        = signature.bytes ∨
      ((receiveFirst receivePacketIPv4 m.socketIPv4 b n).source.isSome = true ∧
        MsgHeader.size ≤ (receiveFirst receivePacketIPv4 m.socketIPv4 b n).size) :=
    receiveFirst_front .ipv4 m.socketIPv4 hcap hfront hstrays
  unfold UdcSocketMux.receiveIPv4
  generalize receiveFirst receivePacketIPv4 m.socketIPv4 b n = r at h
  cases hsource : r.source with
  | none =>
      simp only [hsource] at h ⊢
      exact h.imp id fun h => absurd h.1 (by simp)
  | some d =>
      simp only [hsource] at h ⊢
      exact h.imp id fun h => ⟨rfl, h.2⟩

theorem receiveIPv6_front (hcap : Capacity b n) (hfront : b.bytes.take 4 = signature.bytes)
    (hstrays : ∀ d ∈ straysFirst m.socketIPv6 b n, Agrees signature d) :
    (m.receiveIPv6 b n).buffer.bytes.take 4 = signature.bytes ∨
      ((m.receiveIPv6 b n).address.isSome = true ∧ MsgHeader.size ≤ (m.receiveIPv6 b n).size) := by
  have h : (receiveFirst receivePacketIPv6 m.socketIPv6 b n).buffer.bytes.take 4
        = signature.bytes ∨
      ((receiveFirst receivePacketIPv6 m.socketIPv6 b n).source.isSome = true ∧
        MsgHeader.size ≤ (receiveFirst receivePacketIPv6 m.socketIPv6 b n).size) :=
    receiveFirst_front .ipv6 m.socketIPv6 hcap hfront hstrays
  unfold UdcSocketMux.receiveIPv6
  generalize receiveFirst receivePacketIPv6 m.socketIPv6 b n = r at h
  cases hsource : r.source with
  | none =>
      simp only [hsource] at h ⊢
      exact h.imp id fun h => absurd h.1 (by simp)
  | some d =>
      simp only [hsource] at h ⊢
      exact h.imp id fun h => ⟨rfl, h.2⟩

theorem receive_front (hcap : Capacity b n) (hfront : b.bytes.take 4 = signature.bytes)
    (hstrays : ∀ d ∈ m.strays b n, Agrees signature d) :
    (m.receive b n).buffer.bytes.take 4 = signature.bytes ∨
      ((m.receive b n).address.isSome = true ∧ MsgHeader.size ≤ (m.receive b n).size) := by
  have h₆ := receiveIPv6_front (m := m) hcap hfront fun d hd =>
    hstrays d (List.mem_append_left _ hd)
  unfold UdcSocketMux.receive
  by_cases hsome : (m.receiveIPv6 b n).address.isSome
  · simp only [if_pos hsome]
    exact h₆
  · simp only [if_neg hsome]
    refine receiveIPv4_front (receiveIPv6_polled hcap).1.capacity
      (h₆.resolve_right fun h => hsome h.1) fun d hd => hstrays d ?_
    rw [UdcSocketMux.strays, if_neg hsome]
    exact List.mem_append_right _ hd

end Receiving

/-! ### One datagram -/

section Handling

variable {s : UdcServerImpl} {address : UdcAddressMux} {n : Nat} {time : Milliseconds}

theorem front_receivePong (r : ClientRef) (c : UdcClient × Bool) :
    (if !c.2 then ((s.setClient r c.1, none) : UdcServerImpl × Option UdcEvent)
      else (s.setClient r c.1).connectionEvent .connectionRegained
        ((s.setClient r c.1).heap r).id).1.front = s.front := by
  split <;> rfl

/-- No message handler writes the signature. -/
theorem processMessage_front : (s.processMessage address n time).1.front = s.front := by
  have hid : ∀ id, (MsgHeader.serializeMsgId s.messageBuffer id).bytes.take 4 = s.front :=
    fun id => front_serializeMsgId id
  have hhandshake : ∀ state, (s.processReliableHandshake state address time).1.front = s.front := by
    intro state
    unfold UdcServerImpl.processReliableHandshake
    cases s.tryGetClientByAddress address with
    | none => rfl
    | some r =>
        simp only
        split
        · rfl
        · exact front_receivePong r _
  have hmessage : ∀ state, (s.processReliableMessage state address n).1.front = s.front := by
    intro state
    unfold UdcServerImpl.processReliableMessage
    simp only
    split
    · exact hid _
    · split <;> exact hid _
  unfold UdcServerImpl.processMessage
  cases UdcMessageId.ofByte? (MsgHeader.deserializeMsgId s.messageBuffer) with
  | none => rfl
  | some id =>
      cases id with
      | connectionRequest => simp only; split <;> first | exact hid _ | rfl
      | connectionHandshake =>
          simp only
          split
          · unfold UdcServerImpl.processConnectionHandshake
            cases s.tryGetFirstPendingClient with
            | none => rfl
            | some r =>
                simp only
                split
                · rfl
                · split <;> rfl
          · rfl
      | ping => simp only; split <;> first | exact hid _ | rfl
      | pong =>
          simp only
          split
          · unfold UdcServerImpl.processPong
            cases s.tryGetClientByAddress address with
            | none => rfl
            | some r =>
                simp only
                split
                · rfl
                · exact front_receivePong r _
          · rfl
      | unreliable => simp only; split <;> rfl
      | reliableReset | reliable0 | reliable1 =>
          simp only
          split
          · exact hmessage _
          · rfl
      | reliableHandshakeReset | reliableHandshake0 | reliableHandshake1 =>
          simp only
          split
          · exact hhandshake _
          · rfl

/-- After a datagram with a header the signature is in place. -/
theorem handleDatagram_front (hn : MsgHeader.size ≤ n) :
    (s.handleDatagram address n time).1.front = s.packetSignature.bytes := by
  unfold UdcServerImpl.handleDatagram
  rw [if_neg (Nat.not_lt.mpr hn)]
  by_cases hsig : MsgHeader.deserializeMsgSignature s.messageBuffer = s.packetSignature.bytes
  · rw [if_neg (not_not.mpr hsig), processMessage_front]
    exact hsig
  · rw [if_pos hsig]
    show (MsgHeader.serializeMsgSignature s.messageBuffer s.packetSignature).bytes.take 4 = _
    rw [MessageBuffer.serializeMsgSignature_bytes, List.take_left' s.packetSignature.size]

theorem handleDatagram_short (hn : n < MsgHeader.size) :
    s.handleDatagram address n time = (s, none) := by
  rw [UdcServerImpl.handleDatagram, if_pos hn]

/-- A turn in which the strays agree ends with the signature in place. -/
theorem turn_front (time : Milliseconds) (address : UdcAddressMux)
    (hcap : Capacity s.messageBuffer n)
    (hfront : s.front = s.packetSignature.bytes)
    (hstrays : ∀ d ∈ s.socket.strays s.messageBuffer n, Agrees s.packetSignature d) :
    ((s.receive n).2.1 = none → (s.receive n).1.front = s.packetSignature.bytes) ∧
      ((s.receive n).1.handleDatagram address (s.receive n).2.2 time).1.front
        = s.packetSignature.bytes := by
  have h := receive_front (m := s.socket) hcap hfront hstrays
  refine ⟨fun hnone => h.resolve_right fun h => ?_, ?_⟩
  · have hsome := h.1
    rw [show (s.socket.receive s.messageBuffer n).address = none from hnone] at hsome
    cases hsome
  · rcases Nat.lt_or_ge (s.receive n).2.2 MsgHeader.size with hshort | hlong
    · rw [handleDatagram_short hshort]
      exact h.resolve_right fun h => absurd h.2 (Nat.not_le.mpr hshort)
    · exact handleDatagram_front hlong

theorem receiveLoop_front (fuel : Nat) : ∀ (s : UdcServerImpl) (n : Nat),
    s.socket.backlog < fuel → Capacity s.messageBuffer n → s.front = s.packetSignature.bytes →
    (∀ d ∈ UdcServerImpl.straysLoop time fuel s n, Agrees s.packetSignature d) →
    (UdcServerImpl.receiveLoop time fuel s n).1.front = s.packetSignature.bytes := by
  induction fuel with
  | zero => intro s n h; omega
  | succ fuel ih =>
      intro s n hfuel hcap hfront hstrays
      unfold UdcServerImpl.straysLoop at hstrays
      have hturn := fun address => turn_front time address hcap hfront
        fun d hd => hstrays d (List.mem_append_left _ hd)
      unfold UdcServerImpl.receiveLoop
      cases hr : (s.receive n).2.1 with
      | none =>
          rw [receive_none hr]
          exact (hturn ⟨.ipv4 (exampleIP 0), 0⟩).1 hr
      | some address =>
          obtain ⟨p, -, hp, hcap'⟩ := turn_of_receive time hcap hr
          have hless := hp.backlog
          rw [receive_some hr] at hstrays ⊢
          simp only at hstrays ⊢
          have hfront' := (hturn address).2
          have hsignature := hp.signature
          generalize (s.receive n).1.handleDatagram address (s.receive n).2.2 time = t at *
          obtain ⟨s', event⟩ := t
          cases event with
          | some e => exact hfront'
          | none =>
              simp only at hsignature hfront' hless hstrays ⊢
              rw [← hsignature] at hfront' ⊢
              refine ih s' _ (by omega) hcap' hfront' fun d hd => ?_
              rw [hsignature]
              exact hstrays d (List.mem_append_right _ hd)

theorem receiveMessages_front (hfront : s.front = s.packetSignature.bytes)
    (hstrays : ∀ d ∈ s.strays time, Agrees s.packetSignature d) :
    (s.receiveMessages time).1.front = s.packetSignature.bytes :=
  receiveLoop_front _ s _ (Nat.lt_succ_self _) (capacity_full _) hfront hstrays

end Handling

/-! ### Runs -/

/-- A call that keeps the signature: strays agree with it, and no size goes around. -/
def KeepsSignature (s : UdcServerImpl) : Op → Prop
  | .sendMessage endPointId data reliability =>
      Op.NoWrap s (.sendMessage endPointId data reliability)
  | .receiveMessages time => ∀ d ∈ s.strays time, Agrees s.packetSignature d
  | _ => True

instance (s : UdcServerImpl) (op : Op) : Decidable (KeepsSignature s op) := by
  induction op using Op.casesOn <;> unfold KeepsSignature <;> infer_instance

/-- The signature is in place and has been on everything sent, and all that waits is short. -/
structure Signed (signature : UdcSignature) (s : UdcServerImpl) : Prop where
  kept : s.packetSignature = signature
  front : s.front = signature.bytes
  sent : ∀ p ∈ s.socket.history.sent, p.bytes.take 4 = signature.bytes
  queued : Queued (fun msg => 9 + msg.length ≤ s.messageBufferSize) s.protocol

section Runs

variable {signature : UdcSignature} {s s' : UdcServerImpl} {time : Milliseconds}

theorem take_encode (m : Message) : (encode signature.bytes m).take 4 = signature.bytes := by
  rw [encode, List.take_left' signature.size]

/-- A message whose size does not go around is sent whole. -/
theorem wire_short {front : List UInt8} (hfront : front.length = 4) {m : Message}
    (hshort : 5 + m.body.length < 2 ^ 32) : wire front m = encode front m := by
  have hlen : (encode front m).length = 5 + m.body.length := by
    rw [encode, List.length_append, List.length_cons, hfront]
    omega
  rw [wire, hlen, u32_of_lt hshort]
  exact List.take_of_length_le (Nat.le_of_eq hlen)

/-- What is sent from a buffer with the signature in front carries the signature. -/
theorem signed_performs (h : Signed signature s) {event : Option UdcEvent} {r : Reaction}
    (hp : Performs s s' event r)
    (hshort : ∀ x ∈ r.sends, x.2.data.length < 2 ^ 32 ∧ 5 + x.2.body.length ≤ s.messageBufferSize)
    (hqueued : Queued (fun msg => 9 + msg.length ≤ s.messageBufferSize) r.state) :
    Signed signature s' := by
  have hsize : s.messageBufferSize < 2 ^ 32 := s.messageBuffer.size_lt
  obtain ⟨new, hsocket, hnew⟩ := hp.socket
  refine ⟨hp.signature.trans h.kept, hp.front.trans h.front, fun p hpk => ?_, ?_⟩
  · rw [hsocket] at hpk
    rcases List.mem_append.mp hpk with hpk | hpk
    · exact h.sent p hpk
    · rw [hnew fun x hx => ⟨(hshort x hx).1, ?_⟩] at hpk
      · obtain ⟨x, hx, rfl⟩ := List.mem_map.mp hpk
        show (wire s.front x.2).take 4 = _
        rw [wire_short length_front ((hshort x hx).2.trans_lt hsize), h.front]
        exact take_encode _
      · rw [u32_of_lt ((hshort x hx).2.trans_lt hsize)]
        exact (hshort x hx).2
  · rw [hp.state, hp.size]
    exact hqueued

theorem signed_tick (h : Signed signature s) {event : Option UdcEvent} {id : UdcEndPointId}
    (hp : Performs s s' event (s.protocol.tick id time)) : Signed signature s' := by
  have hnine := nine_le s
  refine signed_performs h hp (fun x hx => ?_) (queued_change h.queued (.tick id time) (by simp))
  obtain ⟨r, -, -, hm | hm⟩ := tick_sends hx
  · rw [hm]
    simpa [Message.data, Message.body] using hnine
  · rcases mem_sendReliable hm with ⟨-, hm⟩ | ⟨-, msg, hfront, hm⟩
    · rw [hm]
      simpa [Message.data, Message.body] using hnine
    · have hmsg : 9 + msg.length ≤ s.messageBufferSize :=
        h.queued r msg (List.mem_of_head? hfront)
      have hsize : s.messageBufferSize < 2 ^ 32 := s.messageBuffer.size_lt
      rw [hm]
      simp only [Message.data, Message.body, List.length_append, length_le32]
      omega

/-- A turn of the receive loop, but for the front of the buffer. -/
theorem sent_turn {packet : Packet} {event : Option UdcEvent}
    (h : ∀ p ∈ s.socket.history.sent, p.bytes.take 4 = s.packetSignature.bytes)
    (hturn : Turn time s packet s' event) :
    ∀ p ∈ s'.socket.history.sent, p.bytes.take 4 = s'.packetSignature.bytes := by
  intro p hp
  rw [hturn.sent] at hp
  rw [hturn.signature]
  rcases List.mem_append.mp hp with hp | hp
  · exact h p hp
  · obtain ⟨x, -, rfl⟩ := List.mem_map.mp hp
    exact take_encode _

theorem sent_stage (hstage : Stage (.receiveMessages time) s s')
    (h : ∀ p ∈ s.socket.history.sent, p.bytes.take 4 = s.packetSignature.bytes) :
    ∀ p ∈ s'.socket.history.sent, p.bytes.take 4 = s'.packetSignature.bytes := by
  cases hstage with
  | quiet hquiet =>
      rw [hquiet.sent, hquiet.signature]
      exact h
  | call hasks => cases hasks
  | turn hop hturn => exact sent_turn h hturn

theorem signed_receiveMessages (h : Signed signature s)
    (hkeeps : KeepsSignature s (.receiveMessages time)) :
    Signed signature (s.receiveMessages time).1 := by
  have hkept := h.kept
  subst hkept
  -- everything but the front of the buffer, turn by turn
  have hrest := step_stages (s := s)
    (P := fun t => t.packetSignature = s.packetSignature ∧
      t.messageBufferSize = s.messageBufferSize ∧
      (∀ p ∈ t.socket.history.sent, p.bytes.take 4 = t.packetSignature.bytes) ∧
      Queued (fun msg => 9 + msg.length ≤ s.messageBufferSize) t.protocol)
    (show (Op.receiveMessages time).Admissible s from trivial) ?_ ⟨rfl, rfl, h.sent, h.queued⟩
  · obtain ⟨hsig, hsize, hsent, hqueue⟩ := hrest
    refine ⟨hsig, receiveMessages_front h.front hkeeps, ?_, ?_⟩
    · rw [← hsig]
      exact hsent
    · rw [show (s.receiveMessages time).1.messageBufferSize = s.messageBufferSize from hsize]
      exact hqueue
  · rintro t t' ⟨hsig, hsize, hsent, hqueue⟩ hstage
    refine ⟨hstage.signature.trans hsig, hstage.size.trans hsize, sent_stage hstage hsent, ?_⟩
    apply queued_stage hqueue hstage
    intro endPointId data hop
    cases hop

theorem signed_step (h : Signed signature s) {l : Op × Outcome} (hstep : Steps s l s')
    (hkeeps : KeepsSignature s l.1) : Signed signature s' := by
  obtain ⟨op, outcome⟩ := l
  obtain ⟨hadm, hstep⟩ := hstep
  rw [Prod.ext_iff] at hstep
  obtain ⟨rfl, -⟩ := hstep
  simp only at hadm hkeeps ⊢
  cases op with
  | tryBindIPv4 bound =>
      simp only [step, UdcServerImpl.tryBindIPv4, UdcSocketMux.tryBindIPv4]
      split <;> exact ⟨h.kept, h.front, h.sent, h.queued⟩
  | tryBindIPv6 bound =>
      simp only [step, UdcServerImpl.tryBindIPv6, UdcSocketMux.tryBindIPv6]
      split <;> exact ⟨h.kept, h.front, h.sent, h.queued⟩
  | tryConnectIPv4 ip port timeout currentTime =>
      exact signed_performs h (tryConnect_performs currentTime ⟨.ipv4 ip, port⟩ timeout).1 (by simp)
        (queued_change h.queued (.connect ⟨.ipv4 ip, port⟩ timeout currentTime) (by simp))
  | tryConnectIPv6 ip port timeout currentTime =>
      exact signed_performs h (tryConnect_performs currentTime ⟨.ipv6 ip, port⟩ timeout).1 (by simp)
        (queued_change h.queued (.connect ⟨.ipv6 ip, port⟩ timeout currentTime) (by simp))
  | disconnect endPointId =>
      exact signed_performs h (disconnectFromClient_performs endPointId) (by simp)
        (queued_change h.queued (.disconnect endPointId) (by simp))
  | sendMessage endPointId data reliability =>
      cases reliability with
      | unreliableMessage =>
          obtain ⟨r, hp, rfl | ⟨rfl, hfits⟩⟩ :=
            sendUnreliableMessage_performs (s := s) endPointId hadm.2
          · exact signed_performs h hp (by simp [Protocol.idle]) h.queued
          · refine signed_performs h hp (fun x hx => ?_)
              (queued_change h.queued (.say endPointId data) (by simp))
            obtain ⟨hx', r, hlookup, hconn⟩ := say_sends hx
            have hwrap : 5 + (Message.unreliable data).body.length < 2 ^ 32 :=
              hkeeps r hlookup hconn
            have hle := hfits.2
            rw [u32_of_lt hwrap] at hle
            rw [hx']
            exact ⟨hadm.2, hle⟩
      | reliableMessage =>
          obtain ⟨state, hp, ⟨rfl, -⟩ | ⟨rfl, hfits, -⟩⟩ :=
            sendReliableMessage_performs (s := s) endPointId data
          · exact signed_performs h hp (by simp) h.queued
          · cases hlookup : s.clientsById.lookup endPointId with
            | none =>
                -- nobody to send to, so nothing is queued
                have hpush : s.protocol.push endPointId data = s.protocol := by
                  unfold Protocol.push
                  rw [show s.protocol.clientsById.lookup endPointId = none from hlookup]
                refine signed_performs h hp (by simp) ?_
                rw [hpush]
                exact h.queued
            | some r =>
                have hwrap : 9 + data.length < 2 ^ 32 := hkeeps r hlookup
                refine signed_performs h hp (by simp)
                  (queued_change h.queued (.push endPointId data) fun _ _ heq => ?_)
                cases heq
                rwa [u32_of_lt hwrap] at hfits
  | updatePendingClients time =>
      have hnine := nine_le s
      refine signed_performs h (updatePendingClients_performs time) (fun x hx => ?_)
        (queued_change h.queued (.poll time) (by simp))
      obtain ⟨id, hx'⟩ := poll_sends hx
      rw [hx']
      simpa [Message.data, Message.body] using hnine
  | updateClientConnectionStatus time order =>
      exact updateClientConnectionStatus_rule time (P := Signed signature)
        (Q := fun t _ => Signed signature t) (fun _ h => h) (fun _ _ _ h hp => signed_tick h hp)
        (fun _ _ _ _ h hp => signed_tick h hp) order s h
  | receiveMessages time => exact signed_receiveMessages h hkeeps
  | arriveIPv4 index arrival => exact ⟨h.kept, h.front, h.sent, h.queued⟩
  | arriveIPv6 index arrival => exact ⟨h.kept, h.front, h.sent, h.queued⟩

theorem signed_new (signature : UdcSignature) (buffer : MessageBuffer) :
    Signed signature (.new signature buffer) where
  kept := rfl
  front := by
    show (MsgHeader.serializeMsgSignature buffer signature).bytes.take 4 = _
    rw [MessageBuffer.serializeMsgSignature_bytes, List.take_left' signature.size]
  sent p hp := by cases hp
  queued r msg hmsg := by cases hmsg

variable {buffer : MessageBuffer} {trace : List (Op × Outcome)}

/-- **Every datagram is sent with the signature, as long as no stray overwrites it.** -/
theorem every_datagram_signed
    (run : Runs.Run (fun s l s' => Steps s l s' ∧ KeepsSignature s l.1)
      (UdcServerImpl.new signature buffer) trace s) :
    s.packetSignature = signature ∧ s.front = signature.bytes ∧
      ∀ p ∈ s.socket.history.sent, p.bytes.take 4 = signature.bytes := by
  have h := run.preserves (signed_new signature buffer) fun _ _ _ h hstep =>
    signed_step h hstep.1 hstep.2
  exact ⟨h.kept, h.front, h.sent⟩

/-- Two strays that agree with the signature, and then a connection request. -/
def agreeingStrayOps : List Op :=
  [.tryBindIPv4 true, .arriveIPv4 0 (.datagram ⟨exampleIP 9, 1, [1, 2], default⟩),
    .arriveIPv4 0 (.datagram ⟨exampleIP 9, 1, [1, 2, 3, 4, 9, 9], default⟩),
    .receiveMessages 10, .tryConnectIPv4 (exampleIP 2) 2 1000 1000, .updatePendingClients 1000]

theorem every_datagram_signed_request :
    (runState exampleServer agreeingStrayOps).front = exampleSignature.bytes ∧
      (runState exampleServer agreeingStrayOps).socket.history.sent.all
        (fun p => p.bytes.take 4 = exampleSignature.bytes) = true := by
  have h := every_datagram_signed (s := runState exampleServer agreeingStrayOps)
    (run_of_throughout (s := exampleServer)
      (P := fun s op => op.Admissible s ∧ KeepsSignature s op)
      (fun _ _ h => ⟨⟨h.1, rfl⟩, h.2⟩) agreeingStrayOps (by decide +kernel))
  exact ⟨h.2.1, List.all_eq_true.mpr fun p hp => decide_eq_true (h.2.2 p hp)⟩

/-- One byte from a stranger, and then a connection request. -/
def shortStrayOps : List Op :=
  [.tryBindIPv4 true, .arriveIPv4 0 (.datagram ⟨exampleIP 9, 1, [9], default⟩),
    .receiveMessages 10, .tryConnectIPv4 (exampleIP 2) 2 1000 1000, .updatePendingClients 1000]

theorem unsigned_after_short_stray : ∃ trace s,
    ServerRun exampleSignature exampleBuffer trace s ∧
      ¬ (s.front = exampleSignature.bytes ∧
        ∀ p ∈ s.socket.history.sent, p.bytes.take 4 = exampleSignature.bytes) :=
  ⟨_, _, run_of_admissible shortStrayOps (by decide +kernel), by decide +kernel⟩

end Runs

end UdpConnect
