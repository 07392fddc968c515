/-
A payload on its way from one server's application to the other's.

The sender writes header and payload at the offsets of `UdcMessage.h`, the receiver's
event says where in the receiver's buffer the payload is.  In between the receiver has
written the id of its handshake into the same buffer, in front of the payload.

`payload_arrives` follows a payload all the way, from the call that sends it to the getters
of the event.  Its datagram is the first that the receiver's call receives.  That is so if
it is the first at the sockets and fits a buffer of fewer than `2 ^ 31` bytes
(`receivesFirst_of_first`).
-/
import UdpConnect.Proofs.Scan
import UdpConnect.Proofs.Signature

namespace UdpConnect

open Memory AlternatingBit

/-! ### What is sent for a payload -/

/-- The message that carries a payload: an unreliable one, or a reliable one with its bit. -/
def carrier (bit : Option Bool) (timeStamp : Nat) (payload : List UInt8) : Message :=
  match bit with
  | none => .unreliable payload
  | some b => .reliable (.bit b) timeStamp payload

def headerSize : Option Bool → Nat
  | none => MsgUnreliable.size
  | some _ => MsgReliable.size

/-- The packet is what the server sends for the payload, at once or from its queue. -/
inductive Conveys (s : UdcServerImpl) (payload : List UInt8) (packet : Packet) :
    Option Bool → Prop
  | unreliable {endPointId : UdcEndPointId} {r : ClientRef}
      (hlookup : s.clientsById.lookup endPointId = some r)
      (hconn : (s.heap r).isConnected = true)
      (hsent : (s.sendUnreliableMessage endPointId payload).1.socket.history.sent
        = s.socket.history.sent ++ [packet]) : Conveys s payload packet none
  | reliable {endPointId : UdcEndPointId} {r : ClientRef} {b : Bool} {time : Milliseconds}
      (order : List UdcEndPointId) (hlookup : s.clientsById.lookup endPointId = some r)
      (hfront : (s.heap r).reliableMessages.head? = some payload)
      (hbit : (s.heap r).reliableState = stateOf (.bit b))
      (hpatient : (s.heap r).needsReliableReset time = false)
      (hsent : (UdcServerImpl.updateClientConnectionStatus time (endPointId :: order)
        s).1.socket.history.sent[s.socket.history.sent.length]? = some packet) :
      Conveys s payload packet (some b)

section Sending

variable {s s' : UdcServerImpl} {payload : List UInt8} {packet : Packet} {bit : Option Bool}
  {signature : UdcSignature}

theorem carrier_length (bit : Option Bool) (timeStamp : Nat) (payload : List UInt8) :
    5 + (carrier bit timeStamp payload).body.length = headerSize bit + payload.length := by
  cases bit with
  | none => rfl
  | some b =>
      simp only [carrier, headerSize, Message.body, List.length_append, length_le32,
        MsgReliable.size, MsgHeader.size]
      omega

theorem carrier_fits {timeStamp : Nat} (hroom : headerSize bit + payload.length
    ≤ s.messageBufferSize) : (carrier bit timeStamp payload).Fits s.messageBufferSize := by
  have hsize := size_lt s
  refine ⟨?_, ?_⟩
  · have hdata : (carrier bit timeStamp payload).data = payload := by
      cases bit <;> rfl
    rw [hdata]
    omega
  · rw [carrier_length, u32_of_lt (by omega)]
    exact hroom

/-- A message that fits leaves a server with its signature in place as `encode` says. -/
theorem wirePacket_bytes (hfront : s.front = signature.bytes) {m : Message}
    (hshort : 5 + m.body.length < 2 ^ 32) (address : UdcAddressMux) :
    (s.wirePacket (address, m)).bytes = encode signature.bytes m := by
  show wire s.front m = _
  rw [wire_short length_front hshort, hfront]

/-- What has been sent stays sent. -/
theorem sent_performs {event : Option UdcEvent} {r : Reaction} (h : Performs s s' event r) :
    s.socket.history.sent <+: s'.socket.history.sent := by
  obtain ⟨new, hsocket, -⟩ := h.socket
  rw [hsocket]
  exact List.prefix_append _ _

theorem sent_status (time : Milliseconds) (order : List UdcEndPointId) (s : UdcServerImpl) :
    s.socket.history.sent <+:
      (UdcServerImpl.updateClientConnectionStatus time order s).1.socket.history.sent := by
  refine updateClientConnectionStatus_rule time
    (P := fun t => s.socket.history.sent <+: t.socket.history.sent)
    (Q := fun t _ => s.socket.history.sent <+: t.socket.history.sent) ?_ ?_ ?_ order s
    (List.prefix_refl _)
  · intro t ht
    exact ht
  · intro t id t' ht hperf
    exact ht.trans (sent_performs hperf)
  · intro t id t' e ht hperf
    exact ht.trans (sent_performs hperf)

/-- The reliable message in front is the first thing its client sends in its turn. -/
theorem sends_front {r : ClientRef} {b : Bool} {time : Milliseconds}
    (hfront : (s.heap r).reliableMessages.head? = some payload)
    (hbit : (s.heap r).reliableState = stateOf (.bit b))
    (hpatient : (s.heap r).needsReliableReset time = false) :
    ((s.heap r).sendReliable time).2 = [carrier (some b) (u32 time) payload] := by
  obtain ⟨rest, hqueue⟩ := List.head?_eq_some_iff.mp hfront
  have hreset : (s.heap r).reliableState ≠ -1 := by
    rw [hbit]
    cases b <;> decide
  have hkind : decide ((s.heap r).reliableState ≠ 0) = b := by
    rw [hbit]
    cases b <;> rfl
  unfold UdcClient.sendReliable
  rw [hqueue]
  simp only [if_neg hreset, hpatient, Bool.false_eq_true, if_false, hkind, carrier]

theorem ping_fits (s : UdcServerImpl) (timeStamp : Nat) :
    (Message.ping timeStamp).Fits s.messageBufferSize :=
  fits_word (nine_le s) rfl (length_le32 _)

/-- The packets of a turn that sends the reliable message in front. -/
theorem tickClient_sent {r : ClientRef} {b : Bool} {time : Milliseconds}
    (hfront : (s.heap r).reliableMessages.head? = some payload)
    (hbit : (s.heap r).reliableState = stateOf (.bit b))
    (hpatient : (s.heap r).needsReliableReset time = false)
    (hroom : headerSize (some b) + payload.length ≤ s.messageBufferSize) :
    ∃ pings, (s.tickClient r time).1.socket.history.sent = s.socket.history.sent ++
      s.wirePacket ((s.heap r).outgoingAddress, carrier (some b) (u32 time) payload) :: pings := by
  have hperf := tickClient_performs (s := s) time r
  obtain ⟨new, hsocket, hnew⟩ := hperf.socket
  obtain ⟨pings, hpings, hsends⟩ : ∃ pings : List (UdcAddressMux × Message),
      (∀ x ∈ pings, x.2 = .ping (u32 time)) ∧ (s.protocol.tickClient r time).sends
        = ((s.heap r).outgoingAddress, carrier (some b) (u32 time) payload) :: pings := by
    refine ⟨(((s.heap r).sendReliable time).1.sendPing time).map
      fun m => ((s.heap r).outgoingAddress, m), ?_, ?_⟩
    · intro x hx
      obtain ⟨m, hm, rfl⟩ := List.mem_map.mp hx
      unfold UdcClient.sendPing at hm
      split at hm
      · exact List.mem_singleton.mp hm
      · cases hm
    · unfold Protocol.tickClient
      rw [show s.protocol.heap = s.heap from rfl]
      simp only [sends_front hfront hbit hpatient, sendReliable_outgoingAddress,
        List.singleton_append, List.map_cons]
      split <;> rfl
  refine ⟨pings.map s.wirePacket, ?_⟩
  rw [hsocket, hnew, hsends, List.map_cons]
  intro x hx
  rw [hsends] at hx
  rcases List.mem_cons.mp hx with rfl | hx
  · exact carrier_fits hroom
  · rw [hpings x hx]
    exact ping_fits s _

/-- **What is sent for a payload is the message that carries it**, signed. -/
theorem conveys_bytes (h : Conveys s payload packet bit) (hfront : s.front = signature.bytes)
    (hroom : headerSize bit + payload.length ≤ s.messageBufferSize) :
    ∃ timeStamp, timeStamp < 2 ^ 32 ∧
      packet.bytes = encode signature.bytes (carrier bit timeStamp payload) := by
  have hsize := size_lt s
  have hshort : ∀ timeStamp, 5 + (carrier bit timeStamp payload).body.length < 2 ^ 32 := by
    intro timeStamp
    rw [carrier_length]
    omega
  cases h with
  | @unreliable endPointId r hlookup hconn hsent =>
      obtain ⟨reaction, hperf, hcases⟩ :=
        sendUnreliableMessage_performs (s := s) endPointId (show payload.length < 2 ^ 32 by omega)
      obtain ⟨new, hsocket, hnew⟩ := hperf.socket
      rw [hsocket] at hsent
      have hnew' : new = [packet] := List.append_cancel_left hsent
      rcases hcases with rfl | ⟨rfl, hfits⟩
      · have hnone : new = [] := hnew (fun x hx => (nomatch hx))
        rw [hnone] at hnew'
        cases hnew'
      · have hsends : (s.protocol.say endPointId payload).sends
            = [((s.heap r).outgoingAddress, .unreliable payload)] := by
          unfold Protocol.say
          rw [show s.protocol.clientsById.lookup endPointId = some r from hlookup]
          exact congrArg Reaction.sends (if_pos hconn)
        rw [hsends] at hnew
        have hwire : [packet] = [s.wirePacket ((s.heap r).outgoingAddress, .unreliable payload)] :=
          hnew'.symm.trans (hnew (by simpa using hfits))
        rw [List.singleton_inj.mp hwire]
        exact ⟨0, by decide, wirePacket_bytes hfront (hshort 0) _⟩
  | @reliable endPointId r b time order hlookup hqueue hbit hpatient hsent =>
      obtain ⟨pings, hpings⟩ := tickClient_sent hqueue hbit hpatient hroom
      have hstatus : ∃ s', UdcServerImpl.updateClientConnectionStatus time (endPointId :: order) s
            = s' ∧ (s.tickClient r time).1.socket.history.sent <+: s'.1.socket.history.sent := by
        refine ⟨_, rfl, ?_⟩
        unfold UdcServerImpl.updateClientConnectionStatus
        rw [hlookup]
        simp only
        rw [show ((s.updateReliable r time).updatePing r time).updateLost r time
          = s.tickClient r time from rfl]
        generalize s.tickClient r time = t
        obtain ⟨s', event⟩ := t
        cases event with
        | some e => exact List.prefix_refl _
        | none => exact sent_status time order s'
      obtain ⟨s', hs', more, hmore⟩ := hstatus
      rw [hs', ← hmore, hpings, List.append_assoc, List.getElem?_append_right (Nat.le_refl _),
        Nat.sub_self] at hsent
      rw [← Option.some.inj hsent]
      exact ⟨u32 time, u32_lt time, wirePacket_bytes hfront (hshort _) _⟩

end Sending

/-! ### What is received first -/

section Receiving

variable {Address : Type} {s : UdcSocket Address} {b : MessageBuffer} {n : Nat}

/-- No datagram is in front. -/
def UdcSocket.Bare (s : UdcSocket Address) : Prop :=
  ∀ d negative, s.pending.head? ≠ some (.datagram d negative)

/-- A socket has the datagram in front, and no socket asked before it has one. -/
def FirstAmong (sockets : List (UdcSocket Address)) (d : Datagram Address) : Prop :=
  ∃ before negative behind after,
    sockets = before ++ ⟨.datagram d negative :: behind⟩ :: after ∧ ∀ s ∈ before, s.Bare

/-- The packet is what the sockets have to offer first. -/
inductive UdcSocketMux.First (m : UdcSocketMux) : Packet → Prop
  | ipv4 {d : Datagram UdcAddressIPv4} (h : FirstAmong m.socketIPv4 d)
      (hbare : ∀ s ∈ m.socketIPv6, s.Bare) : First m (d.packet .ipv4)
  | ipv6 {d : Datagram UdcAddressIPv6} (h : FirstAmong m.socketIPv6 d) : First m (d.packet .ipv6)

theorem receivePacket_bare (h : s.Bare) : (receivePacket s b n).code ≠ 1 ∧
    (receivePacket s b n).buffer = b ∧ (receivePacket s b n).size = n := by
  obtain ⟨pending⟩ := s
  match pending with
  | [] => exact ⟨show (0 : Int) ≠ 1 by decide, rfl, rfl⟩
  | .wouldBlock :: rest => exact ⟨show (0 : Int) ≠ 1 by decide, rfl, rfl⟩
  | .failure :: rest => exact ⟨show (-2 : Int) ≠ 1 by decide, rfl, rfl⟩
  | .datagram d negative :: rest => exact absurd rfl (h d negative)

theorem receiveFirst_bare {before : List (UdcSocket Address)} (h : ∀ s ∈ before, s.Bare)
    (rest : List (UdcSocket Address)) :
    (receiveFirst receivePacket (before ++ rest) b n).source
        = (receiveFirst receivePacket rest b n).source ∧
      (receiveFirst receivePacket (before ++ rest) b n).buffer
        = (receiveFirst receivePacket rest b n).buffer ∧
      (receiveFirst receivePacket (before ++ rest) b n).size
        = (receiveFirst receivePacket rest b n).size := by
  induction before with
  | nil => exact ⟨rfl, rfl, rfl⟩
  | cons s before ih =>
      obtain ⟨hs, hbefore⟩ := List.forall_mem_cons.mp h
      obtain ⟨hcode, hbuffer, hsize⟩ := receivePacket_bare (b := b) (n := n) hs
      rw [List.cons_append, receiveFirst]
      simp only [if_neg hcode, hbuffer, hsize]
      exact ih hbefore

theorem receiveFirst_first {sockets : List (UdcSocket Address)} {d : Datagram Address}
    (h : FirstAmong sockets d) (hn : n < 2 ^ 31) (hpos : 0 < d.bytes.length)
    (hfits : d.bytes.length ≤ n) :
    (receiveFirst receivePacket sockets b n).source = some d := by
  obtain ⟨before, negative, behind, after, rfl, hbefore⟩ := h
  have hpacket : receivePacket ⟨.datagram d negative :: behind⟩ b n
      = ⟨1, some d, b.write 0 d.bytes, d.bytes.length, ⟨behind⟩⟩ := by
    rw [receivePacket_datagram b (by omega) rfl, if_neg (Nat.not_le.mpr hn),
      if_neg (Nat.ne_of_gt hpos), if_pos hfits]
  rw [(receiveFirst_bare hbefore _).1, receiveFirst]
  simp only [hpacket, if_true]

variable {m : UdcSocketMux} {packet : Packet}

theorem receive_first (h : m.First packet) (hn : n < 2 ^ 31) (hpos : 0 < packet.bytes.length)
    (hfits : packet.bytes.length ≤ n) :
    (m.receive b n).mux.history.received = m.history.received ++ [packet] := by
  cases h with
  | @ipv6 d h =>
      have hsource := receiveFirst_first (b := b) h hn hpos hfits
      have hreceive : (m.receiveIPv6 b n).address = some (d.packet .ipv6).address ∧
          (m.receiveIPv6 b n).mux.history.received
            = m.history.received ++ [d.packet .ipv6] := by
        unfold UdcSocketMux.receiveIPv6 receivePacketIPv6
        simp only [hsource]
        exact ⟨rfl, rfl⟩
      unfold UdcSocketMux.receive
      simp only [hreceive.1, Option.isSome_some, if_true]
      exact hreceive.2
  | @ipv4 d h hbare =>
      have hnothing := receiveFirst_bare (b := b) (n := n) hbare []
      rw [List.append_nil] at hnothing
      have hmissed : (m.receiveIPv6 b n).address = none ∧ (m.receiveIPv6 b n).buffer = b ∧
          (m.receiveIPv6 b n).size = n ∧
            (m.receiveIPv6 b n).mux.history.received = m.history.received := by
        unfold UdcSocketMux.receiveIPv6 receivePacketIPv6
        simp only [hnothing]
        exact ⟨rfl, rfl, rfl, rfl⟩
      obtain ⟨hnone, hbuffer, hsize, hreceived⟩ := hmissed
      have hsource := receiveFirst_first (b := b) h hn hpos hfits
      unfold UdcSocketMux.receive
      simp only [hnone, Option.isSome_none, Bool.false_eq_true, if_false, hbuffer, hsize]
      unfold UdcSocketMux.receiveIPv4 receivePacketIPv4
      rw [socketIPv4_receiveIPv6]
      simp only [hsource]
      rw [← hreceived]
      rfl

/-- The first `receive` of the server's next call of `receiveMessages` returns the packet. -/
def UdcServerImpl.ReceivesFirst (s : UdcServerImpl) (packet : Packet) : Prop :=
  (s.receive s.messageBufferSize).1.socket.history.received
    = s.socket.history.received ++ [packet]

instance (s : UdcServerImpl) (packet : Packet) : Decidable (s.ReceivesFirst packet) := by
  unfold UdcServerImpl.ReceivesFirst
  infer_instance

theorem receivesFirst_of_first {s : UdcServerImpl} (h : s.socket.First packet)
    (hsmall : s.messageBufferSize < 2 ^ 31) (hpos : 0 < packet.bytes.length)
    (hfits : packet.bytes.length ≤ s.messageBufferSize) : s.ReceivesFirst packet :=
  receive_first h hsmall hpos hfits

/-- What is received first is what the call handles first. -/
theorem turn_of_receivesFirst {s : UdcServerImpl} (time : Milliseconds)
    (h : s.ReceivesFirst packet) :
    (s.receive s.messageBufferSize).2.1 = some packet.address ∧
      Delivered s.socket s.messageBuffer packet
        (s.socket.receive s.messageBuffer s.messageBufferSize) ∧
      Turn time s packet
        ((s.receive s.messageBufferSize).1.handleDatagram packet.address
          (s.receive s.messageBufferSize).2.2 time).1
        ((s.receive s.messageBufferSize).1.handleDatagram packet.address
          (s.receive s.messageBufferSize).2.2 time).2 := by
  have hcap := capacity_full s.messageBuffer
  cases hreturned : (s.receive s.messageBufferSize).2.1 with
  | none =>
      have hsame := (lastTurn_of_receive hcap hreturned).received
      rw [UdcServerImpl.ReceivesFirst,
        show (s.receive s.messageBufferSize).1.socket.history.received
          = s.socket.history.received from hsame] at h
      exact absurd h (by simp)
  | some address =>
      obtain ⟨p, hdelivered, hturn, -⟩ := turn_of_receive time hcap hreturned
      have hp := hdelivered.received.symm.trans h
      obtain rfl := List.singleton_inj.mp (List.append_cancel_left hp)
      obtain rfl : address = p.address :=
        Option.some.inj (hreturned.symm.trans hdelivered.address)
      exact ⟨rfl, hdelivered, hturn⟩

end Receiving

/-! ### What the event says -/

/-- The type of the event for a message from such an address. -/
def messageType : UdcAddress → UdcEventType
  | .ipv4 _ => .receiveMessageIPv4
  | .ipv6 _ => .receiveMessageIPv6

/-- A connection event, or one that points at the rest of a datagram of `n` bytes. -/
def Points (n : Nat) (e : UdcEvent) : Prop :=
  e.eventType.code ≤ 3 ∨ (e.eventType = messageType e.address ∧ e.msgIndex + e.msgSize = n)

section Events

variable {s : UdcServerImpl} {address : UdcAddressMux} {n : Nat} {time : Milliseconds}
  {e : UdcEvent}

theorem connectionEvent_points {eventType : UdcEventType} (htype : eventType.code ≤ 3)
    {endPointId : UdcEndPointId} (h : (s.connectionEvent eventType endPointId).2 = some e) :
    Points n e := by
  rw [← Option.some.inj h]
  exact Or.inl htype

theorem messageEvent_points {msgIndex : Nat} (hle : msgIndex ≤ n)
    (h : (s.messageEvent address msgIndex (n - msgIndex)).2 = some e) : Points n e := by
  rw [← Option.some.inj h]
  exact Or.inr ⟨rfl, Nat.add_sub_cancel' hle⟩

theorem regained_points (r : ClientRef) (c : UdcClient × Bool)
    (h : (if !c.2 then ((s.setClient r c.1, none) : UdcServerImpl × Option UdcEvent)
      else (s.setClient r c.1).connectionEvent .connectionRegained
        ((s.setClient r c.1).heap r).id).2 = some e) : Points n e := by
  split at h
  · cases h
  · exact connectionEvent_points (by decide) h

theorem processConnectionHandshake_points
    (h : (s.processConnectionHandshake address time).2 = some e) : Points n e := by
  unfold UdcServerImpl.processConnectionHandshake at h
  cases hclient : s.tryGetFirstPendingClient with
  | none =>
      rw [hclient] at h
      cases h
  | some r =>
      rw [hclient] at h
      simp only at h
      split at h
      · cases h
      · split at h
        · cases h
        · exact connectionEvent_points (by decide) h

theorem processPong_points (h : (s.processPong address time).2 = some e) : Points n e := by
  unfold UdcServerImpl.processPong at h
  cases hclient : s.tryGetClientByAddress address with
  | none =>
      rw [hclient] at h
      cases h
  | some r =>
      rw [hclient] at h
      simp only at h
      split at h
      · cases h
      · exact regained_points r _ h

theorem processReliableHandshake_points (state : Int)
    (h : (s.processReliableHandshake state address time).2 = some e) : Points n e := by
  unfold UdcServerImpl.processReliableHandshake at h
  cases hclient : s.tryGetClientByAddress address with
  | none =>
      rw [hclient] at h
      cases h
  | some r =>
      rw [hclient] at h
      simp only at h
      by_cases htime : time < MsgReliable.deserializeTimeStamp s.messageBuffer
      · rw [if_pos htime] at h
        cases h
      · rw [if_neg htime] at h
        exact regained_points r _ h

theorem processReliableMessage_points (state : Int) (hle : MsgReliable.size ≤ n)
    (h : (s.processReliableMessage state address n).2 = some e) : Points n e := by
  unfold UdcServerImpl.processReliableMessage at h
  simp only at h
  split at h
  · cases h
  · split at h
    · exact messageEvent_points hle h
    · cases h

theorem processMessage_points (h : (s.processMessage address n time).2 = some e) : Points n e := by
  unfold UdcServerImpl.processMessage at h
  have hcheck : ∀ {p : Prop} [Decidable p] {r : UdcServerImpl × Option UdcEvent},
      (if p then r else (s, none)).2 = some e → p ∧ r.2 = some e := by
    intro p _ r h
    by_cases hp : p
    · rw [if_pos hp] at h
      exact ⟨hp, h⟩
    · rw [if_neg hp] at h
      cases h
  cases hid : UdcMessageId.ofByte? (MsgHeader.deserializeMsgId s.messageBuffer) with
  | none =>
      rw [hid] at h
      cases h
  | some id =>
      rw [hid] at h
      cases id with
      | connectionRequest => exact nomatch (hcheck h).2
      | connectionHandshake => exact processConnectionHandshake_points (hcheck h).2
      | ping => exact nomatch (hcheck h).2
      | pong => exact processPong_points (hcheck h).2
      | unreliable => exact messageEvent_points (hcheck h).1 (hcheck h).2
      | reliableReset =>
          exact processReliableMessage_points _ (Nat.le_of_eq (hcheck h).1.symm) (hcheck h).2
      | reliable0 => exact processReliableMessage_points _ (hcheck h).1 (hcheck h).2
      | reliable1 => exact processReliableMessage_points _ (hcheck h).1 (hcheck h).2
      | reliableHandshakeReset => exact processReliableHandshake_points _ (hcheck h).2
      | reliableHandshake0 => exact processReliableHandshake_points _ (hcheck h).2
      | reliableHandshake1 => exact processReliableHandshake_points _ (hcheck h).2

theorem handleDatagram_points (h : (s.handleDatagram address n time).2 = some e) :
    Points n e := by
  unfold UdcServerImpl.handleDatagram at h
  split at h
  · cases h
  · split at h
    · cases h
    · exact processMessage_points h

/-- The event's getters give the source, and where the payload is in the buffer. -/
def UdcEvent.Reads (e : UdcEvent) (b : MessageBuffer) (source : UdcAddressMux)
    (payload : List UInt8) : Prop :=
  udcGetResultConnectionEvent e = none ∧
    match source.address with
    | .ipv4 ip =>
        udcGetResultMessageIPv6Event e = none ∧ ∃ msgIndex msgSize,
          udcGetResultMessageIPv4Event e = some (ip, source.port, msgIndex, msgSize) ∧
            msgIndex + msgSize ≤ b.size ∧ slice b.bytes msgIndex msgSize = payload
    | .ipv6 ip =>
        udcGetResultMessageIPv4Event e = none ∧ ∃ msgIndex msgSize,
          udcGetResultMessageIPv6Event e = some (ip, source.port, msgIndex, msgSize) ∧
            msgIndex + msgSize ≤ b.size ∧ slice b.bytes msgIndex msgSize = payload

theorem reads_of_report {b : MessageBuffer} {source : UdcAddressMux} {msgIndex : Nat}
    {payload : List UInt8} (hpoints : Points n e) (hroom : n ≤ b.size)
    (hreport : e.report b = .message source msgIndex payload) : e.Reads b source payload := by
  unfold UdcEvent.report at hreport
  cases hconnection : udcGetResultConnectionEvent e with
  | some endPointId =>
      rw [hconnection] at hreport
      cases hreport
  | none =>
      rw [hconnection] at hreport
      simp only [Report.message.injEq] at hreport
      obtain ⟨hsource, -, hpayload⟩ := hreport
      rcases hpoints with hcode | ⟨htype, hend⟩
      · -- the getter of connection events would not fail
        have hsome : udcGetResultConnectionEvent e = some e.endPointId := if_neg (by
          show ¬ e.eventType.code > 3
          omega)
        rw [hsome] at hconnection
        cases hconnection
      · subst hsource
        refine ⟨hconnection, ?_⟩
        cases haddress : e.address with
        | ipv4 ip =>
            rw [haddress] at htype
            refine ⟨?_, e.msgIndex, e.msgSize, ?_, by omega, hpayload⟩
            · simp [udcGetResultMessageIPv6Event, htype, messageType]
            · simp [udcGetResultMessageIPv4Event, htype, messageType, haddress]
        | ipv6 ip =>
            rw [haddress] at htype
            refine ⟨?_, e.msgIndex, e.msgSize, ?_, by omega, hpayload⟩
            · simp [udcGetResultMessageIPv4Event, htype, messageType]
            · simp [udcGetResultMessageIPv6Event, htype, messageType, haddress]

end Events

/-! ### All the way -/

/-- The next call of the receiver returns an event that reads as this payload. -/
def ArrivesWhole (s : UdcServerImpl) (time : Milliseconds) (source : UdcAddressMux)
    (payload : List UInt8) : Prop :=
  ∃ e, (s.receiveMessages time).2 = some e ∧
    e.Reads (s.receiveMessages time).1.messageBuffer source payload

section Arriving

variable {a b : UdcServerImpl} {payload : List UInt8} {packet : Packet} {bit : Option Bool}
  {source : UdcAddressMux} {mark : Mark}

/-- The carrier of a payload that is expected is reported with the payload. -/
theorem carrier_report (p : Protocol) (time : Milliseconds) (timeStamp : Nat)
    (hexpected : ∀ b, bit = some b → p.reliableStates.lookup source = none ∨
      p.reliableStates.lookup source = some (stateOf (.bit b))) :
    (p.handle source time (carrier bit timeStamp payload)).report
      = some (.message source (headerSize bit) payload) := by
  cases bit with
  | none => rfl
  | some b => exact if_pos (hexpected b rfl)

/-- A carrier that is received first and expected is read off the event it makes. -/
theorem arrives_carrier {timeStamp : Nat} (hstamp : timeStamp < 2 ^ 32)
    (hfirst : b.ReceivesFirst ⟨source, encode b.packetSignature.bytes
      (carrier bit timeStamp payload), mark⟩)
    (hexpected : ∀ bit', bit = some bit' → b.reliableStates.lookup source = none ∨
      b.reliableStates.lookup source = some (stateOf (.bit bit'))) (time : Milliseconds) :
    ArrivesWhole b time source payload := by
  obtain ⟨haddress, hdelivered, hturn⟩ := turn_of_receivesFirst time hfirst
  have hdecode : decode b.packetSignature.bytes (encode b.packetSignature.bytes
      (carrier bit timeStamp payload)) = some (carrier bit timeStamp payload) := by
    apply decode_encode b.packetSignature.size
    cases bit with
    | none => trivial
    | some bit' => exact hstamp
  have hreport := hturn.report
  rw [Protocol.react, hdecode] at hreport
  rw [show (b.protocol.handle source time (carrier bit timeStamp payload)).report = _ from
    carrier_report b.protocol time timeStamp hexpected] at hreport
  obtain ⟨e, he, hmessage⟩ := Option.map_eq_some_iff.mp hreport
  have hresult : b.receiveMessages time
      = ((b.receive b.messageBufferSize).1.handleDatagram source
          (b.receive b.messageBufferSize).2.2 time) := by
    unfold UdcServerImpl.receiveMessages UdcServerImpl.receiveLoop
    rw [receive_some haddress]
    replace he : ((b.receive b.messageBufferSize).1.handleDatagram source
      (b.receive b.messageBufferSize).2.2 time).2 = some e := he
    simp only
    generalize (b.receive b.messageBufferSize).1.handleDatagram source
      (b.receive b.messageBufferSize).2.2 time = t at he
    obtain ⟨b', event⟩ := t
    rw [show event = some e from he]
  refine ⟨e, ?_, ?_⟩
  · rw [hresult]
    exact he
  · rw [hresult]
    refine reads_of_report (handleDatagram_points he) ?_ hmessage
    exact Nat.le_trans hdelivered.room (Nat.le_of_eq hturn.size.symm)

/-- **A payload arrives byte for byte**, when its datagram is what a call receives first. -/
theorem payload_arrives (hsignature : b.packetSignature = a.packetSignature)
    (hfront : a.front = a.packetSignature.bytes) (hconveys : Conveys a payload packet bit)
    (hroom : headerSize bit + payload.length ≤ a.messageBufferSize)
    (hfirst : b.ReceivesFirst ⟨source, packet.bytes, mark⟩)
    (hexpected : ∀ bit', bit = some bit' → b.reliableStates.lookup source = none ∨
      b.reliableStates.lookup source = some (stateOf (.bit bit'))) (time : Milliseconds) :
    ArrivesWhole b time source payload := by
  obtain ⟨timeStamp, hstamp, hbytes⟩ := conveys_bytes hconveys hfront hroom
  rw [hbytes, ← hsignature] at hfirst
  exact arrives_carrier hstamp hfirst hexpected time

/-- A server at whose socket a datagram from `10.0.0.1:7` waits. -/
def receiverOps (bytes : List UInt8) : List Op :=
  [.tryBindIPv4 true, .arriveIPv4 0 (.datagram ⟨exampleIP 1, 7, bytes, default⟩)]

theorem first_receiverOps (bytes : List UInt8) :
    (runState exampleServer (receiverOps bytes)).socket.First
      ⟨⟨.ipv4 (exampleIP 1), 7⟩, bytes, default⟩ :=
  .ipv4 (d := ⟨exampleIP 1, 7, bytes, default⟩)
    ⟨[], .refused, [], [], rfl, fun _ h => (nomatch h)⟩ fun _ h => (nomatch h)

theorem conveys_one : Conveys (runState exampleServer connectedOps) [65]
    ⟨⟨.ipv4 (exampleIP 2), 2⟩, [1, 2, 3, 4, 4, 65], default⟩ none :=
  @Conveys.unreliable _ _ _ 1 0 (by decide +kernel) (by decide +kernel) (by decide +kernel)

theorem payload_arrives_one : ArrivesWhole (runState exampleServer
    (receiverOps [1, 2, 3, 4, 4, 65])) 10 ⟨.ipv4 (exampleIP 1), 7⟩ [65] :=
  have hsignature : (runState exampleServer (receiverOps [1, 2, 3, 4, 4, 65])).packetSignature
    = (runState exampleServer connectedOps).packetSignature := by decide +kernel
  have hfirst := receivesFirst_of_first (first_receiverOps [1, 2, 3, 4, 4, 65])
    (by decide +kernel) (by decide +kernel) (by decide +kernel)
  payload_arrives hsignature (by decide +kernel) conveys_one (by decide +kernel) hfirst
    (fun _ h => (nomatch h)) 10

end Arriving

end UdpConnect
