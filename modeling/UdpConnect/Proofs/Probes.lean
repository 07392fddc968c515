/-
What a client's turn hands to the socket, message by message.

`probes` is read off the history of the socket; `probes_eq` says what is in it, in terms of
the messages that `sendReliable` and `sendPing` name.  A datagram is of a kind if it is the
packet of some message of that kind, which is what the byte behind the signature says as
far as the packet reaches that byte (`id_of_wire`).
-/
import UdpConnect.Proofs.Replies

namespace UdpConnect

open Memory AlternatingBit UdcServerImpl

/-- The packet is that of a message of one of these kinds. -/
def Packet.IsOf (ids : List UdcMessageId) (packet : Packet) : Prop :=
  ∃ front m, front.length = 4 ∧ Message.id m ∈ ids ∧ packet.bytes = wire front m

/-- In its turn the client is sent a datagram of one of these kinds. -/
def SendsKind (ids : List UdcMessageId) (r : ClientRef) (time : Milliseconds)
    (s : UdcServerImpl) : Prop :=
  ∃ packet ∈ s.probes r time, packet.address = (s.heap r).outgoingAddress ∧ packet.IsOf ids

/-- The tick sends the client a datagram of one of these kinds in its turn. -/
def Op.SendsKind (ids : List UdcMessageId) (r : ClientRef) (s : UdcServerImpl) : Op → Prop
  | .updateClientConnectionStatus time order =>
      ∃ u, (u, r) ∈ visits time order s ∧ UdpConnect.SendsKind ids r time u
  | _ => False

section Kinds

variable {front front' : List UInt8} {m m' : Message}

/-- The kind of a message is on the wire if the packet reaches so far. -/
theorem id_of_wire (hfront : front.length = 4) (hfront' : front'.length = 4)
    (h : wire front m = wire front' m') (hlong : 5 ≤ (wire front m).length) : m.id = m'.id := by
  have hbyte {front : List UInt8} (m : Message) (hfront : front.length = 4)
      (hlong : 5 ≤ (wire front m).length) : (wire front m)[4]? = some m.id.toByte := by
    have hlt : 4 < u32 (encode front m).length := by
      rw [wire, List.length_take] at hlong
      omega
    rw [wire, List.getElem?_take_of_lt hlt, encode,
      List.getElem?_append_right (Nat.le_of_eq hfront), hfront]
    rfl
  have hbyte' := hbyte m' hfront' (h ▸ hlong)
  rw [← h, hbyte m hfront hlong] at hbyte'
  exact toByte_injective (Option.some.inj hbyte')

theorem ping_of_id (h : m.id = .ping) : ∃ timeStamp, m = .ping timeStamp := by
  cases m with
  | ping timeStamp => exact ⟨timeStamp, rfl⟩
  | reliable kind timeStamp data => rcases kind with _ | _ | _ <;> cases h
  | reliableHandshake kind timeStamp => rcases kind with _ | _ | _ <;> cases h
  | _ => cases h

/-- A message of one word is whole on the wire. -/
theorem length_wire_word (hfront : front.length = 4) (hbody : m.body.length = 4) :
    5 ≤ (wire front m).length := by
  rw [wire_word hfront hbody, encode, List.length_append, List.length_cons, hfront, hbody]
  decide

/-- A message of one word is not taken for one of another kind. -/
theorem not_isOf {ids : List UdcMessageId} {packet : Packet} (hfront : front.length = 4)
    (hbody : m.body.length = 4) (hid : m.id ∉ ids) (hbytes : packet.bytes = wire front m) :
    ¬ packet.IsOf ids := by
  rintro ⟨front', m', hfront', hid', hbytes'⟩
  have hsame : m.id = m'.id := id_of_wire hfront hfront' (hbytes.symm.trans hbytes')
    (length_wire_word hfront hbody)
  rw [← hsame] at hid'
  exact hid hid'

end Kinds

section Turns

variable {s : UdcServerImpl} {r : ClientRef} {time : Milliseconds} {c : UdcClient} {m : Message}

theorem fits_sendReliable (hready : Ready s) (hm : m ∈ ((s.heap r).sendReliable time).2) :
    m.Fits s.messageBufferSize := by
  rcases mem_sendReliable hm with ⟨-, rfl⟩ | ⟨-, msg, hfront, rfl⟩
  · exact fits_word (nine_le s) rfl (length_le32 _)
  · obtain ⟨hlen, hfits⟩ := hready.queued r msg (List.mem_of_mem_head? hfront)
    exact fits_reliable hlen hfits

/-- The reliable part of a turn hands to the socket what `sendReliable` says. -/
theorem newSent_updateReliable (hready : Ready s) (r : ClientRef) (time : Milliseconds) :
    newSent s (s.updateReliable r time) = ((s.heap r).sendReliable time).2.map fun m =>
      s.wirePacket ((s.heap r).outgoingAddress, m) := by
  obtain ⟨new, hsocket, hnew⟩ := (updateReliable_performs (s := s) time r).socket
  have hsent : (s.updateReliable r time).socket.history.sent
      = s.socket.history.sent ++ new := by rw [hsocket]
  have hfits : ∀ x ∈ ((s.heap r).sendReliable time).2.map fun m =>
      ((s.heap r).outgoingAddress, m), x.2.Fits s.messageBufferSize := by
    intro x hx
    obtain ⟨m, hm, rfl⟩ := List.mem_map.mp hx
    exact fits_sendReliable hready hm
  rw [newSent_eq hsent, hnew hfits, List.map_map]
  rfl

theorem mem_sendPing : m ∈ c.sendPing time ↔ c.needsPing time = true ∧ m = .ping (u32 time) := by
  unfold UdcClient.sendPing
  by_cases hneeds : c.needsPing time = true
  · rw [if_pos hneeds, List.mem_singleton, and_iff_right hneeds]
  · rw [if_neg hneeds]
    simp [hneeds]

/-- Throwing an event hands nothing to the socket. -/
theorem updateLost_socket (s : UdcServerImpl) (r : ClientRef) (time : Milliseconds) :
    (s.updateLost r time).1.socket = s.socket := by
  unfold UdcServerImpl.updateLost
  split <;> rfl

/-- **A turn hands to the socket the reliable message and the ping.** -/
theorem probes_eq (hready : Ready s) (r : ClientRef) (time : Milliseconds) :
    s.probes r time = (((s.heap r).sendReliable time).2
      ++ ((s.heap r).sendReliable time).1.sendPing time).map fun m =>
        s.wirePacket ((s.heap r).outgoingAddress, m) := by
  obtain ⟨new, hsocket, hnew⟩ := (tickClient_performs (s := s) time r).socket
  have hsends : (s.protocol.tickClient r time).sends = (((s.heap r).sendReliable time).2
      ++ ((s.heap r).sendReliable time).1.sendPing time).map fun m =>
        ((s.heap r).outgoingAddress, m) := by
    rw [← sendReliable_outgoingAddress time (s.heap r)]
    unfold Protocol.tickClient
    simp only
    split <;> rfl
  have hfits : ∀ x ∈ (s.protocol.tickClient r time).sends, x.2.Fits s.messageBufferSize := by
    rw [hsends]
    intro x hx
    obtain ⟨m, hm, rfl⟩ := List.mem_map.mp hx
    rcases List.mem_append.mp hm with hm | hm
    · exact fits_sendReliable hready hm
    · obtain ⟨-, rfl⟩ := mem_sendPing.mp hm
      exact fits_word (nine_le s) rfl (length_le32 _)
  have hsent : (s.tickClient r time).1.socket.history.sent = s.socket.history.sent ++ new := by
    rw [hsocket]
  have hprobes : s.probes r time = newSent s (s.tickClient r time).1 := by
    unfold newSent UdcServerImpl.tickClient
    rw [updateLost_socket]
    rfl
  rw [hprobes, newSent_eq hsent, hnew hfits, hsends, List.map_map]
  rfl

/-- A turn sends a ping exactly if one is due. -/
theorem sendsPing_iff (hready : Ready s) :
    SendsKind [.ping] r time s ↔ (s.heap r).needsPing time = true := by
  unfold SendsKind
  rw [probes_eq hready]
  constructor
  · rintro ⟨packet, hpacket, -, front, m, hfront, hid, hbytes⟩
    obtain ⟨m', hm', rfl⟩ := List.mem_map.mp hpacket
    obtain ⟨timeStamp, rfl⟩ := ping_of_id (List.mem_singleton.mp hid)
    have hsame : (Message.ping timeStamp).id = m'.id :=
      id_of_wire hfront length_front hbytes.symm
        (length_wire_word hfront (length_le32 timeStamp))
    rcases List.mem_append.mp hm' with hreliable | hping
    · -- a reliable message is of another kind
      obtain ⟨timeStamp', rfl⟩ := ping_of_id hsame.symm
      rcases mem_sendReliable hreliable with ⟨-, hm⟩ | ⟨-, msg, -, hm⟩
      · cases hm
      · cases hm
    · rw [← needsPing_sendReliable]
      exact (mem_sendPing.mp hping).1
  · intro hneeds
    rw [← needsPing_sendReliable] at hneeds
    refine ⟨_, List.mem_map.mpr ⟨.ping (u32 time), ?_, rfl⟩, rfl, s.front, .ping (u32 time),
      length_front, ?_, rfl⟩
    · exact List.mem_append_right _ (mem_sendPing.mpr ⟨hneeds, rfl⟩)
    · exact List.mem_singleton.mpr rfl

end Turns

end UdpConnect
