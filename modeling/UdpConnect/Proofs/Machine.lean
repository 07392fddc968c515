/-
The application's calls and the ticks, on the machine of `Proofs/Protocol.lean`.

Together with `handle` this makes every operation of the server a sequence of
changes to its memory.  `Change` lists them and `Protocol.change` says what each one
does; `performs_*` say that the server's calls do just that.

What is sent is said in messages.  On the wire a message stands behind whatever four
bytes the message buffer starts with, and the length is a `uint32_t`, so that a
message of nearly `2 ^ 32` bytes leaves as a fragment; `wire` is the packet one gets.
-/
import UdpConnect.Proofs.Receive

namespace UdpConnect

open Memory AlternatingBit

/-! ### The machine -/

/-- The reliable message in front, as one tick sends it; it may be time to reset instead. -/
def UdcClient.sendReliable (c : UdcClient) (time : Milliseconds) : UdcClient × List Message :=
  match c.reliableMessages with
  | [] => (c, [])
  | msg :: _ =>
      if c.reliableState = -1 then (c, [.reliable .reset (u32 time) []])
      else if c.needsReliableReset time then ((c.setReliableState (-1)).resetSendReliable, [])
      else (c.setSendReliable time, [.reliable (.bit (c.reliableState ≠ 0)) (u32 time) msg])

def UdcClient.sendPing (c : UdcClient) (time : Milliseconds) : List Message :=
  if c.needsPing time then [.ping (u32 time)] else []

inductive Change where
  | connect (address : UdcAddressMux) (timeout : Nat) (time : Milliseconds)
  | disconnect (endPointId : UdcEndPointId)
  | push (endPointId : UdcEndPointId) (data : List UInt8)
  | say (endPointId : UdcEndPointId) (data : List UInt8)
  | poll (time : Milliseconds)
  | tick (endPointId : UdcEndPointId) (time : Milliseconds)
  | handle (address : UdcAddressMux) (time : Milliseconds) (m : Message)

namespace Protocol

variable (p : Protocol)

/-- A new endpoint waits behind those that are connecting already. -/
def connect (address : UdcAddressMux) (timeout : Nat) (time : Milliseconds) : Reaction :=
  if timeout = 0 then p.idle
  else
    let endPointId := u32 (p.idCounter + 1)
    let c := UdcClient.new endPointId address timeout (min 500 ((timeout : Milliseconds) / 10))
    { state := { p with
        idCounter := endPointId
        heap := Function.update p.heap p.nextRef (c.startConnecting time)
        nextRef := p.nextRef + 1
        pendingClients := p.pendingClients ++ [p.nextRef] }
      sends := []
      report := some (.issued endPointId) }

def disconnect (endPointId : UdcEndPointId) : Protocol :=
  match p.clientsById.lookup endPointId with
  | some r =>
      { p with
        clientsByAddress := p.clientsByAddress.erase (p.heap r).outgoingAddress
        clientsById := p.clientsById.erase endPointId }
  | none =>
      { p with pendingClients := p.pendingClients.filter fun r => (p.heap r).id ≠ endPointId }

/-- A reliable message joins the queue of its endpoint. -/
def push (endPointId : UdcEndPointId) (data : List UInt8) : Protocol :=
  match p.clientsById.lookup endPointId with
  | none => p
  | some r => p.setClient r ((p.heap r).pushReliable data)

/-- An unreliable message is sent at once, if its endpoint is connected. -/
def say (endPointId : UdcEndPointId) (data : List UInt8) : Reaction :=
  match p.clientsById.lookup endPointId with
  | none => p.idle
  | some r =>
      if (p.heap r).isConnected then ⟨p, [((p.heap r).outgoingAddress, .unreliable data)], none⟩
      else p.idle

/-- The endpoint in front of the queue gives up, or tries again, or waits. -/
def poll (time : Milliseconds) : Reaction :=
  match p.pendingClients.head? with
  | none => p.idle
  | some r =>
      if (p.heap r).needsConnectionTimeoutEvent time then
        { state := { p with pendingClients := p.pendingClients.tail }
          sends := []
          report := some (.connection .connectionTimeout (p.heap r).id) }
      else if (p.heap r).needsConnectionAttempt time then
        { state := p.setClient r ((p.heap r).retryConnecting time)
          sends := [((p.heap r).outgoingAddress, .connectionRequest (p.heap r).id)]
          report := none }
      else p.idle

/-- One client's turn: its reliable message, its ping, and whether it is lost. -/
def tickClient (r : ClientRef) (time : Milliseconds) : Reaction :=
  let t := (p.heap r).sendReliable time
  let sends := (t.2 ++ t.1.sendPing time).map fun m => (t.1.outgoingAddress, m)
  if t.1.needsConnectionLostEvent time then
    ⟨p.setClient r t.1.setConnectionLost, sends, some (.connection .connectionLost t.1.id)⟩
  else ⟨p.setClient r t.1, sends, none⟩

def tick (endPointId : UdcEndPointId) (time : Milliseconds) : Reaction :=
  match p.clientsById.lookup endPointId with
  | none => p.idle
  | some r => p.tickClient r time

def change : Change → Reaction
  | .connect address timeout time => p.connect address timeout time
  | .disconnect endPointId => ⟨p.disconnect endPointId, [], none⟩
  | .push endPointId data => ⟨p.push endPointId data, [], none⟩
  | .say endPointId data => p.say endPointId data
  | .poll time => p.poll time
  | .tick endPointId time => p.tick endPointId time
  | .handle address time m => p.handle address time m

end Protocol

/-! ### Packets -/

/-- The packet of a message sent from a buffer that starts with `front`. -/
def wire (front : List UInt8) (m : Message) : List UInt8 :=
  (encode front m).take (u32 (encode front m).length)

/-- The application's part of a message. -/
def Message.data : Message → List UInt8
  | .unreliable data => data
  | .reliable (.bit _) _ data => data
  | _ => []

/-- The message passes the length test of the send calls, for a buffer of this size. -/
def Message.Fits (size : Nat) (m : Message) : Prop :=
  m.data.length < 2 ^ 32 ∧ u32 (5 + m.body.length : Nat) ≤ size

/-- The four bytes every packet starts with, which should be the signature. -/
def UdcServerImpl.front (s : UdcServerImpl) : List UInt8 := s.messageBuffer.bytes.take 4

def UdcServerImpl.wirePacket (s : UdcServerImpl) (p : UdcAddressMux × Message) : Packet :=
  ⟨p.1, wire s.front p.2, s.socket.history.mark⟩

/-- `s'` and `event` are what the reaction says; what is sent is sent from the buffer. -/
structure Performs (s s' : UdcServerImpl) (event : Option UdcEvent) (r : Reaction) : Prop where
  state : s'.protocol = r.state
  signature : s'.packetSignature = s.packetSignature
  size : s'.messageBufferSize = s.messageBufferSize
  front : s'.front = s.front
  socket : ∃ new, s'.socket = { s.socket with history.sent := s.socket.history.sent ++ new } ∧
    ((∀ p ∈ r.sends, p.2.Fits s.messageBufferSize) → new = r.sends.map s.wirePacket)
  report : event.map (UdcEvent.report s'.messageBuffer) = r.report

section Performing

variable {s s' s'' : UdcServerImpl}

theorem wirePacket_congr (hfront : s'.front = s.front)
    (hmark : s'.socket.history.mark = s.socket.history.mark) : s'.wirePacket = s.wirePacket := by
  funext p
  rw [UdcServerImpl.wirePacket, UdcServerImpl.wirePacket, hfront, hmark]

/-- Without a packet, an event or a write to the buffer. -/
theorem performs_silent {state : Protocol} (hstate : s'.protocol = state)
    (hsignature : s'.packetSignature = s.packetSignature) (hsocket : s'.socket = s.socket)
    (hbuffer : s'.messageBuffer = s.messageBuffer) : Performs s s' none ⟨state, [], none⟩ where
  state := hstate
  signature := hsignature
  size := congrArg MessageBuffer.size hbuffer
  front := congrArg (fun b : MessageBuffer => b.bytes.take 4) hbuffer
  socket := ⟨[], by rw [hsocket, List.append_nil], fun _ => rfl⟩
  report := rfl

theorem performs_event (eventType : UdcEventType) (htype : eventType.code ≤ 3)
    (endPointId : UdcEndPointId) :
    Performs s (s.connectionEvent eventType endPointId).1
      (s.connectionEvent eventType endPointId).2
      ⟨s.protocol, [], some (.connection eventType endPointId)⟩ where
  state := rfl
  signature := rfl
  size := rfl
  front := rfl
  socket := ⟨[], by rw [List.append_nil]; rfl, fun _ => rfl⟩
  report := by
    have hcode : ¬ eventType.code > UdcEventType.connectionRegained.code := Nat.not_lt.mpr htype
    simp [UdcServerImpl.connectionEvent, UdcEvent.report, udcGetResultConnectionEvent, hcode]

/-- One `send`, of a buffer in which the message has been laid out. -/
theorem performs_send {b : MessageBuffer} {address : UdcAddressMux} {m : Message} {size : Nat}
    (hfront : b.bytes.take 4 = s.front) (hsize : b.size = s.messageBufferSize)
    (hbytes : m.Fits s.messageBufferSize → b.bytes.take size = wire s.front m) :
    Performs s (({ s with messageBuffer := b } : UdcServerImpl).send address size) none
      ⟨s.protocol, [(address, m)], none⟩ where
  state := rfl
  signature := rfl
  size := hsize
  front := hfront
  socket := ⟨_, rfl, fun hfits => by
    rw [hbytes (hfits _ List.mem_cons_self)]
    rfl⟩
  report := rfl

theorem Performs.trans {event event' : Option UdcEvent} {r r' : Reaction}
    (h : Performs s s' event r) (h' : Performs s' s'' event' r') :
    Performs s s'' event' ⟨r'.state, r.sends ++ r'.sends, r'.report⟩ where
  state := h'.state
  signature := h'.signature.trans h.signature
  size := h'.size.trans h.size
  front := h'.front.trans h.front
  socket := by
    obtain ⟨new, hsocket, hnew⟩ := h.socket
    obtain ⟨new', hsocket', hnew'⟩ := h'.socket
    refine ⟨new ++ new', by rw [hsocket', hsocket, List.append_assoc], fun hfits => ?_⟩
    have hmark : s'.socket.history.mark = s.socket.history.mark := by rw [hsocket]
    rw [hnew fun p hp => hfits p (List.mem_append_left _ hp), hnew' fun p hp => ?_,
      wirePacket_congr h.front hmark, List.map_append]
    rw [h.size]
    exact hfits p (List.mem_append_right _ hp)
  report := h'.report

theorem Performs.setClient {p : Protocol} {sends : List (UdcAddressMux × Message)}
    (h : Performs s s' none ⟨p, sends, none⟩) (r : ClientRef) (c : UdcClient) :
    Performs s (s'.setClient r c) none ⟨p.setClient r c, sends, none⟩ where
  state := congrArg (fun p => p.setClient r c) h.state
  signature := h.signature
  size := h.size
  front := h.front
  socket := h.socket
  report := rfl

end Performing

/-! ### Laying out a message -/

section Layout

variable {b : MessageBuffer}

theorem wire_word {front : List UInt8} (hfront : front.length = 4) {m : Message}
    (hbody : m.body.length = 4) : wire front m = encode front m := by
  have hlen : (encode front m).length = 9 := by simp [encode, hfront, hbody]
  rw [wire, hlen]
  exact List.take_of_length_le (by rw [hlen]; decide)

theorem take_write {offset k : Nat} {data : List UInt8} (hoffset : offset ≤ b.size)
    (h : k ≤ offset ∨ (offset + data.length ≤ b.size ∧ k ≤ offset + data.length)) :
    (b.write offset data).bytes.take k = (b.bytes.take offset ++ data).take k := by
  have hlen : (b.bytes.take offset).length = offset := by
    rw [List.length_take]
    exact Nat.min_eq_left hoffset
  rw [MessageBuffer.write_bytes]
  rcases h with h | ⟨hroom, hk⟩
  · rw [take_memcpy_of_le _ _ h, List.take_append_of_le_length (by rw [hlen]; exact h),
      List.take_take, Nat.min_eq_left h]
  · rw [← take_memcpy_self hroom, List.take_take, Nat.min_eq_left hk]

/-- Data that passes the length test lies in the buffer, unless the length wraps around. -/
theorem fits_cases {offset length size : Nat} (hlen : length < 2 ^ 32) (hoffset : offset ≤ 9)
    (hfits : u32 (offset + length : Nat) ≤ size) :
    u32 (offset + length : Nat) ≤ offset ∨
      (offset + length ≤ size ∧ u32 (offset + length : Nat) ≤ offset + length) := by
  unfold u32 at *
  omega

/-- A message with data, as the send calls lay it out behind what is written already. -/
theorem take_data (offset : Nat) {front data : List UInt8} {m : Message}
    (hhead : b.bytes.take offset ++ data = encode front m) (hoffset : offset ≤ 9)
    (hlen : data.length < 2 ^ 32) (hfits : u32 (offset + data.length : Nat) ≤ b.size) :
    (b.write offset data).bytes.take (u32 (offset + data.length : Nat)) = wire front m := by
  have hroom : offset ≤ b.size := hoffset.trans b.nine_le_size
  have htotal : (encode front m).length = offset + data.length := by
    rw [← hhead, List.length_append, List.length_take,
      Nat.min_eq_left (show offset ≤ b.bytes.length from hroom)]
  rw [take_write hroom (fits_cases hlen hoffset hfits), hhead, wire, htotal]

end Layout

/-! ### The application's calls -/

section Calls

variable {s : UdcServerImpl} (time : Milliseconds)

theorem nine_le (s : UdcServerImpl) : 9 ≤ s.messageBufferSize := s.messageBuffer.nine_le_size

theorem size_lt (s : UdcServerImpl) : s.messageBufferSize < 2 ^ 32 := s.messageBuffer.size_lt

/-- A message that is one word fits into every buffer. -/
theorem fits_word {size : Nat} (hsize : 9 ≤ size) {m : Message} (hdata : m.data = [])
    (hbody : m.body.length = 4) : m.Fits size := by
  refine ⟨?_, ?_⟩
  · rw [hdata]
    exact Nat.two_pow_pos 32
  · rw [hbody]
    exact hsize

/-- A reliable message fits, whose length has passed the guard of `sendReliableMessage`. -/
theorem fits_reliable {size timeStamp : Nat} {b : Bool} {msg : List UInt8}
    (hlen : msg.length < 2 ^ 32) (hfits : u32 (9 + msg.length : Nat) ≤ size) :
    (Message.reliable (.bit b) timeStamp msg).Fits size := by
  refine ⟨hlen, ?_⟩
  simp only [Message.body, List.length_append, length_le32]
  rw [← Nat.add_assoc]
  exact hfits

theorem length_front : s.front.length = 4 := by
  have h : 9 ≤ s.messageBuffer.bytes.length := s.messageBuffer.nine_le_size
  rw [UdcServerImpl.front, List.length_take]
  omega

theorem front_serializeMsgId (id : UdcMessageId) :
    (MsgHeader.serializeMsgId s.messageBuffer id).bytes.take 4 = s.front :=
  s.messageBuffer.take_serializeMsgId id

theorem front_write {b : MessageBuffer} {offset : Nat} (hoffset : 4 ≤ offset) (data : List UInt8) :
    (b.write offset data).bytes.take 4 = b.bytes.take 4 :=
  take_memcpy_of_le _ _ hoffset

/-- Sending a message that is one word. -/
theorem performs_word (address : UdcAddressMux) {m : Message} {word : Nat}
    (hbody : m.body = le32 word) :
    Performs s
      (({ s with messageBuffer :=
          (MsgHeader.serializeMsgId s.messageBuffer m.id).write MsgHeader.size (le32 word) } :
        UdcServerImpl).send address 9)
      none ⟨s.protocol, [(address, m)], none⟩ := by
  refine performs_send ?_ (by rw [MessageBuffer.size_write]; exact MessageBuffer.size_write _ _ _)
    fun _ => ?_
  · rw [front_write (by decide), front_serializeMsgId]
  · rw [wire_word length_front (by rw [hbody, length_le32]), MessageBuffer.take_nine_word, encode,
      hbody]
    rfl

theorem sendUnreliableMessage_performs (endPointId : UdcEndPointId) {data : List UInt8}
    (hlen : data.length < 2 ^ 32) :
    ∃ r, Performs s (s.sendUnreliableMessage endPointId data).1 none r ∧
      (r = s.protocol.idle ∨ (r = s.protocol.say endPointId data ∧
        (Message.unreliable data).Fits s.messageBufferSize)) := by
  unfold UdcServerImpl.sendUnreliableMessage
  by_cases hguard : u32 (data.length + MsgUnreliable.size) > s.messageBufferSize
  · rw [if_pos hguard]
    exact ⟨_, performs_silent rfl rfl rfl rfl, Or.inl rfl⟩
  · have hfits : u32 (5 + data.length : Nat) ≤ s.messageBufferSize := by
      have := Nat.not_lt.mp hguard
      rw [Nat.add_comm]
      exact this
    rw [if_neg hguard]
    refine ⟨_, ?_, Or.inr ⟨rfl, hlen, hfits⟩⟩
    unfold Protocol.say
    rw [show s.tryGetClientById endPointId = s.protocol.clientsById.lookup endPointId from rfl]
    cases s.protocol.clientsById.lookup endPointId with
    | none => exact performs_silent rfl rfl rfl rfl
    | some r =>
        rw [show s.protocol.heap = s.heap from rfl]
        by_cases hconn : (s.heap r).isConnected
        · simp only [hconn, Bool.not_true, Bool.false_eq_true, if_false, if_true]
          refine performs_send (m := .unreliable data) ?_
            (by rw [MsgUnreliable.serializeData, MessageBuffer.size_write]
                exact MessageBuffer.size_write _ _ _) fun _ => ?_
          · rw [MsgUnreliable.serializeData, front_write (by decide), front_serializeMsgId]
          · refine take_data 5 ?_ (by decide) hlen ?_
            · rw [MessageBuffer.header_serializeMsgId]
              simp [encode, Message.id, Message.body, UdcServerImpl.front]
            · rw [MsgHeader.serializeMsgId, MessageBuffer.size_write]
              exact hfits
        · simp only [hconn, Bool.not_false, if_true, Bool.false_eq_true, if_false]
          exact performs_silent rfl rfl rfl rfl

theorem sendReliableMessage_performs (endPointId : UdcEndPointId) (data : List UInt8) :
    ∃ state, Performs s (s.sendReliableMessage endPointId data).1 none ⟨state, [], none⟩ ∧
      ((state = s.protocol ∧ (s.sendReliableMessage endPointId data).2 = false) ∨
        (state = s.protocol.push endPointId data ∧
          u32 (9 + data.length : Nat) ≤ s.messageBufferSize ∧
          ((s.sendReliableMessage endPointId data).2 = true ↔
            (s.protocol.clientsById.lookup endPointId).isSome))) := by
  unfold UdcServerImpl.sendReliableMessage
  by_cases hguard : u32 (data.length + MsgReliable.size) > s.messageBufferSize
  · rw [if_pos hguard]
    exact ⟨_, performs_silent rfl rfl rfl rfl, Or.inl ⟨rfl, rfl⟩⟩
  · have hfits : u32 (9 + data.length : Nat) ≤ s.messageBufferSize := by
      have := Nat.not_lt.mp hguard
      rw [Nat.add_comm]
      exact this
    rw [if_neg hguard]
    refine ⟨_, ?_, Or.inr ⟨rfl, hfits, ?_⟩⟩
    · unfold Protocol.push
      rw [show s.tryGetClientById endPointId = s.protocol.clientsById.lookup endPointId from rfl]
      cases s.protocol.clientsById.lookup endPointId with
      | none => exact performs_silent rfl rfl rfl rfl
      | some r => exact performs_silent rfl rfl rfl rfl
    · rw [show s.tryGetClientById endPointId = s.protocol.clientsById.lookup endPointId from rfl]
      cases s.protocol.clientsById.lookup endPointId <;> simp

theorem tryConnect_performs (address : UdcAddressMux) (timeout : Nat) :
    Performs s (tryConnect s address timeout time).1 none
        ⟨(s.protocol.connect address timeout time).state, [], none⟩ ∧
      (tryConnect s address timeout time).2.map Report.issued
        = (s.protocol.connect address timeout time).report := by
  unfold tryConnect Protocol.connect
  by_cases hzero : timeout = 0
  · rw [if_pos hzero, if_pos hzero]
    exact ⟨performs_silent rfl rfl rfl rfl, rfl⟩
  · rw [if_neg hzero, if_neg hzero]
    refine ⟨performs_silent ?_ rfl rfl rfl, rfl⟩
    simp [UdcServerImpl.addPendingClient, UdcServerImpl.makeShared, UdcServerImpl.createUniqueId,
      UdcServerImpl.setClient, UdcServerImpl.protocol]

theorem disconnectFromClient_performs (endPointId : UdcEndPointId) :
    Performs s (s.disconnectFromClient endPointId) none
      ⟨s.protocol.disconnect endPointId, [], none⟩ := by
  unfold UdcServerImpl.disconnectFromClient Protocol.disconnect
  rw [show s.protocol.clientsById.lookup endPointId = s.clientsById.lookup endPointId from rfl]
  cases s.clientsById.lookup endPointId with
  | none => exact performs_silent rfl rfl rfl rfl
  | some r => exact performs_silent rfl rfl rfl rfl

/-! ### Ticks -/

theorem updatePendingClients_performs :
    Performs s (s.updatePendingClients time).1 (s.updatePendingClients time).2
      (s.protocol.poll time) := by
  unfold UdcServerImpl.updatePendingClients Protocol.poll
  rw [show s.tryGetFirstPendingClient = s.protocol.pendingClients.head? from rfl,
    show s.protocol.heap = s.heap from rfl]
  cases s.protocol.pendingClients.head? with
  | none => exact performs_silent rfl rfl rfl rfl
  | some r =>
      by_cases htimeout : (s.heap r).needsConnectionTimeoutEvent time
      · simp only [if_pos htimeout]
        have h := performs_event (s := { s with pendingClients := s.pendingClients.tail })
          .connectionTimeout (by decide) (s.heap r).id
        exact ⟨rfl, rfl, rfl, rfl, h.socket, h.report⟩
      · by_cases hattempt : (s.heap r).needsConnectionAttempt time
        · simp only [if_neg htimeout, if_pos hattempt]
          have hset : Performs s (s.setClient r ((s.heap r).retryConnecting time)) none
              ⟨s.protocol.setClient r ((s.heap r).retryConnecting time), [], none⟩ :=
            performs_silent rfl rfl rfl rfl
          have hclient : (s.setClient r ((s.heap r).retryConnecting time)).heap r
              = (s.heap r).retryConnecting time := setClient_update _ _
          rw [hclient]
          exact hset.trans (performs_word _
            (m := .connectionRequest ((s.heap r).retryConnecting time).id) rfl)
        · simp only [if_neg htimeout, if_neg hattempt]
          exact performs_silent rfl rfl rfl rfl

theorem setClient_self (p : Protocol) (r : ClientRef) : p.setClient r (p.heap r) = p := by
  rw [Protocol.setClient, Function.update_eq_self]

theorem kind_of_reliableState (data : List UInt8) (state : Int) :
    (if state = 0 then UdcMessageId.reliable0 else .reliable1)
      = (Message.reliable (.bit (state ≠ 0)) (u32 time) data).id := by
  by_cases h : state = 0 <;> simp [h, Message.id]

theorem updateReliable_performs (r : ClientRef) :
    Performs s (s.updateReliable r time) none
      ⟨s.protocol.setClient r ((s.heap r).sendReliable time).1,
        ((s.heap r).sendReliable time).2.map fun m => ((s.heap r).outgoingAddress, m), none⟩ := by
  unfold UdcServerImpl.updateReliable UdcClient.sendReliable
  have hself : s.protocol.setClient r (s.heap r) = s.protocol := setClient_self s.protocol r
  cases hqueue : (s.heap r).reliableMessages with
  | nil =>
      simp only [hqueue, hself, List.map_nil]
      exact performs_silent rfl rfl rfl rfl
  | cons msg rest =>
      simp only [hqueue]
      by_cases hreset : (s.heap r).reliableState = -1
      · simp only [if_pos hreset, hself, List.map_cons, List.map_nil]
        exact performs_word _ (m := .reliable .reset (u32 time) []) rfl
      · by_cases hneeds : (s.heap r).needsReliableReset time
        · simp only [if_neg hreset, if_pos hneeds, List.map_nil]
          exact performs_silent rfl rfl rfl rfl
        · simp only [if_neg hreset, if_neg hneeds, List.map_cons, List.map_nil]
          rw [kind_of_reliableState time msg]
          refine Performs.setClient (performs_send ?_ ?_ fun hfits => ?_) r _
          · rw [MsgReliable.serializeData, MsgReliable.serializeTimeStamp, front_write (by decide),
              front_write (by decide), front_serializeMsgId]
          · rw [MsgReliable.serializeData, MsgReliable.serializeTimeStamp, MessageBuffer.size_write,
              MessageBuffer.size_write]
            exact MessageBuffer.size_write _ _ _
          · refine take_data 9 ?_ (by decide) hfits.1 ?_
            · rw [MsgReliable.serializeTimeStamp, MessageBuffer.take_nine_word]
              simp [encode, Message.body, UdcServerImpl.front]
            · have hle := hfits.2
              rw [MsgReliable.serializeTimeStamp, MessageBuffer.size_write,
                MsgHeader.serializeMsgId, MessageBuffer.size_write]
              simp only [Message.body, List.length_append, length_le32] at hle
              rw [← Nat.add_assoc] at hle
              exact hle

theorem updatePing_performs (r : ClientRef) :
    Performs s (s.updatePing r time) none
      ⟨s.protocol, ((s.heap r).sendPing time).map fun m => ((s.heap r).outgoingAddress, m),
        none⟩ := by
  unfold UdcServerImpl.updatePing UdcClient.sendPing
  by_cases hneeds : (s.heap r).needsPing time
  · simp only [if_pos hneeds]
    exact performs_word _ (m := .ping (u32 time)) rfl
  · simp only [if_neg hneeds]
    exact performs_silent rfl rfl rfl rfl

theorem updateLost_performs (r : ClientRef) :
    Performs s (s.updateLost r time).1 (s.updateLost r time).2
      (if (s.heap r).needsConnectionLostEvent time then
        ⟨s.protocol.setClient r (s.heap r).setConnectionLost, [],
          some (.connection .connectionLost (s.heap r).id)⟩
      else s.protocol.idle) := by
  unfold UdcServerImpl.updateLost
  by_cases hneeds : (s.heap r).needsConnectionLostEvent time
  · simp only [if_pos hneeds]
    have h := performs_event (s := s.setClient r (s.heap r).setConnectionLost)
      .connectionLost (by decide) (s.heap r).id
    rw [setClient_update]
    exact ⟨rfl, rfl, rfl, rfl, h.socket, h.report⟩
  · simp only [if_neg hneeds]
    exact performs_silent rfl rfl rfl rfl

/-- The body of the loop of `updateClientConnectionStatus`. -/
def UdcServerImpl.tickClient (s : UdcServerImpl) (r : ClientRef) (time : Milliseconds) :
    UdcServerImpl × Option UdcEvent :=
  ((s.updateReliable r time).updatePing r time).updateLost r time

theorem sendReliable_outgoingAddress (c : UdcClient) :
    (c.sendReliable time).1.outgoingAddress = c.outgoingAddress := by
  unfold UdcClient.sendReliable
  cases c.reliableMessages with
  | nil => rfl
  | cons msg rest =>
      by_cases hreset : c.reliableState = -1
      · simp only [if_pos hreset]
      · by_cases hneeds : c.needsReliableReset time
        · simp only [if_neg hreset, if_pos hneeds]; rfl
        · simp only [if_neg hreset, if_neg hneeds, UdcClient.setSendReliable]
          split <;> rfl

theorem tickClient_performs (r : ClientRef) :
    Performs s (s.tickClient r time).1 (s.tickClient r time).2 (s.protocol.tickClient r time) := by
  have h₁ := updateReliable_performs (s := s) time r
  have h₂ := updatePing_performs (s := s.updateReliable r time) time r
  have h₃ := updateLost_performs (s := (s.updateReliable r time).updatePing r time) time r
  have hclient : (s.updateReliable r time).heap r = ((s.heap r).sendReliable time).1 := by
    have := congrArg (fun p : Protocol => p.heap r) h₁.state
    exact this.trans (Function.update_self _ _ _)
  have hclient' : ((s.updateReliable r time).updatePing r time).heap r
      = ((s.heap r).sendReliable time).1 := by
    have := congrArg (fun p : Protocol => p.heap r) h₂.state
    exact this.trans hclient
  have hstate : ((s.updateReliable r time).updatePing r time).protocol
      = s.protocol.setClient r ((s.heap r).sendReliable time).1 := h₂.state.trans h₁.state
  have h := (h₁.trans h₂).trans h₃
  rw [hclient] at h
  rw [hclient', hstate] at h
  unfold UdcServerImpl.tickClient Protocol.tickClient
  rw [show s.protocol.heap = s.heap from rfl]
  have hoverwrite : ∀ c c' : UdcClient,
      (s.protocol.setClient r c).setClient r c' = s.protocol.setClient r c' := fun c c' => by
    simp [Protocol.setClient]
  simp only [List.map_append, sendReliable_outgoingAddress, hoverwrite] at h ⊢
  by_cases hlost : (((s.heap r).sendReliable time).1.needsConnectionLostEvent time)
  · simp only [if_pos hlost, List.append_nil] at h ⊢
    exact h
  · simp only [if_neg hlost, Protocol.idle, List.append_nil] at h ⊢
    exact h

/-- What the turn of every client keeps, and what the turn that throws an event makes of it. -/
theorem updateClientConnectionStatus_rule {P : UdcServerImpl → Prop}
    {Q : UdcServerImpl → Option UdcEvent → Prop} (hend : ∀ s, P s → Q s none)
    (hquiet : ∀ s id s', P s → Performs s s' none (s.protocol.tick id time) → P s')
    (hevent : ∀ s id s' e, P s → Performs s s' (some e) (s.protocol.tick id time) →
      Q s' (some e)) (order : List UdcEndPointId) :
    ∀ s, P s → Q (UdcServerImpl.updateClientConnectionStatus time order s).1
      (UdcServerImpl.updateClientConnectionStatus time order s).2 := by
  induction order with
  | nil => exact hend
  | cons id order ih =>
      intro s hP
      unfold UdcServerImpl.updateClientConnectionStatus
      cases hlookup : s.clientsById.lookup id with
      | none => exact ih s hP
      | some r =>
          have h := tickClient_performs (s := s) time r
          have htick : s.protocol.tickClient r time = s.protocol.tick id time := by
            rw [Protocol.tick, show s.protocol.clientsById.lookup id = some r from hlookup]
          rw [htick] at h
          simp only
          rw [show ((s.updateReliable r time).updatePing r time).updateLost r time
            = s.tickClient r time from rfl]
          generalize s.tickClient r time = t at h
          obtain ⟨s', event⟩ := t
          cases event with
          | none => exact ih s' (hquiet s id s' hP h)
          | some e => exact hevent s id s' e hP h

end Calls

end UdpConnect
