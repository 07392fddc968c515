/-
The server as a machine that reads and writes messages.

`Protocol` is what a server remembers once the message buffer, the sockets and the
event buffer are taken away, and `Protocol.handle` says what one message does to it:
the new state, the messages sent in return, and what is reported to the application.
Nothing in it mentions bytes.

`handleDatagram_react` says that the server's handling of a datagram is exactly that,
for a datagram that reads as a message, and that any other datagram does nothing.
Later files argue about `handle` only.
-/
import UdpConnect.Api
import UdpConnect.Proofs.Wire

namespace UdpConnect

open Memory AlternatingBit

/-- The reliable state that stands for a kind of message. -/
def stateOf : Kind → Int
  | .reset => -1
  | .bit false => 0
  | .bit true => 1

theorem stateOf_injective {k k' : Kind} (h : stateOf k = stateOf k') : k = k' := by
  rcases k with _ | b <;> rcases k' with _ | b' <;>
    first
    | rfl
    | (cases b <;> cases b' <;> first | rfl | (simp [stateOf] at h))
    | (cases b <;> simp [stateOf] at h)
    | (cases b' <;> simp [stateOf] at h)

@[simp] theorem stateOf_inj {k k' : Kind} : stateOf k = stateOf k' ↔ k = k' :=
  ⟨stateOf_injective, fun h => h ▸ rfl⟩

/-! ### The machine -/

/-- What a server remembers between two messages. -/
structure Protocol where
  idCounter : UdcEndPointId
  heap : ClientRef → UdcClient
  nextRef : ClientRef
  pendingClients : List ClientRef
  clientsById : Finmap fun _ : UdcEndPointId => ClientRef
  clientsByAddress : UdcAddressMap ClientRef
  reliableStates : UdcAddressMap Int

def UdcServerImpl.protocol (s : UdcServerImpl) : Protocol where
  idCounter := s.idCounter
  heap := s.heap
  nextRef := s.nextRef
  pendingClients := s.pendingClients
  clientsById := s.clientsById
  clientsByAddress := s.clientsByAddress
  reliableStates := s.reliableStates

/-- What the application is told. -/
inductive Report where
  | issued (endPointId : UdcEndPointId)
  | connection (eventType : UdcEventType) (endPointId : UdcEndPointId)
  | message (fromAddress : UdcAddressMux) (msgIndex : Nat) (data : List UInt8)

/-- What a message brings about. -/
structure Reaction where
  state : Protocol
  sends : List (UdcAddressMux × Message)
  report : Option Report

/-- A client that accepts a reliable handshake of its own state drops the message in front. -/
def UdcClient.acceptHandshake (c : UdcClient) (state : Int) : UdcClient :=
  if state = c.reliableState then
    let c := if c.reliableState ≠ -1 && !c.reliableMessages.isEmpty then c.popReliable else c
    (c.setReliableState (if state = 0 then 1 else 0)).resetSendReliable
  else c

namespace Protocol

variable (p : Protocol)

def setClient (r : ClientRef) (c : UdcClient) : Protocol :=
  { p with heap := Function.update p.heap r c }

@[simp] theorem heap_setClient_self (r : ClientRef) (c : UdcClient) :
    (p.setClient r c).heap r = c := Function.update_self ..

theorem heap_setClient_of_ne {r r' : ClientRef} (h : r' ≠ r) (c : UdcClient) :
    (p.setClient r c).heap r' = p.heap r' := Function.update_of_ne h ..

/-- Nothing happens. -/
def idle : Reaction := ⟨p, [], none⟩

/-- A connection handshake completes the connection in front of the queue, if it names it. -/
def handshake (address : UdcAddressMux) (time : Milliseconds) (endPointId : UdcEndPointId) :
    Reaction :=
  match p.pendingClients.head? with
  | none => p.idle
  | some r =>
      if (p.heap r).id ≠ endPointId then p.idle
      else if address ∈ p.clientsByAddress then p.idle
      else
        { state := { p.setClient r ((p.heap r).receiveConnectionHandshake time) with
            clientsById := p.clientsById.insert endPointId r
            clientsByAddress := p.clientsByAddress.insert address r
            pendingClients := p.pendingClients.tail }
          sends := []
          report := some (.connection .connectionSuccess endPointId) }

/-- A reply with a time stamp reaches the client known under its source address. -/
def answer (address : UdcAddressMux) (time : Milliseconds) (timeStamp : Nat)
    (change : UdcClient → UdcClient) : Reaction :=
  match p.clientsByAddress.lookup address with
  | none => p.idle
  | some r =>
      if time < timeStamp then p.idle
      else
        let c := (change (p.heap r)).receivePong timeStamp time
        { state := p.setClient r c.1
          sends := []
          report := if c.2 then some (.connection .connectionRegained c.1.id) else none }

/-- A reliable message is acknowledged, and reported if its bit is expected. -/
def reliable (address : UdcAddressMux) (kind : Kind) (timeStamp : Nat) (data : List UInt8) :
    Reaction :=
  match kind with
  | .reset =>
      { state := { p with
          reliableStates :=
            if (p.reliableStates.lookup address).isSome then p.reliableStates.insert address 0
            else p.reliableStates }
        sends := [(address, .reliableHandshake .reset timeStamp)]
        report := none }
  | .bit b =>
      let expected := p.reliableStates.lookup address
      { state := { p with
          reliableStates := p.reliableStates.insert address (stateOf (.bit !b)) }
        sends := [(address, .reliableHandshake (.bit b) timeStamp)]
        report :=
          if expected = none ∨ expected = some (stateOf (.bit b)) then
            some (.message address MsgReliable.size data)
          else none }

/-- What one message does. -/
def handle (address : UdcAddressMux) (time : Milliseconds) : Message → Reaction
  | .connectionRequest endPointId => ⟨p, [(address, .connectionHandshake endPointId)], none⟩
  | .connectionHandshake endPointId => p.handshake address time endPointId
  | .ping timeStamp => ⟨p, [(address, .pong timeStamp)], none⟩
  | .pong timeStamp => p.answer address time timeStamp id
  | .unreliable data => ⟨p, [], some (.message address MsgHeader.size data)⟩
  | .reliable kind timeStamp data => p.reliable address kind timeStamp data
  | .reliableHandshake kind timeStamp =>
      p.answer address time timeStamp fun c => c.acceptHandshake (stateOf kind)

end Protocol

/-! ### Reading events and packets -/

/-- What an event tells the application, which reads a message out of the buffer. -/
def UdcEvent.report (b : MessageBuffer) (e : UdcEvent) : Report :=
  match udcGetResultConnectionEvent e with
  | some endPointId => .connection e.eventType endPointId
  | none => .message ⟨e.address, e.port⟩ e.msgIndex (slice b.bytes e.msgIndex e.msgSize)

/-- The packet that carries a message. -/
def UdcServerImpl.packet (s : UdcServerImpl) (p : UdcAddressMux × Message) : Packet :=
  ⟨p.1, encode s.packetSignature.bytes p.2, s.socket.history.mark⟩

/-- `s'` and `event` are what the reaction says, the messages being sent as packets of `s`. -/
structure Refines (s s' : UdcServerImpl) (event : Option UdcEvent) (r : Reaction) : Prop where
  state : s'.protocol = r.state
  signature : s'.packetSignature = s.packetSignature
  socket : s'.socket =
    { s.socket with history.sent := s.socket.history.sent ++ r.sends.map s.packet }
  report : event.map (UdcEvent.report s'.messageBuffer) = r.report
  size : s'.messageBufferSize = s.messageBufferSize

section Processing

variable {s : UdcServerImpl} {address : UdcAddressMux} {time : Milliseconds}

theorem refines_idle : Refines s s none s.protocol.idle :=
  ⟨rfl, rfl, by simp [Protocol.idle], rfl, rfl⟩

/-- The word a fixed message carries, as every deserialiser reads it. -/
def UdcServerImpl.word (s : UdcServerImpl) : Nat := ofLe32 (slice s.messageBuffer.bytes 5 4)

/-- An answer in place is the encoded reply, with the word of the message it answers. -/
theorem refines_reply (address : UdcAddressMux) (states : UdcAddressMap Int) (reply : Message)
    (hsig : s.messageBuffer.bytes.take 4 = s.packetSignature.bytes)
    (hbody : reply.body = le32 s.word) :
    Refines s
      (({ s with
          reliableStates := states
          messageBuffer := MsgHeader.serializeMsgId s.messageBuffer reply.id } :
          UdcServerImpl).send address 9) none
      ⟨{ s.protocol with reliableStates := states }, [(address, reply)], none⟩ := by
  have hlen : (slice s.messageBuffer.bytes 5 4).length = 4 := by
    have h : 9 ≤ s.messageBuffer.bytes.length := s.messageBuffer.nine_le_size
    rw [length_slice]
    omega
  have hbytes : (MsgHeader.serializeMsgId s.messageBuffer reply.id).bytes.take 9
      = encode s.packetSignature.bytes reply := by
    rw [MessageBuffer.take_nine_reply, hsig, encode, hbody, UdcServerImpl.word, le32_ofLe32 hlen]
  refine ⟨rfl, rfl, ?_, rfl, MessageBuffer.size_write _ _ _⟩
  simp only [UdcServerImpl.send, UdcSocketMux.send, hbytes, List.map_cons, List.map_nil,
    UdcServerImpl.packet]

/-- Nothing is sent, the buffer is left alone, and a connection event is reported. -/
theorem refines_connectionEvent (s' : UdcServerImpl) (eventType : UdcEventType)
    (htype : eventType.code ≤ 3) (endPointId : UdcEndPointId) (hsocket : s'.socket = s.socket)
    (hbuffer : s'.messageBuffer = s.messageBuffer)
    (hsignature : s'.packetSignature = s.packetSignature) :
    Refines s (s'.connectionEvent eventType endPointId).1
      (s'.connectionEvent eventType endPointId).2
      ⟨s'.protocol, [], some (.connection eventType endPointId)⟩ := by
  have hcode : ¬ eventType.code > UdcEventType.connectionRegained.code := Nat.not_lt.mpr htype
  refine ⟨rfl, hsignature, ?_, ?_, congrArg MessageBuffer.size hbuffer⟩
  · show s'.socket = _
    rw [hsocket]
    simp
  · simp [UdcServerImpl.connectionEvent, UdcEvent.report, udcGetResultConnectionEvent, hcode]

theorem report_messageEvent (s' : UdcServerImpl) (b : MessageBuffer) (msgIndex msgSize : Nat) :
    (s'.messageEvent address msgIndex msgSize).2.map (UdcEvent.report b)
      = some (.message address msgIndex (slice b.bytes msgIndex msgSize)) := by
  obtain ⟨ip | ip, port⟩ := address <;> rfl

theorem processConnectionHandshake_refines :
    Refines s (s.processConnectionHandshake address time).1
      (s.processConnectionHandshake address time).2
      (s.protocol.handshake address time s.word) := by
  unfold UdcServerImpl.processConnectionHandshake Protocol.handshake
  rw [show s.tryGetFirstPendingClient = s.protocol.pendingClients.head? from rfl]
  cases hhead : s.protocol.pendingClients.head? with
  | none => exact refines_idle
  | some r =>
      by_cases hid : (s.heap r).id ≠ s.word
      · simp only [show MsgConnection.deserializeEndPointId s.messageBuffer = s.word from rfl,
          show s.protocol.heap = s.heap from rfl, if_pos hid]
        exact refines_idle
      · by_cases hmem : address ∈ s.clientsByAddress
        · simp only [show MsgConnection.deserializeEndPointId s.messageBuffer = s.word from rfl,
            show s.protocol.heap = s.heap from rfl, if_neg hid,
            show s.protocol.clientsByAddress = s.clientsByAddress from rfl, if_pos hmem]
          exact refines_idle
        · simp only [show MsgConnection.deserializeEndPointId s.messageBuffer = s.word from rfl,
            show s.protocol.heap = s.heap from rfl, if_neg hid,
            show s.protocol.clientsByAddress = s.clientsByAddress from rfl, if_neg hmem]
          exact refines_connectionEvent
            { s.setClient r ((s.heap r).receiveConnectionHandshake time) with
              clientsById := s.clientsById.insert s.word r
              clientsByAddress := s.clientsByAddress.insert address r
              pendingClients := s.pendingClients.tail }
            .connectionSuccess (by decide) s.word rfl rfl rfl

theorem setClient_update (r : ClientRef) (c : UdcClient) : (s.setClient r c).heap r = c := by
  simp [UdcServerImpl.setClient]

/-- Pongs and reliable handshakes end alike: the client is refreshed, and may be regained. -/
theorem refines_receivePong (r : ClientRef) (c : UdcClient × Bool) :
    Refines s
      (if !c.2 then ((s.setClient r c.1, none) : UdcServerImpl × Option UdcEvent)
        else (s.setClient r c.1).connectionEvent .connectionRegained
          ((s.setClient r c.1).heap r).id).1
      (if !c.2 then ((s.setClient r c.1, none) : UdcServerImpl × Option UdcEvent)
        else (s.setClient r c.1).connectionEvent .connectionRegained
          ((s.setClient r c.1).heap r).id).2
      ⟨s.protocol.setClient r c.1, [],
        if c.2 then some (.connection .connectionRegained c.1.id) else none⟩ := by
  obtain ⟨c, regained⟩ := c
  cases regained with
  | false => exact ⟨rfl, rfl, by simp [UdcServerImpl.setClient], rfl, rfl⟩
  | true =>
      rw [setClient_update]
      exact refines_connectionEvent (s.setClient r c) .connectionRegained (by decide) c.id
        rfl rfl rfl

theorem processPong_refines :
    Refines s (s.processPong address time).1 (s.processPong address time).2
      (s.protocol.answer address time s.word id) := by
  unfold UdcServerImpl.processPong Protocol.answer
  rw [show s.tryGetClientByAddress address = s.protocol.clientsByAddress.lookup address from rfl]
  cases hlookup : s.protocol.clientsByAddress.lookup address with
  | none => exact refines_idle
  | some r =>
      simp only [show MsgPingPong.deserializeTimeStamp s.messageBuffer = s.word from rfl]
      by_cases htime : time < s.word
      · simp only [if_pos htime]
        exact refines_idle
      · simp only [if_neg htime]
        exact refines_receivePong r _

theorem processReliableHandshake_refines (kind : Kind) :
    Refines s (s.processReliableHandshake (stateOf kind) address time).1
      (s.processReliableHandshake (stateOf kind) address time).2
      (s.protocol.answer address time s.word fun c => c.acceptHandshake (stateOf kind)) := by
  unfold UdcServerImpl.processReliableHandshake Protocol.answer
  rw [show s.tryGetClientByAddress address = s.protocol.clientsByAddress.lookup address from rfl]
  cases hlookup : s.protocol.clientsByAddress.lookup address with
  | none => exact refines_idle
  | some r =>
      simp only [show MsgReliable.deserializeTimeStamp s.messageBuffer = s.word from rfl]
      by_cases htime : time < s.word
      · simp only [if_pos htime]
        exact refines_idle
      · simp only [if_neg htime]
        exact refines_receivePong r
          (((s.heap r).acceptHandshake (stateOf kind)).receivePong s.word time)

theorem processReliableMessage_refines_reset (msgSize : Nat)
    (hsig : s.messageBuffer.bytes.take 4 = s.packetSignature.bytes) :
    Refines s (s.processReliableMessage (-1) address msgSize).1
      (s.processReliableMessage (-1) address msgSize).2
      (s.protocol.reliable address .reset s.word []) := by
  unfold UdcServerImpl.processReliableMessage Protocol.reliable
  rw [if_pos rfl]
  exact refines_reply address _ (.reliableHandshake .reset s.word) hsig rfl

theorem processReliableMessage_refines_bit (b : Bool) {msgSize : Nat}
    (hsig : s.messageBuffer.bytes.take 4 = s.packetSignature.bytes) :
    Refines s (s.processReliableMessage (stateOf (.bit b)) address msgSize).1
      (s.processReliableMessage (stateOf (.bit b)) address msgSize).2
      (s.protocol.reliable address (.bit b) s.word
        (slice s.messageBuffer.bytes 9 (msgSize - 9))) := by
  have hne : stateOf (.bit b) ≠ -1 := by cases b <;> decide
  have hreply := refines_reply address (s.reliableStates.insert address (stateOf (.bit !b)))
    (.reliableHandshake (.bit b) s.word) hsig rfl
  have hnext : (if stateOf (.bit b) = 0 then (1 : Int) else 0) = stateOf (.bit !b) := by
    cases b <;> rfl
  have hid : (if stateOf (.bit b) = 0 then UdcMessageId.reliableHandshake0
      else .reliableHandshake1) = (Message.reliableHandshake (.bit b) s.word).id := by
    cases b <;> rfl
  have hdata : slice (MsgHeader.serializeMsgId s.messageBuffer
      (Message.reliableHandshake (.bit b) s.word).id).bytes 9 (msgSize - 9)
      = slice s.messageBuffer.bytes 9 (msgSize - 9) := by
    have h : 9 ≤ s.messageBuffer.bytes.length := s.messageBuffer.nine_le_size
    exact slice_memcpy_of_le _ _ (by simp) (by simp; omega)
  unfold UdcServerImpl.processReliableMessage Protocol.reliable
  simp only [if_neg hne, hnext, hid, show s.protocol.reliableStates = s.reliableStates from rfl]
  by_cases hexp : s.reliableStates.lookup address = none ∨
      s.reliableStates.lookup address = some (stateOf (.bit b))
  · have hprocess : ((s.reliableStates.lookup address).isNone ||
        s.reliableStates.lookup address == some (stateOf (.bit b))) = true := by
      simpa using hexp
    simp only [hprocess, if_true, if_pos hexp]
    refine ⟨hreply.state, hreply.signature, hreply.socket, ?_, hreply.size⟩
    rw [report_messageEvent, ← hdata]
    rfl
  · have hprocess : ((s.reliableStates.lookup address).isNone ||
        s.reliableStates.lookup address == some (stateOf (.bit b))) = false := by
      simpa [Option.isSome_iff_ne_none] using hexp
    simp only [hprocess, if_neg hexp, Bool.false_eq_true, if_false]
    exact ⟨hreply.state, hreply.signature, hreply.socket, hreply.report, hreply.size⟩

theorem processUnreliable_refines {msgSize : Nat} :
    Refines s (s.processUnreliable address msgSize).1 (s.processUnreliable address msgSize).2
      ⟨s.protocol, [],
        some (.message address 5 (slice s.messageBuffer.bytes 5 (msgSize - 5)))⟩ := by
  refine ⟨rfl, rfl, ?_, report_messageEvent s _ _ _, rfl⟩
  simp [UdcServerImpl.processUnreliable, UdcServerImpl.messageEvent]

/-! ### One datagram -/

theorem getD_take {i n : Nat} (hi : i < n) {l : List UInt8} :
    (l.take n).getD i 0 = l.getD i 0 := by
  simp [List.getD, hi]

/-- The leading `n` bytes of the buffer, read as a message. -/
theorem decode_take {n : Nat} (hn : n ≤ s.messageBufferSize) {signature : List UInt8}
    {m : Message} (hm : decode signature (s.messageBuffer.bytes.take n) = some m) :
    5 ≤ n ∧ s.messageBuffer.bytes.take 4 = signature ∧
      ∃ id, UdcMessageId.ofByte? (MsgHeader.deserializeMsgId s.messageBuffer) = some id ∧
        decodeBody id (slice s.messageBuffer.bytes 5 (n - 5)) = some m := by
  unfold decode at hm
  split at hm
  · cases hm
  · rename_i hcond
    rw [not_or, Decidable.not_not, List.length_take, List.take_take] at hcond
    obtain ⟨hlen, htake⟩ := hcond
    have hbuf : n ≤ s.messageBuffer.bytes.length := hn
    have hfive : 5 ≤ n := by simp only [MsgHeader.size] at hlen; omega
    obtain ⟨id, hid, hbody⟩ := Option.bind_eq_some_iff.mp hm
    rw [Nat.min_eq_left (by omega)] at htake
    refine ⟨hfive, htake, id, ?_, ?_⟩
    · rw [← hid]
      exact congrArg UdcMessageId.ofByte? (getD_take hfive).symm
    · rw [← hbody, slice, List.drop_take]

theorem decodeWord_slice {f : Nat → Message} {n : Nat} (hn : n ≤ s.messageBufferSize)
    {m : Message} (hm : decodeWord f (slice s.messageBuffer.bytes 5 (n - 5)) = some m) :
    n = 9 ∧ m = f s.word := by
  unfold decodeWord at hm
  split at hm
  · rename_i hlen
    have hbuf : n ≤ s.messageBuffer.bytes.length := hn
    rw [length_slice] at hlen
    have hnine : n = 9 := by omega
    subst hnine
    exact ⟨rfl, (Option.some.inj hm).symm⟩
  · cases hm

theorem decodeWordData_slice {f : Nat → List UInt8 → Message} {n : Nat}
    (hn : n ≤ s.messageBufferSize) {m : Message}
    (hm : decodeWordData f (slice s.messageBuffer.bytes 5 (n - 5)) = some m) :
    9 ≤ n ∧ m = f s.word (slice s.messageBuffer.bytes 9 (n - 9)) := by
  unfold decodeWordData at hm
  split at hm
  · rename_i hlen
    have hbuf : n ≤ s.messageBuffer.bytes.length := hn
    rw [length_slice] at hlen
    refine ⟨by omega, ?_⟩
    have hword : (slice s.messageBuffer.bytes 5 (n - 5)).take 4
        = slice s.messageBuffer.bytes 5 4 := by
      rw [slice, slice, List.take_take, Nat.min_eq_left (by omega)]
    have hdata : (slice s.messageBuffer.bytes 5 (n - 5)).drop 4
        = slice s.messageBuffer.bytes 9 (n - 9) := by
      rw [slice, slice, List.drop_take, List.drop_drop, Nat.sub_sub]
    rw [hword, hdata] at hm
    exact (Option.some.inj hm).symm
  · cases hm

theorem processMessage_refines {n : Nat} (hn : n ≤ s.messageBufferSize) {m : Message}
    (hm : decode s.packetSignature.bytes (s.messageBuffer.bytes.take n) = some m) :
    Refines s (s.processMessage address n time).1 (s.processMessage address n time).2
      (s.protocol.handle address time m) := by
  obtain ⟨hfive, hsig, id, hid, hbody⟩ := decode_take hn hm
  unfold UdcServerImpl.processMessage
  rw [hid]
  cases id with
  | connectionRequest =>
      obtain ⟨rfl, rfl⟩ := decodeWord_slice hn hbody
      exact refines_reply address s.reliableStates (.connectionHandshake s.word) hsig rfl
  | connectionHandshake =>
      obtain ⟨rfl, rfl⟩ := decodeWord_slice hn hbody
      exact processConnectionHandshake_refines
  | ping =>
      obtain ⟨rfl, rfl⟩ := decodeWord_slice hn hbody
      exact refines_reply address s.reliableStates (.pong s.word) hsig rfl
  | pong =>
      obtain ⟨rfl, rfl⟩ := decodeWord_slice hn hbody
      exact processPong_refines
  | unreliable =>
      simp only [decodeBody, Option.some.injEq] at hbody
      subst hbody
      simp only [if_pos (show n ≥ MsgHeader.size from hfive)]
      exact processUnreliable_refines
  | reliableReset =>
      obtain ⟨rfl, rfl⟩ := decodeWord_slice (f := fun t => .reliable .reset t []) hn hbody
      exact processReliableMessage_refines_reset 9 hsig
  | reliable0 =>
      obtain ⟨hnine, rfl⟩ := decodeWordData_slice hn hbody
      simp only [if_pos (show n ≥ MsgReliable.size from hnine)]
      exact processReliableMessage_refines_bit false hsig
  | reliable1 =>
      obtain ⟨hnine, rfl⟩ := decodeWordData_slice hn hbody
      simp only [if_pos (show n ≥ MsgReliable.size from hnine)]
      exact processReliableMessage_refines_bit true hsig
  | reliableHandshakeReset =>
      obtain ⟨rfl, rfl⟩ := decodeWord_slice hn hbody
      exact processReliableHandshake_refines .reset
  | reliableHandshake0 =>
      obtain ⟨rfl, rfl⟩ := decodeWord_slice hn hbody
      exact processReliableHandshake_refines (.bit false)
  | reliableHandshake1 =>
      obtain ⟨rfl, rfl⟩ := decodeWord_slice hn hbody
      exact processReliableHandshake_refines (.bit true)

/-- **A datagram that reads as a message does what `handle` says.** -/
theorem handleDatagram_refines {n : Nat} (hn : n ≤ s.messageBufferSize) {m : Message}
    (hm : decode s.packetSignature.bytes (s.messageBuffer.bytes.take n) = some m) :
    Refines s (s.handleDatagram address n time).1 (s.handleDatagram address n time).2
      (s.protocol.handle address time m) := by
  obtain ⟨hfive, hsig, -⟩ := decode_take hn hm
  have hsame : MsgHeader.deserializeMsgSignature s.messageBuffer = s.packetSignature.bytes := hsig
  rw [UdcServerImpl.handleDatagram, if_neg (show ¬ n < MsgHeader.size from Nat.not_lt.mpr hfive),
    if_neg (not_not.mpr hsame)]
  exact processMessage_refines hn hm

/-- The length tests of the switch turn away whatever does not read as a message. -/
theorem processMessage_none {n : Nat} (hn : n ≤ s.messageBufferSize) (hfive : 5 ≤ n)
    (hbody : ∀ id, UdcMessageId.ofByte? (MsgHeader.deserializeMsgId s.messageBuffer) = some id →
      decodeBody id (slice s.messageBuffer.bytes 5 (n - 5)) = none) :
    s.processMessage address n time = (s, none) := by
  have hbuf : n ≤ s.messageBuffer.bytes.length := hn
  have hlen : (slice s.messageBuffer.bytes 5 (n - 5)).length = n - 5 := by
    rw [length_slice]
    omega
  unfold UdcServerImpl.processMessage
  cases hid : UdcMessageId.ofByte? (MsgHeader.deserializeMsgId s.messageBuffer) with
  | none => rfl
  | some id =>
      have hnone := hbody id hid
      cases id with
      | unreliable => simp [decodeBody] at hnone
      | reliable0 | reliable1 =>
          have hshort : ¬ n ≥ MsgReliable.size := by
            intro hc
            simp only [MsgReliable.size, MsgHeader.size] at hc
            simp only [decodeBody, decodeWordData, hlen, if_pos (show 4 ≤ n - 5 by omega)] at hnone
            cases hnone
          simp only [if_neg hshort]
      | _ =>
          have hne : ¬ n = 9 := by
            rintro rfl
            simp only [decodeBody, decodeWord, hlen, if_pos] at hnone
            cases hnone
          exact if_neg hne

/-- The header tests turn away the rest. -/
theorem handleDatagram_refines_idle {n : Nat} (hn : n ≤ s.messageBufferSize)
    (hm : decode s.packetSignature.bytes (s.messageBuffer.bytes.take n) = none) :
    Refines s (s.handleDatagram address n time).1 (s.handleDatagram address n time).2
      s.protocol.idle := by
  unfold UdcServerImpl.handleDatagram
  by_cases hfive : n < MsgHeader.size
  · rw [if_pos hfive]
    exact refines_idle
  · have hfive' : 5 ≤ n := Nat.not_lt.mp hfive
    rw [if_neg hfive]
    by_cases hsig : MsgHeader.deserializeMsgSignature s.messageBuffer = s.packetSignature.bytes
    · rw [if_neg (not_not.mpr hsig), processMessage_none hn hfive' ?_]
      · exact refines_idle
      · intro id hid
        have hbuf : n ≤ s.messageBuffer.bytes.length := hn
        have hcond : ¬ ((s.messageBuffer.bytes.take n).length < MsgHeader.size ∨
            (s.messageBuffer.bytes.take n).take 4 ≠ s.packetSignature.bytes) := by
          rw [not_or, Decidable.not_not, List.length_take, List.take_take,
            Nat.min_eq_left hbuf, Nat.min_eq_left (by omega)]
          exact ⟨hfive, hsig⟩
        have hget : (s.messageBuffer.bytes.take n).getD 4 0
            = MsgHeader.deserializeMsgId s.messageBuffer := getD_take hfive'
        rw [decode, if_neg hcond, hget, hid, Option.bind_some, List.drop_take] at hm
        exact hm
    · rw [if_pos hsig]
      exact ⟨rfl, rfl, by simp [Protocol.idle], rfl, MessageBuffer.size_write _ _ _⟩

/-- What a datagram brings about: what its message does, or nothing. -/
def Protocol.react (p : Protocol) (signature : UdcSignature) (time : Milliseconds)
    (packet : Packet) : Reaction :=
  match decode signature.bytes packet.bytes with
  | some m => p.handle packet.address time m
  | none => p.idle

/-- **The server's handling of a datagram is what the machine does with its message.** -/
theorem handleDatagram_react (time : Milliseconds) {n : Nat} (hn : n ≤ s.messageBufferSize)
    {packet : Packet} (hfront : s.messageBuffer.bytes.take n = packet.bytes) :
    Refines s (s.handleDatagram packet.address n time).1
      (s.handleDatagram packet.address n time).2
      (s.protocol.react s.packetSignature time packet) := by
  unfold Protocol.react
  rw [← hfront]
  cases hm : decode s.packetSignature.bytes (s.messageBuffer.bytes.take n) with
  | none => exact handleDatagram_refines_idle hn hm
  | some m => exact handleDatagram_refines hn hm

end Processing

end UdpConnect
