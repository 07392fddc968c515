/-
The sockets: `UdcSocketHelper.cpp`, `UdcSocket.cpp` and `UdcSocketMux.cpp`.

What the operating system holds for one bound socket is the queue of what its
`recvfrom` calls are going to see: datagrams, other errors, and moments at which
nothing has arrived yet.  `recvfrom` itself follows its documentation.  A datagram
that fits is copied to the front of the buffer and its length returned; one that
does not fit is consumed, fills the buffer up to the given length and is reported
as `WSAEMSGSIZE`.

What becomes of a datagram that meets a negative length the documentation does not say
for sockets of this type.  It is a parameter of every arrival, `NegativeLength`: the call
fails and the datagram stays, or it is dropped like any other that does not fit.  That
such a call does not succeed is assumed, as the source does in its assertion that what
is returned is at most the length given.

Everything above `recvfrom` is translated from the source, with the size threaded
through by reference.

`History` is not part of the program.  It records what the sockets were asked and
told, and carries a mark that the network may put on a datagram, so that a run of
two servers can tell copies of equal datagrams apart.  No operation reads it.
-/
import UdpConnect.Address
import UdpConnect.Message

namespace UdpConnect

/-! ### History -/

/-- What the network knows about a datagram: which message it carries and when it was made. -/
structure Mark where
  message : Nat
  stamp : Nat
deriving DecidableEq, Inhabited

/-- A datagram handed to `send`. -/
structure Packet where
  address : UdcAddressMux
  bytes : List UInt8
  mark : Mark
deriving DecidableEq

structure History where
  /-- Everything handed to `send`, oldest first. -/
  sent : List Packet
  /-- Everything `receive` returned, with its source, oldest first. -/
  received : List Packet
  /-- The length arguments of all `recvfrom` calls. -/
  asked : List Int
  /-- The mark of the datagram received last, which the replies to it inherit. -/
  mark : Mark
deriving Inhabited

/-! ### `recvfrom` -/

/-- A datagram on its way to a socket. -/
structure Datagram (Address : Type) where
  source : Address
  port : UInt16
  bytes : List UInt8
  mark : Mark

/-- What becomes of a datagram that meets a negative length. -/
inductive NegativeLength where
  /-- The call fails, and the datagram stays. -/
  | refused
  /-- The datagram is dropped as one that does not fit. -/
  | dropped
deriving DecidableEq

/-- What one `recvfrom` call is going to see. -/
inductive Arrival (Address : Type) where
  | datagram (d : Datagram Address) (negative : NegativeLength := .refused)
  | wouldBlock
  | failure

structure UdcSocket (Address : Type) where
  pending : List (Arrival Address)

/-- The `WSAGetLastError` codes the source tells apart. -/
inductive WsaError where
  | none
  | msgSize
  | wouldBlock
  | other
deriving DecidableEq

def socketError : Int := -1

/-- `static_cast<int>` of a `uint32_t`. -/
def asInt (n : Nat) : Int := if n < 2 ^ 31 then n else n - 2 ^ 32

structure RecvfromResult (Address : Type) where
  result : Int
  error : WsaError
  /-- The datagram whose address was written to `from`. -/
  source : Option (Datagram Address)
  buffer : MessageBuffer
  socket : UdcSocket Address

variable {Address : Type}

def recvfrom (s : UdcSocket Address) (buffer : MessageBuffer) (len : Int) :
    RecvfromResult Address :=
  match s.pending with
  | [] => ⟨socketError, .wouldBlock, none, buffer, s⟩
  | .wouldBlock :: rest => ⟨socketError, .wouldBlock, none, buffer, ⟨rest⟩⟩
  | .failure :: rest => ⟨socketError, .other, none, buffer, ⟨rest⟩⟩
  | .datagram d negative :: rest =>
      if len < 0 then
        match negative with
        | .refused => ⟨socketError, .other, none, buffer, s⟩
        | .dropped => ⟨socketError, .msgSize, some d, buffer, ⟨rest⟩⟩
      else if d.bytes.length ≤ len then
        ⟨d.bytes.length, .none, some d, buffer.write 0 d.bytes, ⟨rest⟩⟩
      else ⟨socketError, .msgSize, some d, buffer.write 0 (d.bytes.take len.toNat), ⟨rest⟩⟩

/-! ### One socket -/

/-- What `receivePacketIPv4` and `receivePacketIPv6` leave in their reference parameters. -/
structure PacketResult (Address : Type) where
  code : Int
  source : Option (Datagram Address)
  buffer : MessageBuffer
  size : Nat
  socket : UdcSocket Address

/--
Receive a packet.  The code is `1` on success, `0` if there are no messages left,
`-1` if the message was truncated and `-2` on an error.
-/
def receivePacket (s : UdcSocket Address) (buffer : MessageBuffer) (size : Nat) :
    PacketResult Address :=
  let r := recvfrom s buffer (asInt size)
  if r.result = 0 then ⟨-2, none, r.buffer, size, r.socket⟩
  else if r.result = socketError then
    match r.error with
    | .msgSize => ⟨-1, r.source, r.buffer, u32 r.result, r.socket⟩
    | .wouldBlock => ⟨0, none, r.buffer, size, r.socket⟩
    | _ => ⟨-2, none, r.buffer, size, r.socket⟩
  else ⟨1, r.source, r.buffer, u32 r.result, r.socket⟩

def receivePacketIPv4 : UdcSocket UdcAddressIPv4 → MessageBuffer → Nat →
    PacketResult UdcAddressIPv4 := receivePacket

def receivePacketIPv6 : UdcSocket UdcAddressIPv6 → MessageBuffer → Nat →
    PacketResult UdcAddressIPv6 := receivePacket

/-! ### All sockets of a server -/

structure UdcSocketMux where
  socketIPv4 : List (UdcSocket UdcAddressIPv4)
  socketIPv6 : List (UdcSocket UdcAddressIPv6)
  history : History

/-- What a pass over the sockets of one family leaves behind. -/
structure ScanResult (Address : Type) where
  sockets : List (UdcSocket Address)
  /-- The datagram that was returned, if the pass returned true. -/
  source : Option (Datagram Address)
  buffer : MessageBuffer
  size : Nat
  asked : List Int

/-- The loop of `receive` over one vector of sockets: the first success ends it. -/
def receiveFirst (receivePacket : UdcSocket Address → MessageBuffer → Nat → PacketResult Address) :
    List (UdcSocket Address) → MessageBuffer → Nat → ScanResult Address
  | [], buffer, size => ⟨[], none, buffer, size, []⟩
  | socket :: rest, buffer, size =>
      let r := receivePacket socket buffer size
      if r.code = 1 then ⟨r.socket :: rest, r.source, r.buffer, r.size, [asInt size]⟩
      else
        let t := receiveFirst receivePacket rest r.buffer r.size
        { t with sockets := r.socket :: t.sockets, asked := asInt size :: t.asked }

/-- What `receive` leaves in its reference parameters; no address if it returned false. -/
structure MuxResult where
  mux : UdcSocketMux
  address : Option UdcAddressMux
  buffer : MessageBuffer
  size : Nat

namespace UdcSocketMux

/-- The result of binding is the operating system's; a bound socket starts out empty. -/
def tryBindIPv4 (m : UdcSocketMux) (bound : Bool) : UdcSocketMux :=
  if bound then { m with socketIPv4 := m.socketIPv4 ++ [⟨[]⟩] } else m

def tryBindIPv6 (m : UdcSocketMux) (bound : Bool) : UdcSocketMux :=
  if bound then { m with socketIPv6 := m.socketIPv6 ++ [⟨[]⟩] } else m

/-- `send(address, data, size)`. -/
def send (m : UdcSocketMux) (address : UdcAddressMux) (data : List UInt8) (size : Nat) :
    UdcSocketMux :=
  { m with history.sent := m.history.sent ++ [⟨address, data.take size, m.history.mark⟩] }

/-- Whether `send` has a socket of the right family to send from. -/
def canSend (m : UdcSocketMux) (address : UdcAddressMux) : Bool :=
  match address.address with
  | .ipv4 _ => !m.socketIPv4.isEmpty
  | .ipv6 _ => !m.socketIPv6.isEmpty

/-- Put the lengths asked for, and the datagram returned if there is one, on record. -/
def record (m : UdcSocketMux) (asked : List Int) (returned : Option Packet) : UdcSocketMux :=
  match returned with
  | none => { m with history.asked := m.history.asked ++ asked }
  | some p =>
      { m with history := { m.history with
          asked := m.history.asked ++ asked
          received := m.history.received ++ [p]
          mark := p.mark } }

/-- `receive(UdcAddressIPv4&, ...)`. -/
def receiveIPv4 (m : UdcSocketMux) (buffer : MessageBuffer) (size : Nat) : MuxResult :=
  let r := receiveFirst receivePacketIPv4 m.socketIPv4 buffer size
  let m := { m with socketIPv4 := r.sockets }
  match r.source with
  | none => ⟨m.record r.asked none, none, r.buffer, r.size⟩
  | some d =>
      let address : UdcAddressMux := ⟨.ipv4 d.source, d.port⟩
      ⟨m.record r.asked (some ⟨address, d.bytes, d.mark⟩), some address, r.buffer, r.size⟩

/-- `receive(UdcAddressIPv6&, ...)`. -/
def receiveIPv6 (m : UdcSocketMux) (buffer : MessageBuffer) (size : Nat) : MuxResult :=
  let r := receiveFirst receivePacketIPv6 m.socketIPv6 buffer size
  let m := { m with socketIPv6 := r.sockets }
  match r.source with
  | none => ⟨m.record r.asked none, none, r.buffer, r.size⟩
  | some d =>
      let address : UdcAddressMux := ⟨.ipv6 d.source, d.port⟩
      ⟨m.record r.asked (some ⟨address, d.bytes, d.mark⟩), some address, r.buffer, r.size⟩

/-- `receive(UdcAddressMux&, ...)`: the IPv6 sockets first, then the IPv4 sockets. -/
def receive (m : UdcSocketMux) (buffer : MessageBuffer) (size : Nat) : MuxResult :=
  let r := m.receiveIPv6 buffer size
  if r.address.isSome then r else r.mux.receiveIPv4 r.buffer r.size

/-- How much is queued at all sockets: a `receive` that succeeds lowers it. -/
def backlog (m : UdcSocketMux) : Nat :=
  (m.socketIPv4.map fun s => s.pending.length).sum +
    (m.socketIPv6.map fun s => s.pending.length).sum

/-- Something arrives at the socket with the given index, of the family of its source. -/
def arriveIPv4 (m : UdcSocketMux) (index : Nat) (arrival : Arrival UdcAddressIPv4) :
    UdcSocketMux :=
  { m with socketIPv4 := m.socketIPv4.modify index fun s => ⟨s.pending ++ [arrival]⟩ }

def arriveIPv6 (m : UdcSocketMux) (index : Nat) (arrival : Arrival UdcAddressIPv6) :
    UdcSocketMux :=
  { m with socketIPv6 := m.socketIPv6.modify index fun s => ⟨s.pending ++ [arrival]⟩ }

end UdcSocketMux

end UdpConnect
