/-
The packet log: `UdcPacketLogger.h`, `UdcPacketLogger.cpp`, and where `UdcSocketMux.cpp`
writes to it.

The log is text, written through a `std::ofstream`.  A stream keeps what its manipulators
were told last (the base of a number, the letters of its digits, the character that fills
a field), and the width of the next field, which the next thing that is written uses up.
So what a line looks like may depend on what has been written before.
-/
import UdpConnect.Socket

namespace UdpConnect

/-! ### The stream -/

/-- A `std::ofstream` and its format; fields are filled on the left. -/
structure Stream where
  text : List Char
  base : Nat
  isUppercase : Bool
  fillChar : Char
  width : Nat

namespace Stream

variable (s : Stream)

/-- A stream as it is opened. -/
def opened : Stream := ⟨[], 10, false, ' ', 0⟩

def dec : Stream := { s with base := 10 }

def hex : Stream := { s with base := 16 }

def uppercase : Stream := { s with isUppercase := true }

def setfill (c : Char) : Stream := { s with fillChar := c }

def setw (n : Nat) : Stream := { s with width := n }

/-- Write characters, in the field that was asked for. -/
def put (chars : List Char) : Stream :=
  { s with text := s.text ++ chars.leftpad s.width s.fillChar, width := 0 }

/-- Write an unsigned number. -/
def putNumber (n : Nat) : Stream :=
  s.put ((Nat.toDigits s.base n).map fun c => if s.isUppercase then c.toUpper else c)

end Stream

/-! ### The lines -/

/-- The eight `uint16_t` that share memory with the bytes, on a little-endian machine. -/
def words : List UInt8 → List Nat
  | low :: high :: bytes => (low.toNat + 256 * high.toNat) :: words bytes
  | _ => []

namespace UdcPacketLogger

/-- The constructor, once the file has been opened. -/
def new : Stream := Stream.opened.put "Log Start\n".toList

/-- The octets of an address, each with a point behind it. -/
def putOctets (s : Stream) (octets : List UInt8) : Stream :=
  octets.foldl (fun s byte => (s.dec.putNumber byte.toNat).put ['.']) s

/-- The segments of an address, each with a mark behind it. -/
def putSegments (s : Stream) (mark : Char) (segments : List UInt8) : Stream :=
  (words segments).foldl (fun s segment =>
    ((((s.hex.uppercase).setfill '0').setw 4).putNumber segment).put [mark]) s

/-- The bytes of the datagram, each with a blank behind it. -/
def putData (s : Stream) (data : List UInt8) : Stream :=
  data.foldl (fun s byte =>
    ((((s.hex.uppercase).setfill '0').setw 2).putNumber byte.toNat).put [' ']) s

/-- The end of every line: the port, the bytes of the datagram and a new line. -/
def putPacket (s : Stream) (port : UInt16) (data : List UInt8) : Stream :=
  (putData (((s.put [':']).dec.putNumber port.toNat).put [' ']) data).put ['\n']

def logReceivedIPv4 (s : Stream) (address : UdcAddressIPv4) (port : UInt16)
    (data : List UInt8) : Stream :=
  putPacket (putOctets (s.put "RECV IPV4 ".toList) address.octets) port data

def logReceivedIPv6 (s : Stream) (address : UdcAddressIPv6) (port : UInt16)
    (data : List UInt8) : Stream :=
  putPacket (putSegments (s.put "RECV IPV6 ".toList) ':' address.segments) port data

def logSentIPv4 (s : Stream) (address : UdcAddressIPv4) (port : UInt16)
    (data : List UInt8) : Stream :=
  putPacket (putOctets (s.put "SEND IPV4 ".toList) address.octets) port data

/-- The marks between the segments are not those of `logReceived`. -/
def logSentIPv6 (s : Stream) (address : UdcAddressIPv6) (port : UInt16)
    (data : List UInt8) : Stream :=
  putPacket (putSegments (s.put "SEND IPV6 ".toList) '.' address.segments) port data

end UdcPacketLogger

inductive Direction where
  | received
  | sent
deriving DecidableEq

/-- What one call of the logger is told. -/
structure LogEntry where
  direction : Direction
  address : UdcAddressMux
  data : List UInt8

/-- The call for an entry. -/
def UdcPacketLogger.log (s : Stream) (e : LogEntry) : Stream :=
  match e.direction, e.address.address with
  | .received, .ipv4 ip => logReceivedIPv4 s ip e.address.port e.data
  | .received, .ipv6 ip => logReceivedIPv6 s ip e.address.port e.data
  | .sent, .ipv4 ip => logSentIPv4 s ip e.address.port e.data
  | .sent, .ipv6 ip => logSentIPv6 s ip e.address.port e.data

/-! ### `UdcSocketMux.cpp` -/

/-- The sockets with their `m_logger`. -/
structure LoggedMux where
  mux : UdcSocketMux
  m_logger : Option Stream

namespace LoggedMux

variable (m : LoggedMux)

/-- The constructor that is given the name of a log file, which can perhaps be opened. -/
def new (opened : Bool) : LoggedMux :=
  ⟨⟨[], [], default⟩, if opened then some UdcPacketLogger.new else none⟩

/-- The two `send`s; `sent` is what the socket's own `send` returns. -/
def send (address : UdcAddressMux) (data : List UInt8) (size : Nat) (sent : Bool) :
    LoggedMux × Bool :=
  let result := m.mux.canSend address && sent
  ({ mux := m.mux.send address data size
     m_logger :=
      if result then
        m.m_logger.map fun s => UdcPacketLogger.log s ⟨.sent, address, data.take size⟩
      else m.m_logger }, result)

/-- The two `receive`s, which log what they have put into the buffer. -/
def receive (buffer : MessageBuffer) (size : Nat) : LoggedMux × MuxResult :=
  let r := m.mux.receive buffer size
  ({ mux := r.mux
     m_logger :=
      match r.address with
      | none => m.m_logger
      | some address => m.m_logger.map fun s =>
          UdcPacketLogger.log s ⟨.received, address, r.buffer.bytes.take r.size⟩ }, r)

end LoggedMux

/-- What can happen to the sockets and their log. -/
inductive MuxCall where
  | bindIPv4 (bound : Bool)
  | bindIPv6 (bound : Bool)
  | send (address : UdcAddressMux) (data : List UInt8) (size : Nat) (sent : Bool)
  | receive (buffer : MessageBuffer) (size : Nat)
  | arriveIPv4 (index : Nat) (arrival : Arrival UdcAddressIPv4)
  | arriveIPv6 (index : Nat) (arrival : Arrival UdcAddressIPv6)

namespace LoggedMux

def step (m : LoggedMux) : MuxCall → LoggedMux
  | .bindIPv4 bound => { m with mux := m.mux.tryBindIPv4 bound }
  | .bindIPv6 bound => { m with mux := m.mux.tryBindIPv6 bound }
  | .send address data size sent => (m.send address data size sent).1
  | .receive buffer size => (m.receive buffer size).1
  | .arriveIPv4 index arrival => { m with mux := m.mux.arriveIPv4 index arrival }
  | .arriveIPv6 index arrival => { m with mux := m.mux.arriveIPv6 index arrival }

end LoggedMux

end UdpConnect
