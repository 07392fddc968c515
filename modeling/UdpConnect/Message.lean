/-
The wire format: `UdcMessage.h` and `UdcMessage.cpp`.

A message is a header of five bytes, the application's signature and a message
id, followed by nothing, by one 32-bit word, by application data, or by a word
and application data.  Serialising writes into the one message buffer the server
owns, at fixed offsets; the buffer is a block of memory whose size never changes
and which `udcCreateServer` has checked to hold the largest fixed message.

Words are written with `memcpy` from a `uint32_t`, so they stand on the wire in
the little-endian order of the machines the library is built for.
-/
import UdpConnect.Lib.Memory

namespace UdpConnect

open Memory

/-- `uint32_t` arithmetic: the value modulo `2 ^ 32`. -/
def u32 (n : Int) : Nat := (n % 2 ^ 32).toNat

/-- The four bytes by which servers recognise each other's packets. -/
@[ext] structure UdcSignature where
  bytes : List UInt8
  size : bytes.length = 4

instance : DecidableEq UdcSignature := fun _ _ => decidable_of_iff' _ UdcSignature.ext_iff

abbrev UdcEndPointId := Nat

/-- A duration or a clock value in milliseconds (`int64_t` in the source). -/
abbrev Milliseconds := Int

inductive UdcMessageId where
  | connectionRequest
  | connectionHandshake
  | ping
  | pong
  | unreliable
  | reliableReset
  | reliable0
  | reliable1
  | reliableHandshakeReset
  | reliableHandshake0
  | reliableHandshake1
deriving DecidableEq, Repr

namespace UdcMessageId

/-- The enumerators are numbered in order, from zero. -/
def toByte : UdcMessageId → UInt8
  | connectionRequest => 0
  | connectionHandshake => 1
  | ping => 2
  | pong => 3
  | unreliable => 4
  | reliableReset => 5
  | reliable0 => 6
  | reliable1 => 7
  | reliableHandshakeReset => 8
  | reliableHandshake0 => 9
  | reliableHandshake1 => 10

/-- The enumerator a byte stands for; the `default` arm of the switch takes the rest. -/
def ofByte? (b : UInt8) : Option UdcMessageId :=
  [connectionRequest, connectionHandshake, ping, pong, unreliable, reliableReset, reliable0,
    reliable1, reliableHandshakeReset, reliableHandshake0, reliableHandshake1].find?
      fun m => m.toByte == b

@[simp] theorem ofByte?_toByte (m : UdcMessageId) : ofByte? m.toByte = some m := by
  cases m <;> rfl

theorem toByte_of_ofByte? {b : UInt8} {m : UdcMessageId} (h : ofByte? b = some m) :
    m.toByte = b := by
  simpa using List.find?_some h

end UdcMessageId

/-! ### Sizes -/

namespace MsgHeader
/-- Signature (4 bytes) and message id (1 byte). -/
def size : Nat := 4 + 1
end MsgHeader

namespace MsgConnection
def size : Nat := MsgHeader.size + 4
end MsgConnection

namespace MsgPingPong
def size : Nat := MsgHeader.size + 4
end MsgPingPong

namespace MsgUnreliable
/-- The size of the smallest message. -/
def size : Nat := MsgHeader.size
end MsgUnreliable

namespace MsgReliable
/-- The size of the smallest message. -/
def size : Nat := MsgHeader.size + 4
end MsgReliable

def udcGetMinimumBufferSize : Nat := MsgHeader.size + 4

/-! ### The message buffer -/

/-- The application's buffer, as `udcCreateServer` accepts it. -/
structure MessageBuffer where
  bytes : List UInt8
  size_ge : udcGetMinimumBufferSize ≤ bytes.length
  size_lt : bytes.length < 2 ^ 32

namespace MessageBuffer

def size (b : MessageBuffer) : Nat := b.bytes.length

/-- `memcpy(buffer + offset, data, data.length)`; what would fall past the end is dropped. -/
def write (b : MessageBuffer) (offset : Nat) (data : List UInt8) : MessageBuffer :=
  ⟨memcpy b.bytes offset data, by simpa using b.size_ge, by simpa using b.size_lt⟩

@[simp] theorem write_bytes (b : MessageBuffer) (offset : Nat) (data : List UInt8) :
    (b.write offset data).bytes = memcpy b.bytes offset data := rfl

@[simp] theorem size_write (b : MessageBuffer) (offset : Nat) (data : List UInt8) :
    (b.write offset data).size = b.size := by
  simp [size]

theorem nine_le_size (b : MessageBuffer) : 9 ≤ b.size := b.size_ge

end MessageBuffer

/-! ### Serialisation -/

namespace MsgHeader

def serializeMsgSignature (msgBuffer : MessageBuffer) (msgSignature : UdcSignature) :
    MessageBuffer :=
  msgBuffer.write 0 msgSignature.bytes

def serializeMsgId (msgBuffer : MessageBuffer) (msgId : UdcMessageId) : MessageBuffer :=
  msgBuffer.write 4 [msgId.toByte]

def deserializeMsgSignature (msgBuffer : MessageBuffer) : List UInt8 := slice msgBuffer.bytes 0 4

def deserializeMsgId (msgBuffer : MessageBuffer) : UInt8 := msgBuffer.bytes.getD 4 0

end MsgHeader

namespace MsgConnection

def serializeEndPointId (msgBuffer : MessageBuffer) (endPointId : UdcEndPointId) : MessageBuffer :=
  msgBuffer.write MsgHeader.size (le32 endPointId)

def deserializeEndPointId (msgBuffer : MessageBuffer) : UdcEndPointId :=
  ofLe32 (slice msgBuffer.bytes MsgHeader.size 4)

end MsgConnection

namespace MsgPingPong

def serializeTimeStamp (msgBuffer : MessageBuffer) (timeStamp : Nat) : MessageBuffer :=
  msgBuffer.write MsgHeader.size (le32 timeStamp)

def deserializeTimeStamp (msgBuffer : MessageBuffer) : Nat :=
  ofLe32 (slice msgBuffer.bytes MsgHeader.size 4)

end MsgPingPong

namespace MsgUnreliable

def serializeData (msgBuffer : MessageBuffer) (data : List UInt8) : MessageBuffer :=
  msgBuffer.write MsgHeader.size data

end MsgUnreliable

namespace MsgReliable

def serializeTimeStamp (msgBuffer : MessageBuffer) (timeStamp : Nat) : MessageBuffer :=
  msgBuffer.write MsgHeader.size (le32 timeStamp)

def deserializeTimeStamp (msgBuffer : MessageBuffer) : Nat :=
  ofLe32 (slice msgBuffer.bytes MsgHeader.size 4)

def serializeData (msgBuffer : MessageBuffer) (data : List UInt8) : MessageBuffer :=
  msgBuffer.write size data

end MsgReliable

end UdpConnect
