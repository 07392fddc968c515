/-
What a datagram says.

`decode` reads a byte string as one of the messages two servers exchange; a string
that is not the signature, a known id and a body of the length that id requires reads
as nothing.  `encode` writes a message.  Reading what was written gives the message
back (`decode_encode`) and only the bytes `encode` writes read as that message
(`encode_of_decode`), so the grammar is unambiguous.

The second half connects the two with the message buffer: what the serialisers leave
in the leading bytes of the buffer is an encoded message.
-/
import Mathlib.Data.List.GetD
import UdpConnect.Lib.AlternatingBit
import UdpConnect.Message

namespace UdpConnect

open Memory AlternatingBit

/-- A message.  The kind of a reliable one is its bit, or a reset. -/
inductive Message where
  | connectionRequest (endPointId : UdcEndPointId)
  | connectionHandshake (endPointId : UdcEndPointId)
  | ping (timeStamp : Nat)
  | pong (timeStamp : Nat)
  | unreliable (data : List UInt8)
  | reliable (kind : Kind) (timeStamp : Nat) (data : List UInt8)
  | reliableHandshake (kind : Kind) (timeStamp : Nat)
deriving DecidableEq

namespace Message

/-- The message id a message travels under. -/
def id : Message → UdcMessageId
  | connectionRequest _ => .connectionRequest
  | connectionHandshake _ => .connectionHandshake
  | ping _ => .ping
  | pong _ => .pong
  | unreliable _ => .unreliable
  | reliable .reset _ _ => .reliableReset
  | reliable (.bit false) _ _ => .reliable0
  | reliable (.bit true) _ _ => .reliable1
  | reliableHandshake .reset _ => .reliableHandshakeReset
  | reliableHandshake (.bit false) _ => .reliableHandshake0
  | reliableHandshake (.bit true) _ => .reliableHandshake1

/-- What follows the header. -/
def body : Message → List UInt8
  | connectionRequest endPointId | connectionHandshake endPointId => le32 endPointId
  | ping timeStamp | pong timeStamp => le32 timeStamp
  | unreliable data => data
  | reliable .reset timeStamp _ => le32 timeStamp
  | reliable (.bit _) timeStamp data => le32 timeStamp ++ data
  | reliableHandshake _ timeStamp => le32 timeStamp

/-- Words fit their four bytes, and a reset carries no data. -/
def WF : Message → Prop
  | connectionRequest endPointId | connectionHandshake endPointId => endPointId < 2 ^ 32
  | ping timeStamp | pong timeStamp => timeStamp < 2 ^ 32
  | unreliable _ => True
  | reliable .reset timeStamp data => timeStamp < 2 ^ 32 ∧ data = []
  | reliable (.bit _) timeStamp _ => timeStamp < 2 ^ 32
  | reliableHandshake _ timeStamp => timeStamp < 2 ^ 32

end Message

def encode (signature : List UInt8) (m : Message) : List UInt8 :=
  signature ++ m.id.toByte :: m.body

/-- Read a body that is one word and nothing else. -/
def decodeWord (f : Nat → Message) (body : List UInt8) : Option Message :=
  if body.length = 4 then some (f (ofLe32 body)) else none

/-- Read a body that is a word and data. -/
def decodeWordData (f : Nat → List UInt8 → Message) (body : List UInt8) : Option Message :=
  if 4 ≤ body.length then some (f (ofLe32 (body.take 4)) (body.drop 4)) else none

def decodeBody : UdcMessageId → List UInt8 → Option Message
  | .connectionRequest => decodeWord .connectionRequest
  | .connectionHandshake => decodeWord .connectionHandshake
  | .ping => decodeWord .ping
  | .pong => decodeWord .pong
  | .unreliable => fun body => some (.unreliable body)
  | .reliableReset => decodeWord fun t => .reliable .reset t []
  | .reliable0 => decodeWordData (.reliable (.bit false))
  | .reliable1 => decodeWordData (.reliable (.bit true))
  | .reliableHandshakeReset => decodeWord (.reliableHandshake .reset)
  | .reliableHandshake0 => decodeWord (.reliableHandshake (.bit false))
  | .reliableHandshake1 => decodeWord (.reliableHandshake (.bit true))

def decode (signature bytes : List UInt8) : Option Message :=
  if bytes.length < MsgHeader.size ∨ bytes.take 4 ≠ signature then none
  else (UdcMessageId.ofByte? (bytes.getD 4 0)).bind fun id => decodeBody id (bytes.drop 5)

/-! ### The grammar is unambiguous -/

theorem decodeWord_le32 (f : Nat → Message) {n : Nat} (h : n < 2 ^ 32) :
    decodeWord f (le32 n) = some (f n) := by
  rw [decodeWord, if_pos (length_le32 n), ofLe32_le32, Nat.mod_eq_of_lt h]

theorem decodeWordData_le32 (f : Nat → List UInt8 → Message) {n : Nat} (h : n < 2 ^ 32)
    (data : List UInt8) : decodeWordData f (le32 n ++ data) = some (f n data) := by
  have hlen : 4 ≤ (le32 n ++ data).length := by simp
  rw [decodeWordData, if_pos hlen, List.take_left' (length_le32 n), List.drop_left' (length_le32 n),
    ofLe32_le32, Nat.mod_eq_of_lt h]

theorem decodeBody_body {m : Message} (h : m.WF) : decodeBody m.id m.body = some m := by
  cases m with
  | connectionRequest e => exact decodeWord_le32 _ h
  | connectionHandshake e => exact decodeWord_le32 _ h
  | ping t => exact decodeWord_le32 _ h
  | pong t => exact decodeWord_le32 _ h
  | unreliable data => rfl
  | reliable k t data =>
      cases k with
      | reset =>
          obtain ⟨ht, rfl⟩ := h
          exact decodeWord_le32 (fun t => .reliable .reset t []) ht
      | bit b => cases b <;> exact decodeWordData_le32 _ h data
  | reliableHandshake k t =>
      cases k with
      | reset => exact decodeWord_le32 _ h
      | bit b => cases b <;> exact decodeWord_le32 _ h

/-- **Reading what was written gives the message back.** -/
theorem decode_encode {signature : List UInt8} (hsig : signature.length = 4) {m : Message}
    (h : m.WF) : decode signature (encode signature m) = some m := by
  have htake : (encode signature m).take 4 = signature := List.take_left' hsig
  have hdrop : (encode signature m).drop 5 = m.body := by
    rw [encode, List.drop_append, List.drop_eq_nil_of_le (by omega), hsig]
    rfl
  have hid : (encode signature m).getD 4 0 = m.id.toByte := by
    rw [encode, List.getD_append_right _ _ _ _ (by omega), hsig]
    rfl
  have hlen : ¬ (encode signature m).length < MsgHeader.size := by
    simp only [encode, List.length_append, List.length_cons, hsig, MsgHeader.size]
    omega
  rw [decode, if_neg (by simp [hlen, htake]), hid, UdcMessageId.ofByte?_toByte, hdrop]
  exact decodeBody_body h

theorem decodeWord_some {f : Nat → Message} {body : List UInt8} {m : Message}
    (h : decodeWord f body = some m) : ∃ n, n < 2 ^ 32 ∧ body = le32 n ∧ m = f n := by
  unfold decodeWord at h
  split at h
  · rename_i hlen
    exact ⟨ofLe32 body, ofLe32_lt body, (le32_ofLe32 hlen).symm, by simpa using h.symm⟩
  · cases h

theorem decodeWordData_some {f : Nat → List UInt8 → Message} {body : List UInt8} {m : Message}
    (h : decodeWordData f body = some m) :
    ∃ n data, n < 2 ^ 32 ∧ body = le32 n ++ data ∧ m = f n data := by
  unfold decodeWordData at h
  split at h
  · rename_i hlen
    have hfour : (body.take 4).length = 4 := by rw [List.length_take]; omega
    refine ⟨ofLe32 (body.take 4), body.drop 4, ofLe32_lt _, ?_, by simpa using h.symm⟩
    rw [le32_ofLe32 hfour, List.take_append_drop]
  · cases h

/-- A body read under an id is that message's body, and the message travels under that id. -/
theorem decodeBody_some {id : UdcMessageId} {body : List UInt8} {m : Message}
    (h : decodeBody id body = some m) : m.WF ∧ m.id = id ∧ m.body = body := by
  cases id with
  | unreliable =>
      simp only [decodeBody, Option.some.injEq] at h
      subst h
      exact ⟨trivial, rfl, rfl⟩
  | reliable0 | reliable1 =>
      obtain ⟨n, data, hn, rfl, rfl⟩ := decodeWordData_some h
      exact ⟨hn, rfl, rfl⟩
  | reliableReset =>
      obtain ⟨n, hn, rfl, rfl⟩ := decodeWord_some (f := fun t => .reliable .reset t []) h
      exact ⟨⟨hn, rfl⟩, rfl, rfl⟩
  | _ =>
      obtain ⟨n, hn, rfl, rfl⟩ := decodeWord_some h
      exact ⟨hn, rfl, rfl⟩

/-- **Only the bytes `encode` writes read as a message.** -/
theorem encode_of_decode {signature bytes : List UInt8} {m : Message}
    (h : decode signature bytes = some m) : encode signature m = bytes ∧ m.WF := by
  unfold decode at h
  split at h
  · cases h
  · rename_i hcond
    rw [not_or, Decidable.not_not] at hcond
    obtain ⟨hlen, htake⟩ := hcond
    obtain ⟨id, hid, hbody⟩ := Option.bind_eq_some_iff.mp h
    obtain ⟨hwf, rfl, hdrop⟩ := decodeBody_some hbody
    refine ⟨?_, hwf⟩
    have hfour : 4 < bytes.length := by simp only [MsgHeader.size] at hlen; omega
    rw [encode, hdrop, UdcMessageId.toByte_of_ofByte? hid, ← htake,
      List.getD_eq_getElem _ _ hfour, List.cons_getElem_drop_succ, List.take_append_drop]

/-! ### The message buffer -/

namespace MessageBuffer

variable (b : MessageBuffer)

theorem serializeMsgSignature_bytes (signature : UdcSignature) :
    (MsgHeader.serializeMsgSignature b signature).bytes = signature.bytes ++ b.bytes.drop 4 := by
  have h := b.nine_le_size
  have hsize := signature.size
  rw [MsgHeader.serializeMsgSignature, write_bytes, memcpy_zero (by simp only [size] at h; omega),
    hsize]

theorem serializeMsgId_bytes (id : UdcMessageId) :
    (MsgHeader.serializeMsgId b id).bytes = b.bytes.take 4 ++ id.toByte :: b.bytes.drop 5 := by
  have h : 9 ≤ b.bytes.length := b.nine_le_size
  have hone : [id.toByte].take (b.bytes.length - 4) = [id.toByte] :=
    List.take_of_length_le (by rw [List.length_singleton]; omega)
  rw [MsgHeader.serializeMsgId, write_bytes, memcpy, hone]
  rfl

/-- Writing the id leaves the signature. -/
theorem take_serializeMsgId (id : UdcMessageId) :
    (MsgHeader.serializeMsgId b id).bytes.take 4 = b.bytes.take 4 :=
  take_memcpy_of_le _ _ (Nat.le_refl 4)

/-- The five header bytes after writing the id. -/
theorem header_serializeMsgId (id : UdcMessageId) :
    (MsgHeader.serializeMsgId b id).bytes.take 5 = b.bytes.take 4 ++ [id.toByte] := by
  have h : 9 ≤ b.bytes.length := b.nine_le_size
  have hroom : 4 + [id.toByte].length ≤ b.bytes.length := by simp; omega
  exact take_memcpy_self hroom

/-- A fixed message: header and one word. -/
theorem take_nine_word (id : UdcMessageId) (word : Nat) :
    ((MsgHeader.serializeMsgId b id).write MsgHeader.size (le32 word)).bytes.take 9
      = b.bytes.take 4 ++ id.toByte :: le32 word := by
  have h : 9 ≤ (MsgHeader.serializeMsgId b id).bytes.length :=
    (MsgHeader.serializeMsgId b id).nine_le_size
  have hroom : 5 + (le32 word).length ≤ (MsgHeader.serializeMsgId b id).bytes.length := by
    simpa using h
  have htake := take_memcpy_self hroom
  rw [length_le32, header_serializeMsgId] at htake
  rw [write_bytes]
  simpa [MsgHeader.size] using htake

/-- Answering in place: the id is exchanged, the word stays. -/
theorem take_nine_reply (id : UdcMessageId) :
    (MsgHeader.serializeMsgId b id).bytes.take 9
      = b.bytes.take 4 ++ id.toByte :: slice b.bytes 5 4 := by
  have h : 9 ≤ b.bytes.length := b.nine_le_size
  rw [serializeMsgId_bytes, List.take_append, List.length_take, Nat.min_eq_left (by omega),
    List.take_take]
  rfl

end MessageBuffer

end UdpConnect
