/-
Two servers and the network between them.

`Pair` is a sending server A and a receiving server B, with what is in flight in either
direction.  A makes any calls, B receives, the network hands the oldest datagram in
flight to the socket it is for, and it may change what is in flight: `select` takes any
of it, as often as it likes and in any order, which is what UDP allows.  A FIFO channel
selects in rising order, and a reliable one not at all.

A pair also keeps count.  Every payload that `sendReliableMessage` accepts has a number,
its place in `accepted`.  A datagram A sends is marked with the number of the message in
front of the queue and with the number of the call; B's answers inherit the mark.  So a
reliable message that B reports can be told from another with the same payload, and what
has reached B (`heard`) can be put in the order in which A sent it.  The servers themselves
never read a mark.

`frameOf` and `ackOf` read a packet as an element of the alternating-bit protocol.  What
the servers send reads as what they meant, or as nothing: a signature may differ, and a
length may have gone around.
-/
import UdpConnect.Proofs.Effects

namespace UdpConnect

open Memory AlternatingBit

/-- A payload with its number among those accepted. -/
abbrev Numbered := List UInt8 × Nat

/-! ### The pair -/

/-- Where the two servers find each other, and at which of their sockets. -/
structure Wiring where
  addressA : UdcAddressMux
  addressB : UdcAddressMux
  socketA : Nat
  socketB : Nat
  /-- What becomes of a datagram that meets a negative length. -/
  negative : NegativeLength := .refused

structure Pair where
  a : UdcServerImpl
  b : UdcServerImpl
  /-- In flight, oldest first. -/
  toA : List Packet
  toB : List Packet
  accepted : List (List UInt8)
  /-- The reliable messages B has reported. -/
  reported : List Numbered
  /-- The reliable messages and resets that have reached B, in the order in which they came. -/
  heard : List (Frame Numbered)
  /-- How many calls A has made. -/
  clock : Nat
  /-- The first call of A's present reset. -/
  since : Nat

inductive Act where
  | callA (op : Op)
  | receiveB (time : Milliseconds)
  | deliverA
  | deliverB
  | networkA (order : List Nat)
  | networkB (order : List Nat)

/-- A socket that hears from an address is of the address's family. -/
def socketFor (source : UdcAddressMux) (index : Nat) : SocketName :=
  match source.address with
  | .ipv4 _ => .ipv4 index
  | .ipv6 _ => .ipv6 index

/-- The packet arrives at a socket, from the address it was sent from. -/
def arrivalFrom (negative : NegativeLength) (source : UdcAddressMux) (index : Nat)
    (p : Packet) : Op :=
  match source.address with
  | .ipv4 ip => .arriveIPv4 index (.datagram ⟨ip, source.port, p.bytes, p.mark⟩ negative)
  | .ipv6 ip => .arriveIPv6 index (.datagram ⟨ip, source.port, p.bytes, p.mark⟩ negative)

/-- What the network makes of the datagrams in flight. -/
def select {α : Type} (order : List Nat) (xs : List α) : List α := order.filterMap fun i => xs[i]?

/-- The packets sent to `peer` between two states of a server. -/
def newPackets (peer : UdcAddressMux) (before after : UdcServerImpl) : List Packet :=
  (after.socket.history.sent.drop before.socket.history.sent.length).filter (·.address = peer)

/-- The datagrams received between two states of a server. -/
def newReceived (before after : UdcServerImpl) : List Packet :=
  after.socket.history.received.drop before.socket.history.received.length

/-- What the mark says of a frame, or of the answer to one. -/
def Mark.tag (mark : Mark) (kind : Kind) : Tag := ⟨kind, mark.stamp, mark.message⟩

/-- A reliable message as a frame, in a datagram with this mark. -/
def Mark.frame (mark : Mark) (kind : Kind) (data : List UInt8) : Frame Numbered :=
  ⟨mark.tag kind, (data, mark.message)⟩

@[simp] theorem Mark.tag_kind (mark : Mark) (kind : Kind) : (mark.tag kind).kind = kind := rfl

@[simp] theorem Mark.frame_tag (mark : Mark) (kind : Kind) (data : List UInt8) :
    (mark.frame kind data).tag = mark.tag kind := rfl

@[simp] theorem Mark.frame_msg (mark : Mark) (kind : Kind) (data : List UInt8) :
    (mark.frame kind data).msg = (data, mark.message) := rfl

/-- A packet on its way to B, as a frame. -/
def frameOf (signature : UdcSignature) (p : Packet) : Option (Frame Numbered) :=
  match decode signature.bytes p.bytes with
  | some (.reliable kind _ data) => some (p.mark.frame kind data)
  | _ => none

/-- A packet on its way to A, as an acknowledgement. -/
def ackOf (signature : UdcSignature) (p : Packet) : Option Tag :=
  match decode signature.bytes p.bytes with
  | some (.reliableHandshake kind _) => some (p.mark.tag kind)
  | _ => none

/-- The reliable message an event reports from `peer`, with the mark of its datagram. -/
def reportedBy (peer : UdcAddressMux) (mark : Mark) : Option Report → List Numbered
  | some (.message fromAddress msgIndex data) =>
      if fromAddress = peer ∧ msgIndex = MsgReliable.size then [(data, mark.message)] else []
  | _ => []

/-- The payload the call puts into a queue. -/
def acceptedBy (a : UdcServerImpl) : Op → List (List UInt8)
  | .sendMessage endPointId data .reliableMessage =>
      if (a.sendReliableMessage endPointId data).2 then [data] else []
  | _ => []

namespace Pair

variable (w : Wiring) (s : Pair)

/-- A's client for B. -/
def client : Option UdcClient := (s.a.clientsByAddress.lookup w.addressB).map s.a.heap

/-- The number of the message in front of the queue. -/
def front : Nat :=
  s.accepted.length - ((s.client w).map fun c => c.reliableMessages.length).getD 0

def isResetting : Bool := (s.client w).any fun c => c.reliableState = -1

/-- A about to make a call. -/
def marked : UdcServerImpl :=
  { s.a with socket.history.mark := ⟨s.front w, s.clock⟩ }

def callA (op : Op) : Pair :=
  let s' := { s with
    a := (UdpConnect.step (s.marked w) op).1
    toB := s.toB ++ newPackets w.addressB (s.marked w) (UdpConnect.step (s.marked w) op).1
    accepted := s.accepted ++ acceptedBy (s.marked w) op
    clock := s.clock + 1 }
  { s' with since := if s'.isResetting w && !s.isResetting w then s.clock + 1 else s.since }

def receiveB (time : Milliseconds) : Pair :=
  let r := s.b.receiveMessages time
  { s with
    b := r.1
    toA := s.toA ++ newPackets w.addressA s.b r.1
    reported := s.reported ++
      reportedBy w.addressA r.1.socket.history.mark (r.2.map (UdcEvent.report r.1.messageBuffer))
    heard := s.heard ++ (newReceived s.b r.1).filterMap (frameOf s.b.packetSignature) }

def step : Act → Pair
  | .callA op => s.callA w op
  | .receiveB time => s.receiveB w time
  | .deliverA =>
      match s.toA with
      | [] => s
      | p :: rest =>
          { s with
            a := (UdpConnect.step s.a (arrivalFrom w.negative w.addressB w.socketA p)).1
            toA := rest }
  | .deliverB =>
      match s.toB with
      | [] => s
      | p :: rest =>
          { s with
            b := (UdpConnect.step s.b (arrivalFrom w.negative w.addressA w.socketB p)).1
            toB := rest }
  | .networkA order => { s with toA := select order s.toA }
  | .networkB order => { s with toB := select order s.toB }

end Pair

/-- A run of the pair in which every act is allowed when its turn comes. -/
def PairRun (w : Wiring) (Allowed : Pair → Act → Prop) : Pair → List Act → Pair → Prop :=
  Runs.Run fun s act s' => Allowed s act ∧ s' = s.step w act

/-! ### Running a list of acts -/

def Pair.after (w : Wiring) (s : Pair) (acts : List Act) : Pair :=
  acts.foldl (fun s act => s.step w act) s

/-- Each act is allowed when its turn comes. -/
def PairThroughout (w : Wiring) (Allowed : Pair → Act → Prop) (s : Pair) : List Act → Prop
  | [] => True
  | act :: acts => Allowed s act ∧ PairThroughout w Allowed (s.step w act) acts

instance decidablePairThroughout {w : Wiring} {Allowed : Pair → Act → Prop}
    [∀ s act, Decidable (Allowed s act)] (s : Pair) :
    (acts : List Act) → Decidable (PairThroughout w Allowed s acts)
  | [] => .isTrue trivial
  | act :: acts =>
      have : Decidable (PairThroughout w Allowed (s.step w act) acts) :=
        decidablePairThroughout (s.step w act) acts
      inferInstanceAs (Decidable (Allowed s act ∧ PairThroughout w Allowed (s.step w act) acts))

theorem pairRun_of_throughout {w : Wiring} {Allowed : Pair → Act → Prop} {s : Pair}
    (acts : List Act) (h : PairThroughout w Allowed s acts) :
    PairRun w Allowed s acts (s.after w acts) := by
  induction acts generalizing s with
  | nil => exact .nil
  | cons act acts ih => exact (Runs.Run.nil.snoc ⟨h.1, rfl⟩).append (ih h.2)

/-! ### Packets on the link -/

section Reading

variable {signature : UdcSignature} {front : List UInt8} {m m' : Message}

theorem toByte_injective {i j : UdcMessageId} (h : i.toByte = j.toByte) : i = j := by
  have hi := UdcMessageId.ofByte?_toByte i
  rw [h, UdcMessageId.ofByte?_toByte] at hi
  exact (Option.some.inj hi).symm

/-- A message read from a packet travels under the id of the message sent, and its body is
the front of that message's. -/
theorem decode_wire (hfront : front.length = 4)
    (h : decode signature.bytes (wire front m) = some m') :
    m'.id = m.id ∧ m'.body = m.body.take (u32 (encode front m).length - 5) := by
  obtain ⟨hbytes, -⟩ := encode_of_decode h
  have hlen : 5 ≤ (encode signature.bytes m').length := by
    simp only [encode, List.length_append, List.length_cons, signature.size]
    omega
  rw [hbytes, wire, List.length_take] at hlen
  obtain ⟨k, hk⟩ : ∃ k, u32 (encode front m).length = k + 5 :=
    ⟨u32 (encode front m).length - 5, by omega⟩
  have htake : (encode front m).take (k + 5) = front ++ m.id.toByte :: m.body.take k := by
    rw [encode, List.take_append, hfront, List.take_of_length_le (by omega)]
    rfl
  rw [wire, hk, htake, encode] at hbytes
  obtain ⟨-, hrest⟩ := List.append_inj hbytes (by rw [signature.size, hfront])
  obtain ⟨hid, hbody⟩ := List.cons.inj hrest
  exact ⟨toByte_injective hid, by rw [hk]; exact hbody⟩

/-- The kind of reliable message that travels under an id. -/
def UdcMessageId.dataKind : UdcMessageId → Option Kind
  | .reliableReset => some .reset
  | .reliable0 => some (.bit false)
  | .reliable1 => some (.bit true)
  | _ => none

/-- The kind of reliable handshake that travels under an id. -/
def UdcMessageId.ackKind : UdcMessageId → Option Kind
  | .reliableHandshakeReset => some .reset
  | .reliableHandshake0 => some (.bit false)
  | .reliableHandshake1 => some (.bit true)
  | _ => none

/-- The kind of a reliable message, if it is one. -/
def Message.dataKind : Message → Option Kind
  | .reliable kind _ _ => some kind
  | _ => none

/-- The kind of a reliable handshake, if it is one. -/
def Message.ackKind : Message → Option Kind
  | .reliableHandshake kind _ => some kind
  | _ => none

theorem dataKind_id (m : Message) : m.id.dataKind = m.dataKind := by
  cases m with
  | reliable kind _ _ => rcases kind with _ | _ | _ <;> rfl
  | reliableHandshake kind _ => rcases kind with _ | _ | _ <;> rfl
  | _ => rfl

theorem ackKind_id (m : Message) : m.id.ackKind = m.ackKind := by
  cases m with
  | reliable kind _ _ => rcases kind with _ | _ | _ <;> rfl
  | reliableHandshake kind _ => rcases kind with _ | _ | _ <;> rfl
  | _ => rfl

theorem dataKind_of_id (h : m'.id = m.id) : m'.dataKind = m.dataKind := by
  rw [← dataKind_id, h, dataKind_id]

theorem ackKind_of_id (h : m'.id = m.id) : m'.ackKind = m.ackKind := by
  rw [← ackKind_id, h, ackKind_id]

variable {address : UdcAddressMux} {mark : Mark}

/-- Only a reliable message reads as a frame. -/
theorem frameOf_other (hfront : front.length = 4) (hm : m.dataKind = none) :
    frameOf signature ⟨address, wire front m, mark⟩ = none := by
  unfold frameOf
  cases hd : decode signature.bytes (wire front m) with
  | none => rfl
  | some m' =>
      have hkind := dataKind_of_id (decode_wire hfront hd).1
      rw [hm] at hkind
      cases m' with
      | reliable kind timeStamp data => cases hkind
      | _ => rfl

/-- A reliable message reads as the frame it is, or as nothing. -/
theorem frameOf_wire (signature : UdcSignature) (address : UdcAddressMux) (mark : Mark)
    (hfront : front.length = 4) (kind : Kind) (timeStamp : Nat) {data : List UInt8}
    (hlen : data.length < 2 ^ 32) (hreset : kind = .reset → data = []) :
    frameOf signature ⟨address, wire front (.reliable kind timeStamp data), mark⟩ = none ∨
      frameOf signature ⟨address, wire front (.reliable kind timeStamp data), mark⟩
        = some (mark.frame kind data) := by
  unfold frameOf
  cases hd : decode signature.bytes (wire front (.reliable kind timeStamp data)) with
  | none => exact Or.inl rfl
  | some m' =>
      obtain ⟨hid, hbody⟩ := decode_wire hfront hd
      have hkind := dataKind_of_id hid
      cases m' with
      | reliable kind' timeStamp' data' =>
          obtain rfl : kind' = kind := Option.some.inj hkind
          right
          cases kind' with
          | reset =>
              obtain rfl := hreset rfl
              obtain ⟨-, hwf⟩ := encode_of_decode hd
              simp only [hwf.2]
          | bit b =>
              have hbody' : (le32 timeStamp ++ data).take
                  (u32 (encode front (.reliable (.bit b) timeStamp data)).length - 5)
                    = le32 timeStamp' ++ data' := hbody.symm
              have htotal : (encode front (.reliable (.bit b) timeStamp data)).length
                  = 9 + data.length := by
                simp only [encode, Message.body, List.length_append, List.length_cons, hfront,
                  length_le32]
                omega
              -- a length that has gone around leaves less than the word
              have hfull : u32 (9 + data.length : Nat) = 9 + data.length := by
                have hshort := congrArg List.length hbody'
                rw [htotal, List.length_take, List.length_append, List.length_append, length_le32,
                  length_le32] at hshort
                unfold u32 at hshort ⊢
                omega
              rw [htotal, hfull, List.take_of_length_le (by
                rw [List.length_append, length_le32]
                omega)] at hbody'
              have hdata := (List.append_inj hbody' (by rw [length_le32, length_le32])).2
              simp only [hdata]
      | _ => cases hkind

/-- Only a reliable handshake reads as an acknowledgement. -/
theorem ackOf_other (hfront : front.length = 4) (hm : m.ackKind = none) :
    ackOf signature ⟨address, wire front m, mark⟩ = none := by
  unfold ackOf
  cases hd : decode signature.bytes (wire front m) with
  | none => rfl
  | some m' =>
      have hkind := ackKind_of_id (decode_wire hfront hd).1
      rw [hm] at hkind
      cases m' with
      | reliableHandshake kind timeStamp => cases hkind
      | _ => rfl

/-- A reliable handshake reads as the acknowledgement it is, or as nothing. -/
theorem ackOf_wire (signature : UdcSignature) (address : UdcAddressMux) (mark : Mark)
    (hfront : front.length = 4) (kind : Kind) (timeStamp : Nat) :
    ackOf signature ⟨address, wire front (.reliableHandshake kind timeStamp), mark⟩ = none ∨
      ackOf signature ⟨address, wire front (.reliableHandshake kind timeStamp), mark⟩
        = some (mark.tag kind) := by
  unfold ackOf
  cases hd : decode signature.bytes (wire front (.reliableHandshake kind timeStamp)) with
  | none => exact Or.inl rfl
  | some m' =>
      have hkind := ackKind_of_id (decode_wire hfront hd).1
      cases m' with
      | reliableHandshake kind' timeStamp' =>
          obtain rfl : kind' = kind := Option.some.inj hkind
          exact Or.inr rfl
      | _ => cases hkind

end Reading

end UdpConnect
