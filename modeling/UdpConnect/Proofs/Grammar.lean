/-
The wire grammar, and what becomes of everything outside it.

`Grammatical` says what a datagram of this library looks like: the signature, the byte
of a known id, and a body of the length that the id requires.  The source has no such
test.  It is spread over the header checks and the arms of the switch, of which
`decode` is the reading, and `decode_isSome_iff` says that the reading accepts the
grammar and nothing else.  A datagram outside it is then no datagram at all.
-/
import UdpConnect.Proofs.Passes

namespace UdpConnect

open Memory AlternatingBit UdcServerImpl

/-- The lengths of a datagram with this id. -/
def UdcMessageId.Admits (length : Nat) : UdcMessageId → Prop
  | .unreliable => MsgUnreliable.size ≤ length
  | .reliable0 | .reliable1 => MsgReliable.size ≤ length
  | .connectionRequest | .connectionHandshake => length = MsgConnection.size
  | .ping | .pong => length = MsgPingPong.size
  | .reliableReset | .reliableHandshakeReset | .reliableHandshake0 | .reliableHandshake1 =>
      length = MsgReliable.size

/-- Signature, known id, and a body of the length that the id requires. -/
def Grammatical (signature : UdcSignature) (bytes : List UInt8) : Prop :=
  ∃ (id : UdcMessageId) (body : List UInt8),
    bytes = signature.bytes ++ id.toByte :: body ∧ id.Admits bytes.length

/-- What handling a datagram leaves behind if it has no effect. -/
structure Inert (s : UdcServerImpl) (r : UdcServerImpl × Option UdcEvent) : Prop where
  event : r.2 = none
  sent : r.1.socket.history.sent = s.socket.history.sent
  pendingClients : r.1.pendingClients = s.pendingClients
  heap : r.1.heap = s.heap
  clientsById : r.1.clientsById = s.clientsById
  clientsByAddress : r.1.clientsByAddress = s.clientsByAddress
  reliableStates : r.1.reliableStates = s.reliableStates
  idCounter : r.1.idCounter = s.idCounter

section Grammar

variable {signature : UdcSignature} {bytes body : List UInt8} {m : Message}

theorem length_datagram (signature : UdcSignature) (id : UdcMessageId) (body : List UInt8) :
    (signature.bytes ++ id.toByte :: body).length = body.length + 5 := by
  rw [List.length_append, List.length_cons, signature.size]
  omega

/-- A message is written with a body of the length that its id requires. -/
theorem admits_encode (hwf : m.WF) : m.id.Admits (encode signature.bytes m).length := by
  rw [encode, length_datagram]
  cases m with
  | unreliable data => exact Nat.le_add_left 5 _
  | reliable kind timeStamp data =>
      rcases kind with _ | _ | _
      · rfl
      all_goals
        simp only [Message.id, Message.body, UdcMessageId.Admits, MsgReliable.size,
          MsgHeader.size, List.length_append, length_le32]
        omega
  | reliableHandshake kind timeStamp => rcases kind with _ | _ | _ <;> rfl
  | _ => rfl

/-- The switch has an arm for each id, which takes the bodies of the right length. -/
theorem decodeBody_isSome {id : UdcMessageId} (h : id.Admits (body.length + 5)) :
    (decodeBody id body).isSome := by
  cases id with
  | unreliable => rfl
  | reliable0 | reliable1 =>
      have hnine : 9 ≤ body.length + 5 := h
      have hfour : 4 ≤ body.length := by omega
      simp [decodeBody, decodeWordData, hfour]
  | _ =>
      have hfour : body.length = 4 := Nat.add_right_cancel h
      simp [decodeBody, decodeWord, hfour]

/-- **A datagram reads as a message exactly if it is grammatical.** -/
theorem decode_isSome_iff :
    (decode signature.bytes bytes).isSome ↔ Grammatical signature bytes := by
  constructor
  · intro h
    obtain ⟨m, hm⟩ := Option.isSome_iff_exists.mp h
    obtain ⟨rfl, hwf⟩ := encode_of_decode hm
    exact ⟨m.id, m.body, rfl, admits_encode hwf⟩
  · rintro ⟨id, body, rfl, hlen⟩
    have htake : (signature.bytes ++ id.toByte :: body).take 4 = signature.bytes :=
      List.take_left' signature.size
    have hdrop : (signature.bytes ++ id.toByte :: body).drop 5 = body := by
      rw [List.drop_append, List.drop_eq_nil_of_le (by rw [signature.size]; decide),
        signature.size]
      rfl
    have hid : (signature.bytes ++ id.toByte :: body).getD 4 0 = id.toByte := by
      rw [List.getD_append_right _ _ _ _ (Nat.le_of_eq signature.size), signature.size]
      rfl
    have hfive : ¬ (signature.bytes ++ id.toByte :: body).length < MsgHeader.size := by
      rw [length_datagram]
      exact Nat.not_lt.mpr (Nat.le_add_left 5 _)
    rw [decode, if_neg (not_or.mpr ⟨hfive, not_not.mpr htake⟩), hid,
      UdcMessageId.ofByte?_toByte, hdrop]
    apply decodeBody_isSome
    rw [← length_datagram signature id]
    exact hlen

end Grammar

section Inert

variable {s : UdcServerImpl} {time : Milliseconds} {x : UdcServerImpl × Nat}

/-- A turn with a datagram that reads as no message has no effect. -/
theorem inert_turn {packet : Packet} {r : UdcServerImpl × Option UdcEvent}
    (h : Turn time s packet r.1 r.2) (hnone : decode s.packetSignature.bytes packet.bytes = none) :
    Inert s r := by
  have hreact : s.protocol.react s.packetSignature time packet = s.protocol.idle := by
    rw [Protocol.react, hnone]
  have hstate : r.1.protocol = s.protocol := by
    rw [h.state, hreact]
    rfl
  have hreport := h.report
  have hsent := h.sent
  rw [hreact] at hreport hsent
  exact ⟨Option.map_eq_none_iff.mp hreport, hsent.trans (List.append_nil _),
    congrArg Protocol.pendingClients hstate, congrArg Protocol.heap hstate,
    congrArg Protocol.clientsById hstate, congrArg Protocol.clientsByAddress hstate,
    congrArg Protocol.reliableStates hstate, congrArg Protocol.idCounter hstate⟩

theorem inert_lastTurn {r : UdcServerImpl × Option UdcEvent} (h : LastTurn s r.1)
    (hnone : r.2 = none) : Inert s r :=
  ⟨hnone, h.sent, congrArg Protocol.pendingClients h.state, congrArg Protocol.heap h.state,
    congrArg Protocol.clientsById h.state, congrArg Protocol.clientsByAddress h.state,
    congrArg Protocol.reliableStates h.state, congrArg Protocol.idCounter h.state⟩

/-- **A pass that receives nothing inside the grammar has no effect.** -/
theorem inert_outside_grammar (hx : x ∈ s.turns time)
    (hout : ∀ address bytes, datagram x = some (address, bytes) →
      ¬ Grammatical s.packetSignature bytes) : Inert x.1 (pass time x) := by
  have hcap := turns_capacity hx
  cases hd : datagram x with
  | none =>
      obtain ⟨hlast, hnone⟩ := lastTurn_of_pass time hcap hd
      exact inert_lastTurn hlast hnone
  | some d =>
      obtain ⟨address, bytes⟩ := d
      obtain ⟨packet, -, rfl, hturn⟩ := turn_of_pass time hcap hd
      apply inert_turn hturn
      rw [turns_signature hx, ← Option.not_isSome_iff_eq_none, decode_isSome_iff]
      exact hout address packet.bytes hd

/-- A pong with a byte too many. -/
def overlongOps : List Op :=
  connectedOps ++
    [.arriveIPv4 0 (.datagram ⟨exampleIP 2, 2, [1, 2, 3, 4, 3, 9, 0, 0, 0, 0], default⟩)]

theorem inert_overlong :
    Inert (runState exampleServer overlongOps)
      (pass 12 (runState exampleServer overlongOps, 16)) := by
  have hx : (runState exampleServer overlongOps, 16)
      ∈ (runState exampleServer overlongOps).turns 12 := List.mem_cons_self
  apply inert_outside_grammar hx
  intro address bytes hd
  have hbytes : (datagram (runState exampleServer overlongOps, 16)).map Prod.snd
      = some [1, 2, 3, 4, 3, 9, 0, 0, 0, 0] := by decide +kernel
  rw [hd, Option.map_some] at hbytes
  have hbytes : bytes = [1, 2, 3, 4, 3, 9, 0, 0, 0, 0] := Option.some.inj hbytes
  rw [← decode_isSome_iff, hbytes]
  decide +kernel

end Inert

end UdpConnect
