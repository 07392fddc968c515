/-
Datagrams from different peers do not disturb each other.

What a message reads and writes is found in one of three places: the client known under
its source address, the receive bit of that address, or the endpoint in front of the
queue.  No two addresses lead to one client, and a waiting client is under no address
(`Rooted`), so messages from different addresses meet in the same place only if both are
connection handshakes.

`handle_swaps` says so of the machine.  `receiveAlone` is one call of `receiveMessages`
that finds a single datagram, and does what the machine does, or nothing if the datagram
does not fit (`receiveAlone_mirrors`); so the calls swap because the messages do.
-/
import UdpConnect.Lib.Swap
import UdpConnect.Proofs.Calls
import UdpConnect.Proofs.Capacity
import UdpConnect.Proofs.Delivery
import UdpConnect.Proofs.Polling

namespace UdpConnect

open AlternatingBit Swap

/-! ### Messages -/

/-- The reaction as a step: the new state, and what is given out. -/
def Reaction.step (r : Reaction) : Protocol × List (UdcAddressMux × Message) × Option Report :=
  (r.state, r.sends, r.report)

/-- One client changes, if there is one. -/
def Protocol.touch (p : Protocol) (target : Option ClientRef)
    (f : UdcClient → UdcClient × Option Report) : Reaction :=
  match target with
  | none => p.idle
  | some r => ⟨p.setClient r (f (p.heap r)).1, [], (f (p.heap r)).2⟩

/-- What an answer makes of a client, and what the application hears of it. -/
def UdcClient.answered (time : Milliseconds) (timeStamp : Nat) (change : UdcClient → UdcClient)
    (c : UdcClient) : UdcClient × Option Report :=
  let r := (change c).receivePong timeStamp time
  (r.1, if r.2 then some (.connection .connectionRegained r.1.id) else none)

/-- The client that an answer from the address is for. -/
def Protocol.target (p : Protocol) (address : UdcAddressMux) (time : Milliseconds)
    (timeStamp : Nat) : Option ClientRef :=
  if time < timeStamp then none else p.clientsByAddress.lookup address

/-- The receive bit of an address after a reliable message. -/
def nextBit (kind : Kind) (expected : Option Int) : Option Int :=
  match kind with
  | .reset => expected.map fun _ => 0
  | .bit b => some (stateOf (.bit !b))

section Messages

variable {p : Protocol} {a b : UdcAddressMux} {time : Milliseconds} {r : ClientRef}
  {x y : Option ClientRef} {f g : UdcClient → UdcClient × Option Report}
  {change change' : UdcClient → UdcClient} {timeStamp timeStamp' : Nat} {endPointId : UdcEndPointId}

theorem answer_eq_touch : p.answer a time timeStamp change
    = p.touch (p.target a time timeStamp) (UdcClient.answered time timeStamp change) := by
  unfold Protocol.answer Protocol.touch Protocol.target
  by_cases htime : time < timeStamp
  · simp only [if_pos htime]
    cases p.clientsByAddress.lookup a <;> rfl
  · simp only [if_neg htime]
    cases p.clientsByAddress.lookup a <;> rfl

theorem touch_frame : ∃ heap, (p.touch x f).state = { p with heap := heap } := by
  cases x with
  | none => exact ⟨p.heap, rfl⟩
  | some r => exact ⟨_, rfl⟩

theorem heap_touch_of_ne (h : x ≠ some r) : (p.touch x f).state.heap r = p.heap r := by
  cases x with
  | none => rfl
  | some r' =>
      apply Protocol.heap_setClient_of_ne
      rintro rfl
      exact h rfl

theorem target_touch : (p.touch x f).state.target a time timeStamp = p.target a time timeStamp := by
  obtain ⟨heap, hframe⟩ := touch_frame (p := p) (x := x) (f := f)
  rw [hframe]
  rfl

theorem target_lookup (h : p.target a time timeStamp = some r) :
    p.clientsByAddress.lookup a = some r := by
  unfold Protocol.target at h
  split at h
  · cases h
  · exact h

/-- Changes to two clients may be made in either order. -/
theorem touch_touch (h : ∀ r, x = some r → y ≠ some r) :
    ((p.touch x f).state.touch y g).step.1 = ((p.touch y g).state.touch x f).step.1 ∧
      ((p.touch y g).state.touch x f).step.2 = (p.touch x f).step.2 := by
  cases x with
  | none => exact ⟨rfl, rfl⟩
  | some r =>
      cases y with
      | none => exact ⟨rfl, rfl⟩
      | some r' =>
          have hne : r ≠ r' := by
            rintro rfl
            exact h r rfl rfl
          simp only [Protocol.touch, Reaction.step, Protocol.heap_setClient_of_ne _ hne,
            Protocol.heap_setClient_of_ne _ hne.symm]
          refine ⟨?_, trivial⟩
          simp only [Protocol.setClient, Function.update_comm hne]

theorem answer_swaps_answer (hroot : Rooted p) (hne : a ≠ b) :
    Swaps id (fun q => (q.answer a time timeStamp change).step)
      (fun q => (q.answer b time timeStamp' change').step) p := by
  have hapart : ∀ r, p.target a time timeStamp = some r → p.target b time timeStamp' ≠ some r := by
    intro r hr hr'
    exact hne (hroot.apart a b r (target_lookup hr) (target_lookup hr'))
  have hapart' : ∀ r, p.target b time timeStamp' = some r → p.target a time timeStamp ≠ some r := by
    intro r hr hr'
    exact hapart r hr' hr
  refine ⟨?_, ?_, ?_⟩
  · simp only [answer_eq_touch, Reaction.step, target_touch]
    exact (touch_touch hapart).1
  · simp only [answer_eq_touch, Reaction.step, target_touch]
    exact (touch_touch hapart).2
  · simp only [answer_eq_touch, Reaction.step, target_touch]
    exact (touch_touch hapart').2

/-! A handshake reads the front of the queue, the id of the client there, and whether its own
address is taken. -/

theorem handshake_idle (h : ∀ r, ¬ Refreshes time ⟨p, b, .connectionHandshake endPointId⟩ r) :
    p.handshake b time endPointId = p.idle := by
  unfold Protocol.handshake
  cases hhead : p.pendingClients.head? with
  | none => rfl
  | some r =>
      by_cases hid : (p.heap r).id ≠ endPointId
      · simp only [if_pos hid]
      · by_cases hfree : b ∈ p.clientsByAddress
        · simp only [if_neg hid, if_pos hfree]
        · exact absurd ⟨hhead, not_not.mp hid, hfree⟩ (h r)

/-- The state in which the front of the queue has become a client of the address. -/
def Protocol.accepted (p : Protocol) (address : UdcAddressMux) (time : Milliseconds)
    (endPointId : UdcEndPointId) (r : ClientRef) : Protocol :=
  { p.setClient r ((p.heap r).receiveConnectionHandshake time) with
    clientsById := p.clientsById.insert endPointId r
    clientsByAddress := p.clientsByAddress.insert address r
    pendingClients := p.pendingClients.tail }

theorem handshake_accepts (h : Refreshes time ⟨p, b, .connectionHandshake endPointId⟩ r) :
    p.handshake b time endPointId
      = ⟨p.accepted b time endPointId r, [], some (.connection .connectionSuccess endPointId)⟩ := by
  obtain ⟨hhead, hid, hfree⟩ := h
  have hhead : p.pendingClients.head? = some r := hhead
  have hid : ¬ (p.heap r).id ≠ endPointId := not_not.mpr hid
  have hfree : b ∉ p.clientsByAddress := hfree
  simp only [Protocol.handshake, hhead, if_neg hid, if_neg hfree, Protocol.accepted]

theorem refreshes_touch (h : ∀ r ∈ p.pendingClients, x ≠ some r) :
    Refreshes time ⟨(p.touch x f).state, b, .connectionHandshake endPointId⟩ r ↔
      Refreshes time ⟨p, b, .connectionHandshake endPointId⟩ r := by
  obtain ⟨heap, hframe⟩ := touch_frame (p := p) (x := x) (f := f)
  have hheap : p.pendingClients.head? = some r → heap r = p.heap r := by
    intro hhead
    have hsame : (p.touch x f).state.heap r = p.heap r :=
      heap_touch_of_ne (h r (List.mem_of_mem_head? hhead))
    rw [hframe] at hsame
    exact hsame
  rw [hframe]
  unfold Refreshes
  simp only
  constructor
  · rintro ⟨hhead, hid, hfree⟩
    exact ⟨hhead, hheap hhead ▸ hid, hfree⟩
  · rintro ⟨hhead, hid, hfree⟩
    exact ⟨hhead, (hheap hhead).symm ▸ hid, hfree⟩

theorem target_accepted (hne : a ≠ b) :
    (p.accepted b time endPointId r).target a time timeStamp = p.target a time timeStamp := by
  unfold Protocol.target Protocol.accepted
  simp only [Finmap.lookup_insert_of_ne _ hne]

theorem touch_accepted (time : Milliseconds) (endPointId : UdcEndPointId) (h : x ≠ some r) :
    ((p.accepted b time endPointId r).touch x f).step
      = ((p.touch x f).state.accepted b time endPointId r, (p.touch x f).step.2) := by
  have hheap := heap_touch_of_ne (p := p) (f := f) h
  cases x with
  | none => rfl
  | some r' =>
      have hne : r' ≠ r := by
        rintro rfl
        exact h rfl
      have hother : (p.accepted b time endPointId r).heap r' = p.heap r' :=
        Protocol.heap_setClient_of_ne _ hne _
      simp only [Protocol.touch, Reaction.step, hother, Prod.mk.injEq, and_true]
      unfold Protocol.accepted
      rw [show (p.setClient r' (f (p.heap r')).1).heap r = p.heap r from hheap]
      simp only [Protocol.setClient, Function.update_comm hne]

theorem handshake_swaps_answer (hroot : Rooted p) (hne : a ≠ b) :
    Swaps id (fun q => (q.handshake b time endPointId).step)
      (fun q => (q.answer a time timeStamp change).step) p := by
  have hwaiting : ∀ r ∈ p.pendingClients, p.target a time timeStamp ≠ some r := by
    intro r hr htarget
    exact hroot.waiting r hr a (target_lookup htarget)
  by_cases h : ∃ r, Refreshes time ⟨p, b, .connectionHandshake endPointId⟩ r
  · obtain ⟨r, hr⟩ := h
    have hfront : r ∈ p.pendingClients := List.mem_of_mem_head? hr.1
    have hmoved := touch_accepted (p := p) (b := b) time endPointId
      (f := UdcClient.answered time timeStamp change) (hwaiting r hfront)
    refine ⟨?_, ?_, ?_⟩
    all_goals
      simp only [answer_eq_touch, handshake_accepts hr,
        handshake_accepts ((refreshes_touch hwaiting).mpr hr), Reaction.step, target_accepted hne]
    · exact congrArg Prod.fst hmoved
    · exact congrArg Prod.snd hmoved
  · have hp : ∀ r, ¬ Refreshes time ⟨p, b, .connectionHandshake endPointId⟩ r :=
      fun r hr => h ⟨r, hr⟩
    have hafter : ∀ r, ¬ Refreshes time ⟨(p.answer a time timeStamp change).state, b,
        .connectionHandshake endPointId⟩ r := by
      intro r hr
      rw [answer_eq_touch, refreshes_touch hwaiting] at hr
      exact hp r hr
    refine ⟨?_, ?_, ?_⟩
    all_goals
      simp only [handshake_idle hp, handshake_idle hafter, Reaction.step, Protocol.idle]

/-! A reliable message reads and writes one receive bit, and no other message does. -/

/-- The receive bits with the one of the address moved on. -/
def stepBits (address : UdcAddressMux) (kind : Kind) (bits : UdcAddressMap Int) :
    UdcAddressMap Int :=
  match nextBit kind (bits.lookup address) with
  | some bit => bits.insert address bit
  | none => bits

/-- What is given out for a reliable message. -/
def bitReply (address : UdcAddressMux) (kind : Kind) (timeStamp : Nat) (data : List UInt8)
    (bits : UdcAddressMap Int) : List (UdcAddressMux × Message) × Option Report :=
  ([(address, .reliableHandshake kind timeStamp)],
    match kind with
    | .reset => none
    | .bit b =>
        if bits.lookup address = none ∨ bits.lookup address = some (stateOf (.bit b)) then
          some (.message address MsgReliable.size data)
        else none)

theorem reliable_step (kind : Kind) (data : List UInt8) :
    (p.reliable a kind timeStamp data).step
      = ({ p with reliableStates := stepBits a kind p.reliableStates },
        bitReply a kind timeStamp data p.reliableStates) := by
  cases kind with
  | reset =>
      simp only [Protocol.reliable, Reaction.step, stepBits, bitReply, nextBit]
      cases p.reliableStates.lookup a <;> rfl
  | bit bit => rfl

theorem lookup_stepBits (kind : Kind) (bits : UdcAddressMap Int) (address : UdcAddressMux) :
    (stepBits a kind bits).lookup address
      = if address = a then nextBit kind (bits.lookup a) else bits.lookup address := by
  unfold stepBits
  split
  · rename_i bit hbit
    by_cases h : address = a
    · rw [if_pos h, h, Finmap.lookup_insert, hbit]
    · rw [if_neg h, Finmap.lookup_insert_of_ne _ h]
  · rename_i hnone
    split
    · rename_i h
      rw [hnone, h]
      cases kind with
      | reset => exact Option.map_eq_none_iff.mp hnone
      | bit bit => cases hnone
    · rfl

theorem stepBits_comm (hne : a ≠ b) (kind kind' : Kind) (bits : UdcAddressMap Int) :
    stepBits b kind' (stepBits a kind bits) = stepBits a kind (stepBits b kind' bits) := by
  apply Finmap.ext_lookup
  intro address
  simp only [lookup_stepBits, if_neg hne, if_neg hne.symm]
  by_cases ha : address = a
  · rw [if_pos ha, if_neg (ha ▸ hne), if_pos ha]
  · simp only [if_neg ha]

theorem bitReply_stepBits (hne : a ≠ b) (kind kind' : Kind) (data : List UInt8)
    (bits : UdcAddressMap Int) :
    bitReply a kind timeStamp data (stepBits b kind' bits)
      = bitReply a kind timeStamp data bits := by
  have hlookup : (stepBits b kind' bits).lookup a = bits.lookup a := by
    rw [lookup_stepBits, if_neg hne]
  unfold bitReply
  rw [hlookup]

theorem reliable_swaps_reliable (hne : a ≠ b) (kind kind' : Kind) (data data' : List UInt8) :
    Swaps id (fun q => (q.reliable a kind timeStamp data).step)
      (fun q => (q.reliable b kind' timeStamp' data').step) p where
  state := by
    simp only [reliable_step, stepBits_comm hne]
  left := by simp only [reliable_step, bitReply_stepBits hne]
  right := by simp only [reliable_step, bitReply_stepBits hne.symm]

/-- A reliable message swaps with everything that leaves the receive bits alone. -/
theorem reliable_swaps {A : Type} {g : Protocol → Protocol × A} (kind : Kind) (data : List UInt8)
    (hget : ∀ q, (g q).1.reliableStates = q.reliableStates)
    (hset : ∀ bits (q : Protocol), g { q with reliableStates := bits }
      = ({ (g q).1 with reliableStates := bits }, (g q).2)) :
    Swaps id (fun q => (q.reliable a kind timeStamp data).step) g p :=
  swaps_of_part Protocol.reliableStates (fun bits q => { q with reliableStates := bits })
    (fun bits => (stepBits a kind bits, bitReply a kind timeStamp data bits))
    (fun _ => reliable_step kind data) hget hset

theorem reliable_swaps_answer (kind : Kind) (data : List UInt8) :
    Swaps id (fun q => (q.reliable a kind timeStamp data).step)
      (fun q => (q.answer b time timeStamp' change).step) p := by
  apply reliable_swaps kind data
  · intro q
    simp only [answer_eq_touch, Reaction.step]
    obtain ⟨heap, hframe⟩ := touch_frame (p := q) (x := q.target b time timeStamp')
      (f := UdcClient.answered time timeStamp' change)
    rw [hframe]
  · intro bits q
    simp only [answer_eq_touch, Reaction.step]
    rw [show ({ q with reliableStates := bits } : Protocol).target b time timeStamp'
      = q.target b time timeStamp' from rfl]
    cases q.target b time timeStamp' <;> rfl

theorem reliable_swaps_handshake (kind : Kind) (data : List UInt8) :
    Swaps id (fun q => (q.reliable a kind timeStamp data).step)
      (fun q => (q.handshake b time endPointId).step) p := by
  have hcases : ∀ q : Protocol, (∀ bits, ({ q with reliableStates := bits } : Protocol).handshake
        b time endPointId = ({ q with reliableStates := bits } : Protocol).idle) ∨
      ∃ r, ∀ bits, ({ q with reliableStates := bits } : Protocol).handshake b time endPointId
        = ⟨({ q with reliableStates := bits } : Protocol).accepted b time endPointId r, [],
            some (.connection .connectionSuccess endPointId)⟩ := by
    intro q
    by_cases h : ∃ r, Refreshes time ⟨q, b, .connectionHandshake endPointId⟩ r
    · obtain ⟨r, hr⟩ := h
      exact Or.inr ⟨r, fun bits => handshake_accepts hr⟩
    · exact Or.inl fun bits => handshake_idle fun r hr => h ⟨r, hr⟩
  apply reliable_swaps kind data
  · intro q
    rcases hcases q with hidle | ⟨r, haccepts⟩
    · simp only [Reaction.step, hidle q.reliableStates]
      rfl
    · simp only [Reaction.step, haccepts q.reliableStates]
      rfl
  · intro bits q
    rcases hcases q with hidle | ⟨r, haccepts⟩
    · simp only [Reaction.step, hidle bits]
      rw [hidle q.reliableStates]
      rfl
    · simp only [Reaction.step, haccepts bits]
      rw [haccepts q.reliableStates]
      rfl

/-- What a message does from an address, as far as other addresses are concerned. -/
inductive Touches (a : UdcAddressMux) (time : Milliseconds) (m : Message) : Prop
  | constant (out : List (UdcAddressMux × Message) × Option Report)
      (h : ∀ q : Protocol, (q.handle a time m).step = (q, out))
  | reliable {kind : Kind} {timeStamp : Nat} {data : List UInt8}
      (h : ∀ q : Protocol, q.handle a time m = q.reliable a kind timeStamp data)
  | answer (timeStamp : Nat) (change : UdcClient → UdcClient)
      (h : ∀ q : Protocol, q.handle a time m = q.answer a time timeStamp change)
  | handshake {endPointId : UdcEndPointId} (hm : m = .connectionHandshake endPointId)
      (h : ∀ q : Protocol, q.handle a time m = q.handshake a time endPointId)

theorem message_touches (a : UdcAddressMux) (time : Milliseconds) (m : Message) :
    Touches a time m := by
  cases m with
  | connectionRequest endPointId =>
      exact .constant ([(a, .connectionHandshake endPointId)], none) fun _ => rfl
  | connectionHandshake endPointId => exact .handshake rfl fun _ => rfl
  | ping timeStamp => exact .constant ([(a, .pong timeStamp)], none) fun _ => rfl
  | pong timeStamp => exact .answer timeStamp (fun c => c) fun _ => rfl
  | unreliable data =>
      exact .constant ([], some (.message a MsgHeader.size data)) fun _ => rfl
  | reliable kind timeStamp data => exact .reliable fun _ => rfl
  | reliableHandshake kind timeStamp =>
      exact .answer timeStamp (fun c => c.acceptHandshake (stateOf kind)) fun _ => rfl

/-- **Messages from two addresses may be handled in either order**, unless both are connection
handshakes. -/
theorem handle_swaps (hroot : Rooted p) (hne : a ≠ b) {m m' : Message}
    (hkind : ¬ ((∃ i, m = .connectionHandshake i) ∧ ∃ i, m' = .connectionHandshake i)) :
    Swaps id (fun q => (q.handle a time m).step) (fun q => (q.handle b time m').step) p := by
  rcases message_touches a time m with ⟨out, h⟩ | ⟨h⟩ | ⟨_, _, h⟩ | ⟨hm, h⟩
  · exact swaps_of_constant out h
  all_goals
    rcases message_touches b time m' with ⟨out', h'⟩ | ⟨h'⟩ | ⟨_, _, h'⟩ | ⟨hm', h'⟩
    · exact (swaps_of_constant out' h').symm
    all_goals simp only [h, h']
  · exact reliable_swaps_reliable hne _ _ _ _
  · exact reliable_swaps_answer _ _
  · exact reliable_swaps_handshake _ _
  · exact (reliable_swaps_answer _ _).symm
  · exact answer_swaps_answer hroot hne
  · exact (handshake_swaps_answer hroot hne).symm
  · exact (reliable_swaps_handshake _ _).symm
  · exact handshake_swaps_answer hroot hne.symm
  · exact absurd ⟨⟨_, hm⟩, _, hm'⟩ hkind

end Messages

/-! ### Calls -/

/-- The server with nothing queued at its sockets. -/
def UdcServerImpl.emptied (s : UdcServerImpl) : UdcServerImpl :=
  { s with socket := { s.socket with
      socketIPv4 := List.replicate s.socket.socketIPv4.length ⟨[]⟩
      socketIPv6 := List.replicate s.socket.socketIPv6.length ⟨[]⟩ } }

/-- A datagram on its way to the socket with the index. -/
structure Incoming where
  index : Nat
  packet : Packet
  negative : NegativeLength

/-- The server when the datagram has arrived, and nothing else. -/
def UdcServerImpl.arrived (s : UdcServerImpl) (d : Incoming) : UdcServerImpl :=
  (step s.emptied (arrivalFrom d.negative d.packet.address d.index d.packet)).1

/-- One call that finds this datagram only: the server after it, what is sent, and what the
application is told. -/
def UdcServerImpl.receiveAlone (time : Milliseconds) (d : Incoming) (s : UdcServerImpl) :
    UdcServerImpl × List Packet × Option Report :=
  let r := (s.arrived d).receiveMessages time
  (r.1, r.1.socket.history.sent.drop s.socket.history.sent.length,
    r.2.map (UdcEvent.report r.1.messageBuffer))

/-- Whether the first `receive` of the call returns the datagram. -/
def UdcServerImpl.hears (s : UdcServerImpl) (d : Incoming) : Bool :=
  (scan s.messageBufferSize (s.arrived d).socket.queues).found

/-- What no call of `receiveMessages` changes, and `hears` depends on. -/
structure SameShape (s t : UdcServerImpl) : Prop where
  signature : t.packetSignature = s.packetSignature
  size : t.messageBufferSize = s.messageBufferSize
  socketIPv4 : t.socket.socketIPv4.length = s.socket.socketIPv4.length
  socketIPv6 : t.socket.socketIPv6.length = s.socket.socketIPv6.length

section Calls

variable {s t u : UdcServerImpl} {n : Nat} {time : Milliseconds} {d : Incoming} {name : SocketName}
  {packet : Packet}

theorem SameShape.trans (h : SameShape s t) (h' : SameShape t u) : SameShape s u where
  signature := h'.signature.trans h.signature
  size := h'.size.trans h.size
  socketIPv4 := h'.socketIPv4.trans h.socketIPv4
  socketIPv6 := h'.socketIPv6.trans h.socketIPv6

theorem backlog_emptied (s : UdcServerImpl) : s.emptied.socket.backlog = 0 := by
  rw [backlog_eq, Nat.add_eq_zero_iff, backlogOf_empty, backlogOf_empty]
  constructor
  · intro socket hsocket
    rw [List.eq_of_mem_replicate hsocket]
  · intro socket hsocket
    rw [List.eq_of_mem_replicate hsocket]

theorem record_sockets (m : UdcSocketMux) (asked : List Int) (returned : Option Packet) :
    (m.record asked returned).socketIPv4 = m.socketIPv4 ∧
      (m.record asked returned).socketIPv6 = m.socketIPv6 := by
  cases returned <;> exact ⟨rfl, rfl⟩

theorem length_receiveIPv4 {m : UdcSocketMux} {b : MessageBuffer} (hcap : Capacity b n) :
    (m.receiveIPv4 b n).mux.socketIPv4.length = m.socketIPv4.length := by
  have hlength := (receiveFirst_scanned .ipv4 m.socketIPv4 hcap).length
  unfold UdcSocketMux.receiveIPv4
  simp only
  split <;> rw [(record_sockets _ _ _).1] <;> exact hlength

theorem length_receiveIPv6 {m : UdcSocketMux} {b : MessageBuffer} (hcap : Capacity b n) :
    (m.receiveIPv6 b n).mux.socketIPv6.length = m.socketIPv6.length := by
  have hlength := (receiveFirst_scanned .ipv6 m.socketIPv6 hcap).length
  unfold UdcSocketMux.receiveIPv6
  simp only
  split <;> rw [(record_sockets _ _ _).2] <;> exact hlength

theorem sameShape_receive (hcap : Capacity s.messageBuffer n) : SameShape s (s.receive n).1 := by
  have hpolled := (receive_polled (m := s.socket) hcap).1
  have hsix := (receiveIPv6_polled (m := s.socket) hcap).1
  refine ⟨rfl, hpolled.size, ?_, ?_⟩
  · show (s.socket.receive s.messageBuffer n).mux.socketIPv4.length = _
    unfold UdcSocketMux.receive
    simp only
    split
    · rw [socketIPv4_receiveIPv6]
    · rw [length_receiveIPv4 hsix.capacity, socketIPv4_receiveIPv6]
  · show (s.socket.receive s.messageBuffer n).mux.socketIPv6.length = _
    unfold UdcSocketMux.receive
    simp only
    split
    · exact length_receiveIPv6 hcap
    · rw [socketIPv6_receiveIPv4, length_receiveIPv6 hcap]

theorem sameShape_handleDatagram (time : Milliseconds) (address : UdcAddressMux)
    (hn : n ≤ s.messageBufferSize) : SameShape s (s.handleDatagram address n time).1 := by
  have href := @handleDatagram_react s time n hn
    ⟨address, s.messageBuffer.bytes.take n, default⟩ rfl
  refine ⟨href.signature, href.size, ?_, ?_⟩ <;> rw [href.socket]

/-- A call that finds no datagram is over at once. -/
theorem receiveLoop_nothing (time : Milliseconds) (hcap : Capacity s.messageBuffer n)
    (hempty : ∀ name, s.socket.inbox name = []) (fuel : Nat) :
    (UdcServerImpl.receiveLoop time (fuel + 1) s n) = ((s.receive n).1, none) ∧
      LastTurn s (s.receive n).1 := by
  have hnone : (s.receive n).2.1 = none := by
    rw [Option.eq_none_iff_forall_ne_some]
    intro address hsome
    obtain ⟨p, hdelivered, -, -⟩ := turn_of_receive time hcap hsome
    obtain ⟨name, hname⟩ := hdelivered.inbox
    rw [hempty name] at hname
    cases hname
  refine ⟨?_, lastTurn_of_receive hcap hnone⟩
  rw [UdcServerImpl.receiveLoop, receive_none hnone]

/-- A call has had this reaction and no other. -/
structure Answers (s : UdcServerImpl) (packet : Packet) (reaction : Reaction)
    (r : UdcServerImpl × Option UdcEvent) : Prop where
  shape : SameShape s r.1
  state : r.1.protocol = reaction.state
  sent : r.1.socket.history.sent
    = s.socket.history.sent ++ replyPackets s.packetSignature packet.mark reaction.sends
  report : r.2.map (UdcEvent.report r.1.messageBuffer) = reaction.report

/-- **One datagram in the queues, one reaction.**  It is the machine's if the first `receive`
returns the datagram, and none otherwise. -/
theorem receiveMessages_alone (time : Milliseconds) (packet : Packet)
    (hlistens : Listens name packet.address s.socket)
    (hqueue : s.socket.inbox name = [] ∨ s.socket.inbox name = [packet]) :
    Answers s packet
      (if (scan s.messageBufferSize s.socket.queues).found then
        s.protocol.react s.packetSignature time packet
      else s.protocol.idle) (s.receiveMessages time) := by
  have hcap : Capacity s.messageBuffer s.messageBufferSize := capacity_full _
  have hsurveys := receive_surveys (m := s.socket) (b := s.messageBuffer) (size_lt s)
  have hfound : (s.receive s.messageBufferSize).2.1.isSome
      = (scan s.messageBufferSize s.socket.queues).found := hsurveys.found
  rw [← hfound]
  unfold UdcServerImpl.receiveMessages UdcServerImpl.receiveLoop
  cases hr : (s.receive s.messageBufferSize).2.1 with
  | none =>
      have hlast := lastTurn_of_receive hcap hr
      rw [receive_none hr]
      exact ⟨sameShape_receive hcap, hlast.state, hlast.sent.trans (List.append_nil _).symm, rfl⟩
  | some address =>
      obtain ⟨p, hdelivered, hturn, hcap'⟩ := turn_of_receive time hcap hr
      have hroom : (s.receive s.messageBufferSize).2.2
          ≤ (s.receive s.messageBufferSize).1.messageBufferSize :=
        hdelivered.room.trans_eq (sameShape_receive hcap).size.symm
      have hshape := (sameShape_receive hcap).trans (sameShape_handleDatagram time address hroom)
      obtain ⟨hfront, -⟩ := hlistens.taken hturn.taken
      have hafter := hlistens.shrinks hturn.drained
      rw [receive_some hr]
      simp only [Option.isSome_some, if_true]
      generalize (s.receive s.messageBufferSize).1.handleDatagram address
        (s.receive s.messageBufferSize).2.2 time = r at *
      obtain ⟨s', event⟩ := r
      -- the datagram taken is the one there was
      obtain ⟨rfl, hrest⟩ : p = packet ∧ s'.socket.inbox name = [] := by
        rcases hqueue with hqueue | hqueue
        · rw [hqueue] at hfront
          cases hfront
        · rw [hqueue] at hfront
          obtain ⟨hp, hrest⟩ := List.cons.inj hfront
          exact ⟨hp.symm, hrest.symm⟩
      cases event with
      | some e => exact ⟨hshape, hturn.state, hturn.sent, hturn.report⟩
      | none =>
          have hempty : ∀ name', s'.socket.inbox name' = [] := by
            intro name'
            by_cases hname : name' = name
            · rw [hname]
              exact hrest
            · exact hafter.quiet name' hname
          obtain ⟨fuel, hfuel⟩ : ∃ fuel, s.socket.backlog = fuel + 1 :=
            Nat.exists_eq_add_one.mpr (Nat.lt_of_le_of_lt (Nat.zero_le _) hturn.backlog)
          obtain ⟨hloop, hlast⟩ := receiveLoop_nothing time hcap' hempty fuel
          rw [hfuel]
          simp only
          rw [hloop]
          exact ⟨hshape.trans (sameShape_receive hcap'), hlast.state.trans hturn.state,
            hlast.sent.trans hturn.sent, hturn.report⟩

theorem arrived_frame (s : UdcServerImpl) (d : Incoming) :
    SameShape s (s.arrived d) ∧ (s.arrived d).protocol = s.protocol ∧
      (s.arrived d).socket.history.sent = s.socket.history.sent := by
  obtain ⟨index, ⟨⟨ip | ip, port⟩, bytes, mark⟩, negative⟩ := d
  · refine ⟨⟨rfl, rfl, ?_, List.length_replicate⟩, rfl, rfl⟩
    exact (List.length_modify _ _ _).trans List.length_replicate
  · refine ⟨⟨rfl, rfl, List.length_replicate, ?_⟩, rfl, rfl⟩
    exact (List.length_modify _ _ _).trans List.length_replicate

theorem hears_congr (h : SameShape s t) (d : Incoming) : t.hears d = s.hears d := by
  have hqueues : (t.arrived d).socket.queues = (s.arrived d).socket.queues := by
    obtain ⟨index, ⟨⟨ip | ip, port⟩, bytes, mark⟩, negative⟩ := d
    all_goals
      simp only [UdcServerImpl.arrived, arrivalFrom, step, UdcSocketMux.arriveIPv4,
        UdcSocketMux.arriveIPv6, UdcServerImpl.emptied, UdcSocketMux.queues, h.socketIPv4,
        h.socketIPv6]
  unfold UdcServerImpl.hears
  rw [hqueues, h.size]

/-- **A call that finds one datagram does what the machine does with it**, if it hears it. -/
theorem receiveAlone_mirrors (s : UdcServerImpl) (time : Milliseconds) (d : Incoming) :
    Mirrors (SameShape s) UdcServerImpl.protocol
      (fun out => (replyPackets s.packetSignature d.packet.mark out.1, out.2))
      (UdcServerImpl.receiveAlone time d)
      (fun p => (if s.hears d then p.react s.packetSignature time d.packet else p.idle).step) := by
  have hall : ∀ t, SameShape s t → Answers (t.arrived d) d.packet
      (if s.hears d then t.protocol.react s.packetSignature time d.packet else t.protocol.idle)
      ((t.arrived d).receiveMessages time) := by
    intro t ht
    obtain ⟨hshape, hstate, -⟩ := arrived_frame t d
    obtain ⟨new, hnew, hinbox, -⟩ :=
      inbox_arrival t.emptied d.negative d.packet.address d.index d.packet
    rw [inbox_idle (backlog_emptied t), List.nil_append] at hinbox
    have h := receiveMessages_alone time d.packet
      (listens_arrival (listens_idle (backlog_emptied t) _ _) d.negative d.packet) (hinbox ▸ hnew)
    rw [show (step t.emptied (arrivalFrom d.negative d.packet.address d.index d.packet)).1
      = t.arrived d from rfl, hshape.size, hstate, hshape.signature, ht.signature] at h
    rw [← hears_congr ht d]
    exact h
  refine ⟨?_, ?_, ?_⟩
  · intro t ht
    exact (ht.trans (arrived_frame t d).1).trans (hall t ht).shape
  · intro t ht
    exact (hall t ht).state
  · intro t ht
    obtain ⟨hshape, -, hsent⟩ := arrived_frame t d
    have h := hall t ht
    unfold UdcServerImpl.receiveAlone
    simp only
    rw [h.sent, h.report, hsent, List.drop_left, hshape.signature, ht.signature]
    rfl

end Calls

/-! ### Datagrams from two addresses -/

/-- The datagram is read as a connection handshake. -/
def IsHandshake (signature : UdcSignature) (packet : Packet) : Bool :=
  match decode signature.bytes packet.bytes with
  | some (.connectionHandshake _) => true
  | _ => false

section Traffic

variable {s : UdcServerImpl} {time : Milliseconds} {d d' : Incoming}

theorem react_swaps {p : Protocol} {signature : UdcSignature} {packet packet' : Packet}
    (hroot : Rooted p) (hne : packet.address ≠ packet'.address)
    (hkind : ¬ (IsHandshake signature packet = true ∧ IsHandshake signature packet' = true)) :
    Swaps id (fun q => (q.react signature time packet).step)
      (fun q => (q.react signature time packet').step) p := by
  unfold Protocol.react
  unfold IsHandshake at hkind
  cases hm : decode signature.bytes packet.bytes with
  | none => exact swaps_of_constant ([], none) fun _ => rfl
  | some m =>
      cases hm' : decode signature.bytes packet'.bytes with
      | none => exact (swaps_of_constant ([], none) fun _ => rfl).symm
      | some m' =>
          apply handle_swaps hroot hne
          rintro ⟨⟨i, rfl⟩, i', rfl⟩
          rw [hm, hm'] at hkind
          exact hkind ⟨rfl, rfl⟩

theorem rooted_serverRun {signature : UdcSignature} {buffer : MessageBuffer}
    {trace : List (Op × Outcome)} (run : ServerRun signature buffer trace s) :
    Rooted s.protocol := by
  refine run.preserves (P := fun s => Rooted s.protocol) (rooted_new signature buffer) ?_
  rintro s ⟨op, outcome⟩ s' hroot ⟨hadm, hstep⟩
  have hs' : s' = (step s op).1 := by rw [hstep]
  rw [hs']
  exact step_stages (P := fun s => Rooted s.protocol) hadm (fun _ _ => rooted_stage) hroot

/-- **Two datagrams from different addresses may be received in either order**, unless both are
connection handshakes: the state is the same, and each is answered and reported the same. -/
theorem traffic_commutes {signature : UdcSignature} {buffer : MessageBuffer}
    {trace : List (Op × Outcome)} (run : ServerRun signature buffer trace s)
    (time : Milliseconds) (hne : d.packet.address ≠ d'.packet.address)
    (hkind : ¬ (IsHandshake s.packetSignature d.packet = true ∧
      IsHandshake s.packetSignature d'.packet = true)) :
    Swaps UdcServerImpl.protocol (UdcServerImpl.receiveAlone time d)
      (UdcServerImpl.receiveAlone time d') s := by
  refine (?_ : Swaps id _ _ s.protocol).of_mirrors (receiveAlone_mirrors s time d)
    (receiveAlone_mirrors s time d') ⟨rfl, rfl, rfl, rfl⟩
  by_cases h : s.hears d
  · by_cases h' : s.hears d'
    · simp only [if_pos h, if_pos h']
      exact react_swaps (rooted_serverRun run) hne hkind
    · simp only [if_neg h']
      exact (swaps_of_constant ([], none) fun _ => rfl).symm
  · simp only [if_neg h]
    exact swaps_of_constant ([], none) fun _ => rfl

/-- A pong from the peer, and a reliable message from a stranger. -/
theorem traffic_commutes_pong :
    Swaps UdcServerImpl.protocol
      (UdcServerImpl.receiveAlone 20
        ⟨0, ⟨⟨.ipv4 (exampleIP 2), 2⟩, [1, 2, 3, 4, 3, 15, 0, 0, 0], default⟩, .refused⟩)
      (UdcServerImpl.receiveAlone 20
        ⟨0, ⟨⟨.ipv4 (exampleIP 3), 2⟩, [1, 2, 3, 4, 6, 15, 0, 0, 0, 65], default⟩, .dropped⟩)
      (runState exampleServer connectedOps) :=
  traffic_commutes (run_of_admissible connectedOps (by decide)) 20 (by decide) (by decide +kernel)

end Traffic

end UdpConnect
