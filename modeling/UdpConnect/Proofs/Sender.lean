/-
What A's calls are on the link.

A sends a reliable message or a reset only in a client's turn, and a client's bit and
queue change only with a reliable handshake, a call to `sendReliableMessage`, or the
turn in which it loses patience.  So every call of A is a number of steps of the link:
`callA_simulates` for a call that does not begin or end a connection.
-/
import UdpConnect.Proofs.Link

namespace UdpConnect

open Memory AlternatingBit

/-! ### The client as the sender -/

/-- What a client does about its reliable messages when its turn comes. -/
inductive SendsReliable (c : UdcClient) (time : Milliseconds) : UdcClient → List Message → Prop
  | idle (hqueue : c.reliableMessages = []) : SendsReliable c time c []
  | reset {msg : List UInt8} (hfront : c.reliableMessages.head? = some msg)
      (hstate : c.reliableState = -1) :
      SendsReliable c time c [.reliable .reset (u32 time) []]
  | timeout {msg : List UInt8} (hfront : c.reliableMessages.head? = some msg)
      (hstate : c.reliableState ≠ -1) (hneeds : c.needsReliableReset time = true) :
      SendsReliable c time (c.setReliableState (-1)).resetSendReliable []
  | data {msg : List UInt8} (hfront : c.reliableMessages.head? = some msg)
      (hstate : c.reliableState ≠ -1) :
      SendsReliable c time (c.setSendReliable time)
        [.reliable (.bit (c.reliableState ≠ 0)) (u32 time) msg]

theorem sendReliable_sends (c : UdcClient) (time : Milliseconds) :
    SendsReliable c time (c.sendReliable time).1 (c.sendReliable time).2 := by
  unfold UdcClient.sendReliable
  cases hqueue : c.reliableMessages with
  | nil => exact .idle hqueue
  | cons msg rest =>
      have hfront : c.reliableMessages.head? = some msg := by rw [hqueue]; rfl
      by_cases hreset : c.reliableState = -1
      · simp only [if_pos hreset]
        exact .reset hfront hreset
      · by_cases hneeds : c.needsReliableReset time
        · simp only [if_neg hreset, if_pos hneeds]
          exact .timeout hfront hreset hneeds
        · simp only [if_neg hreset, if_neg hneeds]
          exact .data hfront hreset

theorem setSendReliable_same (c : UdcClient) (time : Milliseconds) :
    (c.setSendReliable time).reliableState = c.reliableState ∧
      (c.setSendReliable time).reliableMessages = c.reliableMessages := by
  unfold UdcClient.setSendReliable
  split <;> exact ⟨rfl, rfl⟩

theorem state_receivePong (c : UdcClient) (t t' : Milliseconds) :
    (c.receivePong t t').1.reliableState = c.reliableState := by
  unfold UdcClient.receivePong
  cases c.isConnected <;> rfl

section Client

variable {w : Wiring} {endPointId : UdcEndPointId} {r : ClientRef} {size : Nat}
  {p p' : Protocol} {l l' : Link Numbered}

/-- The client changes as the sender does. -/
theorem Sender.setClient (h : Sender w endPointId r size p l) {c : UdcClient}
    (houtgoing : c.outgoingAddress = w.addressB) (hmode : c.reliableState = stateOf l'.mode)
    (hqueue : c.reliableMessages = l'.queue.map Prod.fst)
    (hfits : ∀ data ∈ c.reliableMessages,
      data.length < 2 ^ 32 ∧ u32 (9 + data.length : Nat) ≤ size) :
    Sender w endPointId r size (p.setClient r c) l' where
  byId := h.byId
  byAddress := h.byAddress
  pending := h.pending
  outgoing := by rw [Protocol.heap_setClient_self]; exact houtgoing
  mode := by rw [Protocol.heap_setClient_self]; exact hmode
  queue := by rw [Protocol.heap_setClient_self]; exact hqueue
  fits := by rw [Protocol.heap_setClient_self]; exact hfits

/-- The client's reliable part stays as it is. -/
theorem Sender.refresh (h : Sender w endPointId r size p l) {c : UdcClient}
    (houtgoing : c.outgoingAddress = (p.heap r).outgoingAddress)
    (hmode : c.reliableState = (p.heap r).reliableState)
    (hqueue : c.reliableMessages = (p.heap r).reliableMessages) :
    Sender w endPointId r size (p.setClient r c) l :=
  h.setClient (houtgoing.trans h.outgoing) (hmode.trans h.mode) (hqueue.trans h.queue)
    fun data hdata => h.fits data (hqueue ▸ hdata)

theorem Sender.states (h : Sender w endPointId r size p l) (states : UdcAddressMap Int) :
    Sender w endPointId r size { p with reliableStates := states } l :=
  ⟨h.byId, h.byAddress, h.pending, h.outgoing, h.mode, h.queue, h.fits⟩

/-- A reliable handshake does to the client what an acknowledgement does to the sender. -/
theorem acceptHandshake_acknowledge {c : UdcClient} (hmode : c.reliableState = stateOf l.mode)
    (hqueue : c.reliableMessages = l.queue.map Prod.fst) (t : Tag) (rest : List Tag) :
    (c.acceptHandshake (stateOf t.kind)).reliableState
        = stateOf (l.acknowledge t rest).mode ∧
      (c.acceptHandshake (stateOf t.kind)).reliableMessages
        = (l.acknowledge t rest).queue.map Prod.fst := by
  unfold UdcClient.acceptHandshake Link.acknowledge
  by_cases hkind : t.kind = l.mode
  · have hstate : stateOf t.kind = c.reliableState := by rw [hmode, hkind]
    rw [if_pos hstate, if_pos hkind, hmode]
    cases hm : l.mode with
    | reset =>
        rw [hm] at hkind
        simp [stateOf, hkind, UdcClient.setReliableState, UdcClient.resetSendReliable, hqueue]
    | bit b =>
        rw [hm] at hkind
        cases hq : l.queue with
        | nil =>
            rw [hq] at hqueue
            cases b <;> simp [stateOf, hkind, UdcClient.setReliableState,
              UdcClient.resetSendReliable, hqueue]
        | cons m ms =>
            rw [hq] at hqueue
            cases b <;> simp [stateOf, hkind, UdcClient.setReliableState,
              UdcClient.resetSendReliable, UdcClient.popReliable, hqueue]
  · have hstate : ¬ stateOf t.kind = c.reliableState := by
      rw [hmode, stateOf_inj]
      exact hkind
    rw [if_neg hstate, if_neg hkind]
    exact ⟨hmode, hqueue⟩

/-- A message that is not a reliable handshake leaves the sender as it is. -/
theorem sender_handle_other (h : Sender w endPointId r size p l) {address : UdcAddressMux}
    {time : Milliseconds} {m : Message} (hm : m.ackKind = none) :
    Sender w endPointId r size (p.handle address time m).state l := by
  cases m with
  | connectionRequest endPointId => exact h
  | connectionHandshake endPointId =>
      simp only [Protocol.handle, Protocol.handshake, h.pending, List.head?_nil]
      exact h
  | ping timeStamp => exact h
  | pong timeStamp =>
      simp only [Protocol.handle, Protocol.answer, h.byAddress]
      by_cases haddress : address = w.addressB
      · simp only [if_pos haddress]
        by_cases htime : time < timeStamp
        · simp only [if_pos htime]
          exact h
        · simp only [if_neg htime]
          exact h.refresh (receivePong_same _ _ _).1.outgoingAddress (state_receivePong _ _ _)
            (queue_receivePong _ _)
      · simp only [if_neg haddress]
        exact h
  | unreliable data => exact h
  | reliable kind timeStamp data => cases kind <;> exact h.states _
  | reliableHandshake kind timeStamp => cases hm

/-- A reliable handshake from B does to the sender what an acknowledgement does. -/
theorem sender_handle_ack (h : Sender w endPointId r size p l) {time : Milliseconds} {kind : Kind}
    {timeStamp : Nat} (htime : ¬ time < timeStamp) (mark : Mark) (rest : List Tag) :
    Sender w endPointId r size
      (p.handle w.addressB time (.reliableHandshake kind timeStamp)).state
      (l.acknowledge (mark.tag kind) rest) := by
  obtain ⟨hmode, hqueue⟩ := acceptHandshake_acknowledge h.mode h.queue (mark.tag kind) rest
  simp only [Protocol.handle, Protocol.answer, h.byAddress, if_true, if_neg htime]
  refine h.setClient ?_ ?_ ?_ fun data hdata => ?_
  · rw [(receivePong_same _ _ _).1.outgoingAddress, (acceptHandshake_same _ _).1.outgoingAddress]
    exact h.outgoing
  · rw [state_receivePong]
    exact hmode
  · rw [queue_receivePong]
    exact hqueue
  · rw [queue_receivePong] at hdata
    exact h.fits data ((queue_acceptHandshake _).subset hdata)

end Client

/-! ### What A does with a datagram -/

section Turns

variable {T : Terms Numbered} {w : Wiring} {endPointId : UdcEndPointId} {r : ClientRef}
  {earlier : List Numbered} {s : Pair} {l : Link Numbered} {time : Milliseconds}
  {srv srv' : UdcServerImpl} {new : List Packet} {packet : Packet} {event : Option UdcEvent}

/-- The pair in the middle of a call of A that has sent so much. -/
def Pair.duringA (w : Wiring) (s : Pair) (srv : UdcServerImpl) (new : List Packet) : Pair :=
  { s with
    a := srv
    toB := s.toB ++ new.filter (·.address = w.addressB) }

/-- The link has followed, and has not begun a reset. -/
def Advances (T : Terms Numbered) (w : Wiring) (endPointId : UdcEndPointId) (r : ClientRef)
    (earlier : List Numbered) (l : Link Numbered) (s : Pair) : Prop :=
  ∃ l', Evolves T l l' ∧ Models w endPointId r earlier s l' ∧ (l'.mode = .reset → l.mode = .reset)

/-- What A sends in reply to a datagram is not on the link. -/
theorem frameOf_replies (signature signature' : UdcSignature) (mark : Mark) {p : Protocol}
    {address : UdcAddressMux} {m : Message} (q : Packet → Bool) :
    ((replyPackets signature mark (p.handle address time m).sends).filter q).filterMap
      (frameOf signature') = [] := by
  refine List.filterMap_eq_nil_iff.mpr fun packet hpacket => ?_
  obtain ⟨x, hx, rfl⟩ := List.mem_map.mp (List.mem_filter.mp hpacket).1
  obtain ⟨-, hword, hdata, -⟩ := handle_replies hx
  rw [← wire_word signature.size hword]
  exact frameOf_other signature.size hdata

/-- Replies to datagrams do not change the frames in flight. -/
theorem data_replies (h : Models w endPointId r earlier s l) (time : Milliseconds)
    (signature : UdcSignature) (packet : Packet) (srv : UdcServerImpl) :
    l.data = ((s.duringA w srv (replyPackets signature packet.mark
      (s.a.protocol.react signature time packet).sends)).inFlightB w).filterMap
        (frameOf s.b.packetSignature) := by
  simp only [Pair.inFlightB, Pair.duringA, ← List.append_assoc]
  rw [List.filterMap_append (l := _ ++ _), ← h.data]
  unfold Protocol.react
  cases decode signature.bytes packet.bytes with
  | none => simp [replyPackets, Protocol.idle]
  | some m => rw [frameOf_replies, List.append_nil]

/-- A datagram that is not a reliable handshake is none of the link's business. -/
theorem turnA_other (h : Models w endPointId r earlier s l)
    (hturn : Turn time s.a packet srv event)
    (hother : ∀ m, decode s.a.packetSignature.bytes packet.bytes = some m → m.ackKind = none) :
    Models w endPointId r earlier (s.duringA w srv (replyPackets s.a.packetSignature packet.mark
      (s.a.protocol.react s.a.packetSignature time packet).sends)) l := by
  obtain ⟨hinbox, -⟩ := h.listensA.taken hturn.taken
  have hack : ackOf s.a.packetSignature packet = none := by
    unfold ackOf
    cases hd : decode s.a.packetSignature.bytes packet.bytes with
    | none => rfl
    | some m =>
        have hm := hother m hd
        cases m with
        | reliableHandshake kind timeStamp => cases hm
        | _ => rfl
  refine ⟨?_, h.expected, h.listensA.shrinks hturn.drained, h.listensB,
    data_replies h time _ packet srv, ?_, h.numbered, h.reported, h.heard, h.base, h.clock, h.since⟩
  · show Sender w endPointId r srv.messageBufferSize srv.protocol l
    rw [hturn.size, hturn.state]
    unfold Protocol.react
    cases hd : decode s.a.packetSignature.bytes packet.bytes with
    | none => exact h.sender
    | some m => exact sender_handle_other h.sender (hother m hd)
  · show l.acks = (srv.socket.inbox _ ++ s.toA).filterMap (ackOf srv.packetSignature)
    rw [hturn.signature, h.acks, hinbox, List.cons_append, List.filterMap_cons, hack]

/-- **A reliable handshake that A handles is an acknowledgement, or comes to nothing.** -/
theorem turnA_ack (h : Models w endPointId r earlier s l)
    (hturn : Turn time s.a packet srv event) {kind : Kind} {timeStamp : Nat}
    (hd : decode s.a.packetSignature.bytes packet.bytes
      = some (.reliableHandshake kind timeStamp))
    (hallowed : (timeStamp : Milliseconds) ≤ time →
      T.acknowledge l (packet.mark.tag kind)) :
    Advances T w endPointId r earlier l
      (s.duringA w srv (replyPackets s.a.packetSignature packet.mark
        (s.a.protocol.react s.a.packetSignature time packet).sends)) := by
  obtain ⟨hinbox, haddress⟩ := h.listensA.taken hturn.taken
  have hack : ackOf s.a.packetSignature packet = some (packet.mark.tag kind) := by
    unfold ackOf
    rw [hd]
  have hacks : l.acks = packet.mark.tag kind ::
      (srv.socket.inbox (socketFor w.addressB w.socketA) ++ s.toA).filterMap
        (ackOf s.a.packetSignature) := by
    rw [h.acks, hinbox, List.cons_append, List.filterMap_cons, hack]
  have hreact : s.a.protocol.react s.a.packetSignature time packet
      = s.a.protocol.handle w.addressB time (.reliableHandshake kind timeStamp) := by
    unfold Protocol.react
    rw [hd, haddress]
  have hdata := data_replies h time s.a.packetSignature packet srv
  by_cases htime : time < timeStamp
  · -- the handshake is stamped in the future, and ignored
    have hdrop : T.channel.may l.acks ((srv.socket.inbox (socketFor w.addressB w.socketA) ++
        s.toA).filterMap (ackOf s.a.packetSignature)) := by
      rw [hacks]
      exact T.channel.sublist (List.sublist_cons_self _ _)
    refine ⟨_, .single (.channel l (T.channel.refl _) hdrop), ⟨?_, h.expected,
      h.listensA.shrinks hturn.drained, h.listensB, hdata, ?_, h.numbered, h.reported, h.heard,
      h.base, h.clock, h.since⟩, id⟩
    · show Sender w endPointId r srv.messageBufferSize srv.protocol _
      rw [hturn.size, hturn.state, hreact]
      simp only [Protocol.handle, Protocol.answer, h.sender.byAddress, if_true, if_pos htime]
      exact h.sender.congr rfl rfl
    · show _ = (srv.socket.inbox _ ++ s.toA).filterMap (ackOf srv.packetSignature)
      rw [hturn.signature]
  · obtain ⟨hheard, hreported, hexpected, hclock, hsince, hbase⟩ := acknowledge_frame l
      (packet.mark.tag kind) ((srv.socket.inbox (socketFor w.addressB w.socketA) ++
        s.toA).filterMap (ackOf s.a.packetSignature))
    refine ⟨_, .single (.acknowledge l hacks (hallowed (not_lt.mp htime))), ⟨?_,
      hexpected ▸ h.expected, h.listensA.shrinks hturn.drained, h.listensB,
      (data_acknowledge l _ _).trans hdata, ?_, ?_, hreported.trans h.reported,
      hheard.trans h.heard, hbase.trans h.base, hclock.trans h.clock, hsince.trans h.since⟩,
      mode_acknowledge l⟩
    · show Sender w endPointId r srv.messageBufferSize srv.protocol _
      rw [hturn.size, hturn.state, hreact]
      exact sender_handle_ack h.sender htime _ _
    · show _ = (srv.socket.inbox _ ++ s.toA).filterMap (ackOf srv.packetSignature)
      rw [hturn.signature]
      exact acks_acknowledge l _ _
    · rw [List.append_assoc, sent_acknowledge, ← List.append_assoc]
      exact h.numbered

theorem turnA_simulates (h : Models w endPointId r earlier s l)
    (hturn : Turn time s.a packet srv event)
    (hallowed : ∀ kind timeStamp, decode s.a.packetSignature.bytes packet.bytes
        = some (.reliableHandshake kind timeStamp) → (timeStamp : Milliseconds) ≤ time →
      T.acknowledge l (packet.mark.tag kind)) :
    Advances T w endPointId r earlier l
      (s.duringA w srv (replyPackets s.a.packetSignature packet.mark
        (s.a.protocol.react s.a.packetSignature time packet).sends)) := by
  by_cases hother : ∀ m, decode s.a.packetSignature.bytes packet.bytes = some m →
      m.ackKind = none
  · exact ⟨l, .refl, turnA_other h hturn hother, id⟩
  · simp only [not_forall] at hother
    obtain ⟨m, hd, hm⟩ := hother
    cases m with
    | reliableHandshake kind timeStamp => exact turnA_ack h hturn hd (hallowed _ _ hd)
    | _ => exact absurd rfl hm

/-! ### A whole call of A -/

/-- The link has the sender and the counts that A has when it handles a message. -/
structure SeesA (w : Wiring) (endPointId : UdcEndPointId) (r : ClientRef)
    (earlier : List Numbered) (s : Pair) (p : Protocol) (l : Link Numbered) : Prop where
  sender : ∃ size, Sender w endPointId r size p l
  numbered : earlier ++ l.popped ++ l.queue = s.accepted.zipIdx
  base : l.base = earlier.length
  since : l.since = s.since

/-- The message may be acted on, if it is a reliable handshake. -/
def MayAcknowledge (T : Terms Numbered) (w : Wiring) (endPointId : UdcEndPointId)
    (r : ClientRef) (earlier : List Numbered) (s : Pair) (time : Milliseconds)
    (x : Reception) : Prop :=
  ∀ l, SeesA w endPointId r earlier s x.state l → ∀ kind timeStamp,
    x.message = .reliableHandshake kind timeStamp → (timeStamp : Milliseconds) ≤ time →
      T.acknowledge l (x.mark.tag kind)

theorem Models.marked (h : Models w endPointId r earlier s l) :
    Models w endPointId r earlier { s with a := s.marked w } l :=
  ⟨h.sender, h.expected, ⟨h.listensA.quiet, h.listensA.source⟩, h.listensB, h.data, h.acks,
    h.numbered, h.reported, h.heard, h.base, h.clock, h.since⟩

theorem client_eq {size : Nat} (h : Sender w endPointId r size s.a.protocol l) :
    s.client w = some (s.a.heap r) := by
  have hlookup := h.byAddress w.addressB
  rw [if_pos rfl] at hlookup
  rw [Pair.client, show s.a.clientsByAddress.lookup w.addressB = some r from hlookup]
  rfl

theorem isResetting_iff {size : Nat} (h : Sender w endPointId r size s.a.protocol l) :
    s.isResetting w = true ↔ l.mode = .reset := by
  have hmode : (s.a.heap r).reliableState = stateOf l.mode := h.mode
  rw [Pair.isResetting, client_eq h, Option.any_some, hmode, decide_eq_true_iff]
  exact @stateOf_inj _ .reset

theorem front_eq {size : Nat} (h : Sender w endPointId r size s.a.protocol l) :
    s.front w = s.accepted.length - l.queue.length := by
  have hqueue : (s.a.heap r).reliableMessages = l.queue.map Prod.fst := h.queue
  rw [Pair.front, client_eq h, Option.map_some, Option.getD_some, hqueue, List.length_map]

/-- The number of the message in front is the link's. -/
theorem number_eq (h : Models w endPointId r earlier s l) : l.number = s.front w := by
  have hlength := congrArg List.length h.numbered
  simp only [List.length_append, List.length_zipIdx] at hlength
  rw [front_eq h.sender, Link.number, h.base]
  omega

/-- The packets of a call are those sent to B. -/
theorem newPackets_marked
    (hsent : srv.socket.history.sent = s.a.socket.history.sent ++ new) :
    newPackets w.addressB (s.marked w) srv = new.filter (·.address = w.addressB) := by
  rw [newPackets, hsent]
  simp [Pair.marked]

/-- A call that does not begin a reset. -/
theorem callA_models {op : Op} {l₁ : Link Numbered} (hsrv : (step (s.marked w) op).1 = srv)
    (hsent : srv.socket.history.sent = s.a.socket.history.sent ++ new)
    (h : Models w endPointId r earlier
      { s.duringA w srv new with accepted := s.accepted ++ acceptedBy (s.marked w) op } l₁)
    (hmode : l₁.mode = .reset → s.isResetting w = true) :
    Models w endPointId r earlier (s.callA w op) { l₁ with clock := l₁.clock + 1 } := by
  have hnew := newPackets_marked (w := w) hsent
  unfold Pair.callA
  simp only [hsrv, hnew]
  refine ⟨h.sender.congr rfl rfl, h.expected, h.listensA, h.listensB, h.data, h.acks, h.numbered,
    h.reported, h.heard, h.base, congrArg Nat.succ h.clock, ?_⟩
  have hsince : l₁.since = s.since := h.since
  rw [hsince]
  refine (if_neg ?_).symm
  intro hc
  simp only [Bool.and_eq_true, Bool.not_eq_true'] at hc
  have hreset := (isResetting_iff (s := { s with
    a := srv
    toB := s.toB ++ new.filter (·.address = w.addressB)
    accepted := s.accepted ++ acceptedBy (s.marked w) op
    clock := s.clock + 1 }) h.sender).mp hc.1
  rw [hmode hreset] at hc
  cases hc.2

/-- The call in which the client loses patience. -/
theorem callA_timeout {op : Op} (hsrv : (step (s.marked w) op).1 = srv)
    (hsent : srv.socket.history.sent = s.a.socket.history.sent ++ new)
    (h : Models w endPointId r earlier
      { s.duringA w srv new with accepted := s.accepted ++ acceptedBy (s.marked w) op }
      { l with mode := .reset })
    (hmode : s.isResetting w = false) :
    Models w endPointId r earlier (s.callA w op) l.timeout := by
  have hnew := newPackets_marked (w := w) hsent
  have hclock : l.clock = s.clock := h.clock
  unfold Pair.callA
  simp only [hsrv, hnew]
  refine ⟨h.sender.congr rfl rfl, h.expected, h.listensA, h.listensB, h.data, h.acks, h.numbered,
    h.reported, h.heard, h.base, congrArg Nat.succ h.clock, ?_⟩
  have hreset := (isResetting_iff (s := { s with
    a := srv
    toB := s.toB ++ new.filter (·.address = w.addressB)
    accepted := s.accepted ++ acceptedBy (s.marked w) op
    clock := s.clock + 1 }) h.sender).mpr rfl
  rw [hreset, hmode]
  exact congrArg Nat.succ hclock

/-- The call has sent so much, and the link has followed. -/
structure DuringA (T : Terms Numbered) (w : Wiring) (endPointId : UdcEndPointId) (r : ClientRef)
    (earlier : List Numbered) (s : Pair) (l : Link Numbered) (srv : UdcServerImpl)
    (new : List Packet) : Prop where
  signature : srv.packetSignature = s.a.packetSignature
  sent : srv.socket.history.sent = s.a.socket.history.sent ++ new
  advances : Advances T w endPointId r earlier l (s.duringA w srv new)

theorem duringA_turn (h : DuringA T w endPointId r earlier s l srv new)
    (hturn : Turn time srv packet srv' event)
    (hmeets : TurnMeets (MayAcknowledge T w endPointId r earlier s time) srv packet) :
    DuringA T w endPointId r earlier s l srv'
      (new ++ replyPackets srv.packetSignature packet.mark
        (srv.protocol.react srv.packetSignature time packet).sends) where
  signature := hturn.signature.trans h.signature
  sent := by
    rw [hturn.sent, h.sent, List.append_assoc]
    rfl
  advances := by
    obtain ⟨l₁, hevolves, hmodels, hmode⟩ := h.advances
    obtain ⟨l₂, hevolves', hmodels', hmode'⟩ := turnA_simulates hmodels hturn
      fun kind timeStamp hd htime => hmeets _ hd l₁
        ⟨⟨_, hmodels.sender⟩, hmodels.numbered, hmodels.base, hmodels.since⟩ kind timeStamp rfl
        htime
    refine ⟨l₂, hevolves.trans hevolves', ?_, fun hreset => hmode (hmode' hreset)⟩
    have hsame : (s.duringA w srv new).duringA w srv' (replyPackets srv.packetSignature packet.mark
        (srv.protocol.react srv.packetSignature time packet).sends)
        = s.duringA w srv' (new ++ replyPackets srv.packetSignature packet.mark
          (srv.protocol.react srv.packetSignature time packet).sends) := by
      simp [Pair.duringA]
    rw [← hsame]
    exact hmodels'

theorem duringA_stop (h : DuringA T w endPointId r earlier s l srv new)
    (hlast : LastTurn srv srv') : DuringA T w endPointId r earlier s l srv' new where
  signature := hlast.signature.trans h.signature
  sent := hlast.sent.trans h.sent
  advances := by
    obtain ⟨l₁, hevolves, hmodels, hmode⟩ := h.advances
    have hlistens := hmodels.listensA.shrinks hlast.drained
    have hsub :
        ((s.duringA w srv' new).inFlightA w).Sublist ((s.duringA w srv new).inFlightA w) := by
      refine List.Sublist.append_right ?_ _
      show (srv'.socket.inbox _).Sublist (srv.socket.inbox _)
      rcases hlast.drained (socketFor w.addressB w.socketA) with hsame | ⟨p, hcons⟩
      · rw [hsame]
      · rw [hcons]
        exact List.sublist_cons_self p _
    have hchannel : T.channel.may l₁.acks (((s.duringA w srv' new).inFlightA w).filterMap
        (ackOf srv'.packetSignature)) := by
      rw [hmodels.acks, hlast.signature]
      exact T.channel.sublist (hsub.filterMap _)
    refine ⟨_, hevolves.tail (.channel l₁ (T.channel.refl _) hchannel), ⟨?_, hmodels.expected,
      hlistens, hmodels.listensB, hmodels.data, rfl, hmodels.numbered, hmodels.reported,
      hmodels.heard, hmodels.base, hmodels.clock, hmodels.since⟩, hmode⟩
    show Sender w endPointId r srv'.messageBufferSize srv'.protocol _
    rw [hlast.size, hlast.state]
    exact hmodels.sender.congr rfl rfl

/-- **A's call of `receiveMessages` is a number of steps of the link.** -/
theorem receiveA_simulates (h : Models w endPointId r earlier s l)
    (hallowed : ∀ x ∈ (s.marked w).receptions time,
      MayAcknowledge T w endPointId r earlier s time x) :
    Simulates T w endPointId r earlier l (s.step w (.callA (.receiveMessages time))) := by
  have hstart : DuringA T w endPointId r earlier s l (s.marked w) [] := by
    refine ⟨rfl, (List.append_nil _).symm, l, .refl, ?_, id⟩
    have hsame : s.duringA w (s.marked w) [] = { s with a := s.marked w } := by
      simp [Pair.duringA]
    rw [hsame]
    exact h.marked
  obtain ⟨new, hduring⟩ := receiveMessages_rule time
    (P := fun srv => ∃ new, DuringA T w endPointId r earlier s l srv new)
    (Q := fun srv _ => ∃ new, DuringA T w endPointId r earlier s l srv new)
    (C := MayAcknowledge T w endPointId r earlier s time)
    (fun srv srv' ⟨new, h⟩ hlast => ⟨new, duringA_stop h hlast⟩)
    (fun srv p srv' ⟨new, h⟩ hturn hmeets => ⟨_, duringA_turn h hturn hmeets⟩)
    (fun srv p srv' e ⟨new, h⟩ hturn hmeets => ⟨_, duringA_turn h hturn hmeets⟩)
    hallowed ⟨[], hstart⟩
  obtain ⟨l₁, hevolves, hmodels, hmode⟩ := hduring.advances
  refine ⟨_, hevolves.tail (.tick l₁), callA_models rfl hduring.sent ?_
    fun hreset => (isResetting_iff h.sender).mpr (hmode hreset)⟩
  simp only [acceptedBy, List.append_nil]
  exact hmodels

/-! ### A client's turn -/

/-- The client will ask the receiver to start over when its turn comes. -/
def Pair.losesPatience (w : Wiring) (s : Pair) (time : Milliseconds) : Bool :=
  (s.client w).any fun c =>
    !c.reliableMessages.isEmpty && decide (c.reliableState ≠ -1) && c.needsReliableReset time

/-- The only order in which to meet the only client. -/
theorem order_eq {size : Nat} (h : Sender w endPointId r size s.a.protocol l)
    {order : List UdcEndPointId}
    (hadm : (Op.updateClientConnectionStatus time order).Admissible s.a) :
    order = [endPointId] := by
  obtain ⟨hnodup, hkeys⟩ := hadm
  refine List.perm_singleton.mp (List.perm_of_nodup_nodup_toFinset_eq hnodup
    (List.nodup_singleton endPointId) ?_)
  ext i
  rw [hkeys, Finmap.mem_keys, ← Finmap.lookup_isSome,
    show s.a.clientsById.lookup i = _ from h.byId i, List.mem_toFinset, List.mem_singleton]
  split <;> simp_all

theorem updateClientConnectionStatus_single {srv : UdcServerImpl}
    (hlookup : srv.clientsById.lookup endPointId = some r) :
    (UdcServerImpl.updateClientConnectionStatus time [endPointId] srv).1
      = (srv.tickClient r time).1 := by
  unfold UdcServerImpl.updateClientConnectionStatus
  rw [hlookup]
  simp only
  rw [show ((srv.updateReliable r time).updatePing r time).updateLost r time
    = srv.tickClient r time from rfl]
  generalize srv.tickClient r time = t
  obtain ⟨s', _ | event⟩ := t <;> rfl

/-- What its client's turn leaves of A, and the frames there are among what it sends. -/
structure TickedA (w : Wiring) (s : Pair) (r : ClientRef) (time : Milliseconds)
    (srv : UdcServerImpl) (new : List Packet) : Prop where
  client : ∃ c, srv.protocol = s.a.protocol.setClient r c ∧
    c.outgoingAddress = (s.a.heap r).outgoingAddress ∧
    c.reliableState = ((s.a.heap r).sendReliable time).1.reliableState ∧
    c.reliableMessages = (s.a.heap r).reliableMessages
  signature : srv.packetSignature = s.a.packetSignature
  size : srv.messageBufferSize = s.a.messageBufferSize
  inbox : srv.socket.inbox = s.a.socket.inbox
  sent : srv.socket.history.sent = s.a.socket.history.sent ++ new
  marks : ∀ p ∈ new, p.mark = ⟨s.front w, s.clock⟩
  frames : ∀ signature, (new.filter (·.address = w.addressB)).filterMap (frameOf signature)
    = ((s.a.heap r).sendReliable time).2.filterMap fun m =>
        frameOf signature ⟨w.addressB, wire s.a.front m, ⟨s.front w, s.clock⟩⟩

theorem frameOf_pings (s : Pair) (time : Milliseconds) (signature : UdcSignature)
    (c : UdcClient) (address : UdcAddressMux) (mark : Mark) :
    ((c.sendPing time).filterMap fun m =>
      frameOf signature ⟨address, wire s.a.front m, mark⟩) = [] := by
  unfold UdcClient.sendPing
  split
  · rw [List.filterMap_cons, frameOf_other length_front rfl]
    rfl
  · rfl

/-- Everything a client sends in its turn fits. -/
theorem fits_tick {size : Nat} (h : Sender w endPointId r size s.a.protocol l) (hsize : 9 ≤ size) :
    ∀ m ∈ ((s.a.heap r).sendReliable time).2 ++ ((s.a.heap r).sendReliable time).1.sendPing time,
      m.Fits size := by
  intro m hm
  rcases List.mem_append.mp hm with hm | hm
  · rcases mem_sendReliable hm with ⟨-, rfl⟩ | ⟨-, msg, hfront, rfl⟩
    · exact fits_word hsize rfl (length_le32 _)
    · obtain ⟨hlen, hfits⟩ := h.fits msg (List.mem_of_mem_head? hfront)
      exact fits_reliable hlen hfits
  · unfold UdcClient.sendPing at hm
    split at hm
    · rw [List.mem_singleton.mp hm]
      exact fits_word hsize rfl (length_le32 _)
    · cases hm

/-- A client's turn sends its reliable message and a ping, and may find the client lost. -/
theorem tickClient_client (p : Protocol) (r : ClientRef) (time : Milliseconds) :
    (p.tickClient r time).sends = (((p.heap r).sendReliable time).2 ++
        ((p.heap r).sendReliable time).1.sendPing time).map (fun m =>
          ((p.heap r).outgoingAddress, m)) ∧
      ∃ c, (p.tickClient r time).state = p.setClient r c ∧
        c.outgoingAddress = (p.heap r).outgoingAddress ∧
        c.reliableState = ((p.heap r).sendReliable time).1.reliableState ∧
        c.reliableMessages = (p.heap r).reliableMessages := by
  have houtgoing := sendReliable_outgoingAddress time (p.heap r)
  simp only [Protocol.tickClient, houtgoing]
  by_cases hlost : ((p.heap r).sendReliable time).1.needsConnectionLostEvent time
  · simp only [if_pos hlost]
    exact ⟨trivial, _, rfl, houtgoing, rfl, queue_sendReliable⟩
  · simp only [if_neg hlost]
    exact ⟨trivial, _, rfl, houtgoing, rfl, queue_sendReliable⟩

theorem tickedA (time : Milliseconds)
    (h : Sender w endPointId r s.a.messageBufferSize s.a.protocol l) :
    ∃ srv new, (step (s.marked w) (.updateClientConnectionStatus time [endPointId])).1 = srv ∧
      TickedA w s r time srv new := by
  have hlookup : (s.marked w).clientsById.lookup endPointId = some r := by
    have := h.byId endPointId
    rw [if_pos rfl] at this
    exact this
  have hperf := tickClient_performs (s := s.marked w) time r
  obtain ⟨hsends, hclient⟩ := tickClient_client (s.marked w).protocol r time
  rw [show ((s.marked w).protocol.heap r).outgoingAddress = w.addressB from h.outgoing]
    at hsends
  obtain ⟨new, hsocket, hnew⟩ := hperf.socket
  have hpackets := hnew fun x hx => by
    rw [hsends] at hx
    obtain ⟨m, hm, rfl⟩ := List.mem_map.mp hx
    exact fits_tick h s.a.messageBuffer.nine_le_size m hm
  rw [hsends] at hpackets
  refine ⟨_, new, updateClientConnectionStatus_single hlookup, ?_, hperf.signature, hperf.size,
    ?_, ?_, fun p hp => ?_, fun signature => ?_⟩
  · rw [hperf.state]
    exact hclient
  · rw [hsocket]
    rfl
  · rw [hsocket]
    rfl
  · rw [hpackets, List.map_map] at hp
    obtain ⟨m, -, rfl⟩ := List.mem_map.mp hp
    rfl
  · have hall : new.filter (·.address = w.addressB) = new := by
      refine List.filter_eq_self.mpr fun p hp => ?_
      rw [hpackets] at hp
      simp only [List.mem_map] at hp
      obtain ⟨x, ⟨m, -, rfl⟩, rfl⟩ := hp
      exact decide_eq_true rfl
    rw [hall, hpackets, List.map_map, List.filterMap_map, List.filterMap_append]
    exact (congrArg _ (frameOf_pings s time signature _ w.addressB
      ⟨s.front w, s.clock⟩)).trans (List.append_nil _)

/-- The number of the message in front, among those accepted. -/
theorem number_of_head {accepted : List (List UInt8)} {front : List Numbered}
    {queue : List Numbered} (h : front ++ queue = accepted.zipIdx) {m : Numbered}
    (hhead : queue.head? = some m) : m.2 = accepted.length - queue.length := by
  obtain ⟨rest, rfl⟩ := List.head?_eq_some_iff.mp hhead
  have hlength := congrArg List.length h
  have hget := congrArg (fun xs => xs[front.length]?) h
  simp only [List.length_append, List.length_cons, List.length_zipIdx] at hlength
  simp only [List.getElem?_append_right, Nat.le_refl, Nat.sub_self, List.getElem?_cons_zero,
    List.getElem?_zipIdx] at hget
  obtain ⟨data, -, hm⟩ := Option.map_eq_some_iff.mp hget.symm
  rw [← hm, List.length_cons]
  show 0 + front.length = _
  omega

/-- The message in front has the number that A's packets are marked with. -/
theorem front_numbered (h : Models w endPointId r earlier s l) {m : Numbered}
    (hfront : l.queue.head? = some m) : m.2 = s.front w := by
  rw [front_eq h.sender]
  exact number_of_head h.numbered hfront

/-- A reliable message that A sends reads as the frame it is, or as nothing. -/
theorem frames_sublist (signature : UdcSignature) (address : UdcAddressMux) (mark : Mark)
    {front : List UInt8} (hfront : front.length = 4) (kind : Kind) (timeStamp : Nat)
    {data : List UInt8} (hlen : data.length < 2 ^ 32) (hreset : kind = .reset → data = []) :
    (([.reliable kind timeStamp data] : List Message).filterMap fun m =>
      frameOf signature ⟨address, wire front m, mark⟩).Sublist
        [mark.frame kind data] := by
  rcases frameOf_wire signature address mark hfront kind timeStamp hlen hreset with hframe | hframe
  · rw [List.filterMap_cons, hframe]
    exact List.nil_sublist _
  · rw [List.filterMap_cons, hframe]
    exact List.Sublist.refl _

/-- A frame is put on the link, and the channel may drop it at once. -/
theorem evolves_emit {kind : Kind} {mark : Mark} {data : List UInt8} (hmode : l.mode = kind)
    (hclock : l.clock = mark.stamp) (hnumber : l.number = mark.message)
    (hstep : Step T l (l.emit (data, mark.message))) {frames : List (Frame Numbered)}
    (hframes : frames.Sublist [mark.frame kind data]) :
    Evolves T l { l with data := l.data ++ frames, clock := l.clock + 1 } := by
  have hnew : (⟨⟨l.mode, l.clock, l.number⟩, (data, mark.message)⟩ : Frame Numbered)
      = mark.frame kind data := by
    rw [hmode, hclock, hnumber]
    rfl
  rw [← hnew] at hframes
  exact .tail (.single hstep) (.channel (l.emit _)
    (T.channel.sublist (List.Sublist.append_left hframes l.data)) (T.channel.refl _))

/-- A after its client's turn. -/
theorem ticked_models (mode : Kind) (data : List (Frame Numbered))
    (h : Models w endPointId r earlier s l) (ht : TickedA w s r time srv new)
    (hmode : ((s.a.heap r).sendReliable time).1.reliableState = stateOf mode)
    (hdata : data = l.data ++ ((s.a.heap r).sendReliable time).2.filterMap fun m =>
      frameOf s.b.packetSignature ⟨w.addressB, wire s.a.front m, ⟨s.front w, s.clock⟩⟩) :
    Models w endPointId r earlier
      { s.duringA w srv new with
        accepted := s.accepted ++
          acceptedBy (s.marked w) (.updateClientConnectionStatus time [endPointId]) }
      { l with mode := mode, data := data } := by
  obtain ⟨c, hprotocol, houtgoing, hstate, hqueue⟩ := ht.client
  refine ⟨?_, h.expected, ⟨?_, ?_⟩, h.listensB, ?_, ?_, ?_, h.reported, h.heard, h.base, h.clock,
    h.since⟩
  · show Sender w endPointId r srv.messageBufferSize srv.protocol _
    rw [hprotocol, ht.size]
    refine h.sender.setClient (houtgoing.trans h.sender.outgoing) (hstate.trans hmode)
      (hqueue.trans h.sender.queue) ?_
    rw [hqueue]
    exact h.sender.fits
  · show ∀ name', _ → srv.socket.inbox name' = []
    rw [ht.inbox]
    exact h.listensA.quiet
  · show ∀ p ∈ srv.socket.inbox _, _
    rw [ht.inbox]
    exact h.listensA.source
  · show data = _
    rw [hdata, h.data, ← ht.frames, ← List.filterMap_append, List.append_assoc]
    rfl
  · show l.acks = (srv.socket.inbox _ ++ s.toA).filterMap (ackOf srv.packetSignature)
    rw [ht.inbox, ht.signature]
    exact h.acks
  · simp only [acceptedBy, List.append_nil]
    exact h.numbered

/-- **A tick is the sender's turn**, in which it sends its front, or a reset, or times out. -/
theorem tickA_simulates (h : Models w endPointId r earlier s l)
    (hpatient : T.timeout ∨ s.losesPatience w time = false) :
    Simulates T w endPointId r earlier l
      (s.step w (.callA (.updateClientConnectionStatus time [endPointId]))) := by
  obtain ⟨srv, new, hsrv, ht⟩ := tickedA time h.sender
  have hmodels := fun mode data => ticked_models mode data h ht
  have hsends := sendReliable_sends (s.a.heap r) time
  have hstate : (s.a.heap r).reliableState = stateOf l.mode := h.sender.mode
  have hqueue : (s.a.heap r).reliableMessages = l.queue.map Prod.fst := h.sender.queue
  have hresets : l.mode = .reset → s.isResetting w = true := (isResetting_iff h.sender).mpr
  generalize (s.a.heap r).sendReliable time = t at hmodels hsends
  obtain ⟨c, sends⟩ := t
  cases hsends with
  | idle =>
      exact ⟨_, .single (.tick l), callA_models hsrv ht.sent
        (hmodels l.mode l.data hstate (List.append_nil _).symm) hresets⟩
  | @reset msg hfront hreset =>
      have hmode : l.mode = .reset := by
        rw [hreset] at hstate
        exact (stateOf_injective (k := .reset) hstate).symm
      have hframes := frames_sublist s.b.packetSignature w.addressB ⟨s.front w, s.clock⟩
        (length_front (s := s.a)) .reset (u32 time) (by decide : ([] : List UInt8).length < 2 ^ 32)
        fun _ => rfl
      exact ⟨_, evolves_emit hmode h.clock (number_eq h) (.emitReset l hmode _) hframes,
        callA_models hsrv ht.sent (hmodels l.mode _ hstate rfl) hresets⟩
  | @timeout msg hfront hbit hneeds =>
      have hloses : s.losesPatience w time = true := by
        rw [Pair.losesPatience, client_eq h.sender, Option.any_some]
        have hne : (s.a.heap r).reliableMessages ≠ [] :=
          List.ne_nil_of_mem (List.mem_of_mem_head? hfront)
        simp [hbit, hneeds, hne]
      have hallowed : T.timeout := hpatient.resolve_right fun h => by
        rw [hloses] at h
        cases h
      have hnot : s.isResetting w = false := by
        rw [Bool.eq_false_iff]
        intro hc
        rw [(isResetting_iff h.sender).mp hc] at hstate
        exact hbit hstate
      exact ⟨_, .single (.timeout l hallowed), callA_timeout hsrv ht.sent
        (hmodels .reset l.data rfl (List.append_nil _).symm) hnot⟩
  | @data msg hfront hbit =>
      obtain ⟨b, hmode⟩ : ∃ b, l.mode = .bit b := by
        cases hm : l.mode with
        | reset =>
            rw [hm] at hstate
            exact absurd hstate hbit
        | bit b => exact ⟨b, rfl⟩
      have hkind : l.mode = .bit (decide ((s.a.heap r).reliableState ≠ 0)) := by
        rw [hstate, hmode]
        cases b <;> rfl
      rw [hqueue, List.head?_map] at hfront
      obtain ⟨⟨msg, i⟩, hm, rfl⟩ := Option.map_eq_some_iff.mp hfront
      obtain rfl : i = s.front w := front_numbered h hm
      have hframes := frames_sublist s.b.packetSignature w.addressB ⟨s.front w, s.clock⟩
        (length_front (s := s.a)) (.bit (decide ((s.a.heap r).reliableState ≠ 0))) (u32 time)
        (h.sender.fits msg (hqueue ▸ List.mem_map_of_mem (List.mem_of_mem_head? hm))).1 nofun
      exact ⟨_, evolves_emit hkind h.clock (number_eq h) (.emitData l hmode hm) hframes,
        callA_models hsrv ht.sent
          (hmodels l.mode _ ((setSendReliable_same _ time).1.trans hstate) rfl) hresets⟩

/-! ### Calls that send no frame -/

/-- A call that touches the queue only, and sends nothing that reads as a frame. -/
theorem callA_quiet (h : Models w endPointId r earlier s l) (op : Op) {reaction : Reaction}
    (hperf : Performs (s.marked w) (step (s.marked w) op).1 event reaction)
    (hsends : ∀ x ∈ reaction.sends, x.2.Fits s.a.messageBufferSize ∧ x.2.dataKind = none)
    (queue : List Numbered)
    (hsender : Sender w endPointId r s.a.messageBufferSize reaction.state { l with queue := queue })
    (hnumbered : earlier ++ l.popped ++ queue
      = (s.accepted ++ acceptedBy (s.marked w) op).zipIdx) :
    Models w endPointId r earlier (s.callA w op)
      { l with queue := queue, clock := l.clock + 1 } := by
  obtain ⟨new, hsocket, hnew⟩ := hperf.socket
  have hpackets := hnew fun x hx => (hsends x hx).1
  have hframes : (new.filter (·.address = w.addressB)).filterMap (frameOf s.b.packetSignature)
      = [] := by
    refine List.filterMap_eq_nil_iff.mpr fun p hp => ?_
    rw [hpackets] at hp
    obtain ⟨x, hx, rfl⟩ := List.mem_map.mp (List.mem_filter.mp hp).1
    exact frameOf_other length_front (hsends x hx).2
  suffices h' : Models w endPointId r earlier
      { s.duringA w _ new with accepted := s.accepted ++ acceptedBy (s.marked w) op }
      { l with queue := queue } from
    callA_models rfl (by rw [hsocket]; rfl) h' (isResetting_iff h.sender).mpr
  refine ⟨?_, h.expected, ⟨?_, ?_⟩, h.listensB, ?_, ?_, hnumbered, h.reported, h.heard, h.base,
    h.clock, h.since⟩
  · show Sender w endPointId r (step (s.marked w) op).1.messageBufferSize
      (step (s.marked w) op).1.protocol _
    rw [hperf.size, hperf.state]
    exact hsender
  · show ∀ name', _ → (step (s.marked w) op).1.socket.inbox name' = []
    rw [hsocket]
    exact h.listensA.quiet
  · show ∀ p ∈ (step (s.marked w) op).1.socket.inbox _, _
    rw [hsocket]
    exact h.listensA.source
  · show l.data = (s.b.socket.inbox _ ++ (s.toB ++ _)).filterMap (frameOf s.b.packetSignature)
    rw [← List.append_assoc, List.filterMap_append, hframes, List.append_nil]
    exact h.data
  · show l.acks = ((step (s.marked w) op).1.socket.inbox _ ++ s.toA).filterMap
      (ackOf (step (s.marked w) op).1.packetSignature)
    rw [hperf.signature, hsocket]
    exact h.acks

theorem Sender.push {size : Nat} {p : Protocol} (h : Sender w endPointId r size p l)
    {data : List UInt8} (hlen : data.length < 2 ^ 32)
    (hfits : u32 (9 + data.length : Nat) ≤ size) (i : Nat) :
    Sender w endPointId r size (p.push endPointId data)
      { l with queue := l.queue ++ [(data, i)] } := by
  unfold Protocol.push
  rw [h.byId, if_pos rfl]
  refine h.setClient h.outgoing h.mode ?_ fun x hx => ?_
  · show (p.heap r).reliableMessages ++ [data] = _
    rw [h.queue, List.map_append]
    rfl
  · rcases List.mem_append.mp hx with hx | hx
    · exact h.fits x hx
    · rw [List.mem_singleton.mp hx]
      exact ⟨hlen, hfits⟩

/-- A reliable message that is accepted joins the sender's queue. -/
theorem sendReliableA_simulates (h : Models w endPointId r earlier s l)
    (target : UdcEndPointId) {data : List UInt8} (hlen : data.length < 2 ^ 32) :
    Simulates T w endPointId r earlier l
      (s.step w (.callA (.sendMessage target data .reliableMessage))) := by
  obtain ⟨state, hperf, hcases⟩ :=
    sendReliableMessage_performs (s := s.marked w) target data
  have hrefused : state = s.a.protocol →
      ((s.marked w).sendReliableMessage target data).2 = false →
      Simulates T w endPointId r earlier l
        (s.step w (.callA (.sendMessage target data .reliableMessage))) := by
    intro hsame hfalse
    refine ⟨_, .single (.tick l), callA_quiet h (.sendMessage target data .reliableMessage) hperf
      (fun x hx => nomatch hx) l.queue ?_ ?_⟩
    · rw [hsame]
      exact h.sender
    · simp only [acceptedBy, hfalse, Bool.false_eq_true, if_false, List.append_nil]
      exact h.numbered
  rcases hcases with ⟨hsame, hfalse⟩ | ⟨hpush, hfits, htrue⟩
  · exact hrefused hsame hfalse
  · have hlookup : (s.marked w).protocol.clientsById.lookup target
        = if target = endPointId then some r else none := h.sender.byId target
    by_cases htarget : target = endPointId
    · subst htarget
      rw [hlookup, if_pos rfl] at htrue
      refine ⟨_, .tail (.single (.push l (data, s.accepted.length))) (.tick _),
        callA_quiet h (.sendMessage target data .reliableMessage) hperf (fun x hx => nomatch hx)
          (l.queue ++ [(data, s.accepted.length)]) ?_ ?_⟩
      · rw [hpush]
        exact h.sender.push hlen hfits _
      · simp only [acceptedBy, htrue.mpr rfl, if_true]
        rw [List.zipIdx_append, ← List.append_assoc, h.numbered]
        simp
    · rw [hlookup, if_neg htarget] at htrue
      refine hrefused ?_ (Bool.eq_false_iff.mpr fun hc => nomatch htrue.mp hc)
      rw [hpush, Protocol.push, hlookup, if_neg htarget]
      rfl

/-- An unreliable message is none of the link's business. -/
theorem sendUnreliableA_simulates (h : Models w endPointId r earlier s l)
    (target : UdcEndPointId) {data : List UInt8} (hlen : data.length < 2 ^ 32) :
    Simulates T w endPointId r earlier l
      (s.step w (.callA (.sendMessage target data .unreliableMessage))) := by
  obtain ⟨reaction, hperf, hcases⟩ :=
    sendUnreliableMessage_performs (s := s.marked w) target hlen
  refine ⟨_, .single (.tick l), callA_quiet h (.sendMessage target data .unreliableMessage) hperf
    (fun x hx => ?_) l.queue ?_ ?_⟩
  · rcases hcases with rfl | ⟨rfl, hfits⟩
    · cases hx
    · rw [(say_sends hx).1]
      exact ⟨hfits, rfl⟩
  · have hstate : reaction.state = s.a.protocol := by
      rcases hcases with rfl | ⟨rfl, -⟩
      · rfl
      · unfold Protocol.say
        split
        · rfl
        · split <;> rfl
    rw [hstate]
    exact h.sender
  · simp only [acceptedBy, List.append_nil]
    exact h.numbered

/-- There is no connection attempt to go on with. -/
theorem pollA_simulates (h : Models w endPointId r earlier s l) :
    Simulates T w endPointId r earlier l (s.step w (.callA (.updatePendingClients time))) := by
  have hperf := updatePendingClients_performs (s := s.marked w) time
  have hidle : (s.marked w).protocol.poll time = (s.marked w).protocol.idle := by
    unfold Protocol.poll
    rw [show (s.marked w).protocol.pendingClients = [] from h.sender.pending]
    rfl
  rw [hidle] at hperf
  refine ⟨_, .single (.tick l), callA_quiet h (.updatePendingClients time) hperf
    (fun x hx => nomatch hx) l.queue h.sender ?_⟩
  simp only [acceptedBy, List.append_nil]
  exact h.numbered

end Turns

end UdpConnect
