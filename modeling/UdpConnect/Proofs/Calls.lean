/-
One client object, from call to call.

Two kinds of call matter to a client that exists: the tick in which it has a turn
(`Op.Visits`), and the call of `receiveMessages` that handles a datagram which refreshes
it (`Op.Refreshes`).  `turned_step`, `refreshed_step` and `rests_step` say what the one,
the other and all remaining calls make of the client.
-/
import UdpConnect.Proofs.Clients

namespace UdpConnect

open Memory

namespace UdcServerImpl

/-- The turns of a tick: the server as each begins, and the client whose turn it is. -/
def visits (time : Milliseconds) : List UdcEndPointId → UdcServerImpl →
    List (UdcServerImpl × ClientRef)
  | [], _ => []
  | id :: order, s =>
      match s.clientsById.lookup id with
      | none => visits time order s
      | some client =>
          (s, client) ::
            match s.tickClient client time with
            | (_, some _) => []
            | (s, none) => visits time order s

/-- What a client's turn hands to the socket: its reliable datagram, and its ping. -/
def probes (s : UdcServerImpl) (client : ClientRef) (time : Milliseconds) : List Packet :=
  ((s.updateReliable client time).updatePing client time).socket.history.sent.drop
    s.socket.history.sent.length

end UdcServerImpl

/-- The messages that a call handles, with the time it is told. -/
def Op.handles (s : UdcServerImpl) : Op → List (Milliseconds × Handling)
  | .receiveMessages time => (s.handled time).map fun x => (time, x)
  | _ => []

/-- The call handles a message that refreshes the client. -/
def Op.Refreshes (r : ClientRef) (s : UdcServerImpl) (op : Op) : Prop :=
  ∃ x ∈ op.handles s, UdpConnect.Refreshes x.1 x.2 r

/-- The call is a tick in which the client has a turn. -/
def Op.Visits (r : ClientRef) (s : UdcServerImpl) : Op → Prop
  | .updateClientConnectionStatus time order =>
      ∃ t, (t, r) ∈ UdcServerImpl.visits time order s
  | _ => False

/-- The call is a tick in which the client has a turn, and is sent something in it. -/
def Op.Probes (r : ClientRef) (s : UdcServerImpl) : Op → Prop
  | .updateClientConnectionStatus time order =>
      ∃ t, (t, r) ∈ UdcServerImpl.visits time order s ∧
        ∃ packet ∈ t.probes r time, packet.address = (t.heap r).outgoingAddress
  | _ => False

section Turns

variable {s : UdcServerImpl} {r : ClientRef} {time : Milliseconds}

/-- What one part of a turn hands to the socket. -/
structure Hands (s s' : UdcServerImpl) (address : UdcAddressMux) (something : Prop) : Prop where
  sent : ∃ new, s'.socket.history.sent = s.socket.history.sent ++ new ∧
    (∀ packet ∈ new, packet.address = address) ∧ (new = [] ↔ ¬ something)

theorem hands_nothing {s' : UdcServerImpl} {address : UdcAddressMux} {something : Prop}
    (hsent : s'.socket.history.sent = s.socket.history.sent) (hnot : ¬ something) :
    Hands s s' address something := by
  refine ⟨[], ?_, ?_, ?_⟩
  · rw [hsent, List.append_nil]
  · intro packet hpacket
    cases hpacket
  · exact iff_of_true rfl hnot

theorem hands_send {s' : UdcServerImpl} {address : UdcAddressMux} {something : Prop}
    {data : List UInt8} {size : Nat}
    (hsent : s'.socket.history.sent = (s.socket.send address data size).history.sent)
    (hsome : something) : Hands s s' address something := by
  refine ⟨[⟨address, data.take size, s.socket.history.mark⟩], hsent, ?_, ?_⟩
  · intro packet hpacket
    rw [List.mem_singleton.mp hpacket]
  · exact iff_of_false (List.cons_ne_nil _ _) (not_not.mpr hsome)

theorem updateReliable_hands (s : UdcServerImpl) (r : ClientRef) (time : Milliseconds) :
    Hands s (s.updateReliable r time) (s.heap r).outgoingAddress
      (((s.heap r).sendReliable time).2 ≠ []) := by
  unfold UdcServerImpl.updateReliable UdcClient.sendReliable
  cases hqueue : (s.heap r).reliableMessages with
  | nil =>
      simp only [hqueue]
      exact hands_nothing rfl (not_not.mpr rfl)
  | cons msg rest =>
      by_cases hreset : (s.heap r).reliableState = -1
      · simp only [hqueue, if_pos hreset]
        exact hands_send rfl (List.cons_ne_nil _ _)
      · by_cases hneeds : (s.heap r).needsReliableReset time
        · simp only [hqueue, if_neg hreset, if_pos hneeds]
          exact hands_nothing rfl (not_not.mpr rfl)
        · simp only [hqueue, if_neg hreset, if_neg hneeds]
          exact hands_send rfl (List.cons_ne_nil _ _)

theorem updatePing_hands (s : UdcServerImpl) (r : ClientRef) (time : Milliseconds) :
    Hands s (s.updatePing r time) (s.heap r).outgoingAddress
      ((s.heap r).needsPing time = true) := by
  unfold UdcServerImpl.updatePing
  by_cases hneeds : (s.heap r).needsPing time
  · simp only [if_pos hneeds]
    exact hands_send rfl hneeds
  · simp only [if_neg hneeds]
    exact hands_nothing rfl hneeds

theorem needsPing_sendReliable (c : UdcClient) (time : Milliseconds) :
    (c.sendReliable time).1.needsPing time = c.needsPing time := by
  obtain ⟨state, sent, h⟩ := sendReliable_only c time
  rw [h]
  rfl

/-- A turn sends the client something exactly if its ping or its reliable message is due. -/
theorem probes_iff : (∃ packet ∈ s.probes r time, packet.address = (s.heap r).outgoingAddress) ↔
    (s.heap r).needsPing time = true ∨ ((s.heap r).sendReliable time).2 ≠ [] := by
  obtain ⟨new, hsent, haddress, hnew⟩ := (updateReliable_hands s r time).sent
  obtain ⟨new', hsent', haddress', hnew'⟩ :=
    (updatePing_hands (s.updateReliable r time) r time).sent
  have hheap : (s.updateReliable r time).heap r = ((s.heap r).sendReliable time).1 := by
    have hstate := (updateReliable_performs (s := s) time r).state
    have hheap : (s.updateReliable r time).protocol.heap r
        = (s.protocol.setClient r ((s.heap r).sendReliable time).1).heap r := by rw [hstate]
    rw [Protocol.heap_setClient_self] at hheap
    exact hheap
  rw [hheap, needsPing_sendReliable] at hnew'
  rw [hheap, sendReliable_outgoingAddress] at haddress'
  have hprobes : s.probes r time = new ++ new' := by
    rw [UdcServerImpl.probes, hsent', hsent, List.append_assoc, List.drop_left]
  rw [hprobes]
  constructor
  · rintro ⟨packet, hpacket, -⟩
    rcases List.mem_append.mp hpacket with hmem | hmem
    · exact Or.inr fun hnone => List.ne_nil_of_mem hmem (hnew.mpr (not_not.mpr hnone))
    · exact Or.inl (not_not.mp fun hnot => List.ne_nil_of_mem hmem (hnew'.mpr hnot))
  · intro hdue
    have hsome : new ++ new' ≠ [] := by
      intro hnone
      obtain ⟨hnil, hnil'⟩ := List.append_eq_nil_iff.mp hnone
      rcases hdue with hping | hreliable
      · exact hnew'.mp hnil' hping
      · exact hnew.mp hnil hreliable
    obtain ⟨packet, hpacket⟩ := List.exists_mem_of_ne_nil _ hsome
    refine ⟨packet, hpacket, ?_⟩
    rcases List.mem_append.mp hpacket with hmem | hmem
    · exact haddress packet hmem
    · exact haddress' packet hmem

/-! ### Ticks -/

theorem eq_of_report {b : MessageBuffer} {e : UdcEvent} {eventType : UdcEventType}
    {id : UdcEndPointId} (h : e.report b = .connection eventType id) :
    e.eventType = eventType ∧ e.endPointId = id := by
  unfold UdcEvent.report udcGetResultConnectionEvent at h
  split at h
  · rename_i endPointId hresult
    split at hresult
    · cases hresult
    · obtain ⟨rfl, rfl⟩ := Report.connection.inj h
      exact ⟨rfl, Option.some.inj hresult⟩
  · cases h

/-- A turn that throws an event reports its client lost. -/
theorem tickClient_event {e : UdcEvent} (h : (s.tickClient r time).2 = some e) :
    e.eventType = .connectionLost ∧ e.endPointId = (s.heap r).id ∧
      ((s.heap r).sendReliable time).1.needsConnectionLostEvent time = true := by
  have hreport := (tickClient_performs (s := s) time r).report
  rw [h, Option.map_some] at hreport
  unfold Protocol.tickClient at hreport
  simp only at hreport
  split at hreport
  · rename_i hlost
    obtain ⟨htype, hid⟩ := eq_of_report (Option.some.inj hreport)
    refine ⟨htype, hid.trans ?_, hlost⟩
    exact congrArg Settings.id (settings_sendReliable (s.heap r) time)
  · cases hreport

/-- What a tick is to the clients: each has its turn with what it was before the tick. -/
structure Ticked (time : Milliseconds) (order : List UdcEndPointId) (s : UdcServerImpl) :
    Prop where
  found : ∀ x ∈ UdcServerImpl.visits time order s, x.1.heap x.2 = s.heap x.2 ∧
    ∃ id ∈ order, s.clientsById.lookup id = some x.2
  turned : ∀ r, (∃ t, (t, r) ∈ UdcServerImpl.visits time order s) →
    (UdcServerImpl.updateClientConnectionStatus time order s).1.heap r = (s.heap r).turned time
  passed : ∀ r, (¬ ∃ t, (t, r) ∈ UdcServerImpl.visits time order s) →
    (UdcServerImpl.updateClientConnectionStatus time order s).1.heap r = s.heap r
  lost : ∀ e, (UdcServerImpl.updateClientConnectionStatus time order s).2 = some e →
    e.eventType = .connectionLost ∧
      ∃ r, s.clientsById.lookup e.endPointId = some r ∧
        (∃ t, (t, r) ∈ UdcServerImpl.visits time order s) ∧
        ((s.heap r).sendReliable time).1.needsConnectionLostEvent time = true

section Order

variable {id : UdcEndPointId} {order : List UdcEndPointId}

theorem order_skip (time : Milliseconds) (order : List UdcEndPointId)
    (hlookup : s.clientsById.lookup id = none) :
    UdcServerImpl.visits time (id :: order) s = UdcServerImpl.visits time order s ∧
      UdcServerImpl.updateClientConnectionStatus time (id :: order) s
        = UdcServerImpl.updateClientConnectionStatus time order s := by
  rw [UdcServerImpl.visits, UdcServerImpl.updateClientConnectionStatus, hlookup]
  exact ⟨rfl, rfl⟩

/-- A client that is found takes its turn, and the rest of the order follows if it is quiet. -/
theorem order_turn (time : Milliseconds) (order : List UdcEndPointId)
    (hlookup : s.clientsById.lookup id = some r) :
    (UdcServerImpl.visits time (id :: order) s = (s, r) ::
        match s.tickClient r time with
        | (_, some _) => []
        | (s, none) => UdcServerImpl.visits time order s) ∧
      UdcServerImpl.updateClientConnectionStatus time (id :: order) s =
        match s.tickClient r time with
        | (s, some event) => (s, some event)
        | (s, none) => UdcServerImpl.updateClientConnectionStatus time order s := by
  rw [UdcServerImpl.visits, UdcServerImpl.updateClientConnectionStatus, hlookup]
  exact ⟨rfl, rfl⟩

theorem order_event (order : List UdcEndPointId) (hlookup : s.clientsById.lookup id = some r)
    {e : UdcEvent} (hevent : (s.tickClient r time).2 = some e) :
    UdcServerImpl.visits time (id :: order) s = [(s, r)] ∧
      UdcServerImpl.updateClientConnectionStatus time (id :: order) s
        = ((s.tickClient r time).1, some e) := by
  obtain ⟨hvisits, hcall⟩ := order_turn time order hlookup
  rw [hvisits, hcall, show s.tickClient r time = ((s.tickClient r time).1, some e) by rw [← hevent]]
  exact ⟨rfl, rfl⟩

theorem order_quiet (order : List UdcEndPointId) (hlookup : s.clientsById.lookup id = some r)
    (hevent : (s.tickClient r time).2 = none) :
    UdcServerImpl.visits time (id :: order) s
        = (s, r) :: UdcServerImpl.visits time order (s.tickClient r time).1 ∧
      UdcServerImpl.updateClientConnectionStatus time (id :: order) s
        = UdcServerImpl.updateClientConnectionStatus time order (s.tickClient r time).1 := by
  obtain ⟨hvisits, hcall⟩ := order_turn time order hlookup
  rw [hvisits, hcall, show s.tickClient r time = ((s.tickClient r time).1, none) by rw [← hevent]]
  exact ⟨rfl, rfl⟩

theorem protocol_tickClient : (s.tickClient r time).1.protocol
    = s.protocol.setClient r ((s.heap r).turned time) := by
  rw [(tickClient_performs (s := s) time r).state, tickClient_state]
  rfl

theorem heap_tickClient (r' : ClientRef) : (s.tickClient r time).1.heap r'
    = if r' = r then (s.heap r).turned time else s.heap r' := by
  rw [show (s.tickClient r time).1.heap r' = (s.tickClient r time).1.protocol.heap r' from rfl,
    protocol_tickClient, heap_setClient]
  rfl

theorem ticked_skip (hlookup : s.clientsById.lookup id = none) (hrest : Ticked time order s) :
    Ticked time (id :: order) s := by
  obtain ⟨hvisits, hcall⟩ := order_skip time order hlookup
  refine ⟨?_, ?_, ?_, ?_⟩
  · rw [hvisits]
    intro x hx
    obtain ⟨hheap, id', hid', hfound⟩ := hrest.found x hx
    exact ⟨hheap, id', List.mem_cons_of_mem _ hid', hfound⟩
  · rw [hvisits, hcall]
    exact hrest.turned
  · rw [hvisits, hcall]
    exact hrest.passed
  · rw [hvisits, hcall]
    exact hrest.lost

theorem ticked_event (hlookup : s.clientsById.lookup id = some r) (hself : (s.heap r).id = id)
    {e : UdcEvent} (hevent : (s.tickClient r time).2 = some e) :
    Ticked time (id :: order) s := by
  obtain ⟨hvisits, hcall⟩ := order_event order hlookup hevent
  refine ⟨?_, ?_, ?_, ?_⟩
  · rw [hvisits]
    intro x hx
    rw [List.mem_singleton.mp hx]
    exact ⟨rfl, id, List.mem_cons_self, hlookup⟩
  · rw [hvisits, hcall]
    rintro r' ⟨t, ht⟩
    obtain ⟨-, rfl⟩ := Prod.mk.inj (List.mem_singleton.mp ht)
    rw [heap_tickClient, if_pos rfl]
  · rw [hvisits, hcall]
    intro r' hr'
    have hne : r' ≠ r := by
      rintro rfl
      exact hr' ⟨s, List.mem_cons_self⟩
    rw [heap_tickClient, if_neg hne]
  · rw [hvisits, hcall]
    intro e' he'
    obtain rfl := Option.some.inj he'
    obtain ⟨htype, hid, hlost⟩ := tickClient_event hevent
    rw [← hself, ← hid] at hlookup
    exact ⟨htype, r, hlookup, ⟨s, List.mem_cons_self⟩, hlost⟩

/-- The turns that follow are those of other clients, which this turn leaves alone. -/
theorem ticked_quiet (hlookup : s.clientsById.lookup id = some r)
    (hother : ∀ id' ∈ order, s.clientsById.lookup id' ≠ some r)
    (hevent : (s.tickClient r time).2 = none) (hrest : Ticked time order (s.tickClient r time).1) :
    Ticked time (id :: order) s := by
  obtain ⟨hvisits, hcall⟩ := order_quiet order hlookup hevent
  have hbyId : (s.tickClient r time).1.clientsById = s.clientsById :=
    congrArg Protocol.clientsById protocol_tickClient
  have hlater : ∀ x ∈ UdcServerImpl.visits time order (s.tickClient r time).1, x.2 ≠ r := by
    intro x hx heq
    obtain ⟨-, id', hid', hfound⟩ := hrest.found x hx
    rw [hbyId, heq] at hfound
    exact hother id' hid' hfound
  have hkept : ∀ r', r' ≠ r → (s.tickClient r time).1.heap r' = s.heap r' := by
    intro r' hr'
    rw [heap_tickClient, if_neg hr']
  refine ⟨?_, ?_, ?_, ?_⟩
  · rw [hvisits]
    intro x hx
    rcases List.mem_cons.mp hx with rfl | hx
    · exact ⟨rfl, id, List.mem_cons_self, hlookup⟩
    · obtain ⟨hheap, id', hid', hfound⟩ := hrest.found x hx
      rw [hbyId] at hfound
      rw [hkept x.2 (hlater x hx)] at hheap
      exact ⟨hheap, id', List.mem_cons_of_mem _ hid', hfound⟩
  · rw [hvisits, hcall]
    rintro r' ⟨t, ht⟩
    rcases List.mem_cons.mp ht with heq | ht
    · obtain ⟨-, rfl⟩ := Prod.mk.inj heq
      have hpassed : ¬ ∃ t, (t, r') ∈
          UdcServerImpl.visits time order (s.tickClient r' time).1 := by
        rintro ⟨t, ht⟩
        exact hlater _ ht rfl
      rw [hrest.passed r' hpassed, heap_tickClient, if_pos rfl]
    · rw [hrest.turned r' ⟨t, ht⟩, hkept r' (hlater _ ht)]
  · rw [hvisits, hcall]
    intro r' hr'
    have hne : r' ≠ r := by
      rintro rfl
      exact hr' ⟨s, List.mem_cons_self⟩
    have hpassed : ¬ ∃ t, (t, r') ∈ UdcServerImpl.visits time order (s.tickClient r time).1 := by
      rintro ⟨t, ht⟩
      exact hr' ⟨t, List.mem_cons_of_mem _ ht⟩
    rw [hrest.passed r' hpassed, hkept r' hne]
  · rw [hvisits, hcall]
    intro e he
    obtain ⟨htype, r', hfound, ⟨t, ht⟩, hlost⟩ := hrest.lost e he
    rw [hbyId] at hfound
    rw [hkept r' (hlater _ ht)] at hlost
    exact ⟨htype, r', hfound, ⟨t, List.mem_cons_of_mem _ ht⟩, hlost⟩

end Order

/-- **A tick gives each client its turn, with what it was before the tick.** -/
theorem ticked (order : List UdcEndPointId) :
    ∀ s : UdcServerImpl, Rooted s.protocol → order.Nodup → Ticked time order s := by
  induction order with
  | nil =>
      intro s _ _
      refine ⟨?_, ?_, ?_, ?_⟩
      · intro x hx
        cases hx
      · rintro r ⟨t, ht⟩
        cases ht
      · intro r _
        rfl
      · intro e he
        cases he
  | cons id order ih =>
      intro s hroot hnodup
      obtain ⟨hnot, hnodup⟩ := List.nodup_cons.mp hnodup
      cases hlookup : s.clientsById.lookup id with
      | none => exact ticked_skip hlookup (ih s hroot hnodup)
      | some r =>
          have hself : (s.heap r).id = id := (hroot.byId id r hlookup).2
          cases hevent : (s.tickClient r time).2 with
          | some e => exact ticked_event hlookup hself hevent
          | none =>
              refine ticked_quiet hlookup ?_ hevent (ih _ ?_ hnodup)
              · -- the ids still to come belong to other clients
                intro id' hid' hr
                have hself' : (s.heap r).id = id' := (hroot.byId id' r hr).2
                rw [← hself', hself] at hid'
                exact hnot hid'
              · rw [protocol_tickClient]
                exact rooted_setClient hroot (congrArg Settings.id (settings_turned _ _))

/-! ### Receiving -/

/-- What some turn brings about, and every turn keeps, holds when the loop is left. -/
theorem receiveLoop_reaches {P : UdcServerImpl → Prop} {R : Reception → Prop}
    (hmeet : ∀ s packet s' event m, Turn time s packet s' event →
      decode s.packetSignature.bytes packet.bytes = some m →
        R ⟨⟨s.protocol, packet.address, m⟩, packet.mark,
          s.socket.history.received ++ [packet]⟩ → P s')
    (hkeep : ∀ s packet s' event, P s → Turn time s packet s' event → P s')
    (hstop : ∀ s s', P s → LastTurn s s' → P s') (fuel : Nat) :
    ∀ s n, s.socket.backlog < fuel → Capacity s.messageBuffer n →
      (P s ∨ ∃ x ∈ UdcServerImpl.receptionsLoop time fuel s n, R x) →
        P (UdcServerImpl.receiveLoop time fuel s n).1 := by
  induction fuel with
  | zero =>
      intro s n hfuel
      exact absurd hfuel (Nat.not_lt_zero _)
  | succ fuel ih =>
      intro s n hfuel hcap h
      unfold UdcServerImpl.receiveLoop
      unfold UdcServerImpl.receptionsLoop at h
      cases hr : (s.receive n).2.1 with
      | none =>
          rw [receive_none hr] at h ⊢
          rcases h with hP | ⟨x, hx, -⟩
          · exact hstop s _ hP (lastTurn_of_receive hcap hr)
          · cases hx
      | some address =>
          obtain ⟨packet, hp, hturn, hcap'⟩ := turn_of_receive time hcap hr
          have hless := hturn.backlog
          rw [receive_some hr] at h ⊢
          simp only at h ⊢
          have haddress : address = packet.address := Option.some.inj (hr.symm.trans hp.address)
          have hmark : (s.receive n).1.socket.history.mark = packet.mark := hp.mark
          have hreceived : (s.receive n).1.socket.history.received
              = s.socket.history.received ++ [packet] := hp.received
          have hfront : (s.receive n).1.messageBuffer.bytes.take (s.receive n).2.2
              = packet.bytes := hp.front
          rw [hfront, hmark, hreceived, haddress] at h
          rw [haddress] at hturn hcap' hless ⊢
          generalize (s.receive n).1.handleDatagram packet.address (s.receive n).2.2 time = t
            at *
          obtain ⟨s', event⟩ := t
          -- the turn itself brings it about, or a later one does
          have hnext : P s' ∨ event = none ∧
              ∃ x ∈ UdcServerImpl.receptionsLoop time fuel s' (s.receive n).2.2, R x := by
            rcases h with hP | ⟨x, hx, hR⟩
            · exact Or.inl (hkeep s packet s' event hP hturn)
            · rcases List.mem_append.mp hx with hx | hx
              · obtain ⟨m, hm, rfl⟩ := List.mem_map.mp hx
                exact Or.inl (hmeet s packet s' event m hturn (Option.mem_toList.mp hm) hR)
              · cases event with
                | none => exact Or.inr ⟨rfl, x, hx, hR⟩
                | some e => cases hx
          cases event with
          | none =>
              have hfuel' : s'.socket.backlog < fuel :=
                Nat.lt_of_lt_of_le hless (Nat.lt_succ_iff.mp hfuel)
              exact ih s' _ hfuel' hcap' (hnext.imp_right fun h => h.2)
          | some e =>
              rcases hnext with hP | ⟨hnone, -⟩
              · exact hP
              · cases hnone

theorem protocol_turn {s' : UdcServerImpl} {packet : Packet} {event : Option UdcEvent}
    (h : Turn time s packet s' event) :
    (decode s.packetSignature.bytes packet.bytes = none ∧ s'.protocol = s.protocol) ∨
      ∃ m, decode s.packetSignature.bytes packet.bytes = some m ∧
        s'.protocol = (s.protocol.handle packet.address time m).state := by
  have hstate := h.state
  unfold Protocol.react at hstate
  cases hm : decode s.packetSignature.bytes packet.bytes with
  | none =>
      rw [hm] at hstate
      exact Or.inl ⟨rfl, hstate⟩
  | some m =>
      rw [hm] at hstate
      exact Or.inr ⟨m, rfl, hstate⟩

end Turns

/-! ### Calls -/

section Calls

variable {s s' : UdcServerImpl} {op : Op} {r : ClientRef} {time : Milliseconds}

theorem handle_step (p : Protocol) (r : ClientRef) (address : UdcAddressMux) (time : Milliseconds)
    (m : Message) : p.ClientStep r (.handle address time m)
      ((p.handle address time m).state.heap r) := by
  apply client_step (.handle address time m)
  rintro ⟨address', timeout, time', h⟩
  cases h

/-- The client has just been refreshed. -/
structure Heard (time : Milliseconds) (c : UdcClient) : Prop where
  lastReceivedTime : c.lastReceivedTime = time
  isConnected : c.isConnected = true

theorem heard_handle {p : Protocol} {address : UdcAddressMux} {m : Message}
    (h : Heard time (p.heap r)) : Heard time ((p.handle address time m).state.heap r) := by
  have hstep := handle_step p r address time m
  generalize (p.handle address time m).state.heap r = c at hstep
  cases hstep with
  | same => exact h
  | handshake hrefresh =>
      rw [receiveConnectionHandshake_eq]
      exact ⟨rfl, rfl⟩
  | pong hrefresh =>
      rw [receivePong_eq]
      exact ⟨rfl, rfl⟩
  | reliableHandshake hrefresh =>
      rw [receivePong_eq]
      exact ⟨rfl, rfl⟩

/-- **A call that refreshes the client sets the time of its last reception.** -/
theorem refreshed_step (h : op.Refreshes r s) :
    ∃ time, op = .receiveMessages time ∧ Heard time ((step s op).1.heap r) := by
  obtain ⟨x, hx, hrefresh⟩ := h
  cases op with
  | receiveMessages time =>
      refine ⟨time, rfl, ?_⟩
      obtain ⟨y, hy, rfl⟩ := List.mem_map.mp hx
      obtain ⟨z, hz, rfl⟩ := List.mem_map.mp hy
      refine receiveLoop_reaches (P := fun t => Heard time (t.heap r))
        (R := fun z => Refreshes time z.toHandling r) ?_ ?_ ?_ _ s _ (Nat.lt_succ_self _)
        (capacity_full _) (Or.inr ⟨z, hz, hrefresh⟩)
      · intro t packet t' event m hturn hm hmeets
        rcases protocol_turn hturn with ⟨hnone, -⟩ | ⟨m', hm', hstate⟩
        · rw [hnone] at hm
          cases hm
        · obtain rfl := Option.some.inj (hm.symm.trans hm')
          obtain ⟨htime, hconn⟩ := refreshed (p := t.protocol) hmeets
          rw [← hstate] at htime hconn
          exact ⟨htime, hconn⟩
      · -- a later turn keeps it, for it has the same time
        intro t packet t' event hheard hturn
        rcases protocol_turn hturn with ⟨-, hstate⟩ | ⟨m, -, hstate⟩
        · have hheap : t'.heap = t.heap := congrArg Protocol.heap hstate
          show Heard time (t'.heap r)
          rw [hheap]
          exact hheard
        · have hheap : t'.heap = _ := congrArg Protocol.heap hstate
          show Heard time (t'.heap r)
          rw [hheap]
          exact heard_handle hheard
      · intro t t' hheard hlast
        have hheap : t'.heap = t.heap := congrArg Protocol.heap hlast.state
        show Heard time (t'.heap r)
        rw [hheap]
        exact hheard
  | _ => cases hx

/-- **A client has its turn in a tick that visits it, and in no other call.** -/
theorem turned_step (hroot : Rooted s.protocol) (hadm : op.Admissible s) (h : op.Visits r s) :
    ∃ time order, op = .updateClientConnectionStatus time order ∧
      (step s op).1.heap r = (s.heap r).turned time := by
  cases op with
  | updateClientConnectionStatus time order =>
      exact ⟨time, order, rfl, (ticked order s hroot hadm.1).turned r h⟩
  | _ => exact absurd h id

theorem rests_turn {c : UdcClient} (hrests : Rests c (s.heap r)) {packet : Packet}
    {event : Option UdcEvent} (hturn : Turn time s packet s' event)
    (hquiet : TurnMeets (fun x => ¬ Refreshes time x.toHandling r) s packet) :
    Rests c (s'.heap r) := by
  rcases protocol_turn hturn with ⟨-, hstate⟩ | ⟨m, hm, hstate⟩
  · have hheap : s'.heap = s.heap := congrArg Protocol.heap hstate
    rw [hheap]
    exact hrests
  · have hheap : s'.heap = _ := congrArg Protocol.heap hstate
    have hstep := (handle_step s.protocol r packet.address time m).rests
      (fun _ _ h => by cases h) fun address time' m' h => by
        cases h
        exact hquiet m hm
    rw [hheap]
    exact hrests.trans hstep

theorem rests_receiveMessages (h : ¬ (Op.receiveMessages time).Refreshes r s) :
    Rests (s.heap r) ((s.receiveMessages time).1.heap r) := by
  refine receiveMessages_rule time (P := fun t => Rests (s.heap r) (t.heap r))
    (Q := fun t _ => Rests (s.heap r) (t.heap r))
    (C := fun x => ¬ Refreshes time x.toHandling r) ?_ ?_ ?_ ?_ (.refl _)
  · intro t t' hrests hlast
    have hheap : t'.heap = t.heap := congrArg Protocol.heap hlast.state
    rw [hheap]
    exact hrests
  · intro t packet t' hrests hturn hquiet
    exact rests_turn hrests hturn hquiet
  · intro t packet t' e hrests hturn hquiet
    exact rests_turn hrests hturn hquiet
  · intro x hx hrefresh
    exact h ⟨(time, x.toHandling), List.mem_map_of_mem (List.mem_map_of_mem hx), hrefresh⟩

/-- A stage of a call that is neither a tick nor a reception. -/
theorem rests_stage {c : UdcClient} (hr : r < s.nextRef ∧ Rests c (s.heap r))
    (hstage : Stage op s s') (htick : ∀ time order, op ≠ .updateClientConnectionStatus time order)
    (hreceive : ∀ time, op ≠ .receiveMessages time) :
    r < s'.nextRef ∧ Rests c (s'.heap r) := by
  cases hstage with
  | quiet h =>
      have hheap : s'.heap = s.heap := congrArg Protocol.heap h.state
      have hnext : s'.nextRef = s.nextRef := congrArg Protocol.nextRef h.state
      rw [hheap, hnext]
      exact hr
  | @call change event reaction hasks hperf hstate hsends =>
      have hstate := hperf.state.trans hstate
      have hheap : s'.heap = _ := congrArg Protocol.heap hstate
      have hnext : s'.nextRef = _ := congrArg Protocol.nextRef hstate
      rw [hheap, hnext]
      refine ⟨Nat.lt_of_lt_of_le hr.1 (nextRef_change s.protocol _), hr.2.trans ?_⟩
      refine (client_step (p := s.protocol) change fun _ => hr.1).rests ?_ ?_
      · intro id time hchange
        subst hchange
        cases hasks
        exact absurd rfl (htick _ _)
      · intro address time m hchange
        subst hchange
        cases hasks
  | turn hop hturn => exact absurd hop (hreceive _)

/-- **A call without a turn or a refresh leaves the client as it is, but for its queue.** -/
theorem rests_step (hroot : Rooted s.protocol) (hadm : op.Admissible s) (hr : r < s.nextRef)
    (hturn : ¬ op.Visits r s) (hquiet : ¬ op.Refreshes r s) :
    Rests (s.heap r) ((step s op).1.heap r) := by
  cases op with
  | updateClientConnectionStatus time order =>
      have hpassed := (ticked order s hroot hadm.1).passed r hturn
      show Rests (s.heap r) ((UdcServerImpl.updateClientConnectionStatus time order s).1.heap r)
      rw [hpassed]
      exact .refl _
  | receiveMessages time => exact rests_receiveMessages hquiet
  | _ =>
      refine (step_stages (P := fun t => r < t.nextRef ∧ Rests (s.heap r) (t.heap r)) hadm ?_
        ⟨hr, .refl _⟩).2
      intro t t' ht hstage
      exact rests_stage ht hstage (fun _ _ h => by cases h) fun _ h => by cases h

end Calls

/-! ### Runs -/

section Runs

variable {s : UdcServerImpl} {op : Op} {ops : List Op} {r : ClientRef}

theorem rooted_new (signature : UdcSignature) (buffer : MessageBuffer) :
    Rooted (UdcServerImpl.new signature buffer).protocol :=
  rooted_fresh (fresh_new signature buffer)

theorem rooted_run (hadm : Throughout (fun s op => op.Admissible s) s ops)
    (h : Rooted s.protocol) : Rooted (runState s ops).protocol :=
  run_stages (P := fun t => Rooted t.protocol) (fun _ _ _ ht hstage => rooted_stage ht hstage)
    ops s hadm h

/-- There is a client under the reference, and these are its settings. -/
structure Made (r : ClientRef) (k : Settings) (s : UdcServerImpl) : Prop where
  lt : r < s.nextRef
  settings : (s.heap r).settings = k

theorem made_stage {k : Settings} {s' : UdcServerImpl} (h : Made r k s)
    (hstage : Stage op s s') : Made r k s' := by
  rcases hstage.state with hsame | ⟨c, hstate, -⟩
  · have hheap : s'.heap = s.heap := congrArg Protocol.heap hsame
    have hnext : s'.nextRef = s.nextRef := congrArg Protocol.nextRef hsame
    exact ⟨hnext ▸ h.lt, hheap ▸ h.settings⟩
  · have hheap : s'.heap = _ := congrArg Protocol.heap hstate
    have hnext : s'.nextRef = _ := congrArg Protocol.nextRef hstate
    refine ⟨?_, ?_⟩
    · rw [hnext]
      exact Nat.lt_of_lt_of_le h.lt (nextRef_change s.protocol _)
    · rw [hheap]
      exact (client_step (p := s.protocol) c fun _ => h.lt).settings.trans h.settings

/-- **The settings of a client never change.** -/
theorem made_run {k : Settings} (hadm : Throughout (fun s op => op.Admissible s) s ops)
    (h : Made r k s) : Made r k (runState s ops) :=
  run_stages (fun _ _ _ ht hstage => made_stage ht hstage) ops s hadm h

end Runs

end UdpConnect
