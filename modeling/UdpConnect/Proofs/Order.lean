/-
The order of a hash map.

`updateClientConnectionStatus` goes through `m_clientsById` in whatever order the hash map
has, and returns at the first client it reports lost, so that which clients have had their
turn is the hash map's choice.  `tick_order_irrelevant` says when it is not: whether
anything is reported does not depend on the order, and if nothing is, neither does what the
call leaves behind, nor what it sends, but for the order of the datagrams.

The reason is that a turn reads and writes one client.  `Swept` says what all the turns of
a quiet call come to, each in terms of the state before the call.
-/
import UdpConnect.Proofs.Replies

namespace UdpConnect

/-- A turn of the endpoint's client does not report it lost. -/
def KeepsConnection (s : UdcServerImpl) (time : Milliseconds) (id : UdcEndPointId) : Prop :=
  ∀ r, s.clientsById.lookup id = some r →
    ((s.heap r).sendReliable time).1.needsConnectionLostEvent time = false

/-- What a turn of the endpoint's client sends. -/
def turnPackets (s : UdcServerImpl) (time : Milliseconds) (id : UdcEndPointId) : List Packet :=
  match s.clientsById.lookup id with
  | none => []
  | some r => (s.protocol.tickClient r time).sends.map s.wirePacket

/-- Each endpoint of the list has had its turn, and nothing else has happened. -/
structure Swept (time : Milliseconds) (order : List UdcEndPointId) (s t : UdcServerImpl) :
    Prop where
  turned : ∀ id ∈ order, ∀ r, s.clientsById.lookup id = some r →
    t.heap r = (s.heap r).turned time
  passed : ∀ r, (∀ id ∈ order, s.clientsById.lookup id ≠ some r) → t.heap r = s.heap r
  rest : t.protocol = { s.protocol with heap := t.heap }
  sent : t.socket.history.sent = s.socket.history.sent ++ order.flatMap (turnPackets s time)

section Order

variable {s t : UdcServerImpl} {time : Milliseconds} {id id' : UdcEndPointId} {r r' : ClientRef}
  {order order' : List UdcEndPointId} {ops : List Op} {signature : UdcSignature}
  {buffer : MessageBuffer}

theorem tickClient_quiet_iff : (s.tickClient r time).2 = none ↔
    ((s.heap r).sendReliable time).1.needsConnectionLostEvent time = false := by
  have hreport := (tickClient_performs (s := s) time r).report
  unfold Protocol.tickClient at hreport
  simp only at hreport
  constructor
  · intro hnone
    rw [hnone] at hreport
    split at hreport
    · cases hreport
    · rename_i hkeeps
      exact Bool.eq_false_iff.mpr hkeeps
  · intro hkeeps
    cases hevent : (s.tickClient r time).2 with
    | none => rfl
    | some e =>
        rw [(tickClient_event hevent).2.2] at hkeeps
        cases hkeeps

/-- Two endpoints have two clients. -/
theorem client_apart (h : Rooted s.protocol) (hne : id' ≠ id)
    (hlookup : s.clientsById.lookup id = some r) (hlookup' : s.clientsById.lookup id' = some r') :
    r' ≠ r := by
  rintro rfl
  exact hne ((h.byId id' r' hlookup').2.symm.trans (h.byId id r' hlookup).2)

theorem clientsById_tickClient : (s.tickClient r time).1.clientsById = s.clientsById :=
  congrArg Protocol.clientsById protocol_tickClient

/-- A turn of one client is nothing to another. -/
theorem keeps_turn (h : Rooted s.protocol) (hne : id' ≠ id)
    (hlookup : s.clientsById.lookup id = some r) :
    KeepsConnection (s.tickClient r time).1 time id' ↔ KeepsConnection s time id' := by
  unfold KeepsConnection
  rw [clientsById_tickClient]
  refine forall_congr' fun r' => imp_congr_right fun hlookup' => ?_
  rw [heap_tickClient, if_neg (client_apart h hne hlookup hlookup')]

theorem tick_performs (time : Milliseconds) (order : List UdcEndPointId)
    (hlookup : s.clientsById.lookup id = some r) :
    (Op.updateClientConnectionStatus time order).Asks s (.tick id time) ∧
      Performs s (s.tickClient r time).1 (s.tickClient r time).2
        (s.protocol.change (.tick id time)) := by
  have hlookup' : s.protocol.clientsById.lookup id = some r := hlookup
  have htick : s.protocol.change (.tick id time) = s.protocol.tickClient r time := by
    simp only [Protocol.change, Protocol.tick, hlookup']
  rw [htick]
  exact ⟨.tick time order id, tickClient_performs time r⟩

theorem ready_turn (h : Ready s) (hlookup : s.clientsById.lookup id = some r) :
    Ready (s.tickClient r time).1 := by
  obtain ⟨hasks, hperf⟩ := tick_performs time [] hlookup
  exact ready_stage h (.performs hasks hperf)

theorem sent_tickClient (h : Ready s) (time : Milliseconds)
    (hlookup : s.clientsById.lookup id = some r) :
    (s.tickClient r time).1.socket.history.sent
        = s.socket.history.sent ++ turnPackets s time id ∧
      (s.tickClient r time).1.wirePacket = s.wirePacket := by
  obtain ⟨hasks, hperf⟩ := tick_performs time [] hlookup
  obtain ⟨new, hsocket, hnew⟩ := hperf.socket
  have hlookup' : s.protocol.clientsById.lookup id = some r := hlookup
  refine ⟨?_, wirePacket_congr hperf.front (by rw [hsocket])⟩
  rw [hsocket, hnew (fits_asked h hasks)]
  simp only [turnPackets, hlookup, Protocol.change, Protocol.tick, hlookup']

/-- What another client would send is the same after a turn. -/
theorem turnPackets_turn (h : Ready s) (hne : id' ≠ id)
    (hlookup : s.clientsById.lookup id = some r) :
    turnPackets (s.tickClient r time).1 time id' = turnPackets s time id' := by
  have hwire := (sent_tickClient h time hlookup).2
  unfold turnPackets
  rw [clientsById_tickClient]
  cases hlookup' : s.clientsById.lookup id' with
  | none => rfl
  | some r' =>
      have hheap : (s.tickClient r time).1.protocol.heap r' = s.protocol.heap r' := by
        have hne' := client_apart h.rooted hne hlookup hlookup'
        exact (heap_tickClient r').trans (if_neg hne')
      simp only [Protocol.tickClient, hheap, hwire]
      split <;> rfl

/-- **A call in which nobody is due gives everybody a turn.** -/
theorem swept (order : List UdcEndPointId) : ∀ s : UdcServerImpl, Ready s → order.Nodup →
    (∀ id ∈ order, KeepsConnection s time id) →
      (UdcServerImpl.updateClientConnectionStatus time order s).2 = none ∧
        Swept time order s (UdcServerImpl.updateClientConnectionStatus time order s).1 := by
  induction order with
  | nil =>
      intro s _ _ _
      exact ⟨rfl, by simp, fun _ _ => rfl, rfl,
        by simp [UdcServerImpl.updateClientConnectionStatus]⟩
  | cons id order ih =>
      intro s h hnodup hkeeps
      obtain ⟨hnew, hrest⟩ := List.nodup_cons.mp hnodup
      have hne : ∀ id' ∈ order, id' ≠ id := by
        rintro id' hid' rfl
        exact hnew hid'
      cases hlookup : s.clientsById.lookup id with
      | none =>
          rw [(order_skip time order hlookup).2]
          obtain ⟨hnone, hswept⟩ :=
            ih s h hrest fun id' hid' => hkeeps id' (List.mem_cons_of_mem _ hid')
          refine ⟨hnone, ?_, ?_, hswept.rest, ?_⟩
          · intro id' hid' r hr
            rcases List.mem_cons.mp hid' with rfl | hid'
            · rw [hlookup] at hr
              cases hr
            · exact hswept.turned id' hid' r hr
          · intro r hr
            exact hswept.passed r fun id' hid' => hr id' (List.mem_cons_of_mem _ hid')
          · rw [hswept.sent, List.flatMap_cons]
            simp [turnPackets, hlookup]
      | some r =>
          have hquiet := tickClient_quiet_iff.mpr (hkeeps id List.mem_cons_self r hlookup)
          rw [(order_quiet order hlookup hquiet).2]
          obtain ⟨hnone, hswept⟩ := ih _ (ready_turn h hlookup) hrest fun id' hid' =>
            (keeps_turn h.rooted (hne id' hid') hlookup).mpr
              (hkeeps id' (List.mem_cons_of_mem _ hid'))
          have hbyId : (s.tickClient r time).1.clientsById = s.clientsById :=
            clientsById_tickClient
          have hself : ∀ id' ∈ order,
              (s.tickClient r time).1.clientsById.lookup id' ≠ some r := by
            intro id' hid' hlookup'
            rw [hbyId] at hlookup'
            exact client_apart h.rooted (hne id' hid') hlookup hlookup' rfl
          refine ⟨hnone, ?_, ?_, ?_, ?_⟩
          · intro id' hid' r' hr'
            rcases List.mem_cons.mp hid' with rfl | hid'
            · obtain rfl := Option.some.inj (hlookup.symm.trans hr')
              rw [hswept.passed r hself, heap_tickClient, if_pos rfl]
            · rw [hswept.turned id' hid' r' (by rw [hbyId]; exact hr'), heap_tickClient,
                if_neg (client_apart h.rooted (hne id' hid') hlookup hr')]
          · intro r' hr'
            have hr : r' ≠ r := by
              rintro rfl
              exact hr' id List.mem_cons_self hlookup
            rw [hswept.passed r' fun id' hid' => by
              rw [hbyId]
              exact hr' id' (List.mem_cons_of_mem _ hid')]
            rw [heap_tickClient, if_neg hr]
          · rw [hswept.rest, protocol_tickClient]
            rfl
          · rw [hswept.sent, (sent_tickClient h time hlookup).1, List.flatMap_cons,
              List.append_assoc]
            congr 2
            exact List.flatMap_congr fun id' hid' => turnPackets_turn h (hne id' hid') hlookup

/-- If nothing is reported, nobody was due. -/
theorem keeps_of_quiet (order : List UdcEndPointId) : ∀ s : UdcServerImpl, Ready s →
    order.Nodup → (UdcServerImpl.updateClientConnectionStatus time order s).2 = none →
      ∀ id ∈ order, KeepsConnection s time id := by
  induction order with
  | nil =>
      intro s _ _ _ id hid
      cases hid
  | cons id order ih =>
      intro s h hnodup hnone id' hid'
      obtain ⟨hnew, hrest⟩ := List.nodup_cons.mp hnodup
      cases hlookup : s.clientsById.lookup id with
      | none =>
          rw [(order_skip time order hlookup).2] at hnone
          rcases List.mem_cons.mp hid' with rfl | hid'
          · intro r hr
            rw [hlookup] at hr
            cases hr
          · exact ih s h hrest hnone id' hid'
      | some r =>
          cases hevent : (s.tickClient r time).2 with
          | some e =>
              rw [(order_event order hlookup hevent).2] at hnone
              cases hnone
          | none =>
              rw [(order_quiet order hlookup hevent).2] at hnone
              rcases List.mem_cons.mp hid' with rfl | hid'
              · intro r' hr'
                obtain rfl := Option.some.inj (hlookup.symm.trans hr')
                exact tickClient_quiet_iff.mp hevent
              · have hne : id' ≠ id := fun heq => hnew (heq ▸ hid')
                exact (keeps_turn h.rooted hne hlookup).mp
                  (ih _ (ready_turn h hlookup) hrest hnone id' hid')

/-- The turns of the same endpoints come to the same. -/
theorem Swept.same {t' : UdcServerImpl} (h : Swept time order s t) (h' : Swept time order' s t')
    (hperm : order'.Perm order) :
    t'.protocol = t.protocol ∧ (newSent s t').Perm (newSent s t) := by
  have hheap : t'.heap = t.heap := by
    funext r
    by_cases hr : ∃ id ∈ order, s.clientsById.lookup id = some r
    · obtain ⟨id, hid, hlookup⟩ := hr
      rw [h.turned id hid r hlookup, h'.turned id (hperm.mem_iff.mpr hid) r hlookup]
    · rw [h.passed r fun id hid hlookup => hr ⟨id, hid, hlookup⟩,
        h'.passed r fun id hid hlookup => hr ⟨id, hperm.mem_iff.mp hid, hlookup⟩]
  refine ⟨by rw [h.rest, h'.rest, hheap], ?_⟩
  rw [newSent_eq h.sent, newSent_eq h'.sent]
  exact hperm.flatMap_right _

/--
**The order of the hash map makes no difference to a call that reports nothing**: not to
whether it does, not to what it leaves, and to what it sends only in which order.
-/
theorem tick_order_irrelevant
    (h : Throughout (fun s op => op.Admissible s) (.new signature buffer) ops)
    (hs : s = runState (.new signature buffer) ops)
    (hadm : (Op.updateClientConnectionStatus time order).Admissible s)
    (hadm' : (Op.updateClientConnectionStatus time order').Admissible s) :
    ((UdcServerImpl.updateClientConnectionStatus time order s).2 = none ↔
      (UdcServerImpl.updateClientConnectionStatus time order' s).2 = none) ∧
    ((UdcServerImpl.updateClientConnectionStatus time order s).2 = none →
      (UdcServerImpl.updateClientConnectionStatus time order' s).1.protocol
          = (UdcServerImpl.updateClientConnectionStatus time order s).1.protocol ∧
        (newSent s (UdcServerImpl.updateClientConnectionStatus time order' s).1).Perm
          (newSent s (UdcServerImpl.updateClientConnectionStatus time order s).1)) := by
  have hready : Ready s := by
    rw [hs]
    exact run_stages (fun op t t' ht hstage => ready_stage ht hstage) ops _ h
      (ready_new signature buffer)
  obtain ⟨hnodup, hkeys⟩ := hadm
  obtain ⟨hnodup', hkeys'⟩ := hadm'
  have hperm : order'.Perm order :=
    List.perm_of_nodup_nodup_toFinset_eq hnodup' hnodup (hkeys'.trans hkeys.symm)
  have hiff : (UdcServerImpl.updateClientConnectionStatus time order s).2 = none ↔
      (UdcServerImpl.updateClientConnectionStatus time order' s).2 = none := by
    constructor
    · intro hnone
      have hkeeps := keeps_of_quiet order s hready hnodup hnone
      exact (swept order' s hready hnodup' fun id hid => hkeeps id (hperm.mem_iff.mp hid)).1
    · intro hnone
      have hkeeps := keeps_of_quiet order' s hready hnodup' hnone
      exact (swept order s hready hnodup fun id hid => hkeeps id (hperm.mem_iff.mpr hid)).1
  refine ⟨hiff, fun hnone => ?_⟩
  have hswept := (swept order s hready hnodup (keeps_of_quiet order s hready hnodup hnone)).2
  have hswept' := (swept order' s hready hnodup'
    (keeps_of_quiet order' s hready hnodup' (hiff.mp hnone))).2
  exact hswept.same hswept' hperm

end Order

/-- Two endpoints connect, and one of them is sent a message. -/
def twoClients : List Op :=
  connectedOps ++ [.tryConnectIPv4 (exampleIP 3) 3 1000 10,
    .arriveIPv4 0 (.datagram ⟨exampleIP 3, 3, [1, 2, 3, 4, 1, 2, 0, 0, 0], default⟩),
    .receiveMessages 10, .sendMessage 2 [7] .reliableMessage]

theorem tick_order_irrelevant_twoClients :
    (newSent (runState exampleServer twoClients)
      (UdcServerImpl.updateClientConnectionStatus 20 [2, 1]
        (runState exampleServer twoClients)).1).Perm
      (newSent (runState exampleServer twoClients)
        (UdcServerImpl.updateClientConnectionStatus 20 [1, 2]
          (runState exampleServer twoClients)).1) := by
  have hadm : Throughout (fun s op => op.Admissible s) exampleServer twoClients := by
    decide +kernel
  have hone : (Op.updateClientConnectionStatus 20 [1, 2]).Admissible
      (runState exampleServer twoClients) := by decide +kernel
  have htwo : (Op.updateClientConnectionStatus 20 [2, 1]).Admissible
      (runState exampleServer twoClients) := by decide +kernel
  exact ((tick_order_irrelevant hadm rfl hone htwo).2 (by decide +kernel)).2

end UdpConnect
