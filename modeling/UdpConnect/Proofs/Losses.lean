/-
Polling for lost connections, again and again at one time.

`updateClientConnectionStatus` returns in the middle of its loop, at the first client that
is due to be lost, and the next call begins with the first entry again, in an order that
may be another one.  `due` is what is left to be reported.  A call with an event takes
one endpoint out of it, a call without one has found it empty (`poll_step`), and
`losses_reported` is the induction over the calls.
-/
import UdpConnect.Proofs.RoundTrip
import UdpConnect.Proofs.Silence

namespace UdpConnect

open UdcServerImpl

/-- The endpoints that are connected, and have been silent for the whole of their period. -/
def due (time : Milliseconds) (s : UdcServerImpl) : Finset UdcEndPointId :=
  s.clientsById.keys.filter fun id => (s.clientsById.lookup id).any fun r =>
    (s.heap r).needsConnectionLostEvent time

/-- Calls at one time, which meet the entries in these orders. -/
def polls (time : Milliseconds) (orders : List (List UdcEndPointId)) : List Op :=
  orders.map (Op.updateClientConnectionStatus time)

/-- What each call of a run reports: the type of the event, and the endpoint. -/
def reports (s : UdcServerImpl) (ops : List Op) : List (Option (UdcEventType × UdcEndPointId)) :=
  (runTrace s ops).map fun l => l.2.event.map fun e => (e.eventType, e.endPointId)

/-- These endpoints are no longer connected, and the queues are as they were. -/
structure OnlyLost (s s' : UdcServerImpl) (lost : List UdcEndPointId) : Prop where
  clientsById : s'.clientsById = s.clientsById
  isConnected : ∀ r, (s'.heap r).isConnected = true ↔
    (s.heap r).isConnected = true ∧ ∀ id ∈ lost, s.clientsById.lookup id ≠ some r
  reliableMessages : ∀ r, (s'.heap r).reliableMessages = (s.heap r).reliableMessages
  lastReceivedTime : ∀ r, (s'.heap r).lastReceivedTime = (s.heap r).lastReceivedTime
  connectionLostPeriod : ∀ r,
    (s'.heap r).connectionLostPeriod = (s.heap r).connectionLostPeriod

/-- What polling with these orders reports: first the lost endpoints, then nothing. -/
structure ReportsLost (time : Milliseconds) (orders : List (List UdcEndPointId))
    (s : UdcServerImpl) (lost : List UdcEndPointId) : Prop where
  nodup : lost.Nodup
  subset : ∀ id ∈ lost, id ∈ due time s
  length : lost.length = min orders.length (due time s).card
  reports : reports s (polls time orders) = lost.map (fun id => some (.connectionLost, id))
    ++ List.replicate (orders.length - lost.length) none
  after : OnlyLost s (runState s (polls time orders)) lost

section Due

variable {s s' s'' : UdcServerImpl} {time : Milliseconds} {id : UdcEndPointId} {r : ClientRef}
  {lost lost' : List UdcEndPointId}

theorem mem_due : id ∈ due time s ↔ ∃ r, s.clientsById.lookup id = some r ∧
    (s.heap r).needsConnectionLostEvent time = true := by
  unfold due
  rw [Finset.mem_filter, Finmap.mem_keys, ← Finmap.lookup_isSome]
  cases s.clientsById.lookup id with
  | none => simp
  | some r => simp

theorem needsLost_eq_true_iff {c : UdcClient} : c.needsConnectionLostEvent time = true ↔
    c.isConnected = true ∧ c.connectionLostPeriod ≤ time - c.lastReceivedTime := by
  unfold UdcClient.needsConnectionLostEvent
  rw [Bool.and_eq_true, decide_eq_true_iff]

theorem needsLost_sendReliable (c : UdcClient) (time : Milliseconds) :
    (c.sendReliable time).1.needsConnectionLostEvent time = c.needsConnectionLostEvent time := by
  obtain ⟨state, sent, h⟩ := sendReliable_only c time
  rw [h]
  rfl

namespace OnlyLost

theorem refl (s : UdcServerImpl) : OnlyLost s s [] :=
  ⟨rfl, fun r => by simp, fun _ => rfl, fun _ => rfl, fun _ => rfl⟩

theorem trans (h : OnlyLost s s' lost) (h' : OnlyLost s' s'' lost') :
    OnlyLost s s'' (lost ++ lost') where
  clientsById := h'.clientsById.trans h.clientsById
  isConnected r := by
    rw [h'.isConnected, h.isConnected, h.clientsById, and_assoc, List.forall_mem_append]
  reliableMessages r := (h'.reliableMessages r).trans (h.reliableMessages r)
  lastReceivedTime r := (h'.lastReceivedTime r).trans (h.lastReceivedTime r)
  connectionLostPeriod r := (h'.connectionLostPeriod r).trans (h.connectionLostPeriod r)

/-- An endpoint that has been lost is not due any more, and another one still is. -/
theorem mem_due_iff (h : OnlyLost s s' lost) (hroot : Rooted s.protocol) :
    id ∈ due time s' ↔ id ∈ due time s ∧ id ∉ lost := by
  rw [mem_due, mem_due, h.clientsById]
  constructor
  · rintro ⟨r, hlookup, hneeds⟩
    rw [needsLost_eq_true_iff, h.isConnected, h.lastReceivedTime,
      h.connectionLostPeriod] at hneeds
    obtain ⟨⟨hconn, hnot⟩, hlong⟩ := hneeds
    exact ⟨⟨r, hlookup, needsLost_eq_true_iff.mpr ⟨hconn, hlong⟩⟩, fun hmem => hnot id hmem hlookup⟩
  · rintro ⟨⟨r, hlookup, hneeds⟩, hnot⟩
    obtain ⟨hconn, hlong⟩ := needsLost_eq_true_iff.mp hneeds
    refine ⟨r, hlookup, ?_⟩
    rw [needsLost_eq_true_iff, h.isConnected, h.lastReceivedTime, h.connectionLostPeriod]
    refine ⟨⟨hconn, ?_⟩, hlong⟩
    -- two endpoints are not one client, since the client has the id
    intro id' hmem hlookup'
    have hid : (s.heap r).id = id := (hroot.byId id r hlookup).2
    have hid' : (s.heap r).id = id' := (hroot.byId id' r hlookup').2
    rw [← hid', hid] at hmem
    exact hnot hmem

end OnlyLost

end Due

/-! ### One call -/

section Polls

variable {s s' : UdcServerImpl} {time : Milliseconds} {id : UdcEndPointId} {r : ClientRef}
  {order : List UdcEndPointId} {e : UdcEvent}

/-- A turn without an event is that of a client that is not due. -/
theorem tickClient_quiet (h : (s.tickClient r time).2 = none) :
    (s.heap r).needsConnectionLostEvent time = false := by
  have hreport := (tickClient_performs (s := s) time r).report
  rw [h, Option.map_none] at hreport
  unfold Protocol.tickClient at hreport
  rw [← needsLost_sendReliable]
  simp only at hreport
  split at hreport
  · cases hreport
  · rename_i hneeds
    exact Bool.eq_false_iff.mpr hneeds

theorem tick_clientsById (time : Milliseconds) (order : List UdcEndPointId) (s : UdcServerImpl) :
    (s.updateClientConnectionStatus time order).1.clientsById = s.clientsById := by
  have hturn (t t' : UdcServerImpl) (id : UdcEndPointId) (event : Option UdcEvent)
      (ht : t.clientsById = s.clientsById) (hperf : Performs t t' event (t.protocol.tick id time)) :
      t'.clientsById = s.clientsById := by
    have hstate : t'.clientsById = _ := congrArg Protocol.clientsById hperf.state
    rw [hstate, ← ht]
    unfold Protocol.tick
    split
    · rfl
    · rw [tickClient_state]
      rfl
  exact updateClientConnectionStatus_rule time (P := fun t => t.clientsById = s.clientsById)
    (Q := fun t _ => t.clientsById = s.clientsById) (fun _ ht => ht)
    (fun t id t' ht hperf => hturn t t' id none ht hperf)
    (fun t id t' e ht hperf => hturn t t' id (some e) ht hperf) order s rfl

/-- Whom a tick reports, and whom it has met before. -/
structure Losing (time : Milliseconds) (order : List UdcEndPointId) (s : UdcServerImpl) : Prop where
  met : (s.updateClientConnectionStatus time order).2 = none →
    ∀ id ∈ order, ∀ r, s.clientsById.lookup id = some r →
      ∃ t, (t, r) ∈ visits time order s
  found : ∀ r, (∃ t, (t, r) ∈ visits time order s) →
    (s.heap r).needsConnectionLostEvent time = true →
      ∃ e, (s.updateClientConnectionStatus time order).2 = some e ∧
        s.clientsById.lookup e.endPointId = some r

theorem losing_event (hlookup : s.clientsById.lookup id = some r) (hself : (s.heap r).id = id)
    (hevent : (s.tickClient r time).2 = some e) : Losing time (id :: order) s := by
  obtain ⟨hvisits, hcall⟩ := order_event order hlookup hevent
  refine ⟨?_, ?_⟩
  · rw [hcall]
    intro hnone
    cases hnone
  · rw [hvisits, hcall]
    rintro r' ⟨t, ht⟩ -
    obtain ⟨-, rfl⟩ := Prod.mk.inj (List.mem_singleton.mp ht)
    refine ⟨e, rfl, ?_⟩
    rw [(tickClient_event hevent).2.1, hself]
    exact hlookup

/-- The turns that follow are those of other clients, which are due if they were before. -/
theorem losing_quiet (hlookup : s.clientsById.lookup id = some r)
    (hother : ∀ x ∈ visits time order (s.tickClient r time).1, x.2 ≠ r)
    (hevent : (s.tickClient r time).2 = none) (hrest : Losing time order (s.tickClient r time).1) :
    Losing time (id :: order) s := by
  obtain ⟨hvisits, hcall⟩ := order_quiet order hlookup hevent
  have hbyId : (s.tickClient r time).1.clientsById = s.clientsById :=
    congrArg Protocol.clientsById protocol_tickClient
  refine ⟨?_, ?_⟩
  · rw [hvisits, hcall]
    intro hnone id' hid' r' hlookup'
    rcases List.mem_cons.mp hid' with rfl | hid'
    · obtain rfl := Option.some.inj (hlookup.symm.trans hlookup')
      exact ⟨s, List.mem_cons_self⟩
    · rw [← hbyId] at hlookup'
      obtain ⟨t, ht⟩ := hrest.met hnone id' hid' r' hlookup'
      exact ⟨t, List.mem_cons_of_mem _ ht⟩
  · rw [hvisits, hcall]
    rintro r' ⟨t, ht⟩ hneeds
    rcases List.mem_cons.mp ht with heq | ht
    · obtain ⟨-, rfl⟩ := Prod.mk.inj heq
      rw [tickClient_quiet hevent] at hneeds
      cases hneeds
    · have hkept : (s.tickClient r time).1.heap r' = s.heap r' := by
        rw [heap_tickClient, if_neg (hother _ ht)]
      rw [← hkept] at hneeds
      obtain ⟨e, he, hfound⟩ := hrest.found r' ⟨t, ht⟩ hneeds
      rw [hbyId] at hfound
      exact ⟨e, he, hfound⟩

theorem losing (order : List UdcEndPointId) : ∀ s : UdcServerImpl, Rooted s.protocol →
    order.Nodup → Losing time order s := by
  induction order with
  | nil =>
      intro s _ _
      refine ⟨?_, ?_⟩
      · intro _ id hid
        cases hid
      · rintro r ⟨t, ht⟩
        cases ht
  | cons id order ih =>
      intro s hroot hnodup
      obtain ⟨hnot, hnodup⟩ := List.nodup_cons.mp hnodup
      cases hlookup : s.clientsById.lookup id with
      | none =>
          obtain ⟨hvisits, hcall⟩ := order_skip time order hlookup
          obtain ⟨hmet, hfound⟩ := ih s hroot hnodup
          refine ⟨?_, ?_⟩
          · rw [hvisits, hcall]
            intro hnone id' hid' r hlookup'
            rcases List.mem_cons.mp hid' with rfl | hid'
            · rw [hlookup] at hlookup'
              cases hlookup'
            · exact hmet hnone id' hid' r hlookup'
          · rw [hvisits, hcall]
            exact hfound
      | some r =>
          have hself : (s.heap r).id = id := (hroot.byId id r hlookup).2
          cases hevent : (s.tickClient r time).2 with
          | some e => exact losing_event hlookup hself hevent
          | none =>
              have hroot' : Rooted (s.tickClient r time).1.protocol := by
                rw [protocol_tickClient]
                exact rooted_setClient hroot (congrArg Settings.id (settings_turned _ _))
              refine losing_quiet hlookup ?_ hevent (ih _ hroot' hnodup)
              -- the ids still to come belong to other clients
              intro x hx heq
              obtain ⟨-, id', hid', hfound⟩ := (ticked order _ hroot' hnodup).found x hx
              have hbyId : (s.tickClient r time).1.clientsById = s.clientsById :=
                congrArg Protocol.clientsById protocol_tickClient
              rw [hbyId, heq] at hfound
              have hself' : (s.heap r).id = id' := (hroot.byId id' r hfound).2
              rw [← hself', hself] at hid'
              exact hnot hid'

/-- A turn takes the connection of a client that is due, and nothing else that matters here. -/
theorem turned_onlyLost (c : UdcClient) (time : Milliseconds) :
    ((c.turned time).isConnected = true ↔
        c.isConnected = true ∧ c.needsConnectionLostEvent time = false) ∧
      (c.turned time).reliableMessages = c.reliableMessages ∧
      (c.turned time).lastReceivedTime = c.lastReceivedTime ∧
      (c.turned time).connectionLostPeriod = c.connectionLostPeriod := by
  unfold UdcClient.turned
  rw [needsLost_sendReliable]
  obtain ⟨state, sent, h⟩ := sendReliable_only c time
  rw [h]
  by_cases hneeds : c.needsConnectionLostEvent time = true
  · rw [if_pos hneeds, hneeds]
    simp [UdcClient.setConnectionLost]
  · rw [if_neg hneeds, Bool.eq_false_iff.mpr hneeds]
    simp

/-- A tick keeps the queue and the times of every client. -/
theorem tick_keeps (hticked : Ticked time order s) (r : ClientRef) :
    ((s.updateClientConnectionStatus time order).1.heap r).reliableMessages
        = (s.heap r).reliableMessages ∧
      ((s.updateClientConnectionStatus time order).1.heap r).lastReceivedTime
        = (s.heap r).lastReceivedTime ∧
      ((s.updateClientConnectionStatus time order).1.heap r).connectionLostPeriod
        = (s.heap r).connectionLostPeriod := by
  by_cases hvisits : ∃ t, (t, r) ∈ visits time order s
  · rw [hticked.turned r hvisits]
    exact (turned_onlyLost (s.heap r) time).2
  · rw [hticked.passed r hvisits]
    exact ⟨rfl, rfl, rfl⟩

/-- A tick that has met these endpoints loses them, if they are those that were due of all
that it has met. -/
theorem onlyLost_tick {lost : List UdcEndPointId} (hticked : Ticked time order s)
    (hmet : ∀ id ∈ lost, ∀ r, s.clientsById.lookup id = some r →
      ∃ t, (t, r) ∈ visits time order s)
    (hdue : ∀ r, (∃ t, (t, r) ∈ visits time order s) →
      ((s.heap r).needsConnectionLostEvent time = true ↔
        ∃ id ∈ lost, s.clientsById.lookup id = some r)) :
    OnlyLost s (s.updateClientConnectionStatus time order).1 lost := by
  refine ⟨tick_clientsById time order s, ?_, fun r => (tick_keeps hticked r).1,
    fun r => (tick_keeps hticked r).2.1, fun r => (tick_keeps hticked r).2.2⟩
  intro r
  by_cases hvisits : ∃ t, (t, r) ∈ visits time order s
  · rw [hticked.turned r hvisits, (turned_onlyLost (s.heap r) time).1, ← Bool.not_eq_true,
      hdue r hvisits]
    simp
  · rw [hticked.passed r hvisits]
    constructor
    · intro hconnected
      exact ⟨hconnected, fun id hid hlookup => hvisits (hmet id hid r hlookup)⟩
    · exact And.left

/-- A tick without an event has met every client, and none of them was due. -/
theorem poll_quiet (hadm : (Op.updateClientConnectionStatus time order).Admissible s)
    (hticked : Ticked time order s) (hlosing : Losing time order s)
    (hevent : (s.updateClientConnectionStatus time order).2 = none) :
    due time s = ∅ ∧ OnlyLost s (s.updateClientConnectionStatus time order).1 [] := by
  have hquiet (r : ClientRef) (hvisits : ∃ t, (t, r) ∈ visits time order s) :
      ¬ (s.heap r).needsConnectionLostEvent time = true := by
    intro hneeds
    obtain ⟨e, he, -⟩ := hlosing.found r hvisits hneeds
    rw [hevent] at he
    cases he
  constructor
  · rw [Finset.eq_empty_iff_forall_notMem]
    intro id hid
    obtain ⟨r, hlookup, hneeds⟩ := mem_due.mp hid
    have hmem : id ∈ order := by
      rw [← List.mem_toFinset, hadm.2, Finmap.mem_keys, ← Finmap.lookup_isSome, hlookup]
      rfl
    exact hquiet r (hlosing.met hevent id hmem r hlookup) hneeds
  · refine onlyLost_tick hticked ?_ ?_
    · intro id hid
      cases hid
    · intro r hvisits
      simp [hquiet r hvisits]

/-- A tick with an event reports an endpoint that was due, and the others that it has met
were not, or one of them would have been reported. -/
theorem poll_event (hticked : Ticked time order s) (hlosing : Losing time order s)
    (hevent : (s.updateClientConnectionStatus time order).2 = some e) :
    e.eventType = .connectionLost ∧ e.endPointId ∈ due time s ∧
      OnlyLost s (s.updateClientConnectionStatus time order).1 [e.endPointId] := by
  obtain ⟨htype, r, hlookup, hvisits, hneeds⟩ := hticked.lost e hevent
  rw [needsLost_sendReliable] at hneeds
  refine ⟨htype, mem_due.mpr ⟨r, hlookup, hneeds⟩, onlyLost_tick hticked ?_ ?_⟩
  · intro id hid r' hlookup'
    rw [List.mem_singleton.mp hid, hlookup] at hlookup'
    obtain rfl := Option.some.inj hlookup'
    exact hvisits
  · intro r' hvisits'
    constructor
    · intro hneeds'
      obtain ⟨e', he', hfound⟩ := hlosing.found r' hvisits' hneeds'
      obtain rfl := Option.some.inj (hevent.symm.trans he')
      exact ⟨e.endPointId, List.mem_singleton_self _, hfound⟩
    · rintro ⟨id, hid, hlookup'⟩
      rw [List.mem_singleton.mp hid, hlookup] at hlookup'
      obtain rfl := Option.some.inj hlookup'
      exact hneeds

/-- **A call reports an endpoint that is due, unless there is none, and the connection of
this endpoint is all that is lost by it.** -/
theorem poll_step (hroot : Rooted s.protocol)
    (hadm : (Op.updateClientConnectionStatus time order).Admissible s) :
    ((s.updateClientConnectionStatus time order).2 = none ∧ due time s = ∅ ∧
        OnlyLost s (s.updateClientConnectionStatus time order).1 []) ∨
      ∃ e, (s.updateClientConnectionStatus time order).2 = some e ∧
        e.eventType = .connectionLost ∧ e.endPointId ∈ due time s ∧
          OnlyLost s (s.updateClientConnectionStatus time order).1 [e.endPointId] := by
  have hticked : Ticked time order s := ticked order s hroot hadm.1
  have hlosing : Losing time order s := losing order s hroot hadm.1
  cases hevent : (s.updateClientConnectionStatus time order).2 with
  | none => exact Or.inl ⟨rfl, poll_quiet hadm hticked hlosing hevent⟩
  | some e => exact Or.inr ⟨e, rfl, poll_event hticked hlosing hevent⟩

end Polls

/-! ### Many calls -/

section Runs

variable {s : UdcServerImpl} {time : Milliseconds} {orders : List (List UdcEndPointId)}
  {signature : UdcSignature} {buffer : MessageBuffer} {trace : List (Op × Outcome)}

/-- A call that reports nothing, and calls after it that report nothing either. -/
theorem reportsLost_none {order : List UdcEndPointId} (hdue : due time s = ∅)
    (hevent : (s.updateClientConnectionStatus time order).2 = none)
    (honly : OnlyLost s (s.updateClientConnectionStatus time order).1 [])
    (hroot : Rooted s.protocol)
    (hrest : ∃ lost, ReportsLost time orders (s.updateClientConnectionStatus time order).1 lost) :
    ∃ lost, ReportsLost time (order :: orders) s lost := by
  obtain ⟨lost, hrest⟩ := hrest
  have hnone : lost = [] := by
    apply List.eq_nil_iff_forall_not_mem.mpr
    intro id hid
    have hdue' := ((honly.mem_due_iff hroot).mp (hrest.subset id hid)).1
    rw [hdue] at hdue'
    exact absurd hdue' (Finset.notMem_empty id)
  subst hnone
  refine ⟨[], List.nodup_nil, ?_, ?_, ?_, honly.trans hrest.after⟩
  · intro id hid
    cases hid
  · rw [hdue, Finset.card_empty, Nat.min_zero]
    rfl
  · have hreports := hrest.reports
    simp only [reports, polls, List.map_cons, runTrace, step, hevent, Option.map_none,
      List.map_nil, List.nil_append, List.length_nil, Nat.sub_zero, List.length_cons,
      List.replicate_succ] at hreports ⊢
    rw [hreports]

/-- A call that reports a due endpoint, and calls after it that report the others. -/
theorem reportsLost_some {order : List UdcEndPointId} {e : UdcEvent}
    (hevent : (s.updateClientConnectionStatus time order).2 = some e)
    (htype : e.eventType = .connectionLost) (hdue : e.endPointId ∈ due time s)
    (honly : OnlyLost s (s.updateClientConnectionStatus time order).1 [e.endPointId])
    (hroot : Rooted s.protocol)
    (hrest : ∃ lost, ReportsLost time orders (s.updateClientConnectionStatus time order).1 lost) :
    ∃ lost, ReportsLost time (order :: orders) s lost := by
  obtain ⟨lost, hrest⟩ := hrest
  have hleft : due time (s.updateClientConnectionStatus time order).1
      = (due time s).erase e.endPointId := by
    ext id
    rw [honly.mem_due_iff hroot, List.mem_singleton, Finset.mem_erase, and_comm]
  have hsubset (id : UdcEndPointId) (hid : id ∈ lost) : id ≠ e.endPointId ∧ id ∈ due time s := by
    have hmem := hrest.subset id hid
    rw [hleft, Finset.mem_erase] at hmem
    exact hmem
  refine ⟨e.endPointId :: lost, ?_, ?_, ?_, ?_, honly.trans hrest.after⟩
  · refine List.nodup_cons.mpr ⟨?_, hrest.nodup⟩
    intro hmem
    exact (hsubset _ hmem).1 rfl
  · intro id hid
    rcases List.mem_cons.mp hid with rfl | hid
    · exact hdue
    · exact (hsubset id hid).2
  · have hpos := Finset.card_pos.mpr ⟨_, hdue⟩
    rw [List.length_cons, hrest.length, hleft, Finset.card_erase_of_mem hdue, List.length_cons]
    omega
  · have hreports := hrest.reports
    simp only [reports, polls, List.map_cons, runTrace, step, hevent, Option.map_some, htype,
      List.length_cons, Nat.add_sub_add_right, List.cons_append] at hreports ⊢
    rw [hreports]

/-- **What polling reports, for any number of calls and any order in each.** -/
theorem losses_polled (orders : List (List UdcEndPointId)) : ∀ s : UdcServerImpl,
    Rooted s.protocol → Throughout (fun s op => op.Admissible s) s (polls time orders) →
      ∃ lost, ReportsLost time orders s lost := by
  induction orders with
  | nil =>
      intro s _ _
      refine ⟨[], List.nodup_nil, ?_, ?_, rfl, .refl s⟩
      · intro id hid
        cases hid
      · rw [List.length_nil, List.length_nil, Nat.zero_min]
  | cons order orders ih =>
      intro s hroot hadm
      have hroot' : Rooted (s.updateClientConnectionStatus time order).1.protocol :=
        step_stages (P := fun t => Rooted t.protocol) hadm.1
          (fun _ _ h hstage => rooted_stage h hstage) hroot
      have hrest := ih _ hroot' hadm.2
      rcases poll_step hroot hadm.1 with
        ⟨hevent, hdue, honly⟩ | ⟨e, hevent, htype, hdue, honly⟩
      · exact reportsLost_none hdue hevent honly hroot hrest
      · exact reportsLost_some hevent htype hdue honly hroot hrest

/--
**Polling reports each lost connection once**: as many calls as there are endpoints due report
them all, one each, in some order, and the calls after these report nothing.  The endpoints
reported are then not connected, and all else is as it was.
-/
theorem losses_reported (run : ServerRun signature buffer trace s)
    (horders : Throughout (fun s op => op.Admissible s) s (polls time orders)) :
    ∃ lost, ReportsLost time orders s lost ∧
      ((due time s).card ≤ orders.length → ∀ id, id ∈ lost ↔ id ∈ due time s) := by
  obtain ⟨lost, h⟩ := losses_polled orders s (ready_reachable run).1.rooted horders
  refine ⟨lost, h, ?_⟩
  intro henough id
  have hsubset : lost.toFinset ⊆ due time s := by
    intro id hid
    exact h.subset id (List.mem_toFinset.mp hid)
  have hcard : lost.toFinset.card = (due time s).card := by
    rw [List.toFinset_card_of_nodup h.nodup, h.length, Nat.min_eq_right henough]
  rw [← List.mem_toFinset, Finset.eq_of_subset_of_card_le hsubset (Nat.le_of_eq hcard.symm)]

/-- Two endpoints are connected, and both fall silent. -/
def bothOps : List Op :=
  exampleBound ++ [exampleConnect, .tryConnectIPv4 (exampleIP 3) 3 1000 exampleTime,
    .arriveIPv4 0 (.datagram ⟨exampleIP 2, 2, [1, 2, 3, 4, 1, 1, 0, 0, 0], default⟩),
    .receiveMessages exampleTime,
    .arriveIPv4 0 (.datagram ⟨exampleIP 3, 3, [1, 2, 3, 4, 1, 2, 0, 0, 0], default⟩),
    .receiveMessages exampleTime]

theorem losses_reported_both : ∃ lost,
    ReportsLost (exampleTime + 100) [[1, 2], [2, 1], [1, 2]] (runState exampleServer bothOps) lost ∧
      ∀ id, id ∈ lost ↔ id = 1 ∨ id = 2 := by
  have hdue : due (exampleTime + 100) (runState exampleServer bothOps) = {1, 2} := by
    decide +kernel
  have hrun : ServerRun exampleSignature exampleBuffer (runTrace exampleServer bothOps)
      (runState exampleServer bothOps) :=
    run_of_admissible bothOps (by decide +kernel)
  have hpolls : Throughout (fun s op => op.Admissible s) (runState exampleServer bothOps)
      (polls (exampleTime + 100) [[1, 2], [2, 1], [1, 2]]) := by
    decide +kernel
  obtain ⟨lost, h, hall⟩ := losses_reported hrun hpolls
  refine ⟨lost, h, fun id => ?_⟩
  rw [hall (by rw [hdue]; decide), hdue]
  simp

end Runs

end UdpConnect
