/-
The main loop: `udcProcessEvents`, until it returns nothing.

An application is told to call `udcProcessEvents` in every frame until a null pointer comes
back.  Every event uses something up: a pending endpoint, a connection that can be lost, or
a datagram that has arrived.  A datagram can bring a connection back, so it counts twice
(`balance`), and then every event lowers the balance (`processEvents_pays`), at whatever
times the calls are made and in whatever order each meets the clients.  So the loop ends
(`processEvents_ends`), and the call that ends it leaves nothing overdue
(`processEvents_settles`).
-/
import UdpConnect.Lib.Budget
import UdpConnect.Proofs.Commute
import UdpConnect.Proofs.Losses
import UdpConnect.Wrapper

namespace UdpConnect

open Past Budget

/-! ### What events use up -/

/-- The endpoints whose flag says that they are connected. -/
def Protocol.connected (p : Protocol) : Finset UdcEndPointId :=
  p.clientsById.keys.filter fun id => (p.clientsById.lookup id).any fun r =>
    (p.heap r).isConnected

/-- How many endpoints wait for their connection, or have one that can be lost. -/
def Protocol.live (p : Protocol) : Nat := p.pendingClients.length + p.connected.card

def Note.isEvent : Note → Bool
  | .event _ _ => true
  | _ => false

/-- What a change may add: an endpoint, or a connection together with its event. -/
def Change.gain (ns : List Note) : Change → Nat
  | .connect _ _ _ => 1
  | .handle _ _ _ => 2 * ns.countP Note.isEvent
  | _ => 0

section Live

variable {p p' : Protocol} {c : Change} {ns : List Note} {id : UdcEndPointId} {r : ClientRef}
  {client : UdcClient}

theorem mem_connected : id ∈ p.connected ↔
    ∃ r, p.clientsById.lookup id = some r ∧ (p.heap r).isConnected = true := by
  unfold Protocol.connected
  rw [Finset.mem_filter, Finmap.mem_keys, ← Finmap.lookup_isSome]
  cases p.clientsById.lookup id with
  | none => simp
  | some r => simp

theorem connected_congr (hbyId : p'.clientsById = p.clientsById)
    (hflag : ∀ r, (p'.heap r).isConnected = (p.heap r).isConnected) :
    p'.connected = p.connected := by
  ext id
  rw [mem_connected, mem_connected, hbyId]
  simp only [hflag]

/-- A client that is written to is that of one endpoint. -/
theorem connected_setClient (hroot : Rooted p) (r : ClientRef) (client : UdcClient) :
    (p.setClient r client).connected ⊆ insert (p.heap r).id p.connected := by
  intro id hid
  obtain ⟨r', hlookup, hconn⟩ := mem_connected.mp hid
  have hself : (p.heap r').id = id := (hroot.byId id r' hlookup).2
  rw [heap_setClient] at hconn
  by_cases hr : r' = r
  · rw [hr] at hself
    exact Finset.mem_insert.mpr (Or.inl hself.symm)
  · rw [if_neg hr] at hconn
    exact Finset.mem_insert_of_mem (mem_connected.mpr ⟨r', hlookup, hconn⟩)

/-- An endpoint whose client is no longer connected is not. -/
theorem connected_lost (hlookup : p.clientsById.lookup id = some r)
    (hclient : client.isConnected = false) :
    (p.setClient r client).connected ⊆ p.connected.erase id := by
  intro id' hid
  obtain ⟨r', hlookup', hconn⟩ := mem_connected.mp hid
  rw [heap_setClient] at hconn
  by_cases hr : r' = r
  · rw [if_pos hr, hclient] at hconn
    cases hconn
  · rw [if_neg hr] at hconn
    refine Finset.mem_erase.mpr ⟨?_, mem_connected.mpr ⟨r', hlookup', hconn⟩⟩
    rintro rfl
    exact hr (Option.some.inj (hlookup'.symm.trans hlookup))

theorem connected_issue (hroot : Rooted p) (client : UdcClient) (id : UdcEndPointId) :
    ({ p with
      idCounter := id
      heap := Function.update p.heap p.nextRef client
      nextRef := p.nextRef + 1
      pendingClients := p.pendingClients ++ [p.nextRef] } : Protocol).connected
      ⊆ p.connected := by
  intro id' hid
  obtain ⟨r, hlookup, hconn⟩ := mem_connected.mp hid
  have hold : r ≠ p.nextRef := Nat.ne_of_lt (hroot.byId id' r hlookup).1
  have hkept : Function.update p.heap p.nextRef client r = p.heap r :=
    Function.update_of_ne hold ..
  refine mem_connected.mpr ⟨r, hlookup, ?_⟩
  rw [← hkept]
  exact hconn

theorem connected_accept (hroot : Rooted p) (rest : List ClientRef) (address : UdcAddressMux)
    (r : ClientRef) (client : UdcClient) :
    ({ p.setClient r client with
      clientsById := p.clientsById.insert (p.heap r).id r
      clientsByAddress := p.clientsByAddress.insert address r
      pendingClients := rest } : Protocol).connected ⊆ insert (p.heap r).id p.connected := by
  intro id hid
  obtain ⟨r', hlookup, hconn⟩ := mem_connected.mp hid
  rcases lookup_insert_some.mp hlookup with ⟨hid, -⟩ | ⟨hne, hold⟩
  · exact Finset.mem_insert.mpr (Or.inl hid)
  · have hother : r' ≠ r := by
      intro hr
      rw [← hr] at hne
      exact hne (hroot.byId id r' hold).2.symm
    have hkept : (p.setClient r client).heap r' = p.heap r' :=
      p.heap_setClient_of_ne hother client
    refine Finset.mem_insert_of_mem (mem_connected.mpr ⟨r', hold, ?_⟩)
    rw [← hkept]
    exact hconn

theorem live_disconnect (p : Protocol) (id : UdcEndPointId) : (p.disconnect id).live ≤ p.live := by
  have hpending := (pending_disconnect p id).length_le
  have hconnected : (p.disconnect id).connected ⊆ p.connected := by
    intro id' hid
    obtain ⟨r, hlookup, hconn⟩ := mem_connected.mp hid
    rw [heap_disconnect] at hconn
    refine mem_connected.mpr ⟨r, ?_, hconn⟩
    unfold Protocol.disconnect at hlookup
    cases hfound : p.clientsById.lookup id with
    | none =>
        rw [hfound] at hlookup
        exact hlookup
    | some r' =>
        rw [hfound] at hlookup
        exact (lookup_erase_some.mp hlookup).2
  have hcard := Finset.card_le_card hconnected
  unfold Protocol.live
  omega

/-- **No change tells of more events than it uses up, and a connection made by a message is
paid for by that message.** -/
theorem live_effect (hroot : Rooted p) (h : p.Effect c p' ns) :
    p'.live + ns.countP Note.isEvent ≤ p.live + c.gain ns := by
  cases h with
  | issue client hid haddress hconn =>
      have hcard := Finset.card_le_card (connected_issue hroot client (u32 (p.idCounter + 1)))
      simp only [Protocol.live, List.length_append, List.length_singleton, Change.gain] at hcard ⊢
      have hcount : [Note.issued (u32 (p.idCounter + 1))].countP Note.isEvent = 0 := rfl
      omega
  | disconnect id => exact Nat.add_le_add (live_disconnect p id) (Nat.le_refl 0)
  | expire hpending =>
      simp only [Protocol.live, hpending, List.length_cons, Change.gain]
      exact Nat.le_of_eq (Nat.add_right_comm _ _ _)
  | @accept address time r rest client hpending hsame hconn hfree =>
      have hcard := (Finset.card_le_card (connected_accept hroot rest address r client)).trans
        (Finset.card_insert_le _ _)
      have hlength : p.pendingClients.length = rest.length + 1 := by rw [hpending, List.length_cons]
      have hcount : [Note.event .connectionSuccess (p.heap r).id].countP Note.isEvent = 1 := rfl
      simp only [Protocol.live, Change.gain] at hcard ⊢
      omega
  | @lose id time r client hlookup hsame hwas hconn =>
      have hcard := Finset.card_le_card (connected_lost hlookup hconn)
      rw [Finset.card_erase_of_mem (mem_connected.mpr ⟨r, hlookup, hwas⟩)] at hcard
      have hpos : 0 < p.connected.card :=
        Finset.card_pos.mpr ⟨id, mem_connected.mpr ⟨r, hlookup, hwas⟩⟩
      have hcount : [Note.event .connectionLost (p.heap r).id].countP Note.isEvent = 1 := rfl
      have hpending : (p.setClient r client).pendingClients = p.pendingClients := rfl
      simp only [Protocol.live, hpending, Change.gain]
      omega
  | @regain address time m timeStamp r client hm htime hlookup hsame hwas hconn =>
      have hcard := (Finset.card_le_card (connected_setClient hroot r client)).trans
        (Finset.card_insert_le _ _)
      have hcount : [Note.event .connectionRegained (p.heap r).id].countP Note.isEvent = 1 := rfl
      have hpending : (p.setClient r client).pendingClients = p.pendingClients := rfl
      simp only [Protocol.live, hpending, Change.gain]
      omega
  | update client hsame hconn =>
      have hsame : (p.setClient _ client).connected = p.connected :=
        connected_congr rfl fun r' => by
          rw [heap_setClient]
          split
          · rename_i hr
            rw [hr, hconn]
          · rfl
      rw [Protocol.live, hsame]
      exact Nat.le_add_right _ _
  | other states =>
      have hsame : ({ p with reliableStates := states } : Protocol).connected = p.connected :=
        connected_congr rfl fun _ => rfl
      rw [Protocol.live, hsame]
      exact Nat.le_add_right _ _

end Live

/-! ### The balance of a server -/

/-- Two for what is queued at a socket, one for an endpoint that waits or is connected. -/
def UdcServerImpl.balance (s : UdcServerImpl) : Nat := 2 * s.socket.backlog + s.protocol.live

/-- One for an event, nothing for a null pointer. -/
def spent (event : Option UdcEvent) : Nat := event.toList.length

section Balance

variable {s s' : UdcServerImpl} {event : Option UdcEvent} {r : Reaction} {time : Milliseconds}

theorem Performs.backlog (h : Performs s s' event r) :
    s'.socket.backlog = s.socket.backlog := by
  obtain ⟨new, hsocket, -⟩ := h.socket
  rw [hsocket]
  rfl

/-- What a change does to the balance, with the events it tells of. -/
theorem balance_change (hroot : Rooted s.protocol) (c : Change)
    (hstate : s'.protocol = (s.protocol.change c).state)
    (hbacklog : s'.socket.backlog = s.socket.backlog) (hfree : ∀ ns, c.gain ns = 0) :
    Rooted s'.protocol ∧ s'.balance +
      ((s.protocol.change c).report.bind Report.note).toList.countP Note.isEvent ≤ s.balance := by
  have heffect := change_effect (p := s.protocol) c
  have hlive := live_effect hroot heffect
  rw [List.countP_append, hfree] at hlive
  refine ⟨hstate ▸ rooted_effect hroot heffect, ?_⟩
  rw [UdcServerImpl.balance, UdcServerImpl.balance, hstate, hbacklog]
  omega

theorem poll_report (p : Protocol) (time : Milliseconds) : (p.poll time).report = none ∨
    ∃ eventType id, (p.poll time).report = some (.connection eventType id) := by
  unfold Protocol.poll
  cases p.pendingClients.head? with
  | none => exact Or.inl rfl
  | some r =>
      by_cases htimeout : (p.heap r).needsConnectionTimeoutEvent time
      · simp only [if_pos htimeout]
        exact Or.inr ⟨_, _, rfl⟩
      · simp only [if_neg htimeout]
        split <;> exact Or.inl rfl

theorem tick_report (p : Protocol) (id : UdcEndPointId) (time : Milliseconds) :
    (p.tick id time).report = none ∨
      ∃ eventType id', (p.tick id time).report = some (.connection eventType id') := by
  unfold Protocol.tick
  cases p.clientsById.lookup id with
  | none => exact Or.inl rfl
  | some r =>
      simp only [Protocol.tickClient]
      split
      · exact Or.inr ⟨_, _, rfl⟩
      · exact Or.inl rfl

/-- Where only connections are reported, every event is counted. -/
theorem spent_eq {b : MessageBuffer} {report : Option Report}
    (h : event.map (UdcEvent.report b) = report)
    (hkind : report = none ∨ ∃ eventType id, report = some (.connection eventType id)) :
    spent event = (report.bind Report.note).toList.countP Note.isEvent := by
  rcases hkind with rfl | ⟨eventType, id, rfl⟩
  · rw [Option.map_eq_none_iff.mp h]
    rfl
  · obtain ⟨e, rfl, -⟩ := Option.map_eq_some_iff.mp h
    rfl

theorem balance_updatePendingClients (hroot : Rooted s.protocol) (time : Milliseconds) :
    Rooted (s.updatePendingClients time).1.protocol ∧
      (s.updatePendingClients time).1.balance + spent (s.updatePendingClients time).2
        ≤ s.balance := by
  have hperf := updatePendingClients_performs (s := s) time
  rw [spent_eq hperf.report (poll_report _ _)]
  exact balance_change hroot (.poll time) hperf.state hperf.backlog fun _ => rfl

theorem balance_tick (hroot : Rooted s.protocol) {id : UdcEndPointId}
    (hperf : Performs s s' event (s.protocol.tick id time)) :
    Rooted s'.protocol ∧ s'.balance + spent event ≤ s.balance := by
  rw [spent_eq hperf.report (tick_report _ _ _)]
  exact balance_change hroot (.tick id time) hperf.state hperf.backlog fun _ => rfl

/-- A balance that goes down by what is spent goes down along all that is met. -/
theorem balance_updateClientConnectionStatus (hroot : Rooted s.protocol) (time : Milliseconds)
    (order : List UdcEndPointId) :
    Rooted (s.updateClientConnectionStatus time order).1.protocol ∧
      (s.updateClientConnectionStatus time order).1.balance
        + spent (s.updateClientConnectionStatus time order).2 ≤ s.balance := by
  refine updateClientConnectionStatus_rule time
    (P := fun t => Rooted t.protocol ∧ t.balance ≤ s.balance)
    (Q := fun t event => Rooted t.protocol ∧ t.balance + spent event ≤ s.balance)
    ?_ ?_ ?_ order s ⟨hroot, Nat.le_refl _⟩
  · intro t ht
    exact ht
  · intro t id t' ht hperf
    obtain ⟨hroot', hle⟩ := balance_tick ht.1 hperf
    exact ⟨hroot', (Nat.le_of_add_right_le hle).trans ht.2⟩
  · intro t id t' e ht hperf
    obtain ⟨hroot', hle⟩ := balance_tick ht.1 hperf
    exact ⟨hroot', hle.trans ht.2⟩

/-- A datagram brings at most one connection back. -/
theorem live_react {p : Protocol} (hroot : Rooted p) (signature : UdcSignature)
    (time : Milliseconds) (packet : Packet) :
    Rooted (p.react signature time packet).state ∧
      (p.react signature time packet).state.live ≤ p.live + 1 := by
  unfold Protocol.react
  cases decode signature.bytes packet.bytes with
  | none => exact ⟨hroot, Nat.le_succ _⟩
  | some m =>
      have heffect := change_effect (p := p) (.handle packet.address time m)
      have hlive := live_effect hroot heffect
      have hone : ((p.change (.handle packet.address time m)).report.bind Report.note).toList.countP
          Note.isEvent ≤ 1 := List.countP_le_length.trans Option.length_toList_le
      simp only [Change.gain, Change.note, Option.toList_none, List.nil_append] at hlive
      refine ⟨rooted_effect hroot heffect, ?_⟩
      simp only [Protocol.change] at hlive hone
      show (p.handle packet.address time m).state.live ≤ p.live + 1
      omega

/-- A datagram is worth two: an event and the connection it may bring back. -/
theorem balance_turn (hroot : Rooted s.protocol) {packet : Packet}
    (h : Turn time s packet s' event) :
    Rooted s'.protocol ∧ s'.balance + spent event ≤ s.balance := by
  have hspent : spent event ≤ 1 := Option.length_toList_le
  have hbacklog := h.backlog
  obtain ⟨hroot', hlive⟩ := live_react hroot s.packetSignature time packet
  rw [← h.state] at hroot' hlive
  refine ⟨hroot', ?_⟩
  rw [UdcServerImpl.balance, UdcServerImpl.balance]
  omega

theorem balance_receiveMessages (hroot : Rooted s.protocol) (time : Milliseconds) :
    Rooted (s.receiveMessages time).1.protocol ∧
      (s.receiveMessages time).1.balance + spent (s.receiveMessages time).2 ≤ s.balance := by
  refine receiveMessages_rule (s := s) time
    (P := fun t => Rooted t.protocol ∧ t.balance ≤ s.balance)
    (Q := fun t event => Rooted t.protocol ∧ t.balance + spent event ≤ s.balance)
    (C := fun _ => True) ?_ ?_ ?_ (fun _ _ => trivial) ⟨hroot, Nat.le_refl _⟩
  · intro t t' ht hlast
    refine ⟨hlast.state ▸ ht.1, ?_⟩
    have hle := ht.2
    have hbacklog := hlast.backlog
    rw [UdcServerImpl.balance] at hle ⊢
    rw [hlast.state]
    exact (Nat.add_le_add_right (Nat.mul_le_mul_left 2 hbacklog) _).trans hle
  · intro t packet t' ht hturn _
    obtain ⟨hroot', hle⟩ := balance_turn ht.1 hturn
    exact ⟨hroot', (Nat.le_of_add_right_le hle).trans ht.2⟩
  · intro t packet t' e ht hturn _
    obtain ⟨hroot', hle⟩ := balance_turn ht.1 hturn
    exact ⟨hroot', hle.trans ht.2⟩

/-- One call of `udcProcessEvents` stops at the first of three calls that has an event. -/
theorem udcProcessEvents_cases (s : UdcServerImpl) (order : List UdcEndPointId)
    (time : Milliseconds) :
    ((s.updatePendingClients time).2 ≠ none ∧
        udcProcessEvents s order time = s.updatePendingClients time) ∨
      ((s.updatePendingClients time).2 = none ∧
        (((s.updatePendingClients time).1.updateClientConnectionStatus time order).2 ≠ none ∧
            udcProcessEvents s order time
              = (s.updatePendingClients time).1.updateClientConnectionStatus time order ∨
          ((s.updatePendingClients time).1.updateClientConnectionStatus time order).2 = none ∧
            udcProcessEvents s order time
              = ((s.updatePendingClients time).1.updateClientConnectionStatus time
                  order).1.receiveMessages time)) := by
  unfold udcProcessEvents
  rcases s.updatePendingClients time with ⟨s₁, _ | e₁⟩
  · refine Or.inr ⟨rfl, ?_⟩
    dsimp only
    rcases s₁.updateClientConnectionStatus time order with ⟨s₂, _ | e₂⟩
    · exact Or.inr ⟨rfl, rfl⟩
    · exact Or.inl ⟨Option.some_ne_none _, rfl⟩
  · exact Or.inl ⟨Option.some_ne_none _, rfl⟩

/-- **Every event of `udcProcessEvents` is paid for.** -/
theorem balance_udcProcessEvents (hroot : Rooted s.protocol) (order : List UdcEndPointId)
    (time : Milliseconds) :
    Rooted (udcProcessEvents s order time).1.protocol ∧
      (udcProcessEvents s order time).1.balance + spent (udcProcessEvents s order time).2
        ≤ s.balance := by
  obtain ⟨hroot₁, hle₁⟩ := balance_updatePendingClients hroot time
  obtain ⟨hroot₂, hle₂⟩ := balance_updateClientConnectionStatus hroot₁ time order
  obtain ⟨hroot₃, hle₃⟩ := balance_receiveMessages hroot₂ time
  rcases udcProcessEvents_cases s order time with
    ⟨-, hsame⟩ | ⟨-, ⟨-, hsame⟩ | ⟨-, hsame⟩⟩
  · rw [hsame]
    exact ⟨hroot₁, hle₁⟩
  · rw [hsame]
    exact ⟨hroot₂, hle₂.trans (Nat.le_of_add_right_le hle₁)⟩
  · rw [hsame]
    exact ⟨hroot₃, (hle₃.trans (Nat.le_of_add_right_le hle₂)).trans (Nat.le_of_add_right_le hle₁)⟩

end Balance

/-! ### The loop -/

/-- A handler sends messages and disconnects endpoints. -/
def Op.Handles : Op → Prop
  | .sendMessage _ _ _ | .disconnect _ => True
  | _ => False

instance (op : Op) : Decidable op.Handles := by
  induction op using Op.casesOn <;> unfold Op.Handles <;> infer_instance

namespace Frame

def Allowed (s : UdcServerImpl) (x : Frame) : Prop :=
  Throughout (fun s op => op.Admissible s ∧ op.Handles) (udcProcessEvents s x.order x.time).1
    x.handler

instance (s : UdcServerImpl) (x : Frame) : Decidable (x.Allowed s) :=
  inferInstanceAs (Decidable (Throughout _ _ _))

end Frame

section Loop

variable {s : UdcServerImpl} {op : Op} {signature : UdcSignature} {buffer : MessageBuffer}
  {trace : List (Op × Outcome)} {frames : List Frame}

theorem balance_handler (hroot : Rooted s.protocol) (hadm : op.Admissible s) (h : op.Handles) :
    Rooted (step s op).1.protocol ∧ (step s op).1.balance ≤ s.balance := by
  have hidle : ∀ {s'}, Performs s s' none s.protocol.idle →
      Rooted s'.protocol ∧ s'.balance ≤ s.balance := by
    intro s' hperf
    rw [UdcServerImpl.balance, UdcServerImpl.balance, hperf.state, hperf.backlog]
    exact ⟨hroot, Nat.le_refl _⟩
  have hchange : ∀ {s' r} (c : Change), (∀ ns, c.gain ns = 0) → Performs s s' none r →
      r.state = (s.protocol.change c).state → Rooted s'.protocol ∧ s'.balance ≤ s.balance := by
    intro s' r c hfree hperf hstate
    obtain ⟨hroot', hle⟩ :=
      balance_change hroot c (hperf.state.trans hstate) hperf.backlog hfree
    exact ⟨hroot', Nat.le_of_add_right_le hle⟩
  cases op with
  | disconnect id =>
      exact hchange (.disconnect id) (fun _ => rfl) (disconnectFromClient_performs id) rfl
  | sendMessage id data reliability =>
      cases reliability with
      | unreliableMessage =>
          obtain ⟨r, hperf, rfl | ⟨rfl, -⟩⟩ :=
            sendUnreliableMessage_performs (s := s) id hadm.2
          · exact hidle hperf
          · exact hchange (.say id data) (fun _ => rfl) hperf rfl
      | reliableMessage =>
          obtain ⟨state, hperf, ⟨rfl, -⟩ | ⟨rfl, -⟩⟩ :=
            sendReliableMessage_performs (s := s) id data
          · exact hidle hperf
          · exact hchange (.push id data) (fun _ => rfl) hperf rfl
  | _ => exact h.elim

theorem frame_pays : Pays Frame.next Frame.Allowed (fun s => Rooted s.protocol)
    (fun s x => spent (x.event s)) (fun _ _ => 0) UdcServerImpl.balance := by
  have hstep : ∀ (ops : List Op) (s : UdcServerImpl), Rooted s.protocol →
      Throughout (fun s op => op.Admissible s ∧ op.Handles) s ops →
      Rooted (runState s ops).protocol ∧ (runState s ops).balance ≤ s.balance := by
    intro ops
    induction ops with
    | nil => exact fun s hroot _ => ⟨hroot, Nat.le_refl _⟩
    | cons op ops ih =>
        intro s hroot h
        obtain ⟨hroot', hle⟩ := balance_handler hroot h.1.1 h.1.2
        obtain ⟨hroot'', hle'⟩ := ih _ hroot' h.2
        exact ⟨hroot'', hle'.trans hle⟩
  refine ⟨fun s x hroot h => ?_, fun s x hroot h => ?_⟩
  · exact (hstep _ _ (balance_udcProcessEvents hroot x.order x.time).1 h).1
  · obtain ⟨hroot', hle⟩ := balance_udcProcessEvents hroot x.order x.time
    have hhandled := (hstep _ _ hroot' h).2
    rw [Frame.event, Frame.next]
    omega

/-- **The loop ends: whatever the handlers send and disconnect, a null pointer comes back at
the latest when the datagrams, the pending endpoints and the connections are used up.** -/
theorem processEvents_ends (run : ServerRun signature buffer trace s)
    (hframes : Always Frame.next Frame.Allowed s frames)
    (hlong : 2 * s.socket.backlog + (s.pendingClients.length + s.protocol.connected.card)
      < frames.length) :
    Once Frame.next (fun s x => x.event s = none) s frames := by
  have honce := frame_pays.exists_free (rooted_serverRun run) hframes hlong
  obtain ⟨before, x, after, hsplit, hfree⟩ := honce
  exact ⟨before, x, after, hsplit, Option.toList_eq_nil_iff.mp (List.length_eq_zero_iff.mp hfree)⟩

/-- Two lost connections are reported, and handled, before the loop ends. -/
theorem processEvents_ends_lost : Once Frame.next (fun s x => x.event s = none)
    (runState exampleServer bothOps)
    [⟨[1, 2], exampleTime + 100, [.sendMessage 2 [7] .unreliableMessage]⟩,
      ⟨[2, 1], exampleTime + 100, [.disconnect 1]⟩, ⟨[2], exampleTime + 100, []⟩] :=
  processEvents_ends (run_of_admissible bothOps (by decide)) (by decide) (by decide)

end Loop

/-! ### What is left when nothing is returned -/

/-- Every client has been given its settings by a connect call. -/
def Configured (p : Protocol) : Prop :=
  ∀ r < p.nextRef, ∃ id address timeout time, 0 < timeout ∧
    (p.heap r).settings = settingsOf id address timeout time

/-- The endpoint in front need not be told to wait or to try again, and no connection is due to
be lost, unless its period is not even a millisecond. -/
structure Settled (time : Milliseconds) (p : Protocol) : Prop where
  timeout : ∀ r, p.pendingClients.head? = some r →
    (p.heap r).needsConnectionTimeoutEvent time = false
  attempt : ∀ r, p.pendingClients.head? = some r → (p.heap r).needsConnectionAttempt time = false
  lost : ∀ id r, p.clientsById.lookup id = some r → 0 < (p.heap r).connectionLostPeriod →
    (p.heap r).needsConnectionLostEvent time = false

section Settled

variable {s s' : UdcServerImpl} {p : Protocol} {c : Change} {op : Op} {time : Milliseconds}
  {order : List UdcEndPointId} {signature : UdcSignature} {buffer : MessageBuffer}
  {trace : List (Op × Outcome)}

/-- Only a connect call makes clients. -/
theorem nextRef_change_eq (hc : ¬ ∃ address timeout time, c = .connect address timeout time) :
    (p.change c).state.nextRef = p.nextRef := by
  have heffect := change_effect (p := p) c
  generalize (p.change c).state = p', c.note.toList ++ _ = ns at heffect
  cases heffect with
  | issue client hid haddress hconn => exact absurd ⟨_, _, _, rfl⟩ hc
  | disconnect endPointId => exact nextRef_disconnect p endPointId
  | _ => rfl

section Clients

variable {F : UdcClient → Prop}

theorem clients_connect (hnew : ∀ id address (timeout : Nat) time, id < 2 ^ 32 → 0 < timeout →
      F ((UdcClient.new id address timeout (tenth timeout)).startConnecting time))
    (h : ∀ r < p.nextRef, F (p.heap r)) (address : UdcAddressMux) (timeout : Nat) :
    ∀ r < (p.connect address timeout time).state.nextRef,
      F ((p.connect address timeout time).state.heap r) := by
  unfold Protocol.connect
  by_cases hzero : timeout = 0
  · rw [if_pos hzero]
    exact h
  · rw [if_neg hzero]
    intro r hr
    by_cases hr' : r = p.nextRef
    · subst hr'
      simp only [Function.update_self]
      exact hnew _ address timeout time (u32_lt _) (Nat.pos_of_ne_zero hzero)
    · simp only [Function.update_of_ne hr']
      exact h r (Nat.lt_of_le_of_ne (Nat.le_of_lt_succ hr) hr')

/-- **What a client is made with, and no step of a client takes away, every client has.** -/
theorem clients_run (hnew : ∀ id address (timeout : Nat) time, id < 2 ^ 32 → 0 < timeout →
      F ((UdcClient.new id address timeout (tenth timeout)).startConnecting time))
    (hstep : ∀ (p : Protocol) r c k, p.ClientStep r c k → F (p.heap r) → F k)
    (run : ServerRun signature buffer trace s) : ∀ r < s.nextRef, F (s.heap r) := by
  refine run.preserves (P := fun s => ∀ r < s.nextRef, F (s.heap r))
    (fun r hr => (Nat.not_lt_zero r hr).elim) ?_
  rintro s ⟨op, outcome⟩ s' hs ⟨hadm, heq⟩
  have hs' : s' = (step s op).1 := by rw [heq]
  rw [hs']
  refine step_stages (P := fun s => ∀ r < s.nextRef, F (s.heap r)) hadm ?_ hs
  intro t t' ht hstage
  show ∀ r < t'.protocol.nextRef, F (t'.protocol.heap r)
  rcases hstage.state with hsame | ⟨c, hstate, -⟩
  · rw [hsame]
    exact ht
  · rw [hstate]
    by_cases hc : ∃ address timeout time, c = .connect address timeout time
    · obtain ⟨address, timeout, time, rfl⟩ := hc
      exact clients_connect hnew ht address timeout
    · intro r hr
      rw [nextRef_change_eq hc] at hr
      exact hstep _ _ _ _ (client_step c fun hc' => absurd hc' hc) (ht r hr)

end Clients

theorem configured_run (run : ServerRun signature buffer trace s) : Configured s.protocol :=
  clients_run (F := fun c => ∃ id address timeout time, 0 < timeout ∧
      c.settings = settingsOf id address timeout time)
    (fun id address timeout time _ hpos => ⟨id, address, timeout, time, hpos, rfl⟩)
    (fun _ _ _ _ hstep h => by rw [hstep.settings]; exact h) run

/-- A turn that tells of nothing leaves everybody's place, and a client alone or refreshed. -/
theorem quiet_handle {address : UdcAddressMux} {m : Message}
    (hquiet : (p.handle address time m).report.bind Report.note = none) :
    (p.handle address time m).state.pendingClients = p.pendingClients ∧
      (p.handle address time m).state.clientsById = p.clientsById ∧
      ∀ r, (p.handle address time m).state.heap r = p.heap r ∨
        ((p.handle address time m).state.heap r).settings = (p.heap r).settings ∧
        ((p.handle address time m).state.heap r).prevConnectAttemptTime
          = (p.heap r).prevConnectAttemptTime ∧
        ((p.handle address time m).state.heap r).lastReceivedTime = time := by
  have heffect := change_effect (p := p) (.handle address time m)
  rw [show (p.change (.handle address time m)).report = (p.handle address time m).report from rfl,
    hquiet] at heffect
  have hplaces : (p.handle address time m).state.pendingClients = p.pendingClients ∧
      (p.handle address time m).state.clientsById = p.clientsById := by
    rw [show (p.handle address time m).state = (p.change (.handle address time m)).state from rfl]
    generalize (p.change (.handle address time m)).state = p' at heffect
    cases heffect with
    | update client hsame hconn => exact ⟨rfl, rfl⟩
    | other states => exact ⟨rfl, rfl⟩
  refine ⟨hplaces.1, hplaces.2, fun r => ?_⟩
  have hstep := handle_step p r address time m
  generalize (p.handle address time m).state.heap r = c' at hstep
  cases hstep with
  | same => exact Or.inl rfl
  | handshake h =>
      rw [receiveConnectionHandshake_eq]
      exact Or.inr ⟨rfl, rfl, rfl⟩
  | pong h =>
      rw [receivePong_eq]
      exact Or.inr ⟨rfl, rfl, rfl⟩
  | @reliableHandshake _ _ kind _ h =>
      obtain ⟨state, sent, queue, haccept⟩ := acceptHandshake_only (p.heap r) (stateOf kind)
      rw [receivePong_eq, haccept]
      exact Or.inr ⟨rfl, rfl, rfl⟩

theorem needsTimeout_congr {client client' : UdcClient} (h : client'.settings = client.settings)
    (time : Milliseconds) : client'.needsConnectionTimeoutEvent time
      = client.needsConnectionTimeoutEvent time := by
  unfold UdcClient.needsConnectionTimeoutEvent
  rw [show client'.firstConnectAttemptTime = client.firstConnectAttemptTime from
      congrArg Settings.firstConnectAttemptTime h,
    show client'.connectionTimeoutPeriod = client.connectionTimeoutPeriod from
      congrArg Settings.connectionTimeoutPeriod h]

theorem needsAttempt_congr {client client' : UdcClient} (h : client'.settings = client.settings)
    (hprev : client'.prevConnectAttemptTime = client.prevConnectAttemptTime)
    (time : Milliseconds) : client'.needsConnectionAttempt time
      = client.needsConnectionAttempt time := by
  unfold UdcClient.needsConnectionAttempt
  rw [hprev, show client'.connectionAttemptPeriod = client.connectionAttemptPeriod from
      congrArg Settings.connectionAttemptPeriod h]

theorem settled_handle (h : Settled time p) {address : UdcAddressMux} {m : Message}
    (hquiet : (p.handle address time m).report.bind Report.note = none) :
    Settled time (p.handle address time m).state := by
  obtain ⟨hpending, hbyId, hclient⟩ := quiet_handle hquiet
  refine ⟨?_, ?_, ?_⟩
  · intro r hr
    rw [hpending] at hr
    rcases hclient r with hsame | ⟨hsettings, -⟩
    · rw [hsame]
      exact h.timeout r hr
    · rw [needsTimeout_congr hsettings]
      exact h.timeout r hr
  · intro r hr
    rw [hpending] at hr
    rcases hclient r with hsame | ⟨hsettings, hprev, -⟩
    · rw [hsame]
      exact h.attempt r hr
    · rw [needsAttempt_congr hsettings hprev]
      exact h.attempt r hr
  · intro id r hr hpos
    rw [hbyId] at hr
    rcases hclient r with hsame | ⟨-, -, hheard⟩
    · rw [hsame] at hpos ⊢
      exact h.lost id r hr hpos
    · unfold UdcClient.needsConnectionLostEvent
      rw [hheard, Int.sub_self, decide_eq_false (Int.not_le.mpr hpos), Bool.and_false]

/-- A turn without an event leaves a settled server settled. -/
theorem settled_receiveMessages (h : Settled time s.protocol)
    (hnull : (s.receiveMessages time).2 = none) :
    Settled time (s.receiveMessages time).1.protocol := by
  refine receiveMessages_rule (s := s) time (P := fun t => Settled time t.protocol)
    (Q := fun t event => event = none → Settled time t.protocol) (C := fun _ => True)
    ?_ ?_ ?_ (fun _ _ => trivial) h hnull
  · intro t t' ht hlast _
    rw [hlast.state]
    exact ht
  · intro t packet t' ht hturn _
    rcases protocol_turn hturn with ⟨-, hsame⟩ | ⟨m, hm, hstate⟩
    · rw [hsame]
      exact ht
    · rw [hstate]
      have hreport := hturn.report
      unfold Protocol.react at hreport
      rw [hm, Option.map_none] at hreport
      refine settled_handle ht ?_
      rw [show (t.protocol.handle packet.address time m).report = none from hreport.symm]
      rfl
  · intro t packet t' e ht hturn _ hnone
    cases hnone

/-- The endpoint in front has been tried now, or has not been due. -/
theorem settled_poll (hconf : Configured p) (hroot : Rooted p)
    (hnull : (p.poll time).report = none) :
    (p.poll time).state.pendingClients = p.pendingClients ∧
      (p.poll time).state.clientsById = p.clientsById ∧ ∀ r, p.pendingClients.head? = some r →
        ((p.poll time).state.heap r).needsConnectionTimeoutEvent time = false ∧
          ((p.poll time).state.heap r).needsConnectionAttempt time = false := by
  unfold Protocol.poll at hnull ⊢
  cases hhead : p.pendingClients.head? with
  | none => exact ⟨rfl, rfl, fun r hr => by cases hr⟩
  | some r =>
      rw [hhead] at hnull
      by_cases htimeout : (p.heap r).needsConnectionTimeoutEvent time
      · simp only [if_pos htimeout] at hnull
        cases hnull
      · have hearly := Bool.not_eq_true _ ▸ htimeout
        by_cases hattempt : (p.heap r).needsConnectionAttempt time
        · simp only [if_neg htimeout, if_pos hattempt]
          refine ⟨rfl, rfl, ?_⟩
          rintro r' ⟨⟩
          obtain ⟨id, address, timeout, first, hpos, hsettings⟩ :=
            hconf r (hroot.pending r (List.mem_of_mem_head? hhead))
          have hperiod : (p.heap r).connectionAttemptPeriod = timeout :=
            congrArg Settings.connectionAttemptPeriod hsettings
          have hnow : ((p.heap r).retryConnecting time).needsConnectionAttempt time = false := by
            unfold UdcClient.needsConnectionAttempt UdcClient.retryConnecting
            rw [Int.sub_self, hperiod]
            exact decide_eq_false (Int.not_le.mpr (Int.natCast_pos.mpr hpos))
          rw [Protocol.heap_setClient_self]
          exact ⟨hearly, hnow⟩
        · simp only [if_neg htimeout, if_neg hattempt]
          refine ⟨rfl, rfl, ?_⟩
          rintro r' ⟨⟩
          exact ⟨hearly, Bool.not_eq_true _ ▸ hattempt⟩

/-- Meeting the clients has no part in the waiting of the endpoints in the queue. -/
theorem tick_waiting (time : Milliseconds) (order : List UdcEndPointId) (s : UdcServerImpl) :
    (s.updateClientConnectionStatus time order).1.pendingClients = s.pendingClients ∧
      ∀ r, ((s.updateClientConnectionStatus time order).1.heap r).settings = (s.heap r).settings ∧
        ((s.updateClientConnectionStatus time order).1.heap r).prevConnectAttemptTime
          = (s.heap r).prevConnectAttemptTime := by
  have hstep : ∀ t t' id event, Performs t t' event (t.protocol.tick id time) →
      t'.pendingClients = t.pendingClients ∧ ∀ r, (t'.heap r).settings = (t.heap r).settings ∧
        (t'.heap r).prevConnectAttemptTime = (t.heap r).prevConnectAttemptTime := by
    intro t t' id event hperf
    have hpending := congrArg Protocol.pendingClients hperf.state
    have hheap := congrArg Protocol.heap hperf.state
    have htick : (t.protocol.tick id time).state.pendingClients = t.pendingClients := by
      unfold Protocol.tick
      cases t.protocol.clientsById.lookup id with
      | none => rfl
      | some r =>
          rw [tickClient_state]
          rfl
    refine ⟨hpending.trans htick, fun r => ?_⟩
    have hclient := client_step (p := t.protocol) (r := r) (.tick id time)
      (by rintro ⟨_, _, _, ⟨⟩⟩)
    have hkept := prevConnectAttemptTime_step hclient
    rw [show (t.protocol.change (.tick id time)).state.heap r = t'.heap r from
      (congrFun hheap r).symm] at hclient hkept
    refine ⟨hclient.settings, hkept.resolve_right ?_⟩
    rintro ⟨_, ⟨⟩, _⟩
  have htrans : ∀ t t' id event, (t.pendingClients = s.pendingClients ∧
      ∀ r, (t.heap r).settings = (s.heap r).settings ∧
        (t.heap r).prevConnectAttemptTime = (s.heap r).prevConnectAttemptTime) →
      Performs t t' event (t.protocol.tick id time) → t'.pendingClients = s.pendingClients ∧
        ∀ r, (t'.heap r).settings = (s.heap r).settings ∧
          (t'.heap r).prevConnectAttemptTime = (s.heap r).prevConnectAttemptTime := by
    intro t t' id event ht hperf
    obtain ⟨hpending, hclient⟩ := hstep t t' id event hperf
    exact ⟨hpending.trans ht.1, fun r =>
      ⟨(hclient r).1.trans (ht.2 r).1, (hclient r).2.trans (ht.2 r).2⟩⟩
  exact updateClientConnectionStatus_rule time
    (P := fun t => t.pendingClients = s.pendingClients ∧
      ∀ r, (t.heap r).settings = (s.heap r).settings ∧
        (t.heap r).prevConnectAttemptTime = (s.heap r).prevConnectAttemptTime)
    (Q := fun t _ => t.pendingClients = s.pendingClients ∧
      ∀ r, (t.heap r).settings = (s.heap r).settings ∧
        (t.heap r).prevConnectAttemptTime = (s.heap r).prevConnectAttemptTime)
    (fun t ht => ht) (fun t id t' ht hperf => htrans t t' id none ht hperf)
    (fun t id t' e ht hperf => htrans t t' id (some e) ht hperf) order s
    ⟨rfl, fun r => ⟨rfl, rfl⟩⟩

/-- **When a null pointer comes back nothing is overdue**: the endpoint in front has neither
timed out nor missed an attempt, and no connection is left that should have been reported lost. -/
theorem processEvents_settles (run : ServerRun signature buffer trace s)
    (horder : order.Nodup ∧ order.toFinset = s.clientsById.keys)
    (hnull : (udcProcessEvents s order time).2 = none) :
    Settled time (udcProcessEvents s order time).1.protocol := by
  have hroot := rooted_serverRun run
  rcases udcProcessEvents_cases s order time with
    ⟨hevent, hsame⟩ | ⟨hpoll, ⟨hevent, hsame⟩ | ⟨htick, hsame⟩⟩
  · rw [hsame] at hnull
    exact absurd hnull hevent
  · rw [hsame] at hnull
    exact absurd hnull hevent
  · rw [hsame] at hnull ⊢
    refine settled_receiveMessages ?_ hnull
    have hperf := updatePendingClients_performs (s := s) time
    have hreport := hperf.report
    rw [hpoll, Option.map_none] at hreport
    obtain ⟨hpending, hbyId, hwaiting⟩ := settled_poll (configured_run run) hroot hreport.symm
    have hsame₁ := hperf.state
    have hroot₁ := (balance_updatePendingClients hroot time).1
    have hadm : (Op.updateClientConnectionStatus time order).Admissible
        (s.updatePendingClients time).1 :=
      ⟨horder.1, horder.2.trans (congrArg Finmap.keys
        ((congrArg Protocol.clientsById hsame₁).trans hbyId)).symm⟩
    obtain ⟨-, hdue, honly⟩ := (poll_step hroot₁ hadm).resolve_right
      (fun ⟨e, he, _⟩ => by rw [htick] at he; cases he)
    obtain ⟨hqueue, hkept⟩ := tick_waiting time order (s.updatePendingClients time).1
    have hfront : ∀ r, ((s.updatePendingClients time).1.updateClientConnectionStatus time
        order).1.pendingClients.head? = some r →
        ((s.updatePendingClients time).1.heap r).needsConnectionTimeoutEvent time = false ∧
          ((s.updatePendingClients time).1.heap r).needsConnectionAttempt time = false := by
      intro r hr
      rw [hqueue, show (s.updatePendingClients time).1.pendingClients = s.pendingClients from
        (congrArg Protocol.pendingClients hsame₁).trans hpending] at hr
      rw [show (s.updatePendingClients time).1.heap = (s.protocol.poll time).state.heap from
        congrArg Protocol.heap hsame₁]
      exact hwaiting r hr
    refine ⟨?_, ?_, ?_⟩
    · intro r hr
      exact (needsTimeout_congr (hkept r).1 time).trans (hfront r hr).1
    · intro r hr
      exact (needsAttempt_congr (hkept r).1 (hkept r).2 time).trans (hfront r hr).2
    · intro id r hr _
      by_contra hneeds
      have hmem : id ∈ due time (s.updatePendingClients time).1 ∧ id ∉ [] :=
        (honly.mem_due_iff hroot₁).mp (mem_due.mpr ⟨r, hr, Bool.not_eq_false _ ▸ hneeds⟩)
      rw [hdue] at hmem
      exact Finset.notMem_empty id hmem.1

theorem processEvents_settles_connected : Settled (exampleTime + 50)
    (udcProcessEvents (runState exampleServer bothOps) [2, 1] (exampleTime + 50)).1.protocol :=
  processEvents_settles (run_of_admissible bothOps (by decide)) (by decide) (by decide)

end Settled

end UdpConnect
