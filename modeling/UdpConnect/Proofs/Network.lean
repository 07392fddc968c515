/-
Any number of servers, and the network between them.

Every address is one node's, or nobody's.  A datagram that has left a node may be handed
to the node at its destination, under any address of its sender, at any later time and
any number of times, or never: the network loses, delays, duplicates and reorders, but it
changes nothing and forges no source.

`success_answered` follows a success back to its connect call.  A connection handshake
has only an id in it, and the client it is accepted for is not the one its source address
would suggest.  That it comes from the right node is a fact about all nodes: whoever sends
a handshake has received a request with that id from where the handshake goes to, and only
one client of that server has ever had the id.
-/
import UdpConnect.Proofs.Replies

namespace UdpConnect

open Memory Past

/-! ### The network -/

structure Network (ι : Type) where
  node : ι → UdcServerImpl
  /-- The datagrams that have left a node, each with the node, oldest first. -/
  sent : List (ι × Packet)

inductive Move (ι : Type) where
  | call (node : ι) (op : Op)
  | deliver (sender : ι) (packet : Packet) (source : UdcAddressMux) (index : Nat)
      (negative : NegativeLength := .refused)

/-- Whether it is the operating system that hands over a datagram. -/
def Op.isDatagram : Op → Bool
  | .arriveIPv4 _ (.datagram _ _) | .arriveIPv6 _ (.datagram _ _) => true
  | _ => false

/-- What of a call's datagrams leaves the node: `send` needs a socket of the right family. -/
def leaving (before after : UdcServerImpl) : List Packet :=
  (newSent before after).filter fun p => after.socket.canSend p.address

section Network

variable {ι : Type} [DecidableEq ι] (owner : UdcAddressMux → Option ι)

/-- What a move is for one node. -/
def Move.at (n : ι) : Move ι → List Op
  | .call m op => if m = n then [op] else []
  | .deliver _ packet source index negative =>
      if owner packet.address = some n then [arrivalFrom negative source index packet] else []

namespace Network

def start (signature : ι → UdcSignature) (buffer : ι → MessageBuffer) : Network ι where
  node n := .new (signature n) (buffer n)
  sent := []

def step (net : Network ι) (move : Move ι) : Network ι where
  node n := runState (net.node n) (move.at owner n)
  sent := net.sent ++
    match move with
    | .call n op => (leaving (net.node n) (UdpConnect.step (net.node n) op).1).map fun p => (n, p)
    | .deliver _ _ _ _ _ => []

def after (net : Network ι) (moves : List (Move ι)) : Network ι :=
  moves.foldl (step owner) net

end Network

/-- The application makes any calls, and the network delivers what was sent by whom it says. -/
def Move.Allowed (net : Network ι) : Move ι → Prop
  | .call n op => op.Admissible (net.node n) ∧ op.isDatagram = false
  | .deliver sender packet source _ _ =>
      owner source = some sender ∧ (sender, packet) ∈ net.sent

instance (net : Network ι) (move : Move ι) : Decidable (move.Allowed owner net) := by
  induction move using Move.casesOn <;> unfold Move.Allowed <;> infer_instance

/-- Every move is allowed when its turn comes. -/
def NetworkRun (net : Network ι) (moves : List (Move ι)) : Prop :=
  Always (Network.step owner) (fun net move => move.Allowed owner net) net moves

instance (net : Network ι) (moves : List (Move ι)) : Decidable (NetworkRun owner net moves) := by
  unfold NetworkRun
  infer_instance

/-- The calls of one node in a run, with what arrives there. -/
def opsOf (n : ι) (moves : List (Move ι)) : List Op := moves.flatMap (Move.at owner n)

/-! ### One node of a run -/

variable {owner} {net : Network ι} {moves : List (Move ι)} {n : ι} {P : UdcServerImpl → Prop}

theorem node_after :
    (net.after owner moves).node n = runState (net.node n) (opsOf owner n moves) := by
  induction moves generalizing net with
  | nil => rfl
  | cons move moves ih =>
      have hrest := @ih (net.step owner move)
      rw [opsOf, List.flatMap_cons, runState, List.foldl_append]
      exact hrest

theorem after_append (moves' : List (Move ι)) :
    net.after owner (moves ++ moves') = (net.after owner moves).after owner moves' :=
  List.foldl_append

theorem admissible_at {move : Move ι} (h : move.Allowed owner net) :
    Throughout (fun s op => op.Admissible s) (net.node n) (move.at owner n) := by
  cases move with
  | call m op =>
      simp only [Move.at]
      split
      · rename_i hm
        rw [← hm]
        exact ⟨h.1, trivial⟩
      · trivial
  | deliver sender packet source index negative =>
      simp only [Move.at]
      split
      · obtain ⟨ip | ip, port⟩ := source <;> exact ⟨trivial, trivial⟩
      · trivial

theorem networkRun_append {moves' : List (Move ι)} (h : NetworkRun owner net (moves ++ moves')) :
    NetworkRun owner net moves ∧ NetworkRun owner (net.after owner moves) moves' :=
  always_append.mp h

theorem admissible_opsOf (h : NetworkRun owner net moves) :
    Throughout (fun s op => op.Admissible s) (net.node n) (opsOf owner n moves) := by
  unfold NetworkRun at h
  induction moves generalizing net with
  | nil => trivial
  | cons move moves ih =>
      rw [opsOf, List.flatMap_cons, throughout_append]
      exact ⟨admissible_at h.1, ih h.2⟩

/-- What every stage of every call keeps, a run of the network keeps at each node. -/
theorem node_stages (hstage : ∀ op t t', P t → Stage op t t' → P t')
    (h : NetworkRun owner net moves) (hP : P (net.node n)) :
    P ((net.after owner moves).node n) := by
  rw [node_after]
  exact run_stages hstage _ _ (admissible_opsOf h) hP

/-! ### Where datagrams come from -/

/-- Every datagram queued at a node was sent to the node, by the node it comes from. -/
def Genuine (owner : UdcAddressMux → Option ι) (net : Network ι) : Prop :=
  ∀ n name, ∀ q ∈ (net.node n).socket.inbox name, ∃ k p, (k, p) ∈ net.sent ∧
    owner q.address = some k ∧ owner p.address = some n ∧ q.bytes = p.bytes

section Inboxes

variable {s s' : UdcServerImpl} {op : Op}

/-- Only the operating system adds to what is queued. -/
theorem inbox_of_performs {event : Option UdcEvent} {r : Reaction} (h : Performs s s' event r)
    (name : SocketName) : s'.socket.inbox name = s.socket.inbox name := by
  obtain ⟨new, hsocket, -⟩ := h.socket
  rw [hsocket]
  cases name <;> rfl

theorem inboxAt_bound {Address : Type} (family : Address → UdcAddress)
    (sockets : List (UdcSocket Address)) (index : Nat) :
    inboxAt family (sockets ++ [⟨[]⟩]) index = inboxAt family sockets index := by
  unfold inboxAt
  by_cases hlt : index < sockets.length
  · rw [List.getElem?_append_left hlt]
  · rw [List.getElem?_eq_none (l := sockets) (Nat.not_lt.mp hlt),
      List.getElem?_append_right (Nat.not_lt.mp hlt)]
    cases index - sockets.length <;> rfl

theorem inboxAt_other {Address : Type} (family : Address → UdcAddress)
    (sockets : List (UdcSocket Address)) (index : Nat) {arrival : Arrival Address}
    (harrival : ∀ d negative, arrival ≠ .datagram d negative) (j : Nat) :
    inboxAt family (sockets.modify index fun s => ⟨s.pending ++ [arrival]⟩) j
      = inboxAt family sockets j := by
  unfold inboxAt
  rw [List.getElem?_modify]
  cases sockets[j]? with
  | none => rfl
  | some socket =>
      have hnone : UdcSocket.inbox family ⟨socket.pending ++ [arrival]⟩ = socket.inbox family := by
        cases arrival with
        | datagram d negative => exact absurd rfl (harrival d negative)
        | _ => simp [UdcSocket.inbox]
      by_cases hj : index = j
      · simp [hj, hnone]
      · simp [hj]

theorem inbox_tryBindIPv4 (bound : Bool) (name : SocketName) :
    (UdpConnect.step s (.tryBindIPv4 bound)).1.socket.inbox name = s.socket.inbox name := by
  cases bound with
  | false => rfl
  | true =>
      cases name with
      | ipv4 index => exact inboxAt_bound .ipv4 s.socket.socketIPv4 index
      | ipv6 index => rfl

theorem inbox_tryBindIPv6 (bound : Bool) (name : SocketName) :
    (UdpConnect.step s (.tryBindIPv6 bound)).1.socket.inbox name = s.socket.inbox name := by
  cases bound with
  | false => rfl
  | true =>
      cases name with
      | ipv4 index => rfl
      | ipv6 index => exact inboxAt_bound .ipv6 s.socket.socketIPv6 index

theorem inbox_arriveIPv4 {index : Nat} {arrival : Arrival UdcAddressIPv4}
    (hop : (Op.arriveIPv4 index arrival).isDatagram = false) (name : SocketName) :
    (UdpConnect.step s (.arriveIPv4 index arrival)).1.socket.inbox name = s.socket.inbox name := by
  have harrival : ∀ d negative, arrival ≠ .datagram d negative := by
    rintro d negative rfl
    cases hop
  cases name with
  | ipv4 j => exact inboxAt_other .ipv4 s.socket.socketIPv4 index harrival j
  | ipv6 j => rfl

theorem inbox_arriveIPv6 {index : Nat} {arrival : Arrival UdcAddressIPv6}
    (hop : (Op.arriveIPv6 index arrival).isDatagram = false) (name : SocketName) :
    (UdpConnect.step s (.arriveIPv6 index arrival)).1.socket.inbox name = s.socket.inbox name := by
  have harrival : ∀ d negative, arrival ≠ .datagram d negative := by
    rintro d negative rfl
    cases hop
  cases name with
  | ipv4 j => rfl
  | ipv6 j => exact inboxAt_other .ipv6 s.socket.socketIPv6 index harrival j

/-- A call of the application adds nothing to what is queued. -/
theorem inbox_step (hadm : op.Admissible s) (hop : op.isDatagram = false) :
    ∀ name, ∀ q ∈ (UdpConnect.step s op).1.socket.inbox name, q ∈ s.socket.inbox name := by
  intro name q hq
  cases op with
  | tryBindIPv4 bound => exact inbox_tryBindIPv4 bound name ▸ hq
  | tryBindIPv6 bound => exact inbox_tryBindIPv6 bound name ▸ hq
  | tryConnectIPv4 ip port timeout time =>
      exact inbox_of_performs (tryConnect_performs time ⟨.ipv4 ip, port⟩ timeout).1 name ▸ hq
  | tryConnectIPv6 ip port timeout time =>
      exact inbox_of_performs (tryConnect_performs time ⟨.ipv6 ip, port⟩ timeout).1 name ▸ hq
  | disconnect endPointId =>
      exact inbox_of_performs (disconnectFromClient_performs endPointId) name ▸ hq
  | sendMessage endPointId data reliability =>
      cases reliability with
      | unreliableMessage =>
          obtain ⟨r, hperf, -⟩ := sendUnreliableMessage_performs (s := s) endPointId hadm.2
          exact inbox_of_performs hperf name ▸ hq
      | reliableMessage =>
          obtain ⟨state, hperf, -⟩ := sendReliableMessage_performs (s := s) endPointId data
          exact inbox_of_performs hperf name ▸ hq
  | updatePendingClients time =>
      exact inbox_of_performs (updatePendingClients_performs time) name ▸ hq
  | updateClientConnectionStatus time order =>
      have hall := updateClientConnectionStatus_rule time
        (P := fun t => ∀ name, t.socket.inbox name = s.socket.inbox name)
        (Q := fun t _ => ∀ name, t.socket.inbox name = s.socket.inbox name)
        (fun _ h => h) ?_ ?_ order s fun _ => rfl
      · exact hall name ▸ hq
      · intro t id t' h hperf name
        exact (inbox_of_performs hperf name).trans (h name)
      · intro t id t' e h hperf name
        exact (inbox_of_performs hperf name).trans (h name)
  | receiveMessages time => exact (receives_receiveMessages s time).left name q hq
  | arriveIPv4 index arrival => exact inbox_arriveIPv4 hop name ▸ hq
  | arriveIPv6 index arrival => exact inbox_arriveIPv6 hop name ▸ hq

end Inboxes

theorem genuine_step {move : Move ι} (h : Genuine owner net) (hallowed : move.Allowed owner net) :
    Genuine owner (net.step owner move) := by
  have hgrows : ∀ x ∈ net.sent, x ∈ (net.step owner move).sent := fun x hx =>
    List.mem_append_left _ hx
  have hold : ∀ m name, ∀ q ∈ (net.node m).socket.inbox name, ∃ k p,
      (k, p) ∈ (net.step owner move).sent ∧ owner q.address = some k ∧
        owner p.address = some m ∧ q.bytes = p.bytes := by
    intro m name q hq
    obtain ⟨k, p, hsent, hrest⟩ := h m name q hq
    exact ⟨k, p, hgrows _ hsent, hrest⟩
  intro m name q hq
  cases move with
  | call m' op =>
      simp only [Network.step, Move.at] at hq
      split at hq
      · rename_i hm
        rw [← hm] at hq ⊢
        exact hold m' name q (inbox_step hallowed.1 hallowed.2 name q hq)
      · exact hold m name q hq
  | deliver sender packet source index negative =>
      simp only [Network.step, Move.at] at hq
      split at hq
      · rename_i howner
        obtain ⟨new, hnew, hinbox, hothers⟩ :=
          inbox_arrival (net.node m) negative source index packet
        have hq : q ∈ (UdpConnect.step (net.node m)
          (arrivalFrom negative source index packet)).1.socket.inbox name := hq
        by_cases hname : name = socketFor source index
        · rw [hname, hinbox] at hq
          rcases List.mem_append.mp hq with hq | hq
          · exact hold m _ q hq
          · rcases hnew with rfl | rfl
            · cases hq
            · rw [List.mem_singleton.mp hq]
              exact ⟨sender, packet, hgrows _ hallowed.2, hallowed.1, howner, rfl⟩
        · rw [hothers name hname] at hq
          exact hold m name q hq
      · exact hold m name q hq

omit [DecidableEq ι] in
theorem genuine_start (signature : ι → UdcSignature) (buffer : ι → MessageBuffer) :
    Genuine owner (Network.start signature buffer) := by
  intro m name q hq
  have hempty : ((Network.start signature buffer).node m).socket.inbox name = [] := by
    cases name <;> rfl
  rw [hempty] at hq
  cases hq

/-! ### The queue of those connecting -/

section Queue

variable {p p' : Protocol} {c : Change} {ns : List Note} {s s' : UdcServerImpl} {op : Op}
  {r : ClientRef}

/-- A change takes clients out of the queue, or puts a new one behind it. -/
theorem pending_effect (h : p.Effect c p' ns) :
    p'.pendingClients = p.pendingClients ++ [p.nextRef] ∨
      p'.pendingClients.Sublist p.pendingClients := by
  cases h with
  | issue c hid haddress hconn => exact Or.inl rfl
  | disconnect endPointId => exact Or.inr (pending_disconnect p endPointId)
  | expire hpending =>
      rw [hpending]
      exact Or.inr (List.sublist_cons_self _ _)
  | accept c hpending hsame hconn hfree =>
      rw [hpending]
      exact Or.inr (List.sublist_cons_self _ _)
  | lose c hlookup hsame hwas hconn => exact Or.inr (List.Sublist.refl _)
  | regain c hm htime hlookup hsame hwas hconn => exact Or.inr (List.Sublist.refl _)
  | update c hsame hconn => exact Or.inr (List.Sublist.refl _)
  | other states => exact Or.inr (List.Sublist.refl _)

theorem queue_stage (h : Stage op s s') : s.nextRef ≤ s'.nextRef ∧
    (s'.pendingClients = s.pendingClients ++ [s.nextRef] ∨
      s'.pendingClients.Sublist s.pendingClients) := by
  rcases h.state with hsame | ⟨c, hstate, -⟩
  · have hnext : s'.nextRef = s.nextRef := congrArg Protocol.nextRef hsame
    have hpending : s'.pendingClients = s.pendingClients := congrArg Protocol.pendingClients hsame
    rw [hnext, hpending]
    exact ⟨Nat.le_refl _, Or.inr (List.Sublist.refl _)⟩
  · have hnext : s'.nextRef = (s.protocol.change c).state.nextRef :=
      congrArg Protocol.nextRef hstate
    have hpending : s'.pendingClients = (s.protocol.change c).state.pendingClients :=
      congrArg Protocol.pendingClients hstate
    rw [hnext, hpending]
    exact ⟨nextRef_change s.protocol c, pending_effect (change_effect c)⟩

/-- The client exists, and nobody is before it in the queue. -/
structure Foremost (r : ClientRef) (s : UdcServerImpl) : Prop where
  lt : r < s.nextRef
  before : r ∉ s.pendingClients.tail

/-- The client exists and has left the queue. -/
structure Departed (r : ClientRef) (s : UdcServerImpl) : Prop where
  lt : r < s.nextRef
  gone : r ∉ s.pendingClients

theorem foremost_stage (h : Foremost r s) (hstage : Stage op s s') : Foremost r s' := by
  obtain ⟨hnext, hqueue⟩ := queue_stage hstage
  refine ⟨Nat.lt_of_lt_of_le h.lt hnext, ?_⟩
  intro hr
  rcases hqueue with hnew | hsub
  · cases hpending : s.pendingClients with
    | nil =>
        rw [hnew, hpending] at hr
        cases hr
    | cons front rest =>
        have hbefore := h.before
        rw [hnew, hpending] at hr
        rw [hpending] at hbefore
        rcases List.mem_append.mp hr with hr | hr
        · exact hbefore hr
        · exact Nat.ne_of_lt h.lt (List.mem_singleton.mp hr)
  · exact h.before (hsub.tail.subset hr)

theorem departed_stage (h : Departed r s) (hstage : Stage op s s') : Departed r s' := by
  obtain ⟨hnext, hqueue⟩ := queue_stage hstage
  refine ⟨Nat.lt_of_lt_of_le h.lt hnext, ?_⟩
  intro hr
  rcases hqueue with hnew | hsub
  · rw [hnew] at hr
    rcases List.mem_append.mp hr with hr | hr
    · exact h.gone hr
    · exact Nat.ne_of_lt h.lt (List.mem_singleton.mp hr)
  · exact h.gone (hsub.subset hr)

/-- The client in front is foremost, for a queue without repetition. -/
theorem foremost_of_front (hroot : Rooted s.protocol) (h : s.pendingClients.head? = some r) :
    Foremost r s := by
  have hpending : s.pendingClients = r :: s.pendingClients.tail := head_pending (p := s.protocol) h
  have hnodup : s.pendingClients.Nodup := hroot.nodup
  refine ⟨hroot.pending r (List.mem_of_mem_head? h), ?_⟩
  rw [hpending] at hnodup
  exact (List.nodup_cons.mp hnodup).1

theorem front_of_foremost (h : Foremost r s) (hr : r ∈ s.pendingClients) :
    s.pendingClients.head? = some r := by
  have hbefore := h.before
  cases hpending : s.pendingClients with
  | nil =>
      rw [hpending] at hr
      cases hr
  | cons front rest =>
      rw [hpending] at hr hbefore
      rcases List.mem_cons.mp hr with rfl | hr
      · rfl
      · exact absurd hr hbefore

/-! ### The connect call of a client -/

/-- Only a connect call takes a reference. -/
theorem nextRef_stage (hstage : Stage op s s')
    (hop : ∀ address timeout time, ¬ op.Asks s (.connect address timeout time)) :
    s'.nextRef = s.nextRef := by
  rcases hstage.state with hsame | ⟨c, hstate, hc⟩
  · exact congrArg Protocol.nextRef hsame
  · have hnext : s'.nextRef = (s.protocol.change c).state.nextRef :=
      congrArg Protocol.nextRef hstate
    have hconnect : ∀ address timeout time, c ≠ .connect address timeout time := by
      rintro address timeout time rfl
      rcases hc with hasks | ⟨address', time', m, hhandle⟩
      · exact hop address timeout time hasks
      · cases hhandle
    rw [hnext]
    have heffect := change_effect (p := s.protocol) c
    generalize (s.protocol.change c).state = p', c.note.toList ++ _ = ns at heffect
    cases heffect with
    | @issue address timeout time c' hid haddress hconn =>
        exact absurd rfl (hconnect address timeout time)
    | disconnect endPointId => exact nextRef_disconnect s.protocol endPointId
    | _ => rfl

theorem tryConnect_created {address : UdcAddressMux} {timeout : Nat} {time : Milliseconds}
    (hr : ¬ r < s.nextRef) (hr' : r < (tryConnect s address timeout time).1.nextRef) :
    r = s.nextRef ∧
      (tryConnect s address timeout time).2 = some (u32 (s.idCounter + 1)) := by
  unfold tryConnect at hr' ⊢
  by_cases hzero : timeout = 0
  · rw [if_pos hzero] at hr'
    exact absurd hr' hr
  · rw [if_neg hzero] at hr' ⊢
    have hlt : r < s.nextRef + 1 := hr'
    exact ⟨Nat.le_antisymm (Nat.lt_succ_iff.mp hlt) (Nat.not_lt.mp hr), rfl⟩

/-- **A reference that a call has taken is that of a client which the call has made.** -/
theorem created_step (hadm : op.Admissible s) (hr : ¬ r < s.nextRef)
    (hr' : r < (UdpConnect.step s op).1.nextRef) :
    ∃ client, op.Creates client s ∧ client.ref = r := by
  have hother :
      (∀ t address timeout time, ¬ op.Asks t (.connect address timeout time)) → False := by
    intro hasks
    have hsame := step_stages (P := fun t => t.nextRef = s.nextRef) hadm
      (fun t t' ht hstage => (nextRef_stage hstage (hasks t)).trans ht) rfl
    rw [hsame] at hr'
    exact hr hr'
  cases op with
  | tryConnectIPv4 ip port timeout time =>
      obtain ⟨rfl, hid⟩ := tryConnect_created hr hr'
      exact ⟨⟨_, _, _, _, _⟩, ⟨rfl, hid, rfl, rfl, rfl⟩, rfl⟩
  | tryConnectIPv6 ip port timeout time =>
      obtain ⟨rfl, hid⟩ := tryConnect_created hr hr'
      exact ⟨⟨_, _, _, _, _⟩, ⟨rfl, hid, rfl, rfl, rfl⟩, rfl⟩
  | _ =>
      refine absurd ?_ (fun h => hother h)
      intro t address timeout time hasks
      cases hasks

end Queue

/-! ### One move -/

section Moves

variable {move : Move ι} {k : ι} {p : Packet} {r : ClientRef}

/-- What has left a node has left it in one of its calls. -/
theorem sent_move (hbefore : (k, p) ∉ net.sent) (hafter : (k, p) ∈ (net.step owner move).sent) :
    ∃ op, move = .call k op ∧
      p ∈ leaving (net.node k) (UdpConnect.step (net.node k) op).1 := by
  rcases List.mem_append.mp hafter with hold | hnew
  · exact absurd hold hbefore
  · cases move with
    | call m op =>
        obtain ⟨p', hp', heq⟩ := List.mem_map.mp hnew
        obtain ⟨rfl, rfl⟩ := Prod.mk.inj heq
        exact ⟨op, rfl, hp'⟩
    | deliver sender packet source index negative => cases hnew

theorem mem_newSent {before after : UdcServerImpl} (h : p ∈ leaving before after) :
    p ∈ newSent before after := (List.mem_filter.mp h).1

theorem node_call {op : Op} : (net.step owner (.call n op)).node n = next (net.node n) op := by
  simp only [Network.step, Move.at, if_pos]
  rfl

/-- A reference that is taken at a node is taken by a connect call there. -/
theorem created_move (hallowed : move.Allowed owner net) (hr : ¬ r < (net.node n).nextRef)
    (hr' : r < ((net.step owner move).node n).nextRef) : ∃ op client, move = .call n op ∧
      op.Creates client (net.node n) ∧ client.ref = r := by
  have hadm := admissible_at (n := n) hallowed
  cases move with
  | call m op =>
      simp only [Network.step, Move.at] at hadm hr' ⊢
      by_cases hm : m = n
      · subst hm
        rw [if_pos rfl] at hadm hr'
        obtain ⟨client, hcreates, href⟩ := created_step hadm.1 hr hr'
        exact ⟨op, client, rfl, hcreates, href⟩
      · rw [if_neg hm] at hr'
        exact absurd hr' hr
  | deliver sender packet source index negative =>
      simp only [Network.step, Move.at] at hadm hr'
      split at hr'
      · rename_i howner
        rw [if_pos howner] at hadm
        obtain ⟨client, ⟨-, -, hcreates⟩, -⟩ := created_step hadm.1 hr hr'
        obtain ⟨ip | ip, port⟩ := source <;> exact absurd hcreates id
      · exact absurd hr' hr

end Moves

/-! ### A connection attempt -/

/-- The moves of a connection attempt in a run, and what lies between them: the connect call,
the tick that sends a request, and the call that answers it. -/
structure Attempt (ι : Type) where
  client : Creation
  peer : ι
  request : Packet
  handshake : Packet
  before : List (Move ι)
  connect : Op
  queued : List (Move ι)
  tick : Milliseconds
  outward : List (Move ι)
  answer : Milliseconds
  homeward : List (Move ι)

namespace Attempt

variable (owner) (net) (a : ι) (x : Attempt ι)

def toTick : List (Move ι) := x.before ++ .call a x.connect :: x.queued

def sinceTick : List (Move ι) := x.outward ++ .call x.peer (.receiveMessages x.answer) :: x.homeward

def toAnswer : List (Move ι) := x.toTick a ++ .call a (.updatePendingClients x.tick) :: x.outward

def run : List (Move ι) := x.toTick a ++ .call a (.updatePendingClients x.tick) :: x.sinceTick

/-- The server that asks, before and after its tick. -/
def asker : UdcServerImpl := (net.after owner (x.toTick a)).node a

def asked : UdcServerImpl := next (x.asker owner net a) (.updatePendingClients x.tick)

/-- The server that answers, before and after its call. -/
def answerer : UdcServerImpl := (net.after owner (x.toAnswer a)).node x.peer

def answered : UdcServerImpl := next (x.answerer owner net a) (.receiveMessages x.answer)

/-- The tick has asked the peer, for the client in front, and the peer has answered. -/
structure Exchanged : Prop where
  creates : x.connect.Creates x.client ((net.after owner x.before).node a)
  front : (x.asker owner net a).pendingClients.head? = some x.client.ref
  asks : x.request ∈ leaving (x.asker owner net a) (x.asked owner net a)
  address : x.request.address = x.client.address
  request : x.request.bytes
    = encode (x.asker owner net a).front (.connectionRequest x.client.id)
  peer : owner x.client.address = some x.peer
  received : ∃ q ∈ newReceived (x.answerer owner net a) (x.answered owner net a),
    q.bytes = x.request.bytes ∧ owner q.address = some a ∧ x.handshake.address = q.address
  answers : x.handshake ∈ leaving (x.answerer owner net a) (x.answered owner net a)
  handshake : x.handshake.bytes
    = encode (x.answerer owner net a).packetSignature.bytes (.connectionHandshake x.client.id)

/-- The client is in front from the request on, between any two moves. -/
def StaysInFront : Prop := ∀ between rest, x.sinceTick = between ++ rest →
  ((net.after owner (x.toTick a ++ .call a (.updatePendingClients x.tick) :: between)).node
    a).pendingClients.head? = some x.client.ref

end Attempt

section Runs

variable {signature : ι → UdcSignature} {buffer : ι → MessageBuffer} {k a : ι} {p q : Packet}
  {reader : UdcSignature} {id : UdcEndPointId} {r : ClientRef} {time : Milliseconds}
  {before later : List (Move ι)}

theorem genuine_run (h : NetworkRun owner (.start signature buffer) moves) :
    Genuine owner ((Network.start signature buffer).after owner moves) :=
  Always.preserves (fun _ _ hgenuine hallowed => genuine_step hgenuine hallowed)
    (genuine_start signature buffer) h

theorem ready_run (h : NetworkRun owner (.start signature buffer) moves) :
    Ready (((Network.start signature buffer).after owner moves).node n) :=
  node_stages (fun _ _ _ => ready_stage) h (ready_new (signature n) (buffer n))

/-- A datagram that a node receives was sent to it, by the node it comes from. -/
theorem received_genuine (h : NetworkRun owner (.start signature buffer) moves) {s : UdcServerImpl}
    (hs : s = ((Network.start signature buffer).after owner moves).node n)
    (hq : q ∈ newReceived s (s.receiveMessages time).1) :
    ∃ k p, (k, p) ∈ ((Network.start signature buffer).after owner moves).sent ∧
      owner q.address = some k ∧ owner p.address = some n ∧ q.bytes = p.bytes := by
  obtain ⟨name, hname⟩ := (receives_receiveMessages s time).queued q hq
  rw [hs] at hname
  exact genuine_run h n name q hname

/-- What has left a node has left it in one of its calls, which was allowed. -/
theorem sent_in_run (h : NetworkRun owner (.start signature buffer) moves)
    (hsent : (k, p) ∈ ((Network.start signature buffer).after owner moves).sent) :
    ∃ before op after, moves = before ++ .call k op :: after ∧
      NetworkRun owner (.start signature buffer) before ∧
      op.Admissible (((Network.start signature buffer).after owner before).node k) ∧
      p ∈ leaving (((Network.start signature buffer).after owner before).node k)
        (UdpConnect.step (((Network.start signature buffer).after owner before).node k) op).1 := by
  have hstart : (k, p) ∉ (Network.start signature buffer).sent := List.not_mem_nil
  obtain ⟨before, move, after, rfl, hnot, hnow⟩ :=
    once_of_change (P := fun net : Network ι => (k, p) ∈ net.sent) hstart hsent
  obtain ⟨op, rfl, hp⟩ := sent_move hnot hnow
  obtain ⟨hbefore, hrest⟩ := networkRun_append h
  exact ⟨before, op, after, rfl, hbefore, hrest.1.1, hp⟩

/-- **A request in a run was sent by a tick of its sender, for the client in front.** -/
theorem request_in_run (h : NetworkRun owner (.start signature buffer) moves)
    (hsent : (a, p) ∈ ((Network.start signature buffer).after owner moves).sent)
    (hread : decode reader.bytes p.bytes = some (.connectionRequest id)) :
    ∃ before tick after r s, moves = before ++ .call a (.updatePendingClients tick) :: after ∧
      NetworkRun owner (.start signature buffer) before ∧
      s = ((Network.start signature buffer).after owner before).node a ∧
      p ∈ leaving s (next s (.updatePendingClients tick)) ∧ s.pendingClients.head? = some r ∧
      p.address = (s.heap r).outgoingAddress ∧
      p.bytes = encode s.front (.connectionRequest (s.heap r).id) := by
  obtain ⟨before, op, after, rfl, hbefore, hadm, hp⟩ := sent_in_run h hsent
  obtain ⟨tick, r, rfl, hfront, haddress, hbytes⟩ :=
    request_step (ready_run hbefore) hadm (mem_newSent hp) hread
  exact ⟨before, tick, after, r, _, rfl, hbefore, rfl, hp, hfront, haddress, hbytes⟩

/-- **A handshake in a run answers a request that its sender has received in the same call.** -/
theorem handshake_in_run (h : NetworkRun owner (.start signature buffer) moves)
    (hsent : (k, p) ∈ ((Network.start signature buffer).after owner moves).sent)
    (hread : decode reader.bytes p.bytes = some (.connectionHandshake id)) :
    ∃ before answer after s q, moves = before ++ .call k (.receiveMessages answer) :: after ∧
      NetworkRun owner (.start signature buffer) before ∧
      s = ((Network.start signature buffer).after owner before).node k ∧
      p ∈ leaving s (next s (.receiveMessages answer)) ∧
      p.bytes = encode s.packetSignature.bytes (.connectionHandshake id) ∧
      q ∈ newReceived s (next s (.receiveMessages answer)) ∧ q.address = p.address ∧
      decode s.packetSignature.bytes q.bytes = some (.connectionRequest id) := by
  obtain ⟨before, op, after, rfl, hbefore, hadm, hp⟩ := sent_in_run h hsent
  obtain ⟨hbytes, answer, rfl, q, hq, haddress, hrequest⟩ :=
    (tells_step (ready_run hbefore) hadm p (mem_newSent hp)).handshake reader id hread
  exact ⟨before, answer, after, _, q, rfl, hbefore, rfl, hp, hbytes, hq, haddress, hrequest⟩

/-- What a connect call makes is there from then on, with the settings it was made with. -/
theorem made_in_run {client : Creation} {op : Op} {after : List (Move ι)}
    (h : NetworkRun owner net (before ++ .call n op :: after))
    (hcreates : op.Creates client ((net.after owner before).node n)) :
    Made client.ref client.settings
      ((net.after owner (before ++ .call n op :: after)).node n) := by
  obtain ⟨-, -, hafter⟩ := networkRun_append h
  have hmade : Made client.ref client.settings
      (((net.after owner before).step owner (.call n op)).node n) := by
    rw [node_call]
    exact (creates_begun hcreates).2.made
  have hkept := node_stages (fun _ _ _ => made_stage) hafter hmade
  rw [after_append]
  exact hkept

/-- **A client of a node was made by a connect call there**, and still has its settings. -/
theorem created_in_run (h : NetworkRun owner (.start signature buffer) moves)
    (hr : r < (((Network.start signature buffer).after owner moves).node n).nextRef) :
    ∃ before connect after client, moves = before ++ .call n connect :: after ∧
      connect.Creates client (((Network.start signature buffer).after owner before).node n) ∧
      client.ref = r ∧
      Made r client.settings (((Network.start signature buffer).after owner moves).node n) := by
  have hstart : ¬ r < ((Network.start signature buffer).node n).nextRef := Nat.not_lt_zero r
  obtain ⟨before, move, after, rfl, hnot, hnow⟩ :=
    once_of_change (P := fun net : Network ι => r < (net.node n).nextRef) hstart hr
  obtain ⟨-, hallowed, -⟩ := networkRun_append h
  obtain ⟨op, client, rfl, hcreates, rfl⟩ := created_move hallowed hnot hnow
  exact ⟨before, op, after, client, rfl, hcreates, rfl, made_in_run h hcreates⟩

/-- A client that is in front, and pending still, has been in front all the time. -/
theorem front_in_run (before : List (Move ι)) (h : NetworkRun owner net (before ++ later))
    (hroot : Rooted (net.node n).protocol) (hfront : (net.node n).pendingClients.head? = some r)
    (hlast : r ∈ ((net.after owner (before ++ later)).node n).pendingClients) :
    ((net.after owner before).node n).pendingClients.head? = some r := by
  obtain ⟨hbefore, hlater⟩ := networkRun_append h
  have hforemost : Foremost r ((net.after owner before).node n) :=
    node_stages (fun _ _ _ => foremost_stage) hbefore (foremost_of_front hroot hfront)
  apply front_of_foremost hforemost
  by_contra hgone
  rw [after_append] at hlast
  have hdeparted : Departed r (((net.after owner before).after owner later).node n) :=
    node_stages (fun _ _ _ => departed_stage) hlater ⟨hforemost.lt, hgone⟩
  exact hdeparted.gone hlast

/-! ### A success report -/

variable {e : UdcEvent} {op : Op}

/-- What the ids of a node's clients are, while few have been issued there. -/
theorem endpoints_in_run (h : NetworkRun owner (.start signature buffer) moves)
    (hfew : FewIssued (notes (runTrace (.new (signature a) (buffer a)) (opsOf owner a moves)))) :
    Endpoints (notes (runTrace (.new (signature a) (buffer a)) (opsOf owner a moves)))
      (((Network.start signature buffer).after owner moves).node a).protocol := by
  have hrun : ServerRun (signature a) (buffer a) _ _ :=
    run_of_admissible (opsOf owner a moves) (admissible_opsOf (n := a) h)
  rw [node_after]
  exact (run_effects (P := fun _ _ => True) (fun _ _ => trivial)
    (fun _ _ _ _ _ _ _ _ _ => trivial) (ServerRun.meeting hrun) hfew).1

/-- Who reads a request reads the id that was written. -/
theorem request_id {front : List UInt8} (hfront : front.length = 4) {i : UdcEndPointId}
    (hi : i < 2 ^ 32)
    (h : decode reader.bytes (encode front (.connectionRequest i)) = some (.connectionRequest id)) :
    id = i := by
  obtain ⟨-, hid⟩ := encode_of_decode h
  rw [← wire_word hfront (m := .connectionRequest i) (length_le32 i)] at h
  obtain ⟨i', hmessage, hword⟩ := read_request hfront h
  obtain rfl := Message.connectionRequest.inj hmessage
  exact le32_injective hid hi hword

/-- **A handshake in a run answers a request of the node it goes to**, with its own id. -/
theorem exchanged_in_run (h : NetworkRun owner (.start signature buffer) moves)
    (hsent : (k, p) ∈ ((Network.start signature buffer).after owner moves).sent)
    (hread : decode reader.bytes p.bytes = some (.connectionHandshake id))
    (hhome : owner p.address = some a) :
    ∃ x : Attempt ι, x.run a = moves ∧ x.client.id = id ∧ x.peer = k ∧ x.handshake = p ∧
      x.Exchanged owner (.start signature buffer) a := by
  obtain ⟨before₂, answer, homeward, s₂, q, rfl, hbefore₂, hs₂, hanswers, hanswer, hq, hq_address,
    hread₂⟩ := handshake_in_run h hsent hread
  obtain ⟨asker, request, hrequest, hasker, hpeer, hq_bytes⟩ := received_genuine hbefore₂ hs₂ hq
  obtain rfl : a = asker := by
    rw [hq_address, hhome] at hasker
    exact Option.some.inj hasker
  rw [hq_bytes] at hread₂
  obtain ⟨before₁, tick, outward, r, s₁, rfl, hbefore₁, hs₁, hasks, hfront, haddress, hask⟩ :=
    request_in_run hbefore₂ hrequest hread₂
  rw [hs₁] at hasks hfront haddress hask
  have hroot := (ready_run (n := a) hbefore₁).rooted
  obtain ⟨before, connect, queued, client, rfl, hcreates, rfl, hmade⟩ :=
    created_in_run hbefore₁ (hroot.pending _ (List.mem_of_mem_head? hfront))
  have hmade_id : _ = client.id := congrArg Settings.id hmade.settings
  have hmade_address : _ = client.address := congrArg Settings.outgoingAddress hmade.settings
  replace hask := hask.trans (congrArg (fun i => encode _ (.connectionRequest i)) hmade_id)
  replace haddress := haddress.trans hmade_address
  -- the request has the id which the peer has read
  rw [hask] at hread₂
  obtain rfl : id = client.id := request_id length_front (creates_id_lt hcreates) hread₂
  refine ⟨⟨client, k, request, p, before, connect, queued, tick, outward, answer, homeward⟩,
    ?_, rfl, rfl, rfl, ?_⟩
  · simp [Attempt.run, Attempt.toTick, Attempt.sinceTick]
  · rw [hs₂] at hanswers hanswer hq
    exact {
      creates := hcreates
      front := hfront
      asks := hasks
      address := haddress
      request := hask
      peer := by
        rw [← haddress]
        exact hpeer
      received := ⟨q, hq, hq_bytes, hasker, hq_address.symm⟩
      answers := hanswers
      handshake := hanswer }

/-- The client of an attempt that is in front at the end has been in front since the request. -/
theorem staysInFront_in_run {x : Attempt ι}
    (h : NetworkRun owner (.start signature buffer) (x.run a))
    (hfront : (x.asker owner (.start signature buffer) a).pendingClients.head? = some x.client.ref)
    (hlast : (((Network.start signature buffer).after owner (x.run a)).node
      a).pendingClients.head? = some x.client.ref) :
    x.StaysInFront owner (.start signature buffer) a := by
  intro between rest hsplit
  rw [Attempt.run, hsplit] at h hlast
  obtain ⟨hbefore, hsince⟩ := networkRun_append h
  rw [after_append] at hlast ⊢
  exact front_in_run (.call a (.updatePendingClients x.tick) :: between) hsince
    (ready_run hbefore).rooted hfront (List.mem_of_mem_head? hlast)

/-- **A success report means that the peer has answered**: a connect call has made the client,
a tick has sent a request with its id to its address, and the accepted handshake is the answer
of the node there to this request.  The client was in front all the time. -/
theorem success_answered (h : NetworkRun owner (.start signature buffer) moves)
    (hfew : FewIssued (notes (runTrace (.new (signature a) (buffer a)) (opsOf owner a moves))))
    (hevent : (step (((Network.start signature buffer).after owner moves).node a) op).2.event
      = some e)
    (htype : e.eventType = .connectionSuccess) :
    ∃ x : Attempt ι, x.run a = moves ∧ x.client.id = e.endPointId ∧
      x.Exchanged owner (.start signature buffer) a ∧
      x.StaysInFront owner (.start signature buffer) a ∧
      ∃ time earlier q, op = .receiveMessages time ∧
        newReceived (((Network.start signature buffer).after owner moves).node a)
          (next (((Network.start signature buffer).after owner moves).node a) op)
            = earlier ++ [q] ∧
        decode (((Network.start signature buffer).after owner moves).node a).packetSignature.bytes
          q.bytes = some (.connectionHandshake e.endPointId) ∧
        q.bytes = x.handshake.bytes ∧ owner q.address = some x.peer := by
  obtain ⟨time, earlier, q, r, rfl, haccepts⟩ := success_step hevent htype
  have hgot : newReceived (((Network.start signature buffer).after owner moves).node a)
      (next (((Network.start signature buffer).after owner moves).node a) (.receiveMessages time))
        = earlier ++ [q] := newReceived_eq haccepts.receives.received
  have hq : q ∈ earlier ++ [q] := List.mem_append_right _ List.mem_cons_self
  rw [← hgot] at hq
  obtain ⟨peer, handshake, hsent, hpeer, hhome, hbytes⟩ := received_genuine h rfl hq
  have hread := haccepts.reads
  rw [hbytes] at hread
  obtain ⟨x, rfl, hid, rfl, rfl, hx⟩ := exchanged_in_run h hsent hread hhome
  -- the client that was asked for is the one in front, for it has the id of the handshake
  have hmade : Made x.client.ref x.client.settings
      (((Network.start signature buffer).after owner (x.run a)).node a) := by
    have hsplit : x.run a
        = x.before ++ .call a x.connect
          :: (x.queued ++ .call a (.updatePendingClients x.tick) :: x.sinceTick) := by
      simp [Attempt.run, Attempt.toTick]
    rw [hsplit] at h ⊢
    exact made_in_run h hx.creates
  have hend := endpoints_in_run h hfew
  have hfront := haccepts.front
  have hlt := (ready_run (n := a) h).rooted.pending r (List.mem_of_mem_head? hfront)
  obtain rfl : x.client.ref = r := by
    apply hend.ref_eq hmade.lt hlt
    calc (_ : UdcClient).id = x.client.id := congrArg Settings.id hmade.settings
      _ = e.endPointId := hid
      _ = _ := haccepts.id.symm
  exact ⟨x, rfl, hid, hx, staysInFront_in_run h hx.front hfront, time, earlier, q, rfl, hgot,
    haccepts.reads, hbytes, hpeer⟩

end Runs

end Network

/-- Two servers, each with one address. -/
def exampleOwner (address : UdcAddressMux) : Option Bool :=
  if address = ⟨.ipv4 (exampleIP 1), 1⟩ then some false
  else if address = ⟨.ipv4 (exampleIP 2), 2⟩ then some true
  else none

def exampleNetwork : Network Bool := .start (fun _ => exampleSignature) (fun _ => exampleBuffer)

/-- One server asks the other for a connection, and is answered. -/
def answeredMoves : List (Move Bool) :=
  [.call false (.tryBindIPv4 true), .call true (.tryBindIPv4 true),
    .call false (.tryConnectIPv4 (exampleIP 2) 2 1000 exampleTime),
    .call false (.updatePendingClients exampleTime),
    .deliver false ⟨⟨.ipv4 (exampleIP 2), 2⟩, [1, 2, 3, 4, 0, 1, 0, 0, 0], default⟩
      ⟨.ipv4 (exampleIP 1), 1⟩ 0,
    .call true (.receiveMessages exampleTime),
    .deliver true ⟨⟨.ipv4 (exampleIP 1), 1⟩, [1, 2, 3, 4, 1, 1, 0, 0, 0], default⟩
      ⟨.ipv4 (exampleIP 2), 2⟩ 0]

theorem success_answered_two : ∃ x : Attempt Bool, x.run false = answeredMoves ∧
    x.client.id = 1 ∧ x.Exchanged exampleOwner exampleNetwork false ∧
    x.StaysInFront exampleOwner exampleNetwork false := by
  have hevent : (step ((exampleNetwork.after exampleOwner answeredMoves).node false)
      (.receiveMessages exampleTime)).2.event
        = some { exampleServer.eventBuffer with endPointId := 1 } := by
    decide +kernel
  obtain ⟨x, hmoves, hid, hx, hfront, -⟩ := success_answered (a := false)
    (show NetworkRun exampleOwner exampleNetwork answeredMoves by decide +kernel)
    (by decide +kernel) hevent rfl
  exact ⟨x, hmoves, hid, hx, hfront⟩

end UdpConnect
