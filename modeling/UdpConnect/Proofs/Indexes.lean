/-
The two client indexes, and what a disconnect removes.

A connection is entered into `clientsByAddress` under the address its handshake came
from and taken out under the address its requests went to.  The library means these to
be one address.  As long as they are, the two maps hold the same clients (`Aligned`),
and a disconnect removes one endpoint and nothing else.

Where they differ, `disconnectFromClient` can leave an entry behind and can remove the
entry of another client.  `exactlyRemoves_iff` says for every state of every run which
disconnects are exact: those of endpoints that are `CleanlyKeyed`.  One half of it rests
on an entry under a client's own address never outliving the client (`OwnKeys`).
-/
import UdpConnect.Proofs.Lifecycle

namespace UdpConnect

/-! ### Alignment -/

/-- A handshake that would be accepted comes from the address its requests went to. -/
def OwnHandshake (_time : Milliseconds) (x : Handling) : Prop :=
  match x.message with
  | .connectionHandshake endPointId =>
      ∀ r ∈ x.state.pendingClients.head?, (x.state.heap r).id = endPointId →
        x.address ∉ x.state.clientsByAddress → x.address = (x.state.heap r).outgoingAddress
  | _ => True

instance (time : Milliseconds) (x : Handling) : Decidable (OwnHandshake time x) := by
  obtain ⟨state, address, m⟩ := x
  induction m using Message.casesOn <;> unfold OwnHandshake <;> infer_instance

/-- The two maps hold the same clients, each under its own id and its own address. -/
structure Aligned (p : Protocol) : Prop where
  byId : ∀ id r, p.clientsById.lookup id = some r →
    (p.heap r).id = id ∧ p.clientsByAddress.lookup (p.heap r).outgoingAddress = some r
  byAddress : ∀ a r, p.clientsByAddress.lookup a = some r →
    a = (p.heap r).outgoingAddress ∧ p.clientsById.lookup (p.heap r).id = some r
  apart : ∀ id id' r r', p.clientsById.lookup id = some r → p.clientsById.lookup id' = some r' →
    (p.heap r).outgoingAddress = (p.heap r').outgoingAddress → id = id'

section Aligned

variable {ns ns' : List Note} {p p' : Protocol}

/-- The first two halves give the third. -/
theorem aligned_of (hbyId : ∀ id r, p.clientsById.lookup id = some r →
      (p.heap r).id = id ∧ p.clientsByAddress.lookup (p.heap r).outgoingAddress = some r)
    (hbyAddress : ∀ a r, p.clientsByAddress.lookup a = some r →
      a = (p.heap r).outgoingAddress ∧ p.clientsById.lookup (p.heap r).id = some r) :
    Aligned p := by
  refine ⟨hbyId, hbyAddress, fun id id' r r' hr hr' haddress => ?_⟩
  obtain ⟨hid, ha⟩ := hbyId id r hr
  obtain ⟨hid', ha'⟩ := hbyId id' r' hr'
  rw [haddress, ha'] at ha
  obtain rfl := Option.some.inj ha
  exact hid.symm.trans hid'

theorem same_setClient {r : ClientRef} {c : UdcClient} (hsame : SameEndpoint (p.heap r) c)
    (r' : ClientRef) : SameEndpoint (p.heap r') ((p.setClient r c).heap r') := by
  by_cases heq : r' = r
  · subst heq
    rw [Protocol.heap_setClient_self]
    exact hsame
  · rw [Protocol.heap_setClient_of_ne _ heq]
    exact ⟨rfl, rfl⟩

/-- Alignment depends on the maps and on the fixed data of the clients in them. -/
theorem Aligned.congr (h : Aligned p) (hbyId : p'.clientsById = p.clientsById)
    (hbyAddress : p'.clientsByAddress = p.clientsByAddress)
    (hsame : ∀ r, p.Joined r → SameEndpoint (p.heap r) (p'.heap r)) : Aligned p' := by
  refine aligned_of (fun id r hr => ?_) fun a r hr => ?_
  · rw [hbyId] at hr
    have hs := hsame r (Or.inl ⟨id, hr⟩)
    rw [hs.id, hs.outgoingAddress, hbyAddress]
    exact h.byId id r hr
  · rw [hbyAddress] at hr
    have hs := hsame r (Or.inr ⟨a, hr⟩)
    rw [hs.id, hs.outgoingAddress, hbyId]
    exact h.byAddress a r hr

theorem aligned_disconnect (h : Aligned p) (id : UdcEndPointId) : Aligned (p.disconnect id) := by
  unfold Protocol.disconnect
  cases hlookup : p.clientsById.lookup id with
  | none => exact h.congr rfl rfl fun _ _ => ⟨rfl, rfl⟩
  | some r₀ =>
      refine aligned_of (fun id' r hr => ?_) fun a r hr => ?_
      · obtain ⟨hne, hr⟩ := lookup_erase_some.mp hr
        obtain ⟨hid, ha⟩ := h.byId id' r hr
        refine ⟨hid, lookup_erase_some.mpr ⟨fun haddress => ?_, ha⟩⟩
        exact hne (h.apart id' id r r₀ hr hlookup haddress)
      · obtain ⟨hne, hr⟩ := lookup_erase_some.mp hr
        obtain ⟨ha, hid⟩ := h.byAddress a r hr
        refine ⟨ha, lookup_erase_some.mpr ⟨fun heq => ?_, hid⟩⟩
        rw [show (p.heap r).id = id from heq, hlookup] at hid
        obtain rfl := Option.some.inj hid
        exact hne ha

theorem aligned_accept (h : Aligned p) (hend : Endpoints ns p) {r : ClientRef}
    {rest : List ClientRef} {c : UdcClient} {address : UdcAddressMux}
    (hpending : p.pendingClients = r :: rest) (hsame : SameEndpoint (p.heap r) c)
    (hfree : address ∉ p.clientsByAddress) (hown : address = (p.heap r).outgoingAddress) :
    Aligned { p.setClient r c with
      clientsById := p.clientsById.insert (p.heap r).id r
      clientsByAddress := p.clientsByAddress.insert address r
      pendingClients := rest } := by
  have hr : r ∈ p.pendingClients := by rw [hpending]; exact List.mem_cons_self
  have hother : ∀ r', p.Joined r' → r' ≠ r := fun r' hr' hc => hend.not_joined hr (hc ▸ hr')
  refine aligned_of (fun id r' hr' => ?_) fun a r' hr' => ?_
  · have hs := same_setClient hsame r'
    show ((p.setClient r c).heap r').id = id ∧
      (p.clientsByAddress.insert address r).lookup ((p.setClient r c).heap r').outgoingAddress
        = some r'
    rw [hs.id, hs.outgoingAddress]
    rcases lookup_insert_some.mp hr' with ⟨rfl, rfl⟩ | ⟨-, hr'⟩
    · exact ⟨rfl, by rw [← hown, Finmap.lookup_insert]⟩
    · obtain ⟨hid, ha⟩ := h.byId id r' hr'
      refine ⟨hid, lookup_insert_some.mpr (Or.inr ⟨fun hc => ?_, ha⟩)⟩
      rw [hc, lookup_of_notMem hfree] at ha
      cases ha
  · have hs := same_setClient hsame r'
    show a = ((p.setClient r c).heap r').outgoingAddress ∧
      (p.clientsById.insert (p.heap r).id r).lookup ((p.setClient r c).heap r').id = some r'
    rw [hs.id, hs.outgoingAddress]
    rcases lookup_insert_some.mp hr' with ⟨rfl, rfl⟩ | ⟨-, hr'⟩
    · exact ⟨hown, Finmap.lookup_insert _⟩
    · obtain ⟨ha, hid⟩ := h.byAddress a r' hr'
      refine ⟨ha, lookup_insert_some.mpr (Or.inr ⟨fun hc => ?_, hid⟩)⟩
      rw [hend.ids r' (hend.byAddress a r' hr'), hend.ids r (hend.refs r hr)] at hc
      exact hother r' (Or.inr ⟨a, hr'⟩) (Nat.succ.inj hc)

theorem aligned_effect (h : Aligned p) (hend : Endpoints ns p) {c : Change}
    (he : p.Effect c p' ns')
    (hC : ∀ address time m, c = .handle address time m → OwnHandshake time ⟨p, address, m⟩) :
    Aligned p' := by
  cases he with
  | issue c hid haddress hconn =>
      refine h.congr rfl rfl fun r hr => ?_
      have hlt : r < p.nextRef := hend.joined_lt hr
      show SameEndpoint (p.heap r) (Function.update p.heap p.nextRef c r)
      rw [Function.update_of_ne (Nat.ne_of_lt hlt)]
      exact ⟨rfl, rfl⟩
  | disconnect id => exact aligned_disconnect h id
  | expire hpending => exact h.congr rfl rfl fun _ _ => ⟨rfl, rfl⟩
  | @accept address time r rest c hpending hsame hconn hfree =>
      refine aligned_accept h hend hpending hsame hfree ?_
      exact hC address time _ rfl r (by rw [hpending]; rfl) rfl hfree
  | lose c hlookup hsame hwas hconn => exact h.congr rfl rfl fun r _ => same_setClient hsame r
  | regain c hm htime hlookup hsame hwas hconn =>
      exact h.congr rfl rfl fun r _ => same_setClient hsame r
  | update c hsame hconn => exact h.congr rfl rfl fun r _ => same_setClient hsame r
  | other states => exact h.congr rfl rfl fun _ _ => ⟨rfl, rfl⟩

theorem aligned_fresh (h : p.Fresh) : Aligned p := by
  refine aligned_of (fun id r hr => ?_) fun a r hr => ?_
  · rw [h.clientsById, Finmap.lookup_empty] at hr; cases hr
  · rw [h.clientsByAddress, Finmap.lookup_empty] at hr; cases hr

end Aligned

section Runs

variable {signature : UdcSignature} {buffer : MessageBuffer} {trace : List (Op × Outcome)}
  {s : UdcServerImpl}

/-- **When every connection is accepted from its own address, the indexes stay in step.** -/
theorem indexes_aligned
    (run : Runs.Run (StepsMeeting OwnHandshake) (UdcServerImpl.new signature buffer) trace s)
    (hfew : FewIssued (notes trace)) : Aligned s.protocol :=
  (run_effects (P := fun _ p => Aligned p) (fun _ hp => aligned_fresh hp)
    (fun _ _ _ _ _ h hend he hC => aligned_effect h hend he hC) run hfew).2

/-- Two endpoints, the first of which connects and disconnects. -/
def ownHandshakeOps : List Op :=
  [.tryBindIPv4 true, .tryConnectIPv4 (exampleIP 2) 2 1000 0,
    .tryConnectIPv4 (exampleIP 3) 2 1000 0,
    .arriveIPv4 0 (.datagram ⟨exampleIP 2, 2, [1, 2, 3, 4, 1, 1, 0, 0, 0], default⟩),
    .receiveMessages 10]

theorem indexes_aligned_connected :
    (runState exampleServer ownHandshakeOps).protocol.clientsByAddress.lookup
      ⟨.ipv4 (exampleIP 2), 2⟩ = some 0 :=
  ((indexes_aligned (run_of_meeting ownHandshakeOps (by decide +kernel))
    (by decide +kernel)).byId 1 0 (by decide +kernel)).2

/-- The handshake comes from a second port of the peer. -/
def foreignHandshakeOps : List Op :=
  [.tryBindIPv4 true, .tryConnectIPv4 (exampleIP 2) 2 1000 0,
    .arriveIPv4 0 (.datagram ⟨exampleIP 2, 1, [1, 2, 3, 4, 1, 1, 0, 0, 0], default⟩),
    .receiveMessages 10]

theorem indexes_apart_after_foreign_handshake : ∃ trace s,
    ServerRun exampleSignature exampleBuffer trace s ∧ FewIssued (notes trace) ∧
      ¬ Aligned s.protocol := by
  refine ⟨_, _, run_of_admissible foreignHandshakeOps (by decide +kernel),
    by decide +kernel, fun h => ?_⟩
  have hbyId : (runState exampleServer foreignHandshakeOps).protocol.clientsById.lookup 1
      = some 0 := by decide +kernel
  have hnone : (runState exampleServer foreignHandshakeOps).protocol.clientsByAddress.lookup
      ((runState exampleServer foreignHandshakeOps).protocol.heap 0).outgoingAddress = none := by
    decide +kernel
  have hsome := (h.byId 1 0 hbyId).2
  exact absurd (hsome.symm.trans hnone) (by simp)

end Runs

/-! ### Disconnecting -/

/-- An entry under a client's own address is of a client that exists. -/
def OwnKeys (p : Protocol) : Prop :=
  ∀ a r, p.clientsByAddress.lookup a = some r → a = (p.heap r).outgoingAddress →
    p.clientsById.lookup (r + 1) = some r

/-- No container leads to the endpoint. -/
structure Gone (id : UdcEndPointId) (p : Protocol) : Prop where
  pending : ∀ r ∈ p.pendingClients, (p.heap r).id ≠ id
  byId : ∀ key r, p.clientsById.lookup key = some r → (p.heap r).id ≠ id
  byAddress : ∀ a r, p.clientsByAddress.lookup a = some r → (p.heap r).id ≠ id

/-- What disconnecting `id` in state `s` at the end of `trace` should amount to. -/
structure ExactlyRemoves (trace : List (Op × Outcome)) (s : UdcServerImpl) (id : UdcEndPointId) :
    Prop where
  gone : Gone id (udcDisconnect s id).protocol
  silent : ∀ trace' s', Runs.Run Steps (udcDisconnect s id) trace' s' →
    FewIssued (notes (trace ++ trace')) → id ∈ issuedIds (notes trace) →
      lifeOf id (notes trace') = []
  pending : ((udcDisconnect s id).pendingClients.filter fun r => (s.heap r).id ≠ id)
    = s.pendingClients.filter fun r => (s.heap r).id ≠ id
  byId : ∀ j ≠ id, (udcDisconnect s id).clientsById.lookup j = s.clientsById.lookup j
  byAddress : ∀ a r, (s.heap r).id ≠ id →
    ((udcDisconnect s id).clientsByAddress.lookup a = some r ↔
      s.clientsByAddress.lookup a = some r)

/-- All entries that lead to `id` are under its own address, where no other client is kept. -/
structure CleanlyKeyed (p : Protocol) (id : UdcEndPointId) : Prop where
  own : ∀ a r, p.clientsByAddress.lookup a = some r → (p.heap r).id = id →
    a = (p.heap r).outgoingAddress
  alone : ∀ r, p.clientsById.lookup id = some r →
    ∀ r', p.clientsByAddress.lookup (p.heap r).outgoingAddress = some r' → (p.heap r').id = id

section Disconnect

variable {ns ns' : List Note} {p p' : Protocol} {id : UdcEndPointId}

theorem OwnKeys.congr (h : OwnKeys p) (hbyId : p'.clientsById = p.clientsById)
    (hbyAddress : p'.clientsByAddress = p.clientsByAddress)
    (hsame : ∀ r, p.Joined r → SameEndpoint (p.heap r) (p'.heap r)) : OwnKeys p' := by
  intro a r hr ha
  rw [hbyAddress] at hr
  rw [(hsame r (Or.inr ⟨a, hr⟩)).outgoingAddress] at ha
  rw [hbyId]
  exact h a r hr ha

theorem ownKeys_effect (h : OwnKeys p) (hend : Endpoints ns p) {c : Change}
    (he : p.Effect c p' ns') : OwnKeys p' := by
  cases he with
  | issue c hid haddress hconn =>
      refine h.congr rfl rfl fun r hr => ?_
      have hlt : r < p.nextRef := hend.joined_lt hr
      show SameEndpoint (p.heap r) (Function.update p.heap p.nextRef c r)
      rw [Function.update_of_ne (Nat.ne_of_lt hlt)]
      exact ⟨rfl, rfl⟩
  | disconnect id =>
      unfold Protocol.disconnect
      cases hlookup : p.clientsById.lookup id with
      | none => exact h.congr rfl rfl fun _ _ => ⟨rfl, rfl⟩
      | some r₀ =>
          intro a r hr ha
          obtain ⟨hne, hr⟩ := lookup_erase_some.mp hr
          refine lookup_erase_some.mpr ⟨fun hc => ?_, h a r hr ha⟩
          rw [hend.byId_eq hlookup] at hc
          obtain rfl : r = r₀ := Nat.succ.inj hc
          exact hne ha
  | expire hpending => exact h.congr rfl rfl fun _ _ => ⟨rfl, rfl⟩
  | @accept address time r rest c hpending hsame hconn hfree =>
      have hr : r ∈ p.pendingClients := by rw [hpending]; exact List.mem_cons_self
      intro a r' hr' ha
      have hs := same_setClient hsame r'
      replace ha : a = ((p.setClient r c).heap r').outgoingAddress := ha
      rw [hs.outgoingAddress] at ha
      rw [hend.ids r (hend.refs r hr)]
      rcases lookup_insert_some.mp hr' with ⟨-, rfl⟩ | ⟨-, hr'⟩
      · exact Finmap.lookup_insert _
      · have hne : r' ≠ r := fun hc => hend.not_joined hr (Or.inr ⟨a, hc ▸ hr'⟩)
        refine lookup_insert_some.mpr (Or.inr ⟨fun hc => hne (Nat.succ.inj hc), h a r' hr' ha⟩)
  | lose c hlookup hsame hwas hconn => exact h.congr rfl rfl fun r _ => same_setClient hsame r
  | regain c hm htime hlookup hsame hwas hconn =>
      exact h.congr rfl rfl fun r _ => same_setClient hsame r
  | update c hsame hconn => exact h.congr rfl rfl fun r _ => same_setClient hsame r
  | other states => exact h.congr rfl rfl fun _ _ => ⟨rfl, rfl⟩

theorem ownKeys_fresh (h : p.Fresh) : OwnKeys p := by
  intro a r hr
  rw [h.clientsByAddress, Finmap.lookup_empty] at hr
  cases hr

theorem Gone.congr (h : Gone id p) (hpending : ∀ r ∈ p'.pendingClients, r ∈ p.pendingClients)
    (hjoinedById : ∀ key r, p'.clientsById.lookup key = some r →
      p.clientsById.lookup key = some r)
    (hjoinedByAddress : ∀ a r, p'.clientsByAddress.lookup a = some r →
      p.clientsByAddress.lookup a = some r)
    (hsame : ∀ r, r ∈ p.pendingClients ∨ p.Joined r → (p'.heap r).id = (p.heap r).id) :
    Gone id p' := by
  refine ⟨fun r hr => ?_, fun key r hr => ?_, fun a r hr => ?_⟩
  · rw [hsame r (Or.inl (hpending r hr))]
    exact h.pending r (hpending r hr)
  · have hr' := hjoinedById key r hr
    rw [hsame r (Or.inr (Or.inl ⟨key, hr'⟩))]
    exact h.byId key r hr'
  · have hr' := hjoinedByAddress a r hr
    rw [hsame r (Or.inr (Or.inr ⟨a, hr'⟩))]
    exact h.byAddress a r hr'

theorem gone_setClient (h : Gone id p) {r : ClientRef} {c : UdcClient}
    (hsame : SameEndpoint (p.heap r) c) : Gone id (p.setClient r c) :=
  h.congr (fun _ h => h) (fun _ _ h => h) (fun _ _ h => h) fun r' _ => (same_setClient hsame r').id

/-- Nothing is heard of an endpoint that is gone, and it does not come back. -/
theorem gone_effect (h : Gone id p) (hend : Endpoints ns p) (hid : id ≤ p.nextRef) {c : Change}
    (he : p.Effect c p' ns') (hend' : Endpoints (ns ++ ns') p') :
    Gone id p' ∧ id ≤ p'.nextRef ∧ lifeOf id ns' = [] := by
  cases he with
  | issue c hcid haddress hconn =>
      have hnew : u32 (p.idCounter + 1) = p.nextRef + 1 := hend'.counter
      have hold : ∀ r < p.nextRef, Function.update p.heap p.nextRef c r = p.heap r :=
        fun r hr => Function.update_of_ne (Nat.ne_of_lt hr) _ _
      refine ⟨⟨fun r hr => ?_, fun key r hr => ?_, fun a r hr => ?_⟩, Nat.le_succ_of_le hid, rfl⟩
      · show (Function.update p.heap p.nextRef c r).id ≠ id
        rcases List.mem_append.mp hr with hr | hr
        · rw [hold r (hend.refs r hr)]
          exact h.pending r hr
        · rw [List.mem_singleton.mp hr, Function.update_self, hcid, hnew]
          exact Nat.ne_of_gt (Nat.lt_succ_of_le hid)
      · show (Function.update p.heap p.nextRef c r).id ≠ id
        rw [hold r (hend.byId key r hr).1]
        exact h.byId key r hr
      · show (Function.update p.heap p.nextRef c r).id ≠ id
        rw [hold r (hend.byAddress a r hr)]
        exact h.byAddress a r hr
  | disconnect id' =>
      refine ⟨h.congr (fun r hr => (pending_disconnect p id').subset hr) (fun key r hr => ?_)
        (fun a r hr => ?_) fun r _ => by rw [heap_disconnect],
        hid.trans_eq (nextRef_disconnect p id').symm, rfl⟩
      · unfold Protocol.disconnect at hr
        cases hlookup : p.clientsById.lookup id' with
        | none => rw [hlookup] at hr; exact hr
        | some r₀ => rw [hlookup] at hr; exact (lookup_erase_some.mp hr).2
      · unfold Protocol.disconnect at hr
        cases hlookup : p.clientsById.lookup id' with
        | none => rw [hlookup] at hr; exact hr
        | some r₀ => rw [hlookup] at hr; exact (lookup_erase_some.mp hr).2
  | @expire _ r rest hpending =>
      have hr : r ∈ p.pendingClients := by rw [hpending]; exact List.mem_cons_self
      refine ⟨h.congr (fun r' hr' => ?_) (fun _ _ h => h) (fun _ _ h => h) fun _ _ => rfl, hid,
        lifeOf_event_ne (h.pending r hr) [] _⟩
      rw [hpending]
      exact List.mem_cons_of_mem _ hr'
  | @accept address time r rest c hpending hsame hconn hfree =>
      have hr : r ∈ p.pendingClients := by rw [hpending]; exact List.mem_cons_self
      refine ⟨⟨fun r' hr' => ?_, fun key r' hr' => ?_, fun a r' hr' => ?_⟩, hid,
        lifeOf_event_ne (h.pending r hr) [] _⟩
      · show ((p.setClient r c).heap r').id ≠ id
        rw [(same_setClient hsame r').id]
        exact h.pending r' (by rw [hpending]; exact List.mem_cons_of_mem _ hr')
      · show ((p.setClient r c).heap r').id ≠ id
        rw [(same_setClient hsame r').id]
        rcases lookup_insert_some.mp hr' with ⟨-, rfl⟩ | ⟨-, hr'⟩
        · exact h.pending _ hr
        · exact h.byId key r' hr'
      · show ((p.setClient r c).heap r').id ≠ id
        rw [(same_setClient hsame r').id]
        rcases lookup_insert_some.mp hr' with ⟨-, rfl⟩ | ⟨-, hr'⟩
        · exact h.pending _ hr
        · exact h.byAddress a r' hr'
  | lose c hlookup hsame hwas hconn =>
      exact ⟨gone_setClient h hsame, hid, lifeOf_event_ne (h.byId _ _ hlookup) [] _⟩
  | regain c hm htime hlookup hsame hwas hconn =>
      exact ⟨gone_setClient h hsame, hid, lifeOf_event_ne (h.byAddress _ _ hlookup) [] _⟩
  | update c hsame hconn => exact ⟨gone_setClient h hsame, hid, rfl⟩
  | other states =>
      exact ⟨h.congr (fun _ h => h) (fun _ _ h => h) (fun _ _ h => h) fun _ _ => rfl, hid, rfl⟩

theorem Endpoints.id_eq (h : Endpoints ns p) {r : ClientRef} (hr : p.Joined r) :
    (p.heap r).id = r + 1 := h.ids r (h.joined_lt hr)

/-- A clean disconnect leaves nothing behind. -/
theorem gone_disconnect (hend : Endpoints ns p) (hown : OwnKeys p) (hclean : CleanlyKeyed p id) :
    Gone id (p.disconnect id) := by
  have hbyAddress : ∀ a r, p.clientsByAddress.lookup a = some r → (p.heap r).id = id →
      a = (p.heap r).outgoingAddress ∧ p.clientsById.lookup id = some r := fun a r hr hid => by
    have ha := hclean.own a r hr hid
    have hjoined : p.Joined r := Or.inr ⟨a, hr⟩
    refine ⟨ha, ?_⟩
    rw [← hid, hend.id_eq hjoined]
    exact hown a r hr ha
  have hkey : ∀ key r, p.clientsById.lookup key = some r → (p.heap r).id = key := fun key r hr => by
    rw [hend.id_eq (Or.inl ⟨key, hr⟩), hend.byId_eq hr]
  unfold Protocol.disconnect
  cases hlookup : p.clientsById.lookup id with
  | none =>
      refine ⟨fun r hr => by simpa using (List.mem_filter.mp hr).2, fun key r hr hid => ?_,
        fun a r hr hid => ?_⟩
      · obtain rfl : key = id := (hkey key r hr).symm.trans hid
        rw [show p.clientsById.lookup key = some r from hr] at hlookup
        cases hlookup
      · rw [(hbyAddress a r hr hid).2] at hlookup
        cases hlookup
  | some r₀ =>
      refine ⟨fun r hr hid => ?_, fun key r hr hid => ?_, fun a r hr hid => ?_⟩
      · have heq : r = r₀ := by
          rw [show (p.heap r).id = r + 1 from hend.ids r (hend.refs r hr),
            hend.byId_eq hlookup] at hid
          exact Nat.succ.inj hid
        exact hend.not_joined hr (Or.inl ⟨id, heq ▸ hlookup⟩)
      · obtain ⟨hne, hr⟩ := lookup_erase_some.mp hr
        exact hne ((hkey key r hr).symm.trans hid)
      · obtain ⟨hne, hr⟩ := lookup_erase_some.mp hr
        obtain ⟨ha, hid'⟩ := hbyAddress a r hr hid
        rw [hlookup] at hid'
        obtain rfl := Option.some.inj hid'
        exact hne ha

/-- A disconnect that leaves nothing behind and takes nothing else was clean. -/
theorem cleanlyKeyed_of_exact (hend : Endpoints ns p) (hgone : Gone id (p.disconnect id))
    (hframe : ∀ a r, (p.heap r).id ≠ id → ((p.disconnect id).clientsByAddress.lookup a = some r ↔
      p.clientsByAddress.lookup a = some r)) : CleanlyKeyed p id := by
  have hgone' := hgone.byAddress
  rw [heap_disconnect] at hgone'
  unfold Protocol.disconnect at hgone' hframe
  refine ⟨fun a r hr hid => ?_, fun r hr r' hr' => ?_⟩
  · cases hlookup : p.clientsById.lookup id with
    | none =>
        rw [hlookup] at hgone'
        exact absurd hid (hgone' a r hr)
    | some r₀ =>
        rw [hlookup] at hgone'
        by_contra hne
        have heq : r = r₀ := by
          rw [hend.id_eq (Or.inr ⟨a, hr⟩), hend.byId_eq hlookup] at hid
          exact Nat.succ.inj hid
        refine hgone' a r (lookup_erase_some.mpr ⟨?_, hr⟩) hid
        rw [← heq]
        exact hne
  · rw [hr] at hframe
    by_contra hne
    have := (hframe _ r' hne).mpr hr'
    exact (lookup_erase_some.mp this).1 rfl

end Disconnect

section Runs

variable {signature : UdcSignature} {buffer : MessageBuffer} {trace : List (Op × Outcome)}
  {s : UdcServerImpl} {id : UdcEndPointId}

theorem protocol_disconnect (s : UdcServerImpl) (id : UdcEndPointId) :
    (udcDisconnect s id).protocol = s.protocol.disconnect id :=
  (disconnectFromClient_performs id).state

/-- Nothing is heard of an endpoint that is gone, for the rest of the run. -/
theorem silent_of_gone {ns ns' : List Note} {p p' : Protocol} (hend : Endpoints ns p)
    (hgone : Gone id p) (hid : id ≤ p.nextRef) (run : MachineRun (fun _ _ => True) p ns' p')
    (hfew : FewIssued (ns ++ ns')) : lifeOf id ns' = [] := by
  refine (run.invariant (P := fun ns' p' => FewIssued (ns ++ ns') →
    Endpoints (ns ++ ns') p' ∧ Gone id p' ∧ id ≤ p'.nextRef ∧ lifeOf id ns' = [])
    (fun _ => ⟨by rw [List.append_nil]; exact hend, hgone, hid, rfl⟩)
    (fun ns' p' c ih _ hfew => ?_) hfew).2.2.2
  rw [← List.append_assoc] at hfew ⊢
  obtain ⟨hend, hgone, hid, hlife⟩ := ih hfew.left
  have heffect := change_effect (p := p') c
  have hend' := endpoints_effect hend heffect hfew
  obtain ⟨hgone', hid', hlife'⟩ := gone_effect hgone hend hid heffect hend'
  exact ⟨hend', hgone', hid', by rw [lifeOf_append, hlife, hlife']; rfl⟩

/-- **A disconnect is exact just when the endpoint is cleanly keyed.** -/
theorem exactlyRemoves_iff (run : ServerRun signature buffer trace s)
    (hfew : FewIssued (notes trace)) :
    ExactlyRemoves trace s id ↔ CleanlyKeyed s.protocol id := by
  obtain ⟨hend, hown⟩ := run_effects (P := fun _ p => OwnKeys p) (fun _ hp => ownKeys_fresh hp)
    (fun _ _ _ _ _ h hend he _ => ownKeys_effect h hend he) run.meeting hfew
  have hstate := protocol_disconnect s id
  constructor
  · intro h
    refine cleanlyKeyed_of_exact hend (by rw [← hstate]; exact h.gone) fun a r hne => ?_
    rw [← hstate]
    exact h.byAddress a r hne
  · intro hclean
    have hgone := gone_disconnect hend hown hclean
    have hmaps : ∀ r₀, s.clientsById.lookup id = some r₀ → s.protocol.disconnect id
        = { s.protocol with
            clientsByAddress := s.clientsByAddress.erase (s.heap r₀).outgoingAddress
            clientsById := s.clientsById.erase id } := fun r₀ h₀ => by
      rw [Protocol.disconnect, show s.protocol.clientsById.lookup id = some r₀ from h₀]
      rfl
    have hqueue : s.clientsById.lookup id = none → s.protocol.disconnect id
        = { s.protocol with
            pendingClients := s.pendingClients.filter fun r => (s.heap r).id ≠ id } := fun h₀ => by
      rw [Protocol.disconnect, show s.protocol.clientsById.lookup id = none from h₀]
      rfl
    refine ⟨by rw [hstate]; exact hgone, fun trace' s' run' hfew' hissued => ?_, ?_,
      fun j hj => ?_, fun a r hr => ?_⟩
    · have hend' : Endpoints (notes trace) (udcDisconnect s id).protocol := by
        rw [hstate]
        exact endpoints_disconnect hend id
      have hle : id ≤ (udcDisconnect s id).protocol.nextRef := by
        rw [hstate, nextRef_disconnect]
        rw [hend.issued] at hissued
        obtain ⟨r, hr, rfl⟩ := List.mem_map.mp hissued
        exact List.mem_range.mp hr
      refine silent_of_gone hend' (by rw [hstate]; exact hgone) hle (run_simulates
        (run'.mono fun _ _ _ h => ⟨h, meets_true _ _⟩)) ?_
      rw [notes, List.flatMap_append] at hfew'
      exact hfew'
    · show ((udcDisconnect s id).protocol.pendingClients.filter _) = _
      rw [hstate]
      cases h₀ : s.clientsById.lookup id with
      | some r₀ => rw [hmaps r₀ h₀]; rfl
      | none =>
          rw [hqueue h₀]
          exact List.filter_filter.trans (by simp)
    · show (udcDisconnect s id).protocol.clientsById.lookup j = _
      rw [hstate]
      cases h₀ : s.clientsById.lookup id with
      | some r₀ => rw [hmaps r₀ h₀]; exact Finmap.lookup_erase_ne hj
      | none => rw [hqueue h₀]; rfl
    · show (udcDisconnect s id).protocol.clientsByAddress.lookup a = some r ↔ _
      rw [hstate]
      cases h₀ : s.clientsById.lookup id with
      | some r₀ =>
          rw [hmaps r₀ h₀]
          refine lookup_erase_some.trans (and_iff_right_of_imp fun hr' ha => hr ?_)
          subst ha
          exact hclean.alone r₀ h₀ r hr'
      | none => rw [hqueue h₀]; rfl

/-- An endpoint that connected from its own address, beside one that waits, goes alone. -/
theorem exactlyRemoves_own : ExactlyRemoves (runTrace exampleServer ownHandshakeOps)
    (runState exampleServer ownHandshakeOps) 1 := by
  have hmap : (runState exampleServer ownHandshakeOps).protocol.clientsByAddress
      = (∅ : UdcAddressMap ClientRef).insert ⟨.ipv4 (exampleIP 2), 2⟩ 0 := by decide +kernel
  have hown : ((runState exampleServer ownHandshakeOps).protocol.heap 0).outgoingAddress
      = ⟨.ipv4 (exampleIP 2), 2⟩ := by decide +kernel
  have hid : ((runState exampleServer ownHandshakeOps).protocol.heap 0).id = 1 := by
    decide +kernel
  have hentry : ∀ a r, (runState exampleServer ownHandshakeOps).protocol.clientsByAddress.lookup a
      = some r → a = ⟨.ipv4 (exampleIP 2), 2⟩ ∧ r = 0 := fun a r hr => by
    rw [hmap] at hr
    rcases lookup_insert_some.mp hr with h | ⟨-, h⟩
    · exact h
    · rw [Finmap.lookup_empty] at h
      cases h
  refine (exactlyRemoves_iff (run_of_admissible ownHandshakeOps (by decide +kernel))
    (by decide +kernel)).mpr ⟨fun a r hr _ => ?_, fun r _ r' hr' => ?_⟩
  · obtain ⟨rfl, rfl⟩ := hentry a r hr
    exact hown.symm
  · obtain ⟨-, rfl⟩ := hentry _ r' hr'
    exact hid

/-- An endpoint that connected from another address leaves an entry behind. -/
theorem entry_left_behind : ∃ trace s id,
    ServerRun exampleSignature exampleBuffer trace s ∧ FewIssued (notes trace) ∧
      id ∈ issuedIds (notes trace) ∧ ¬ ExactlyRemoves trace s id := by
  refine ⟨_, _, 1, run_of_admissible foreignHandshakeOps (by decide +kernel),
    by decide +kernel, by decide +kernel, fun h => ?_⟩
  exact h.gone.byAddress ⟨.ipv4 (exampleIP 2), 1⟩ 0 (by decide +kernel) (by decide +kernel)

end Runs

end UdpConnect
