/-
What endpoint ids, client references and containers have to do with each other.

As long as the id counter has not gone around, the endpoint issued as number `n` is
the client behind reference `n - 1`, for ever.  The queue of those still connecting is
in the order of the connect calls, and who waits there is in neither map.
-/
import UdpConnect.Proofs.Effects

namespace UdpConnect

/-! ### Finite maps -/

section Maps

variable {α β : Type} [DecidableEq α] {m : Finmap fun _ : α => β} {k k' : α} {v v' : β}

theorem lookup_insert_some : (m.insert k v).lookup k' = some v' ↔
    (k' = k ∧ v' = v) ∨ (k' ≠ k ∧ m.lookup k' = some v') := by
  by_cases h : k' = k
  · subst h
    rw [Finmap.lookup_insert]
    simp [eq_comm]
  · rw [Finmap.lookup_insert_of_ne _ h]
    simp [h]

theorem lookup_erase_some : (m.erase k).lookup k' = some v' ↔
    k' ≠ k ∧ m.lookup k' = some v' := by
  by_cases h : k' = k
  · subst h
    rw [Finmap.lookup_erase]
    simp
  · rw [Finmap.lookup_erase_ne h]
    simp [h]

theorem lookup_of_notMem (h : k ∉ m) : m.lookup k = none := Finmap.lookup_eq_none.mpr h

end Maps

/-! ### The invariant -/

/-- The ids handed out, in the order of the connect calls. -/
def issuedIds (ns : List Note) : List UdcEndPointId :=
  ns.filterMap fun
    | .issued endPointId => some endPointId
    | _ => none

@[simp] theorem issuedIds_append (ns ns' : List Note) :
    issuedIds (ns ++ ns') = issuedIds ns ++ issuedIds ns' := List.filterMap_append

/-- Fewer than `2 ^ 32` connect calls have handed out an id. -/
def FewIssued (ns : List Note) : Prop := (issuedIds ns).length < 2 ^ 32

instance (ns : List Note) : Decidable (FewIssued ns) := inferInstanceAs (Decidable (_ < _))

theorem FewIssued.left {ns ns' : List Note} (h : FewIssued (ns ++ ns')) : FewIssued ns := by
  unfold FewIssued at *
  rw [issuedIds_append, List.length_append] at h
  omega

structure Endpoints (ns : List Note) (p : Protocol) : Prop where
  counter : p.idCounter = p.nextRef
  issued : issuedIds ns = (List.range p.nextRef).map (· + 1)
  ids : ∀ r < p.nextRef, (p.heap r).id = r + 1
  refs : ∀ r ∈ p.pendingClients, r < p.nextRef
  order : p.pendingClients.Pairwise (· < ·)
  byId : ∀ id r, p.clientsById.lookup id = some r → r < p.nextRef ∧ id = r + 1
  byAddress : ∀ a r, p.clientsByAddress.lookup a = some r → r < p.nextRef
  waiting : ∀ r ∈ p.pendingClients,
    (∀ id, p.clientsById.lookup id ≠ some r) ∧ ∀ a, p.clientsByAddress.lookup a ≠ some r

section Preservation

variable {ns ns' : List Note} {p p' : Protocol}

theorem endpoints_setClient (h : Endpoints ns p) {r : ClientRef} {c : UdcClient}
    (hsame : SameEndpoint (p.heap r) c) : Endpoints ns (p.setClient r c) := by
  refine ⟨h.counter, h.issued, fun r' hr' => ?_, h.refs, h.order, h.byId, h.byAddress, h.waiting⟩
  by_cases heq : r' = r
  · subst heq
    rw [Protocol.heap_setClient_self, hsame.id]
    exact h.ids r' hr'
  · rw [Protocol.heap_setClient_of_ne _ heq]
    exact h.ids r' hr'

theorem endpoints_disconnect (h : Endpoints ns p) (id : UdcEndPointId) :
    Endpoints ns (p.disconnect id) := by
  unfold Protocol.disconnect
  cases hlookup : p.clientsById.lookup id with
  | some r =>
      refine ⟨h.counter, h.issued, h.ids, h.refs, h.order, fun id' r' hr' => ?_,
        fun a r' hr' => ?_, fun r' hr' => ⟨fun id' hid' => ?_, fun a ha => ?_⟩⟩
      · exact h.byId id' r' (lookup_erase_some.mp hr').2
      · exact h.byAddress a r' (lookup_erase_some.mp hr').2
      · exact (h.waiting r' hr').1 id' (lookup_erase_some.mp hid').2
      · exact (h.waiting r' hr').2 a (lookup_erase_some.mp ha).2
  | none =>
      refine ⟨h.counter, h.issued, h.ids, fun r' hr' => h.refs r' (List.mem_filter.mp hr').1,
        h.order.filter _, h.byId, h.byAddress,
        fun r' hr' => h.waiting r' (List.mem_filter.mp hr').1⟩

theorem endpoints_issue (h : Endpoints ns p) (hfew : p.nextRef + 1 < 2 ^ 32) {c : UdcClient}
    (hid : c.id = u32 (p.idCounter + 1)) :
    Endpoints (ns ++ [.issued (u32 (p.idCounter + 1))])
      { p with
        idCounter := u32 (p.idCounter + 1)
        heap := Function.update p.heap p.nextRef c
        nextRef := p.nextRef + 1
        pendingClients := p.pendingClients ++ [p.nextRef] } := by
  have hcount : u32 (p.idCounter + 1) = p.nextRef + 1 := by
    rw [h.counter]
    exact u32_of_lt hfew
  refine ⟨hcount, ?_, fun r hr => ?_, fun r hr => ?_, ?_, fun id r hr => ?_, fun a r hr => ?_,
    fun r hr => ?_⟩
  · rw [issuedIds_append, h.issued, List.range_succ, List.map_append, hcount]
    rfl
  · show (Function.update p.heap p.nextRef c r).id = r + 1
    by_cases heq : r = p.nextRef
    · rw [heq, Function.update_self, hid, hcount]
    · rw [Function.update_of_ne heq]
      exact h.ids r (Nat.lt_of_le_of_ne (Nat.lt_succ_iff.mp hr) heq)
  · rcases List.mem_append.mp hr with hr | hr
    · exact Nat.lt_succ_of_lt (h.refs r hr)
    · rw [List.mem_singleton.mp hr]
      exact Nat.lt_succ_self _
  · refine List.pairwise_append.mpr ⟨h.order, List.pairwise_singleton _ _, fun r hr r' hr' => ?_⟩
    rw [List.mem_singleton.mp hr']
    exact h.refs r hr
  · exact ⟨Nat.lt_succ_of_lt (h.byId id r hr).1, (h.byId id r hr).2⟩
  · exact Nat.lt_succ_of_lt (h.byAddress a r hr)
  · rcases List.mem_append.mp hr with hr | hr
    · exact h.waiting r hr
    · -- the new reference is above all that are in use
      rw [List.mem_singleton.mp hr]
      exact ⟨fun id hid => Nat.lt_irrefl _ (h.byId id _ hid).1,
        fun a ha => Nat.lt_irrefl _ (h.byAddress a _ ha)⟩

theorem endpoints_accept (h : Endpoints ns p) {r : ClientRef} {rest : List ClientRef}
    {c : UdcClient} {address : UdcAddressMux} (hpending : p.pendingClients = r :: rest)
    (hsame : SameEndpoint (p.heap r) c) :
    Endpoints ns
      { p.setClient r c with
        clientsById := p.clientsById.insert (p.heap r).id r
        clientsByAddress := p.clientsByAddress.insert address r
        pendingClients := rest } := by
  have hset := endpoints_setClient h hsame
  have hr : r < p.nextRef := h.refs r (by rw [hpending]; exact List.mem_cons_self)
  have hrest : ∀ r' ∈ rest, r' ∈ p.pendingClients := fun r' hr' => by
    rw [hpending]; exact List.mem_cons_of_mem _ hr'
  have horder := h.order
  rw [hpending, List.pairwise_cons] at horder
  refine ⟨hset.counter, hset.issued, hset.ids, fun r' hr' => h.refs r' (hrest r' hr'), horder.2,
    fun id r' hr' => ?_, fun a r' hr' => ?_, fun r' hr' => ⟨fun id hid => ?_, fun a ha => ?_⟩⟩
  · rcases lookup_insert_some.mp hr' with ⟨rfl, rfl⟩ | ⟨-, hr'⟩
    · exact ⟨hr, h.ids _ hr⟩
    · exact h.byId id r' hr'
  · rcases lookup_insert_some.mp hr' with ⟨-, rfl⟩ | ⟨-, hr'⟩
    · exact hr
    · exact h.byAddress a r' hr'
  · rcases lookup_insert_some.mp hid with ⟨-, rfl⟩ | ⟨-, hid⟩
    · exact Nat.lt_irrefl _ (horder.1 _ hr')
    · exact (h.waiting r' (hrest r' hr')).1 id hid
  · rcases lookup_insert_some.mp ha with ⟨-, rfl⟩ | ⟨-, ha⟩
    · exact Nat.lt_irrefl _ (horder.1 _ hr')
    · exact (h.waiting r' (hrest r' hr')).2 a ha

/-- Nothing was issued. -/
theorem Endpoints.quiet (h : Endpoints ns p) (hns : issuedIds ns' = []) :
    Endpoints (ns ++ ns') p where
  counter := h.counter
  issued := by rw [issuedIds_append, hns, List.append_nil, h.issued]
  ids := h.ids
  refs := h.refs
  order := h.order
  byId := h.byId
  byAddress := h.byAddress
  waiting := h.waiting

theorem endpoints_effect (h : Endpoints ns p) {c : Change} (he : p.Effect c p' ns')
    (hfew : FewIssued (ns ++ ns')) : Endpoints (ns ++ ns') p' := by
  cases he with
  | issue c hid haddress hconn =>
      refine endpoints_issue h ?_ hid
      unfold FewIssued at hfew
      rw [issuedIds_append, h.issued] at hfew
      simpa [issuedIds] using hfew
  | disconnect id => exact (endpoints_disconnect h id).quiet rfl
  | @expire _ r rest hpending =>
      have hrest : ∀ r' ∈ rest, r' ∈ p.pendingClients := fun r' hr' => by
        rw [hpending]; exact List.mem_cons_of_mem _ hr'
      have horder := h.order
      rw [hpending, List.pairwise_cons] at horder
      exact Endpoints.quiet ⟨h.counter, h.issued, h.ids, fun r' hr' => h.refs r' (hrest r' hr'),
        horder.2, h.byId, h.byAddress, fun r' hr' => h.waiting r' (hrest r' hr')⟩ rfl
  | accept c hpending hsame hconn hfree => exact (endpoints_accept h hpending hsame).quiet rfl
  | lose c hlookup hsame hwas hconn => exact (endpoints_setClient h hsame).quiet rfl
  | regain c hm htime hlookup hsame hwas hconn => exact (endpoints_setClient h hsame).quiet rfl
  | update c hsame hconn => exact (endpoints_setClient h hsame).quiet rfl
  | other states =>
      exact Endpoints.quiet ⟨h.counter, h.issued, h.ids, h.refs, h.order, h.byId, h.byAddress,
        h.waiting⟩ rfl

/-- Clients with one id are one client. -/
theorem Endpoints.ref_eq {r r' : ClientRef} (h : Endpoints ns p)
    (hr : r < p.nextRef) (hr' : r' < p.nextRef) (hid : (p.heap r).id = (p.heap r').id) :
    r = r' := by
  rw [h.ids r hr, h.ids r' hr'] at hid
  exact Nat.succ.inj hid

end Preservation

/-! ### Runs -/

/-- The machine of a server that has just been created. -/
structure Protocol.Fresh (p : Protocol) : Prop where
  idCounter : p.idCounter = 0
  nextRef : p.nextRef = 0
  pendingClients : p.pendingClients = []
  clientsById : p.clientsById = ∅
  clientsByAddress : p.clientsByAddress = ∅
  reliableStates : p.reliableStates = ∅

theorem fresh_new (signature : UdcSignature) (buffer : MessageBuffer) :
    (UdcServerImpl.new signature buffer).protocol.Fresh := ⟨rfl, rfl, rfl, rfl, rfl, rfl⟩

theorem endpoints_fresh {p : Protocol} (h : p.Fresh) : Endpoints [] p where
  counter := by rw [h.idCounter, h.nextRef]
  issued := by rw [h.nextRef]; rfl
  ids r hr := by rw [h.nextRef] at hr; exact absurd hr (Nat.not_lt_zero r)
  refs r hr := by rw [h.pendingClients] at hr; cases hr
  order := by rw [h.pendingClients]; exact List.Pairwise.nil
  byId id r hr := by rw [h.clientsById, Finmap.lookup_empty] at hr; cases hr
  byAddress a r hr := by rw [h.clientsByAddress, Finmap.lookup_empty] at hr; cases hr
  waiting r hr := by rw [h.pendingClients] at hr; cases hr

/--
The induction on runs of a server, in terms of the effects of its changes: what holds of
a fresh machine and is kept by every effect holds at the end of every run in which fewer
than `2 ^ 32` ids were issued.
-/
theorem run_effects {C : Milliseconds → Handling → Prop} {P : List Note → Protocol → Prop}
    (h₀ : ∀ p : Protocol, p.Fresh → P [] p)
    (hstep : ∀ ns p c p' ns', P ns p → Endpoints ns p → p.Effect c p' ns' →
      (∀ address time m, c = .handle address time m → C time ⟨p, address, m⟩) →
      P (ns ++ ns') p')
    {signature : UdcSignature} {buffer : MessageBuffer} {trace : List (Op × Outcome)}
    {s : UdcServerImpl}
    (run : Runs.Run (StepsMeeting C) (UdcServerImpl.new signature buffer) trace s)
    (hfew : FewIssued (notes trace)) : Endpoints (notes trace) s.protocol ∧
      P (notes trace) s.protocol := by
  have hfresh := fresh_new signature buffer
  refine (run_simulates run).invariant (P := fun ns p => FewIssued ns → Endpoints ns p ∧ P ns p)
    (fun _ => ⟨endpoints_fresh hfresh, h₀ _ hfresh⟩) (fun ns p c ih hC hfew => ?_) hfew
  obtain ⟨hend, hP⟩ := ih hfew.left
  have heffect := change_effect (p := p) c
  exact ⟨endpoints_effect hend heffect hfew, hstep ns p c _ _ hP hend heffect hC⟩

end UdpConnect
