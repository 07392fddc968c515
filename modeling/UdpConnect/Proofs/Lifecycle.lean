/-
The life of an endpoint, as its connection events tell it.

An endpoint waits in the queue of pending connections until its attempt expires or is
accepted, and only the one in front can.  So the connection results come in the order
of the connect calls: results and queue together, as ids, are what was issued with
some left out (`Results`).

From then on the `isConnected` flag of a client is what its last event says, wherever
the client is found (`Lives`).  Losing needs the flag and regaining needs it unset, so
the two alternate.

What `udcGetStatus` answers is decided by the flag and by the presence in
`clientsById`.  That agrees with the events unless a client is regained which has been
disconnected before, and which a map entry under another address kept alive.
-/
import UdpConnect.Proofs.Endpoints

namespace UdpConnect

/-! ### The order of connection results -/

/-- The endpoints of the connection results, in the order of the events. -/
def resultIds (ns : List Note) : List UdcEndPointId :=
  ns.filterMap fun
    | .event .connectionSuccess endPointId => some endPointId
    | .event .connectionTimeout endPointId => some endPointId
    | _ => none

@[simp] theorem resultIds_append (ns ns' : List Note) :
    resultIds (ns ++ ns') = resultIds ns ++ resultIds ns' := List.filterMap_append

/-- Those who have a result, then those who wait for one, in the order of their issue. -/
def Results (ns : List Note) (p : Protocol) : Prop :=
  (resultIds ns ++ p.pendingClients.map (· + 1)).Sublist (issuedIds ns)

section Results

variable {ns ns' : List Note} {p p' : Protocol}

/-- The one in front of the queue moves to the results. -/
theorem results_front (h : Results ns p) {r : ClientRef} {rest : List ClientRef}
    (hpending : p.pendingClients = r :: rest) {n : Note} (hresult : resultIds [n] = [r + 1])
    (hissued : issuedIds [n] = []) (hrest : p'.pendingClients = rest) :
    Results (ns ++ [n]) p' := by
  unfold Results at *
  rw [resultIds_append, issuedIds_append, hresult, hissued, hrest, List.append_nil,
    List.append_assoc]
  rw [hpending] at h
  exact h

/-- The queue loses some, and nothing else happens to it. -/
theorem Results.mono (h : Results ns p) (hpending : p'.pendingClients.Sublist p.pendingClients)
    (hresult : resultIds ns' = []) (hissued : issuedIds ns' = []) : Results (ns ++ ns') p' := by
  unfold Results at *
  rw [resultIds_append, issuedIds_append, hresult, hissued, List.append_nil, List.append_nil]
  exact (((hpending.map _).append_left _)).trans h

theorem results_effect (h : Results ns p) (hend : Endpoints ns p) {c : Change}
    (he : p.Effect c p' ns') (hend' : Endpoints (ns ++ ns') p') : Results (ns ++ ns') p' := by
  cases he with
  | issue c hid haddress hconn =>
      have hnew : u32 (p.idCounter + 1) = p.nextRef + 1 := hend'.counter
      unfold Results at *
      rw [resultIds_append, issuedIds_append, hnew,
        show resultIds [Note.issued (p.nextRef + 1)] = [] from rfl, List.append_nil,
        List.map_append, ← List.append_assoc]
      exact h.append_right _
  | disconnect id => exact h.mono (pending_disconnect p id) rfl rfl
  | @expire _ r rest hpending =>
      have hid := hend.ids r (hend.refs r (by rw [hpending]; exact List.mem_cons_self))
      rw [hid]
      exact results_front h hpending rfl rfl rfl
  | @accept _ _ r rest c hpending hsame hconn hfree =>
      have hid := hend.ids r (hend.refs r (by rw [hpending]; exact List.mem_cons_self))
      rw [hid]
      exact results_front h hpending rfl rfl rfl
  | lose c hlookup hsame hwas hconn => exact h.mono (List.Sublist.refl _) rfl rfl
  | regain c hm htime hlookup hsame hwas hconn => exact h.mono (List.Sublist.refl _) rfl rfl
  | update c hsame hconn => exact h.mono (List.Sublist.refl _) rfl rfl
  | other states => exact h.mono (List.Sublist.refl _) rfl rfl

end Results

/-! ### The sequence of events -/

/-- The connection events that name an endpoint. -/
def lifeOf (endPointId : UdcEndPointId) (ns : List Note) : List UdcEventType :=
  ns.filterMap fun
    | .event eventType id => if id = endPointId then some eventType else none
    | _ => none

/-- A prefix of a timeout alone, or of a success and then losses and regains in turn. -/
def WellBracketed (l : List UdcEventType) : Prop :=
  l <+: [.connectionTimeout] ∨
    ∃ k, l <+: .connectionSuccess ::
      (List.replicate k [UdcEventType.connectionLost, .connectionRegained]).flatten

/-- The events of an endpoint that has connected, and whether the last one says it still is. -/
inductive Alive : List UdcEventType → Bool → Prop
  | success : Alive [.connectionSuccess] true
  | lost {l : List UdcEventType} (h : Alive l true) : Alive (l ++ [.connectionLost]) false
  | regained {l : List UdcEventType} (h : Alive l false) : Alive (l ++ [.connectionRegained]) true

/-- Whole rounds after a lost and a regained, or a round begun. -/
theorem alive_rounds {l : List UdcEventType} {b : Bool} (h : Alive l b) :
    ∃ k, l = .connectionSuccess ::
      ((List.replicate k [UdcEventType.connectionLost, .connectionRegained]).flatten ++
        if b then [] else [.connectionLost]) := by
  induction h with
  | success => exact ⟨0, rfl⟩
  | lost _ ih =>
      obtain ⟨k, rfl⟩ := ih
      exact ⟨k, by simp⟩
  | regained _ ih =>
      obtain ⟨k, rfl⟩ := ih
      refine ⟨k + 1, ?_⟩
      rw [List.replicate_succ', List.flatten_append]
      simp

theorem wellBracketed_of_alive {l : List UdcEventType} {b : Bool} (h : Alive l b) :
    WellBracketed l := by
  obtain ⟨k, rfl⟩ := alive_rounds h
  refine Or.inr ⟨k + 1, ?_⟩
  rw [List.replicate_succ', List.flatten_append, List.prefix_cons_inj]
  refine (List.prefix_append_right_inj _).mpr ?_
  cases b <;> simp

theorem lifeOf_append (endPointId : UdcEndPointId) (ns ns' : List Note) :
    lifeOf endPointId (ns ++ ns') = lifeOf endPointId ns ++ lifeOf endPointId ns' :=
  List.filterMap_append

theorem lifeOf_event (endPointId : UdcEndPointId) (ns : List Note) (eventType : UdcEventType) :
    lifeOf endPointId (ns ++ [.event eventType endPointId])
      = lifeOf endPointId ns ++ [eventType] := by
  simp [lifeOf]

theorem lifeOf_event_ne {endPointId id : UdcEndPointId} (h : id ≠ endPointId) (ns : List Note)
    (eventType : UdcEventType) :
    lifeOf endPointId (ns ++ [.event eventType id]) = lifeOf endPointId ns := by
  simp [lifeOf, h]

theorem lifeOf_event_other {r r' : ClientRef} (h : r ≠ r') (ns : List Note)
    (eventType : UdcEventType) :
    lifeOf (r' + 1) (ns ++ [.event eventType (r + 1)]) = lifeOf (r' + 1) ns :=
  lifeOf_event_ne (fun hc => h (Nat.succ.inj hc)) ns eventType

/-- The client is in one of the two maps. -/
def Protocol.Joined (p : Protocol) (r : ClientRef) : Prop :=
  (∃ id, p.clientsById.lookup id = some r) ∨ ∃ a, p.clientsByAddress.lookup a = some r

structure Lives (ns : List Note) (p : Protocol) : Prop where
  shape : ∀ id, lifeOf id ns = [] ∨ lifeOf id ns = [.connectionTimeout] ∨
    ∃ b, Alive (lifeOf id ns) b
  waiting : ∀ r ∈ p.pendingClients, lifeOf (r + 1) ns = []
  unborn : ∀ r, p.nextRef ≤ r → lifeOf (r + 1) ns = []
  joined : ∀ r, p.Joined r → Alive (lifeOf (r + 1) ns) (p.heap r).isConnected

section Lives

variable {ns ns' : List Note} {p p' : Protocol}

theorem Endpoints.joined_lt (h : Endpoints ns p) {r : ClientRef} (hr : p.Joined r) :
    r < p.nextRef := by
  rcases hr with ⟨id, hid⟩ | ⟨a, ha⟩
  · exact (h.byId id r hid).1
  · exact h.byAddress a r ha

theorem Endpoints.not_joined (h : Endpoints ns p) {r : ClientRef} (hr : r ∈ p.pendingClients) :
    ¬ p.Joined r := by
  rintro (⟨id, hid⟩ | ⟨a, ha⟩)
  · exact (h.waiting r hr).1 id hid
  · exact (h.waiting r hr).2 a ha

/-- The one in front of the queue comes before the rest. -/
theorem Endpoints.front_lt (h : Endpoints ns p) {r r' : ClientRef} {rest : List ClientRef}
    (hpending : p.pendingClients = r :: rest) (hr' : r' ∈ rest) : r < r' := by
  have horder := h.order
  rw [hpending, List.pairwise_cons] at horder
  exact horder.1 r' hr'

/-- Nothing is heard, and whoever is joined was so before. -/
theorem Lives.quiet (h : Lives ns p) (hlife : ∀ id, lifeOf id (ns ++ ns') = lifeOf id ns)
    (hpending : ∀ r ∈ p'.pendingClients, r ∈ p.pendingClients ∨ p.nextRef ≤ r)
    (hnext : p.nextRef ≤ p'.nextRef)
    (hjoined : ∀ r, p'.Joined r → p.Joined r ∧
      (p'.heap r).isConnected = (p.heap r).isConnected) : Lives (ns ++ ns') p' := by
  refine ⟨fun id => ?_, fun r hr => ?_, fun r hr => ?_, fun r hr => ?_⟩
  · rw [hlife]; exact h.shape id
  · rw [hlife]
    rcases hpending r hr with hr | hr
    · exact h.waiting r hr
    · exact h.unborn r hr
  · rw [hlife]; exact h.unborn r (hnext.trans hr)
  · rw [hlife, (hjoined r hr).2]; exact h.joined r (hjoined r hr).1

/-- A joined client hears something, and its flag is what it heard. -/
theorem lives_event (h : Lives ns p) (hend : Endpoints ns p) {r : ClientRef} {c : UdcClient}
    {eventType : UdcEventType} (hr : p.Joined r)
    (hnext : Alive (lifeOf (r + 1) ns ++ [eventType]) c.isConnected) :
    Lives (ns ++ [.event eventType (r + 1)]) (p.setClient r c) := by
  have hlt := hend.joined_lt hr
  refine ⟨fun id => ?_, fun r' hr' => ?_, fun r' hr' => ?_, fun r' hr' => ?_⟩
  · by_cases hid : r + 1 = id
    · rw [← hid, lifeOf_event]
      exact Or.inr (Or.inr ⟨_, hnext⟩)
    · rw [lifeOf_event_ne hid]
      exact h.shape id
  · have hne : r ≠ r' := fun hc => hend.not_joined hr' (hc ▸ hr)
    rw [lifeOf_event_other hne]
    exact h.waiting r' hr'
  · have hle : p.nextRef ≤ r' := hr'
    rw [lifeOf_event_other (Nat.ne_of_lt (hlt.trans_le hle))]
    exact h.unborn r' hle
  · by_cases heq : r' = r
    · subst heq
      rw [lifeOf_event, Protocol.heap_setClient_self]
      exact hnext
    · rw [lifeOf_event_other (Ne.symm heq), Protocol.heap_setClient_of_ne _ heq]
      exact h.joined r' hr'

theorem lives_expire (h : Lives ns p) (hend : Endpoints ns p) {r : ClientRef}
    {rest : List ClientRef} (hpending : p.pendingClients = r :: rest) :
    Lives (ns ++ [.event .connectionTimeout (r + 1)]) { p with pendingClients := rest } := by
  have hr : r ∈ p.pendingClients := by rw [hpending]; exact List.mem_cons_self
  have hlt := hend.refs r hr
  refine ⟨fun id => ?_, fun r' hr' => ?_, fun r' hr' => ?_, fun r' hr' => ?_⟩
  · by_cases hid : r + 1 = id
    · rw [← hid, lifeOf_event, h.waiting r hr]
      exact Or.inr (Or.inl rfl)
    · rw [lifeOf_event_ne hid]
      exact h.shape id
  · have hfront := hend.front_lt hpending hr'
    rw [lifeOf_event_other (Nat.ne_of_lt hfront)]
    exact h.waiting r' (by rw [hpending]; exact List.mem_cons_of_mem _ hr')
  · have hle : p.nextRef ≤ r' := hr'
    rw [lifeOf_event_other (Nat.ne_of_lt (hlt.trans_le hle))]
    exact h.unborn r' hle
  · have hne : r ≠ r' := fun hc => hend.not_joined hr (hc ▸ hr')
    rw [lifeOf_event_other hne]
    exact h.joined r' hr'

theorem lives_accept (h : Lives ns p) (hend : Endpoints ns p) {r : ClientRef}
    {rest : List ClientRef} {c : UdcClient} {address : UdcAddressMux}
    (hpending : p.pendingClients = r :: rest) (hconn : c.isConnected = true) :
    Lives (ns ++ [.event .connectionSuccess (r + 1)])
      { p.setClient r c with
        clientsById := p.clientsById.insert (r + 1) r
        clientsByAddress := p.clientsByAddress.insert address r
        pendingClients := rest } := by
  have hr : r ∈ p.pendingClients := by rw [hpending]; exact List.mem_cons_self
  have hlt := hend.refs r hr
  have hnow : lifeOf (r + 1) (ns ++ [.event .connectionSuccess (r + 1)])
      = [.connectionSuccess] := by
    rw [lifeOf_event, h.waiting r hr]
    rfl
  refine ⟨fun id => ?_, fun r' hr' => ?_, fun r' hr' => ?_, fun r' hr' => ?_⟩
  · by_cases hid : r + 1 = id
    · rw [← hid, hnow]
      exact Or.inr (Or.inr ⟨_, .success⟩)
    · rw [lifeOf_event_ne hid]
      exact h.shape id
  · have hfront := hend.front_lt hpending hr'
    rw [lifeOf_event_other (Nat.ne_of_lt hfront)]
    exact h.waiting r' (by rw [hpending]; exact List.mem_cons_of_mem _ hr')
  · have hle : p.nextRef ≤ r' := hr'
    rw [lifeOf_event_other (Nat.ne_of_lt (hlt.trans_le hle))]
    exact h.unborn r' hle
  · by_cases heq : r' = r
    · subst heq
      show Alive _ ((p.setClient r' c).heap r').isConnected
      rw [hnow, Protocol.heap_setClient_self, hconn]
      exact .success
    · show Alive _ ((p.setClient r c).heap r').isConnected
      rw [lifeOf_event_other (Ne.symm heq), Protocol.heap_setClient_of_ne _ heq]
      refine h.joined r' ?_
      rcases hr' with ⟨id, hid⟩ | ⟨a, ha⟩
      · rcases lookup_insert_some.mp hid with ⟨-, hc⟩ | ⟨-, hid⟩
        · exact absurd hc heq
        · exact Or.inl ⟨id, hid⟩
      · rcases lookup_insert_some.mp ha with ⟨-, hc⟩ | ⟨-, ha⟩
        · exact absurd hc heq
        · exact Or.inr ⟨a, ha⟩

theorem joined_disconnect {id : UdcEndPointId} {r : ClientRef} (h : (p.disconnect id).Joined r) :
    p.Joined r := by
  unfold Protocol.disconnect at h
  cases hlookup : p.clientsById.lookup id with
  | none =>
      rw [hlookup] at h
      exact h
  | some r₀ =>
      rw [hlookup] at h
      rcases h with ⟨id', hid'⟩ | ⟨a, ha⟩
      · exact Or.inl ⟨id', (lookup_erase_some.mp hid').2⟩
      · exact Or.inr ⟨a, (lookup_erase_some.mp ha).2⟩

theorem lives_effect (h : Lives ns p) (hend : Endpoints ns p) {c : Change}
    (he : p.Effect c p' ns') : Lives (ns ++ ns') p' := by
  cases he with
  | issue c hid haddress hconn =>
      refine h.quiet (by simp [lifeOf]) (fun r hr => ?_) (Nat.le_succ _) fun r hr => ⟨hr, ?_⟩
      · rcases List.mem_append.mp hr with hr | hr
        · exact Or.inl hr
        · exact Or.inr (Nat.le_of_eq (List.mem_singleton.mp hr).symm)
      · have hlt : r < p.nextRef := hend.joined_lt hr
        show (Function.update p.heap p.nextRef c r).isConnected = _
        rw [Function.update_of_ne (Nat.ne_of_lt hlt)]
  | disconnect id =>
      refine h.quiet (by simp [lifeOf])
        (fun r hr => Or.inl ((pending_disconnect p id).subset hr))
        (Nat.le_of_eq (nextRef_disconnect p id).symm)
        fun r hr => ⟨joined_disconnect hr, by rw [heap_disconnect]⟩
  | @expire _ r rest hpending =>
      rw [hend.ids r (hend.refs r (by rw [hpending]; exact List.mem_cons_self))]
      exact lives_expire h hend hpending
  | @accept _ _ r rest c hpending hsame hconn hfree =>
      rw [hend.ids r (hend.refs r (by rw [hpending]; exact List.mem_cons_self))]
      exact lives_accept h hend hpending hconn
  | @lose id _ r c hlookup hsame hwas hconn =>
      have hr : p.Joined r := Or.inl ⟨id, hlookup⟩
      rw [hend.ids r (hend.joined_lt hr)]
      refine lives_event h hend hr ?_
      rw [hconn]
      exact .lost (hwas ▸ h.joined r hr)
  | @regain a _ _ _ r c hm htime hlookup hsame hwas hconn =>
      have hr : p.Joined r := Or.inr ⟨a, hlookup⟩
      rw [hend.ids r (hend.joined_lt hr)]
      refine lives_event h hend hr ?_
      rw [hconn]
      exact .regained (hwas ▸ h.joined r hr)
  | @update _ r c hsame hconn =>
      refine h.quiet (by simp) (fun r hr => Or.inl hr) (Nat.le_refl _) fun r' hr' => ⟨hr', ?_⟩
      by_cases heq : r' = r
      · rw [heq, Protocol.heap_setClient_self, hconn]
      · rw [Protocol.heap_setClient_of_ne _ heq]
  | other states =>
      exact h.quiet (by simp) (fun r hr => Or.inl hr) (Nat.le_refl _) fun r hr => ⟨hr, rfl⟩

theorem lives_fresh (h : p.Fresh) : Lives [] p where
  shape _ := Or.inl rfl
  waiting _ _ := rfl
  unborn _ _ := rfl
  joined r hr := by
    rcases hr with ⟨id, hid⟩ | ⟨a, ha⟩
    · rw [h.clientsById, Finmap.lookup_empty] at hid; cases hid
    · rw [h.clientsByAddress, Finmap.lookup_empty] at ha; cases ha

theorem Lives.wellBracketed (h : Lives ns p) (id : UdcEndPointId) :
    WellBracketed (lifeOf id ns) := by
  rcases h.shape id with hnil | htimeout | ⟨b, hb⟩
  · rw [hnil]; exact Or.inl (List.nil_prefix)
  · rw [htimeout]; exact Or.inl (List.prefix_refl _)
  · exact wellBracketed_of_alive hb

end Lives

/-! ### The reported status -/

/-- Whether the last thing heard of an endpoint is that it is connected. -/
def heard (endPointId : UdcEndPointId) (ns : List Note) : Bool :=
  ns.foldl
    (fun up n =>
      match n with
      | .event eventType id =>
          if id = endPointId then
            eventType = .connectionSuccess ∨ eventType = .connectionRegained
          else up
      | .disconnected id => if id = endPointId then false else up
      | .issued _ => up)
    false

/--
An answer that is taken for one of a lost endpoint is one of an endpoint that still
exists: it does not come from an address under which a client is kept that has been
disconnected.
-/
def NoLateAnswer (time : Milliseconds) (x : Handling) : Prop :=
  ∀ timeStamp ∈ x.message.answers, (timeStamp : Milliseconds) ≤ time →
    ∀ r ∈ x.state.clientsByAddress.lookup x.address, (x.state.heap r).isConnected = false →
      x.state.clientsById.lookup (x.state.heap r).id = some r

instance (time : Milliseconds) (x : Handling) : Decidable (NoLateAnswer time x) := by
  unfold NoLateAnswer
  infer_instance

/-- What is heard of an endpoint is what its status says. -/
def Status (ns : List Note) (p : Protocol) : Prop :=
  ∀ id, heard id ns = true ↔ ∃ r, p.clientsById.lookup id = some r ∧ (p.heap r).isConnected = true

section Status

variable {ns ns' : List Note} {p p' : Protocol}

theorem heard_event (id : UdcEndPointId) (ns : List Note) (eventType : UdcEventType) :
    heard id (ns ++ [.event eventType id]) = true ↔
      eventType = .connectionSuccess ∨ eventType = .connectionRegained := by
  simp [heard]

theorem heard_event_ne {id id' : UdcEndPointId} (h : id ≠ id') (ns : List Note)
    (eventType : UdcEventType) : heard id' (ns ++ [.event eventType id]) = heard id' ns := by
  simp [heard, h]

theorem heard_disconnected (id : UdcEndPointId) (ns : List Note) :
    heard id (ns ++ [.disconnected id]) = false := by
  simp [heard]

theorem heard_disconnected_ne {id id' : UdcEndPointId} (h : id ≠ id') (ns : List Note) :
    heard id' (ns ++ [.disconnected id]) = heard id' ns := by
  simp [heard, h]

/-- Nothing is heard, and the connected clients are those there were. -/
theorem Status.quiet (h : Status ns p) (hheard : ∀ id, heard id (ns ++ ns') = heard id ns)
    (hbyId : p'.clientsById = p.clientsById)
    (hconn : ∀ id r, p.clientsById.lookup id = some r →
      (p'.heap r).isConnected = (p.heap r).isConnected) : Status (ns ++ ns') p' := by
  intro id
  rw [hheard, h id, hbyId]
  refine exists_congr fun r => and_congr_right fun hr => ?_
  rw [hconn id r hr]

theorem Endpoints.byId_eq (h : Endpoints ns p) {id : UdcEndPointId} {r : ClientRef}
    (hr : p.clientsById.lookup id = some r) : id = r + 1 := (h.byId id r hr).2

/-- A client in `clientsById` hears something, and its flag is what it heard. -/
theorem status_event (h : Status ns p) (hend : Endpoints ns p) {r : ClientRef} {c : UdcClient}
    {eventType : UdcEventType} (hr : p.clientsById.lookup (r + 1) = some r)
    (hflag : c.isConnected = true ↔
      eventType = .connectionSuccess ∨ eventType = .connectionRegained) :
    Status (ns ++ [.event eventType (r + 1)]) (p.setClient r c) := by
  intro id
  by_cases hid : r + 1 = id
  · rw [← hid, heard_event, ← hflag]
    constructor
    · intro hc
      exact ⟨r, hr, by rw [Protocol.heap_setClient_self]; exact hc⟩
    · rintro ⟨r', hr', hc⟩
      have heq : r' = r := Option.some.inj (hr'.symm.trans hr)
      rwa [heq, Protocol.heap_setClient_self] at hc
  · rw [heard_event_ne hid, h id]
    refine exists_congr fun r' => and_congr_right fun hr' => ?_
    have hne : r' ≠ r := fun hc => hid (by rw [hend.byId_eq hr', hc])
    rw [Protocol.heap_setClient_of_ne _ hne]

theorem status_expire (h : Status ns p) (hend : Endpoints ns p) {r : ClientRef}
    (hr : r ∈ p.pendingClients) (rest : List ClientRef) :
    Status (ns ++ [.event .connectionTimeout (r + 1)]) { p with pendingClients := rest } := by
  intro id
  by_cases hid : r + 1 = id
  · rw [← hid, heard_event]
    refine iff_of_false (by simp) ?_
    rintro ⟨r', hr', -⟩
    obtain rfl : r = r' := Nat.succ.inj (hend.byId_eq hr')
    exact (hend.waiting r hr).1 _ hr'
  · rw [heard_event_ne hid]
    exact h id

theorem status_accept (h : Status ns p) (hend : Endpoints ns p) {r : ClientRef} {c : UdcClient}
    (hconn : c.isConnected = true) (address : UdcAddressMux) (rest : List ClientRef) :
    Status (ns ++ [.event .connectionSuccess (r + 1)])
      { p.setClient r c with
        clientsById := p.clientsById.insert (r + 1) r
        clientsByAddress := p.clientsByAddress.insert address r
        pendingClients := rest } := by
  intro id
  by_cases hid : r + 1 = id
  · rw [← hid, heard_event]
    refine iff_of_true (Or.inl rfl) ⟨r, Finmap.lookup_insert _, ?_⟩
    show ((p.setClient r c).heap r).isConnected = true
    rw [Protocol.heap_setClient_self, hconn]
  · rw [heard_event_ne hid, h id]
    refine exists_congr fun r' => ?_
    show _ ↔ (p.clientsById.insert (r + 1) r).lookup id = some r' ∧
      ((p.setClient r c).heap r').isConnected = true
    rw [Finmap.lookup_insert_of_ne _ (Ne.symm hid)]
    refine and_congr_right fun hr' => ?_
    have hne : r' ≠ r := fun hc => hid (by rw [hend.byId_eq hr', hc])
    rw [Protocol.heap_setClient_of_ne _ hne]

theorem status_disconnect (h : Status ns p) (id : UdcEndPointId) :
    Status (ns ++ [.disconnected id]) (p.disconnect id) := by
  intro id'
  rw [heap_disconnect]
  by_cases hid : id = id'
  · subst hid
    rw [heard_disconnected]
    refine iff_of_false (by simp) ?_
    rintro ⟨r, hr, -⟩
    unfold Protocol.disconnect at hr
    cases hlookup : p.clientsById.lookup id with
    | some r₀ =>
        rw [hlookup] at hr
        exact (lookup_erase_some.mp hr).1 rfl
    | none =>
        rw [hlookup] at hr
        rw [show p.clientsById.lookup id = some r from hr] at hlookup
        cases hlookup
  · rw [heard_disconnected_ne hid, h id']
    refine exists_congr fun r => and_congr_left fun _ => ?_
    unfold Protocol.disconnect
    cases p.clientsById.lookup id with
    | some r₀ => exact (lookup_erase_some.trans (and_iff_right (Ne.symm hid))).symm
    | none => exact Iff.rfl

theorem status_effect (h : Status ns p) (hend : Endpoints ns p) {c : Change}
    (he : p.Effect c p' ns')
    (hC : ∀ address time m, c = .handle address time m → NoLateAnswer time ⟨p, address, m⟩) :
    Status (ns ++ ns') p' := by
  cases he with
  | issue c hid haddress hconn =>
      refine h.quiet (by simp [heard]) rfl fun id r hr => ?_
      have hlt : r < p.nextRef := (hend.byId id r hr).1
      show (Function.update p.heap p.nextRef c r).isConnected = _
      rw [Function.update_of_ne (Nat.ne_of_lt hlt)]
  | disconnect id => exact status_disconnect h id
  | @expire _ r rest hpending =>
      have hr : r ∈ p.pendingClients := by rw [hpending]; exact List.mem_cons_self
      rw [hend.ids r (hend.refs r hr)]
      exact status_expire h hend hr rest
  | @accept address _ r rest c hpending hsame hconn hfree =>
      rw [hend.ids r (hend.refs r (by rw [hpending]; exact List.mem_cons_self))]
      exact status_accept h hend hconn address rest
  | @lose id _ r c hlookup hsame hwas hconn =>
      rw [hend.ids r (hend.byId id r hlookup).1]
      rw [hend.byId_eq hlookup] at hlookup
      exact status_event h hend hlookup (by simp [hconn])
  | @regain address time m timeStamp r c hm htime hlookup hsame hwas hconn =>
      have hlt := hend.byAddress address r hlookup
      -- the answer is not late, so the client is in the other map as well
      have hbyId := hC address time m rfl timeStamp hm htime r hlookup hwas
      rw [hend.ids r hlt] at hbyId ⊢
      exact status_event h hend hbyId (by simp [hconn])
  | @update _ r c hsame hconn =>
      refine h.quiet (by simp) rfl fun id r' _ => ?_
      by_cases heq : r' = r
      · rw [heq, Protocol.heap_setClient_self, hconn]
      · rw [Protocol.heap_setClient_of_ne _ heq]
  | other states => exact h.quiet (by simp) rfl fun _ _ _ => rfl

theorem status_fresh (h : p.Fresh) : Status [] p := by
  intro id
  refine iff_of_false (by simp [heard]) ?_
  rintro ⟨r, hr, -⟩
  rw [h.clientsById, Finmap.lookup_empty] at hr
  cases hr

theorem getStatus_isSome (s : UdcServerImpl) (id : UdcEndPointId) :
    (udcGetStatus s id).isSome = true ↔
      ∃ r, s.clientsById.lookup id = some r ∧ (s.heap r).isConnected = true := by
  unfold udcGetStatus UdcServerImpl.getEndPointStatus UdcServerImpl.tryGetClientById
  cases s.clientsById.lookup id with
  | none => simp
  | some r => cases hconn : (s.heap r).isConnected <;> simp [hconn]

end Status

/-! ### Main results -/

section Runs

variable {signature : UdcSignature} {buffer : MessageBuffer} {trace : List (Op × Outcome)}
  {s : UdcServerImpl}

/-- **Connection results come in the order of the connect calls, one for each at most.** -/
theorem connection_results_in_order (run : ServerRun signature buffer trace s)
    (hfew : FewIssued (notes trace)) :
    (resultIds (notes trace)).Sublist (issuedIds (notes trace)) ∧
      (issuedIds (notes trace)).Pairwise (· < ·) := by
  obtain ⟨hend, hres⟩ := run_effects
    (P := fun ns p => FewIssued ns → Endpoints ns p ∧ Results ns p)
    (fun p hp _ => ⟨endpoints_fresh hp, by
      rw [Results, hp.pendingClients]
      exact List.Sublist.refl _⟩)
    (fun ns p c p' ns' ih _ he _ hfew => by
      obtain ⟨hend, hres⟩ := ih hfew.left
      have hend' := endpoints_effect hend he hfew
      exact ⟨hend', results_effect hres hend he hend'⟩)
    run.meeting hfew
  refine ⟨(List.sublist_append_left _ _).trans (hres hfew).2, ?_⟩
  rw [hend.issued, List.pairwise_map]
  exact List.pairwise_lt_range.imp fun h => Nat.succ_lt_succ h

/-- Two attempts, the first of which is given up, so that the second expires. -/
theorem connection_results_in_order_two :
    resultIds (notes (runTrace exampleServer
        [.tryConnectIPv4 (exampleIP 2) 2 1000 0, .tryConnectIPv4 (exampleIP 3) 2 1000 0,
          .disconnect 1, .updatePendingClients 1000])) = [2] ∧
      [2].Sublist (issuedIds (notes (runTrace exampleServer
        [.tryConnectIPv4 (exampleIP 2) 2 1000 0, .tryConnectIPv4 (exampleIP 3) 2 1000 0,
          .disconnect 1, .updatePendingClients 1000]))) :=
  ⟨by decide +kernel, (connection_results_in_order
    (run_of_admissible (s := exampleServer)
      [.tryConnectIPv4 (exampleIP 2) 2 1000 0, .tryConnectIPv4 (exampleIP 3) 2 1000 0,
        .disconnect 1, .updatePendingClients 1000] (by decide +kernel)) (by decide +kernel)).1⟩

/-- **The connection events of every endpoint are well bracketed.** -/
theorem events_wellBracketed (run : ServerRun signature buffer trace s)
    (hfew : FewIssued (notes trace)) (id : UdcEndPointId) :
    WellBracketed (lifeOf id (notes trace)) :=
  (run_effects (fun _ hp => lives_fresh hp) (fun _ _ _ _ _ h hend he _ => lives_effect h hend he)
    run.meeting hfew).2.wellBracketed id

/-- **Without late answers the status of every endpoint is what its events say.** -/
theorem life_cycle_agrees
    (run : Runs.Run (StepsMeeting NoLateAnswer) (UdcServerImpl.new signature buffer) trace s)
    (hfew : FewIssued (notes trace)) (id : UdcEndPointId) :
    WellBracketed (lifeOf id (notes trace)) ∧
      ((udcGetStatus s id).isSome = true ↔ heard id (notes trace) = true) := by
  refine ⟨events_wellBracketed (run.mono fun _ _ _ h => h.steps) hfew id, ?_⟩
  have hstatus := (run_effects (fun _ hp => status_fresh hp)
    (fun _ _ _ _ _ h hend he hC => status_effect h hend he hC) run hfew).2
  rw [getStatus_isSome]
  exact (hstatus id).symm

/-- An endpoint is accepted from another address than its own, lost and disconnected. -/
def lateAnswerOps : List Op :=
  [.tryBindIPv4 true, .tryConnectIPv4 (exampleIP 2) 2 1000 0,
    .arriveIPv4 0 (.datagram ⟨exampleIP 9, 1, [1, 2, 3, 4, 1, 1, 0, 0, 0], default⟩),
    .receiveMessages 10, .updateClientConnectionStatus 5000 [1], .disconnect 1,
    .arriveIPv4 0 (.datagram ⟨exampleIP 9, 1, [1, 2, 3, 4, 3, 0, 0, 0, 0], default⟩),
    .receiveMessages 6000]

/-- A pong that comes late regains it, and the application cannot find it. -/
theorem status_after_late_answer : ∃ trace s,
    ServerRun exampleSignature exampleBuffer trace s ∧ FewIssued (notes trace) ∧
      ¬ ∀ id, WellBracketed (lifeOf id (notes trace)) ∧
        ((udcGetStatus s id).isSome = true ↔ heard id (notes trace) = true) := by
  refine ⟨_, _, run_of_admissible lateAnswerOps (by decide +kernel),
    by decide +kernel, fun h => ?_⟩
  have hheard : heard 1 (notes (runTrace exampleServer lateAnswerOps)) = true := by
    decide +kernel
  have hnone : (udcGetStatus (runState exampleServer lateAnswerOps) 1).isSome = false := by
    decide +kernel
  have hsome := (h 1).2.mpr hheard
  exact absurd (hsome.symm.trans hnone) (by decide)

/-- The same with the handshake and the pong coming from the endpoint itself, and no late one. -/
def ownAnswerOps : List Op :=
  [.tryBindIPv4 true, .tryConnectIPv4 (exampleIP 2) 2 1000 0,
    .arriveIPv4 0 (.datagram ⟨exampleIP 2, 2, [1, 2, 3, 4, 1, 1, 0, 0, 0], default⟩),
    .receiveMessages 10, .updateClientConnectionStatus 5000 [1],
    .arriveIPv4 0 (.datagram ⟨exampleIP 2, 2, [1, 2, 3, 4, 3, 0, 0, 0, 0], default⟩),
    .receiveMessages 6000]

theorem life_cycle_agrees_regained :
    (udcGetStatus (runState exampleServer ownAnswerOps) 1).isSome = true ↔
      heard 1 (notes (runTrace exampleServer ownAnswerOps)) = true :=
  (life_cycle_agrees (run_of_meeting ownAnswerOps (by decide +kernel))
    (by decide +kernel) 1).2

end Runs

end UdpConnect
