/-
One client object, from change to change.

Once a client exists, few things happen to it: a message is pushed, a connection request
is sent for it, it has its turn in a tick, or a datagram refreshes it.  `ClientStep`
lists these with everything that is known when they happen, and `client_step` says there
are no others.  What the constructor sets (`Settings`) is never changed.
-/
import UdpConnect.Lib.Past
import UdpConnect.Proofs.Endpoints
import UdpConnect.Proofs.Stages

namespace UdpConnect

open AlternatingBit

/-! ### What never changes -/

/-- What the constructor and `startConnecting` give a client. -/
structure Settings where
  id : UdcEndPointId
  outgoingAddress : UdcAddressMux
  pingPeriod : Milliseconds
  connectionTimeoutPeriod : Milliseconds
  connectionLostPeriod : Milliseconds
  connectionAttemptPeriod : Milliseconds
  reliableTimeoutPeriod : Milliseconds
  firstConnectAttemptTime : Milliseconds

def UdcClient.settings (c : UdcClient) : Settings where
  id := c.id
  outgoingAddress := c.outgoingAddress
  pingPeriod := c.pingPeriod
  connectionTimeoutPeriod := c.connectionTimeoutPeriod
  connectionLostPeriod := c.connectionLostPeriod
  connectionAttemptPeriod := c.connectionAttemptPeriod
  reliableTimeoutPeriod := c.reliableTimeoutPeriod
  firstConnectAttemptTime := c.firstConnectAttemptTime

/-- The period that a connect call derives from its timeout. -/
def tenth (timeout : Nat) : Milliseconds := min 500 ((timeout : Milliseconds) / 10)

/-- The settings of the client that a connect call makes. -/
def settingsOf (endPointId : UdcEndPointId) (address : UdcAddressMux) (timeout : Nat)
    (currentTime : Milliseconds) : Settings where
  id := endPointId
  outgoingAddress := address
  pingPeriod := timeout
  connectionTimeoutPeriod := tenth timeout
  connectionLostPeriod := tenth timeout
  connectionAttemptPeriod := timeout
  reliableTimeoutPeriod := tenth timeout
  firstConnectAttemptTime := currentTime

/-- The reliable part of the client's turn in a tick, and whether it is lost then. -/
def UdcClient.turned (c : UdcClient) (time : Milliseconds) : UdcClient :=
  if (c.sendReliable time).1.needsConnectionLostEvent time then
    (c.sendReliable time).1.setConnectionLost
  else (c.sendReliable time).1

/-- The message refreshes the client: the handshake it waits for, or an answer to it. -/
def Refreshes (time : Milliseconds) (x : Handling) (r : ClientRef) : Prop :=
  match x.message with
  | .connectionHandshake endPointId =>
      x.state.pendingClients.head? = some r ∧ (x.state.heap r).id = endPointId ∧
        x.address ∉ x.state.clientsByAddress
  | .pong timeStamp | .reliableHandshake _ timeStamp =>
      x.state.clientsByAddress.lookup x.address = some r ∧ (timeStamp : Milliseconds) ≤ time
  | _ => False

instance (time : Milliseconds) (x : Handling) (r : ClientRef) :
    Decidable (Refreshes time x r) := by
  obtain ⟨state, address, m⟩ := x
  induction m using Message.casesOn <;> unfold Refreshes <;> infer_instance

/-- What a change makes of a client that exists. -/
inductive Protocol.ClientStep (p : Protocol) (r : ClientRef) : Change → UdcClient → Prop
  | same {c : Change} : ClientStep p r c (p.heap r)
  | push {endPointId : UdcEndPointId} {data : List UInt8} :
      ClientStep p r (.push endPointId data) ((p.heap r).pushReliable data)
  | retry {time : Milliseconds} (hfront : p.pendingClients.head? = some r)
      (hearly : (p.heap r).needsConnectionTimeoutEvent time = false)
      (hdue : (p.heap r).needsConnectionAttempt time = true) :
      ClientStep p r (.poll time) ((p.heap r).retryConnecting time)
  | turn {endPointId : UdcEndPointId} {time : Milliseconds}
      (hlookup : p.clientsById.lookup endPointId = some r) :
      ClientStep p r (.tick endPointId time) ((p.heap r).turned time)
  | handshake {address : UdcAddressMux} {time : Milliseconds} {endPointId : UdcEndPointId}
      (h : Refreshes time ⟨p, address, .connectionHandshake endPointId⟩ r) :
      ClientStep p r (.handle address time (.connectionHandshake endPointId))
        ((p.heap r).receiveConnectionHandshake time)
  | pong {address : UdcAddressMux} {time : Milliseconds} {timeStamp : Nat}
      (h : Refreshes time ⟨p, address, .pong timeStamp⟩ r) :
      ClientStep p r (.handle address time (.pong timeStamp))
        ((p.heap r).receivePong timeStamp time).1
  | reliableHandshake {address : UdcAddressMux} {time : Milliseconds} {kind : Kind}
      {timeStamp : Nat} (h : Refreshes time ⟨p, address, .reliableHandshake kind timeStamp⟩ r) :
      ClientStep p r (.handle address time (.reliableHandshake kind timeStamp))
        (((p.heap r).acceptHandshake (stateOf kind)).receivePong timeStamp time).1

section Steps

variable {p : Protocol} {r : ClientRef} {c : Change} {time : Milliseconds}

theorem heap_setClient (p : Protocol) (r r' : ClientRef) (c : UdcClient) :
    (p.setClient r c).heap r' = if r' = r then c else p.heap r' := by
  by_cases h : r' = r
  · rw [if_pos h, h, Protocol.heap_setClient_self]
  · rw [if_neg h, Protocol.heap_setClient_of_ne _ h]

/-- A change that sets one client is a step for every client if it is one for that client. -/
theorem clientStep_setClient {r' : ClientRef} {c' : UdcClient}
    (h : r = r' → p.ClientStep r c c') : p.ClientStep r c ((p.setClient r' c').heap r) := by
  rw [heap_setClient]
  by_cases heq : r = r'
  · rw [if_pos heq]
    exact h heq
  · rw [if_neg heq]
    exact .same

theorem tickClient_state (p : Protocol) (r : ClientRef) (time : Milliseconds) :
    (p.tickClient r time).state = p.setClient r ((p.heap r).turned time) := by
  simp only [Protocol.tickClient, UdcClient.turned]
  split <;> rfl

/-- The same of an answer, which changes the client under its address if it is not from later. -/
theorem clientStep_answer {address : UdcAddressMux} {timeStamp : Nat}
    {change : UdcClient → UdcClient}
    (h : p.clientsByAddress.lookup address = some r → (timeStamp : Milliseconds) ≤ time →
      p.ClientStep r c ((change (p.heap r)).receivePong timeStamp time).1) :
    p.ClientStep r c ((p.answer address time timeStamp change).state.heap r) := by
  unfold Protocol.answer
  cases hlookup : p.clientsByAddress.lookup address with
  | none => exact .same
  | some r' =>
      simp only
      split
      · exact .same
      · rename_i htime
        apply clientStep_setClient
        rintro rfl
        exact h hlookup (not_lt.mp htime)

/-- The same of a handshake, which connects the client in front. -/
theorem clientStep_handshake {address : UdcAddressMux} {endPointId : UdcEndPointId}
    (h : Refreshes time ⟨p, address, .connectionHandshake endPointId⟩ r →
      p.ClientStep r c ((p.heap r).receiveConnectionHandshake time)) :
    p.ClientStep r c ((p.handshake address time endPointId).state.heap r) := by
  unfold Protocol.handshake
  cases hfront : p.pendingClients.head? with
  | none => exact .same
  | some r' =>
      simp only
      split
      · exact .same
      · rename_i hid
        split
        · exact .same
        · rename_i hfree
          apply clientStep_setClient
          rintro rfl
          exact h ⟨hfront, not_not.mp hid, hfree⟩

/-- **What a change can make of a client.**  Only a connect call makes new ones. -/
theorem client_step (c : Change)
    (hr : (∃ address timeout time, c = .connect address timeout time) → r < p.nextRef) :
    p.ClientStep r c ((p.change c).state.heap r) := by
  cases c with
  | connect address timeout time =>
      simp only [Protocol.change, Protocol.connect]
      split
      · exact .same
      · simp only [Function.update_of_ne (Nat.ne_of_lt (hr ⟨_, _, _, rfl⟩))]
        exact .same
  | disconnect endPointId =>
      rw [show (p.change (.disconnect endPointId)).state = p.disconnect endPointId from rfl,
        heap_disconnect]
      exact .same
  | push endPointId data =>
      simp only [Protocol.change, Protocol.push]
      cases p.clientsById.lookup endPointId with
      | none => exact .same
      | some r' =>
          apply clientStep_setClient
          rintro rfl
          exact .push
  | say endPointId data =>
      simp only [Protocol.change, Protocol.say]
      cases p.clientsById.lookup endPointId with
      | none => exact .same
      | some r' =>
          simp only
          split <;> exact .same
  | poll time =>
      simp only [Protocol.change, Protocol.poll]
      cases hfront : p.pendingClients.head? with
      | none => exact .same
      | some r' =>
          simp only
          split
          · exact .same
          · rename_i hearly
            split
            · rename_i hdue
              apply clientStep_setClient
              rintro rfl
              exact .retry hfront (Bool.eq_false_iff.mpr hearly) hdue
            · exact .same
  | tick endPointId time =>
      simp only [Protocol.change, Protocol.tick]
      cases hlookup : p.clientsById.lookup endPointId with
      | none => exact .same
      | some r' =>
          simp only [tickClient_state]
          apply clientStep_setClient
          rintro rfl
          exact .turn hlookup
  | handle address time m =>
      cases m with
      | connectionRequest endPointId => exact .same
      | connectionHandshake endPointId => exact clientStep_handshake .handshake
      | ping timeStamp => exact .same
      | pong timeStamp => exact clientStep_answer fun hlookup htime => .pong ⟨hlookup, htime⟩
      | unreliable data => exact .same
      | reliable kind timeStamp data => cases kind <;> exact .same
      | reliableHandshake kind timeStamp =>
          exact clientStep_answer fun hlookup htime => .reliableHandshake ⟨hlookup, htime⟩

/-! ### What the steps keep -/

theorem sendReliable_only (c : UdcClient) (time : Milliseconds) : ∃ state sent,
    (c.sendReliable time).1 = { c with reliableState := state, reliableSentTime := sent } := by
  unfold UdcClient.sendReliable
  split
  · exact ⟨_, _, rfl⟩
  · split
    · exact ⟨_, _, rfl⟩
    · split
      · exact ⟨_, _, rfl⟩
      · unfold UdcClient.setSendReliable
        split <;> exact ⟨_, _, rfl⟩

/-- A turn leaves everything but the connection and the reliable message in flight. -/
theorem turned_only (c : UdcClient) (time : Milliseconds) : ∃ state sent connected,
    c.turned time = { c with
      reliableState := state
      reliableSentTime := sent
      isConnected := connected } := by
  obtain ⟨state, sent, h⟩ := sendReliable_only c time
  unfold UdcClient.turned
  rw [h]
  split <;> exact ⟨_, _, _, rfl⟩

theorem acceptHandshake_only (c : UdcClient) (state : Int) : ∃ state' sent queue,
    c.acceptHandshake state = { c with
      reliableState := state'
      reliableSentTime := sent
      reliableMessages := queue } := by
  unfold UdcClient.acceptHandshake
  split
  · simp only
    split <;> exact ⟨_, _, _, rfl⟩
  · exact ⟨_, _, _, rfl⟩

theorem settings_sendReliable (c : UdcClient) (time : Milliseconds) :
    (c.sendReliable time).1.settings = c.settings := by
  obtain ⟨state, sent, h⟩ := sendReliable_only c time
  rw [h]
  rfl

theorem settings_turned (c : UdcClient) (time : Milliseconds) :
    (c.turned time).settings = c.settings := by
  obtain ⟨state, sent, connected, h⟩ := turned_only c time
  rw [h]
  rfl

theorem settings_acceptHandshake (c : UdcClient) (state : Int) :
    (c.acceptHandshake state).settings = c.settings := by
  obtain ⟨state', sent, queue, h⟩ := acceptHandshake_only c state
  rw [h]
  rfl

/-- A pong leaves everything but the connection and its times. -/
theorem receivePong_eq (c : UdcClient) (t t' : Milliseconds) :
    (c.receivePong t t').1
      = { c with
          isConnected := true
          ping := t' - t
          pingLastSetTime := t'
          lastReceivedTime := t' } := by
  obtain ⟨id, state, messages, connected, rest⟩ := c
  cases connected <;> rfl

theorem receiveConnectionHandshake_eq (c : UdcClient) (time : Milliseconds) :
    c.receiveConnectionHandshake time
      = { c with isConnected := true, lastReceivedTime := time } := by
  obtain ⟨id, state, messages, connected, rest⟩ := c
  cases connected <;> rfl

theorem Protocol.ClientStep.settings {c' : UdcClient} (h : p.ClientStep r c c') :
    c'.settings = (p.heap r).settings := by
  cases h with
  | same => rfl
  | push => rfl
  | retry hfront hearly hdue => rfl
  | turn hlookup => exact settings_turned _ _
  | handshake h =>
      rw [receiveConnectionHandshake_eq]
      rfl
  | pong h =>
      rw [receivePong_eq]
      rfl
  | reliableHandshake h =>
      rw [receivePong_eq]
      exact settings_acceptHandshake _ _

/-- The client has not been refreshed and had no turn; its queue may have grown. -/
structure Rests (c c' : UdcClient) : Prop where
  settings : c'.settings = c.settings
  isConnected : c'.isConnected = c.isConnected
  pingLastSetTime : c'.pingLastSetTime = c.pingLastSetTime
  lastReceivedTime : c'.lastReceivedTime = c.lastReceivedTime
  reliableState : c'.reliableState = c.reliableState
  reliableSentTime : c'.reliableSentTime = c.reliableSentTime
  reliableMessages : c.reliableMessages <+: c'.reliableMessages

theorem Rests.refl (c : UdcClient) : Rests c c :=
  ⟨rfl, rfl, rfl, rfl, rfl, rfl, List.prefix_refl _⟩

theorem Rests.trans {c c' c'' : UdcClient} (h : Rests c c') (h' : Rests c' c'') : Rests c c'' where
  settings := h'.settings.trans h.settings
  isConnected := h'.isConnected.trans h.isConnected
  pingLastSetTime := h'.pingLastSetTime.trans h.pingLastSetTime
  lastReceivedTime := h'.lastReceivedTime.trans h.lastReceivedTime
  reliableState := h'.reliableState.trans h.reliableState
  reliableSentTime := h'.reliableSentTime.trans h.reliableSentTime
  reliableMessages := h.reliableMessages.trans h'.reliableMessages

theorem Protocol.ClientStep.rests {c' : UdcClient} (h : p.ClientStep r c c')
    (hturn : ∀ id time, c = .tick id time → p.clientsById.lookup id ≠ some r)
    (hquiet : ∀ address time m, c = .handle address time m →
      ¬ Refreshes time ⟨p, address, m⟩ r) : Rests (p.heap r) c' := by
  cases h with
  | same => exact .refl _
  | push => exact ⟨rfl, rfl, rfl, rfl, rfl, rfl, List.prefix_append _ _⟩
  | retry hfront hearly hdue => exact ⟨rfl, rfl, rfl, rfl, rfl, rfl, List.prefix_refl _⟩
  | turn hlookup => exact absurd hlookup (hturn _ _ rfl)
  | handshake h => exact absurd h (hquiet _ _ _ rfl)
  | pong h => exact absurd h (hquiet _ _ _ rfl)
  | reliableHandshake h => exact absurd h (hquiet _ _ _ rfl)

/-- A refresh sets the time of the last reception, and leaves the client connected. -/
theorem refreshed {address : UdcAddressMux} {m : Message}
    (h : Refreshes time ⟨p, address, m⟩ r) :
    ((p.handle address time m).state.heap r).lastReceivedTime = time ∧
      ((p.handle address time m).state.heap r).isConnected = true := by
  cases m with
  | connectionHandshake endPointId =>
      obtain ⟨hhead, hid, hfree⟩ := h
      have hhead : p.pendingClients.head? = some r := hhead
      have hid : ¬ (p.heap r).id ≠ endPointId := not_not.mpr hid
      have hfree : address ∉ p.clientsByAddress := hfree
      simp only [Protocol.handle, Protocol.handshake, hhead, if_neg hid, if_neg hfree,
        Protocol.heap_setClient_self, receiveConnectionHandshake_eq]
      trivial
  | pong timeStamp =>
      obtain ⟨hlookup, htime⟩ := h
      have hlookup : p.clientsByAddress.lookup address = some r := hlookup
      simp only [Protocol.handle, Protocol.answer, hlookup, if_neg (not_lt.mpr htime),
        Protocol.heap_setClient_self, receivePong_eq]
      trivial
  | reliableHandshake kind timeStamp =>
      obtain ⟨hlookup, htime⟩ := h
      have hlookup : p.clientsByAddress.lookup address = some r := hlookup
      simp only [Protocol.handle, Protocol.answer, hlookup, if_neg (not_lt.mpr htime),
        Protocol.heap_setClient_self, receivePong_eq]
      trivial
  | connectionRequest endPointId => exact absurd h id
  | ping timeStamp => exact absurd h id
  | unreliable data => exact absurd h id
  | reliable kind timeStamp data => exact absurd h id

theorem nextRef_change (p : Protocol) (c : Change) : p.nextRef ≤ (p.change c).state.nextRef := by
  have heffect := change_effect (p := p) c
  generalize (p.change c).state = p', c.note.toList ++ _ = ns at heffect
  cases heffect with
  | issue c hid haddress hconn => exact Nat.le_succ _
  | disconnect endPointId => exact Nat.le_of_eq (nextRef_disconnect p endPointId).symm
  | expire hpending => exact Nat.le_refl _
  | accept c hpending hsame hconn hfree => exact Nat.le_refl _
  | lose c hlookup hsame hwas hconn => exact Nat.le_refl _
  | regain c hm htime hlookup hsame hwas hconn => exact Nat.le_refl _
  | update c hsame hconn => exact Nat.le_refl _
  | other states => exact Nat.le_refl _

end Steps

/-! ### References -/

/-- References lead to clients that exist; at most one address leads to a client, and only
if it is not pending.  Unlike `Endpoints` this does not depend on how many ids were issued. -/
structure Rooted (p : Protocol) : Prop where
  pending : ∀ r ∈ p.pendingClients, r < p.nextRef
  byId : ∀ id r, p.clientsById.lookup id = some r → r < p.nextRef ∧ (p.heap r).id = id
  byAddress : ∀ a r, p.clientsByAddress.lookup a = some r → r < p.nextRef
  nodup : p.pendingClients.Nodup
  waiting : ∀ r ∈ p.pendingClients, ∀ a, p.clientsByAddress.lookup a ≠ some r
  apart : ∀ a a' r, p.clientsByAddress.lookup a = some r →
    p.clientsByAddress.lookup a' = some r → a = a'

section Rooted

variable {p p' : Protocol} {ns : List Note}

theorem rooted_fresh (h : p.Fresh) : Rooted p where
  pending r hr := by
    rw [h.pendingClients] at hr
    cases hr
  byId id r hr := by
    rw [h.clientsById] at hr
    cases hr
  byAddress a r hr := by
    rw [h.clientsByAddress] at hr
    cases hr
  nodup := by
    rw [h.pendingClients]
    exact List.nodup_nil
  waiting r hr := by
    rw [h.pendingClients] at hr
    cases hr
  apart a a' r hr := by
    rw [h.clientsByAddress] at hr
    cases hr

theorem rooted_setClient (h : Rooted p) {r : ClientRef} {c : UdcClient}
    (hid : c.id = (p.heap r).id) : Rooted (p.setClient r c) where
  pending := h.pending
  byId id r' hr' := by
    refine ⟨(h.byId id r' hr').1, ?_⟩
    rw [heap_setClient]
    split
    · rename_i heq
      rw [hid, ← heq]
      exact (h.byId id r' hr').2
    · exact (h.byId id r' hr').2
  byAddress := h.byAddress
  nodup := h.nodup
  waiting := h.waiting
  apart := h.apart

theorem rooted_issue (h : Rooted p) (c : UdcClient) (id : UdcEndPointId) :
    Rooted { p with
      idCounter := id
      heap := Function.update p.heap p.nextRef c
      nextRef := p.nextRef + 1
      pendingClients := p.pendingClients ++ [p.nextRef] } where
  pending r hr := by
    rcases List.mem_append.mp hr with hr | hr
    · exact Nat.lt_succ_of_lt (h.pending r hr)
    · rw [List.mem_singleton.mp hr]
      exact Nat.lt_succ_self _
  byId id r hr := by
    obtain ⟨hlt, hid⟩ := h.byId id r hr
    refine ⟨Nat.lt_succ_of_lt hlt, ?_⟩
    show (Function.update p.heap p.nextRef c r).id = id
    rw [Function.update_of_ne (Nat.ne_of_lt hlt)]
    exact hid
  byAddress a r hr := Nat.lt_succ_of_lt (h.byAddress a r hr)
  nodup := by
    refine List.nodup_append.mpr ⟨h.nodup, List.nodup_singleton _, ?_⟩
    intro r hr r' hr'
    rw [List.mem_singleton.mp hr']
    exact Nat.ne_of_lt (h.pending r hr)
  waiting r hr a ha := by
    rcases List.mem_append.mp hr with hr | hr
    · exact h.waiting r hr a ha
    · rw [List.mem_singleton.mp hr] at ha
      exact Nat.lt_irrefl _ (h.byAddress a _ ha)
  apart := h.apart

theorem rooted_disconnect (h : Rooted p) (endPointId : UdcEndPointId) :
    Rooted (p.disconnect endPointId) := by
  unfold Protocol.disconnect
  cases p.clientsById.lookup endPointId with
  | none =>
      refine ⟨fun r hr => h.pending r (List.mem_filter.mp hr).1, h.byId, h.byAddress,
        h.nodup.filter _, fun r hr => h.waiting r (List.mem_filter.mp hr).1, h.apart⟩
  | some r₀ =>
      refine ⟨h.pending, ?_, ?_, h.nodup, ?_, ?_⟩
      · intro id r hr
        exact h.byId id r (lookup_erase_some.mp hr).2
      · intro a r hr
        exact h.byAddress a r (lookup_erase_some.mp hr).2
      · intro r hr a ha
        exact h.waiting r hr a (lookup_erase_some.mp ha).2
      · intro a a' r ha ha'
        exact h.apart a a' r (lookup_erase_some.mp ha).2 (lookup_erase_some.mp ha').2

theorem rooted_accept (h : Rooted p) {r : ClientRef} {rest : List ClientRef} {c : UdcClient}
    {address : UdcAddressMux} (hpending : p.pendingClients = r :: rest)
    (hid : c.id = (p.heap r).id) :
    Rooted { p.setClient r c with
      clientsById := p.clientsById.insert (p.heap r).id r
      clientsByAddress := p.clientsByAddress.insert address r
      pendingClients := rest } := by
  have hmem : ∀ r' ∈ rest, r' ∈ p.pendingClients := by
    intro r' hr'
    rw [hpending]
    exact List.mem_cons_of_mem _ hr'
  have hfront : r ∈ p.pendingClients := by
    rw [hpending]
    exact List.mem_cons_self
  have hnodup : r ∉ rest ∧ rest.Nodup := by
    rw [← List.nodup_cons, ← hpending]
    exact h.nodup
  have hset := rooted_setClient h (c := c) hid
  refine ⟨fun r' hr' => h.pending r' (hmem r' hr'), ?_, ?_, hnodup.2, ?_, ?_⟩
  · intro id r' hr'
    rcases lookup_insert_some.mp hr' with ⟨rfl, rfl⟩ | ⟨-, hold⟩
    · refine ⟨h.pending _ hfront, ?_⟩
      rw [Protocol.heap_setClient_self]
      exact hid
    · exact hset.byId id r' hold
  · intro a r' hr'
    rcases lookup_insert_some.mp hr' with ⟨-, rfl⟩ | ⟨-, hold⟩
    · exact h.pending _ hfront
    · exact h.byAddress a r' hold
  · intro r' hr' a ha
    rcases lookup_insert_some.mp ha with ⟨-, rfl⟩ | ⟨-, hold⟩
    · exact hnodup.1 hr'
    · exact h.waiting r' (hmem r' hr') a hold
  · -- the client was pending, so no address led to it before
    intro a a' r' ha ha'
    rcases lookup_insert_some.mp ha with ⟨rfl, rfl⟩ | ⟨-, hold⟩
    · rcases lookup_insert_some.mp ha' with ⟨rfl, -⟩ | ⟨-, hold'⟩
      · rfl
      · exact absurd hold' (h.waiting _ hfront a')
    · rcases lookup_insert_some.mp ha' with ⟨rfl, rfl⟩ | ⟨-, hold'⟩
      · exact absurd hold (h.waiting _ hfront a)
      · exact h.apart a a' r' hold hold'

theorem rooted_effect (h : Rooted p) {c : Change} (he : p.Effect c p' ns) : Rooted p' := by
  cases he with
  | issue c hid haddress hconn => exact rooted_issue h c _
  | disconnect endPointId => exact rooted_disconnect h endPointId
  | @expire _ r rest hpending =>
      have hnodup := h.nodup
      rw [hpending, List.nodup_cons] at hnodup
      have hmem : ∀ r' ∈ rest, r' ∈ p.pendingClients := by
        intro r' hr'
        rw [hpending]
        exact List.mem_cons_of_mem _ hr'
      exact ⟨fun r' hr' => h.pending r' (hmem r' hr'), h.byId, h.byAddress, hnodup.2,
        fun r' hr' => h.waiting r' (hmem r' hr'), h.apart⟩
  | accept c hpending hsame hconn hfree => exact rooted_accept h hpending hsame.id
  | lose c hlookup hsame hwas hconn => exact rooted_setClient h hsame.id
  | regain c hm htime hlookup hsame hwas hconn => exact rooted_setClient h hsame.id
  | update c hsame hconn => exact rooted_setClient h hsame.id
  | other states => exact ⟨h.pending, h.byId, h.byAddress, h.nodup, h.waiting, h.apart⟩

theorem rooted_stage {s s' : UdcServerImpl} {op : Op} (h : Rooted s.protocol)
    (hstage : Stage op s s') : Rooted s'.protocol := by
  rcases hstage.state with hsame | ⟨c, hstate, -⟩
  · rw [hsame]
    exact h
  · rw [hstate]
    exact rooted_effect h (change_effect c)

end Rooted

end UdpConnect
