/-
What a change can do to the endpoints.

The machine has seven kinds of change and eleven kinds of message, but an endpoint is
touched in few ways: it is issued, it is disconnected, its connection attempt expires
or is accepted, it is lost or regained, or something about it changes that has no part
in its life.  `Effect` lists these with everything that is known when they happen, and
`change_effect` says there are no others.  Whatever is proved of all runs is proved by
going through this list.
-/
import UdpConnect.Proofs.Simulation

namespace UdpConnect

open AlternatingBit

/-- What does not change about a client from one event to the next. -/
structure SameEndpoint (c c' : UdcClient) : Prop where
  id : c'.id = c.id
  outgoingAddress : c'.outgoingAddress = c.outgoingAddress

/-- Messages that reach a client by the address they come from. -/
def Message.answers : Message → Option Nat
  | .pong timeStamp => some timeStamp
  | .reliableHandshake _ timeStamp => some timeStamp
  | _ => none

/-- The ways in which a change touches the endpoints, and what it shows. -/
inductive Protocol.Effect (p : Protocol) : Change → Protocol → List Note → Prop
  | issue {address : UdcAddressMux} {timeout : Nat} {time : Milliseconds} (c : UdcClient)
      (hid : c.id = u32 (p.idCounter + 1)) (haddress : c.outgoingAddress = address)
      (hconn : c.isConnected = false) :
      Effect p (.connect address timeout time)
        { p with
          idCounter := u32 (p.idCounter + 1)
          heap := Function.update p.heap p.nextRef c
          nextRef := p.nextRef + 1
          pendingClients := p.pendingClients ++ [p.nextRef] }
        [.issued (u32 (p.idCounter + 1))]
  | disconnect (endPointId : UdcEndPointId) :
      Effect p (.disconnect endPointId) (p.disconnect endPointId) [.disconnected endPointId]
  | expire {time : Milliseconds} {r : ClientRef} {rest : List ClientRef}
      (hpending : p.pendingClients = r :: rest) :
      Effect p (.poll time) { p with pendingClients := rest }
        [.event .connectionTimeout (p.heap r).id]
  | accept {address : UdcAddressMux} {time : Milliseconds} {r : ClientRef}
      {rest : List ClientRef} (c : UdcClient) (hpending : p.pendingClients = r :: rest)
      (hsame : SameEndpoint (p.heap r) c) (hconn : c.isConnected = true)
      (hfree : address ∉ p.clientsByAddress) :
      Effect p (.handle address time (.connectionHandshake (p.heap r).id))
        { p.setClient r c with
          clientsById := p.clientsById.insert (p.heap r).id r
          clientsByAddress := p.clientsByAddress.insert address r
          pendingClients := rest }
        [.event .connectionSuccess (p.heap r).id]
  | lose {endPointId : UdcEndPointId} {time : Milliseconds} {r : ClientRef} (c : UdcClient)
      (hlookup : p.clientsById.lookup endPointId = some r) (hsame : SameEndpoint (p.heap r) c)
      (hwas : (p.heap r).isConnected = true) (hconn : c.isConnected = false) :
      Effect p (.tick endPointId time) (p.setClient r c) [.event .connectionLost (p.heap r).id]
  | regain {address : UdcAddressMux} {time : Milliseconds} {m : Message} {timeStamp : Nat}
      {r : ClientRef} (c : UdcClient) (hm : m.answers = some timeStamp)
      (htime : (timeStamp : Milliseconds) ≤ time)
      (hlookup : p.clientsByAddress.lookup address = some r) (hsame : SameEndpoint (p.heap r) c)
      (hwas : (p.heap r).isConnected = false) (hconn : c.isConnected = true) :
      Effect p (.handle address time m) (p.setClient r c)
        [.event .connectionRegained (p.heap r).id]
  | update {change : Change} {r : ClientRef} (c : UdcClient) (hsame : SameEndpoint (p.heap r) c)
      (hconn : c.isConnected = (p.heap r).isConnected) : Effect p change (p.setClient r c) []
  | other {change : Change} (states : UdcAddressMap Int) :
      Effect p change { p with reliableStates := states } []

section Clients

variable (c : UdcClient) (time : Milliseconds)

theorem sendReliable_same : SameEndpoint c (c.sendReliable time).1 ∧
    (c.sendReliable time).1.isConnected = c.isConnected := by
  unfold UdcClient.sendReliable
  cases c.reliableMessages with
  | nil => exact ⟨⟨rfl, rfl⟩, rfl⟩
  | cons msg rest =>
      by_cases hreset : c.reliableState = -1
      · simp only [if_pos hreset]
        exact ⟨⟨rfl, rfl⟩, trivial⟩
      · by_cases hneeds : c.needsReliableReset time
        · simp only [if_neg hreset, if_pos hneeds]
          exact ⟨⟨rfl, rfl⟩, rfl⟩
        · simp only [if_neg hreset, if_neg hneeds, UdcClient.setSendReliable]
          split <;> exact ⟨⟨rfl, rfl⟩, rfl⟩

theorem acceptHandshake_same (state : Int) : SameEndpoint c (c.acceptHandshake state) ∧
    (c.acceptHandshake state).isConnected = c.isConnected := by
  unfold UdcClient.acceptHandshake
  by_cases hstate : state = c.reliableState
  · simp only [if_pos hstate]
    split <;> exact ⟨⟨rfl, rfl⟩, rfl⟩
  · simp only [if_neg hstate]
    exact ⟨⟨rfl, rfl⟩, trivial⟩

theorem receivePong_same (t t' : Milliseconds) : SameEndpoint c (c.receivePong t t').1 ∧
    (c.receivePong t t').1.isConnected = true ∧ (c.receivePong t t').2 = !c.isConnected := by
  unfold UdcClient.receivePong
  cases hconn : c.isConnected
  · simp only [Bool.not_false, if_true]
    exact ⟨⟨rfl, rfl⟩, trivial, trivial⟩
  · simp only [Bool.not_true, Bool.false_eq_true, if_false]
    exact ⟨⟨rfl, rfl⟩, trivial, trivial⟩

theorem receiveConnectionHandshake_same : SameEndpoint c (c.receiveConnectionHandshake time) ∧
    (c.receiveConnectionHandshake time).isConnected = true := by
  unfold UdcClient.receiveConnectionHandshake
  cases hconn : c.isConnected
  · simp only [Bool.not_false, if_true]
    exact ⟨⟨rfl, rfl⟩, trivial⟩
  · simp only [hconn, Bool.not_true, Bool.false_eq_true, if_false]
    exact ⟨⟨rfl, rfl⟩, trivial⟩

end Clients

section Changes

variable {p : Protocol} {time : Milliseconds}

theorem effect_idle (c : Change) : p.Effect c p [] := .other p.reliableStates

theorem head_pending {r : ClientRef} (h : p.pendingClients.head? = some r) :
    p.pendingClients = r :: p.pendingClients.tail :=
  (List.head?_eq_some_iff.mp h).elim fun rest hrest => by rw [hrest]; rfl

theorem connect_effect (address : UdcAddressMux) (timeout : Nat) :
    p.Effect (.connect address timeout time) (p.connect address timeout time).state
      ((p.connect address timeout time).report.bind Report.note).toList := by
  unfold Protocol.connect
  by_cases hzero : timeout = 0
  · rw [if_pos hzero]
    exact effect_idle _
  · rw [if_neg hzero]
    exact .issue _ rfl rfl rfl

theorem say_effect (endPointId : UdcEndPointId) (data : List UInt8) :
    p.Effect (.say endPointId data) (p.say endPointId data).state
      ((p.say endPointId data).report.bind Report.note).toList := by
  unfold Protocol.say
  cases p.clientsById.lookup endPointId with
  | none => exact effect_idle _
  | some r =>
      by_cases hconn : (p.heap r).isConnected
      · simp only [if_pos hconn]
        exact effect_idle _
      · simp only [if_neg hconn]
        exact effect_idle _

theorem push_effect (endPointId : UdcEndPointId) (data : List UInt8) :
    p.Effect (.push endPointId data) (p.push endPointId data) [] := by
  unfold Protocol.push
  cases p.clientsById.lookup endPointId with
  | none => exact effect_idle _
  | some r => exact .update _ ⟨rfl, rfl⟩ rfl

theorem poll_effect : p.Effect (.poll time) (p.poll time).state
    ((p.poll time).report.bind Report.note).toList := by
  unfold Protocol.poll
  cases hhead : p.pendingClients.head? with
  | none => exact effect_idle _
  | some r =>
      by_cases htimeout : (p.heap r).needsConnectionTimeoutEvent time
      · simp only [if_pos htimeout]
        exact .expire (head_pending hhead)
      · by_cases hattempt : (p.heap r).needsConnectionAttempt time
        · simp only [if_neg htimeout, if_pos hattempt]
          exact .update _ ⟨rfl, rfl⟩ rfl
        · simp only [if_neg htimeout, if_neg hattempt]
          exact effect_idle _

theorem tick_effect (endPointId : UdcEndPointId) :
    p.Effect (.tick endPointId time) (p.tick endPointId time).state
      ((p.tick endPointId time).report.bind Report.note).toList := by
  unfold Protocol.tick
  cases hlookup : p.clientsById.lookup endPointId with
  | none => exact effect_idle _
  | some r =>
      obtain ⟨hsame, hconn⟩ := sendReliable_same (p.heap r) time
      simp only [Protocol.tickClient]
      by_cases hlost : ((p.heap r).sendReliable time).1.needsConnectionLostEvent time
      · simp only [if_pos hlost]
        have hwas : ((p.heap r).sendReliable time).1.isConnected = true :=
          (Bool.and_eq_true _ _ ▸ hlost).1
        show p.Effect _ _ [.event .connectionLost ((p.heap r).sendReliable time).1.id]
        rw [hsame.id]
        exact .lose _ hlookup ⟨hsame.id, hsame.outgoingAddress⟩ (hconn ▸ hwas) rfl
      · simp only [if_neg hlost]
        exact .update _ hsame hconn

theorem answer_effect (address : UdcAddressMux) {m : Message} {timeStamp : Nat}
    (hm : m.answers = some timeStamp) {change : UdcClient → UdcClient}
    (hchange : ∀ c, SameEndpoint c (change c) ∧ (change c).isConnected = c.isConnected) :
    p.Effect (.handle address time m) (p.answer address time timeStamp change).state
      ((p.answer address time timeStamp change).report.bind Report.note).toList := by
  unfold Protocol.answer
  cases hlookup : p.clientsByAddress.lookup address with
  | none => exact effect_idle _
  | some r =>
      by_cases htime : time < timeStamp
      · simp only [if_pos htime]
        exact effect_idle _
      · simp only [if_neg htime]
        obtain ⟨hsame, hconn⟩ := hchange (p.heap r)
        obtain ⟨hsame', hup, hregained⟩ :=
          receivePong_same (change (p.heap r)) (timeStamp : Milliseconds) time
        have hboth : SameEndpoint (p.heap r)
            ((change (p.heap r)).receivePong timeStamp time).1 :=
          ⟨hsame'.id.trans hsame.id, hsame'.outgoingAddress.trans hsame.outgoingAddress⟩
        rw [hregained, hconn, hboth.id]
        cases hwas : (p.heap r).isConnected
        · exact .regain _ hm (not_lt.mp htime) hlookup hboth hwas hup
        · exact .update _ hboth (hup.trans hwas.symm)

theorem handshake_effect (address : UdcAddressMux) (endPointId : UdcEndPointId) :
    p.Effect (.handle address time (.connectionHandshake endPointId))
      (p.handshake address time endPointId).state
      ((p.handshake address time endPointId).report.bind Report.note).toList := by
  unfold Protocol.handshake
  cases hhead : p.pendingClients.head? with
  | none => exact effect_idle _
  | some r =>
      by_cases hid : (p.heap r).id ≠ endPointId
      · simp only [if_pos hid]
        exact effect_idle _
      · by_cases hmem : address ∈ p.clientsByAddress
        · simp only [if_neg hid, if_pos hmem]
          exact effect_idle _
        · simp only [if_neg hid, if_neg hmem]
          obtain rfl := not_not.mp hid
          obtain ⟨hsame, hconn⟩ := receiveConnectionHandshake_same (p.heap r) time
          exact .accept _ (head_pending hhead) hsame hconn hmem

theorem reliable_effect (address : UdcAddressMux) (kind : Kind) (timeStamp : Nat)
    (data : List UInt8) (c : Change) :
    p.Effect c (p.reliable address kind timeStamp data).state
      ((p.reliable address kind timeStamp data).report.bind Report.note).toList := by
  cases kind with
  | reset => exact .other _
  | bit b =>
      simp only [Protocol.reliable]
      split <;> exact .other _

theorem heap_disconnect (p : Protocol) (id : UdcEndPointId) : (p.disconnect id).heap = p.heap := by
  unfold Protocol.disconnect
  cases p.clientsById.lookup id <;> rfl

theorem nextRef_disconnect (p : Protocol) (id : UdcEndPointId) :
    (p.disconnect id).nextRef = p.nextRef := by
  unfold Protocol.disconnect
  cases p.clientsById.lookup id <;> rfl

theorem pending_disconnect (p : Protocol) (id : UdcEndPointId) :
    (p.disconnect id).pendingClients.Sublist p.pendingClients := by
  unfold Protocol.disconnect
  cases p.clientsById.lookup id with
  | some r => exact List.Sublist.refl _
  | none => exact List.filter_sublist

/-- **A change has one of the effects listed.** -/
theorem change_effect (c : Change) : p.Effect c (p.change c).state
    (c.note.toList ++ ((p.change c).report.bind Report.note).toList) := by
  cases c with
  | connect address timeout time => exact connect_effect address timeout
  | disconnect endPointId => exact .disconnect endPointId
  | push endPointId data => exact push_effect endPointId data
  | say endPointId data => exact say_effect endPointId data
  | poll time => exact poll_effect
  | tick endPointId time => exact tick_effect endPointId
  | handle address time m =>
      cases m with
      | connectionRequest endPointId => exact effect_idle _
      | connectionHandshake endPointId => exact handshake_effect address endPointId
      | ping timeStamp => exact effect_idle _
      | pong timeStamp => exact answer_effect address rfl fun c => ⟨⟨rfl, rfl⟩, rfl⟩
      | unreliable data => exact effect_idle _
      | reliable kind timeStamp data => exact reliable_effect address kind timeStamp data _
      | reliableHandshake kind timeStamp =>
          exact answer_effect address rfl fun c => acceptHandshake_same c (stateOf kind)

end Changes

/-! ### The reliable queues -/

section Queues

variable {c : UdcClient} {time : Milliseconds} {F : List UInt8 → Prop} {p : Protocol}

@[simp] theorem queue_sendReliable :
    (c.sendReliable time).1.reliableMessages = c.reliableMessages := by
  unfold UdcClient.sendReliable
  cases hqueue : c.reliableMessages with
  | nil => exact hqueue
  | cons msg rest =>
      by_cases hreset : c.reliableState = -1
      · simp only [if_pos hreset]
        exact hqueue
      · by_cases hneeds : c.needsReliableReset time
        · simp only [if_neg hreset, if_pos hneeds]
          exact hqueue
        · simp only [if_neg hreset, if_neg hneeds, UdcClient.setSendReliable]
          split <;> exact hqueue

theorem queue_acceptHandshake (state : Int) :
    (c.acceptHandshake state).reliableMessages <:+ c.reliableMessages := by
  unfold UdcClient.acceptHandshake
  by_cases hstate : state = c.reliableState
  · simp only [if_pos hstate]
    split
    · exact List.tail_suffix _
    · exact List.suffix_refl _
  · simp only [if_neg hstate]
    exact List.suffix_refl _

@[simp] theorem queue_receivePong (t t' : Milliseconds) :
    (c.receivePong t t').1.reliableMessages = c.reliableMessages := by
  unfold UdcClient.receivePong
  cases c.isConnected <;> rfl

@[simp] theorem queue_receiveConnectionHandshake :
    (c.receiveConnectionHandshake time).reliableMessages = c.reliableMessages := by
  unfold UdcClient.receiveConnectionHandshake
  cases c.isConnected <;> rfl

/-- Every message in a queue has the property. -/
def Queued (F : List UInt8 → Prop) (p : Protocol) : Prop :=
  ∀ r, ∀ msg ∈ (p.heap r).reliableMessages, F msg

theorem Queued.setClient (h : Queued F p) {r : ClientRef} {c : UdcClient}
    (hc : ∀ msg ∈ c.reliableMessages, F msg) : Queued F (p.setClient r c) := by
  intro r' msg hmsg
  by_cases heq : r' = r
  · rw [heq, Protocol.heap_setClient_self] at hmsg
    exact hc msg hmsg
  · rw [Protocol.heap_setClient_of_ne _ heq] at hmsg
    exact h r' msg hmsg

theorem queued_answer (h : Queued F p) (address : UdcAddressMux) (timeStamp : Nat)
    {change : UdcClient → UdcClient}
    (hchange : ∀ c, (change c).reliableMessages <:+ c.reliableMessages) :
    Queued F (p.answer address time timeStamp change).state := by
  unfold Protocol.answer
  cases p.clientsByAddress.lookup address with
  | none => exact h
  | some r =>
      simp only
      split
      · exact h
      · refine h.setClient fun msg hmsg => ?_
        rw [queue_receivePong] at hmsg
        exact h r msg ((hchange _).subset hmsg)

/-- Only a push puts something into a queue. -/
theorem queued_change (h : Queued F p) (c : Change)
    (hpush : ∀ endPointId data, c = .push endPointId data → F data) :
    Queued F (p.change c).state := by
  cases c with
  | connect address timeout time =>
      show Queued F (p.connect address timeout time).state
      unfold Protocol.connect
      split
      · exact h
      · refine h.setClient (r := p.nextRef) fun msg hmsg => ?_
        simp [UdcClient.new, UdcClient.startConnecting] at hmsg
  | disconnect endPointId =>
      show Queued F (p.disconnect endPointId)
      unfold Protocol.disconnect
      cases p.clientsById.lookup endPointId <;> exact h
  | push endPointId data =>
      show Queued F (p.push endPointId data)
      unfold Protocol.push
      cases p.clientsById.lookup endPointId with
      | none => exact h
      | some r =>
          refine h.setClient fun msg hmsg => ?_
          rcases List.mem_append.mp hmsg with hmsg | hmsg
          · exact h r msg hmsg
          · rw [List.mem_singleton.mp hmsg]
            exact hpush endPointId data rfl
  | say endPointId data =>
      show Queued F (p.say endPointId data).state
      unfold Protocol.say
      cases p.clientsById.lookup endPointId with
      | none => exact h
      | some r => simp only; split <;> exact h
  | poll time =>
      show Queued F (p.poll time).state
      unfold Protocol.poll
      cases p.pendingClients.head? with
      | none => exact h
      | some r =>
          simp only
          split
          · exact h
          · split
            · exact h.setClient (h r)
            · exact h
  | tick endPointId time =>
      show Queued F (p.tick endPointId time).state
      unfold Protocol.tick
      cases p.clientsById.lookup endPointId with
      | none => exact h
      | some r =>
          have hr : ∀ msg ∈ ((p.heap r).sendReliable time).1.reliableMessages, F msg := by
            rw [queue_sendReliable]
            exact h r
          simp only [Protocol.tickClient]
          split
          · exact h.setClient hr
          · exact h.setClient hr
  | handle address time m =>
      cases m with
      | connectionRequest endPointId => exact h
      | connectionHandshake endPointId =>
          show Queued F (p.handshake address time endPointId).state
          unfold Protocol.handshake
          cases p.pendingClients.head? with
          | none => exact h
          | some r =>
              simp only
              split
              · exact h
              · split
                · exact h
                · refine h.setClient (r := r) fun msg hmsg => ?_
                  rw [queue_receiveConnectionHandshake] at hmsg
                  exact h r msg hmsg
      | ping timeStamp => exact h
      | pong timeStamp => exact queued_answer h address timeStamp fun _ => List.suffix_refl _
      | unreliable data => exact h
      | reliable kind timeStamp data =>
          cases kind with
          | reset => exact h
          | bit b => exact h
      | reliableHandshake kind timeStamp =>
          exact queued_answer h address timeStamp fun _ => queue_acceptHandshake _

theorem say_sends {endPointId : UdcEndPointId} {data : List UInt8} {x : UdcAddressMux × Message}
    (hx : x ∈ (p.say endPointId data).sends) : x.2 = .unreliable data ∧
      ∃ r, p.clientsById.lookup endPointId = some r ∧ (p.heap r).isConnected = true := by
  unfold Protocol.say at hx
  cases hlookup : p.clientsById.lookup endPointId with
  | none =>
      rw [hlookup] at hx
      cases hx
  | some r =>
      rw [hlookup] at hx
      by_cases hconn : (p.heap r).isConnected
      · simp only [if_pos hconn] at hx
        rw [List.mem_singleton.mp hx]
        exact ⟨rfl, r, rfl, hconn⟩
      · simp only [if_neg hconn] at hx
        cases hx

theorem poll_sends {x : UdcAddressMux × Message} (hx : x ∈ (p.poll time).sends) :
    ∃ endPointId, x.2 = .connectionRequest endPointId := by
  unfold Protocol.poll at hx
  cases hhead : p.pendingClients.head? with
  | none =>
      rw [hhead] at hx
      cases hx
  | some r =>
      rw [hhead] at hx
      by_cases htimeout : (p.heap r).needsConnectionTimeoutEvent time
      · simp only [if_pos htimeout] at hx
        cases hx
      · by_cases hattempt : (p.heap r).needsConnectionAttempt time
        · simp only [if_neg htimeout, if_pos hattempt] at hx
          exact ⟨_, by rw [List.mem_singleton.mp hx]⟩
        · simp only [if_neg htimeout, if_neg hattempt] at hx
          cases hx

/-- What a client sends in its turn: a ping, and a reset or the message in front. -/
theorem tick_sends {endPointId : UdcEndPointId} {x : UdcAddressMux × Message}
    (hx : x ∈ (p.tick endPointId time).sends) :
    ∃ r, p.clientsById.lookup endPointId = some r ∧ x.1 = (p.heap r).outgoingAddress ∧
      (x.2 = .ping (u32 time) ∨ x.2 ∈ ((p.heap r).sendReliable time).2) := by
  unfold Protocol.tick at hx
  cases hlookup : p.clientsById.lookup endPointId with
  | none =>
      rw [hlookup] at hx
      simp [Protocol.idle] at hx
  | some r =>
      rw [hlookup] at hx
      have hsends : (p.tickClient r time).sends
          = (((p.heap r).sendReliable time).2 ++
              ((p.heap r).sendReliable time).1.sendPing time).map
            fun m => ((p.heap r).outgoingAddress, m) := by
        simp only [Protocol.tickClient, sendReliable_outgoingAddress]
        split <;> rfl
      rw [hsends] at hx
      obtain ⟨m, hm, rfl⟩ := List.mem_map.mp hx
      refine ⟨r, rfl, rfl, ?_⟩
      rcases List.mem_append.mp hm with hm | hm
      · exact Or.inr hm
      · left
        unfold UdcClient.sendPing at hm
        split at hm
        · exact List.mem_singleton.mp hm
        · cases hm

theorem mem_sendReliable {m : Message} (hm : m ∈ (c.sendReliable time).2) :
    (c.reliableState = -1 ∧ m = .reliable .reset (u32 time) []) ∨
      (c.reliableState ≠ -1 ∧ ∃ msg, c.reliableMessages.head? = some msg ∧
        m = .reliable (.bit (c.reliableState ≠ 0)) (u32 time) msg) := by
  unfold UdcClient.sendReliable at hm
  cases hqueue : c.reliableMessages with
  | nil =>
      rw [hqueue] at hm
      cases hm
  | cons msg rest =>
      rw [hqueue] at hm
      by_cases hreset : c.reliableState = -1
      · simp only [if_pos hreset] at hm
        exact Or.inl ⟨hreset, List.mem_singleton.mp hm⟩
      · by_cases hneeds : c.needsReliableReset time
        · simp only [if_neg hreset, if_pos hneeds] at hm
          cases hm
        · simp only [if_neg hreset, if_neg hneeds] at hm
          exact Or.inr ⟨hreset, msg, rfl, List.mem_singleton.mp hm⟩

end Queues

end UdpConnect
