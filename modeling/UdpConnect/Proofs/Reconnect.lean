/-
A connection that follows earlier ones to the same server.

Over loss-free FIFO channels a new connection starts on an empty link (`connects_models`),
whatever the earlier ones have left in flight.  B has not forgotten them, though: its entry
for A's address is the bit the last one ended with, and A starts at bit `0`.  If the entry
is absent or `0`, everything A drops has been reported (`reconnected_popped_reported`); if
it is `1`, the first message of the new connection is acknowledged and not reported.
-/
import UdpConnect.Proofs.Delivery
import UdpConnect.Proofs.Session

namespace UdpConnect

open Memory AlternatingBit Runs

/-! ### A's receiving call -/

section Receiving

variable {w : Wiring} {s : Pair} {srv srv' : UdcServerImpl} {packet : Packet}
  {time : Milliseconds} {event : Option UdcEvent} {new : List Packet} {phase : Phase}

/-- A in the middle of a call has only lost items. -/
structure MidA (w : Wiring) (s : Pair) (srv : UdcServerImpl) (new : List Packet) : Prop where
  signature : srv.packetSignature = s.a.packetSignature
  size : srv.messageBufferSize = s.a.messageBufferSize
  sent : srv.socket.history.sent = s.a.socket.history.sent ++ new
  listens : Listens (socketFor w.addressB w.socketA) w.addressB srv.socket
  items : ((s.duringA w srv new).items w).Sublist (s.items w)

/-- The item a turn takes was in front of what is left. -/
theorem taken_items (h : MidA w s srv new) (hturn : Turn time srv packet srv' event) :
    ((itemOf Message.inward srv.packetSignature packet).toList ++
      (s.duringA w srv' (new ++ replyPackets srv.packetSignature packet.mark
        (srv.protocol.react srv.packetSignature time packet).sends)).items w).Sublist
          (s.items w) := by
  rw [← items_turnA h.listens hturn]
  exact h.items

theorem midA_turn (h : MidA w s srv new) (hturn : Turn time srv packet srv' event) :
    MidA w s srv' (new ++ replyPackets srv.packetSignature packet.mark
      (srv.protocol.react srv.packetSignature time packet).sends) where
  signature := hturn.signature.trans h.signature
  size := hturn.size.trans h.size
  sent := by
    rw [hturn.sent, h.sent, List.append_assoc]
    rfl
  listens := h.listens.shrinks hturn.drained
  items := (List.sublist_append_right _ _).trans (taken_items h hturn)

theorem midA_stop (h : MidA w s srv new) (hlast : LastTurn srv srv') : MidA w s srv' new where
  signature := hlast.signature.trans h.signature
  size := hlast.size.trans h.size
  sent := hlast.sent.trans h.sent
  listens := h.listens.shrinks hlast.drained
  items := by
    refine List.Sublist.trans ?_ h.items
    unfold Pair.items Pair.inFlightA
    simp only [Pair.duringA, hlast.signature]
    refine List.Sublist.append_right (List.Sublist.filterMap _ (List.Sublist.append_right ?_ _)) _
    rcases hlast.drained (socketFor w.addressB w.socketA) with hsame | ⟨p, hcons⟩
    · rw [hsame]
    · rw [hcons]
      exact List.sublist_cons_self p _

/-- The waiting endpoint has been connected, by the item in front of what is left. -/
structure Connects (w : Wiring) (s : Pair) (phase : Phase) (srv : UdcServerImpl)
    (new : List Packet) (endPointId : UdcEndPointId) (r : ClientRef) : Prop where
  phase : phase = .waiting endPointId r
  sender : Sender w endPointId r srv.messageBufferSize srv.protocol newLink
  behind : ∃ stamp, ((.connection endPointId, stamp) ::
    (s.duringA w srv new).items w).Sublist (s.items w)

/-- A has kept its phase, or its endpoint has been connected. -/
def Progress (w : Wiring) (s : Pair) (phase : Phase) (srv : UdcServerImpl)
    (new : List Packet) : Prop :=
  InPhase w srv.messageBufferSize srv.protocol phase ∨
    ∃ endPointId r, Connects w s phase srv new endPointId r

theorem progress_turn (h : MidA w s srv new)
    (hphase : InPhase w srv.messageBufferSize srv.protocol phase)
    (hturn : Turn time srv packet srv' event) :
    InPhase w srv'.messageBufferSize srv'.protocol phase ∨
      (event.isSome ∧ Progress w s phase srv' (new ++ replyPackets srv.packetSignature packet.mark
        (srv.protocol.react srv.packetSignature time packet).sends)) := by
  obtain ⟨-, haddress⟩ := h.listens.taken hturn.taken
  have hstate := hturn.state
  have hreport := hturn.report
  have htaken := taken_items h hturn
  have hsize := hturn.size
  unfold Protocol.react at hstate hreport
  cases hd : decode srv.packetSignature.bytes packet.bytes with
  | none =>
      rw [hd] at hstate
      left
      rw [hstate, hsize]
      exact hphase
  | some m =>
      rw [hd] at hstate hreport
      simp only [haddress] at hstate hreport
      rcases handle_phase time hphase m with hstay | ⟨endPointId, r, rfl, rfl, hsender, hsome⟩
      · left
        rw [hstate, hsize]
        exact hstay
      · right
        rw [← hreport, Option.isSome_map] at hsome
        refine ⟨hsome, Or.inr ⟨endPointId, r, rfl, ?_, packet.mark.stamp, ?_⟩⟩
        · rw [hstate, hsize]
          exact hsender
        · have hitem : itemOf Message.inward srv.packetSignature packet
              = some (.connection endPointId, packet.mark.stamp) := by
            rw [itemOf, hd]
            rfl
          rw [hitem] at htaken
          exact htaken

/-- **A call of A takes items from the front, and may connect the waiting endpoint.** -/
theorem receiveA_progress
    (hlistens : Listens (socketFor w.addressB w.socketA) w.addressB s.a.socket)
    (hphase : InPhase w s.a.messageBufferSize s.a.protocol phase) (time : Milliseconds) :
    ∃ new, MidA w s ((s.marked w).receiveMessages time).1 new ∧
      Progress w s phase ((s.marked w).receiveMessages time).1 new := by
  have hstart : MidA w s (s.marked w) [] := by
    refine ⟨rfl, rfl, (List.append_nil _).symm, ⟨hlistens.quiet, hlistens.source⟩, ?_⟩
    simp only [Pair.items, Pair.inFlightA, Pair.inFlightB, Pair.duringA, List.filter_nil,
      List.append_nil]
    exact List.Sublist.refl _
  refine receiveMessages_rule time
    (P := fun srv => ∃ new, MidA w s srv new ∧ InPhase w srv.messageBufferSize srv.protocol phase)
    (Q := fun srv _ => ∃ new, MidA w s srv new ∧ Progress w s phase srv new) (C := fun _ => True)
    ?_ ?_ ?_ (fun _ _ => trivial) ⟨[], hstart, hphase⟩
  · rintro srv srv' ⟨new, h, hphase⟩ hlast
    refine ⟨new, midA_stop h hlast, Or.inl ?_⟩
    rw [hlast.state, hlast.size]
    exact hphase
  · rintro srv packet srv' ⟨new, h, hphase⟩ hturn -
    rcases progress_turn h hphase hturn with hstay | ⟨hevent, -⟩
    · exact ⟨_, midA_turn h hturn, hstay⟩
    · cases hevent
  · rintro srv packet srv' event ⟨new, h, hphase⟩ hturn -
    rcases progress_turn h hphase hturn with hstay | ⟨-, hprogress⟩
    · exact ⟨_, midA_turn h hturn, Or.inl hstay⟩
    · exact ⟨_, midA_turn h hturn, hprogress⟩

end Receiving

/-! ### Sessions -/

/-- What is in flight while A's endpoint waits: nothing reliable that is younger than the
endpoint, and nothing of the endpoint that is older. -/
def Phase.Flushes (items : List (Item × Nat)) (clock : Nat) : Phase → Prop
  | .waiting endPointId _ => ∃ issued ≤ clock, (∀ t, (.reliable, t) ∈ items → t < issued) ∧
      ∀ t, (.connection endPointId, t) ∈ items → issued ≤ t
  | _ => True

structure Session (w : Wiring) (s : Pair) : Prop where
  listensA : Listens (socketFor w.addressB w.socketA) w.addressB s.a.socket
  listensB : Listens (socketFor w.addressA w.socketB) w.addressA s.b.socket
  sorted : (s.items w).Pairwise fun x y => x.2 ≤ y.2
  bounded : ∀ x ∈ s.items w, x.2 < s.clock
  phase : ∃ phase, InPhase w s.a.messageBufferSize s.a.protocol phase ∧
    phase.Flushes (s.items w) s.clock

section Flushing

variable {w : Wiring} {s s' : Pair} {items items' : List (Item × Nat)} {clock clock' : Nat}
  {phase : Phase}

theorem Phase.Flushes.mono (h : phase.Flushes items clock) (hsub : ∀ x ∈ items', x ∈ items)
    (hclock : clock ≤ clock') : phase.Flushes items' clock' := by
  cases phase with
  | waiting endPointId r =>
      obtain ⟨issued, hle, hold, hown⟩ := h
      exact ⟨issued, hle.trans hclock, fun t ht => hold t (hsub _ ht),
        fun t ht => hown t (hsub _ ht)⟩
  | _ => trivial

/-- Whatever only loses items keeps the session. -/
theorem Session.shrinks (h : Session w s)
    (hlistensA : Listens (socketFor w.addressB w.socketA) w.addressB s'.a.socket)
    (hlistensB : Listens (socketFor w.addressA w.socketB) w.addressA s'.b.socket)
    (hitems : (s'.items w).Sublist (s.items w)) (hclock : s.clock ≤ s'.clock)
    (hphase : ∀ phase, InPhase w s.a.messageBufferSize s.a.protocol phase →
      ∃ phase', InPhase w s'.a.messageBufferSize s'.a.protocol phase' ∧
        (phase.Flushes (s'.items w) s'.clock → phase'.Flushes (s'.items w) s'.clock)) :
    Session w s' where
  listensA := hlistensA
  listensB := hlistensB
  sorted := h.sorted.sublist hitems
  bounded x hx := (h.bounded x (hitems.subset hx)).trans_le hclock
  phase := by
    obtain ⟨phase, hin, hflushes⟩ := h.phase
    obtain ⟨phase', hin', himp⟩ := hphase phase hin
    exact ⟨phase', hin', himp (hflushes.mono (fun x hx => hitems.subset hx) hclock)⟩

/-- What has been waiting for the present endpoint is behind all that is reliable. -/
theorem none_reliable {endPointId : UdcEndPointId} {r : ClientRef} {stamp : Nat}
    (hsorted : items.Pairwise fun x y => x.2 ≤ y.2)
    (hflushes : Phase.Flushes items clock (.waiting endPointId r))
    (hbehind : ((.connection endPointId, stamp) :: items').Sublist items) :
    ∀ t, (.reliable, t) ∉ items' := by
  intro t ht
  obtain ⟨issued, -, hold, hown⟩ := hflushes
  have hissued := hown stamp (hbehind.subset List.mem_cons_self)
  have hle := (List.pairwise_cons.mp (hsorted.sublist hbehind)).1 _ ht
  have hlt := hold t (hbehind.subset (List.mem_cons_of_mem _ ht))
  exact absurd (hissued.trans hle) (Nat.not_le.mpr hlt)

end Flushing

/-! ### A's other calls -/

section Calls

variable {w : Wiring} {s : Pair} {op : Op} {srv : UdcServerImpl} {new : List Packet}
  {phase : Phase} {size : Nat} {p : Protocol} {time : Milliseconds} {endPointId : UdcEndPointId}

/-- The call has received nothing, and sent these packets. -/
structure Called (w : Wiring) (s : Pair) (op : Op) (srv : UdcServerImpl) (new : List Packet) :
    Prop where
  result : (step (s.marked w) op).1 = srv
  signature : srv.packetSignature = s.a.packetSignature
  size : srv.messageBufferSize = s.a.messageBufferSize
  inbox : srv.socket.inbox = s.a.socket.inbox
  sent : srv.socket.history.sent = s.a.socket.history.sent ++ new

theorem called_of_performs (op : Op) {event : Option UdcEvent} {reaction : Reaction}
    (hperf : Performs (s.marked w) (step (s.marked w) op).1 event reaction)
    (hfits : ∀ x ∈ reaction.sends, x.2.Fits s.a.messageBufferSize) :
    Called w s op (step (s.marked w) op).1 (reaction.sends.map (s.marked w).wirePacket) := by
  obtain ⟨new, hsocket, hnew⟩ := hperf.socket
  rw [← hnew hfits]
  refine ⟨rfl, hperf.signature, hperf.size, ?_, ?_⟩
  · rw [hsocket]
    rfl
  · rw [hsocket]
    rfl

theorem Called.items (h : Called w s op srv new) : (s.callA w op).items w = s.items w ++
    (new.filter (·.address = w.addressB)).filterMap
      (itemOf Message.outward s.b.packetSignature) := by
  have hnew := newPackets_marked (w := w) h.sent
  simp only [Pair.items, Pair.inFlightA, Pair.inFlightB, Pair.callA, h.result, hnew, h.inbox,
    h.signature, List.filterMap_append, List.append_assoc]

/-- A call that adds items of its own stamp keeps the session. -/
theorem Session.calls (h : Session w s) (hcalled : Called w s op srv new)
    (hmarks : ∀ p ∈ new, p.mark.stamp = s.clock)
    (hphase : ∃ phase', InPhase w srv.messageBufferSize srv.protocol phase' ∧
      phase'.Flushes ((s.callA w op).items w) (s.clock + 1)) : Session w (s.callA w op) := by
  have hstamp : ∀ x ∈ (new.filter (·.address = w.addressB)).filterMap
      (itemOf Message.outward s.b.packetSignature), x.2 = s.clock := by
    intro x hx
    obtain ⟨packet, hpacket, hitem⟩ := List.mem_filterMap.mp hx
    obtain ⟨item, -, rfl⟩ := Option.map_eq_some_iff.mp hitem
    exact hmarks packet (List.mem_filter.mp hpacket).1
  refine ⟨⟨?_, ?_⟩, h.listensB, ?_, ?_, ?_⟩
  · show ∀ name', _ → (step (s.marked w) op).1.socket.inbox name' = []
    rw [hcalled.result, hcalled.inbox]
    exact h.listensA.quiet
  · show ∀ p ∈ (step (s.marked w) op).1.socket.inbox _, _
    rw [hcalled.result, hcalled.inbox]
    exact h.listensA.source
  · rw [hcalled.items]
    refine List.pairwise_append.mpr ⟨h.sorted, ?_, fun x hx y hy => ?_⟩
    · exact List.pairwise_of_forall_mem_list fun x hx y hy =>
        Nat.le_of_eq ((hstamp x hx).trans (hstamp y hy).symm)
    · rw [hstamp y hy]
      exact (h.bounded x hx).le
  · intro x hx
    rw [hcalled.items] at hx
    rcases List.mem_append.mp hx with hx | hx
    · exact Nat.lt_succ_of_lt (h.bounded x hx)
    · rw [hstamp x hx]
      exact Nat.lt_succ_self _
  · obtain ⟨phase', hin, hflushes⟩ := hphase
    refine ⟨phase', ?_, hflushes⟩
    show InPhase w (step (s.marked w) op).1.messageBufferSize (step (s.marked w) op).1.protocol _
    rw [hcalled.result]
    exact hin

/-- A call that adds no item. -/
theorem Session.silent (h : Session w s) (hcalled : Called w s op srv new)
    (hmarks : ∀ p ∈ new, p.mark.stamp = s.clock)
    (hnone : (new.filter (·.address = w.addressB)).filterMap
      (itemOf Message.outward s.b.packetSignature) = [])
    (hphase : ∀ phase, InPhase w s.a.messageBufferSize s.a.protocol phase →
      phase.Flushes (s.items w) s.clock → ∃ phase', InPhase w srv.messageBufferSize srv.protocol
        phase' ∧ phase'.Flushes (s.items w) s.clock) : Session w (s.callA w op) := by
  obtain ⟨phase, hin, hflushes⟩ := h.phase
  obtain ⟨phase', hin', hflushes'⟩ := hphase phase hin hflushes
  refine h.calls hcalled hmarks ⟨phase', hin', ?_⟩
  rw [hcalled.items, hnone, List.append_nil]
  exact hflushes'.mono (fun x hx => hx) (Nat.le_succ _)

theorem outward_of_id {m m' : Message} (h : m'.id = m.id) (hm : m.outward = none) :
    m'.outward = none := by
  cases m' with
  | reliable kind timeStamp data =>
      have hkind := dataKind_of_id h
      cases m with
      | reliable kind' timeStamp' data' => cases hm
      | _ => cases hkind
  | connectionRequest endPointId =>
      cases m with
      | connectionRequest named => cases hm
      | reliable kind timeStamp data => rcases kind with _ | _ | _ <;> cases h
      | reliableHandshake kind timeStamp => rcases kind with _ | _ | _ <;> cases h
      | _ => cases h
  | _ => rfl

/-- Messages that are not items do not read as items. -/
theorem items_none {sends : List (UdcAddressMux × Message)} (signature : UdcSignature)
    (h : ∀ x ∈ sends, x.2.outward = none) (q : Packet → Bool) :
    ((sends.map (s.marked w).wirePacket).filter q).filterMap (itemOf Message.outward signature)
      = [] := by
  refine List.filterMap_eq_nil_iff.mpr fun packet hpacket => ?_
  obtain ⟨x, hx, rfl⟩ := List.mem_map.mp (List.mem_filter.mp hpacket).1
  refine itemOf_unread fun m' hm' => ?_
  exact outward_of_id (decode_wire length_front hm').1 (h x hx)

theorem marked_stamp {sends : List (UdcAddressMux × Message)} :
    ∀ p ∈ sends.map (s.marked w).wirePacket, p.mark.stamp = s.clock := by
  intro p hp
  obtain ⟨x, -, rfl⟩ := List.mem_map.mp hp
  rfl

/-- Disconnecting ends the phase, or does nothing. -/
theorem InPhase.disconnect (h : InPhase w size p phase) (target : UdcEndPointId) :
    InPhase w size (p.disconnect target) phase ∨ InPhase w size (p.disconnect target) .idle := by
  unfold Protocol.disconnect
  cases phase with
  | idle =>
      left
      rw [h.byId]
      exact ⟨h.byId, h.byAddress, by rw [h.pending]; rfl⟩
  | waiting endPointId r =>
      rw [h.byId]
      simp only [h.pending, List.filter_cons, List.filter_nil]
      split
      · exact Or.inl ⟨h.byId, h.byAddress, rfl, h.id, h.outgoing, h.state, h.queue⟩
      · exact Or.inr ⟨h.byId, h.byAddress, rfl⟩
  | connected endPointId r =>
      obtain ⟨l, h⟩ := h
      rw [h.byId]
      by_cases htarget : target = endPointId
      · right
        rw [if_pos htarget]
        refine ⟨fun i => ?_, fun a => ?_, h.pending⟩
        · by_cases hi : i = target
          · rw [hi]
            exact Finmap.lookup_erase _ _
          · refine (Finmap.lookup_erase_ne hi).trans ((h.byId i).trans ?_)
            rw [if_neg (htarget ▸ hi)]
        · simp only [h.outgoing]
          by_cases ha : a = w.addressB
          · rw [ha]
            exact Finmap.lookup_erase _ _
          · refine (Finmap.lookup_erase_ne ha).trans ((h.byAddress a).trans ?_)
            rw [if_neg ha]
      · left
        rw [if_neg htarget]
        exact ⟨l, h.byId, h.byAddress, by simp [h.pending], h.outgoing, h.mode, h.queue, h.fits⟩

theorem InPhase.push (h : InPhase w size p phase) (target : UdcEndPointId) {data : List UInt8}
    (hlen : data.length < 2 ^ 32) (hfits : u32 (9 + data.length : Nat) ≤ size) :
    InPhase w size (p.push target data) phase := by
  cases phase with
  | idle =>
      unfold Protocol.push
      rw [h.byId]
      exact h
  | waiting endPointId r =>
      unfold Protocol.push
      rw [h.byId]
      exact h
  | connected endPointId r =>
      obtain ⟨l, h⟩ := h
      by_cases htarget : target = endPointId
      · rw [htarget]
        exact ⟨_, h.push hlen hfits 0⟩
      · unfold Protocol.push
        rw [h.byId, if_neg htarget]
        exact ⟨l, h⟩

theorem say_state (p : Protocol) (target : UdcEndPointId) (data : List UInt8) :
    (p.say target data).state = p := by
  unfold Protocol.say
  cases p.clientsById.lookup target with
  | none => rfl
  | some r => simp only; split <;> rfl

/-- A connection attempt goes on or is given up. -/
theorem InPhase.poll (h : InPhase w size p phase) (time : Milliseconds) :
    InPhase w size (p.poll time).state phase ∨ InPhase w size (p.poll time).state .idle := by
  unfold Protocol.poll
  cases phase with
  | idle =>
      rw [h.pending]
      exact Or.inl h
  | waiting endPointId r =>
      rw [h.pending]
      simp only [List.head?_cons]
      split
      · exact Or.inr ⟨h.byId, h.byAddress, by simp only [List.tail_cons]⟩
      · split
        · left
          refine ⟨h.byId, h.byAddress, h.pending, ?_, ?_, ?_, ?_⟩
          · rw [Protocol.heap_setClient_self]
            exact h.id
          · rw [Protocol.heap_setClient_self]
            exact h.outgoing
          · rw [Protocol.heap_setClient_self]
            exact h.state
          · rw [Protocol.heap_setClient_self]
            exact h.queue
        · exact Or.inl h
  | connected endPointId r =>
      obtain ⟨l, h⟩ := h
      rw [h.pending]
      exact Or.inl ⟨l, h⟩

/-- A new endpoint, where there was none. -/
theorem Idle.connect (w : Wiring) (size : Nat) (h : Idle p) (timeout : Nat) (time : Milliseconds) :
    InPhase w size (p.connect w.addressB timeout time).state .idle ∨
      InPhase w size (p.connect w.addressB timeout time).state
        (.waiting (u32 (p.idCounter + 1)) p.nextRef) := by
  unfold Protocol.connect
  split
  · exact Or.inl h
  · right
    refine ⟨h.byId, h.byAddress, by simp only [h.pending, List.nil_append], ?_, ?_, ?_, ?_⟩
    · simp only [Function.update_self]
      rfl
    · simp only [Function.update_self]
      rfl
    · simp only [Function.update_self]
      rfl
    · simp only [Function.update_self]
      rfl

end Calls

/-! ### Runs of several connections -/

/-- The channels lose nothing and keep the order. -/
def Act.lossFree : Act → Bool
  | .networkA _ => false
  | .networkB _ => false
  | _ => true

/-- A has no endpoint. -/
def UdcServerImpl.Alone (s : UdcServerImpl) : Prop :=
  s.pendingClients = [] ∧ s.clientsById = ∅

instance (s : UdcServerImpl) : Decidable s.Alone := inferInstanceAs (Decidable (_ ∧ _))

/-- A connects to B while it has no endpoint, sends to it, and disconnects from it. -/
def Op.Single (w : Wiring) (s : UdcServerImpl) : Op → Prop
  | .tryConnectIPv4 ip port _ _ => ⟨.ipv4 ip, port⟩ = w.addressB ∧ s.Alone
  | .tryConnectIPv6 ip port _ _ => ⟨.ipv6 ip, port⟩ = w.addressB ∧ s.Alone
  | .disconnect _ => True
  | op => op.sending = true

instance (w : Wiring) (s : UdcServerImpl) (op : Op) : Decidable (op.Single w s) := by
  induction op using Op.casesOn <;> unfold Op.Single <;> infer_instance

/-- Loss-free channels between B and A, which has one endpoint at a time. -/
def Act.Reconnecting (w : Wiring) (s : Pair) (act : Act) : Prop :=
  act.lossFree = true ∧
    match act with
    | .callA op => op.Single w s.a ∧ op.Admissible s.a
    | _ => True

instance (w : Wiring) (s : Pair) (act : Act) : Decidable (act.Reconnecting w s) := by
  induction act using Act.casesOn <;> unfold Act.Reconnecting <;> infer_instance

/-- The id that a connect call hands out is not that of a datagram in flight. -/
def Act.FreshId (w : Wiring) (s : Pair) : Act → Prop
  | .callA (.tryConnectIPv4 _ _ _ _) =>
      ∀ x ∈ s.items w, x.1 ≠ .connection (u32 (s.a.idCounter + 1))
  | .callA (.tryConnectIPv6 _ _ _ _) =>
      ∀ x ∈ s.items w, x.1 ≠ .connection (u32 (s.a.idCounter + 1))
  | _ => True

instance (w : Wiring) (s : Pair) (act : Act) : Decidable (act.FreshId w s) := by
  rcases act with op | _ | _ | _ | _ | _
  · induction op using Op.casesOn <;> unfold Act.FreshId <;> infer_instance
  all_goals
    unfold Act.FreshId
    infer_instance

section Runs

variable {w : Wiring} {s s₀ : Pair} {time : Milliseconds}

/-- The call of a server without an endpoint, for either family. -/
theorem session_connect (timeout : Nat) (time : Milliseconds) (h : Session w s)
    (halone : s.a.Alone) {op : Op}
    (hperf : Performs (s.marked w) (step (s.marked w) op).1 none
      ⟨(s.a.protocol.connect w.addressB timeout time).state, [], none⟩)
    (hfresh : ∀ x ∈ s.items w, x.1 ≠ .connection (u32 (s.a.idCounter + 1))) :
    Session w (s.callA w op) := by
  have hcalled := called_of_performs op hperf (fun x hx => (nomatch hx))
  refine h.silent hcalled (fun p hp => (nomatch hp)) rfl fun phase hin hflushes => ?_
  have hidle : Idle s.a.protocol := by
    obtain ⟨hpending, hempty⟩ := halone
    cases phase with
    | idle => exact hin
    | waiting endPointId r =>
        have hone := hin.pending
        rw [show s.a.protocol.pendingClients = [] from hpending] at hone
        cases hone
    | connected endPointId r =>
        obtain ⟨l, hsender⟩ := hin
        have hone := hsender.byId endPointId
        rw [show s.a.protocol.clientsById = ∅ from hempty, Finmap.lookup_empty, if_pos rfl] at hone
        cases hone
  rw [hperf.state]
  rcases Idle.connect w (step (s.marked w) op).1.messageBufferSize hidle timeout
    time with hstay | hwaits
  · exact ⟨.idle, hstay, trivial⟩
  · -- all that is in flight is older than the new endpoint
    refine ⟨_, hwaits, s.clock, le_rfl, fun t ht => h.bounded _ ht, fun t ht => ?_⟩
    exact absurd rfl (hfresh _ ht)

/-- A's client sends at its turn; without one, a tick does nothing. -/
theorem session_tick (h : Session w s) {order : List UdcEndPointId}
    (hadm : (Op.updateClientConnectionStatus time order).Admissible s.a) :
    Session w (s.callA w (.updateClientConnectionStatus time order)) := by
  obtain ⟨phase, hin, hflushes⟩ := h.phase
  have hempty : (∀ i, s.a.protocol.clientsById.lookup i = none) → order = [] := by
    intro hnone
    have hkeys := hadm.2
    refine List.eq_nil_iff_forall_not_mem.mpr fun i hi => ?_
    rw [← List.mem_toFinset, hkeys, Finmap.mem_keys, ← Finmap.lookup_isSome,
      show s.a.clientsById.lookup i = none from hnone i] at hi
    cases hi
  have hsilent : order = [] → Session w (s.callA w (.updateClientConnectionStatus time order)) := by
    rintro rfl
    have hperf : Performs (s.marked w) (s.marked w) none ⟨(s.marked w).protocol, [], none⟩ :=
      performs_silent rfl rfl rfl rfl
    have hcalled := called_of_performs (.updateClientConnectionStatus time [])
      hperf (fun x hx => (nomatch hx))
    exact h.silent hcalled (fun p hp => (nomatch hp)) rfl fun phase hin hflushes =>
      ⟨phase, hin, hflushes⟩
  cases phase with
  | idle => exact hsilent (hempty hin.byId)
  | waiting endPointId r => exact hsilent (hempty hin.byId)
  | connected endPointId r =>
      obtain ⟨l, hsender⟩ := hin
      obtain rfl := order_eq hsender hadm
      obtain ⟨srv, new, hsrv, ht⟩ := tickedA time hsender
      refine h.calls ⟨hsrv, ht.signature, ht.size, ht.inbox, ht.sent⟩
        (fun p hp => by rw [ht.marks p hp]) ⟨.connected endPointId r, ?_, trivial⟩
      obtain ⟨c, hprotocol, houtgoing, hstate, hqueue⟩ := ht.client
      obtain ⟨mode, hmode⟩ : ∃ mode, c.reliableState = stateOf mode := by
        have hsends := sendReliable_sends (s.a.heap r) time
        rw [hstate]
        generalize (s.a.heap r).sendReliable time = t at hsends ⊢
        obtain ⟨c', sends⟩ := t
        cases hsends with
        | timeout _ _ _ => exact ⟨.reset, rfl⟩
        | data _ _ => exact ⟨l.mode, (setSendReliable_same _ time).1.trans hsender.mode⟩
        | _ => exact ⟨l.mode, hsender.mode⟩
      refine ⟨{ l with mode := mode }, ?_⟩
      rw [hprotocol, ht.size]
      refine hsender.setClient (houtgoing.trans hsender.outgoing) hmode
        (hqueue.trans hsender.queue) ?_
      rw [hqueue]
      exact hsender.fits

/-- The request of a waiting endpoint is not a reliable message, and it is of this call. -/
theorem session_poll (h : Session w s) : Session w (s.callA w (.updatePendingClients time)) := by
  have hperf := updatePendingClients_performs (s := s.marked w) time
  have hword : ∀ x ∈ (s.a.protocol.poll time).sends, x.2.Fits s.a.messageBufferSize := by
    intro x hx
    obtain ⟨endPointId, hm⟩ := poll_sends hx
    rw [hm]
    exact fits_word (nine_le s.a) rfl (length_le32 _)
  have hcalled := called_of_performs (.updatePendingClients time) hperf hword
  obtain ⟨phase, hin, hflushes⟩ := h.phase
  have hsize := hperf.size
  refine h.calls hcalled marked_stamp ?_
  rw [show (step (s.marked w) (.updatePendingClients time)).1.protocol
    = ((s.marked w).protocol.poll time).state from hperf.state, hcalled.size]
  rcases InPhase.poll hin time with hstay | hidle
  · refine ⟨phase, hstay, ?_⟩
    cases phase with
    | waiting endPointId r =>
        obtain ⟨issued, hle, hold, hown⟩ := hflushes
        rw [hcalled.items]
        refine ⟨issued, hle.trans (Nat.le_succ _), fun t ht => ?_, fun t ht => ?_⟩
        · rcases List.mem_append.mp ht with ht | ht
          · exact hold t ht
          · obtain ⟨packet, hpacket, hitem⟩ := List.mem_filterMap.mp ht
            obtain ⟨x, hx, rfl⟩ := List.mem_map.mp (List.mem_filter.mp hpacket).1
            obtain ⟨endPointId', hm⟩ := poll_sends hx
            obtain ⟨item, hread, heq⟩ := Option.map_eq_some_iff.mp hitem
            obtain ⟨m', hd, hm'⟩ := Option.bind_eq_some_iff.mp hread
            have hid := (decode_wire length_front hd).1
            rw [hm] at hid
            obtain ⟨rfl, -⟩ := Prod.ext_iff.mp heq
            have hkind := dataKind_of_id hid
            cases m' with
            | reliable kind timeStamp data => cases hkind
            | _ => cases hm'
        · rcases List.mem_append.mp ht with ht | ht
          · exact hown t ht
          · obtain ⟨packet, hpacket, hitem⟩ := List.mem_filterMap.mp ht
            obtain ⟨item, -, heq⟩ := Option.map_eq_some_iff.mp hitem
            obtain ⟨-, rfl⟩ := Prod.ext_iff.mp heq
            rw [show packet.mark.stamp = s.clock from
              marked_stamp packet (List.mem_filter.mp hpacket).1]
            exact hle
    | _ => trivial
  · exact ⟨.idle, hidle, trivial⟩

/-- The state after A's receiving call. -/
theorem items_receiveA {new : List Packet}
    (hmid : MidA w s ((s.marked w).receiveMessages time).1 new) :
    (s.callA w (.receiveMessages time)).items w
      = (s.duringA w ((s.marked w).receiveMessages time).1 new).items w := by
  have hnew := newPackets_marked (w := w) hmid.sent
  have hstep : (step (s.marked w) (.receiveMessages time)).1
      = ((s.marked w).receiveMessages time).1 := rfl
  simp only [Pair.items, Pair.inFlightA, Pair.inFlightB, Pair.callA, Pair.duringA, hstep, hnew]

theorem session_receiveA (h : Session w s) : Session w (s.callA w (.receiveMessages time)) := by
  obtain ⟨phase, hin, -⟩ := h.phase
  refine h.shrinks ?_ h.listensB ?_ (Nat.le_succ _) fun phase hin => ?_
  · obtain ⟨new, hmid, -⟩ := receiveA_progress h.listensA hin time
    exact hmid.listens
  · obtain ⟨new, hmid, -⟩ := receiveA_progress h.listensA hin time
    rw [items_receiveA hmid]
    exact hmid.items
  · obtain ⟨new, hmid, hstay | ⟨endPointId, r, hconnects⟩⟩ := receiveA_progress h.listensA hin time
    · exact ⟨phase, hstay, id⟩
    · exact ⟨.connected endPointId r, ⟨_, hconnects.sender⟩, fun _ => trivial⟩

theorem session_disconnect (h : Session w s) (target : UdcEndPointId) :
    Session w (s.callA w (.disconnect target)) := by
  have hperf := disconnectFromClient_performs (s := s.marked w) target
  have hcalled := called_of_performs (.disconnect target) hperf (fun x hx => (nomatch hx))
  refine h.silent hcalled (fun p hp => (nomatch hp)) rfl fun phase hin hflushes => ?_
  rw [hcalled.size, show (step (s.marked w) (.disconnect target)).1.protocol = _
    from hperf.state]
  rcases InPhase.disconnect hin target with hstay | hidle
  · exact ⟨phase, hstay, hflushes⟩
  · exact ⟨.idle, hidle, trivial⟩

theorem session_sendUnreliable (h : Session w s) (target : UdcEndPointId) {data : List UInt8}
    (hlen : data.length < 2 ^ 32) :
    Session w (s.callA w (.sendMessage target data .unreliableMessage)) := by
  obtain ⟨reaction, hperf, hcases⟩ :=
    sendUnreliableMessage_performs (s := s.marked w) target hlen
  have hsends : ∀ x ∈ reaction.sends, x.2.Fits s.a.messageBufferSize ∧ x.2.outward = none := by
    intro x hx
    rcases hcases with rfl | ⟨rfl, hfits⟩
    · cases hx
    · rw [(say_sends hx).1]
      exact ⟨hfits, rfl⟩
  have hstate : reaction.state = s.a.protocol := by
    rcases hcases with rfl | ⟨rfl, -⟩
    · rfl
    · exact say_state _ _ _
  have hcalled := called_of_performs (.sendMessage target data .unreliableMessage)
    hperf fun x hx => (hsends x hx).1
  refine h.silent hcalled marked_stamp (items_none _ (fun x hx => (hsends x hx).2) _)
    fun phase hin hflushes => ?_
  rw [hcalled.size, show (step (s.marked w)
    (.sendMessage target data .unreliableMessage)).1.protocol = _ from hperf.state, hstate]
  exact ⟨phase, hin, hflushes⟩

theorem session_sendReliable (h : Session w s) (target : UdcEndPointId) {data : List UInt8}
    (hlen : data.length < 2 ^ 32) :
    Session w (s.callA w (.sendMessage target data .reliableMessage)) := by
  obtain ⟨state, hperf, hcases⟩ := sendReliableMessage_performs (s := s.marked w) target data
  have hcalled := called_of_performs (.sendMessage target data .reliableMessage)
    hperf (fun x hx => (nomatch hx))
  refine h.silent hcalled (fun p hp => (nomatch hp)) rfl fun phase hin hflushes => ?_
  rw [hcalled.size, show (step (s.marked w)
    (.sendMessage target data .reliableMessage)).1.protocol = _ from hperf.state]
  rcases hcases with ⟨hsame, -⟩ | ⟨hpush, hfits, -⟩
  · exact ⟨phase, hsame ▸ hin, hflushes⟩
  · exact ⟨phase, hpush ▸ hin.push target hlen hfits, hflushes⟩

theorem session_deliverA (h : Session w s) : Session w (s.step w .deliverA) := by
  unfold Pair.step
  cases htoA : s.toA with
  | nil => exact h
  | cons p rest =>
      obtain ⟨socket, hsocket⟩ := step_arrivalFrom s.a w.negative w.addressB w.socketA p
      obtain ⟨new, hnew, hinbox, -⟩ := inbox_arrival s.a w.negative w.addressB w.socketA p
      have hlistens := listens_arrival h.listensA w.negative p
      simp only [hsocket] at hinbox hlistens ⊢
      refine h.shrinks hlistens h.listensB ?_ le_rfl fun phase hin => ⟨phase, hin, id⟩
      unfold Pair.items Pair.inFlightA Pair.inFlightB
      simp only [hinbox, htoA, List.append_assoc, List.filterMap_append]
      refine List.Sublist.append_left ?_ _
      rw [filterMap_cons_toList, List.append_assoc]
      exact List.Sublist.append_right (filterMap_arrived _ hnew) _

theorem session_deliverB (h : Session w s) : Session w (s.step w .deliverB) := by
  unfold Pair.step
  cases htoB : s.toB with
  | nil => exact h
  | cons p rest =>
      obtain ⟨socket, hsocket⟩ := step_arrivalFrom s.b w.negative w.addressA w.socketB p
      obtain ⟨new, hnew, hinbox, -⟩ := inbox_arrival s.b w.negative w.addressA w.socketB p
      have hlistens := listens_arrival h.listensB w.negative p
      simp only [hsocket] at hinbox hlistens ⊢
      refine h.shrinks h.listensA hlistens ?_ le_rfl fun phase hin => ⟨phase, hin, id⟩
      unfold Pair.items Pair.inFlightA Pair.inFlightB
      simp only [hinbox, htoB, List.append_assoc, List.filterMap_append]
      refine List.Sublist.append_left (List.Sublist.append_left (List.Sublist.append_left ?_ _) _) _
      rw [filterMap_cons_toList]
      exact List.Sublist.append_right (filterMap_arrived _ hnew) _

/-- **Every act keeps the session.** -/
theorem session_step (h : Session w s) {act : Act} (hact : act.Reconnecting w s)
    (hfresh : act.FreshId w s) : Session w (s.step w act) := by
  cases act with
  | callA op =>
      obtain ⟨-, hsingle, hadm⟩ := hact
      cases op with
      | tryConnectIPv4 ip port timeout currentTime =>
          obtain ⟨haddress, halone⟩ := hsingle
          have hperf := (tryConnect_performs (s := s.marked w) currentTime ⟨.ipv4 ip, port⟩
            timeout).1
          refine session_connect timeout currentTime h halone ?_ hfresh
          rw [← haddress]
          exact hperf
      | tryConnectIPv6 ip port timeout currentTime =>
          obtain ⟨haddress, halone⟩ := hsingle
          have hperf := (tryConnect_performs (s := s.marked w) currentTime ⟨.ipv6 ip, port⟩
            timeout).1
          refine session_connect timeout currentTime h halone ?_ hfresh
          rw [← haddress]
          exact hperf
      | disconnect target => exact session_disconnect h target
      | sendMessage target data reliability =>
          cases reliability with
          | unreliableMessage => exact session_sendUnreliable h target hadm.2
          | reliableMessage => exact session_sendReliable h target hadm.2
      | updatePendingClients time => exact session_poll h
      | updateClientConnectionStatus time order => exact session_tick h hadm
      | receiveMessages time => exact session_receiveA h
      | _ => cases hsingle
  | receiveB time =>
      obtain ⟨hitems, hlistens⟩ := receiveB_items h.listensB time
      exact h.shrinks h.listensA hlistens hitems le_rfl fun phase hin => ⟨phase, hin, id⟩
  | deliverA => exact session_deliverA h
  | deliverB => exact session_deliverB h
  | networkA order => cases hact.1
  | networkB order => cases hact.1

/-- The two servers before their first connection. -/
structure Pair.Apart (s : Pair) : Prop where
  byId : s.a.clientsById = ∅
  byAddress : s.a.clientsByAddress = ∅
  pending : s.a.pendingClients = []
  idleA : s.a.socket.backlog = 0
  idleB : s.b.socket.backlog = 0
  toA : s.toA = []
  toB : s.toB = []

theorem Pair.Apart.session (h : s.Apart) (w : Wiring) : Session w s := by
  have hitems : s.items w = [] := by
    simp only [Pair.items, Pair.inFlightA, Pair.inFlightB, inbox_idle h.idleA,
      inbox_idle h.idleB, h.toA, h.toB, List.append_nil, List.filterMap_nil]
  refine ⟨listens_idle h.idleA _ _, listens_idle h.idleB _ _, ?_, ?_, .idle, ⟨?_, ?_, h.pending⟩,
    trivial⟩
  · rw [hitems]
    exact List.Pairwise.nil
  · rw [hitems]
    intro x hx
    cases hx
  · intro i
    show s.a.clientsById.lookup i = none
    rw [h.byId, Finmap.lookup_empty]
  · intro a
    show s.a.clientsByAddress.lookup a = none
    rw [h.byAddress, Finmap.lookup_empty]

theorem session_run (h : s₀.Apart) {acts : List Act}
    (run : PairRun w (fun s act => act.Reconnecting w s ∧ act.FreshId w s) s₀ acts s) :
    Session w s := by
  refine run.preserves (h.session w) fun s act s' hs hstep => ?_
  obtain ⟨⟨hact, hfresh⟩, rfl⟩ := hstep
  exact session_step hs hact hfresh

end Runs

/-! ### A new connection -/

section Connection

variable {w : Wiring} {s s₀ s₁ : Pair} {time : Milliseconds} {acts₁ acts₂ : List Act}

/-- What is no item is no frame. -/
theorem frameOf_none {signature : UdcSignature} {p : Packet}
    (h : ∀ t, itemOf Message.outward signature p ≠ some (.reliable, t)) :
    frameOf signature p = none := by
  unfold frameOf
  unfold itemOf at h
  cases hd : decode signature.bytes p.bytes with
  | none => rfl
  | some m =>
      rw [hd] at h
      cases m with
      | reliable kind timeStamp data => exact absurd rfl (h p.mark.stamp)
      | _ => rfl

theorem ackOf_none {signature : UdcSignature} {p : Packet}
    (h : ∀ t, itemOf Message.inward signature p ≠ some (.reliable, t)) :
    ackOf signature p = none := by
  unfold ackOf
  unfold itemOf at h
  cases hd : decode signature.bytes p.bytes with
  | none => rfl
  | some m =>
      rw [hd] at h
      cases m with
      | reliableHandshake kind timeStamp => exact absurd rfl (h p.mark.stamp)
      | _ => rfl

/-- Without a reliable item in flight the link is empty. -/
theorem link_empty (h : ∀ t, (.reliable, t) ∉ s.items w) :
    (s.inFlightB w).filterMap (frameOf s.b.packetSignature) = [] ∧
      (s.inFlightA w).filterMap (ackOf s.a.packetSignature) = [] := by
  constructor
  · refine List.filterMap_eq_nil_iff.mpr fun p hp => frameOf_none fun t ht => h t ?_
    exact List.mem_append_right _ (List.mem_filterMap.mpr ⟨p, hp, ht⟩)
  · refine List.filterMap_eq_nil_iff.mpr fun p hp => ackOf_none fun t ht => h t ?_
    exact List.mem_append_left _ (List.mem_filterMap.mpr ⟨p, hp, ht⟩)

/-- Only a waiting endpoint can have been connected. -/
theorem connects_of_client {phase : Phase} {srv : UdcServerImpl} {new : List Packet}
    (hin : InPhase w s.a.messageBufferSize s.a.protocol phase)
    (hprogress : Progress w s phase srv new) (hbefore : s.client w = none)
    (hafter : (srv.clientsByAddress.lookup w.addressB).isSome) :
    ∃ endPointId r, Connects w s phase srv new endPointId r := by
  rcases hprogress with hstay | hconnects
  · cases phase with
    | idle =>
        rw [show srv.clientsByAddress.lookup w.addressB = none from hstay.byAddress _] at hafter
        cases hafter
    | waiting endPointId r =>
        rw [show srv.clientsByAddress.lookup w.addressB = none from hstay.byAddress _] at hafter
        cases hafter
    | connected endPointId r =>
        obtain ⟨l, hsender⟩ := hin
        rw [client_eq hsender] at hbefore
        cases hbefore
  · exact hconnects

/-- **A new connection starts on an empty link**, whatever earlier ones have left in flight. -/
theorem connects_models (h : Session w s) (hbefore : s.client w = none)
    (hafter : ((s.callA w (.receiveMessages time)).client w).isSome) {expected : Option Bool}
    (hexpected : s.b.reliableStates.lookup w.addressA = expected.map fun b => stateOf (.bit b)) :
    ∃ endPointId r, Models w endPointId r s.accepted.zipIdx (s.callA w (.receiveMessages time))
      { newLink with
        expected := expected
        clock := (s.callA w (.receiveMessages time)).clock
        since := (s.callA w (.receiveMessages time)).since
        base := s.accepted.length
        reported := s.reported
        heard := s.heard } := by
  obtain ⟨phase, hin, hflushes⟩ := h.phase
  obtain ⟨new, hmid, hprogress⟩ := receiveA_progress h.listensA hin time
  rw [Pair.client, Option.isSome_map] at hafter
  obtain ⟨endPointId, r, rfl, hsender, stamp, hbehind⟩ :=
    connects_of_client hin hprogress hbefore hafter
  have hnone := none_reliable h.sorted hflushes hbehind
  rw [← items_receiveA hmid] at hnone
  obtain ⟨hdata, hacks⟩ := link_empty hnone
  refine ⟨endPointId, r, hsender.congr rfl rfl, hexpected, hmid.listens, h.listensB, hdata.symm,
    hacks.symm, ?_, rfl, rfl, List.length_zipIdx.symm, rfl, rfl⟩
  show s.accepted.zipIdx ++ [] ++ [] = (s.accepted ++ []).zipIdx
  simp only [List.append_nil]

/-- Loss-free channels, one connection, and no reset taken for another. -/
def Act.Answered (w : Wiring) (s : Pair) (act : Act) : Prop :=
  (act.lossFree = true ∧ act.Ordinary s) ∧
    match act with
    | .callA (.receiveMessages time) =>
        ∀ x ∈ (s.marked w).receptions time, ResetAnswered w s time x
    | _ => True

instance (w : Wiring) (s : Pair) (act : Act) : Decidable (act.Answered w s) := by
  rcases act with op | _ | _ | _ | _ | _
  · induction op using Op.casesOn <;> unfold Act.Answered <;> infer_instance
  all_goals
    unfold Act.Answered
    infer_instance

theorem Act.Answered.permitted {act : Act} (h : act.Answered w s) {endPointId : UdcEndPointId}
    {r : ClientRef} {earlier : List Numbered} :
    act.Permitted orderly w endPointId r earlier s := by
  obtain ⟨⟨hlossFree, hordinary⟩, hanswered⟩ := h
  refine ⟨hordinary, fun _ _ _ => Or.inl trivial, ?_, fun _ _ _ _ _ _ _ _ _ _ => trivial, ?_, ?_⟩
  · rintro time rfl x hx l hsees kind timeStamp hm htime
    exact (hanswered x hx).fresh hsees hm htime
  · rintro order rfl
    cases hlossFree
  · rintro order rfl
    cases hlossFree

/--
**What A drops on a new connection has been reported**, if B's entry is absent or `0` when
the connection is made, and no reset is taken for another.
-/
theorem reconnected_popped_reported (hstart : s₀.Apart)
    (run₁ : PairRun w (fun s act => act.Reconnecting w s ∧ act.FreshId w s) s₀ acts₁ s₁)
    (hbefore : s₁.client w = none)
    (hafter : ((s₁.step w (.callA (.receiveMessages time))).client w).isSome)
    (hentry : s₁.b.reliableStates.lookup w.addressA = none ∨
      s₁.b.reliableStates.lookup w.addressA = some 0)
    (run₂ : PairRun w (Act.Answered w) (s₁.step w (.callA (.receiveMessages time))) acts₂ s) :
    ∀ m ∈ s.popped w, s₁.accepted.length ≤ m.2 → m ∈ s.reported := by
  obtain ⟨expected, hexpected, hfit⟩ : ∃ expected : Option Bool,
      s₁.b.reliableStates.lookup w.addressA = expected.map (fun b => stateOf (.bit b)) ∧
        (expected = none ∨ expected = some false) := by
    rcases hentry with hnone | hzero
    · exact ⟨none, hnone, Or.inl rfl⟩
    · exact ⟨some false, hzero, Or.inr rfl⟩
  obtain ⟨endPointId, r, hmodels⟩ :=
    connects_models (session_run hstart run₁) hbefore hafter hexpected
  obtain ⟨l, hevolves, hmodels'⟩ := run_simulates_link (T := orderly)
    (fun s act hact => hact.permitted) hmodels run₂
  have hinv := hevolves.preserves (P := Inv) (fun _ _ => inv_step)
    (inv_start rfl rfl rfl hfit (fun m hm => (nomatch hm)))
  intro m hm hlater
  rw [popped_eq hmodels'] at hm
  rcases List.mem_append.mp hm with hm | hm
  · have hlt := List.snd_lt_of_mem_zipIdx hm
    omega
  · rw [← hmodels'.reported]
    exact hinv.delivered m hm

end Connection

/-! ### Two servers to try things on -/

def apartPair : Pair := { examplePair with a := runState exampleServer [.tryBindIPv4 true] }

theorem apartPair_apart : apartPair.Apart where
  byId := by decide +kernel
  byAddress := by decide +kernel
  pending := by decide +kernel
  idleA := by decide +kernel
  idleB := by decide +kernel
  toA := rfl
  toB := rfl

/-- A asks for a connection, and B's handshake gets to A's socket. -/
def Act.connects (time : Milliseconds) : List Act :=
  [.callA (.tryConnectIPv4 (exampleIP 2) 2 100000 time), .callA (.updatePendingClients time)] ++
    Act.passB time ++ [.deliverA]

/-- The front of the queue is sent, with a ping, and answered. -/
def Act.exchange (endPointId : UdcEndPointId) (time : Milliseconds) : List Act :=
  [.callA (.updateClientConnectionStatus time [endPointId])] ++ Act.passB time ++
    Act.passB time ++ Act.passA time ++ Act.passA time

/-- A connection on which these messages are sent, and the beginning of another. -/
def reconnectActs (messages : List (List UInt8)) : List Act :=
  Act.connects 200000 ++ [.callA (.receiveMessages 200001)] ++ messages.map Act.push ++
    messages.flatMap (fun _ => Act.exchange 1 200002) ++ [.callA (.disconnect 1)] ++
      Act.connects 200003

/-- A message on the second connection. -/
def secondActs : List Act :=
  [.callA (.sendMessage 2 [67] .reliableMessage)] ++ Act.exchange 2 200005

/-- The pair when A has got the second handshake. -/
def reconnectedPair (messages : List (List UInt8)) : Pair :=
  (apartPair.after exampleWiring (reconnectActs messages)).step exampleWiring
    (.callA (.receiveMessages 200004))

/-- After two messages B's entry is `0` again. -/
theorem reconnected_popped_reported_two :
    ([67], 2) ∈ ((reconnectedPair [[65], [66]]).after exampleWiring secondActs).reported :=
  reconnected_popped_reported apartPair_apart
    (pairRun_of_throughout (reconnectActs [[65], [66]]) (by decide +kernel))
    (Option.isNone_iff_eq_none.mp (by decide +kernel)) (by decide +kernel)
    (Or.inr (by decide +kernel)) (pairRun_of_throughout secondActs (by decide +kernel))
    ([67], 2) (by decide +kernel) (by decide +kernel)

/-- After one message B's entry is `1`, and the next connection loses its first message. -/
theorem lost_after_reconnecting :
    ¬ ∀ (w : Wiring) (s₀ s₁ s : Pair) (time : Milliseconds) (acts₁ acts₂ : List Act),
      s₀.Apart → PairRun w (fun s act => act.Reconnecting w s) s₀ acts₁ s₁ →
        s₁.client w = none →
          ((s₁.step w (.callA (.receiveMessages time))).client w).isSome →
            PairRun w (fun s act => act.lossFree = true ∧ act.Ordinary s)
              (s₁.step w (.callA (.receiveMessages time))) acts₂ s →
                ∀ m ∈ s.popped w, s₁.accepted.length ≤ m.2 → m ∈ s.reported := by
  intro h
  have hlost := h exampleWiring apartPair _ _ 200004 (reconnectActs [[65]]) secondActs
    apartPair_apart (pairRun_of_throughout _ (by decide +kernel))
    (Option.isNone_iff_eq_none.mp (by decide +kernel)) (by decide +kernel)
    (pairRun_of_throughout _ (by decide +kernel))
  have hmissing : ¬ ∀ m ∈ ((reconnectedPair [[65]]).after exampleWiring secondActs).popped
      exampleWiring, (apartPair.after exampleWiring (reconnectActs [[65]])).accepted.length ≤ m.2 →
        m ∈ ((reconnectedPair [[65]]).after exampleWiring secondActs).reported := by
    decide +kernel
  exact hmissing hlost

end UdpConnect
