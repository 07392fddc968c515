/-
The reliable timer: what `m_reliableSentTime` says of the message in front.

The message in front is outstanding if it has been sent under the client's bit since the
bit was last set.  That is a matter of history: `Op.SendsFront` and `Op.SetsBit` say which
calls send the message in front and set the bit, read off what is handed to the socket and
what becomes of `m_reliableState`.  The source keeps one word of it, the time of the first
sending, with zero for none, in three functions that set it on conditions of their own.
`Timer` is the invariant, kept by a turn, by a reception and by every other call, and
`timer_run` the induction.

A message first sent at time zero is not told from one that was never sent, so the
invariant speaks of sendings at other times; `reliable_timer` is what is left of it when
there are no others.
-/
import UdpConnect.Proofs.Network
import UdpConnect.Proofs.Probes
import UdpConnect.Proofs.RoundTrip
import UdpConnect.Proofs.Silence

namespace UdpConnect

open Memory AlternatingBit Past UdcServerImpl

/-- In its turn the client is sent the message in front, under this bit, which is its own. -/
def SendsFront (r : ClientRef) (b : Bool) (msg : List UInt8) (time : Milliseconds)
    (s : UdcServerImpl) : Prop :=
  (s.heap r).reliableMessages.head? = some msg ∧ (s.heap r).reliableState = stateOf (.bit b) ∧
    ∃ packet ∈ newSent s (s.updateReliable r time),
      packet.address = (s.heap r).outgoingAddress ∧
        packet.bytes = wire s.front (.reliable (.bit b) (u32 time) msg)

/-- The call is a tick at this time that sends the client the message in front. -/
def Op.SendsFront (r : ClientRef) (b : Bool) (msg : List UInt8) (t : Milliseconds)
    (s : UdcServerImpl) : Op → Prop
  | .updateClientConnectionStatus time order =>
      time = t ∧ ∃ u, (u, r) ∈ visits time order s ∧ UdpConnect.SendsFront r b msg time u
  | _ => False

/-- The call sets the client's bit, in its turn or on receiving a handshake. -/
def Op.SetsBit (r : ClientRef) (s : UdcServerImpl) : Op → Prop
  | .updateClientConnectionStatus time order => ∃ u, (u, r) ∈ visits time order s ∧
      ((u.updateReliable r time).heap r).reliableState ≠ (u.heap r).reliableState
  | .receiveMessages time => ∃ x ∈ s.turns time,
      ((pass time x).1.heap r).reliableState ≠ (x.1.heap r).reliableState
  | _ => False

/-- The tick sends the client the message in front, at a time that is not zero. -/
def Op.Starts (r : ClientRef) (b : Bool) (msg : List UInt8) (s : UdcServerImpl) (op : Op) : Prop :=
  ∃ t, t ≠ 0 ∧ op.SendsFront r b msg t s

/-! ### One client -/

section Clients

variable {c : UdcClient} {time : Milliseconds}

theorem head_of_ne_nil {queue : List (List UInt8)} (h : queue ≠ []) :
    ∃ msg, queue.head? = some msg := by
  cases queue with
  | nil => exact absurd rfl h
  | cons msg rest => exact ⟨msg, rfl⟩

/-- The three things that a turn may do to the reliable part of a client. -/
inductive ReliableTurn (c : UdcClient) (time : Milliseconds) (c' : UdcClient) : Prop
  | rests (hidle : c.reliableMessages = [] ∨ c.reliableState = -1)
      (hstate : c'.reliableState = c.reliableState)
      (hsent : c'.reliableSentTime = c.reliableSentTime)
  | resets (hqueue : c.reliableMessages ≠ []) (hbit : c.reliableState ≠ -1)
      (hneeds : c.needsReliableReset time = true) (hstate : c'.reliableState = -1)
      (hsent : c'.reliableSentTime = 0)
  | sends {msg : List UInt8} (hfront : c.reliableMessages.head? = some msg)
      (hbit : c.reliableState ≠ -1) (hneeds : c.needsReliableReset time = false)
      (hstate : c'.reliableState = c.reliableState)
      (hsent : c'.reliableSentTime
        = if c.reliableSentTime = 0 then time else c.reliableSentTime)

theorem reliableTurn_sendReliable (c : UdcClient) (time : Milliseconds) :
    ReliableTurn c time (c.sendReliable time).1 := by
  unfold UdcClient.sendReliable
  split
  · rename_i hqueue
    exact .rests (Or.inl hqueue) rfl rfl
  · rename_i msg rest hqueue
    split
    · rename_i hreset
      exact .rests (Or.inr hreset) rfl rfl
    · rename_i hbit
      split
      · rename_i hneeds
        refine .resets ?_ hbit hneeds rfl rfl
        rw [hqueue]
        exact List.cons_ne_nil _ _
      · rename_i hneeds
        refine @ReliableTurn.sends c time _ msg ?_ hbit (Bool.eq_false_iff.mpr hneeds) ?_ ?_
        · rw [hqueue]
          rfl
        · unfold UdcClient.setSendReliable
          split <;> rfl
        · unfold UdcClient.setSendReliable
          split <;> rfl

/-- Losing the connection leaves the reliable part alone. -/
theorem turned_reliable (c : UdcClient) (time : Milliseconds) :
    (c.turned time).reliableState = (c.sendReliable time).1.reliableState ∧
      (c.turned time).reliableSentTime = (c.sendReliable time).1.reliableSentTime := by
  unfold UdcClient.turned
  split <;> exact ⟨rfl, rfl⟩

/-- What the client under an address holds after a handshake of its own state. -/
theorem acceptHandshake_match {kind : Kind} (h : c.reliableState = stateOf kind) :
    (c.acceptHandshake (stateOf kind)).reliableState = (if stateOf kind = 0 then 1 else 0) ∧
      (c.acceptHandshake (stateOf kind)).reliableSentTime = 0 ∧
      (c.acceptHandshake (stateOf kind)).reliableMessages
        = if kind = .reset then c.reliableMessages else c.reliableMessages.tail := by
  unfold UdcClient.acceptHandshake
  rw [if_pos h.symm, h]
  rcases kind with _ | b
  · exact ⟨rfl, rfl, rfl⟩
  · have hbit : stateOf (.bit b) ≠ -1 := by cases b <;> decide
    cases hqueue : c.reliableMessages with
    | nil => simp [hbit, hqueue, UdcClient.resetSendReliable, UdcClient.setReliableState]
    | cons msg rest =>
        simp [hbit, hqueue, UdcClient.resetSendReliable, UdcClient.setReliableState,
          UdcClient.popReliable]

end Clients

/-! ### One turn and one pass -/

section Stages

variable {s : UdcServerImpl} {r : ClientRef} {b : Bool} {msg : List UInt8} {time : Milliseconds}
  {x : UdcServerImpl × Nat}

theorem heap_updateReliable (s : UdcServerImpl) (r : ClientRef) (time : Milliseconds) :
    (s.updateReliable r time).heap r = ((s.heap r).sendReliable time).1 := by
  have hheap : (s.updateReliable r time).heap = _ :=
    congrArg Protocol.heap (updateReliable_performs (s := s) time r).state
  rw [hheap, Protocol.heap_setClient_self]

/-- A turn sends the message in front exactly if there is one and it is not time to reset. -/
theorem sendsFront_iff (hready : Ready s) : SendsFront r b msg time s ↔
    (s.heap r).reliableMessages.head? = some msg ∧
      (s.heap r).reliableState = stateOf (.bit b) ∧
        (s.heap r).needsReliableReset time = false := by
  have hbit : stateOf (.bit b) ≠ -1 := by cases b <;> decide
  constructor
  · rintro ⟨hfront, hstate, packet, hpacket, -⟩
    refine ⟨hfront, hstate, Bool.eq_false_iff.mpr fun hneeds => ?_⟩
    rw [newSent_updateReliable hready,
      sendReliable_nil_iff.mpr (Or.inr ⟨by rw [hstate]; exact hbit, hneeds⟩)] at hpacket
    cases hpacket
  · rintro ⟨hfront, hstate, hneeds⟩
    obtain ⟨rest, hqueue⟩ := List.head?_eq_some_iff.mp hfront
    have hstate' : (s.heap r).reliableState ≠ -1 := by
      rw [hstate]
      exact hbit
    have hsends : ((s.heap r).sendReliable time).2 = [.reliable (.bit b) (u32 time) msg] := by
      have hb : decide ((s.heap r).reliableState ≠ 0) = b := by
        rw [hstate]
        cases b <;> decide
      unfold UdcClient.sendReliable
      rw [hqueue]
      simp only [if_neg hstate', hneeds, Bool.false_eq_true, if_false, hb]
    refine ⟨hfront, hstate, s.wirePacket ((s.heap r).outgoingAddress,
      .reliable (.bit b) (u32 time) msg), ?_, rfl, rfl⟩
    rw [newSent_updateReliable hready, hsends]
    exact List.mem_singleton.mpr rfl

/-- What a pass does to the reliable part of a client: nothing, or what a handshake of the
client's own state does. -/
inductive ReliablePass (r : ClientRef) (time : Milliseconds) (x : UdcServerImpl × Nat)
    (c' : UdcClient) : Prop
  | rests (hstate : c'.reliableState = (x.1.heap r).reliableState)
      (hsent : c'.reliableSentTime = (x.1.heap r).reliableSentTime)
      (hqueue : c'.reliableMessages = (x.1.heap r).reliableMessages)
  | sets {address : UdcAddressMux} {bytes : List UInt8} {kind : Kind} {timeStamp : Nat}
      (hd : datagram x = some (address, bytes))
      (hm : decode x.1.packetSignature.bytes bytes = some (.reliableHandshake kind timeStamp))
      (hlookup : x.1.clientsByAddress.lookup address = some r)
      (htime : (timeStamp : Milliseconds) ≤ time)
      (hmatch : (x.1.heap r).reliableState = stateOf kind)
      (hstate : c'.reliableState = if stateOf kind = 0 then 1 else 0)
      (hsent : c'.reliableSentTime = 0)
      (hqueue : c'.reliableMessages
        = if kind = .reset then (x.1.heap r).reliableMessages
          else (x.1.heap r).reliableMessages.tail)

theorem reliablePass (r : ClientRef) (time : Milliseconds) (hcap : Capacity x.1.messageBuffer x.2) :
    ReliablePass r time x ((pass time x).1.heap r) := by
  rcases protocol_pass time hcap with hstate | ⟨address, bytes, m, hd, hm, hstate⟩
  · have hheap : (pass time x).1.heap = x.1.heap := congrArg Protocol.heap hstate
    rw [hheap]
    exact .rests rfl rfl rfl
  · have hheap : (pass time x).1.heap = _ := congrArg Protocol.heap hstate
    have hstep := handle_step x.1.protocol r address time m
    rw [hheap]
    generalize (x.1.protocol.handle address time m).state.heap r = c' at hstep
    cases hstep with
    | same => exact .rests rfl rfl rfl
    | handshake h =>
        rw [receiveConnectionHandshake_eq]
        exact .rests rfl rfl rfl
    | pong h =>
        rw [receivePong_eq]
        exact .rests rfl rfl rfl
    | @reliableHandshake _ _ kind timeStamp h =>
        rw [receivePong_eq]
        by_cases hmatch : (x.1.heap r).reliableState = stateOf kind
        · obtain ⟨hstate', hsent, hqueue⟩ := acceptHandshake_match hmatch
          exact .sets hd hm h.1 h.2 hmatch hstate' hsent hqueue
        · have hsame : (x.1.protocol.heap r).acceptHandshake (stateOf kind) = x.1.protocol.heap r :=
            acceptHandshake_of_ne hmatch
          rw [hsame]
          exact .rests rfl rfl rfl

/-- A handshake of the client's own state sets the bit. -/
theorem next_state_ne (kind : Kind) :
    (if stateOf kind = 0 then (1 : Int) else 0) ≠ stateOf kind := by
  rcases kind with _ | _ | _ <;> decide

end Stages

/-! ### One call -/

section Calls

variable {s : UdcServerImpl} {r : ClientRef} {b : Bool} {msg : List UInt8} {time t : Milliseconds}
  {order : List UdcEndPointId} {op : Op} {x : UdcServerImpl × Nat} {id : UdcEndPointId}

theorem stage_tickClient (time : Milliseconds) (order : List UdcEndPointId)
    (hlookup : s.clientsById.lookup id = some r) :
    Stage (.updateClientConnectionStatus time order) s (s.tickClient r time).1 := by
  refine .performs (.tick time order id) (?_ : Performs s _ (s.tickClient r time).2 _)
  have hperf := tickClient_performs (s := s) time r
  have htick : s.protocol.change (.tick id time) = s.protocol.tickClient r time := by
    show s.protocol.tick id time = _
    unfold Protocol.tick
    rw [show s.protocol.clientsById.lookup id = some r from hlookup]
  rw [htick]
  exact hperf

/-- What the stages of a tick keep holds when a client's turn comes. -/
theorem visits_keep {P : UdcServerImpl → Prop} (time : Milliseconds)
    (hkeep : ∀ t t' order, P t → Stage (.updateClientConnectionStatus time order) t t' → P t')
    (order : List UdcEndPointId) : ∀ s, P s → ∀ x ∈ visits time order s, P x.1 := by
  induction order with
  | nil =>
      intro s _ x hx
      cases hx
  | cons id order ih =>
      intro s hP x hx
      cases hlookup : s.clientsById.lookup id with
      | none =>
          rw [(order_skip time order hlookup).1] at hx
          exact ih s hP x hx
      | some r =>
          have hnext := hkeep _ _ order hP (stage_tickClient time order hlookup)
          cases hevent : (s.tickClient r time).2 with
          | some e =>
              rw [(order_event order hlookup hevent).1] at hx
              rw [List.mem_singleton.mp hx]
              exact hP
          | none =>
              rw [(order_quiet order hlookup hevent).1] at hx
              rcases List.mem_cons.mp hx with rfl | hx
              · exact hP
              · exact ih _ hnext x hx

section Tick

variable (hready : Ready s) (hadm : (Op.updateClientConnectionStatus time order).Admissible s)

include hready hadm in
/-- What is known of a turn from the client alone can be said of the client before the tick. -/
theorem exists_turn_iff {Q : UdcServerImpl → Prop} {P : UdcClient → Prop}
    (hQ : ∀ u, Ready u → (Q u ↔ P (u.heap r))) :
    (∃ u, (u, r) ∈ visits time order s ∧ Q u) ↔
      (Op.updateClientConnectionStatus time order).Visits r s ∧ P (s.heap r) := by
  have hticked : Ticked time order s := ticked order s hready.rooted hadm.1
  have hall := visits_keep time (fun _ _ _ h hstage => ready_stage h hstage) order s hready
  constructor
  · rintro ⟨u, hu, h⟩
    rw [hQ u (hall _ hu), (hticked.found _ hu).1] at h
    exact ⟨⟨u, hu⟩, h⟩
  · rintro ⟨⟨u, hu⟩, h⟩
    refine ⟨u, hu, (hQ u (hall _ hu)).mpr ?_⟩
    rw [(hticked.found _ hu).1]
    exact h

include hready hadm in
theorem tick_sendsFront_iff :
    (Op.updateClientConnectionStatus time order).SendsFront r b msg t s ↔
      time = t ∧ (Op.updateClientConnectionStatus time order).Visits r s ∧
        (s.heap r).reliableMessages.head? = some msg ∧
          (s.heap r).reliableState = stateOf (.bit b) ∧
            (s.heap r).needsReliableReset time = false := by
  apply and_congr_right
  rintro rfl
  exact exists_turn_iff (P := fun c => c.reliableMessages.head? = some msg ∧
    c.reliableState = stateOf (.bit b) ∧ c.needsReliableReset time = false) hready hadm
    fun u hu => sendsFront_iff hu

include hready hadm in
theorem tick_setsBit_iff :
    (Op.updateClientConnectionStatus time order).SetsBit r s ↔
      (Op.updateClientConnectionStatus time order).Visits r s ∧
        ((s.heap r).sendReliable time).1.reliableState ≠ (s.heap r).reliableState := by
  refine exists_turn_iff (P := fun c => (c.sendReliable time).1.reliableState ≠ c.reliableState)
    hready hadm ?_
  intro u _
  rw [heap_updateReliable]

end Tick

/-- A call without a turn and without a refresh does neither. -/
theorem quiet_of_rests (hvisits : ¬ op.Visits r s)
    (hquiet : ∀ time, op ≠ .receiveMessages time) :
    ¬ op.SetsBit r s ∧ ∀ b msg t, ¬ op.SendsFront r b msg t s := by
  cases op with
  | updateClientConnectionStatus time order =>
      refine ⟨?_, ?_⟩
      · rintro ⟨u, hu, -⟩
        exact hvisits ⟨u, hu⟩
      · rintro b msg t ⟨-, u, hu, -⟩
        exact hvisits ⟨u, hu⟩
  | receiveMessages time => exact absurd rfl (hquiet time)
  | _ => exact ⟨id, fun _ _ _ => id⟩

/-- A reception in which no pass sets the bit leaves the reliable part of the client alone. -/
theorem receive_rests (h : ¬ (Op.receiveMessages time).SetsBit r s) :
    ((s.receiveMessages time).1.heap r).reliableState = (s.heap r).reliableState ∧
      ((s.receiveMessages time).1.heap r).reliableSentTime = (s.heap r).reliableSentTime ∧
        ((s.receiveMessages time).1.heap r).reliableMessages = (s.heap r).reliableMessages := by
  refine receiveMessages_keeps (P := fun u => (u.heap r).reliableState = (s.heap r).reliableState ∧
    (u.heap r).reliableSentTime = (s.heap r).reliableSentTime ∧
      (u.heap r).reliableMessages = (s.heap r).reliableMessages) ⟨rfl, rfl, rfl⟩ ?_
  rintro y hy ⟨hstate, hsent, hqueue⟩
  cases reliablePass r time (turns_capacity hy) with
  | rests hstate' hsent' hqueue' =>
      exact ⟨hstate'.trans hstate, hsent'.trans hsent, hqueue'.trans hqueue⟩
  | @sets address bytes kind timeStamp hd hm hlookup htime hmatch hstate' hsent' hqueue' =>
      refine absurd ⟨y, hy, ?_⟩ h
      rw [hstate', hmatch]
      exact next_state_ne kind

/-- A reception in which some pass sets the bit stops the timer. -/
theorem receive_sets (h : (Op.receiveMessages time).SetsBit r s) :
    ((s.receiveMessages time).1.heap r).reliableSentTime = 0 ∧
      ∃ b, ((s.receiveMessages time).1.heap r).reliableState = stateOf (.bit b) := by
  obtain ⟨x, hx, hsets⟩ := h
  obtain ⟨before, after, hturns⟩ := List.append_of_mem hx
  have hbit (kind : Kind) :
      ∃ b, (if stateOf kind = 0 then (1 : Int) else 0) = stateOf (.bit b) := by
    rcases kind with _ | _ | _
    · exact ⟨false, rfl⟩
    · exact ⟨true, rfl⟩
    · exact ⟨false, rfl⟩
  refine receiveMessages_from (P := fun u => (u.heap r).reliableSentTime = 0 ∧
    ∃ b, (u.heap r).reliableState = stateOf (.bit b)) hturns ?_ ?_
  · cases reliablePass r time (turns_capacity hx) with
    | rests hstate hsent hqueue => exact absurd hstate hsets
    | @sets address bytes kind timeStamp hd hm hlookup htime hmatch hstate hsent hqueue =>
        rw [hstate]
        exact ⟨hsent, hbit kind⟩
  · rintro y hy ⟨hsent₀, b, hstate₀⟩
    have hmem : y ∈ s.turns time := by
      rw [hturns]
      exact List.mem_append_right _ (List.mem_cons_of_mem _ hy)
    cases reliablePass r time (turns_capacity hmem) with
    | rests hstate hsent hqueue => exact ⟨hsent.trans hsent₀, b, hstate.trans hstate₀⟩
    | @sets address bytes kind timeStamp hd hm hlookup htime hmatch hstate hsent hqueue =>
        rw [hstate]
        exact ⟨hsent, hbit kind⟩

end Calls

/-! ### The invariant -/

/-- The message in front has been sent under the bit since the bit was last set. -/
def Outstanding (r : ClientRef) (b : Bool) (msg : List UInt8) (s : UdcServerImpl)
    (ops : List Op) : Prop :=
  Since next (fun u op => ∃ t, op.SendsFront r b msg t u) (Op.SetsBit r) s ops

/-- The same, and at a time that is not zero. -/
def Started (r : ClientRef) (b : Bool) (msg : List UInt8) (s : UdcServerImpl)
    (ops : List Op) : Prop :=
  Since next (Op.Starts r b msg) (Op.SetsBit r) s ops

/-- The tick at this time was the first to send the message in front since the bit was last
set, but for those at time zero. -/
def FirstSent (r : ClientRef) (b : Bool) (msg : List UInt8) (time : Milliseconds)
    (s : UdcServerImpl) (ops : List Op) : Prop :=
  ∃ before order after, ops = before ++ .updateClientConnectionStatus time order :: after ∧
    (Op.updateClientConnectionStatus time order).SendsFront r b msg time (runState s before) ∧
      ¬ Started r b msg s before ∧
        ¬ Once next (Op.SetsBit r)
          (runState s (before ++ [.updateClientConnectionStatus time order])) after

/-- What the reliable part of a client says of a run that began with the client. -/
structure Timer (r : ClientRef) (s : UdcServerImpl) (ops : List Op) : Prop where
  state : ∃ kind, ((runState s ops).heap r).reliableState = stateOf kind
  resetting : ((runState s ops).heap r).reliableState = -1 →
    ((runState s ops).heap r).reliableMessages ≠ [] ∧
      ((runState s ops).heap r).reliableSentTime = 0
  front : ∀ b msg, Outstanding r b msg s ops →
    ((runState s ops).heap r).reliableState = stateOf (.bit b) ∧
      ((runState s ops).heap r).reliableMessages.head? = some msg
  running : ((runState s ops).heap r).reliableSentTime ≠ 0 → ∃ b msg,
    Outstanding r b msg s ops ∧
      FirstSent r b msg ((runState s ops).heap r).reliableSentTime s ops
  stopped : ((runState s ops).heap r).reliableSentTime = 0 → ∀ b msg, ¬ Started r b msg s ops

section Invariant

variable {s : UdcServerImpl} {r : ClientRef} {b : Bool} {msg : List UInt8}
  {time : Milliseconds} {order : List UdcEndPointId} {op : Op} {ops : List Op}

theorem FirstSent.snoc (h : FirstSent r b msg time s ops)
    (hbit : ¬ op.SetsBit r (runState s ops)) : FirstSent r b msg time s (ops ++ [op]) := by
  obtain ⟨before, order, after, rfl, hsends, hfirst, hset⟩ := h
  refine ⟨before, order, after ++ [op], by simp, hsends, hfirst, ?_⟩
  rw [once_snoc, not_or]
  refine ⟨hset, ?_⟩
  have hsplit : runState s (before ++ .updateClientConnectionStatus time order :: after)
      = after.foldl next
          (runState s (before ++ [.updateClientConnectionStatus time order])) := by
    rw [runState_split, runState_snoc]
    rfl
  rw [← hsplit]
  exact hbit

/-- A call that neither sends the message in front nor sets the bit. -/
theorem timer_rests (h : Timer r s ops) (hbit : ¬ op.SetsBit r (runState s ops))
    (hsends : ∀ b msg t, ¬ op.SendsFront r b msg t (runState s ops))
    (hstate : ((runState s (ops ++ [op])).heap r).reliableState
      = ((runState s ops).heap r).reliableState)
    (hsent : ((runState s (ops ++ [op])).heap r).reliableSentTime
      = ((runState s ops).heap r).reliableSentTime)
    (hqueue : ((runState s ops).heap r).reliableMessages
      <+: ((runState s (ops ++ [op])).heap r).reliableMessages) :
    Timer r s (ops ++ [op]) := by
  have hhead (msg : List UInt8) (hm : ((runState s ops).heap r).reliableMessages.head? = some msg) :
      ((runState s (ops ++ [op])).heap r).reliableMessages.head? = some msg := by
    obtain ⟨rest, hrest⟩ := List.head?_eq_some_iff.mp hm
    obtain ⟨more, hmore⟩ := hqueue
    rw [← hmore, hrest]
    rfl
  have hold {b : Bool} {msg : List UInt8} (hout : Outstanding r b msg s (ops ++ [op])) :
      Outstanding r b msg s ops := by
    rcases since_snoc.mp hout with ⟨t, hnow⟩ | ⟨-, hbefore⟩
    · exact absurd hnow (hsends b msg t)
    · exact hbefore
  refine ⟨?_, ?_, ?_, ?_, ?_⟩
  · rw [hstate]
    exact h.state
  · rw [hstate, hsent]
    intro hreset
    obtain ⟨hnonempty, hzero⟩ := h.resetting hreset
    obtain ⟨msg, hm⟩ := head_of_ne_nil hnonempty
    refine ⟨?_, hzero⟩
    intro hnil
    have hsome := hhead msg hm
    rw [hnil] at hsome
    cases hsome
  · intro b msg hout
    obtain ⟨hbit', hm⟩ := h.front b msg (hold hout)
    rw [hstate]
    exact ⟨hbit', hhead msg hm⟩
  · rw [hsent]
    intro hne
    obtain ⟨b, msg, hout, hfirst⟩ := h.running hne
    exact ⟨b, msg, since_snoc.mpr (Or.inr ⟨hbit, hout⟩), hfirst.snoc hbit⟩
  · rw [hsent]
    intro hzero b msg hstarted
    rcases since_snoc.mp hstarted with ⟨t, -, hnow⟩ | ⟨-, hbefore⟩
    · exact hsends b msg t hnow
    · exact h.stopped hzero b msg hbefore

/-- A call that sets the bit, and stops the timer. -/
theorem timer_sets (hbit : op.SetsBit r (runState s ops))
    (hsends : ∀ b msg t, ¬ op.SendsFront r b msg t (runState s ops))
    (hstate : ∃ kind, ((runState s (ops ++ [op])).heap r).reliableState = stateOf kind)
    (hqueue : ((runState s (ops ++ [op])).heap r).reliableState = -1 →
      ((runState s (ops ++ [op])).heap r).reliableMessages ≠ [])
    (hsent : ((runState s (ops ++ [op])).heap r).reliableSentTime = 0) :
    Timer r s (ops ++ [op]) := by
  refine ⟨hstate, fun hreset => ⟨hqueue hreset, hsent⟩, ?_, fun hne => absurd hsent hne, ?_⟩
  · intro b msg hout
    rcases since_snoc.mp hout with ⟨t, hnow⟩ | ⟨hnot, -⟩
    · exact absurd hnow (hsends b msg t)
    · exact absurd hbit hnot
  · intro _ b msg hstarted
    rcases since_snoc.mp hstarted with ⟨t, -, hnow⟩ | ⟨hnot, -⟩
    · exact hsends b msg t hnow
    · exact hnot hbit

/-- A turn that sends the message in front. -/
theorem timer_sends (h : Timer r s ops)
    (hnow : ∀ b msg t, (Op.updateClientConnectionStatus time order).SendsFront r b msg t
      (runState s ops) ↔ time = t ∧
        ((runState s ops).heap r).reliableMessages.head? = some msg ∧
          ((runState s ops).heap r).reliableState = stateOf (.bit b))
    (hbit : ¬ (Op.updateClientConnectionStatus time order).SetsBit r (runState s ops))
    (hne : ((runState s ops).heap r).reliableState ≠ -1)
    (hfront : ((runState s ops).heap r).reliableMessages ≠ [])
    (hstate : ((runState s (ops ++ [.updateClientConnectionStatus time order])).heap
      r).reliableState = ((runState s ops).heap r).reliableState)
    (hqueue : ((runState s (ops ++ [.updateClientConnectionStatus time order])).heap
      r).reliableMessages = ((runState s ops).heap r).reliableMessages)
    (hsent : ((runState s (ops ++ [.updateClientConnectionStatus time order])).heap
      r).reliableSentTime = if ((runState s ops).heap r).reliableSentTime = 0 then time
        else ((runState s ops).heap r).reliableSentTime) :
    Timer r s (ops ++ [.updateClientConnectionStatus time order]) := by
  obtain ⟨kind, hkind⟩ := h.state
  obtain ⟨msg, hmsg⟩ := head_of_ne_nil hfront
  obtain ⟨b, rfl⟩ : ∃ b, kind = .bit b := by
    cases kind with
    | reset => exact absurd hkind hne
    | bit b => exact ⟨b, rfl⟩
  have hsends := (hnow b msg time).mpr ⟨rfl, hmsg, hkind⟩
  refine ⟨?_, ?_, ?_, ?_, ?_⟩
  · rw [hstate]
    exact h.state
  · rw [hstate]
    intro hreset
    exact absurd hreset hne
  · rw [hstate, hqueue]
    intro b' msg' hout
    rcases since_snoc.mp hout with ⟨t, hlast⟩ | ⟨-, hbefore⟩
    · obtain ⟨-, hmsg', hstate'⟩ := (hnow b' msg' t).mp hlast
      exact ⟨hstate', hmsg'⟩
    · exact h.front b' msg' hbefore
  · rw [hsent]
    by_cases hzero : ((runState s ops).heap r).reliableSentTime = 0
    · -- the timer starts now
      rw [if_pos hzero]
      intro _
      exact ⟨b, msg, since_snoc.mpr (Or.inl ⟨time, hsends⟩),
        ops, order, [], rfl, hsends, h.stopped hzero b msg, once_nil⟩
    · rw [if_neg hzero]
      intro _
      obtain ⟨b', msg', hout, hfirst⟩ := h.running hzero
      exact ⟨b', msg', since_snoc.mpr (Or.inr ⟨hbit, hout⟩), hfirst.snoc hbit⟩
  · rw [hsent]
    by_cases hzero : ((runState s ops).heap r).reliableSentTime = 0
    · rw [if_pos hzero]
      intro htime b' msg' hstarted
      rcases since_snoc.mp hstarted with ⟨t, ht, hlast⟩ | ⟨-, hbefore⟩
      · exact ht (((hnow b' msg' t).mp hlast).1.symm.trans htime)
      · exact h.stopped hzero b' msg' hbefore
    · rw [if_neg hzero]
      intro hnone
      exact absurd hnone hzero

/-- **A turn of the client keeps the invariant.** -/
theorem timer_turn (h : Timer r s ops) (hready : Ready (runState s ops))
    (hadm : (Op.updateClientConnectionStatus time order).Admissible (runState s ops))
    (hvisits : (Op.updateClientConnectionStatus time order).Visits r (runState s ops)) :
    Timer r s (ops ++ [.updateClientConnectionStatus time order]) := by
  have hturned : (runState s (ops ++ [.updateClientConnectionStatus time order])).heap r
      = ((runState s ops).heap r).turned time := by
    rw [runState_snoc]
    exact (ticked order _ hready.rooted hadm.1).turned r hvisits
  have hnow (b : Bool) (msg : List UInt8) (t : Milliseconds) :=
    @tick_sendsFront_iff (runState s ops) r b msg time t order hready hadm
  have hset := tick_setsBit_iff (r := r) hready hadm
  have hqueue := (reliableMessages_turned ((runState s ops).heap r) time).1
  obtain ⟨hturnState, hturnSent⟩ := turned_reliable ((runState s ops).heap r) time
  rw [← hturned] at hqueue hturnState hturnSent
  cases reliableTurn_sendReliable ((runState s ops).heap r) time with
  | rests hidle hstate hsent =>
      refine timer_rests h ?_ ?_ (hturnState.trans hstate) (hturnSent.trans hsent) ?_
      · rw [hset, not_and_not_right]
        exact fun _ => hstate
      · -- there is nothing to send, or a reset is what is sent
        intro b msg t hsends
        obtain ⟨-, -, hmsg, hbit, -⟩ := (hnow b msg t).mp hsends
        rcases hidle with hnil | hreset
        · rw [hnil] at hmsg
          cases hmsg
        · rw [hreset] at hbit
          cases b <;> cases hbit
      · rw [hqueue]
  | resets hnonempty hbit hneeds hstate hsent =>
      refine timer_sets (hset.mpr ⟨hvisits, ?_⟩) ?_ ⟨.reset, hturnState.trans hstate⟩ ?_
        (hturnSent.trans hsent)
      · rw [hstate]
        exact Ne.symm hbit
      · intro b msg t hsends
        obtain ⟨-, -, -, -, hno⟩ := (hnow b msg t).mp hsends
        rw [hneeds] at hno
        cases hno
      · rw [hqueue]
        exact fun _ => hnonempty
  | @sends msg hfront hbit hneeds hstate hsent =>
      refine timer_sends h ?_ ?_ hbit ?_ (hturnState.trans hstate) hqueue (hturnSent.trans hsent)
      · intro b msg t
        rw [hnow]
        constructor
        · rintro ⟨htime, -, hmsg, hstate', -⟩
          exact ⟨htime, hmsg, hstate'⟩
        · rintro ⟨htime, hmsg, hstate'⟩
          exact ⟨htime, hvisits, hmsg, hstate', hneeds⟩
      · rw [hset, not_and_not_right]
        exact fun _ => hstate
      · intro hnil
        rw [hnil] at hfront
        cases hfront

/-- **Every call keeps the invariant.** -/
theorem timer_step (h : Timer r s ops) (hready : Ready (runState s ops))
    (hadm : op.Admissible (runState s ops)) (hr : r < (runState s ops).nextRef) :
    Timer r s (ops ++ [op]) := by
  by_cases hvisits : op.Visits r (runState s ops)
  · obtain ⟨time, order, rfl, -⟩ := turned_step hready.rooted hadm hvisits
    exact timer_turn h hready hadm hvisits
  · by_cases hreceive : ∃ time, op = .receiveMessages time
    · obtain ⟨time, rfl⟩ := hreceive
      have hsends : ∀ b msg t, ¬ (Op.receiveMessages time).SendsFront r b msg t (runState s ops) :=
        fun _ _ _ => id
      by_cases hbit : (Op.receiveMessages time).SetsBit r (runState s ops)
      · obtain ⟨hsent, b, hstate⟩ := receive_sets hbit
        have hnext : runState s (ops ++ [.receiveMessages time])
            = ((runState s ops).receiveMessages time).1 := runState_snoc _ _ _
        rw [← hnext] at hsent hstate
        refine timer_sets hbit hsends ⟨.bit b, hstate⟩ ?_ hsent
        intro hreset
        rw [hstate] at hreset
        cases b <;> cases hreset
      · obtain ⟨hstate, hsent, hqueue⟩ := receive_rests hbit
        have hnext : runState s (ops ++ [.receiveMessages time])
            = ((runState s ops).receiveMessages time).1 := runState_snoc _ _ _
        rw [← hnext] at hstate hsent hqueue
        exact timer_rests h hbit hsends hstate hsent (by rw [hqueue])
    · have hnot : ∀ time, op ≠ .receiveMessages time := fun time hop => hreceive ⟨time, hop⟩
      have hquiet : ¬ op.Refreshes r (runState s ops) := by
        rintro ⟨x, hx, -⟩
        cases op with
        | receiveMessages time => exact hnot time rfl
        | _ => cases hx
      obtain ⟨hbit, hsends⟩ := quiet_of_rests hvisits hnot
      have hrests := rests_step hready.rooted hadm hr hvisits hquiet
      rw [← next, ← runState_snoc] at hrests
      exact timer_rests h hbit hsends hrests.reliableState hrests.reliableSentTime
        hrests.reliableMessages

theorem timer_run (ops : List Op) (hready : Ready s) (hr : r < s.nextRef)
    (hadm : Throughout (fun s op => op.Admissible s) s ops) (h : Timer r s []) :
    Timer r s ops := by
  induction ops using List.reverseRecOn with
  | nil => exact h
  | append_singleton ops op ih =>
      obtain ⟨hrun, hlast, -⟩ := (throughout_append ops [op] s).mp hadm
      have hkept := run_stages (P := fun t => Ready t ∧ r < t.nextRef)
        (fun _ _ _ h hstage => ⟨ready_stage h.1 hstage,
          Nat.lt_of_lt_of_le h.2 (nextRef_le_stage hstage)⟩) ops s hrun ⟨hready, hr⟩
      exact timer_step (ih hrun) hkept.1 hlast hkept.2

end Invariant

/-! ### Runs -/

/-- **Every client of every run is made by a connect call of that run.** -/
theorem exists_course {signature : UdcSignature} {buffer : MessageBuffer} {ops : List Op}
    {r : ClientRef} (hadm : Throughout (fun s op => op.Admissible s) (.new signature buffer) ops)
    (hr : r < (runState (.new signature buffer) ops).nextRef) :
    ∃ w : Course, w.start = .new signature buffer ∧ w.ops = ops ∧ w.client.ref = r := by
  have hstart : ¬ r < (UdcServerImpl.new signature buffer).nextRef := Nat.not_lt_zero r
  have honce : Once next (fun t op => ¬ r < t.nextRef ∧ r < (next t op).nextRef)
      (.new signature buffer) ops := once_of_change hstart hr
  obtain ⟨before, call, after, rfl, hnot, hnow⟩ := honce
  obtain ⟨-, hcall, -⟩ := (throughout_append before (call :: after) _).mp hadm
  obtain ⟨client, hcreates, href⟩ := created_step hcall hnot hnow
  exact ⟨⟨signature, buffer, before, call, after, client, hadm, hcreates⟩, rfl, rfl, href⟩

/-- What the reliable part of a client says, if the clock never stands at zero. -/
structure TimerMeans (w : Course) : Prop where
  state : (w.now.heap w.client.ref).reliableState = -1 ∨
    (w.now.heap w.client.ref).reliableState = 0 ∨ (w.now.heap w.client.ref).reliableState = 1
  resetting : (w.now.heap w.client.ref).reliableState = -1 →
    (w.now.heap w.client.ref).reliableMessages ≠ [] ∧
      (w.now.heap w.client.ref).reliableSentTime = 0
  running : (w.now.heap w.client.ref).reliableSentTime ≠ 0 ↔ ∃ b msg,
    (w.now.heap w.client.ref).reliableState = stateOf (.bit b) ∧
      (w.now.heap w.client.ref).reliableMessages.head? = some msg ∧
        Outstanding w.client.ref b msg w.created w.after
  first : (w.now.heap w.client.ref).reliableSentTime ≠ 0 → ∃ b msg,
    (w.now.heap w.client.ref).reliableState = stateOf (.bit b) ∧
      (w.now.heap w.client.ref).reliableMessages.head? = some msg ∧
        ∃ before order after,
          w.after = before ++ .updateClientConnectionStatus
            (w.now.heap w.client.ref).reliableSentTime order :: after ∧
          (Op.updateClientConnectionStatus
            (w.now.heap w.client.ref).reliableSentTime order).SendsFront w.client.ref b msg
              (w.now.heap w.client.ref).reliableSentTime (runState w.created before) ∧
          ¬ Outstanding w.client.ref b msg w.created before ∧
          ¬ Once next (Op.SetsBit w.client.ref) (runState w.created
            (before ++ [.updateClientConnectionStatus
              (w.now.heap w.client.ref).reliableSentTime order])) after

section Courses

variable {s : UdcServerImpl} {r : ClientRef} {b : Bool} {msg : List UInt8} {ops : List Op}
  {time t : Milliseconds} {op : Op}

theorem op_of_sendsFront (h : op.SendsFront r b msg t s) :
    ∃ order, op = .updateClientConnectionStatus t order := by
  cases op with
  | updateClientConnectionStatus time order =>
      obtain ⟨rfl, -⟩ := h
      exact ⟨order, rfl⟩
  | _ => exact absurd h id

theorem started_of_outstanding
    (hpos : ∀ time order, .updateClientConnectionStatus time order ∈ ops → 0 < time)
    (h : Outstanding r b msg s ops) : Started r b msg s ops := by
  obtain ⟨before, op, after, rfl, ⟨t, hsends⟩, hset⟩ := h
  obtain ⟨order, rfl⟩ := op_of_sendsFront hsends
  have htime := hpos t order (List.mem_append_right _ List.mem_cons_self)
  exact ⟨before, _, after, rfl, ⟨t, ne_of_gt htime, hsends⟩, hset⟩

theorem Course.ready_created (w : Course) : Ready w.created := by
  obtain ⟨hbefore, hcall, -⟩ := (throughout_append w.before (w.call :: w.after) w.start).mp
    w.admissible
  have hstart := run_stages (fun _ _ _ h hstage => ready_stage h hstage) w.before w.start hbefore
    (ready_new w.signature w.buffer)
  exact step_stages hcall (fun _ _ h hstage => ready_stage h hstage) hstart

theorem timer_course (w : Course) : Timer w.client.ref w.created w.after := by
  have hheap : w.created.heap w.client.ref = _ := (creates_heap w.creates).2.2
  refine timer_run w.after w.ready_created w.begun.made.lt w.admissible_after
    ⟨⟨.bit false, ?_⟩, ?_, ?_, ?_, ?_⟩
  · show (w.created.heap w.client.ref).reliableState = 0
    rw [hheap]
    rfl
  · show (w.created.heap w.client.ref).reliableState = -1 → _
    rw [hheap]
    intro hreset
    cases hreset
  · intro b msg hout
    exact absurd hout since_nil
  · intro hsent
    exact absurd w.begun.unsent hsent
  · intro _ b msg
    exact since_nil

/--
**The reliable timer runs exactly if the message in front has been sent under the client's bit
since that bit was last set, and then stands at the time it was first sent.**
-/
theorem reliable_timer (w : Course)
    (hpos : ∀ time order, .updateClientConnectionStatus time order ∈ w.after → 0 < time) :
    TimerMeans w := by
  have htimer := timer_course w
  have hnow : runState w.created w.after = w.now := w.now_eq.symm
  refine ⟨?_, ?_, ⟨?_, ?_⟩, ?_⟩
  · obtain ⟨kind, hkind⟩ := htimer.state
    rw [hnow] at hkind
    rw [hkind]
    rcases kind with _ | _ | _ <;> decide
  · rw [← hnow]
    exact htimer.resetting
  · rw [← hnow]
    intro hsent
    obtain ⟨b, msg, hout, -⟩ := htimer.running hsent
    obtain ⟨hstate, hfront⟩ := htimer.front b msg hout
    exact ⟨b, msg, hstate, hfront, hout⟩
  · rw [← hnow]
    rintro ⟨b, msg, -, -, hout⟩ hzero
    exact htimer.stopped hzero b msg (started_of_outstanding hpos hout)
  · rw [← hnow]
    intro hsent
    obtain ⟨b, msg, hout, before, order, after, hsplit, hsends, hfirst, hset⟩ :=
      htimer.running hsent
    obtain ⟨hstate, hfront⟩ := htimer.front b msg hout
    refine ⟨b, msg, hstate, hfront, before, order, after, hsplit, hsends, ?_, hset⟩
    intro hbefore
    refine hfirst (started_of_outstanding (fun time order hmem => hpos time order ?_) hbefore)
    rw [hsplit]
    exact List.mem_append_left _ hmem

/-- A message of one byte is pushed, and sent in two ticks. -/
def sentOps : List Op :=
  heardOps ++ [.sendMessage 1 [65] .reliableMessage,
    .updateClientConnectionStatus (exampleTime + 11) [1],
    .updateClientConnectionStatus (exampleTime + 15) [1]]

theorem admissible_sent : Throughout (fun s op => op.Admissible s) exampleServer
    (exampleBound ++ exampleConnect :: sentOps) := by
  decide +kernel

def sentCourse : Course := exampleCourse sentOps admissible_sent

theorem reliable_timer_sent : TimerMeans sentCourse := by
  apply reliable_timer
  intro time order hmem
  have htimes : ∀ t ∈ sentOps.filterMap Op.time?, 0 < t := by decide +kernel
  exact htimes time (mem_times hmem rfl)

end Courses

end UdpConnect
