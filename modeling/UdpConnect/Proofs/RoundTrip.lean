/-
Time stamps, from a tick through an echo to the reported ping.

A tick writes its time into pings and reliable messages as a `uint32_t`, the peer sends
the word back, and the reply's time minus that word is the ping.  Two things are done
with a word that stands for a 64-bit time only modulo `2 ^ 32`.  The difference is taken
modulo `2 ^ 32` again when it is reported, so that it is right at every clock value
(`status_of_round_trip`).  The comparison with the clock is not: `future_reply_ignored_iff`
says how little it turns away.

`AcceptsReply` is the acceptance of a reply in one pass, and `sameSample_step` says that a
client's ping stays what it is until the next one.
-/
import UdpConnect.Proofs.Passes
import UdpConnect.Proofs.Replies

namespace UdpConnect

open Memory AlternatingBit UdcServerImpl

/-- Messages that are sent back with their time stamp. -/
def Message.echoed : Message → Option Nat
  | .ping timeStamp => some timeStamp
  | .reliable _ timeStamp _ => some timeStamp
  | _ => none

/-- The pass accepts a reply for the client: it is the client's, and not from the future. -/
def AcceptsReply (r : ClientRef) (time : Milliseconds) (x : UdcServerImpl × Nat) : Prop :=
  ∃ address bytes m timeStamp, datagram x = some (address, bytes) ∧
    decode x.1.packetSignature.bytes bytes = some m ∧ m.answers = some timeStamp ∧
      x.1.clientsByAddress.lookup address = some r ∧ (timeStamp : Milliseconds) ≤ time

/-- A pass of the call accepts a reply for the client. -/
def Op.AcceptsReply (r : ClientRef) (s : UdcServerImpl) : Op → Prop
  | .receiveMessages time => ∃ x ∈ s.turns time, UdpConnect.AcceptsReply r time x
  | _ => False

/-! ### Words -/

section Words

variable {ts tr : Int}

theorem u32_le (h : 0 ≤ ts) : (u32 ts : Int) ≤ ts := by
  unfold u32
  omega

/-- **Truncating twice leaves a difference that fits a word.** -/
theorem u32_sub_u32 (hle : ts ≤ tr) (hlt : tr - ts < 2 ^ 32) :
    u32 (tr - (u32 ts : Int)) = (tr - ts).toNat := by
  unfold u32
  omega

end Words

/-! ### Probes and echoes -/

section Echoes

variable {s : UdcServerImpl} {front bytes : List UInt8} {signature : UdcSignature}
  {m m' : Message} {timeStamp k : Nat} {time : Milliseconds} {p q : Packet}
  {x : UdcServerImpl × Nat} {address : UdcAddressMux}

/-- The body of an echoed message begins with its time stamp. -/
theorem take_body (h : m.echoed = some timeStamp) : m.body.take 4 = le32 timeStamp := by
  cases m with
  | ping t =>
      obtain rfl := Option.some.inj h
      exact List.take_of_length_le (Nat.le_of_eq (length_le32 t))
  | reliable kind t data =>
      obtain rfl := Option.some.inj h
      cases kind with
      | reset => exact List.take_of_length_le (Nat.le_of_eq (length_le32 t))
      | bit b => exact List.take_left' (length_le32 t)
  | _ => cases h

theorem echoed_lt (hwf : m.WF) (h : m.echoed = some timeStamp) : timeStamp < 2 ^ 32 := by
  cases m with
  | ping t =>
      obtain rfl := Option.some.inj h
      exact hwf
  | reliable kind t data =>
      obtain rfl := Option.some.inj h
      cases kind with
      | reset => exact hwf.1
      | bit b => exact hwf
  | _ => cases h

/-- Messages with one id are echoed alike. -/
theorem echoed_of_id (hid : m'.id = m.id) (h : m.echoed = some timeStamp) :
    ∃ timeStamp', m'.echoed = some timeStamp' := by
  cases m with
  | ping t =>
      cases m' with
      | ping t' => exact ⟨t', rfl⟩
      | reliable kind t' data => exact ⟨t', rfl⟩
      | reliableHandshake kind t' => rcases kind with _ | _ | _ <;> cases hid
      | _ => cases hid
  | reliable kind t data =>
      cases m' with
      | ping t' => exact ⟨t', rfl⟩
      | reliable kind' t' data' => exact ⟨t', rfl⟩
      | reliableHandshake kind' t' =>
          rcases kind with _ | _ | _ <;> rcases kind' with _ | _ | _ <;> cases hid
      | _ => rcases kind with _ | _ | _ <;> cases hid
  | _ => cases h

/-- What is read from an echoed message has its time stamp. -/
theorem read_echoed (hfront : front.length = 4) (hlt : timeStamp < 2 ^ 32)
    (h : m.echoed = some timeStamp) (hread : decode signature.bytes (wire front m) = some m') :
    m'.echoed = some timeStamp := by
  obtain ⟨hid, hbody⟩ := decode_wire hfront hread
  obtain ⟨-, hwf⟩ := encode_of_decode hread
  obtain ⟨timeStamp', h'⟩ := echoed_of_id hid h
  have hword : le32 timeStamp' = (le32 timeStamp).take (u32 (encode front m).length - 5) := by
    rw [← take_body h', hbody, ← take_body h, List.take_take, List.take_take, Nat.min_comm]
  -- the fragment that was sent is long enough to hold a word
  have hwhole : le32 timeStamp' = le32 timeStamp := by
    have hlen := congrArg List.length hword
    rw [List.length_take, length_le32, length_le32] at hlen
    rw [hword]
    exact List.take_of_length_le (by rw [length_le32]; omega)
  rw [h', le32_injective (echoed_lt hwf h') hlt hwhole]

/-- A datagram that a tick sends is read with the time of the tick. -/
theorem echoed_of_tick {t t' : UdcServerImpl} {order : List UdcEndPointId} (hready : Ready t)
    (hstage : Stage (.updateClientConnectionStatus time order) t t') : ∃ new,
    t'.socket.history.sent = t.socket.history.sent ++ new ∧
      ∀ p ∈ new, ∀ (reader : UdcSignature) m, decode reader.bytes p.bytes = some m →
        m.echoed = some (u32 time) := by
  obtain ⟨new, got, hsent, -, horigin⟩ := stage_origin hready hstage
  refine ⟨new, hsent, ?_⟩
  intro p hp reader m hread
  cases horigin p hp with
  | reply hop hgot hread' hsend hbytes => cases hop
  | @asked c m₀ hasks hsend hbytes =>
      rw [hbytes] at hread
      refine read_echoed length_front (u32_lt time) ?_ hread
      cases hasks with
      | tick time order endPointId =>
          obtain ⟨r, -, -, hping | hreliable⟩ := tick_sends hsend
          · obtain rfl : m₀ = .ping (u32 time) := hping
            rfl
          · rcases mem_sendReliable hreliable with ⟨-, rfl⟩ | ⟨-, msg, -, rfl⟩ <;> rfl

/-- **Whatever a tick sends is read with the time of the tick, modulo `2 ^ 32`.** -/
theorem echoed_of_sent {order : List UdcEndPointId} (hready : Ready s)
    (hadm : (Op.updateClientConnectionStatus time order).Admissible s)
    (hp : p ∈ newSent s (step s (.updateClientConnectionStatus time order)).1)
    (hread : decode signature.bytes p.bytes = some m) : m.echoed = some (u32 time) := by
  exact newSent_stages (Q := fun p => ∀ (reader : UdcSignature) m,
    decode reader.bytes p.bytes = some m → m.echoed = some (u32 time)) hready hadm
      (fun _ _ hready hstage => echoed_of_tick hready hstage) p hp signature m hread

/-- What a message is answered with, if it is echoed. -/
theorem answers_of_echoed (h : m.echoed = some timeStamp) {y : UdcAddressMux × Message}
    {p : Protocol} (hy : y ∈ (p.handle address time m).sends) :
    y.1 = address ∧ y.2.answers = some timeStamp := by
  cases m with
  | ping t =>
      obtain rfl := Option.some.inj h
      rw [List.mem_singleton.mp hy]
      exact ⟨rfl, rfl⟩
  | reliable kind t data =>
      obtain rfl := Option.some.inj h
      cases kind <;> rw [List.mem_singleton.mp hy] <;> exact ⟨rfl, rfl⟩
  | _ => cases h

/-- What a pass sends answers the datagram it has received. -/
theorem sent_of_pass (hcap : Capacity x.1.messageBuffer x.2)
    (hd : datagram x = some (address, bytes)) (hq : q ∈ newSent x.1 (pass time x).1) :
    ∃ m y, decode x.1.packetSignature.bytes bytes = some m ∧
      y ∈ (x.1.protocol.handle address time m).sends ∧ q.address = y.1 ∧
        q.bytes = encode x.1.packetSignature.bytes y.2 := by
  obtain ⟨packet, rfl, rfl, hturn⟩ := turn_of_pass time hcap hd
  rw [newSent_eq hturn.sent] at hq
  obtain ⟨y, hy, rfl⟩ := List.mem_map.mp hq
  unfold Protocol.react at hy
  cases hm : decode x.1.packetSignature.bytes packet.bytes with
  | none =>
      rw [hm] at hy
      cases hy
  | some m =>
      rw [hm] at hy
      exact ⟨m, y, rfl, hy, rfl, rfl⟩

end Echoes

/-! ### The client's ping -/

/-- The sample that the last accepted reply has left. -/
structure SameSample (c c' : UdcClient) : Prop where
  ping : c'.ping = c.ping
  pingLastSetTime : c'.pingLastSetTime = c.pingLastSetTime

section Samples

variable {s : UdcServerImpl} {p : Protocol} {r : ClientRef} {time : Milliseconds} {op : Op}
  {c c' : UdcClient} {x : UdcServerImpl × Nat} {address : UdcAddressMux} {bytes : List UInt8}
  {m : Message} {timeStamp : Nat}

theorem SameSample.refl (c : UdcClient) : SameSample c c := ⟨rfl, rfl⟩

theorem SameSample.trans {c'' : UdcClient} (h : SameSample c c') (h' : SameSample c' c'') :
    SameSample c c'' := ⟨h'.ping.trans h.ping, h'.pingLastSetTime.trans h.pingLastSetTime⟩

/-- Only a reply sets the ping. -/
theorem sameSample_step {change : Change} (h : p.ClientStep r change c)
    (hno : ∀ address time m, change = .handle address time m → ∀ timeStamp,
      m.answers = some timeStamp → p.clientsByAddress.lookup address = some r →
        ¬ (timeStamp : Milliseconds) ≤ time) : SameSample (p.heap r) c := by
  cases h with
  | same => exact .refl _
  | push => exact ⟨rfl, rfl⟩
  | retry hfront hearly hdue => exact ⟨rfl, rfl⟩
  | @turn _ time hlookup =>
      obtain ⟨state, sent, connected, h⟩ := turned_only (p.heap r) time
      rw [h]
      exact ⟨rfl, rfl⟩
  | handshake h =>
      rw [receiveConnectionHandshake_eq]
      exact ⟨rfl, rfl⟩
  | pong h => exact absurd h.2 (hno _ _ _ rfl _ rfl h.1)
  | reliableHandshake h => exact absurd h.2 (hno _ _ _ rfl _ rfl h.1)

/-- What a pass makes of the protocol: nothing, or what the message does that it has read. -/
theorem protocol_pass (time : Milliseconds) (hcap : Capacity x.1.messageBuffer x.2) :
    (pass time x).1.protocol = x.1.protocol ∨ ∃ address bytes m,
      datagram x = some (address, bytes) ∧ decode x.1.packetSignature.bytes bytes = some m ∧
        (pass time x).1.protocol = (x.1.protocol.handle address time m).state := by
  cases hd : datagram x with
  | none => exact Or.inl (lastTurn_of_pass time hcap hd).1.state
  | some d =>
      obtain ⟨address, bytes⟩ := d
      obtain ⟨packet, rfl, rfl, hturn⟩ := turn_of_pass time hcap hd
      rcases protocol_turn hturn with ⟨-, hstate⟩ | ⟨m, hm, hstate⟩
      · exact Or.inl hstate
      · exact Or.inr ⟨_, _, m, rfl, hm, hstate⟩

/-- What every change keeps that is not an accepted reply. -/
def KeptUnanswered (r : ClientRef) (R : UdcClient → UdcClient → Prop) : Prop :=
  ∀ (p : Protocol) (change : Change) (c : UdcClient), p.ClientStep r change c →
    (∀ address time m, change = .handle address time m → ∀ timeStamp,
      m.answers = some timeStamp → p.clientsByAddress.lookup address = some r →
        ¬ (timeStamp : Milliseconds) ≤ time) → R (p.heap r) c

section Unanswered

variable {R : UdcClient → UdcClient → Prop}

theorem unanswered_pass (hrefl : ∀ c, R c c) (hkept : KeptUnanswered r R)
    (hcap : Capacity x.1.messageBuffer x.2) (hno : ¬ AcceptsReply r time x) :
    R (x.1.heap r) ((pass time x).1.heap r) := by
  rcases protocol_pass time hcap with hstate | ⟨address, bytes, m, hd, hm, hstate⟩
  · have hheap : (pass time x).1.heap = x.1.heap := congrArg Protocol.heap hstate
    rw [hheap]
    exact hrefl _
  · have hheap : (pass time x).1.heap = _ := congrArg Protocol.heap hstate
    rw [hheap]
    refine hkept _ _ _ (handle_step x.1.protocol r address time m) ?_
    intro address' time' m' hchange timeStamp hanswers hlookup htime
    cases hchange
    exact hno ⟨address, bytes, m, timeStamp, hd, hm, hanswers, hlookup, htime⟩

/-- **A call that accepts no reply for a client keeps it so.** -/
theorem unanswered_call (hrefl : ∀ c, R c c) (htrans : ∀ c c' c'', R c c' → R c' c'' → R c c'')
    (hkept : KeptUnanswered r R) (hadm : op.Admissible s) (hr : r < s.nextRef)
    (hno : ¬ op.AcceptsReply r s) : R (s.heap r) ((step s op).1.heap r) := by
  by_cases hreceive : ∃ time, op = .receiveMessages time
  · obtain ⟨time, rfl⟩ := hreceive
    refine receiveMessages_keeps (P := fun t => R (s.heap r) (t.heap r)) (hrefl _) ?_
    intro y hy hR
    exact htrans _ _ _ hR
      (unanswered_pass hrefl hkept (turns_capacity hy) fun h => hno ⟨y, hy, h⟩)
  · refine (step_stages (P := fun t => r < t.nextRef ∧ R (s.heap r) (t.heap r)) hadm ?_
      ⟨hr, hrefl _⟩).2
    rintro t t' ⟨hlt, hR⟩ hstage
    cases hstage with
    | quiet h =>
        have hheap : t'.heap = t.heap := congrArg Protocol.heap h.state
        have hnext : t'.nextRef = t.nextRef := congrArg Protocol.nextRef h.state
        rw [hheap, hnext]
        exact ⟨hlt, hR⟩
    | @call change event reaction hasks hperf hstate hsends =>
        have hstate := hperf.state.trans hstate
        have hheap : t'.heap = _ := congrArg Protocol.heap hstate
        have hnext : t'.nextRef = _ := congrArg Protocol.nextRef hstate
        rw [hheap, hnext]
        refine ⟨Nat.lt_of_lt_of_le hlt (nextRef_change t.protocol _), htrans _ _ _ hR ?_⟩
        refine hkept _ _ _ (client_step (p := t.protocol) change fun _ => hlt) ?_
        intro address time m hchange
        subst hchange
        cases hasks
    | turn hop hturn => exact absurd ⟨_, hop⟩ hreceive

end Unanswered

theorem sameSample_pass (hcap : Capacity x.1.messageBuffer x.2) (hno : ¬ AcceptsReply r time x) :
    SameSample (x.1.heap r) ((pass time x).1.heap r) :=
  unanswered_pass .refl (fun _ _ _ => sameSample_step) hcap hno

/-- **A client keeps its ping through every call that accepts no reply for it.** -/
theorem sameSample_call (hadm : op.Admissible s) (hr : r < s.nextRef)
    (hno : ¬ op.AcceptsReply r s) : SameSample (s.heap r) ((step s op).1.heap r) :=
  unanswered_call .refl (fun _ _ _ => .trans) (fun _ _ _ => sameSample_step) hadm hr hno

/-- What a message makes of the client whose reply it is. -/
theorem heap_answer (hanswers : m.answers = some timeStamp)
    (hlookup : p.clientsByAddress.lookup address = some r)
    (htime : (timeStamp : Milliseconds) ≤ time) : ∃ state sent queue,
    (p.handle address time m).state.heap r = { p.heap r with
      reliableState := state
      reliableSentTime := sent
      reliableMessages := queue
      isConnected := true
      ping := time - timeStamp
      pingLastSetTime := time
      lastReceivedTime := time } := by
  cases m with
  | pong t =>
      obtain rfl := Option.some.inj hanswers
      refine ⟨(p.heap r).reliableState, (p.heap r).reliableSentTime,
        (p.heap r).reliableMessages, ?_⟩
      simp only [Protocol.handle, Protocol.answer, hlookup, if_neg (not_lt.mpr htime),
        Protocol.heap_setClient_self, receivePong_eq]
      rfl
  | reliableHandshake kind t =>
      obtain rfl := Option.some.inj hanswers
      obtain ⟨state, sent, queue, h⟩ := acceptHandshake_only (p.heap r) (stateOf kind)
      refine ⟨state, sent, queue, ?_⟩
      simp only [Protocol.handle, Protocol.answer, hlookup, if_neg (not_lt.mpr htime),
        Protocol.heap_setClient_self, receivePong_eq, h]
  | _ => cases hanswers

/-- What the pass that accepts a reply makes of the client. -/
theorem heap_of_reply (hcap : Capacity x.1.messageBuffer x.2)
    (hd : datagram x = some (address, bytes))
    (hm : decode x.1.packetSignature.bytes bytes = some m) (hanswers : m.answers = some timeStamp)
    (hlookup : x.1.clientsByAddress.lookup address = some r)
    (htime : (timeStamp : Milliseconds) ≤ time) : ∃ state sent queue,
    (pass time x).1.heap r = { x.1.heap r with
      reliableState := state
      reliableSentTime := sent
      reliableMessages := queue
      isConnected := true
      ping := time - timeStamp
      pingLastSetTime := time
      lastReceivedTime := time } := by
  obtain ⟨packet, rfl, rfl, hturn⟩ := turn_of_pass time hcap hd
  rcases protocol_turn hturn with ⟨hnone, -⟩ | ⟨m', hm', hstate⟩
  · rw [hm] at hnone
    cases hnone
  · obtain rfl := Option.some.inj (hm.symm.trans hm')
    have hheap : (pass time x).1.heap = _ := congrArg Protocol.heap hstate
    rw [hheap]
    exact heap_answer (p := x.1.protocol) hanswers hlookup htime

/-- Receiving never loses a connection. -/
theorem isConnected_pass (hcap : Capacity x.1.messageBuffer x.2)
    (h : (x.1.heap r).isConnected = true) : ((pass time x).1.heap r).isConnected = true := by
  rcases protocol_pass time hcap with hstate | ⟨address, bytes, m, -, -, hstate⟩
  · have hheap : (pass time x).1.heap = x.1.heap := congrArg Protocol.heap hstate
    rw [hheap]
    exact h
  · have hheap : (pass time x).1.heap = _ := congrArg Protocol.heap hstate
    have hstep := handle_step x.1.protocol r address time m
    rw [hheap]
    generalize (x.1.protocol.handle address time m).state.heap r = c at hstep
    cases hstep with
    | same => exact h
    | handshake hrefresh => rw [receiveConnectionHandshake_eq]
    | pong hrefresh => rw [receivePong_eq]
    | reliableHandshake hrefresh => rw [receivePong_eq]

end Samples

/-! ### Round trips -/

/-- An echo, by a server with this signature, of a datagram that a tick at `ts` has sent. -/
def Echo (signature : UdcSignature) (ts : Milliseconds) (q : Packet) : Prop :=
  ∃ (buffer buffer' : MessageBuffer) (trace trace' : List (Op × Outcome)) (a b : UdcServerImpl)
    (order : List UdcEndPointId) (p : Packet) (tb : Milliseconds) (y : UdcServerImpl × Nat)
    (source : UdcAddressMux),
    ServerRun signature buffer trace a ∧
    (Op.updateClientConnectionStatus ts order).Admissible a ∧
    p ∈ newSent a (step a (.updateClientConnectionStatus ts order)).1 ∧
    ServerRun signature buffer' trace' b ∧ y ∈ b.turns tb ∧ datagram y = some (source, p.bytes) ∧
    q ∈ newSent y.1 (pass tb y).1

section RoundTrips

variable {signature : UdcSignature} {buffer : MessageBuffer} {trace : List (Op × Outcome)}
  {s c : UdcServerImpl} {ops : List Op} {r : ClientRef} {time ts tr : Milliseconds} {q : Packet}
  {x z : UdcServerImpl × Nat} {before after : List (UdcServerImpl × Nat)}
  {address : UdcAddressMux} {bytes : List UInt8} {m : Message} {timeStamp : Nat}

theorem ready_reachable (run : ServerRun signature buffer trace s) :
    Ready s ∧ s.packetSignature = signature := by
  refine run.preserves (P := fun t => Ready t ∧ t.packetSignature = signature)
    ⟨ready_new signature buffer, rfl⟩ ?_
  rintro t ⟨op, outcome⟩ t' h ⟨hadm, hstep⟩
  have hkeep := step_stages (P := fun t => Ready t ∧ t.packetSignature = signature) hadm
    (fun _ _ h hstage => ⟨ready_stage h.1 hstage, hstage.signature.trans h.2⟩) h
  rw [hstep] at hkeep
  exact hkeep

theorem answers_WF (hlt : timeStamp < 2 ^ 32) (h : m.answers = some timeStamp) : m.WF := by
  cases m with
  | pong t =>
      obtain rfl := Option.some.inj h
      exact hlt
  | reliableHandshake kind t =>
      obtain rfl := Option.some.inj h
      exact hlt
  | _ => cases h

/-- An echo is a reply with the time of the tick, modulo `2 ^ 32`. -/
theorem reply_of_echo (h : Echo signature ts q) :
    ∃ m, decode signature.bytes q.bytes = some m ∧ m.answers = some (u32 ts) := by
  obtain ⟨buffer, buffer', trace, trace', a, b, order, p, tb, y, source, ha, hadm, hp, hb, hy, hd,
    hq⟩ := h
  obtain ⟨m, x, hm, hx, -, hbytes⟩ := sent_of_pass (turns_capacity hy) hd hq
  have hsignature := (turns_signature hy).trans (ready_reachable hb).2
  obtain ⟨-, hanswers⟩ := answers_of_echoed (echoed_of_sent (ready_reachable ha).1 hadm hp hm) hx
  refine ⟨x.2, ?_, hanswers⟩
  rw [hbytes, hsignature]
  exact decode_encode signature.size (answers_WF (u32_lt ts) hanswers)

theorem stage_pass (time : Milliseconds) (hcap : Capacity x.1.messageBuffer x.2) :
    Stage (.receiveMessages time) x.1 (pass time x).1 := by
  cases hd : datagram x with
  | none =>
      have hlast := (lastTurn_of_pass time hcap hd).1
      exact .quiet ⟨hlast.state, hlast.signature, hlast.size, hlast.sent, hlast.received⟩
  | some d =>
      obtain ⟨address, bytes⟩ := d
      obtain ⟨packet, -, -, hturn⟩ := turn_of_pass time hcap hd
      exact .turn rfl hturn

theorem nextRef_le_stage {s' : UdcServerImpl} {op : Op} (hstage : Stage op s s') :
    s.nextRef ≤ s'.nextRef := by
  rcases hstage.state with hstate | ⟨change, hstate, -⟩
  · exact Nat.le_of_eq (congrArg Protocol.nextRef hstate).symm
  · have hnext : s'.nextRef = _ := congrArg Protocol.nextRef hstate
    rw [hnext]
    exact nextRef_change s.protocol change

/-- **A client keeps its ping through a run that accepts no reply for it.** -/
theorem sameSample_run (ops : List Op) : ∀ s, r < s.nextRef →
    Throughout (fun s op => op.Admissible s ∧ ¬ op.AcceptsReply r s) s ops →
      SameSample (s.heap r) ((runState s ops).heap r) := by
  induction ops with
  | nil =>
      intro s _ _
      exact .refl _
  | cons op ops ih =>
      intro s hr h
      have hlt : r < (step s op).1.nextRef := step_stages (P := fun t => r < t.nextRef) h.1.1
        (fun _ _ hr hstage => Nat.lt_of_lt_of_le hr (nextRef_le_stage hstage)) hr
      exact (sameSample_call h.1.1 hr h.1.2).trans (ih _ hlt h.2)

/-- What a client holds whose latest reply was accepted in this pass. -/
structure Sampled (r : ClientRef) (ping : Milliseconds) (s : UdcServerImpl) : Prop where
  lt : r < s.nextRef
  isConnected : (s.heap r).isConnected = true
  ping : (s.heap r).ping = ping

theorem sampled_call {ping : Milliseconds} (hturns : s.turns time = before ++ z :: after)
    (hz : Sampled r ping (pass time z).1) (hlatest : ∀ y ∈ after, ¬ AcceptsReply r time y) :
    Sampled r ping (s.receiveMessages time).1 := by
  refine receiveMessages_from hturns hz ?_
  intro y hy hsampled
  have hmem : y ∈ s.turns time := by
    rw [hturns]
    exact List.mem_append_right _ (List.mem_cons_of_mem _ hy)
  have hcap := turns_capacity hmem
  exact ⟨Nat.lt_of_lt_of_le hsampled.lt (nextRef_le_stage (stage_pass time hcap)),
    isConnected_pass hcap hsampled.isConnected,
    (sameSample_pass hcap (hlatest y hy)).ping.trans hsampled.ping⟩

/--
**The reported ping is the time from the tick that asked to the arrival of the reply**, for as
long as no later reply is accepted, wherever the two times lie.
-/
theorem status_of_round_trip (run : ServerRun signature buffer trace c) (hpos : 0 ≤ ts)
    (hle : ts ≤ tr) (hlt : tr - ts < 2 ^ 32) (hecho : Echo signature ts q)
    (hturns : c.turns tr = before ++ z :: after) (hreply : datagram z = some (address, q.bytes))
    (hclient : z.1.clientsByAddress.lookup address = some r)
    (hlatest : ∀ y ∈ after, ¬ AcceptsReply r tr y)
    (hops : Throughout (fun s op => op.Admissible s ∧ ¬ op.AcceptsReply r s)
      (c.receiveMessages tr).1 ops) :
    AcceptsReply r tr z ∧ ((c.receiveMessages tr).1.heap r).isConnected = true ∧
      ∀ id, (runState (c.receiveMessages tr).1 ops).clientsById.lookup id = some r →
        ((runState (c.receiveMessages tr).1 ops).heap r).isConnected = true →
          udcGetStatus (runState (c.receiveMessages tr).1 ops) id = some (tr - ts).toNat := by
  obtain ⟨hready, hsignature⟩ := ready_reachable run
  have hz : z ∈ c.turns tr := by
    rw [hturns]
    exact List.mem_append_right _ List.mem_cons_self
  have hcap := turns_capacity hz
  obtain ⟨m, hm, hanswers⟩ := reply_of_echo hecho
  rw [← hsignature, ← turns_signature hz] at hm
  have htime : (u32 ts : Milliseconds) ≤ tr := le_trans (u32_le hpos) hle
  obtain ⟨state, sent, queue, hclient'⟩ := heap_of_reply hcap hreply hm hanswers hclient htime
  have hconnected : ((pass tr z).1.heap r).isConnected = true := by rw [hclient']
  have hping : ((pass tr z).1.heap r).ping = tr - (u32 ts : Milliseconds) := by rw [hclient']
  -- the client is one that the call has found
  have hroot : Rooted z.1.protocol := by
    refine turns_reach (P := fun t => Rooted t.protocol) hturns hready.rooted ?_
    intro y hy hroot
    have hmem : y ∈ c.turns tr := by
      rw [hturns]
      exact List.mem_append_left _ hy
    exact rooted_stage hroot (stage_pass tr (turns_capacity hmem))
  have hnew : r < (pass tr z).1.nextRef :=
    Nat.lt_of_lt_of_le (hroot.byAddress _ _ hclient) (nextRef_le_stage (stage_pass tr hcap))
  have hcall := sampled_call hturns ⟨hnew, hconnected, hping⟩ hlatest
  refine ⟨⟨address, q.bytes, m, u32 ts, hreply, hm, hanswers, hclient, htime⟩,
    hcall.isConnected, ?_⟩
  intro id hid hstill
  have hkept := (sameSample_run ops _ hcall.lt hops).ping.trans hcall.ping
  unfold udcGetStatus UdcServerImpl.getEndPointStatus UdcServerImpl.tryGetClientById
  rw [hid]
  simp only [if_pos hstill, Option.map_some]
  rw [hkept]
  exact congrArg some (u32_sub_u32 hle hlt)

/-- A time just before a multiple of `2 ^ 32`. -/
def wrapTime : Milliseconds := 2 ^ 40 + 2 ^ 32 - 5

/-- What the peer sends back to `10.0.0.1:1` for a ping of this time. -/
def wrapPong : Packet := ⟨⟨.ipv4 (exampleIP 1), 1⟩, [1, 2, 3, 4, 3, 251, 255, 255, 255], default⟩

/-- The peer, at whose socket the ping waits. -/
def pingedOps : List Op :=
  [.tryBindIPv4 true, .arriveIPv4 0 (.datagram
    ⟨exampleIP 1, 1, [1, 2, 3, 4, 2, 251, 255, 255, 255], default⟩)]

/-- The server that has sent the ping, at whose socket the pong waits. -/
def pongedOps : List Op :=
  connectedOps ++ [.updateClientConnectionStatus wrapTime [1],
    .arriveIPv4 0 (.datagram ⟨exampleIP 2, 2, wrapPong.bytes, default⟩)]

theorem echo_wrapPong : Echo exampleSignature wrapTime wrapPong :=
  ⟨exampleBuffer, exampleBuffer, _, _, runState exampleServer connectedOps,
    runState exampleServer pingedOps, [1],
    ⟨⟨.ipv4 (exampleIP 2), 2⟩, [1, 2, 3, 4, 2, 251, 255, 255, 255], default⟩, 7,
    (runState exampleServer pingedOps, 16), ⟨.ipv4 (exampleIP 1), 1⟩,
    run_of_admissible connectedOps (by decide +kernel), by decide +kernel, by decide +kernel,
    run_of_admissible pingedOps (by decide +kernel), List.mem_cons_self, by decide +kernel,
    by decide +kernel⟩

theorem status_wrapPong :
    udcGetStatus ((runState exampleServer pongedOps).receiveMessages (wrapTime + 20)).1 1
      = some 20 := by
  have hquiet : ∀ y ∈ ((runState exampleServer pongedOps).turns (wrapTime + 20)).tail,
      datagram y = none := by decide +kernel
  have hlatest : ∀ y ∈ ((runState exampleServer pongedOps).turns (wrapTime + 20)).tail,
      ¬ AcceptsReply 0 (wrapTime + 20) y := by
    rintro y hy ⟨address, bytes, m, timeStamp, hd, -⟩
    rw [hquiet y hy] at hd
    cases hd
  have hturns : (runState exampleServer pongedOps).turns (wrapTime + 20)
      = [] ++ (runState exampleServer pongedOps, 16) ::
        ((runState exampleServer pongedOps).turns (wrapTime + 20)).tail := rfl
  have hreply : datagram (runState exampleServer pongedOps, 16)
      = some (⟨.ipv4 (exampleIP 2), 2⟩, wrapPong.bytes) := by decide +kernel
  have hops : Throughout (fun s op => op.Admissible s ∧ ¬ op.AcceptsReply 0 s)
    ((runState exampleServer pongedOps).receiveMessages (wrapTime + 20)).1 [] := trivial
  obtain ⟨-, hconnected, hstatus⟩ := status_of_round_trip
    (run_of_admissible pongedOps (by decide +kernel)) (by decide) (by decide) (by decide)
    echo_wrapPong hturns hreply (by decide +kernel) hlatest hops
  exact hstatus 1 (by decide +kernel) hconnected

end RoundTrips

/-! ### Replies from the future -/

/-- The pass leaves the client as it is, and reports nothing. -/
def Ignored (r : ClientRef) (time : Milliseconds) (x : UdcServerImpl × Nat) : Prop :=
  (pass time x).1.heap r = x.1.heap r ∧ (pass time x).2 = none

/-- The client holds already what the reply would leave it with. -/
structure UdcClient.Holds (c : UdcClient) (m : Message) (timeStamp : Nat) (time : Milliseconds) :
    Prop where
  isConnected : c.isConnected = true
  ping : c.ping = time - timeStamp
  pingLastSetTime : c.pingLastSetTime = time
  lastReceivedTime : c.lastReceivedTime = time
  reliableState : ∀ kind timeStamp', m = .reliableHandshake kind timeStamp' →
    c.reliableState ≠ stateOf kind

section Future

variable {s : UdcServerImpl} {p : Protocol} {r : ClientRef} {time ts tr : Milliseconds}
  {x : UdcServerImpl × Nat} {address : UdcAddressMux} {m : Message} {timeStamp : Nat}
  {c : UdcClient}

/-- A handshake of the client's own state changes that state. -/
theorem acceptHandshake_eq_iff {kind : Kind} :
    (c.acceptHandshake (stateOf kind)).reliableState = c.reliableState ↔
      c.reliableState ≠ stateOf kind := by
  unfold UdcClient.acceptHandshake
  by_cases h : stateOf kind = c.reliableState
  · have hother : (if stateOf kind = 0 then (1 : Int) else 0) ≠ stateOf kind := by
      rcases kind with _ | _ | _ <;> decide
    rw [if_pos h, ← h]
    simp only [UdcClient.resetSendReliable, UdcClient.setReliableState, ne_eq, not_true_eq_false,
      iff_false]
    exact hother
  · rw [if_neg h]
    exact iff_of_true rfl (Ne.symm h)

theorem acceptHandshake_of_ne {kind : Kind} (h : c.reliableState ≠ stateOf kind) :
    c.acceptHandshake (stateOf kind) = c := by
  unfold UdcClient.acceptHandshake
  exact if_neg (Ne.symm h)

theorem receivePong_of_holds (hconn : c.isConnected = true) (hping : c.ping = time - timeStamp)
    (hset : c.pingLastSetTime = time) (hreceived : c.lastReceivedTime = time) :
    c.receivePong timeStamp time = (c, false) := by
  obtain ⟨id, state, messages, connected, address, period, timeout, lost, attempt, reliable, ping,
    set, received, sent, first, prev⟩ := c
  simp only at hconn hping hset hreceived
  subst hconn hping hset hreceived
  rfl

/-- An accepted reply leaves the client as it is exactly if it has nothing new for it. -/
theorem handle_answer_iff (hanswers : m.answers = some timeStamp)
    (hlookup : p.clientsByAddress.lookup address = some r)
    (htime : (timeStamp : Milliseconds) ≤ time) :
    ((p.handle address time m).state.heap r = p.heap r ∧ (p.handle address time m).report = none) ↔
      (p.heap r).Holds m timeStamp time := by
  constructor
  · rintro ⟨hsame, -⟩
    obtain ⟨state, sent, queue, h⟩ := heap_answer hanswers hlookup htime
    rw [hsame] at h
    refine ⟨by rw [h], by rw [h], by rw [h], by rw [h], ?_⟩
    rintro kind timeStamp' rfl
    obtain rfl := Option.some.inj hanswers
    rw [← acceptHandshake_eq_iff]
    simp only [Protocol.handle, Protocol.answer, hlookup, if_neg (not_lt.mpr htime),
      Protocol.heap_setClient_self, receivePong_eq] at hsame
    have hstate := congrArg UdcClient.reliableState hsame
    exact hstate
  · rintro ⟨hconn, hping, hset, hreceived, hstate⟩
    have hpong := receivePong_of_holds hconn hping hset hreceived
    cases m with
    | pong t =>
        obtain rfl := Option.some.inj hanswers
        simp only [Protocol.handle, Protocol.answer, hlookup, if_neg (not_lt.mpr htime),
          Protocol.heap_setClient_self, id_eq, hpong]
        exact ⟨trivial, rfl⟩
    | reliableHandshake kind t =>
        obtain rfl := Option.some.inj hanswers
        simp only [Protocol.handle, Protocol.answer, hlookup, if_neg (not_lt.mpr htime),
          Protocol.heap_setClient_self, acceptHandshake_of_ne (hstate kind _ rfl), hpong]
        exact ⟨trivial, rfl⟩
    | _ => cases hanswers

/-- A reply whose word is ahead of the clock is turned away. -/
theorem handle_early (hanswers : m.answers = some timeStamp)
    (htime : time < (timeStamp : Milliseconds)) : p.handle address time m = p.idle := by
  cases m with
  | pong t =>
      obtain rfl := Option.some.inj hanswers
      simp only [Protocol.handle, Protocol.answer, if_pos htime]
      split <;> rfl
  | reliableHandshake kind t =>
      obtain rfl := Option.some.inj hanswers
      simp only [Protocol.handle, Protocol.answer, if_pos htime]
      split <;> rfl
  | _ => cases hanswers

theorem ignored_iff_handle (hx : x ∈ s.turns time) (hwf : m.WF)
    (hd : datagram x = some (address, encode s.packetSignature.bytes m)) :
    Ignored r time x ↔ (x.1.protocol.handle address time m).state.heap r = x.1.heap r ∧
      (x.1.protocol.handle address time m).report = none := by
  obtain ⟨packet, rfl, hbytes, hturn⟩ := turn_of_pass time (turns_capacity hx) hd
  have hreact : x.1.protocol.react x.1.packetSignature time packet
      = x.1.protocol.handle packet.address time m := by
    unfold Protocol.react
    rw [hbytes, turns_signature hx, decode_encode s.packetSignature.size hwf]
  have hheap : (pass time x).1.heap = _ := congrArg Protocol.heap hturn.state
  have hreport := hturn.report
  rw [hreact] at hheap hreport
  rw [Ignored, hheap, ← hreport, Option.map_eq_none_iff]

/--
**A reply to a message of the future is ignored exactly if the word it carries is ahead of
the clock**, which the time it was truncated from being ahead does not say, or has nothing
new for the client.
-/
theorem future_reply_ignored_iff (hx : x ∈ s.turns tr)
    (hd : datagram x = some (address, encode s.packetSignature.bytes m))
    (hm : m.answers = some (u32 ts)) (hlookup : x.1.clientsByAddress.lookup address = some r) :
    (tr < ts → Ignored r tr x) ↔
      ¬ (tr < ts ∧ (u32 ts : Milliseconds) ≤ tr ∧ ¬ (x.1.heap r).Holds m (u32 ts) tr) := by
  rw [ignored_iff_handle hx (answers_WF (u32_lt ts) hm) hd]
  constructor
  · rintro h ⟨hlate, hword, hnew⟩
    exact hnew ((handle_answer_iff hm hlookup hword).mp (h hlate))
  · intro h hlate
    by_cases hword : (u32 ts : Milliseconds) ≤ tr
    · apply (handle_answer_iff hm hlookup hword).mpr
      by_contra hnew
      exact h ⟨hlate, hword, hnew⟩
    · rw [handle_early hm (not_le.mp hword)]
      exact ⟨rfl, rfl⟩

/-- A pong for a ping that was sent at `2 ^ 40 + 5` reaches a server whose clock has been set
back to `2 ^ 40`. -/
def setBackOps : List Op :=
  connectedOps ++
    [.arriveIPv4 0 (.datagram ⟨exampleIP 2, 2, [1, 2, 3, 4, 3, 5, 0, 0, 0], default⟩)]

theorem future_reply_accepted : ¬ ∀ (s : UdcServerImpl) (ts tr : Milliseconds)
    (x : UdcServerImpl × Nat) (address : UdcAddressMux) (m : Message) (r : ClientRef),
    (∃ trace, ServerRun exampleSignature exampleBuffer trace s) → x ∈ s.turns tr →
      datagram x = some (address, encode s.packetSignature.bytes m) →
        m.answers = some (u32 ts) → x.1.clientsByAddress.lookup address = some r →
          tr < ts → Ignored r tr x := by
  intro h
  have hignored := h (runState exampleServer setBackOps) (2 ^ 40 + 5) (2 ^ 40)
    (runState exampleServer setBackOps, 16) ⟨.ipv4 (exampleIP 2), 2⟩ (.pong 5) 0
    ⟨_, run_of_admissible setBackOps (by decide +kernel)⟩ List.mem_cons_self (by decide +kernel)
    (by decide +kernel) (by decide +kernel) (by decide)
  have hping := congrArg UdcClient.ping hignored.1
  revert hping
  decide +kernel

/-- The same pong, at a server whose clock has been set back to the time it started at. -/
theorem future_reply_turned_away :
    Ignored 0 4 (runState exampleServer setBackOps, 16) := by
  have hx : (runState exampleServer setBackOps, 16)
      ∈ (runState exampleServer setBackOps).turns 4 := List.mem_cons_self
  have hd : datagram (runState exampleServer setBackOps, 16) = some (⟨.ipv4 (exampleIP 2), 2⟩,
      encode (runState exampleServer setBackOps).packetSignature.bytes (.pong 5)) := by
    decide +kernel
  have hm : (Message.pong 5).answers = some (u32 5) := by decide
  refine (future_reply_ignored_iff hx hd hm (by decide +kernel)).mpr ?_ (by decide)
  rintro ⟨-, hword, -⟩
  revert hword
  decide

end Future

end UdpConnect
