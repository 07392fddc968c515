/-
What is sent to an endpoint whose connection is lost.

`sendUnreliableMessage` asks whether the client is connected, and sends nothing if it is
not.  `sendReliableMessage` only queues, and the tick, which sends what is queued, does
not ask.  `withholds_iff` is about the calls from a lost connection on, for as long as
it is not regained: nothing of the application's is sent exactly if no tick finds
something in the queue that is not to be reset.  The queue itself keeps every message.
-/
import UdpConnect.Proofs.Timer

namespace UdpConnect

open Memory AlternatingBit Past UdcServerImpl

/-- The kinds of message that carry the application's data. -/
def payloadIds : List UdcMessageId := [.unreliable, .reliable0, .reliable1]

/-- The call hands data of the application to the socket for this client. -/
def Op.SendsPayload (r : ClientRef) (s : UdcServerImpl) (op : Op) : Prop :=
  match op with
  | .updateClientConnectionStatus time order =>
      (Op.updateClientConnectionStatus time order).SendsKind payloadIds r s
  | .sendMessage endPointId _ _ => s.clientsById.lookup endPointId = some r ∧
      ∃ packet ∈ newSent s (next s op), packet.IsOf payloadIds
  | op => ∃ packet ∈ newSent s (next s op),
      packet.address = (s.heap r).outgoingAddress ∧ packet.IsOf payloadIds

/-- The call is a tick with a turn for the client, which finds a message to send. -/
def Op.FindsMessage (r : ClientRef) (s : UdcServerImpl) : Op → Prop
  | .updateClientConnectionStatus time order =>
      (Op.updateClientConnectionStatus time order).Visits r s ∧
        (s.heap r).reliableMessages ≠ [] ∧ (s.heap r).reliableState ≠ -1 ∧
          (s.heap r).needsReliableReset time = false
  | _ => False

/-- In these calls nothing of the queue is sent, and nothing is lost from it, until the
connection is there again. -/
structure Course.Withholds (w : Course) (ops : List Op) : Prop where
  silent : Throughout (fun s op => ¬ op.SendsPayload w.client.ref s) w.now ops
  queued : ∀ before after, ops = before ++ after →
    ((runState w.now before).heap w.client.ref).isConnected = false →
      (w.now.heap w.client.ref).reliableMessages
        <+: ((runState w.now before).heap w.client.ref).reliableMessages

/-! ### What is sent -/

section Sends

variable {front : List UInt8} {m : Message} {s : UdcServerImpl} {r : ClientRef}
  {time : Milliseconds} {order : List UdcEndPointId} {op : Op} {p : Packet}

/-- A message without data of the application is one word. -/
theorem length_body_of_id (h : m.id ∉ payloadIds) : m.body.length = 4 := by
  cases m with
  | unreliable data => exact absurd (show UdcMessageId.unreliable ∈ payloadIds by decide) h
  | reliable kind timeStamp data =>
      rcases kind with _ | _ | _
      · exact length_le32 timeStamp
      · exact absurd (show UdcMessageId.reliable0 ∈ payloadIds by decide) h
      · exact absurd (show UdcMessageId.reliable1 ∈ payloadIds by decide) h
  | connectionRequest id => exact length_le32 id
  | connectionHandshake id => exact length_le32 id
  | ping timeStamp => exact length_le32 timeStamp
  | pong timeStamp => exact length_le32 timeStamp
  | reliableHandshake kind timeStamp => exact length_le32 timeStamp

theorem not_payload (hfront : front.length = 4) (hid : m.id ∉ payloadIds)
    (hbytes : p.bytes = wire front m) : ¬ p.IsOf payloadIds :=
  not_isOf hfront (length_body_of_id hid) hid hbytes

/-- A turn sends data exactly if there is a message in front that is not to be reset. -/
theorem sendsPayload_iff (hready : Ready s) : SendsKind payloadIds r time s ↔
    (s.heap r).reliableMessages ≠ [] ∧ (s.heap r).reliableState ≠ -1 ∧
      (s.heap r).needsReliableReset time = false := by
  unfold SendsKind
  rw [probes_eq hready]
  constructor
  · rintro ⟨packet, hpacket, -, hkind⟩
    obtain ⟨m, hm, rfl⟩ := List.mem_map.mp hpacket
    rcases List.mem_append.mp hm with hreliable | hping
    · have hsent := List.ne_nil_of_mem hreliable
      rw [Ne, sendReliable_nil_iff, not_or] at hsent
      rcases mem_sendReliable hreliable with ⟨-, rfl⟩ | ⟨hstate, msg, -, -⟩
      · have hid : (Message.reliable .reset (u32 time) []).id ∉ payloadIds := by
          simp [Message.id, payloadIds]
        exact absurd hkind (not_payload length_front hid rfl)
      · refine ⟨hsent.1, hstate, Bool.eq_false_iff.mpr fun hneeds => ?_⟩
        exact hsent.2 ⟨hstate, hneeds⟩
    · obtain ⟨-, rfl⟩ := mem_sendPing.mp hping
      have hid : (Message.ping (u32 time)).id ∉ payloadIds := by simp [Message.id, payloadIds]
      exact absurd hkind (not_payload length_front hid rfl)
  · rintro ⟨hqueue, hstate, hneeds⟩
    have hsent : ((s.heap r).sendReliable time).2 ≠ [] := by
      rw [Ne, sendReliable_nil_iff]
      rintro (hnil | ⟨-, hreset⟩)
      · exact hqueue hnil
      · rw [hneeds] at hreset
        cases hreset
    obtain ⟨m, hm⟩ := List.exists_mem_of_ne_nil _ hsent
    refine ⟨_, List.mem_map.mpr ⟨m, List.mem_append_left _ hm, rfl⟩, rfl, s.front, m, length_front,
      ?_, rfl⟩
    rcases mem_sendReliable hm with ⟨hreset, -⟩ | ⟨-, msg, -, rfl⟩
    · exact absurd hreset hstate
    · cases decide ((s.heap r).reliableState ≠ 0)
      · simp [Message.id, payloadIds]
      · simp [Message.id, payloadIds]

/-- Pushing a message hands nothing to the socket, and neither does a lost connection. -/
theorem sendMessage_silent {endPointId : UdcEndPointId} {data : List UInt8}
    {reliability : UdcMessageType} (hlookup : s.clientsById.lookup endPointId = some r)
    (hlost : (s.heap r).isConnected = false) :
    newSent s (next s (.sendMessage endPointId data reliability)) = [] := by
  have hsocket : (next s (.sendMessage endPointId data reliability)).socket = s.socket := by
    cases reliability with
    | unreliableMessage =>
        show (s.sendUnreliableMessage endPointId data).1.socket = s.socket
        unfold sendUnreliableMessage tryGetClientById
        rw [hlookup]
        simp only [hlost, Bool.not_false, if_true]
        split <;> rfl
    | reliableMessage =>
        show (s.sendReliableMessage endPointId data).1.socket = s.socket
        unfold sendReliableMessage tryGetClientById
        rw [hlookup]
        split <;> rfl
  apply newSent_eq
  rw [hsocket, List.append_nil]

/-- Only sending an unreliable message and a tick hand data to the socket. -/
theorem payload_change {p : Protocol} {c : Change} {address : UdcAddressMux}
    (h : (address, m) ∈ (p.change c).sends) (hid : m.id ∈ payloadIds) :
    (∃ id data, c = .say id data) ∨ ∃ id time, c = .tick id time := by
  cases c with
  | connect address timeout time =>
      simp only [Protocol.change, Protocol.connect] at h
      split at h <;> cases h
  | disconnect id => cases h
  | push id data => cases h
  | say id data => exact Or.inl ⟨id, data, rfl⟩
  | poll time =>
      obtain ⟨id, hm⟩ := poll_sends h
      obtain rfl : m = .connectionRequest id := hm
      simp [Message.id, payloadIds] at hid
  | tick id time => exact Or.inr ⟨id, time, rfl⟩
  | handle address' time m' =>
      rcases handle_answers h with ⟨i, -, hm⟩ | ⟨timeStamp, hm⟩ | ⟨kind, timeStamp, hm⟩
      · obtain ⟨-, rfl⟩ := Prod.mk.inj hm
        simp [Message.id, payloadIds] at hid
      · obtain rfl : m = .pong timeStamp := hm
        simp [Message.id, payloadIds] at hid
      · obtain rfl : m = .reliableHandshake kind timeStamp := hm
        rcases kind with _ | _ | _ <;> simp [Message.id, payloadIds] at hid

/-- Requests and answers carry no data. -/
theorem other_silent (hready : Ready s) (hadm : op.Admissible s)
    (htick : ∀ time order, op ≠ .updateClientConnectionStatus time order)
    (hsend : ∀ id data reliability, op ≠ .sendMessage id data reliability) :
    ∀ p ∈ newSent s (next s op), ¬ p.IsOf payloadIds := by
  refine newSent_stages (Q := fun p => ¬ p.IsOf payloadIds) hready hadm ?_
  intro t t' hready hstage
  obtain ⟨new, got, hsent, -, horigin⟩ := stage_origin hready hstage
  refine ⟨new, hsent, ?_⟩
  intro p hp
  cases horigin p hp with
  | @reply time q m m' hop hgot hread hsends hbytes =>
      have hid : m'.id ∉ payloadIds := by
        intro hid
        have hchange := payload_change (c := .handle q.address time m) hsends hid
        simp at hchange
      rw [← wire_word t.packetSignature.size (length_body_of_id hid)] at hbytes
      exact not_payload t.packetSignature.size hid hbytes
  | @asked c m hasks hsends hbytes =>
      refine not_payload length_front ?_ hbytes
      intro hid
      rcases payload_change hsends hid with ⟨id, data, rfl⟩ | ⟨id, time, rfl⟩
      · cases hasks with
        | say id hfits => exact hsend _ _ _ rfl
      · cases hasks with
        | tick time order id => exact htick _ _ rfl

/-- **While the connection is lost, only a tick that finds a message sends data.** -/
theorem sendsPayload_lost_iff (hready : Ready s) (hadm : op.Admissible s)
    (hlost : (s.heap r).isConnected = false) : op.SendsPayload r s ↔ op.FindsMessage r s := by
  have hother (htick : ∀ time order, op ≠ .updateClientConnectionStatus time order)
      (hsend : ∀ id data reliability, op ≠ .sendMessage id data reliability) :
      ¬ ∃ packet ∈ newSent s (next s op),
        packet.address = (s.heap r).outgoingAddress ∧ packet.IsOf payloadIds := by
    rintro ⟨packet, hpacket, -, hkind⟩
    exact other_silent hready hadm htick hsend packet hpacket hkind
  cases op with
  | updateClientConnectionStatus time order =>
      exact exists_turn_iff (P := fun c => c.reliableMessages ≠ [] ∧ c.reliableState ≠ -1 ∧
        c.needsReliableReset time = false) hready hadm fun _ hu => sendsPayload_iff hu
  | sendMessage endPointId data reliability =>
      refine iff_of_false ?_ id
      rintro ⟨hlookup, packet, hpacket, -⟩
      rw [sendMessage_silent hlookup hlost] at hpacket
      cases hpacket
  | _ => exact iff_of_false (hother nofun nofun) id

end Sends

/-! ### The queue -/

section Queue

variable {s : UdcServerImpl} {r : ClientRef} {op : Op}

/-- Only a reply takes something off the queue. -/
theorem queue_kept (r : ClientRef) :
    KeptUnanswered r fun c c' => c.reliableMessages <+: c'.reliableMessages := by
  intro p change c h hno
  cases h with
  | same => exact List.prefix_rfl
  | push => exact List.prefix_append _ _
  | retry hfront hearly hdue => exact List.prefix_rfl
  | turn hlookup =>
      rw [(reliableMessages_turned _ _).1]
  | handshake h =>
      rw [receiveConnectionHandshake_eq]
  | pong h => exact absurd h.2 (hno _ _ _ rfl _ rfl h.1)
  | reliableHandshake h => exact absurd h.2 (hno _ _ _ rfl _ rfl h.1)

/-- A call that accepts a reply leaves the client connected. -/
theorem connected_of_accepts (h : op.AcceptsReply r s) :
    ((next s op).heap r).isConnected = true := by
  cases op with
  | receiveMessages time =>
      obtain ⟨x, hx, address, bytes, m, timeStamp, hd, hm, hanswers, hlookup, htime⟩ := h
      obtain ⟨before, after, hturns⟩ := List.append_of_mem hx
      refine receiveMessages_from (P := fun u => (u.heap r).isConnected = true) hturns ?_ ?_
      · obtain ⟨state, sent, queue, hheap⟩ :=
          heap_of_reply (turns_capacity hx) hd hm hanswers hlookup htime
        rw [hheap]
      · intro y hy hconnected
        have hmem : y ∈ s.turns time := by
          rw [hturns]
          exact List.mem_append_right _ (List.mem_cons_of_mem _ hy)
        exact isConnected_pass (turns_capacity hmem) hconnected
  | _ => exact absurd h id

/-- **A client that is not connected after a call has everything in its queue still.** -/
theorem queue_call (hadm : op.Admissible s) (hr : r < s.nextRef)
    (hlost : ((next s op).heap r).isConnected = false) :
    (s.heap r).reliableMessages <+: ((next s op).heap r).reliableMessages := by
  refine unanswered_call (R := fun c c' => c.reliableMessages <+: c'.reliableMessages)
    (fun _ => List.prefix_rfl) (fun _ _ _ => List.IsPrefix.trans) (queue_kept r) hadm hr ?_
  intro haccepts
  rw [connected_of_accepts haccepts] at hlost
  cases hlost

end Queue

/-! ### The calls of an outage -/

section Outage

variable {s : UdcServerImpl} {r : ClientRef} {ops : List Op}

/-- The call is made while the client is not connected. -/
def Op.Lost (r : ClientRef) (s : UdcServerImpl) (op : Op) : Prop :=
  op.Admissible s ∧ (s.heap r).isConnected = false

theorem silent_iff (ops : List Op) : ∀ s, Ready s →
    Throughout (fun s op => op.Lost r s) s ops →
      (Throughout (fun s op => ¬ op.SendsPayload r s) s ops ↔
        Throughout (fun s op => ¬ op.FindsMessage r s) s ops) := by
  induction ops with
  | nil =>
      intro s _ _
      exact Iff.rfl
  | cons op ops ih =>
      intro s hready hlost
      have hready' := step_stages hlost.1.1 (fun _ _ h hstage => ready_stage h hstage) hready
      exact and_congr (not_congr (sendsPayload_lost_iff hready hlost.1.1 hlost.1.2))
        (ih _ hready' hlost.2)

/-- The queue keeps what it holds in every call of an outage. -/
theorem queue_run (ops : List Op) (hr : r < s.nextRef)
    (hphase : Throughout (fun s op => op.Lost r s) s ops)
    (hlost : ((runState s ops).heap r).isConnected = false) :
    (s.heap r).reliableMessages <+: ((runState s ops).heap r).reliableMessages := by
  induction ops using List.reverseRecOn with
  | nil => exact List.prefix_rfl
  | append_singleton ops op ih =>
      obtain ⟨hrun, hlast, -⟩ := (throughout_append ops [op] s).mp hphase
      have hlt : r < (runState s ops).nextRef := by
        refine run_stages (P := fun u => r < u.nextRef)
          (fun _ _ _ hr hstage => Nat.lt_of_lt_of_le hr (nextRef_le_stage hstage)) ops s ?_ hr
        exact throughout_mono (fun _ _ h => h.1) hrun
      rw [runState_snoc] at hlost ⊢
      exact (ih hrun hlast.2).trans (queue_call hlast.1 hlt hlost)

/--
**While a connection is lost, the data of the application is withheld exactly if no tick
finds a message to send.**  The queue keeps every message in any case.
-/
theorem withholds_iff (w : Course) (ops : List Op)
    (hphase : Throughout (fun s op => op.Lost w.client.ref s) w.now ops) :
    w.Withholds ops ↔ Throughout (fun s op => ¬ op.FindsMessage w.client.ref s) w.now ops := by
  have hready : Ready w.now := by
    rw [w.now_eq]
    exact run_stages (fun _ _ _ h hstage => ready_stage h hstage) w.after w.created
      w.admissible_after w.ready_created
  have hsilent := silent_iff ops w.now hready hphase
  constructor
  · intro h
    exact hsilent.mp h.silent
  · intro h
    refine ⟨hsilent.mpr h, ?_⟩
    rintro before after rfl hlost
    exact queue_run before w.made.lt ((throughout_append before after _).mp hphase).1 hlost

/-- The connection is lost with nothing in the queue. -/
def idleLostOps : List Op :=
  heardOps ++ [.updateClientConnectionStatus (exampleTime + 110) [1]]

theorem admissible_idleLost : Throughout (fun s op => op.Admissible s) exampleServer
    (exampleBound ++ exampleConnect :: idleLostOps) := by
  decide +kernel

def idleLostCourse : Course := exampleCourse idleLostOps admissible_idleLost

/-- A tick finds nothing to send, and then messages of both types are given to the server. -/
def idleOutage : List Op :=
  [.updateClientConnectionStatus (exampleTime + 111) [1],
    .sendMessage 1 [65] .unreliableMessage, .sendMessage 1 [66] .reliableMessage]

theorem withholds_idle : idleLostCourse.Withholds idleOutage := by
  have hphase : Throughout (fun s op => op.Lost 0 s) idleLostCourse.now idleOutage := by
    unfold Op.Lost
    decide +kernel
  refine (withholds_iff idleLostCourse idleOutage hphase).mpr ⟨?_, id, id, trivial⟩
  rintro ⟨-, hqueue, -⟩
  exact hqueue (by decide +kernel)

/-- The connection is lost while the message in front waits for its handshake. -/
def busyLostOps : List Op :=
  heardOps ++ [.sendMessage 1 [65] .reliableMessage,
    .updateClientConnectionStatus (exampleTime + 110) [1]]

theorem admissible_busyLost : Throughout (fun s op => op.Admissible s) exampleServer
    (exampleBound ++ exampleConnect :: busyLostOps) := by
  decide +kernel

def busyLostCourse : Course := exampleCourse busyLostOps admissible_busyLost

theorem payload_sent_while_lost : ¬ ∀ (w : Course) (ops : List Op),
    Throughout (fun s op => op.Lost w.client.ref s) w.now ops → w.Withholds ops := by
  intro h
  have hlost : Op.Lost 0 busyLostCourse.now
      (.updateClientConnectionStatus (exampleTime + 111) [1]) := by
    unfold Op.Lost
    decide +kernel
  have hready : Ready busyLostCourse.now :=
    (ready_reachable (run_of_admissible _ busyLostCourse.admissible)).1
  have hfinds : (Op.updateClientConnectionStatus (exampleTime + 111) [1]).FindsMessage 0
      busyLostCourse.now :=
    ⟨⟨_, List.mem_cons_self⟩, by decide +kernel, by decide +kernel, by decide +kernel⟩
  have hsends := (sendsPayload_lost_iff hready hlost.1 hlost.2).mpr hfinds
  exact (h busyLostCourse [_] ⟨hlost, trivial⟩).silent.1 hsends

end Outage

end UdpConnect
