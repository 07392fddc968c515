/-
The guards on the size of a message.

`sendUnreliableMessage` and `sendReliableMessage` refuse what does not fit into the
message buffer, and everything after them relies on it: the copy of the message that is
sent at once, and the copy of the reliable message in front, ticks later.  The sum the
guards compare is a `uint32_t`.  It goes around for the longest messages, and these pass.

`Guarded` is what the guards are for, `NoWrap` says that the sum does not go around.
`guarded_iff_noWrap` has them agree call by call, `guarded_throughout_iff` on whole runs.
-/
import UdpConnect.Proofs.Stages

namespace UdpConnect

/-! ### What is copied into the buffer -/

/-- A `memcpy` of a message into the message buffer. -/
structure Copy where
  offset : Nat
  length : Nat

def Copy.Inside (size : Nat) (c : Copy) : Prop := c.offset + c.length ≤ size

namespace UdcServerImpl

/-- The copy `sendUnreliableMessage` makes, if it gets as far as `serializeData`. -/
def unreliableCopies (s : UdcServerImpl) (endPointId : UdcEndPointId) (data : List UInt8) :
    List Copy :=
  if u32 (data.length + MsgUnreliable.size) > s.messageBufferSize then []
  else
    match s.tryGetClientById endPointId with
    | none => []
    | some client =>
        if !(s.heap client).isConnected then [] else [⟨MsgHeader.size, data.length⟩]

/-- The copy of the reliable message in front, if `updateReliable` gets as far as that. -/
def reliableCopies (s : UdcServerImpl) (client : ClientRef) (time : Milliseconds) : List Copy :=
  match (s.heap client).reliableMessages with
  | [] => []
  | msg :: _ =>
      if (s.heap client).reliableState = -1 then []
      else if (s.heap client).needsReliableReset time then []
      else [⟨MsgReliable.size, msg.length⟩]

/-- The copies of `updateClientConnectionStatus`, client by client. -/
def statusCopies (time : Milliseconds) : List UdcEndPointId → UdcServerImpl → List Copy
  | [], _ => []
  | id :: order, s =>
      match s.clientsById.lookup id with
      | none => statusCopies time order s
      | some client =>
          s.reliableCopies client time ++
            match s.tickClient client time with
            | (_, some _) => []
            | (s, none) => statusCopies time order s

end UdcServerImpl

/-! ### Guarded calls -/

/-- Every queued message leaves room for its header: the assertion in the status update. -/
def UdcServerImpl.QueuesFit (s : UdcServerImpl) : Prop :=
  ∀ r, ∀ msg ∈ (s.heap r).reliableMessages, MsgReliable.size + msg.length ≤ s.messageBufferSize

/-- Nothing is copied past the end of the buffer, and no message queued that would be. -/
def Op.Guarded (s : UdcServerImpl) : Op → Prop
  | .sendMessage endPointId data .unreliableMessage =>
      ∀ c ∈ s.unreliableCopies endPointId data, c.Inside s.messageBufferSize
  | .sendMessage endPointId data .reliableMessage =>
      (s.sendReliableMessage endPointId data).2 = true →
        MsgReliable.size + data.length ≤ s.messageBufferSize
  | .updateClientConnectionStatus time order =>
      ∀ c ∈ UdcServerImpl.statusCopies time order s, c.Inside s.messageBufferSize
  | _ => True

/-- The size of a message for an endpoint that would take it does not go around. -/
def Op.NoWrap (s : UdcServerImpl) : Op → Prop
  | .sendMessage endPointId data .unreliableMessage =>
      ∀ r, s.clientsById.lookup endPointId = some r → (s.heap r).isConnected = true →
        MsgUnreliable.size + data.length < 2 ^ 32
  | .sendMessage endPointId data .reliableMessage =>
      ∀ r, s.clientsById.lookup endPointId = some r → MsgReliable.size + data.length < 2 ^ 32
  | _ => True

instance decidableNoWrap (s : UdcServerImpl) : (op : Op) → Decidable (op.NoWrap s)
  | .sendMessage endPointId data .unreliableMessage =>
      inferInstanceAs (Decidable (∀ r ∈ s.clientsById.lookup endPointId,
        (s.heap r).isConnected = true → MsgUnreliable.size + data.length < 2 ^ 32))
  | .sendMessage endPointId data .reliableMessage =>
      inferInstanceAs (Decidable (∀ r ∈ s.clientsById.lookup endPointId,
        MsgReliable.size + data.length < 2 ^ 32))
  | .tryBindIPv4 _ | .tryBindIPv6 _ | .tryConnectIPv4 _ _ _ _ | .tryConnectIPv6 _ _ _ _
  | .disconnect _ | .updatePendingClients _ | .updateClientConnectionStatus _ _
  | .receiveMessages _ | .arriveIPv4 _ _ | .arriveIPv6 _ _ => .isTrue trivial

section Guards

variable {s s' : UdcServerImpl} {op : Op} {time : Milliseconds}

/-- A sum that goes around is below what it was added to, and passes; any other is compared. -/
theorem guard_passes {length header : Nat} (hlen : length < 2 ^ 32)
    (hheader : header ≤ s.messageBufferSize) :
    (u32 (length + header) ≤ s.messageBufferSize → header + length < 2 ^ 32 →
        header + length ≤ s.messageBufferSize) ∧
      (2 ^ 32 ≤ header + length → u32 (length + header) ≤ s.messageBufferSize) := by
  have hsize := size_lt s
  unfold u32
  omega

theorem guarded_unreliable {endPointId : UdcEndPointId} {data : List UInt8}
    (hlen : data.length < 2 ^ 32) :
    (∀ c ∈ s.unreliableCopies endPointId data, c.Inside s.messageBufferSize) ↔
      ∀ r, s.clientsById.lookup endPointId = some r → (s.heap r).isConnected = true →
        MsgUnreliable.size + data.length < 2 ^ 32 := by
  have hnine := nine_le s
  have hsize := size_lt s
  have hheader : MsgUnreliable.size ≤ s.messageBufferSize := by
    show 5 ≤ s.messageBufferSize
    omega
  obtain ⟨hfits, hwraps⟩ := guard_passes hlen hheader
  unfold UdcServerImpl.unreliableCopies
  by_cases hguard : u32 (data.length + MsgUnreliable.size) > s.messageBufferSize
  · rw [if_pos hguard]
    constructor
    · intro _ r _ _
      by_contra hwrap
      have hpass := hwraps (Nat.le_of_not_lt hwrap)
      omega
    · intro _ c hc
      cases hc
  · rw [if_neg hguard]
    rw [show s.tryGetClientById endPointId = s.clientsById.lookup endPointId from rfl]
    cases hlookup : s.clientsById.lookup endPointId with
    | none => simp
    | some client =>
        by_cases hconn : (s.heap client).isConnected = true
        · simp only [hconn, Bool.not_true, Bool.false_eq_true, if_false, List.forall_mem_singleton]
          constructor
          · intro hinside r _ _
            exact Nat.lt_of_le_of_lt hinside hsize
          · intro hshort
            exact hfits (Nat.le_of_not_lt hguard) (hshort client rfl hconn)
        · simp only [hconn, Bool.not_false, if_true]
          constructor
          · intro _ r hr hup
            obtain rfl := Option.some.inj hr
            exact absurd hup hconn
          · intro _ c hc
            cases hc

theorem guarded_reliable {endPointId : UdcEndPointId} {data : List UInt8}
    (hlen : data.length < 2 ^ 32) :
    ((s.sendReliableMessage endPointId data).2 = true →
        MsgReliable.size + data.length ≤ s.messageBufferSize) ↔
      ∀ r, s.clientsById.lookup endPointId = some r →
        MsgReliable.size + data.length < 2 ^ 32 := by
  have hsize := size_lt s
  have hheader : MsgReliable.size ≤ s.messageBufferSize := nine_le s
  obtain ⟨hfits, hwraps⟩ := guard_passes hlen hheader
  unfold UdcServerImpl.sendReliableMessage
  by_cases hguard : u32 (data.length + MsgReliable.size) > s.messageBufferSize
  · rw [if_pos hguard]
    constructor
    · intro _ r _
      by_contra hwrap
      have hpass := hwraps (Nat.le_of_not_lt hwrap)
      omega
    · intro _ hfalse
      cases hfalse
  · rw [if_neg hguard]
    rw [show s.tryGetClientById endPointId = s.clientsById.lookup endPointId from rfl]
    cases hlookup : s.clientsById.lookup endPointId with
    | none => simp
    | some client =>
        constructor
        · intro hroom r _
          exact Nat.lt_of_le_of_lt (hroom rfl) hsize
        · intro hshort _
          exact hfits (Nat.le_of_not_lt hguard) (hshort client rfl)

/-- A copy is made where the message in front is sent, and of that message. -/
theorem reliableCopies_eq (r : ClientRef) : s.reliableCopies r time =
    ((s.heap r).sendReliable time).2.filterMap fun m =>
      match m with
      | .reliable (.bit _) _ msg => some ⟨MsgReliable.size, msg.length⟩
      | _ => none := by
  unfold UdcServerImpl.reliableCopies UdcClient.sendReliable
  cases (s.heap r).reliableMessages with
  | nil => rfl
  | cons msg rest =>
      by_cases hreset : (s.heap r).reliableState = -1
      · simp [hreset]
      · by_cases hneeds : (s.heap r).needsReliableReset time
        · simp [hreset, hneeds]
        · simp [hreset, hneeds]

theorem reliableCopies_inside (h : s.QueuesFit) (r : ClientRef) :
    ∀ c ∈ s.reliableCopies r time, c.Inside s.messageBufferSize := by
  intro c hc
  rw [reliableCopies_eq] at hc
  obtain ⟨m, hm, hcopy⟩ := List.mem_filterMap.mp hc
  rcases mem_sendReliable hm with ⟨-, rfl⟩ | ⟨-, msg, hfront, rfl⟩
  · cases hcopy
  · obtain rfl := Option.some.inj hcopy
    exact h r msg (List.mem_of_head? hfront)

theorem queuesFit_of (hsize : s'.messageBufferSize = s.messageBufferSize)
    (hqueued : Queued (fun msg => MsgReliable.size + msg.length ≤ s.messageBufferSize)
      s'.protocol) : s'.QueuesFit := by
  unfold UdcServerImpl.QueuesFit
  rw [hsize]
  exact hqueued

theorem statusCopies_inside (order : List UdcEndPointId) : ∀ s : UdcServerImpl, s.QueuesFit →
    ∀ c ∈ UdcServerImpl.statusCopies time order s, c.Inside s.messageBufferSize := by
  induction order with
  | nil =>
      intro s _ c hc
      cases hc
  | cons id order ih =>
      intro s h c hc
      unfold UdcServerImpl.statusCopies at hc
      cases hlookup : s.clientsById.lookup id with
      | none =>
          rw [hlookup] at hc
          exact ih s h c hc
      | some client =>
          rw [hlookup] at hc
          have hperf : Performs s (s.tickClient client time).1 (s.tickClient client time).2
              (s.protocol.change (.tick id time)) := by
            have hturn := tickClient_performs (s := s) time client
            rw [Protocol.change, Protocol.tick,
              show s.protocol.clientsById.lookup id = some client from hlookup]
            exact hturn
          have hsize := hperf.size
          have hafter : (s.tickClient client time).1.QueuesFit := by
            apply queuesFit_of hsize
            rw [hperf.state]
            exact queued_change (p := s.protocol) h (.tick id time) (by simp)
          rcases List.mem_append.mp hc with hc | hc
          · exact reliableCopies_inside h client c hc
          · generalize s.tickClient client time = t at hc hafter hsize
            obtain ⟨s', event⟩ := t
            cases event with
            | some e => cases hc
            | none =>
                rw [← hsize]
                exact ih s' hafter c hc

/-- **A call is guarded when its message's size does not go around, and only then.** -/
theorem guarded_iff_noWrap (h : s.QueuesFit) (hadm : op.Admissible s) :
    op.Guarded s ↔ op.NoWrap s := by
  cases op with
  | sendMessage endPointId data reliability =>
      cases reliability with
      | unreliableMessage => exact guarded_unreliable hadm.2
      | reliableMessage => exact guarded_reliable hadm.2
  | updateClientConnectionStatus time order =>
      constructor
      · intro _
        trivial
      · intro _
        exact statusCopies_inside order s h
  | _ => exact Iff.rfl

/-- What is queued in a guarded call fits. -/
theorem queuesFit_step (h : s.QueuesFit) (hadm : op.Admissible s) (hguard : op.Guarded s) :
    (step s op).1.QueuesFit := by
  by_cases hop : ∃ endPointId data, op = .sendMessage endPointId data .reliableMessage
  · obtain ⟨endPointId, data, rfl⟩ := hop
    obtain ⟨state, hperf, hcases⟩ := sendReliableMessage_performs (s := s) endPointId data
    apply queuesFit_of hperf.size
    show Queued _ (s.sendReliableMessage endPointId data).1.protocol
    rw [hperf.state]
    rcases hcases with ⟨rfl, -⟩ | ⟨rfl, -, haccepted⟩
    · exact h
    · unfold Protocol.push
      cases hlookup : s.protocol.clientsById.lookup endPointId with
      | none => exact h
      | some r =>
          have hroom := hguard (haccepted.mpr (by rw [hlookup]; rfl))
          refine Queued.setClient (p := s.protocol) h ?_
          intro msg hmsg
          rcases List.mem_append.mp hmsg with hmsg | hmsg
          · exact h r msg hmsg
          · rw [List.mem_singleton.mp hmsg]
            exact hroom
  · have hkept := step_stages (s := s)
      (P := fun t => t.messageBufferSize = s.messageBufferSize ∧
        Queued (fun msg => MsgReliable.size + msg.length ≤ s.messageBufferSize) t.protocol)
      hadm ?_ ⟨rfl, h⟩
    · unfold UdcServerImpl.QueuesFit
      rw [hkept.1]
      exact hkept.2
    · intro t t' ht hstage
      refine ⟨hstage.size.trans ht.1, queued_stage ht.2 hstage ?_⟩
      intro endPointId data hcall
      exact absurd ⟨endPointId, data, hcall⟩ hop

/-! ### Runs -/

theorem queuesFit_new (signature : UdcSignature) (buffer : MessageBuffer) :
    (UdcServerImpl.new signature buffer).QueuesFit := by
  intro r msg hmsg
  cases hmsg

theorem guarded_throughout (ops : List Op) : ∀ s : UdcServerImpl, s.QueuesFit →
    ((Throughout (fun s op => op.Admissible s ∧ op.Guarded s) s ops ∧
        (runState s ops).QueuesFit) ↔
      Throughout (fun s op => op.Admissible s ∧ op.NoWrap s) s ops) := by
  induction ops with
  | nil =>
      intro s h
      exact ⟨fun _ => trivial, fun _ => ⟨trivial, h⟩⟩
  | cons op ops ih =>
      intro s h
      constructor
      · rintro ⟨⟨⟨hadm, hguard⟩, hrest⟩, hlast⟩
        have hafter := queuesFit_step h hadm hguard
        exact ⟨⟨hadm, (guarded_iff_noWrap h hadm).mp hguard⟩, (ih _ hafter).mp ⟨hrest, hlast⟩⟩
      · rintro ⟨⟨hadm, hshort⟩, hrest⟩
        have hguard := (guarded_iff_noWrap h hadm).mpr hshort
        obtain ⟨hrest', hlast⟩ := (ih _ (queuesFit_step h hadm hguard)).mpr hrest
        exact ⟨⟨⟨hadm, hguard⟩, hrest'⟩, hlast⟩

/--
**No message overruns the buffer in a run in which no message's size goes around**, and in
no other.
-/
theorem guarded_throughout_iff (signature : UdcSignature) (buffer : MessageBuffer)
    (ops : List Op) :
    (Throughout (fun s op => op.Admissible s ∧ op.Guarded s) (.new signature buffer) ops ∧
        (runState (.new signature buffer) ops).QueuesFit) ↔
      Throughout (fun s op => op.Admissible s ∧ op.NoWrap s) (.new signature buffer) ops :=
  guarded_throughout ops _ (queuesFit_new signature buffer)

/-- A reliable message of `2 ^ 32 - 9` bytes passes the guard of a buffer of sixteen. -/
theorem overrun_by_wrapping : ¬ ∀ (signature : UdcSignature) (buffer : MessageBuffer)
    (ops : List Op), Throughout (fun s op => op.Admissible s) (.new signature buffer) ops →
      Throughout (fun s op => op.Guarded s) (.new signature buffer) ops ∧
        (runState (.new signature buffer) ops).QueuesFit := by
  intro h
  have hlength : (List.replicate (2 ^ 32 - 9) (0 : UInt8)).length = 2 ^ 32 - 9 :=
    List.length_replicate
  generalize List.replicate (2 ^ 32 - 9) (0 : UInt8) = data at hlength
  have hconnected : Throughout (fun s op => op.Admissible s) exampleServer connectedOps ∧
      (runState exampleServer connectedOps).clientsById.lookup 1 = some 0 ∧
      (runState exampleServer connectedOps).messageBufferSize = 16 := by decide +kernel
  obtain ⟨hadm, hlookup, hsize⟩ := hconnected
  have hsend : Op.Admissible (runState exampleServer connectedOps)
      (.sendMessage 1 data .reliableMessage) := ⟨by decide, by omega⟩
  have hrun : Throughout (fun s op => op.Admissible s) exampleServer
      (connectedOps ++ [.sendMessage 1 data .reliableMessage]) :=
    (throughout_append connectedOps _ exampleServer).mpr ⟨hadm, hsend, trivial⟩
  obtain ⟨hall, -⟩ := h exampleSignature exampleBuffer _ hrun
  have hguard := ((throughout_append connectedOps _ exampleServer).mp hall).2.1
  have hshort := (guarded_reliable hsend.2).mp hguard 0 hlookup
  rw [hlength] at hshort
  exact absurd hshort (by decide)

end Guards

end UdpConnect
