/-
The stages of a call.

A call is made of stages of three kinds: a change it asks for itself, the turn of the
receive loop that takes one packet, and whatever the protocol does not notice.
`step_stages` goes through the calls once; what is proved of every kind of stage is
from then on known of every call.
-/
import UdpConnect.Proofs.Effects

namespace UdpConnect

/-- The changes that a call asks for, with what it has checked before. -/
inductive Op.Asks (s : UdcServerImpl) : Op → Change → Prop
  | connectIPv4 (ip : UdcAddressIPv4) (port : UInt16) (timeout : Nat) (time : Milliseconds) :
      Asks s (.tryConnectIPv4 ip port timeout time) (.connect ⟨.ipv4 ip, port⟩ timeout time)
  | connectIPv6 (ip : UdcAddressIPv6) (port : UInt16) (timeout : Nat) (time : Milliseconds) :
      Asks s (.tryConnectIPv6 ip port timeout time) (.connect ⟨.ipv6 ip, port⟩ timeout time)
  | disconnect (endPointId : UdcEndPointId) :
      Asks s (.disconnect endPointId) (.disconnect endPointId)
  | say (endPointId : UdcEndPointId) {data : List UInt8}
      (hfits : (Message.unreliable data).Fits s.messageBufferSize) :
      Asks s (.sendMessage endPointId data .unreliableMessage) (.say endPointId data)
  | push (endPointId : UdcEndPointId) {data : List UInt8} (hlen : data.length < 2 ^ 32)
      (hfits : u32 (9 + data.length : Nat) ≤ s.messageBufferSize) :
      Asks s (.sendMessage endPointId data .reliableMessage) (.push endPointId data)
  | poll (time : Milliseconds) : Asks s (.updatePendingClients time) (.poll time)
  | tick (time : Milliseconds) (order : List UdcEndPointId) (endPointId : UdcEndPointId) :
      Asks s (.updateClientConnectionStatus time order) (.tick endPointId time)

/-- Nothing the protocol would notice: a socket is bound, something arrives, nothing is there. -/
structure Quiet (s s' : UdcServerImpl) : Prop where
  state : s'.protocol = s.protocol
  signature : s'.packetSignature = s.packetSignature
  size : s'.messageBufferSize = s.messageBufferSize
  sent : s'.socket.history.sent = s.socket.history.sent
  received : s'.socket.history.received = s.socket.history.received

/-- One stage of a call. -/
inductive Stage (op : Op) (s s' : UdcServerImpl) : Prop
  | quiet (h : Quiet s s')
  | call {c : Change} {event : Option UdcEvent} {r : Reaction} (hasks : op.Asks s c)
      (hperf : Performs s s' event r) (hstate : r.state = (s.protocol.change c).state)
      (hsends : r.sends = (s.protocol.change c).sends)
  | turn {time : Milliseconds} {packet : Packet} {event : Option UdcEvent}
      (hop : op = .receiveMessages time) (hturn : Turn time s packet s' event)

section Stages

variable {s s' : UdcServerImpl} {op : Op}

theorem Stage.performs {c : Change} {event : Option UdcEvent} (hasks : op.Asks s c)
    (hperf : Performs s s' event (s.protocol.change c)) : Stage op s s' :=
  .call hasks hperf rfl rfl

theorem quiet_of_performs {event : Option UdcEvent} (h : Performs s s' event s.protocol.idle) :
    Quiet s s' := by
  obtain ⟨new, hsocket, hnew⟩ := h.socket
  have hnone : new = [] := hnew (by simp [Protocol.idle])
  refine ⟨h.state, h.signature, h.size, ?_, ?_⟩
  · rw [hsocket, hnone]
    exact List.append_nil _
  · rw [hsocket]

/-- **What every stage of a call keeps, the call keeps.** -/
theorem step_stages {P : UdcServerImpl → Prop} (hadm : op.Admissible s)
    (hstage : ∀ t t', P t → Stage op t t' → P t') (h : P s) : P (step s op).1 := by
  cases op with
  | tryBindIPv4 bound =>
      refine hstage s _ h (.quiet ?_)
      simp only [step, UdcServerImpl.tryBindIPv4, UdcSocketMux.tryBindIPv4]
      split <;> exact ⟨rfl, rfl, rfl, rfl, rfl⟩
  | tryBindIPv6 bound =>
      refine hstage s _ h (.quiet ?_)
      simp only [step, UdcServerImpl.tryBindIPv6, UdcSocketMux.tryBindIPv6]
      split <;> exact ⟨rfl, rfl, rfl, rfl, rfl⟩
  | tryConnectIPv4 ip port timeout time =>
      have hperf := (tryConnect_performs (s := s) time ⟨.ipv4 ip, port⟩ timeout).1
      refine hstage s _ h (.call (.connectIPv4 ip port timeout time) hperf rfl ?_)
      simp only [Protocol.change, Protocol.connect]
      split <;> rfl
  | tryConnectIPv6 ip port timeout time =>
      have hperf := (tryConnect_performs (s := s) time ⟨.ipv6 ip, port⟩ timeout).1
      refine hstage s _ h (.call (.connectIPv6 ip port timeout time) hperf rfl ?_)
      simp only [Protocol.change, Protocol.connect]
      split <;> rfl
  | disconnect endPointId =>
      exact hstage s _ h (.performs (.disconnect endPointId)
        (disconnectFromClient_performs endPointId))
  | sendMessage endPointId data reliability =>
      cases reliability with
      | unreliableMessage =>
          obtain ⟨r, hperf, hr⟩ := sendUnreliableMessage_performs (s := s) endPointId hadm.2
          rcases hr with rfl | ⟨rfl, hfits⟩
          · exact hstage s _ h (.quiet (quiet_of_performs hperf))
          · exact hstage s _ h (.performs (.say endPointId hfits) hperf)
      | reliableMessage =>
          obtain ⟨state, hperf, hr⟩ := sendReliableMessage_performs (s := s) endPointId data
          rcases hr with ⟨rfl, -⟩ | ⟨rfl, hfits, -⟩
          · exact hstage s _ h (.quiet (quiet_of_performs hperf))
          · exact hstage s _ h (.performs (.push endPointId hadm.2 hfits) hperf)
  | updatePendingClients time =>
      exact hstage s _ h (.performs (.poll time) (updatePendingClients_performs time))
  | updateClientConnectionStatus time order =>
      refine updateClientConnectionStatus_rule time (P := P) (Q := fun t _ => P t) ?_ ?_ ?_
        order s h
      · intro t ht
        exact ht
      · intro t id t' ht hperf
        exact hstage t t' ht (.performs (.tick time order id) hperf)
      · intro t id t' e ht hperf
        exact hstage t t' ht (.performs (.tick time order id) hperf)
  | receiveMessages time =>
      refine receiveMessages_rule (s := s) time (P := P) (Q := fun t _ => P t)
        (C := fun _ => True) ?_ ?_ ?_ (fun _ _ => trivial) h
      · intro t t' ht hlast
        exact hstage t t' ht
          (.quiet ⟨hlast.state, hlast.signature, hlast.size, hlast.sent, hlast.received⟩)
      · intro t packet t' ht hturn _
        exact hstage t t' ht (.turn rfl hturn)
      · intro t packet t' e ht hturn _
        exact hstage t t' ht (.turn rfl hturn)
  | arriveIPv4 index arrival => exact hstage s _ h (.quiet ⟨rfl, rfl, rfl, rfl, rfl⟩)
  | arriveIPv6 index arrival => exact hstage s _ h (.quiet ⟨rfl, rfl, rfl, rfl, rfl⟩)

/-- **What every stage of every call keeps, a run keeps.** -/
theorem run_stages {P : UdcServerImpl → Prop}
    (hstage : ∀ op t t', P t → Stage op t t' → P t') (ops : List Op) :
    ∀ s, Throughout (fun s op => op.Admissible s) s ops → P s → P (runState s ops) := by
  induction ops with
  | nil =>
      intro s _ h
      exact h
  | cons op ops ih =>
      intro s hadm h
      exact ih _ hadm.2 (step_stages hadm.1 (hstage op) h)

/-! ### What all stages keep -/

theorem Stage.size (h : Stage op s s') : s'.messageBufferSize = s.messageBufferSize := by
  cases h with
  | quiet h => exact h.size
  | call hasks hperf hstate hsends => exact hperf.size
  | turn hop hturn => exact hturn.size

theorem Stage.signature (h : Stage op s s') : s'.packetSignature = s.packetSignature := by
  cases h with
  | quiet h => exact h.signature
  | call hasks hperf hstate hsends => exact hperf.signature
  | turn hop hturn => exact hturn.signature

/-- The protocol makes a change, or none. -/
theorem Stage.state (h : Stage op s s') : s'.protocol = s.protocol ∨
    ∃ c, s'.protocol = (s.protocol.change c).state ∧
      (op.Asks s c ∨ ∃ address time m, c = .handle address time m) := by
  cases h with
  | quiet h => exact Or.inl h.state
  | call hasks hperf hstate hsends =>
      exact Or.inr ⟨_, hperf.state.trans hstate, Or.inl hasks⟩
  | @turn time packet event hop hturn =>
      have hstate := hturn.state
      unfold Protocol.react at hstate
      cases hm : decode s.packetSignature.bytes packet.bytes with
      | none =>
          rw [hm] at hstate
          exact Or.inl hstate
      | some m =>
          rw [hm] at hstate
          exact Or.inr ⟨.handle packet.address time m, hstate, Or.inr ⟨_, _, _, rfl⟩⟩

/-- The messages in the queues have what every message has that is pushed. -/
theorem queued_stage {F : List UInt8 → Prop} (h : Queued F s.protocol) (hstage : Stage op s s')
    (hpush : ∀ endPointId data, op = .sendMessage endPointId data .reliableMessage →
      data.length < 2 ^ 32 → u32 (9 + data.length : Nat) ≤ s.messageBufferSize → F data) :
    Queued F s'.protocol := by
  rcases hstage.state with hsame | ⟨c, hstate, hc⟩
  · rw [hsame]
    exact h
  · rw [hstate]
    apply queued_change h c
    intro endPointId data hcd
    subst hcd
    rcases hc with hasks | ⟨address, time, m, hhandle⟩
    · cases hasks with
      | push endPointId hlen hfits => exact hpush endPointId data rfl hlen hfits
    · cases hhandle

end Stages

end UdpConnect
