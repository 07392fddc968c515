/-
Every run of a server is a run of the machine.

The server's calls and the machine's changes are matched one call to a sequence of
changes: a tick is the turn of each client in the order the server meets them, and a
`receiveMessages` call is the handling of each message it reads.  `Note` is what the
application can see of its endpoints on the way, which both runs agree on.

A run may be restricted by a condition on the messages handled, each taken with the
machine state it meets.  `step_simulates` carries such a condition over, so that an
invariant of the machine under a condition is one of the server.
-/
import UdpConnect.Proofs.Machine

namespace UdpConnect

open Runs

/-! ### What the application sees -/

inductive Note where
  | issued (endPointId : UdcEndPointId)
  | event (eventType : UdcEventType) (endPointId : UdcEndPointId)
  | disconnected (endPointId : UdcEndPointId)
deriving DecidableEq

def UdcEvent.note (e : UdcEvent) : Option Note :=
  (udcGetResultConnectionEvent e).map (.event e.eventType)

def Report.note : Report → Option Note
  | .issued endPointId => some (.issued endPointId)
  | .connection eventType endPointId => some (.event eventType endPointId)
  | .message _ _ _ => none

def Op.note : Op → Option Note
  | .disconnect endPointId => some (.disconnected endPointId)
  | _ => none

def Change.note : Change → Option Note
  | .disconnect endPointId => some (.disconnected endPointId)
  | _ => none

/-- What one call of the application shows. -/
def callNotes (l : Op × Outcome) : List Note :=
  l.1.note.toList ++ (l.2.endPointId.map .issued).toList ++ (l.2.event.bind UdcEvent.note).toList

/-- What a run shows, oldest first. -/
def notes (trace : List (Op × Outcome)) : List Note := trace.flatMap callNotes

theorem note_report (b : MessageBuffer) (e : UdcEvent) : (e.report b).note = e.note := by
  unfold UdcEvent.report UdcEvent.note
  cases udcGetResultConnectionEvent e <;> rfl

theorem note_of_report {event : Option UdcEvent} {b : MessageBuffer} {report : Option Report}
    (h : event.map (UdcEvent.report b) = report) :
    report.bind Report.note = event.bind UdcEvent.note := by
  rw [← h]
  cases event with
  | none => rfl
  | some e => exact note_report b e

/-! ### Runs of the machine -/

/-- One change of the machine, made where the condition allows it. -/
structure MachineStep (C : Milliseconds → Handling → Prop) (p : Protocol)
    (l : Change × Option Report) (p' : Protocol) : Prop where
  allowed : ∀ address time m, l.1 = .handle address time m → C time ⟨p, address, m⟩
  state : p' = (p.change l.1).state
  report : l.2 = (p.change l.1).report

def changeNotes (l : Change × Option Report) : List Note :=
  l.1.note.toList ++ (l.2.bind Report.note).toList

/-- The machine gets from `p` to `p'` and shows these notes. -/
def MachineRun (C : Milliseconds → Handling → Prop) (p : Protocol) (ns : List Note)
    (p' : Protocol) : Prop :=
  ∃ labels, Run (MachineStep C) p labels p' ∧ labels.flatMap changeNotes = ns

/-- Every message that is handled meets the condition. -/
def Op.Meets (C : Milliseconds → Handling → Prop) (s : UdcServerImpl) : Op → Prop
  | .receiveMessages time => ∀ x ∈ s.handled time, C time x
  | _ => True

/-- One call of a server, in which every message handled meets the condition. -/
structure StepsMeeting (C : Milliseconds → Handling → Prop) (s : UdcServerImpl)
    (l : Op × Outcome) (s' : UdcServerImpl) : Prop where
  steps : Steps s l s'
  meets : l.1.Meets C s

variable {C : Milliseconds → Handling → Prop} {p p' p'' : Protocol}

theorem MachineRun.refl : MachineRun C p [] p := ⟨[], .nil, rfl⟩

theorem MachineRun.snoc {ns : List Note} (h : MachineRun C p ns p') {c : Change}
    (hallowed : ∀ address time m, c = .handle address time m → C time ⟨p', address, m⟩) :
    MachineRun C p (ns ++ changeNotes (c, (p'.change c).report)) (p'.change c).state := by
  obtain ⟨labels, run, hns⟩ := h
  refine ⟨labels ++ [(c, (p'.change c).report)], run.snoc ⟨hallowed, rfl, rfl⟩, ?_⟩
  rw [List.flatMap_append, hns]
  simp

theorem MachineRun.trans {ns ns' : List Note} (h : MachineRun C p ns p')
    (h' : MachineRun C p' ns' p'') : MachineRun C p (ns ++ ns') p'' := by
  obtain ⟨labels, run, hns⟩ := h
  obtain ⟨labels', run', hns'⟩ := h'
  exact ⟨labels ++ labels', run.append run', by rw [List.flatMap_append, hns, hns']⟩

/-- The induction on machine runs, for a relation between the notes and the state. -/
theorem MachineRun.invariant {P : List Note → Protocol → Prop} (h₀ : P [] p)
    (hstep : ∀ ns q c, P ns q →
      (∀ address time m, c = .handle address time m → C time ⟨q, address, m⟩) →
      P (ns ++ (c.note.toList ++ ((q.change c).report.bind Report.note).toList))
        (q.change c).state)
    {ns : List Note} (h : MachineRun C p ns p') : P ns p' := by
  obtain ⟨labels, run, rfl⟩ := h
  refine run.invariant (P := fun labels q => P (labels.flatMap changeNotes) q) h₀
    fun labels q l q' _ hP hl => ?_
  have h := hstep _ q l.1 hP hl.allowed
  rw [List.flatMap_append, hl.state]
  simpa [changeNotes, hl.report] using h

/-! ### One call -/

section Simulation

variable {s s' : UdcServerImpl} {time : Milliseconds}

/-- A call that is one change, not the handling of a message. -/
theorem machineRun_change {c : Change} (hc : ∀ address time m, c ≠ .handle address time m)
    {ns : List Note} (hns : ns = changeNotes (c, (p.change c).report))
    (hstate : p' = (p.change c).state) : MachineRun C p ns p' := by
  have h := (MachineRun.refl (C := C) (p := p)).snoc (c := c)
    fun address time m h => absurd h (hc address time m)
  rw [hstate, hns]
  exact h

theorem updateClientConnectionStatus_simulates (order : List UdcEndPointId) :
    MachineRun C s.protocol
      ((UdcServerImpl.updateClientConnectionStatus time order s).2.bind UdcEvent.note).toList
      (UdcServerImpl.updateClientConnectionStatus time order s).1.protocol := by
  refine updateClientConnectionStatus_rule time
    (P := fun t => MachineRun C s.protocol [] t.protocol)
    (Q := fun t event => MachineRun C s.protocol (event.bind UdcEvent.note).toList t.protocol)
    (fun _ h => h) (fun t id t' h hperf => ?_) (fun t id t' e h hperf => ?_) order s .refl
  · have hsnoc := h.snoc (c := .tick id time) (by simp)
    rw [show (t.protocol.change (.tick id time)).report = none from hperf.report.symm] at hsnoc
    rw [hperf.state]
    exact hsnoc
  · have hsnoc := h.snoc (c := .tick id time) (by simp)
    have hnote := note_of_report hperf.report
    rw [hperf.state, ← hnote]
    exact hsnoc

/-- One turn of the receive loop: one change, or none. -/
theorem turn_simulates {ns : List Note} (h : MachineRun C p ns s.protocol) {packet : Packet}
    {event : Option UdcEvent} (hturn : Turn time s packet s' event)
    (hmeets : TurnMeets (fun x => C time x.toHandling) s packet) :
    MachineRun C p (ns ++ (event.bind UdcEvent.note).toList) s'.protocol := by
  have hnote := note_of_report hturn.report
  rw [hturn.state, ← hnote]
  unfold Protocol.react
  cases hm : decode s.packetSignature.bytes packet.bytes with
  | none => simpa [Protocol.idle] using h
  | some m =>
      refine h.snoc (c := .handle packet.address time m) fun address time' m' heq => ?_
      cases heq
      exact hmeets m hm

theorem receiveMessages_simulates (hC : ∀ x ∈ s.handled time, C time x) :
    MachineRun C s.protocol ((s.receiveMessages time).2.bind UdcEvent.note).toList
      (s.receiveMessages time).1.protocol := by
  refine receiveMessages_rule time (P := fun t => MachineRun C s.protocol [] t.protocol)
    (Q := fun t event => MachineRun C s.protocol (event.bind UdcEvent.note).toList t.protocol)
    (fun t t' h hlast => ?_) (fun t packet t' h hturn hmeets => ?_)
    (fun t packet t' e h hturn hmeets => ?_)
    (fun x hx => hC x.toHandling (List.mem_map_of_mem hx)) .refl
  · rw [hlast.state]
    exact h
  · exact turn_simulates h hturn hmeets
  · exact turn_simulates h hturn hmeets

/-- A connect call. -/
theorem tryConnect_simulates (time : Milliseconds) (address : UdcAddressMux) (timeout : Nat) :
    MachineRun C s.protocol ((tryConnect s address timeout time).2.map Note.issued).toList
      (tryConnect s address timeout time).1.protocol := by
  obtain ⟨hperf, hreport⟩ := tryConnect_performs (s := s) time address timeout
  refine machineRun_change (c := .connect address timeout time) (by simp) ?_ hperf.state
  show _ = [] ++ ((s.protocol.connect address timeout time).report.bind Report.note).toList
  rw [← hreport]
  cases (tryConnect s address timeout time).2 <;> rfl

/-- **A call of the server is a run of the machine that shows the same.** -/
theorem step_simulates {l : Op × Outcome} (h : StepsMeeting C s l s') :
    MachineRun C s.protocol (callNotes l) s'.protocol := by
  obtain ⟨⟨hadm, hstep⟩, hmeets⟩ := h
  obtain ⟨op, outcome⟩ := l
  simp only at hadm hstep hmeets
  rw [Prod.ext_iff] at hstep
  obtain ⟨rfl, rfl⟩ := hstep
  cases op with
  | tryBindIPv4 bound => exact .refl
  | tryBindIPv6 bound => exact .refl
  | tryConnectIPv4 ip port timeout currentTime =>
      have h := tryConnect_simulates (C := C) (s := s) currentTime ⟨.ipv4 ip, port⟩ timeout
      rw [← List.append_nil (Option.toList _)] at h
      exact h
  | tryConnectIPv6 ip port timeout currentTime =>
      have h := tryConnect_simulates (C := C) (s := s) currentTime ⟨.ipv6 ip, port⟩ timeout
      rw [← List.append_nil (Option.toList _)] at h
      exact h
  | disconnect endPointId =>
      exact machineRun_change (c := .disconnect endPointId) (by simp) rfl
        (disconnectFromClient_performs endPointId).state
  | sendMessage endPointId data reliability =>
      simp only [step, udcSendMessage]
      by_cases hrel : reliability = .unreliableMessage
      · rw [if_pos hrel]
        obtain ⟨r, hperf, rfl | ⟨rfl, -⟩⟩ :=
          sendUnreliableMessage_performs (s := s) endPointId hadm.2
        · rw [hperf.state]
          exact .refl
        · exact machineRun_change (c := .say endPointId data) (by simp)
            (congrArg (fun r : Option Report => (r.bind Report.note).toList) hperf.report)
            hperf.state
      · rw [if_neg hrel]
        obtain ⟨state, hperf, ⟨rfl, -⟩ | ⟨rfl, -⟩⟩ :=
          sendReliableMessage_performs (s := s) endPointId data
        · rw [hperf.state]
          exact .refl
        · exact machineRun_change (c := .push endPointId data) (by simp) rfl hperf.state
  | updatePendingClients time =>
      have hperf := updatePendingClients_performs (s := s) time
      refine machineRun_change (c := .poll time) (by simp) ?_ hperf.state
      exact congrArg Option.toList (note_of_report hperf.report).symm
  | updateClientConnectionStatus time order => exact updateClientConnectionStatus_simulates order
  | receiveMessages time => exact receiveMessages_simulates hmeets
  | arriveIPv4 index arrival => exact .refl
  | arriveIPv6 index arrival => exact .refl

/-- **A run of a server is a run of the machine that shows the same.** -/
theorem run_simulates {trace : List (Op × Outcome)} (run : Run (StepsMeeting C) s trace s') :
    MachineRun C s.protocol (notes trace) s'.protocol := by
  induction run with
  | nil => exact .refl
  | snoc _ h ih =>
      rw [notes, List.flatMap_append, List.flatMap_singleton]
      exact ih.trans (step_simulates h)

theorem meets_true (s : UdcServerImpl) (op : Op) : op.Meets (fun _ _ => True) s := by
  cases op <;> first | exact trivial | exact fun _ _ => trivial

/-- Every run meets the condition that asks for nothing. -/
theorem ServerRun.meeting {signature : UdcSignature} {buffer : MessageBuffer}
    {trace : List (Op × Outcome)} (run : ServerRun signature buffer trace s) :
    Run (StepsMeeting fun _ _ => True) (UdcServerImpl.new signature buffer) trace s :=
  run.mono fun _ _ _ h => ⟨h, meets_true _ _⟩

end Simulation

/-! ### Running a list of calls -/

section Deciding

variable {C : Milliseconds → Handling → Prop}

instance [∀ time x, Decidable (C time x)] (s : UdcServerImpl) (op : Op) :
    Decidable (op.Meets C s) := by
  induction op using Op.casesOn <;> unfold Op.Meets <;> infer_instance

theorem run_of_meeting {s : UdcServerImpl} (ops : List Op)
    (h : Throughout (fun s op => op.Admissible s ∧ op.Meets C s) s ops) :
    Run (StepsMeeting C) s (runTrace s ops) (runState s ops) :=
  run_of_throughout (fun _ _ h => ⟨⟨h.1, rfl⟩, h.2⟩) ops h

end Deciding

end UdpConnect
