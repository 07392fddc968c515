/-
Connection attempts: what becomes of the timeout given to a connect call.

The constructor of `UdcClient` takes the ping period before the timeout period, and the
connect calls pass the user's timeout first.  So the tenth of it is what a tick compares
the age of a pending endpoint with (`timeout_whole_iff`).  The age is counted from the
connect call, while only the endpoint in front is sent for, and the tick asks whether the
time is up before it sends: an endpoint that no tick meets in front in its first tenth is
given up without having been tried (`tried_before_timeout`).
-/
import UdpConnect.Proofs.Calls

namespace UdpConnect

open Past

/-- One call, as the step function of a run. -/
def next (s : UdcServerImpl) (op : Op) : UdcServerImpl := (step s op).1

/-- A client as its connect call makes it. -/
structure Creation where
  ref : ClientRef
  id : UdcEndPointId
  address : UdcAddressMux
  timeout : Nat
  time : Milliseconds

def Creation.settings (c : Creation) : Settings := settingsOf c.id c.address c.timeout c.time

/-- The call is a connect call that makes this client. -/
def Op.Creates (c : Creation) (s : UdcServerImpl) (op : Op) : Prop :=
  s.nextRef = c.ref ∧ (step s op).2.endPointId = some c.id ∧
    match op with
    | .tryConnectIPv4 ip port timeout currentTime =>
        c.address = ⟨.ipv4 ip, port⟩ ∧ c.timeout = timeout ∧ c.time = currentTime
    | .tryConnectIPv6 ip port timeout currentTime =>
        c.address = ⟨.ipv6 ip, port⟩ ∧ c.timeout = timeout ∧ c.time = currentTime
    | _ => False

/-- The tick reports that the attempt to connect to this endpoint has timed out. -/
def TimesOut (c : Creation) (s : UdcServerImpl) (time : Milliseconds) : Prop :=
  s.tryGetFirstPendingClient = some c.ref ∧
    ∃ e, (s.updatePendingClients time).2 = some e ∧ e.eventType = .connectionTimeout ∧
      e.endPointId = c.id

section Creation

variable {s : UdcServerImpl} {op : Op} {c : Creation}

/-- What a connect call leaves under the reference it takes. -/
structure Begun (c : Creation) (s : UdcServerImpl) : Prop where
  made : Made c.ref c.settings s
  waits : (s.heap c.ref).isConnected = false
  untried : (s.heap c.ref).prevConnectAttemptTime = 0
  empty : (s.heap c.ref).reliableMessages = []
  unsent : (s.heap c.ref).reliableSentTime = 0

/-- A connect call puts a new client under the reference it takes. -/
theorem tryConnect_heap {address : UdcAddressMux} {timeout : Nat} {time : Milliseconds}
    (href : s.nextRef = c.ref) (hid : (tryConnect s address timeout time).2 = some c.id) :
    0 < timeout ∧ (tryConnect s address timeout time).1.nextRef = c.ref + 1 ∧
      (tryConnect s address timeout time).1.heap c.ref
        = (UdcClient.new c.id address timeout (tenth timeout)).startConnecting time := by
  obtain ⟨hperf, hreport⟩ := tryConnect_performs (s := s) time address timeout
  have hpositive : timeout ≠ 0 := by
    intro hzero
    rw [tryConnect, if_pos hzero] at hid
    cases hid
  have hissued : u32 (s.idCounter + 1) = c.id := by
    rw [hid, Protocol.connect, if_neg hpositive] at hreport
    exact (Report.issued.inj (Option.some.inj hreport)).symm
  have hstate := hperf.state
  rw [Protocol.connect, if_neg hpositive] at hstate
  have hheap : (tryConnect s address timeout time).1.heap = _ := congrArg Protocol.heap hstate
  have hnext : (tryConnect s address timeout time).1.nextRef = s.nextRef + 1 :=
    congrArg Protocol.nextRef hstate
  refine ⟨Nat.pos_of_ne_zero hpositive, by rw [hnext, href], ?_⟩
  rw [hheap, ← href, ← hissued]
  exact Function.update_self _ _ _

/-- **The client that a connect call makes.** -/
theorem creates_heap (h : op.Creates c s) : 0 < c.timeout ∧ (next s op).nextRef = c.ref + 1 ∧
    (next s op).heap c.ref
      = (UdcClient.new c.id c.address c.timeout (tenth c.timeout)).startConnecting c.time := by
  obtain ⟨href, hid, hargs⟩ := h
  cases op with
  | tryConnectIPv4 ip port timeout currentTime =>
      obtain ⟨haddress, htimeout, htime⟩ := hargs
      rw [haddress, htimeout, htime]
      exact tryConnect_heap href hid
  | tryConnectIPv6 ip port timeout currentTime =>
      obtain ⟨haddress, htimeout, htime⟩ := hargs
      rw [haddress, htimeout, htime]
      exact tryConnect_heap href hid
  | _ => exact absurd hargs id

theorem creates_begun (h : op.Creates c s) : 0 < c.timeout ∧ Begun c (next s op) := by
  obtain ⟨hpositive, hnext, hheap⟩ := creates_heap h
  refine ⟨hpositive, ⟨?_, ?_⟩, ?_, ?_, ?_, ?_⟩
  · rw [hnext]
    exact Nat.lt_succ_self _
  all_goals rw [hheap]; rfl

theorem tryConnect_id_lt {address : UdcAddressMux} {timeout : Nat} {time : Milliseconds}
    {id : UdcEndPointId} (h : (tryConnect s address timeout time).2 = some id) : id < 2 ^ 32 := by
  unfold tryConnect at h
  split at h
  · cases h
  · rw [← Option.some.inj h]
    exact u32_lt (s.idCounter + 1)

theorem creates_id_lt (h : op.Creates c s) : c.id < 2 ^ 32 := by
  obtain ⟨-, hid, hargs⟩ := h
  cases op with
  | tryConnectIPv4 ip port timeout currentTime => exact tryConnect_id_lt hid
  | tryConnectIPv6 ip port timeout currentTime => exact tryConnect_id_lt hid
  | _ => exact absurd hargs id

theorem runState_split (before : List Op) (op : Op) (after : List Op) :
    runState s (before ++ op :: after) = runState (next (runState s before) op) after := by
  rw [runState, List.foldl_append]
  rfl

end Creation

/-- A run of a server in which a connect call makes a client, split at that call. -/
structure Course where
  signature : UdcSignature
  buffer : MessageBuffer
  before : List Op
  call : Op
  after : List Op
  client : Creation
  admissible : Throughout (fun s op => op.Admissible s) (.new signature buffer)
    (before ++ call :: after)
  creates : call.Creates client (runState (.new signature buffer) before)

namespace Course

variable (w : Course)

def start : UdcServerImpl := .new w.signature w.buffer

def ops : List Op := w.before ++ w.call :: w.after

/-- The server that the connect call leaves. -/
def created : UdcServerImpl := next (runState w.start w.before) w.call

/-- The server at the end of the run. -/
def now : UdcServerImpl := runState w.start w.ops

theorem now_eq : w.now = runState w.created w.after := runState_split _ _ _

theorem admissible_call : w.call.Admissible (runState w.start w.before) :=
  ((throughout_append w.before (w.call :: w.after) w.start).mp w.admissible).2.1

theorem admissible_after : Throughout (fun s op => op.Admissible s) w.created w.after :=
  ((throughout_append w.before (w.call :: w.after) w.start).mp w.admissible).2.2

theorem begun : Begun w.client w.created := (creates_begun w.creates).2

/-- The client is there at the end of the run, with the settings of its connect call. -/
theorem made : Made w.client.ref w.client.settings w.now := by
  rw [now_eq]
  exact made_run w.admissible_after w.begun.made

theorem rooted : Rooted w.now.protocol := rooted_run w.admissible (rooted_new _ _)

theorem rooted_created : Rooted w.created.protocol := by
  obtain ⟨hbefore, hcall, -⟩ := (throughout_append w.before (w.call :: w.after) w.start).mp
    w.admissible
  have hroot : Rooted (runState w.start w.before).protocol := rooted_run hbefore (rooted_new _ _)
  exact step_stages (P := fun t => Rooted t.protocol) hcall
    (fun _ _ h hstage => rooted_stage h hstage) hroot

theorem timeout_lt : w.client.timeout < 2 ^ 32 := by
  obtain ⟨-, -, hargs⟩ := w.creates
  have hadm := w.admissible_call
  cases hcall : w.call with
  | tryConnectIPv4 ip port timeout currentTime =>
      rw [hcall] at hargs hadm
      exact hargs.2.1 ▸ hadm
  | tryConnectIPv6 ip port timeout currentTime =>
      rw [hcall] at hargs hadm
      exact hargs.2.1 ▸ hadm
  | _ =>
      rw [hcall] at hargs
      exact absurd hargs id

end Course

/-! ### The whole timeout -/

section Timeout

variable {s : UdcServerImpl} {op : Op} {c : Creation} {before after : List Op}

/-- A tick gives up the endpoint in front exactly if a tenth of its timeout is over. -/
theorem timesOut_iff (h : Made c.ref c.settings s) (time : Milliseconds) :
    TimesOut c s time ↔
      s.pendingClients.head? = some c.ref ∧ tenth c.timeout ≤ time - c.time := by
  have hneeds : (s.heap c.ref).needsConnectionTimeoutEvent time = true ↔
      tenth c.timeout ≤ time - c.time := by
    have hfirst : (s.heap c.ref).firstConnectAttemptTime = c.time :=
      congrArg Settings.firstConnectAttemptTime h.settings
    have hperiod : (s.heap c.ref).connectionTimeoutPeriod = tenth c.timeout :=
      congrArg Settings.connectionTimeoutPeriod h.settings
    rw [UdcClient.needsConnectionTimeoutEvent, hfirst, hperiod, decide_eq_true_iff]
  have hid : (s.heap c.ref).id = c.id := congrArg Settings.id h.settings
  constructor
  · rintro ⟨hfront, e, he, htype, -⟩
    refine ⟨hfront, hneeds.mp ?_⟩
    by_contra hnot
    replace hnot : ¬ (s.protocol.heap c.ref).needsConnectionTimeoutEvent time = true := hnot
    have hreport := (updatePendingClients_performs (s := s) time).report
    rw [he, Option.map_some] at hreport
    simp only [Protocol.poll,
      show s.protocol.pendingClients.head? = some c.ref from hfront] at hreport
    rw [if_neg hnot] at hreport
    split at hreport <;> cases hreport
  · rintro ⟨hfront, hlong⟩
    refine ⟨hfront, ?_⟩
    unfold UdcServerImpl.updatePendingClients
    rw [show s.tryGetFirstPendingClient = some c.ref from hfront]
    simp only [if_pos (hneeds.mpr hlong)]
    exact ⟨_, rfl, rfl, hid⟩

/--
**An attempt is given up early exactly if a tick meets it in front between a tenth of its
timeout and the whole of it.**
-/
theorem timeout_whole_iff (w : Course) (time : Milliseconds) :
    (TimesOut w.client w.now time → w.client.timeout ≤ time - w.client.time) ↔
      ¬ (w.now.pendingClients.head? = some w.client.ref ∧
        tenth w.client.timeout ≤ time - w.client.time ∧
          time - w.client.time < w.client.timeout) := by
  rw [timesOut_iff w.made]
  constructor
  · rintro h ⟨hfront, htenth, hless⟩
    exact not_lt.mpr (h ⟨hfront, htenth⟩) hless
  · rintro h ⟨hfront, htenth⟩
    by_contra hless
    exact h ⟨hfront, htenth, not_le.mp hless⟩

/-- The clock of a machine that has been on for a while. -/
def exampleTime : Milliseconds := 2 ^ 40

/-- A connect call with a timeout of a second. -/
def exampleCreation : Creation := ⟨0, 1, ⟨.ipv4 (exampleIP 2), 2⟩, 1000, exampleTime⟩

def exampleConnect : Op := .tryConnectIPv4 (exampleIP 2) 2 1000 exampleTime

/-- A server with a socket. -/
def exampleBound : List Op := [.tryBindIPv4 true]

theorem creates_exampleConnect :
    exampleConnect.Creates exampleCreation (runState exampleServer exampleBound) :=
  ⟨rfl, rfl, rfl, rfl, rfl⟩

/-- The server after the connect call, and what is done next. -/
def exampleCourse (after : List Op)
    (hadm : Throughout (fun s op => op.Admissible s) exampleServer
      (exampleBound ++ exampleConnect :: after)) : Course :=
  ⟨exampleSignature, exampleBuffer, exampleBound, exampleConnect, after, exampleCreation, hadm,
    creates_exampleConnect⟩

theorem timeout_after_a_tenth : ¬ ∀ (w : Course) (time : Milliseconds),
    TimesOut w.client w.now time → w.client.timeout ≤ time - w.client.time := by
  intro h
  have hearly := h (exampleCourse [] (by decide)) (exampleTime + 100) ⟨rfl, _, rfl, rfl, rfl⟩
  exact absurd hearly (by decide)

end Timeout

/-! ### At least one request -/

/-- A connection request for this endpoint has been handed to the sockets. -/
def Requested (c : Creation) (s : UdcServerImpl) : Prop :=
  ∃ packet ∈ s.socket.history.sent, packet.address = c.address ∧
    ∃ front, front.length = 4 ∧ packet.bytes = encode front (.connectionRequest c.id)

/-- The call is a tick that meets the endpoint in front, in the first tenth of its timeout. -/
def Op.MeetsEarly (c : Creation) (s : UdcServerImpl) : Op → Prop
  | .updatePendingClients time =>
      s.pendingClients.head? = some c.ref ∧ time - c.time < tenth c.timeout
  | _ => False

section Requests

variable {s s' : UdcServerImpl} {op : Op} {c : Creation} {before after : List Op}
  {time : Milliseconds}

theorem prevConnectAttemptTime_step {p : Protocol} {r : ClientRef} {change : Change}
    {c' : UdcClient} (h : p.ClientStep r change c') :
    c'.prevConnectAttemptTime = (p.heap r).prevConnectAttemptTime ∨
      ∃ time, change = .poll time ∧ p.pendingClients.head? = some r ∧
        (p.heap r).needsConnectionTimeoutEvent time = false ∧
        (p.heap r).needsConnectionAttempt time = true := by
  cases h with
  | same => exact Or.inl rfl
  | push => exact Or.inl rfl
  | retry hfront hearly hdue => exact Or.inr ⟨_, rfl, hfront, hearly, hdue⟩
  | turn hlookup =>
      obtain ⟨state, sent, connected, hturned⟩ := turned_only (p.heap r) _
      rw [hturned]
      exact Or.inl rfl
  | handshake h =>
      rw [receiveConnectionHandshake_eq]
      exact Or.inl rfl
  | pong h =>
      rw [receivePong_eq]
      exact Or.inl rfl
  | reliableHandshake h =>
      obtain ⟨state, sent, queue, haccepted⟩ := acceptHandshake_only (p.heap r) (stateOf _)
      rw [receivePong_eq, haccepted]
      exact Or.inl rfl

theorem requested_sent (h : Requested c s) {new : List Packet}
    (hsent : s'.socket.history.sent = s.socket.history.sent ++ new) : Requested c s' := by
  obtain ⟨packet, hmem, hpacket⟩ := h
  refine ⟨packet, ?_, hpacket⟩
  rw [hsent]
  exact List.mem_append_left _ hmem

theorem requested_stage (h : Requested c s) (hstage : Stage op s s') : Requested c s' := by
  cases hstage with
  | quiet hquiet => exact requested_sent h (hquiet.sent.trans (List.append_nil _).symm)
  | call hasks hperf hstate hsends =>
      obtain ⟨new, hsocket, -⟩ := hperf.socket
      exact requested_sent h (by rw [hsocket])
  | turn hop hturn => exact requested_sent h hturn.sent

/-- A tick that tries the endpoint in front hands a request for it to the sockets. -/
theorem requested_poll {event : Option UdcEvent} {reaction : Reaction}
    (hmade : Made c.ref c.settings s) (hperf : Performs s s' event reaction)
    (hsends : reaction.sends = (s.protocol.poll time).sends)
    (hfront : s.protocol.pendingClients.head? = some c.ref)
    (hearly : (s.protocol.heap c.ref).needsConnectionTimeoutEvent time = false)
    (hdue : (s.protocol.heap c.ref).needsConnectionAttempt time = true) : Requested c s' := by
  have hsettings : (s.protocol.heap c.ref).settings = c.settings := hmade.settings
  have haddress : (s.protocol.heap c.ref).outgoingAddress = c.address :=
    congrArg Settings.outgoingAddress hsettings
  have hid : (s.protocol.heap c.ref).id = c.id := congrArg Settings.id hsettings
  simp only [Protocol.poll, hfront, hearly, hdue, Bool.false_eq_true, if_false, if_true,
    haddress, hid] at hsends
  obtain ⟨new, hsocket, hnew⟩ := hperf.socket
  have hfits : ∀ x ∈ reaction.sends, x.2.Fits s.messageBufferSize := by
    rw [hsends]
    intro x hx
    rw [List.mem_singleton.mp hx]
    exact ⟨show 0 < 2 ^ 32 by decide, nine_le s⟩
  rw [hnew hfits, hsends] at hsocket
  refine ⟨_, by rw [hsocket]; exact List.mem_append_right _ List.mem_cons_self, rfl, s.front,
    length_front, ?_⟩
  exact wire_word length_front rfl

/-- The client is there, and a request has been sent for it if its attempt time is set. -/
structure Tried (c : Creation) (s : UdcServerImpl) : Prop where
  made : Made c.ref c.settings s
  sent : (s.heap c.ref).prevConnectAttemptTime ≠ 0 → Requested c s

theorem tried_stage (h : Tried c s) (hstage : Stage op s s') : Tried c s' := by
  refine ⟨made_stage h.made hstage, ?_⟩
  intro htried
  by_cases hprev : (s.heap c.ref).prevConnectAttemptTime = 0
  · -- the attempt time is set by a poll only, which sends a request
    cases hstage with
    | quiet hquiet =>
        have hheap : s'.heap = s.heap := congrArg Protocol.heap hquiet.state
        rw [hheap] at htried
        exact absurd hprev htried
    | @call change event reaction hasks hperf hstate hsends =>
        have hheap : s'.heap = _ := congrArg Protocol.heap (hperf.state.trans hstate)
        rcases prevConnectAttemptTime_step (client_step (p := s.protocol) change
          fun _ => h.made.lt) with hsame | ⟨time, rfl, hfront, hearly, hdue⟩
        · rw [hheap, hsame] at htried
          exact absurd hprev htried
        · exact requested_poll h.made hperf hsends hfront hearly hdue
    | turn hop hturn =>
        rcases protocol_turn hturn with ⟨-, hstate⟩ | ⟨m, -, hstate⟩
        · have hheap : s'.heap = s.heap := congrArg Protocol.heap hstate
          rw [hheap] at htried
          exact absurd hprev htried
        · have hheap : s'.heap = _ := congrArg Protocol.heap hstate
          rcases prevConnectAttemptTime_step (handle_step s.protocol c.ref _ _ m) with
            hsame | ⟨time, hchange, -⟩
          · rw [hheap, hsame] at htried
            exact absurd hprev htried
          · cases hchange
  · exact requested_stage (h.sent hprev) hstage

theorem elapsed_since_zero {time : Int} {timeout : Nat} (htimeout : timeout < 2 ^ 32)
    (hclock : 2 ^ 32 ≤ time) : time - 0 ≥ timeout := by
  omega

/-- A tick that meets the endpoint early leaves a request behind, now or from before. -/
theorem requested_met (h : Tried c s) (htimeout : c.timeout < 2 ^ 32) (hclock : 2 ^ 32 ≤ time)
    (hmet : (Op.updatePendingClients time).MeetsEarly c s) :
    Requested c (next s (.updatePendingClients time)) := by
  obtain ⟨hfront, hage⟩ := hmet
  have hsettings := h.made.settings
  have hearly : (s.heap c.ref).needsConnectionTimeoutEvent time = false := by
    have hfirst : (s.heap c.ref).firstConnectAttemptTime = c.time :=
      congrArg Settings.firstConnectAttemptTime hsettings
    have hperiod : (s.heap c.ref).connectionTimeoutPeriod = tenth c.timeout :=
      congrArg Settings.connectionTimeoutPeriod hsettings
    rw [UdcClient.needsConnectionTimeoutEvent, hfirst, hperiod, decide_eq_false_iff_not]
    exact not_le.mpr hage
  have hperf := updatePendingClients_performs (s := s) time
  cases hdue : (s.heap c.ref).needsConnectionAttempt time with
  | true => exact requested_poll h.made hperf rfl hfront hearly hdue
  | false =>
      have htried : (s.heap c.ref).prevConnectAttemptTime ≠ 0 := by
        intro hprev
        have hperiod : (s.heap c.ref).connectionAttemptPeriod = c.timeout :=
          congrArg Settings.connectionAttemptPeriod hsettings
        rw [UdcClient.needsConnectionAttempt, hprev, hperiod, decide_eq_false_iff_not] at hdue
        exact hdue (elapsed_since_zero htimeout hclock)
      have hstage : Stage (.updatePendingClients time) s (next s (.updatePendingClients time)) :=
        .performs (.poll time) hperf
      exact requested_stage (h.sent htried) hstage

/--
**An endpoint that some tick has met in front in the first tenth of its timeout is not given
up without a request.**
-/
theorem tried_before_timeout (w : Course)
    (hclock : ∀ t, .updatePendingClients t ∈ w.after → 2 ^ 32 ≤ t)
    (_ : TimesOut w.client w.now time)
    (hmet : Once next (Op.MeetsEarly w.client) w.created w.after) :
    Requested w.client w.now := by
  rw [w.now_eq]
  have hrun := w.admissible_after
  obtain ⟨first, tick, last, hsplit, htick⟩ := hmet
  rw [hsplit] at hclock hrun ⊢
  have htried : Tried w.client (runState w.created first) :=
    run_stages (fun _ _ _ h hstage => tried_stage h hstage) first _
      ((throughout_append first (tick :: last) _).mp hrun).1
      ⟨w.begun.made, fun h => absurd w.begun.untried h⟩
  cases tick with
  | updatePendingClients t =>
      have hsent := requested_met htried w.timeout_lt
        (hclock t (List.mem_append_right _ List.mem_cons_self)) htick
      rw [runState_split]
      exact run_stages (fun _ _ _ h hstage => requested_stage h hstage) last _
        ((throughout_append first _ _).mp hrun).2.2 hsent
  | _ => exact absurd htick id

/-- A tick right after the connect call. -/
def exampleTick : List Op := [.updatePendingClients exampleTime]

theorem tried_before_timeout_once :
    Requested exampleCreation (exampleCourse exampleTick (by decide)).now :=
  have hclock : ∀ t, .updatePendingClients t ∈ exampleTick → (2 ^ 32 : Milliseconds) ≤ t := by
    intro t ht
    obtain rfl := Op.updatePendingClients.inj (List.mem_singleton.mp ht)
    decide
  have htimeout : TimesOut exampleCreation (exampleCourse exampleTick (by decide)).now
    (exampleTime + 100) := ⟨rfl, _, rfl, rfl, rfl⟩
  tried_before_timeout (exampleCourse exampleTick (by decide)) hclock htimeout
    ⟨[], _, [], rfl, rfl, by decide⟩

theorem timeout_without_request : ¬ ∀ (w : Course) (time : Milliseconds),
    (∀ t, .updatePendingClients t ∈ w.after → 2 ^ 32 ≤ t) → 2 ^ 32 ≤ time →
      TimesOut w.client w.now time → Requested w.client w.now := by
  intro h
  obtain ⟨packet, hmem, -⟩ := h (exampleCourse [] (by decide)) (exampleTime + 100)
    (fun t ht => by cases ht) (by decide) ⟨rfl, _, rfl, rfl, rfl⟩
  cases hmem

end Requests

end UdpConnect
