/-
What the application hears from an address, and what the address hears back.

`listen` says in three lines what the receiving side of a server is for: per address it is
a machine with at most one bit, which reads the messages of that address and gives out
payloads.  `listener_spec` shows that the server is this machine, over whole runs and for
every address at once: what it reports from an address depends on the datagrams it took
from there, and on nothing else.  No connection is asked for, by the code or here.

The other direction is `strangers_echoed`: to an address that no connect call names the
server sends one echo for each message that asks for one, and nothing else, so it never
sends there more than it got.
-/
import UdpConnect.Lib.Transducer
import UdpConnect.Proofs.Commute
import UdpConnect.Proofs.Community

namespace UdpConnect

open Memory AlternatingBit Transducer

/-! ### The machine behind an address -/

/-- The bit expected next, if any message has set one, and the payloads to report. -/
def listen (expected : Option Bool) : Message → Option Bool × List (UdcMessageType × List UInt8)
  | .unreliable data => (expected, [(.unreliableMessage, data)])
  | .reliable .reset _ _ => (expected.map fun _ => false, [])
  | .reliable (.bit b) _ data =>
      (some !b, if expected.all (· = b) then [(.reliableMessage, data)] else [])
  | _ => (expected, [])

/-- What an event shows of a payload: where it stands in the buffer, and the bytes there. -/
def shown (x : UdcMessageType × List UInt8) : Nat × List UInt8 := (x.1.offset, x.2)

/-- The messages in what came from an address. -/
def readFrom (signature : UdcSignature) (address : UdcAddressMux) (got : List Packet) :
    List Message :=
  (got.filter (·.address = address)).filterMap fun p => decode signature.bytes p.bytes

/-- What a report shows of a message of the address. -/
def Report.heardFrom (address : UdcAddressMux) : Report → Option (Nat × List UInt8)
  | .message fromAddress msgIndex data =>
      if fromAddress = address then some (msgIndex, data) else none
  | _ => none

/-- What the event of a call shows of a message of the address, once the call has returned. -/
def heardIn (address : UdcAddressMux) (s : UdcServerImpl) (event : Option UdcEvent) :
    List (Nat × List UInt8) :=
  ((event.map (UdcEvent.report s.messageBuffer)).bind (Report.heardFrom address)).toList

/-- Everything the application hears from the address in a run. -/
def heardFrom (address : UdcAddressMux) (s : UdcServerImpl) : List Op → List (Nat × List UInt8)
  | [] => []
  | op :: ops =>
      heardIn address (step s op).1 (step s op).2.event ++ heardFrom address (step s op).1 ops

/-- The server holds the state of the machine. -/
def Protocol.Expects (p : Protocol) (address : UdcAddressMux) (expected : Option Bool) : Prop :=
  p.reliableStates.lookup address = expected.map fun b => stateOf (.bit b)

section Machine

variable {p : Protocol} {address source : UdcAddressMux} {time : Milliseconds} {m : Message}
  {expected : Option Bool}

theorem readFrom_append (signature : UdcSignature) (address : UdcAddressMux)
    (got got' : List Packet) : readFrom signature address (got ++ got')
      = readFrom signature address got ++ readFrom signature address got' := by
  unfold readFrom
  rw [List.filter_append, List.filterMap_append]

theorem expects_accepts (h : p.Expects address expected) (b : Bool) :
    (p.reliableStates.lookup address = none ∨
      p.reliableStates.lookup address = some (stateOf (.bit b))) ↔
        expected.all (· = b) = true := by
  rw [h]
  cases expected with
  | none => simp
  | some e => simp [stateOf_inj]

theorem bits_reliable (kind : Kind) (timeStamp : Nat) (data : List UInt8) :
    (p.reliable source kind timeStamp data).state.reliableStates
      = stepBits source kind p.reliableStates := by
  have hstep : (p.reliable source kind timeStamp data).step = _ := reliable_step kind data
  exact congrArg (fun x => x.1.reliableStates) hstep

/-- A message without a payload is not reported as one. -/
theorem heardFrom_handle (address : UdcAddressMux) (hm : m.payload = none) :
    ((p.handle source time m).report.bind (Report.heardFrom address)) = none := by
  cases hreport : (p.handle source time m).report with
  | none => rfl
  | some report =>
      cases report with
      | message fromAddress msgIndex data =>
          obtain ⟨-, type, hpayload, -⟩ := payload_reported hreport
          rw [hm] at hpayload
          cases hpayload
      | issued id => rfl
      | connection eventType id => rfl

/-- A message from somewhere else neither moves the machine of an address nor is heard there. -/
theorem handle_elsewhere (h : p.Expects address expected) (hne : source ≠ address)
    (time : Milliseconds) (m : Message) :
    (p.handle source time m).state.Expects address expected ∧
      ((p.handle source time m).report.bind (Report.heardFrom address)) = none := by
  constructor
  · unfold Protocol.Expects
    rw [← h]
    cases m with
    | reliable kind timeStamp data =>
        simp only [Protocol.handle]
        rw [bits_reliable, lookup_stepBits, if_neg (Ne.symm hne)]
    | _ => rw [(handle_other p source time rfl).1]
  · cases hreport : (p.handle source time m).report with
    | none => rfl
    | some report =>
        cases report with
        | message fromAddress msgIndex data =>
            obtain ⟨rfl, -⟩ := payload_reported hreport
            simp only [Option.bind_some, Report.heardFrom, if_neg hne]
        | issued id => rfl
        | connection eventType id => rfl

/-- A message of the address is a letter of its machine. -/
theorem handle_listen (h : p.Expects address expected) (time : Milliseconds) (m : Message) :
    (p.handle address time m).state.Expects address (listen expected m).1 ∧
      ((p.handle address time m).report.bind (Report.heardFrom address)).toList
        = (listen expected m).2.map shown := by
  cases m with
  | unreliable data =>
      refine ⟨h, ?_⟩
      simp [Protocol.handle, Report.heardFrom, listen, shown, UdcMessageType.offset]
  | reliable kind timeStamp data =>
      unfold Protocol.Expects
      simp only [Protocol.handle]
      rw [bits_reliable, lookup_stepBits, if_pos rfl, h]
      cases kind with
      | reset =>
          refine ⟨?_, rfl⟩
          cases expected <;> rfl
      | bit b =>
          refine ⟨rfl, ?_⟩
          simp only [Protocol.reliable, expects_accepts h b, listen]
          split
          · simp [Report.heardFrom, shown, UdcMessageType.offset]
          · rfl
  | connectionRequest id => exact ⟨h, rfl⟩
  | ping timeStamp => exact ⟨h, rfl⟩
  | connectionHandshake id =>
      refine ⟨(congrArg _ (handle_other p address time rfl).1).trans h, ?_⟩
      rw [heardFrom_handle address rfl]
      rfl
  | pong timeStamp =>
      refine ⟨(congrArg _ (handle_other p address time rfl).1).trans h, ?_⟩
      rw [heardFrom_handle address rfl]
      rfl
  | reliableHandshake kind timeStamp =>
      refine ⟨(congrArg _ (handle_other p address time rfl).1).trans h, ?_⟩
      rw [heardFrom_handle address rfl]
      rfl

end Machine

/-! ### The server is the machine -/

/-- Between two moments the machine of the address reads what came from there, and gives out
what is heard. -/
structure Heeds (address : UdcAddressMux) (s t : UdcServerImpl)
    (heard : List (Nat × List UInt8)) : Prop where
  signature : t.packetSignature = s.packetSignature
  reads : ∀ expected, s.protocol.Expects address expected → ∃ got outs expected',
    t.socket.history.received = s.socket.history.received ++ got ∧
      Reads listen expected (readFrom s.packetSignature address got) outs expected' ∧
      heard = outs.map shown ∧ t.protocol.Expects address expected'

section Heeds

variable {address : UdcAddressMux} {s t u : UdcServerImpl} {op : Op} {ops : List Op}
  {heard heard' : List (Nat × List UInt8)} {time : Milliseconds} {packet : Packet}
  {event : Option UdcEvent} {c : Change} {p : Protocol}

theorem heeds_still (hsignature : t.packetSignature = s.packetSignature)
    (hreceived : t.socket.history.received = s.socket.history.received)
    (hstates : t.protocol.reliableStates = s.protocol.reliableStates) : Heeds address s t [] where
  signature := hsignature
  reads expected h := ⟨[], [], expected, by rw [hreceived, List.append_nil], .refl _, rfl, by
    unfold Protocol.Expects
    rw [hstates]
    exact h⟩

theorem Heeds.trans (h : Heeds address s t heard) (h' : Heeds address t u heard') :
    Heeds address s u (heard ++ heard') where
  signature := h'.signature.trans h.signature
  reads expected hexpected := by
    obtain ⟨got, outs, e, hgot, hreads, hheard, he⟩ := h.reads expected hexpected
    obtain ⟨got', outs', e', hgot', hreads', hheard', he'⟩ := h'.reads e he
    refine ⟨got ++ got', outs ++ outs', e', ?_, ?_, ?_, he'⟩
    · rw [hgot', hgot, List.append_assoc]
    · rw [readFrom_append, ← h.signature]
      rw [h.signature] at hreads' ⊢
      exact hreads.trans hreads'
    · rw [hheard, hheard', List.map_append]

/-- A turn of the receive loop reads the messages of one datagram. -/
theorem heeds_turn (hturn : Turn time s packet t event) :
    Heeds address s t (heardIn address t event) where
  signature := hturn.signature
  reads expected h := by
    have hheard : heardIn address t event = ((s.protocol.react s.packetSignature time
        packet).report.bind (Report.heardFrom address)).toList := by
      rw [← hturn.report]
      rfl
    rw [hheard, hturn.state]
    unfold Protocol.react readFrom
    cases hread : decode s.packetSignature.bytes packet.bytes with
    | none =>
        refine ⟨[packet], [], expected, hturn.received, ?_, rfl, h⟩
        have hnothing : ([packet].filter (·.address = address)).filterMap
            (fun p => decode s.packetSignature.bytes p.bytes) = [] := by
          by_cases haddress : packet.address = address <;> simp [haddress, hread]
        rw [hnothing]
        exact .refl _
    | some m =>
        by_cases haddress : packet.address = address
        · obtain ⟨hexpects, hreport⟩ := handle_listen h time m
          refine ⟨[packet], (listen expected m).2, (listen expected m).1, hturn.received, ?_, ?_,
            ?_⟩
          · have hletter : ([packet].filter (·.address = address)).filterMap
                (fun p => decode s.packetSignature.bytes p.bytes) = [m] := by
              simp [haddress, hread]
            rw [hletter]
            exact reads_letter listen expected m
          · simp only [haddress, hreport]
          · simp only [haddress]
            exact hexpects
        · obtain ⟨hexpects, hreport⟩ := handle_elsewhere h haddress time m
          refine ⟨[packet], [], expected, hturn.received, ?_, ?_, hexpects⟩
          · have hnothing : ([packet].filter (·.address = address)).filterMap
                (fun p => decode s.packetSignature.bytes p.bytes) = [] := by
              simp [haddress]
            rw [hnothing]
            exact .refl _
          · simp only [hreport]
            rfl

theorem heeds_receiveMessages (address : UdcAddressMux) (s : UdcServerImpl)
    (time : Milliseconds) : Heeds address s (s.receiveMessages time).1
      (heardIn address (s.receiveMessages time).1 (s.receiveMessages time).2) := by
  refine receiveMessages_rule time (P := fun t => Heeds address s t [])
    (Q := fun t event => Heeds address s t (heardIn address t event)) (C := fun _ => True)
    ?_ ?_ ?_ (fun _ _ => trivial) (heeds_still rfl rfl rfl)
  · intro t t' h hlast
    exact h.trans (heeds_still hlast.signature hlast.received
      (congrArg Protocol.reliableStates hlast.state))
  · intro t packet t' h hturn _
    exact h.trans (heeds_turn hturn)
  · intro t packet t' e h hturn _
    exact h.trans (heeds_turn hturn)

/-- What a call asks of the machine leaves the receive bits. -/
theorem states_asks (hasks : op.Asks s c) :
    (p.change c).state.reliableStates = p.reliableStates := by
  cases hasks with
  | connectIPv4 ip port timeout time | connectIPv6 ip port timeout time =>
      simp only [Protocol.change, Protocol.connect]
      split <;> rfl
  | disconnect id =>
      simp only [Protocol.change, Protocol.disconnect]
      split <;> rfl
  | say id hfits =>
      simp only [Protocol.change, Protocol.say]
      split
      · rfl
      · split <;> rfl
  | push id hlen hfits =>
      simp only [Protocol.change, Protocol.push]
      split <;> rfl
  | poll time =>
      simp only [Protocol.change, Protocol.poll]
      split
      · rfl
      · split
        · rfl
        · split <;> rfl
  | tick time order id =>
      simp only [Protocol.change, Protocol.tick]
      split
      · rfl
      · rw [tickClient_state]
        rfl

/-- The events of the other calls are about connections. -/
theorem heardIn_other (hop : ∀ time, op ≠ .receiveMessages time) :
    heardIn address (step s op).1 (step s op).2.event = [] := by
  cases op with
  | receiveMessages time => exact absurd rfl (hop time)
  | updatePendingClients time =>
      have hreport := (updatePendingClients_performs (s := s) time).report
      unfold heardIn
      simp only [step]
      rw [hreport]
      unfold Protocol.poll
      split
      · rfl
      · split
        · rfl
        · split <;> rfl
  | updateClientConnectionStatus time order =>
      refine updateClientConnectionStatus_rule time (P := fun _ => True)
        (Q := fun t event => heardIn address t event = []) (fun _ _ => rfl)
        (fun _ _ _ _ _ => trivial) (fun t id t' e _ hperf => ?_) order s trivial
      unfold heardIn
      rw [hperf.report]
      unfold Protocol.tick
      split
      · rfl
      · unfold Protocol.tickClient
        simp only
        split <;> rfl
  | _ => rfl

theorem heeds_step (hadm : op.Admissible s) :
    Heeds address s (step s op).1 (heardIn address (step s op).1 (step s op).2.event) := by
  by_cases hreceive : ∃ time, op = .receiveMessages time
  · obtain ⟨time, rfl⟩ := hreceive
    exact heeds_receiveMessages address s time
  · rw [heardIn_other fun time h => hreceive ⟨time, h⟩]
    refine step_stages (P := fun t => Heeds address s t []) hadm (fun t t' h hstage => ?_)
      (heeds_still rfl rfl rfl)
    refine h.trans ?_
    cases hstage with
    | quiet hquiet =>
        exact heeds_still hquiet.signature hquiet.received
          (congrArg Protocol.reliableStates hquiet.state)
    | call hasks hperf hstate hsends =>
        obtain ⟨new, hsocket, -⟩ := hperf.socket
        refine heeds_still hperf.signature (by rw [hsocket]) ?_
        rw [hperf.state, hstate, states_asks hasks]
    | turn hop hturn => exact absurd ⟨_, hop⟩ hreceive

theorem heeds_run : ∀ s, Throughout (fun s op => op.Admissible s) s ops →
    Heeds address s (runState s ops) (heardFrom address s ops) := by
  induction ops with
  | nil =>
      intro s _
      exact heeds_still rfl rfl rfl
  | cons op ops ih =>
      intro s h
      exact (heeds_step h.1).trans (ih _ h.2)

/--
**What is heard from an address is what its machine makes of the datagrams taken from
there.**  Nothing else in the run has a part in it: no other address, no connection, no
clock and no call.
-/
theorem listener_spec {signature : UdcSignature} {buffer : MessageBuffer}
    (h : Throughout (fun s op => op.Admissible s) (.new signature buffer) ops)
    (address : UdcAddressMux) :
    heardFrom address (.new signature buffer) ops
        = (run listen (readFrom signature address
            (runState (.new signature buffer) ops).socket.history.received) none).2.map shown ∧
      (runState (.new signature buffer) ops).reliableStates.lookup address
        = (run listen (readFrom signature address
            (runState (.new signature buffer) ops).socket.history.received) none).1.map
              fun b => stateOf (.bit b) := by
  have hheeds : Heeds address (.new signature buffer) (runState (.new signature buffer) ops)
      (heardFrom address (.new signature buffer) ops) := heeds_run _ h
  obtain ⟨got, outs, expected, hgot, hreads, hheard, hexpects⟩ := hheeds.reads none rfl
  have hreceived : (runState (.new signature buffer) ops).socket.history.received = got := hgot
  have hrun : run listen (readFrom signature address got) none = (expected, outs) := hreads
  rw [hreceived, hrun]
  exact ⟨hheard, hexpects⟩

end Heeds

/-- The address of an endpoint nobody asks for a connection. -/
def strangerAddress : UdcAddressMux := ⟨.ipv4 (exampleIP 7), 7⟩

/-- A datagram of the stranger's arrives. -/
def fromStranger (bytes : List UInt8) : Op :=
  .arriveIPv4 0 (.datagram ⟨exampleIP 7, 7, [1, 2, 3, 4] ++ bytes, default⟩)

/-- The stranger says something, says a reliable message twice, and asks for a connection and a
pong; the endpoint that was asked says something too. -/
def strangerOps : List Op :=
  connectedOps ++ [fromStranger [4, 5], fromStranger [6, 1, 0, 0, 0, 9],
    fromStranger [6, 2, 0, 0, 0, 9], fromStranger [0, 8, 0, 0, 0], fromStranger [2, 3, 0, 0, 0],
    .arriveIPv4 0 (.datagram ⟨exampleIP 2, 2, [1, 2, 3, 4, 4, 6], default⟩),
    .receiveMessages 11, .receiveMessages 12, .receiveMessages 13, .receiveMessages 14]

theorem listener_spec_stranger :
    heardFrom strangerAddress exampleServer strangerOps = [(5, [5]), (9, [9])] := by
  have hadm : Throughout (fun s op => op.Admissible s) exampleServer strangerOps := by
    decide +kernel
  exact (listener_spec hadm strangerAddress).1.trans (by decide +kernel)

/-! ### What a stranger hears back -/

/-- What a server sends back for a message, whatever its state. -/
def Message.echo : Message → Option Message
  | .connectionRequest endPointId => some (.connectionHandshake endPointId)
  | .ping timeStamp => some (.pong timeStamp)
  | .reliable kind timeStamp _ => some (.reliableHandshake kind timeStamp)
  | _ => none

/-- The address a connect call names. -/
def Op.names : Op → Option UdcAddressMux
  | .tryConnectIPv4 ip port _ _ => some ⟨.ipv4 ip, port⟩
  | .tryConnectIPv6 ip port _ _ => some ⟨.ipv6 ip, port⟩
  | _ => none

/-- What was sent to the address. -/
def sentTo (address : UdcAddressMux) (s : UdcServerImpl) : List Packet :=
  s.socket.history.sent.filter (·.address = address)

/-- The echoes owed to the address, in order. -/
def echoes (signature : UdcSignature) (address : UdcAddressMux) (got : List Packet) :
    List (List UInt8) :=
  ((readFrom signature address got).filterMap Message.echo).map (encode signature.bytes)

section Echoes

variable {p : Protocol} {address source : UdcAddressMux} {time : Milliseconds} {m m' : Message}
  {signature : UdcSignature} {data : List UInt8} {got : List Packet}

theorem echo_sends (p : Protocol) (source : UdcAddressMux) (time : Milliseconds) (m : Message) :
    (p.handle source time m).sends = m.echo.toList.map fun m' => (source, m') := by
  cases m with
  | connectionHandshake id => exact handshake_sends id
  | pong timeStamp => exact answer_sends timeStamp _
  | reliableHandshake kind timeStamp => exact answer_sends timeStamp _
  | reliable kind timeStamp data => cases kind <;> rfl
  | _ => rfl

theorem length_echo (hm : m.echo = some m') : m'.body.length = 4 := by
  cases m with
  | connectionRequest id | ping timeStamp | reliable kind timeStamp data =>
      cases hm
      exact length_le32 _
  | _ => cases hm

/-- A message that asks for an echo is as long as the echo, or longer. -/
theorem length_asks (hread : decode signature.bytes data = some m) (hm : m.echo = some m') :
    (encode signature.bytes m').length ≤ data.length := by
  obtain ⟨rfl, -⟩ := encode_of_decode hread
  have hword := length_echo hm
  have hasks : 4 ≤ m.body.length := by
    cases m with
    | connectionRequest id | ping timeStamp => exact Nat.le_of_eq (length_le32 _).symm
    | reliable kind timeStamp data =>
        cases kind with
        | reset => exact Nat.le_of_eq (length_le32 _).symm
        | bit b =>
            simp only [Message.body, List.length_append, length_le32]
            exact Nat.le_add_right 4 _
    | _ => cases hm
  simp only [encode, List.length_append, List.length_cons, hword]
  omega

theorem echoes_append (signature : UdcSignature) (address : UdcAddressMux)
    (got got' : List Packet) : echoes signature address (got ++ got')
      = echoes signature address got ++ echoes signature address got' := by
  unfold echoes
  rw [readFrom_append, List.filterMap_append, List.map_append]

/-- The echoes of one datagram. -/
theorem echoes_packet (signature : UdcSignature) (address : UdcAddressMux) (packet : Packet) :
    echoes signature address [packet] =
      if packet.address = address then
        (((decode signature.bytes packet.bytes).bind Message.echo).map
          (encode signature.bytes)).toList
      else [] := by
  unfold echoes readFrom
  by_cases h : packet.address = address
  · cases hread : decode signature.bytes packet.bytes with
    | none => simp [h, hread]
    | some m => cases hm : m.echo <;> simp [h, hread, hm]
  · simp [h]

/-- What is owed to an address is no longer than what came from there. -/
theorem echoes_length (signature : UdcSignature) (address : UdcAddressMux) (got : List Packet) :
    ((echoes signature address got).map List.length).sum
      ≤ ((got.filter (·.address = address)).map fun p => p.bytes.length).sum := by
  induction got with
  | nil => exact Nat.le_refl _
  | cons packet got ih =>
      rw [← List.singleton_append, echoes_append, List.filter_append, List.map_append,
        List.map_append, List.sum_append, List.sum_append]
      refine Nat.add_le_add ?_ ih
      rw [echoes_packet]
      by_cases haddress : packet.address = address
      · rw [if_pos haddress]
        cases hread : decode signature.bytes packet.bytes with
        | none => exact Nat.zero_le _
        | some m =>
            cases hm : m.echo with
            | none => simp [hm]
            | some m' => simpa [haddress, hm] using length_asks hread hm
      · rw [if_neg haddress]
        exact Nat.zero_le _

end Echoes

/-- No client there is, or was, has the address, and all that went there are the echoes. -/
structure Stranger (signature : UdcSignature) (address : UdcAddressMux) (s : UdcServerImpl) :
    Prop where
  ready : Ready s
  signed : s.packetSignature = signature
  elsewhere : ∀ r < s.nextRef, (s.heap r).outgoingAddress ≠ address
  echoed : (sentTo address s).map Packet.bytes
    = echoes signature address s.socket.history.received

section Strangers

variable {p : Protocol} {c : Change} {op : Op} {ops : List Op} {s s' : UdcServerImpl}
  {signature : UdcSignature} {buffer : MessageBuffer} {address : UdcAddressMux} {r : ClientRef}
  {time : Milliseconds} {packet : Packet} {event : Option UdcEvent}

/-- What a call sends goes to the address of a client. -/
theorem goes_asks (hroot : Rooted p) (hasks : op.Asks s c) {x : UdcAddressMux × Message}
    (hx : x ∈ (p.change c).sends) : ∃ r < p.nextRef, x.1 = (p.heap r).outgoingAddress := by
  cases hasks with
  | connectIPv4 ip port timeout time | connectIPv6 ip port timeout time =>
      rw [connect_sends] at hx
      cases hx
  | disconnect id | push id hlen hfits => cases hx
  | say id hfits =>
      obtain ⟨r, hlookup, rfl⟩ := say_goes hx
      exact ⟨r, (hroot.byId id r hlookup).1, rfl⟩
  | poll time =>
      obtain ⟨id, hm⟩ := poll_sends hx
      obtain ⟨time', r, -, hhead, haddress, -⟩ :=
        request_change (p := p) (c := .poll time) (by rw [← hm]; exact hx)
      exact ⟨r, hroot.pending r (List.mem_of_mem_head? hhead), haddress⟩
  | tick time order id =>
      obtain ⟨r, hlookup, haddress, -⟩ := tick_sends hx
      exact ⟨r, (hroot.byId id r hlookup).1, haddress⟩

/-- Only a connect call makes a client, and with the address it names. -/
theorem new_client (c : Change) (hr : r < (p.change c).state.nextRef) (hnew : p.nextRef ≤ r) :
    ∃ address timeout time, c = .connect address timeout time ∧
      ((p.change c).state.heap r).outgoingAddress = address := by
  have heffect := change_effect (p := p) c
  generalize (p.change c).state = p', c.note.toList ++ _ = ns at hr heffect ⊢
  cases heffect with
  | @issue address timeout time client hid haddress hconn =>
      obtain rfl : r = p.nextRef := Nat.le_antisymm (Nat.lt_succ_iff.mp hr) hnew
      exact ⟨address, timeout, time, rfl, by simp only [Function.update_self, haddress]⟩
  | disconnect id =>
      rw [nextRef_disconnect] at hr
      exact absurd hr (Nat.not_lt.mpr hnew)
  | expire hpending => exact absurd hr (Nat.not_lt.mpr hnew)
  | accept client hpending hsame hconn hfree => exact absurd hr (Nat.not_lt.mpr hnew)
  | lose client hlookup hsame hwas hconn => exact absurd hr (Nat.not_lt.mpr hnew)
  | regain client hm htime hlookup hsame hwas hconn => exact absurd hr (Nat.not_lt.mpr hnew)
  | update client hsame hconn => exact absurd hr (Nat.not_lt.mpr hnew)
  | other states => exact absurd hr (Nat.not_lt.mpr hnew)

theorem elsewhere_stage (h : ∀ r < s.nextRef, (s.heap r).outgoingAddress ≠ address)
    (hop : op.names ≠ some address) (hstage : Stage op s s') :
    ∀ r < s'.nextRef, (s'.heap r).outgoingAddress ≠ address := by
  intro r hr
  by_cases hold : r < s.nextRef
  · have hmade : Made r (s.heap r).settings s' := made_stage ⟨hold, rfl⟩ hstage
    have haddress : (s'.heap r).outgoingAddress = (s.heap r).outgoingAddress :=
      congrArg Settings.outgoingAddress hmade.settings
    rw [haddress]
    exact h r hold
  · rcases hstage.state with hsame | ⟨c, hstate, hc⟩
    · have hnext : s'.nextRef = s.nextRef := congrArg Protocol.nextRef hsame
      exact absurd (hnext ▸ hr) hold
    · have hr' : r < (s.protocol.change c).state.nextRef := by
        rw [← hstate]
        exact hr
      obtain ⟨named, timeout, time, rfl, hnamed⟩ := new_client c hr' (Nat.not_lt.mp hold)
      have hheap : (s'.heap r).outgoingAddress = named := by
        rw [← hnamed, ← hstate]
        rfl
      rcases hc with hasks | ⟨_, _, _, hhandle⟩
      · rw [hheap]
        rintro rfl
        cases hasks <;> exact hop rfl
      · cases hhandle

/-- A turn of the receive loop sends an address the echoes it owes there. -/
theorem sentTo_turn (hturn : Turn time s packet s' event) :
    (sentTo address s').map Packet.bytes = (sentTo address s).map Packet.bytes ++
      echoes s.packetSignature address [packet] := by
  unfold sentTo
  rw [hturn.sent, List.filter_append, List.map_append, echoes_packet]
  congr 1
  unfold Protocol.react
  cases hread : decode s.packetSignature.bytes packet.bytes with
  | none => simp [Protocol.idle]
  | some m =>
      simp only [echo_sends, Option.bind_some]
      by_cases haddress : packet.address = address
      · cases m.echo <;> simp [haddress]
      · cases m.echo <;> simp [haddress]

theorem stranger_stage (h : Stranger signature address s) (hop : op.names ≠ some address)
    (hstage : Stage op s s') : Stranger signature address s' where
  ready := ready_stage h.ready hstage
  signed := hstage.signature.trans h.signed
  elsewhere := elsewhere_stage h.elsewhere hop hstage
  echoed := by
    cases hstage with
    | quiet hquiet =>
        unfold sentTo
        rw [hquiet.sent, hquiet.received]
        exact h.echoed
    | @call c event r hasks hperf hstate hsends =>
        obtain ⟨new, hsocket, hnew⟩ := hperf.socket
        have hfits : ∀ x ∈ r.sends, x.2.Fits s.messageBufferSize := by
          rw [hsends]
          exact fits_asked h.ready hasks
        have hnone : new.filter (·.address = address) = [] := by
          refine List.filter_eq_nil_iff.mpr fun q hq => ?_
          rw [hnew hfits] at hq
          obtain ⟨x, hx, rfl⟩ := List.mem_map.mp hq
          rw [hsends] at hx
          obtain ⟨r', hr', haddress⟩ := goes_asks h.ready.rooted hasks hx
          simp only [UdcServerImpl.wirePacket, haddress, decide_eq_true_eq]
          exact h.elsewhere r' hr'
        unfold sentTo
        rw [hsocket]
        simp only
        rw [List.filter_append, hnone, List.append_nil]
        exact h.echoed
    | @turn time packet event hreceive hturn =>
        rw [sentTo_turn hturn, hturn.received, echoes_append, h.echoed, h.signed]

theorem stranger_run (ops : List Op) : ∀ s, Throughout (fun s op => op.Admissible s) s ops →
    (∀ op ∈ ops, op.names ≠ some address) → Stranger signature address s →
      Stranger signature address (runState s ops) := by
  induction ops with
  | nil =>
      intro s _ _ hs
      exact hs
  | cons op ops ih =>
      intro s h hnames hs
      refine ih _ h.2 (fun op' hop' => hnames op' (List.mem_cons_of_mem _ hop')) ?_
      exact step_stages h.1 (fun t t' ht hstage =>
        stranger_stage ht (hnames op List.mem_cons_self) hstage) hs

/--
**To an address no connect call names the server sends its echoes and nothing else**: one
for each message from there that asks for one, in order, and in all no more bytes than came
from there.
-/
theorem strangers_echoed
    (h : Throughout (fun s op => op.Admissible s) (.new signature buffer) ops)
    (hnames : ∀ op ∈ ops, op.names ≠ some address) :
    (sentTo address (runState (.new signature buffer) ops)).map Packet.bytes
        = echoes signature address
            (runState (.new signature buffer) ops).socket.history.received ∧
      ((sentTo address (runState (.new signature buffer) ops)).map fun p => p.bytes.length).sum
        ≤ (((runState (.new signature buffer) ops).socket.history.received.filter
            (·.address = address)).map fun p => p.bytes.length).sum := by
  have hstart : Stranger signature address (.new signature buffer) :=
    ⟨ready_new signature buffer, rfl, fun r hr => absurd hr (Nat.not_lt_zero r), rfl⟩
  have hend := (stranger_run ops _ h hnames hstart).echoed
  refine ⟨hend, ?_⟩
  have hlengths := congrArg (fun xs => (xs.map List.length).sum) hend
  simp only [List.map_map] at hlengths
  exact Nat.le_trans (Nat.le_of_eq hlengths) (echoes_length signature address _)

end Strangers

theorem strangers_echoed_stranger :
    (sentTo strangerAddress (runState exampleServer strangerOps)).map Packet.bytes
      = [[1, 2, 3, 4, 9, 1, 0, 0, 0], [1, 2, 3, 4, 9, 2, 0, 0, 0], [1, 2, 3, 4, 1, 8, 0, 0, 0],
        [1, 2, 3, 4, 3, 3, 0, 0, 0]] := by
  have hadm : Throughout (fun s op => op.Admissible s) exampleServer strangerOps := by
    decide +kernel
  have hnames : ∀ op ∈ strangerOps, op.names ≠ some strangerAddress := by decide +kernel
  exact (strangers_echoed hadm hnames).1.trans (by decide +kernel)

end UdpConnect
