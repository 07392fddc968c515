/-
What becomes of a reliable message.

A run of a pair is followed by the link (`run_simulates`), so a property of the
protocol is one of the servers, for every schedule of their calls and everything the
network may do.

  * Over FIFO channels and as long as nothing times out, B reports what A accepted, in
    order and once (`delivered_in_order`).
  * Over any network, what A drops has been reported, if no reliable message or reset
    acts on B after a later one has reached it, and no handshake of an earlier frame is
    taken by A for one of the present frame (`popped_reported`).
  * Over any network, nothing is reported twice, if what comes late does not act on B, no
    reset comes between a message's report and its handshake, and none is taken for another
    (`reported_once`).

The conditions of the last two are about the order in which datagrams come.  That runs
without them go wrong is shown beside each theorem: one bit cannot tell a copy that comes
late, and a reset takes back the one bit that B remembers.
-/
import UdpConnect.Lib.Overtaking
import UdpConnect.Proofs.Sender

namespace UdpConnect

open Memory AlternatingBit Runs

/-! ### Runs on the link -/

/-- A call that neither begins nor ends a connection. -/
def Op.sending : Op → Bool
  | .sendMessage _ _ _ => true
  | .updatePendingClients _ => true
  | .updateClientConnectionStatus _ _ => true
  | .receiveMessages _ => true
  | _ => false

/-- A makes only calls on its one connection, with arguments that fit. -/
def Act.Ordinary (s : Pair) : Act → Prop
  | .callA op => op.sending = true ∧ op.Admissible s.a
  | _ => True

instance (s : Pair) (act : Act) : Decidable (act.Ordinary s) := by
  induction act using Act.casesOn <;> unfold Act.Ordinary <;> infer_instance

/-- The act is ordinary, and the terms allow what it does on the link. -/
structure Act.Permitted (T : Terms Numbered) (w : Wiring) (endPointId : UdcEndPointId)
    (r : ClientRef) (earlier : List Numbered) (s : Pair) (act : Act) : Prop where
  ordinary : act.Ordinary s
  tick : ∀ time order, act = .callA (.updateClientConnectionStatus time order) →
    T.timeout ∨ s.losesPatience w time = false
  acknowledge : ∀ time, act = .callA (.receiveMessages time) →
    ∀ x ∈ (s.marked w).receptions time, MayAcknowledge T w endPointId r earlier s time x
  receive : ∀ time, act = .receiveB time → ∀ x ∈ s.b.receptions time,
    MayReceive T w endPointId r earlier s x
  networkA : ∀ order, act = .networkA order → T.channel.may s.toA (select order s.toA)
  networkB : ∀ order, act = .networkB order → T.channel.may s.toB (select order s.toB)

section Simulation

variable {T : Terms Numbered} {w : Wiring} {endPointId : UdcEndPointId} {r : ClientRef}
  {earlier : List Numbered} {s s' : Pair} {l : Link Numbered}

/-- **An act of the pair is a number of steps of the link.** -/
theorem act_simulates (h : Models w endPointId r earlier s l) {act : Act}
    (hact : act.Permitted T w endPointId r earlier s) :
    Simulates T w endPointId r earlier l (s.step w act) := by
  cases act with
  | callA op =>
      obtain ⟨hsending, hadm⟩ := hact.ordinary
      cases op with
      | sendMessage target data reliability =>
          cases reliability with
          | unreliableMessage => exact sendUnreliableA_simulates h target hadm.2
          | reliableMessage => exact sendReliableA_simulates h target hadm.2
      | updatePendingClients time => exact pollA_simulates h
      | updateClientConnectionStatus time order =>
          rw [order_eq h.sender hadm]
          exact tickA_simulates h (hact.tick time order rfl)
      | receiveMessages time => exact receiveA_simulates h (hact.acknowledge time rfl)
      | _ => cases hsending
  | receiveB time => exact receiveB_simulates h (hact.receive time rfl)
  | deliverA => exact deliverA_simulates h
  | deliverB => exact deliverB_simulates h
  | networkA order => exact networkA_simulates h order (hact.networkA order rfl)
  | networkB order => exact networkB_simulates h order (hact.networkB order rfl)

/-- **A run of the pair is a number of steps of the link.** -/
theorem run_simulates_link {Allowed : Pair → Act → Prop}
    (hallowed : ∀ s act, Allowed s act → act.Permitted T w endPointId r earlier s)
    (h : Models w endPointId r earlier s l) {acts : List Act}
    (run : PairRun w Allowed s acts s') : Simulates T w endPointId r earlier l s' := by
  induction run with
  | nil => exact ⟨l, .refl, h⟩
  | snoc _ hstep ih =>
      obtain ⟨hact, rfl⟩ := hstep
      obtain ⟨l₁, hevolves, hmodels⟩ := ih
      obtain ⟨l₂, hevolves', hmodels'⟩ := act_simulates hmodels (hallowed _ _ hact)
      exact ⟨l₂, hevolves.trans hevolves', hmodels'⟩

end Simulation

/-! ### The start of a connection -/

/-- A has one client, connected to B, that has not sent anything, and nothing is in flight. -/
structure Pair.Starts (w : Wiring) (endPointId : UdcEndPointId) (r : ClientRef) (s : Pair) :
    Prop where
  byId : s.a.clientsById = Finmap.singleton endPointId r
  byAddress : s.a.clientsByAddress = Finmap.singleton w.addressB r
  pending : s.a.pendingClients = []
  outgoing : (s.a.heap r).outgoingAddress = w.addressB
  bit : (s.a.heap r).reliableState = 0 ∨ (s.a.heap r).reliableState = 1
  queue : (s.a.heap r).reliableMessages = []
  expected : s.b.reliableStates.lookup w.addressA = none ∨
    s.b.reliableStates.lookup w.addressA = some 0 ∨ s.b.reliableStates.lookup w.addressA = some 1
  idleA : s.a.socket.backlog = 0
  idleB : s.b.socket.backlog = 0
  toA : s.toA = []
  toB : s.toB = []
  accepted : s.accepted = []
  reported : s.reported = []
  heard : s.heard = []

section Start

variable {w : Wiring} {endPointId : UdcEndPointId} {r : ClientRef} {s : Pair}

theorem lookup_singleton {α β : Type} [DecidableEq α] (k : α) (v : β) (i : α) :
    (Finmap.singleton k v : Finmap fun _ : α => β).lookup i = if i = k then some v else none := by
  by_cases h : i = k
  · rw [h, if_pos rfl, Finmap.lookup_singleton_eq]
  · rw [if_neg h, Finmap.lookup_eq_none, Finmap.mem_singleton]
    exact h

theorem inboxAt_idle {Address : Type} (family : Address → UdcAddress)
    {sockets : List (UdcSocket Address)} (h : (sockets.map fun s => s.pending.length).sum = 0)
    (index : Nat) : inboxAt family sockets index = [] := by
  unfold inboxAt
  cases hs : sockets[index]? with
  | none => rfl
  | some socket =>
      have hzero := List.sum_eq_zero_iff_forall_eq_nat.mp h socket.pending.length
        (List.mem_map_of_mem (List.mem_of_getElem? hs))
      simp [UdcSocket.inbox, List.length_eq_zero_iff.mp hzero]

/-- Nothing queued, no datagram queued. -/
theorem inbox_idle {m : UdcSocketMux} (h : m.backlog = 0) (name : SocketName) :
    m.inbox name = [] := by
  obtain ⟨h4, h6⟩ := Nat.add_eq_zero_iff.mp h
  cases name with
  | ipv4 index => exact inboxAt_idle _ h4 index
  | ipv6 index => exact inboxAt_idle _ h6 index

theorem listens_idle {m : UdcSocketMux} (h : m.backlog = 0) (name : SocketName)
    (peer : UdcAddressMux) : Listens name peer m :=
  ⟨fun name' _ => inbox_idle h name', fun p hp => by
    rw [inbox_idle h] at hp
    cases hp⟩

/-- The link at the start: no message yet, nothing in flight, and whatever B expects. -/
theorem starts_models (h : s.Starts w endPointId r) : ∃ (b : Bool) (expected : Option Bool),
    Models w endPointId r [] s ⟨.bit b, [], expected, [], [], s.clock, s.since, 0, [], [], []⟩ ∧
      s.b.reliableStates.lookup w.addressA = expected.map fun b => stateOf (.bit b) := by
  obtain ⟨b, hb⟩ : ∃ b, (s.a.heap r).reliableState = stateOf (.bit b) := by
    rcases h.bit with hb | hb
    · exact ⟨false, hb⟩
    · exact ⟨true, hb⟩
  obtain ⟨expected, he⟩ : ∃ expected : Option Bool, s.b.reliableStates.lookup w.addressA
      = expected.map fun b => stateOf (.bit b) := by
    rcases h.expected with he | he | he
    · exact ⟨none, he⟩
    · exact ⟨some false, he⟩
    · exact ⟨some true, he⟩
  refine ⟨b, expected, ⟨⟨?_, ?_, h.pending, h.outgoing, hb, h.queue, ?_⟩, he,
    listens_idle h.idleA _ _, listens_idle h.idleB _ _, ?_, ?_, ?_, h.reported.symm,
    h.heard.symm, rfl, rfl, rfl⟩, he⟩
  · intro i
    show s.a.clientsById.lookup i = _
    rw [h.byId, lookup_singleton]
  · intro address
    show s.a.clientsByAddress.lookup address = _
    rw [h.byAddress, lookup_singleton]
  · intro data hdata
    rw [show (s.a.protocol.heap r).reliableMessages = [] from h.queue] at hdata
    cases hdata
  · rw [inbox_idle h.idleB, h.toB]
    rfl
  · rw [inbox_idle h.idleA, h.toA]
    rfl
  · rw [h.accepted]
    rfl

end Start

/-! ### A pair to try things on -/

def exampleWiring : Wiring where
  addressA := ⟨.ipv4 (exampleIP 1), 1⟩
  addressB := ⟨.ipv4 (exampleIP 2), 2⟩
  socketA := 0
  socketB := 0

/-- A server with one socket and one endpoint, connected to B. -/
def connectedServer : UdcServerImpl :=
  runState exampleServer
    [.tryBindIPv4 true, .tryConnectIPv4 (exampleIP 2) 2 100000 0,
      .arriveIPv4 0 (.datagram
        ⟨exampleIP 2, 2, encode exampleSignature.bytes (.connectionHandshake 1), default⟩),
      .receiveMessages 1]

/-- A pair at the start of its first connection. -/
def examplePair : Pair where
  a := connectedServer
  b := runState exampleServer [.tryBindIPv4 true]
  toA := []
  toB := []
  accepted := []
  reported := []
  heard := []
  clock := 0
  since := 0

theorem examplePair_starts : examplePair.Starts exampleWiring 1 0 where
  byId := by decide +kernel
  byAddress := by decide +kernel
  pending := by decide +kernel
  outgoing := by decide +kernel
  bit := by decide +kernel
  queue := by decide +kernel
  expected := by decide +kernel
  idleA := by decide +kernel
  idleB := by decide +kernel
  toA := rfl
  toB := rfl
  accepted := rfl
  reported := rfl
  heard := rfl

/-- A is given a message. -/
def Act.push (data : List UInt8) : Act := .callA (.sendMessage 1 data .reliableMessage)

/-- A's client has its turn. -/
def Act.tick (time : Milliseconds) : Act := .callA (.updateClientConnectionStatus time [1])

/-- What is oldest on the way to B gets there and is received. -/
def Act.passB (time : Milliseconds) : List Act := [.deliverB, .receiveB time]

/-- What is oldest on the way to A gets there and is received. -/
def Act.passA (time : Milliseconds) : List Act := [.deliverA, .callA (.receiveMessages time)]

/-! ### Counting -/

namespace Pair

variable (w : Wiring) (s : Pair)

/-- The messages A has dropped from the queue, with their numbers. -/
def popped : List Numbered := s.accepted.zipIdx.take (s.front w)

/-- B has reported what A has dropped and possibly the message in front, in order. -/
def InOrder : Prop :=
  s.reported.map Prod.fst <+: s.accepted ∧
    s.front w ≤ s.reported.length ∧ s.reported.length ≤ s.front w + 1

instance : Decidable (s.InOrder w) := inferInstanceAs (Decidable (_ ∧ _))

end Pair

section Counting

variable {w : Wiring} {endPointId : UdcEndPointId} {r : ClientRef} {earlier : List Numbered}
  {s : Pair} {l : Link Numbered}

theorem popped_eq (h : Models w endPointId r earlier s l) : s.popped w = earlier ++ l.popped := by
  have hlength := congrArg List.length h.numbered
  simp only [List.length_append, List.length_zipIdx] at hlength
  rw [Pair.popped, ← h.numbered, front_eq h.sender]
  exact List.take_left' (by rw [List.length_append]; omega)

theorem front_popped (h : Models w endPointId r [] s l) : s.front w = l.popped.length := by
  have hlength := congrArg List.length h.numbered
  simp only [List.length_append, List.length_zipIdx, List.length_nil] at hlength
  rw [front_eq h.sender]
  omega

/-- What an exact link has reported, counted by the pair. -/
theorem inOrder_of_exact (h : Models w endPointId r [] s l) (he : Exact l) : s.InOrder w := by
  obtain ⟨b, -, hreported⟩ := he
  have hshort : inFlight l b <+: l.queue ∧ (inFlight l b).length ≤ 1 := by
    unfold inFlight
    split
    · exact ⟨List.take_prefix 1 _, List.length_take_le 1 _⟩
    · exact ⟨List.nil_prefix, Nat.zero_le 1⟩
  rw [h.reported] at hreported
  refine ⟨?_, ?_, ?_⟩
  · have hprefix : s.reported <+: s.accepted.zipIdx := by
      rw [hreported, ← h.numbered, List.nil_append]
      exact (List.prefix_append_right_inj _).mpr hshort.1
    have hmap := hprefix.map Prod.fst
    rw [List.zipIdx_map_fst] at hmap
    exact hmap
  · rw [hreported, front_popped h, List.length_append]
    exact Nat.le_add_right _ _
  · rw [hreported, front_popped h, List.length_append]
    exact Nat.add_le_add_left hshort.2 _

/-- What the link has reported is numbered rightly by the pair. -/
theorem accepted_of_flight (h : Models w endPointId r [] s l) (hflight : Flight l) {m : Numbered}
    (hm : m ∈ s.reported) : s.accepted[m.2]? = some m.1 := by
  rw [← h.reported] at hm
  have hmem := hflight.reported_sent hm
  rw [← List.nil_append l.popped, h.numbered] at hmem
  exact List.mem_zipIdx_iff_getElem?.mp hmem

end Counting

/-! ### In order and once, as long as nothing times out -/

/-- No client loses patience, and the channels lose and repeat in place. -/
def Act.Calm (w : Wiring) (s : Pair) (act : Act) : Prop :=
  act.Ordinary s ∧
    match act with
    | .callA (.updateClientConnectionStatus time _) => s.losesPatience w time = false
    | .networkA order => order.Pairwise (· ≤ ·)
    | .networkB order => order.Pairwise (· ≤ ·)
    | _ => True

instance (w : Wiring) (s : Pair) (act : Act) : Decidable (act.Calm w s) := by
  rcases act with op | _ | _ | _ | _ | _
  · induction op using Op.casesOn <;> unfold Act.Calm <;> infer_instance
  all_goals
    unfold Act.Calm
    infer_instance

section Order

variable {w : Wiring} {endPointId : UdcEndPointId} {r : ClientRef} {s₀ s : Pair}
  {acts : List Act}

theorem Act.Calm.permitted {act : Act} (h : act.Calm w s) (earlier : List Numbered) :
    act.Permitted calm w endPointId r earlier s := by
  obtain ⟨hordinary, hcalm⟩ := h
  refine ⟨hordinary, ?_, fun _ _ _ _ _ _ _ _ _ _ => trivial, fun _ _ _ _ _ _ _ _ _ _ => trivial,
    ?_, ?_⟩
  · rintro time order rfl
    exact Or.inr hcalm
  · rintro order rfl
    exact stutter_select _ hcalm
  · rintro order rfl
    exact stutter_select _ hcalm

/-- **Reliable messages are reported in order and once as long as nothing times out.** -/
theorem delivered_in_order (hstart : s₀.Starts w endPointId r)
    (hnew : s₀.b.reliableStates.lookup w.addressA = none)
    (run : PairRun w (Act.Calm w) s₀ acts s) : s.InOrder w := by
  obtain ⟨b, expected, hmodels, hexpected⟩ := starts_models hstart
  obtain rfl : expected = none := by
    rw [hnew] at hexpected
    exact Option.map_eq_none_iff.mp hexpected.symm
  obtain ⟨l, hevolves, hmodels'⟩ := run_simulates_link (T := calm)
    (fun s act hact => hact.permitted []) hmodels run
  have hinv := hevolves.preserves (P := fun l => Inv l ∧ Exact l) (fun _ _ => exact_step)
    ⟨inv_start rfl rfl rfl (Or.inl rfl) (fun m hm => nomatch hm), b, rfl, rfl⟩
  exact inOrder_of_exact hmodels' hinv.2

end Order

/-- Two messages, with copies of the first in both directions. -/
def calmActs : List Act :=
  [.push [65], .push [66], .tick 2, .tick 3, .networkB [0, 0, 1]] ++ Act.passB 4 ++
    [.networkA [0, 0]] ++ Act.passA 5 ++ Act.passB 6 ++ [.tick 7] ++ Act.passB 8 ++ Act.passB 9

theorem delivered_in_order_copies :
    (examplePair.after exampleWiring calmActs).InOrder exampleWiring :=
  delivered_in_order examplePair_starts (by decide +kernel)
    (pairRun_of_throughout calmActs (by decide +kernel))

/-! ### Datagrams that come late -/

/-- A reliable message or reset that A sent later has reached B before this one. -/
def Pair.Overtaken (s : Pair) (x : Reception) : Prop :=
  ∃ g ∈ s.heardBy x, x.mark.stamp < g.tag.stamp

/-- A frame of this kind changes the entry that B has for A. -/
def ActsOn (entry : Option Int) : Kind → Prop
  | .reset => entry = some (stateOf (.bit true))
  | .bit b => entry = none ∨ entry = some (stateOf (.bit b))

/-- A reliable message or reset that is overtaken does not change B's entry. -/
def ComesInTurn (w : Wiring) (s : Pair) (x : Reception) : Prop :=
  match x.message with
  | .reliable kind _ _ =>
      s.Overtaken x → ¬ ActsOn (x.state.reliableStates.lookup w.addressA) kind
  | _ => True

/-- A handshake of the client's state answers a message that A has sent since its present
reset began, when the message in front was the same. -/
def AnswersPresent (w : Wiring) (s : Pair) (time : Milliseconds) (x : Reception) : Prop :=
  match x.message with
  | .reliableHandshake kind timeStamp => (timeStamp : Milliseconds) ≤ time →
      ∀ r ∈ x.state.clientsByAddress.lookup w.addressB,
        (x.state.heap r).reliableState = stateOf kind →
          s.since ≤ x.mark.stamp ∧
            x.mark.message = s.accepted.length - (x.state.heap r).reliableMessages.length
  | _ => True

/-- A handshake that ends a reset answers a message of that reset. -/
def ResetAnswered (w : Wiring) (s : Pair) (time : Milliseconds) (x : Reception) : Prop :=
  match x.message with
  | .reliableHandshake .reset timeStamp => (timeStamp : Milliseconds) ≤ time →
      ∀ r ∈ x.state.clientsByAddress.lookup w.addressB,
        (x.state.heap r).reliableState = -1 → s.since ≤ x.mark.stamp
  | _ => True

/-- A reset does not come between the report of the message in front and its handshake. -/
def ResetInTime (w : Wiring) (s : Pair) (x : Reception) : Prop :=
  match x.message with
  | .reliable .reset _ _ => s.front w ∉ s.reported.map Prod.snd
  | _ => True

instance (s : Pair) (x : Reception) : Decidable (s.Overtaken x) :=
  inferInstanceAs (Decidable (∃ g ∈ s.heardBy x, x.mark.stamp < g.tag.stamp))

instance (entry : Option Int) (kind : Kind) : Decidable (ActsOn entry kind) := by
  cases kind <;> unfold ActsOn <;> infer_instance

instance (w : Wiring) (s : Pair) (x : Reception) : Decidable (ComesInTurn w s x) := by
  obtain ⟨⟨state, address, m⟩, mark, received⟩ := x
  cases m <;> unfold ComesInTurn <;> infer_instance

instance (w : Wiring) (s : Pair) (time : Milliseconds) (x : Reception) :
    Decidable (AnswersPresent w s time x) := by
  obtain ⟨⟨state, address, m⟩, mark, received⟩ := x
  cases m <;> unfold AnswersPresent <;> infer_instance

instance (w : Wiring) (s : Pair) (time : Milliseconds) (x : Reception) :
    Decidable (ResetAnswered w s time x) := by
  obtain ⟨⟨state, address, m⟩, mark, received⟩ := x
  rcases m with _ | _ | _ | _ | _ | _ | ⟨_ | b, timeStamp⟩ <;> unfold ResetAnswered <;>
    infer_instance

instance (w : Wiring) (s : Pair) (x : Reception) : Decidable (ResetInTime w s x) := by
  obtain ⟨⟨state, address, m⟩, mark, received⟩ := x
  rcases m with _ | _ | _ | _ | _ | ⟨_ | b, timeStamp, data⟩ | _ <;> unfold ResetInTime <;>
    infer_instance

section Late

variable {w : Wiring} {endPointId : UdcEndPointId} {r : ClientRef} {earlier : List Numbered}
  {s : Pair} {l : Link Numbered} {time : Milliseconds} {x : Reception}

/-- The pair's terms are the link's. -/
theorem ComesInTurn.inTurn (h : ComesInTurn w s x) (hsees : SeesB w endPointId r earlier s x l)
    {kind : Kind} {timeStamp : Nat} {data : List UInt8}
    (hm : x.message = .reliable kind timeStamp data) : l.InTurn (x.mark.frame kind data) := by
  rintro ⟨g, hg, hlt⟩ hacts
  unfold ComesInTurn at h
  rw [hm] at h
  refine h ⟨g, hsees.heard g hg, hlt⟩ ?_
  rw [hsees.expected]
  cases kind with
  | reset =>
      rw [acts_reset rfl] at hacts
      rw [hacts]
      rfl
  | bit b =>
      rw [acts_bit rfl] at hacts
      rcases hacts with hnone | hsome
      · exact Or.inl (by rw [hnone]; rfl)
      · exact Or.inr (by rw [hsome]; rfl)

theorem AnswersPresent.current (h : AnswersPresent w s time x)
    (hsees : SeesA w endPointId r earlier s x.state l) {kind : Kind} {timeStamp : Nat}
    (hm : x.message = .reliableHandshake kind timeStamp)
    (htime : (timeStamp : Milliseconds) ≤ time) : l.Current (x.mark.tag kind) := by
  intro hkind
  obtain ⟨size, hsender⟩ := hsees.sender
  unfold AnswersPresent at h
  rw [hm] at h
  obtain ⟨hsince, hnumber⟩ := h htime r (by rw [hsender.byAddress, if_pos rfl]; rfl)
    (by rw [hsender.mode, ← hkind]; rfl)
  refine ⟨hsees.since ▸ hsince, hnumber.trans ?_⟩
  have hlength := congrArg List.length hsees.numbered
  simp only [List.length_append, List.length_zipIdx] at hlength
  rw [hsender.queue, List.length_map, Link.number, hsees.base]
  omega

theorem ResetAnswered.fresh (h : ResetAnswered w s time x)
    (hsees : SeesA w endPointId r earlier s x.state l) {kind : Kind} {timeStamp : Nat}
    (hm : x.message = .reliableHandshake kind timeStamp)
    (htime : (timeStamp : Milliseconds) ≤ time) : l.Fresh (x.mark.tag kind) := by
  intro hmode hkind
  obtain rfl : kind = .reset := hkind
  obtain ⟨size, hsender⟩ := hsees.sender
  unfold ResetAnswered at h
  rw [hm] at h
  rw [hsees.since]
  refine h htime r (by rw [hsender.byAddress, if_pos rfl]; rfl) ?_
  rw [hsender.mode, hmode]
  rfl

theorem ResetInTime.unreported (h : ResetInTime w s x)
    (hsees : SeesB w endPointId r earlier s x l) {timeStamp : Nat} {data : List UInt8}
    (hm : x.message = .reliable .reset timeStamp data) {m : Numbered}
    (hfront : l.queue.head? = some m) : m ∉ l.reported := by
  intro hreported
  unfold ResetInTime at h
  rw [hm] at h
  refine h (List.mem_map.mpr ⟨m, hsees.reported ▸ hreported, ?_⟩)
  rw [front_eq hsees.sender]
  exact number_of_head hsees.numbered hfront

end Late

/-! ### Nothing is lost unless a datagram that comes late acts -/

/-- What comes late does not act, on either side. -/
def Act.InTurn (w : Wiring) (s : Pair) (act : Act) : Prop :=
  act.Ordinary s ∧
    match act with
    | .callA (.receiveMessages time) =>
        ∀ x ∈ (s.marked w).receptions time, AnswersPresent w s time x
    | .receiveB time => ∀ x ∈ s.b.receptions time, ComesInTurn w s x
    | _ => True

instance (w : Wiring) (s : Pair) (act : Act) : Decidable (act.InTurn w s) := by
  rcases act with op | _ | _ | _ | _ | _
  · induction op using Op.casesOn <;> unfold Act.InTurn <;> infer_instance
  all_goals
    unfold Act.InTurn
    infer_instance

section Loss

variable {w : Wiring} {endPointId : UdcEndPointId} {r : ClientRef} {s₀ s : Pair}
  {acts : List Act}

theorem Act.InTurn.permitted {act : Act} (h : act.InTurn w s) (earlier : List Numbered) :
    act.Permitted lossless w endPointId r earlier s := by
  obtain ⟨hordinary, hturn⟩ := h
  refine ⟨hordinary, fun _ _ _ => Or.inl trivial, ?_, ?_, ?_, ?_⟩
  · rintro time rfl x hx l hsees kind timeStamp hm htime
    exact (hturn x hx).current hsees hm htime
  · rintro time rfl x hx l hsees kind timeStamp data hm
    exact (hturn x hx).inTurn hsees hm
  · rintro order rfl
    exact mem_select
  · rintro order rfl
    exact mem_select

/-- **What A drops has been reported**, if B's entry is absent or the client's bit at the start,
and what comes late does not act.  `hcount` is about the two counters of the marks, which no
server reads: the one that says when the present reset began is not ahead of the other. -/
theorem popped_reported (hstart : s₀.Starts w endPointId r) (hcount : s₀.since ≤ s₀.clock)
    (hentry : s₀.b.reliableStates.lookup w.addressA = none ∨
      s₀.b.reliableStates.lookup w.addressA = some (s₀.a.heap r).reliableState)
    (run : PairRun w (Act.InTurn w) s₀ acts s) : ∀ m ∈ s.popped w, m ∈ s.reported := by
  obtain ⟨b, expected, hmodels, hexpected⟩ := starts_models hstart
  have haccepts : expected = none ∨ expected = some b := by
    have hmode : (s₀.a.heap r).reliableState = stateOf (.bit b) := hmodels.sender.mode
    rw [hexpected, hmode] at hentry
    rcases expected with _ | _ | _ <;> cases b <;> simp_all [stateOf]
  obtain ⟨l, hevolves, hmodels'⟩ := run_simulates_link (T := lossless)
    (fun s act hact => hact.permitted []) hmodels run
  have hnone := hevolves.preserves (P := NoneLost) (fun _ _ => noneLost_step)
    (noneLost_start (flight_start rfl rfl rfl rfl) hcount rfl rfl rfl haccepts rfl)
  intro m hm
  rw [popped_eq hmodels', List.nil_append] at hm
  rw [← hmodels'.reported]
  exact hnone.delivered m hm

end Loss

/-- A timeout and a reset, by which nothing is lost. -/
def resetActs : List Act :=
  [.push [65], .tick 2, .networkB [], .tick 1000, .tick 1001] ++ Act.passB 1002 ++
    Act.passA 1003 ++ [.tick 1004] ++ Act.passB 1005 ++ Act.passA 1006

theorem popped_reported_reset :
    ([65], 0) ∈ (examplePair.after exampleWiring resetActs).reported :=
  popped_reported examplePair_starts (by decide) (Or.inl (by decide +kernel))
    (pairRun_of_throughout resetActs (by decide +kernel)) ([65], 0) (by decide +kernel)

/-- A copy of the first handshake gets to A when the third message is in front. -/
def staleActs : List Act :=
  [.push [65], .tick 2] ++ Act.passB 3 ++ [.networkA [0, 0]] ++ Act.passA 4 ++
    [.push [66], .tick 5] ++ Act.passB 6 ++ [.networkA [1, 0]] ++ Act.passA 7 ++
    [.push [67]] ++ Act.passA 8

theorem lost_by_stale_handshake :
    ¬ ∀ (w : Wiring) (endPointId : UdcEndPointId) (r : ClientRef) (s₀ s : Pair) (acts : List Act),
      s₀.Starts w endPointId r → (s₀.a.heap r).reliableState = 0 →
        s₀.b.reliableStates.lookup w.addressA = none →
          PairRun w (fun s act => act.Ordinary s) s₀ acts s →
            ∀ m ∈ s.popped w, m ∈ s.reported := by
  intro h
  have hlost := h exampleWiring 1 0 examplePair _ staleActs examplePair_starts
    (by decide +kernel) (by decide +kernel) (pairRun_of_throughout _ (by decide +kernel))
  have hmissing : ¬ ∀ m ∈ (examplePair.after exampleWiring staleActs).popped exampleWiring,
      m ∈ (examplePair.after exampleWiring staleActs).reported := by decide +kernel
  exact hmissing hlost

/-! ### Nothing is reported twice unless a reset comes between -/

/-- What comes late does not act on B, no reset comes between a report and its handshake, and
none is taken for another. -/
def Act.Unrepeated (w : Wiring) (s : Pair) (act : Act) : Prop :=
  act.Ordinary s ∧
    match act with
    | .callA (.receiveMessages time) =>
        ∀ x ∈ (s.marked w).receptions time, ResetAnswered w s time x
    | .receiveB time => ∀ x ∈ s.b.receptions time, ComesInTurn w s x ∧ ResetInTime w s x
    | _ => True

instance (w : Wiring) (s : Pair) (act : Act) : Decidable (act.Unrepeated w s) := by
  rcases act with op | _ | _ | _ | _ | _
  · induction op using Op.casesOn <;> unfold Act.Unrepeated <;> infer_instance
  all_goals
    unfold Act.Unrepeated
    infer_instance

section Repetition

variable {w : Wiring} {endPointId : UdcEndPointId} {r : ClientRef} {s₀ s : Pair}
  {acts : List Act}

theorem Act.Unrepeated.permitted {act : Act} (h : act.Unrepeated w s)
    (earlier : List Numbered) : act.Permitted once w endPointId r earlier s := by
  obtain ⟨hordinary, hunrepeated⟩ := h
  refine ⟨hordinary, fun _ _ _ => Or.inl trivial, ?_, ?_, ?_, ?_⟩
  · rintro time rfl x hx l hsees kind timeStamp hm htime
    exact (hunrepeated x hx).fresh hsees hm htime
  · rintro time rfl x hx l hsees kind timeStamp data hm
    refine ⟨(hunrepeated x hx).1.inTurn hsees hm, fun hkind m hfront => ?_⟩
    obtain rfl : kind = .reset := hkind
    exact (hunrepeated x hx).2.unreported hsees hm hfront
  · rintro order rfl
    exact mem_select
  · rintro order rfl
    exact mem_select

/-- Every report is of an accepted message, and no two are of the same. -/
def Pair.AtMostOnce (s : Pair) : Prop :=
  (∀ m ∈ s.reported, s.accepted[m.2]? = some m.1) ∧ (s.reported.map Prod.snd).Nodup

instance (s : Pair) : Decidable s.AtMostOnce := inferInstanceAs (Decidable (_ ∧ _))

/-- Accepted messages have one number each. -/
theorem nodup_zipIdx (accepted : List (List UInt8)) : accepted.zipIdx.Nodup := by
  refine List.Nodup.of_map Prod.snd ?_
  rw [List.zipIdx_map_snd]
  exact List.nodup_range'

/-- **No accepted message is reported twice**, if what comes late does not act on B, no reset
comes between a report and its handshake, and none is taken for another. -/
theorem reported_once (hstart : s₀.Starts w endPointId r)
    (run : PairRun w (Act.Unrepeated w) s₀ acts s) : s.AtMostOnce := by
  obtain ⟨b, expected, hmodels, -⟩ := starts_models hstart
  obtain ⟨l, hevolves, hmodels'⟩ := run_simulates_link (T := once)
    (fun s act hact => hact.permitted []) hmodels run
  have honce := hevolves.preserves (P := fun l => (l.popped ++ l.queue).Nodup → Once l)
    (fun _ _ => once_step) fun _ => once_start (flight_start rfl rfl rfl rfl) rfl rfl rfl
  have hnodup : (l.popped ++ l.queue).Nodup := by
    rw [← List.nil_append l.popped, hmodels'.numbered]
    exact nodup_zipIdx s.accepted
  have hdistinct := (honce hnodup).distinct
  rw [hmodels'.reported] at hdistinct
  have hsame : ∀ m ∈ s.reported, s.accepted[m.2]? = some m.1 :=
    fun m hm => accepted_of_flight hmodels' (honce hnodup).flight hm
  -- a number stands for one payload
  refine ⟨hsame, hdistinct.map_on fun m hm m' hm' heq => ?_⟩
  have hdata := (hsame m hm).symm.trans (heq ▸ hsame m' hm')
  exact Prod.ext (Option.some.inj hdata) heq

end Repetition

theorem reported_once_copies :
    (examplePair.after exampleWiring calmActs).AtMostOnce ∧
      (examplePair.after exampleWiring resetActs).AtMostOnce :=
  ⟨reported_once examplePair_starts (pairRun_of_throughout calmActs (by decide +kernel)),
    reported_once examplePair_starts (pairRun_of_throughout resetActs (by decide +kernel))⟩

/-- The handshake is lost, and the message is sent again after the reset. -/
def repeatedActs : List Act :=
  [.push [65], .tick 2] ++ Act.passB 3 ++ [.networkA [], .tick 1000, .tick 1001] ++
    Act.passB 1002 ++ Act.passA 1003 ++ [.tick 1004] ++ Act.passB 1005

theorem repeated_after_reset :
    ¬ ∀ (w : Wiring) (endPointId : UdcEndPointId) (r : ClientRef) (s₀ s : Pair) (acts : List Act),
      s₀.Starts w endPointId r → PairRun w (fun s act => act.Ordinary s) s₀ acts s →
        s.AtMostOnce := by
  intro h
  have honce := h exampleWiring 1 0 examplePair _ repeatedActs examplePair_starts
    (pairRun_of_throughout _ (by decide +kernel))
  have htwice : ¬ (examplePair.after exampleWiring repeatedActs).AtMostOnce := by decide +kernel
  exact htwice honce

end UdpConnect
