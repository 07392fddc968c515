/-
The receive loop, as far as its sockets go.

`turns` lists the calls of `m_socket.receive` that one `receiveMessages` makes, each with
the server and the length it is made with.  What `Proofs/Scan.lean` says of one pass over
the sockets is said here of all of them: `asks_within_iff` about the lengths asked for,
`hides_nothing_iff` about what is left when the application is told that there is nothing.
-/
import UdpConnect.Proofs.Scan

namespace UdpConnect

/-- The servers and lengths with which `receiveLoop` asks the sockets. -/
def UdcServerImpl.turnsLoop (time : Milliseconds) :
    Nat → UdcServerImpl → Nat → List (UdcServerImpl × Nat)
  | 0, _, _ => []
  | fuel + 1, s, msgSize =>
      (s, msgSize) ::
        match s.receive msgSize with
        | (_, none, _) => []
        | (s, some address, msgSize) =>
            match s.handleDatagram address msgSize time with
            | (_, some _) => []
            | (s, none) => turnsLoop time fuel s msgSize

def UdcServerImpl.turns (s : UdcServerImpl) (time : Milliseconds) : List (UdcServerImpl × Nat) :=
  turnsLoop time (s.socket.backlog + 1) s s.messageBufferSize

section Turns

variable {s : UdcServerImpl} {n : Nat} {time : Milliseconds} {address : UdcAddressMux}

theorem capacity_of_le (hn : n ≤ s.messageBufferSize) : Capacity s.messageBuffer n :=
  ⟨Nat.lt_of_le_of_lt hn (size_lt s), Or.inl hn⟩

/-- Handling a datagram asks nothing of the sockets. -/
theorem handleDatagram_socket (time : Milliseconds) (address : UdcAddressMux)
    (hn : n ≤ s.messageBufferSize) :
    (s.handleDatagram address n time).1.socket.queues = s.socket.queues ∧
      (s.handleDatagram address n time).1.socket.history.asked = s.socket.history.asked := by
  have href := @handleDatagram_react s time n hn
    ⟨address, s.messageBuffer.bytes.take n, default⟩ rfl
  rw [href.socket]
  exact ⟨rfl, rfl⟩

/-- What a turn that returns a datagram leaves to the next one. -/
structure TurnLeaves (s : UdcServerImpl) (n : Nat) (s' : UdcServerImpl) (n' : Nat) : Prop where
  room : n' ≤ s.messageBufferSize
  size : s'.messageBufferSize = s.messageBufferSize
  backlog : s'.socket.backlog < s.socket.backlog
  queues : s'.socket.queues = (scan n s.socket.queues).queues
  asked : s'.socket.history.asked = s.socket.history.asked ++ (scan n s.socket.queues).asked

theorem turn_leaves (time : Milliseconds) (hn : n ≤ s.messageBufferSize)
    (hsome : (s.receive n).2.1 = some address) :
    TurnLeaves s n ((s.receive n).1.handleDatagram address (s.receive n).2.2 time).1
      (s.receive n).2.2 := by
  obtain ⟨p, hdelivered, hturn, -⟩ := turn_of_receive time (capacity_of_le hn) hsome
  have hroom : (s.receive n).2.2 ≤ s.messageBufferSize := hdelivered.room
  have hsize : (s.receive n).1.messageBufferSize = s.messageBufferSize :=
    (receive_polled (m := s.socket) (capacity_of_le hn)).1.size
  have hsurveys := receive_surveys (m := s.socket) (b := s.messageBuffer)
    (Nat.lt_of_le_of_lt hn (size_lt s))
  have hle : (s.receive n).2.2 ≤ (s.receive n).1.messageBufferSize := by
    rw [hsize]
    exact hroom
  obtain ⟨hqueues, hasked⟩ := handleDatagram_socket time address hle
  exact ⟨hroom, hturn.size, hturn.backlog, hqueues.trans hsurveys.queues,
    hasked.trans hsurveys.asked⟩

/-! ### The lengths asked for -/

theorem receiveLoop_asked (fuel : Nat) : ∀ (s : UdcServerImpl) (n : Nat),
    n ≤ s.messageBufferSize →
      (UdcServerImpl.receiveLoop time fuel s n).1.socket.history.asked
        = s.socket.history.asked ++
          (UdcServerImpl.turnsLoop time fuel s n).flatMap
            fun x => (scan x.2 x.1.socket.queues).asked := by
  induction fuel with
  | zero =>
      intro s n _
      exact (List.append_nil _).symm
  | succ fuel ih =>
      intro s n hn
      have hsurveys := receive_surveys (m := s.socket) (b := s.messageBuffer)
        (Nat.lt_of_le_of_lt hn (size_lt s))
      unfold UdcServerImpl.receiveLoop UdcServerImpl.turnsLoop
      cases hr : (s.receive n).2.1 with
      | none =>
          rw [receive_none hr, List.flatMap_singleton]
          exact hsurveys.asked
      | some address =>
          have hleaves := turn_leaves time hn hr
          rw [receive_some hr, List.flatMap_cons, ← List.append_assoc]
          simp only
          generalize (s.receive n).1.handleDatagram address (s.receive n).2.2 time = t at hleaves
          obtain ⟨s', event⟩ := t
          cases event with
          | some e =>
              rw [List.flatMap_nil, List.append_nil]
              exact hleaves.asked
          | none =>
              simp only at hleaves ⊢
              rw [ih s' _ (by rw [hleaves.size]; exact hleaves.room), hleaves.asked]

/-- No turn is made with a length above the size of the buffer. -/
theorem turnsLoop_size (fuel : Nat) : ∀ (s : UdcServerImpl) (n : Nat),
    n ≤ s.messageBufferSize → ∀ x ∈ UdcServerImpl.turnsLoop time fuel s n,
      x.2 ≤ s.messageBufferSize ∧ x.1.messageBufferSize = s.messageBufferSize := by
  induction fuel with
  | zero =>
      intro s n _ x hx
      cases hx
  | succ fuel ih =>
      intro s n hn x hx
      unfold UdcServerImpl.turnsLoop at hx
      rcases List.mem_cons.mp hx with rfl | hx
      · exact ⟨hn, rfl⟩
      cases hr : (s.receive n).2.1 with
      | none =>
          rw [show s.receive n = ((s.receive n).1, none, (s.receive n).2.2) by rw [← hr]] at hx
          cases hx
      | some address =>
          rw [show s.receive n = ((s.receive n).1, some address, (s.receive n).2.2) by
            rw [← hr]] at hx
          have hleaves := turn_leaves time hn hr
          simp only at hx
          generalize (s.receive n).1.handleDatagram address (s.receive n).2.2 time = t at hleaves hx
          obtain ⟨s', event⟩ := t
          cases event with
          | some e => cases hx
          | none =>
              have hsize := hleaves.size
              simp only at hsize hx
              have h := ih s' _ (by rw [hsize]; exact hleaves.room) x hx
              rw [hsize] at h
              exact h

/-- Every length asked for, and every size reported, is one the buffer has room for. -/
structure AsksWithin (s : UdcServerImpl) (time : Milliseconds) : Prop where
  asked : ∀ len ∈ (s.receiveMessages time).1.socket.history.asked.drop
    s.socket.history.asked.length, 0 ≤ len ∧ len ≤ s.messageBufferSize
  reported : ∀ x ∈ s.turns time, ∀ address, (x.1.receive x.2).2.1 = some address →
    (x.1.receive x.2).2.2 ≤ s.messageBufferSize

/--
**`receiveMessages` asks for no more than the buffer holds exactly if each of its passes is
steady:** a datagram that does not fit is met only at the last socket.
-/
theorem asks_within_iff (s : UdcServerImpl) (time : Milliseconds) :
    AsksWithin s time ↔ ∀ x ∈ s.turns time, Steady x.2 x.1.socket.queues := by
  have hasked : (s.receiveMessages time).1.socket.history.asked
      = s.socket.history.asked ++
        (s.turns time).flatMap fun x => (scan x.2 x.1.socket.queues).asked :=
    receiveLoop_asked _ s _ (Nat.le_refl _)
  have hsize : ∀ x ∈ s.turns time, x.2 ≤ s.messageBufferSize ∧
      x.1.messageBufferSize = s.messageBufferSize := turnsLoop_size _ s _ (Nat.le_refl _)
  have hiff : ∀ x ∈ s.turns time,
      ((∀ len ∈ (scan x.2 x.1.socket.queues).asked, 0 ≤ len ∧ len ≤ s.messageBufferSize) ↔
        Steady x.2 x.1.socket.queues) := by
    intro x hx
    exact asked_within_iff _ (hsize x hx).1 (Nat.lt_of_le_of_lt (hsize x hx).1 (size_lt s))
  constructor
  · intro h x hx
    rw [← hiff x hx]
    intro len hlen
    apply h.asked
    rw [hasked, List.drop_left]
    exact List.mem_flatMap.mpr ⟨x, hx, hlen⟩
  · intro h
    refine ⟨?_, ?_⟩
    · rw [hasked, List.drop_left]
      intro len hlen
      obtain ⟨x, hx, hlen⟩ := List.mem_flatMap.mp hlen
      exact (hiff x hx).mpr (h x hx) len hlen
    · intro x hx address hsome
      obtain ⟨hle, hsame⟩ := hsize x hx
      have hroom := (turn_leaves time (by rw [hsame]; exact hle) hsome).room
      rw [hsame] at hroom
      exact hroom

/-- Two sockets, the first of which gets a datagram longer than the buffer. -/
def oversizeOps : List Op :=
  [.tryBindIPv4 true, .tryBindIPv4 true,
    .arriveIPv4 0 (.datagram ⟨exampleIP 9, 1, List.replicate 17 0, default⟩)]

theorem asked_for_minus_one : ∃ trace s time,
    ServerRun exampleSignature exampleBuffer trace s ∧ ¬ AsksWithin s time := by
  refine ⟨_, _, 10, run_of_admissible oversizeOps (by decide +kernel), fun h => ?_⟩
  have hasked : (-1 : Int) ∈ ((runState exampleServer oversizeOps).receiveMessages
      10).1.socket.history.asked.drop
        (runState exampleServer oversizeOps).socket.history.asked.length := by decide +kernel
  exact absurd (h.asked (-1) hasked).1 (by decide)

/-! ### What is left -/

theorem receiveLoop_clear (fuel : Nat) : ∀ (s : UdcServerImpl) (n : Nat),
    s.socket.backlog < fuel → n ≤ s.messageBufferSize →
      (((UdcServerImpl.receiveLoop time fuel s n).2 = none →
          Clear s.messageBufferSize (UdcServerImpl.receiveLoop time fuel s n).1.socket.queues) ↔
        ∀ x ∈ UdcServerImpl.turnsLoop time fuel s n,
          Exposed x.2 s.messageBufferSize x.1.socket.queues) := by
  induction fuel with
  | zero =>
      intro s n hfuel
      omega
  | succ fuel ih =>
      intro s n hfuel hn
      have hsurveys := receive_surveys (m := s.socket) (b := s.messageBuffer)
        (Nat.lt_of_le_of_lt hn (size_lt s))
      have hfound : (s.receive n).2.1.isSome = (scan n s.socket.queues).found := hsurveys.found
      unfold UdcServerImpl.receiveLoop UdcServerImpl.turnsLoop
      cases hr : (s.receive n).2.1 with
      | none =>
          rw [receive_none hr, List.forall_mem_singleton, ← scan_clear_iff]
          have hqueues : (s.receive n).1.socket.queues = (scan n s.socket.queues).queues :=
            hsurveys.queues
          have hnone : (scan n s.socket.queues).found = false := by
            rw [← hfound, hr]
            rfl
          simp only [hqueues, hnone, true_implies]
      | some address =>
          have hleaves := turn_leaves time hn hr
          have hexposed : Exposed n s.messageBufferSize s.socket.queues := by
            refine Or.inl ((scan_found_iff _ n).mp ?_)
            rw [← hfound, hr]
            rfl
          rw [receive_some hr, List.forall_mem_cons, and_iff_right hexposed]
          simp only
          generalize (s.receive n).1.handleDatagram address (s.receive n).2.2 time = t at hleaves
          obtain ⟨s', event⟩ := t
          cases event with
          | some e => simp
          | none =>
              have hsize := hleaves.size
              have hless := hleaves.backlog
              simp only at hsize hless ⊢
              have h := ih s' (s.receive n).2.2 (by omega) (by rw [hsize]; exact hleaves.room)
              rw [hsize] at h
              exact h

/--
**`receive` hides no datagram from its caller exactly if what is queued is exposed**, and
`receiveMessages` none from the application if that holds at each of its passes.
-/
theorem hides_nothing_iff (m : UdcSocketMux) (b : MessageBuffer) (s : UdcServerImpl)
    (time : Milliseconds) :
    (((m.receive b b.size).address = none → Clear b.size (m.receive b b.size).mux.queues) ↔
        Exposed b.size b.size m.queues) ∧
      (((s.receiveMessages time).2 = none →
          Clear s.messageBufferSize (s.receiveMessages time).1.socket.queues) ↔
        ∀ x ∈ s.turns time, Exposed x.2 s.messageBufferSize x.1.socket.queues) := by
  refine ⟨?_, ?_⟩
  · have hlt : b.size < 2 ^ 32 := b.size_lt
    have hsurveys := receive_surveys (m := m) (b := b) hlt
    rw [← scan_clear_iff, ← hsurveys.found, hsurveys.queues, ← Option.isNone_iff_eq_none]
    cases (m.receive b b.size).address <;> simp
  · exact receiveLoop_clear _ s _ (Nat.lt_succ_self _) (Nat.le_refl _)

/-- An empty datagram, and a ping behind it. -/
def emptyFirstOps : List Op :=
  [.tryBindIPv4 true, .arriveIPv4 0 (.datagram ⟨exampleIP 9, 1, [], default⟩),
    .arriveIPv4 0 (.datagram ⟨exampleIP 9, 1, [1, 2, 3, 4, 2, 0, 0, 0, 0], default⟩)]

theorem hidden_by_empty : ∃ trace s, ServerRun exampleSignature exampleBuffer trace s ∧
    ¬ ((s.socket.receive s.messageBuffer s.messageBufferSize).address = none →
      Clear s.messageBufferSize
        (s.socket.receive s.messageBuffer s.messageBufferSize).mux.queues) ∧
    ¬ ((s.receiveMessages 10).2 = none →
      Clear s.messageBufferSize (s.receiveMessages 10).1.socket.queues) := by
  refine ⟨_, _, run_of_admissible emptyFirstOps (by decide +kernel), fun h => ?_, fun h => ?_⟩
  · have hclear := h (by decide +kernel) [some ⟨9, .refused⟩] (by decide +kernel) ⟨9, .refused⟩
      (by decide) (by decide)
    exact absurd hclear (by decide +kernel)
  · have hclear := h (by decide +kernel) [some ⟨9, .refused⟩] (by decide +kernel) ⟨9, .refused⟩
      (by decide) (by decide)
    exact absurd hclear (by decide +kernel)

end Turns

end UdpConnect
