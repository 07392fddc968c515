/-
The passes of a call of `receiveMessages`, one by one.

`Proofs/Polling.lean` lists the calls of `m_socket.receive`; here each of them is taken
with what follows it.  `datagram` is what the call returned, and `pass` what the server
makes of it.  What every pass of a call keeps, the call keeps (`receiveMessages_keeps`),
and a call can be looked at from any of its passes on (`turns_split`).
-/
import UdpConnect.Proofs.Polling

namespace UdpConnect

namespace UdcServerImpl

/-- What `m_socket.receive` returns in a pass: the source, and what is in the buffer. -/
def datagram (x : UdcServerImpl × Nat) : Option (UdcAddressMux × List UInt8) :=
  match x.1.receive x.2 with
  | (_, none, _) => none
  | (s, some address, msgSize) => some (address, s.messageBuffer.bytes.take msgSize)

/-- A pass of the loop: `m_socket.receive`, and the handling of what it has returned. -/
def pass (time : Milliseconds) (x : UdcServerImpl × Nat) : UdcServerImpl × Option UdcEvent :=
  match x.1.receive x.2 with
  | (s, none, _) => (s, none)
  | (s, some address, msgSize) => s.handleDatagram address msgSize time

end UdcServerImpl

open UdcServerImpl

section Passes

variable {s : UdcServerImpl} {n fuel : Nat} {time : Milliseconds} {x : UdcServerImpl × Nat}
  {before after : List (UdcServerImpl × Nat)} {address : UdcAddressMux} {bytes : List UInt8}

theorem pass_none (time : Milliseconds) (h : (s.receive n).2.1 = none) :
    datagram (s, n) = none ∧ pass time (s, n) = ((s.receive n).1, none) := by
  unfold datagram UdcServerImpl.pass
  rw [receive_none h]
  exact ⟨rfl, rfl⟩

theorem pass_some (time : Milliseconds) (h : (s.receive n).2.1 = some address) :
    datagram (s, n)
        = some (address, (s.receive n).1.messageBuffer.bytes.take (s.receive n).2.2) ∧
      pass time (s, n) = (s.receive n).1.handleDatagram address (s.receive n).2.2 time := by
  unfold datagram UdcServerImpl.pass
  rw [receive_some h]
  exact ⟨rfl, rfl⟩

/-- A pass that has received a datagram is a turn with that datagram. -/
theorem turn_of_pass (time : Milliseconds) (hcap : Capacity x.1.messageBuffer x.2)
    (h : datagram x = some (address, bytes)) :
    ∃ packet, packet.address = address ∧ packet.bytes = bytes ∧
      Turn time x.1 packet (pass time x).1 (pass time x).2 := by
  cases hr : (x.1.receive x.2).2.1 with
  | none =>
      rw [(pass_none time hr).1] at h
      cases h
  | some address' =>
      obtain ⟨hdatagram, hpass⟩ := pass_some time hr
      obtain ⟨packet, hp, hturn, -⟩ := turn_of_receive time hcap hr
      rw [hdatagram] at h
      obtain ⟨rfl, rfl⟩ := Prod.mk.inj (Option.some.inj h)
      rw [hpass]
      exact ⟨packet, Option.some.inj (hp.address.symm.trans hr), hp.front.symm, hturn⟩

theorem lastTurn_of_pass (time : Milliseconds) (hcap : Capacity x.1.messageBuffer x.2)
    (h : datagram x = none) : LastTurn x.1 (pass time x).1 ∧ (pass time x).2 = none := by
  cases hr : (x.1.receive x.2).2.1 with
  | none =>
      rw [(pass_none time hr).2]
      exact ⟨lastTurn_of_receive hcap hr, rfl⟩
  | some address' =>
      rw [(pass_some time hr).1] at h
      cases h

/-! ### The loop -/

/-- The loop makes a pass; it goes on if a datagram came without an event. -/
theorem loop_succ (time : Milliseconds) (fuel : Nat) (s : UdcServerImpl) (n : Nat) :
    (turnsLoop time (fuel + 1) s n = [(s, n)] ∧
        receiveLoop time (fuel + 1) s n = pass time (s, n)) ∨
      ∃ m, turnsLoop time (fuel + 1) s n
          = (s, n) :: turnsLoop time fuel (pass time (s, n)).1 m ∧
        receiveLoop time (fuel + 1) s n = receiveLoop time fuel (pass time (s, n)).1 m ∧
        (Capacity s.messageBuffer n → Capacity (pass time (s, n)).1.messageBuffer m) := by
  rw [turnsLoop, receiveLoop]
  cases hr : (s.receive n).2.1 with
  | none =>
      rw [(pass_none time hr).2, receive_none hr]
      exact Or.inl ⟨rfl, rfl⟩
  | some address =>
      rw [(pass_some time hr).2, receive_some hr]
      have hcap (h : Capacity s.messageBuffer n) :=
        (turn_of_receive time h hr).choose_spec.2.2
      simp only
      generalize (s.receive n).1.handleDatagram address (s.receive n).2.2 time = t at hcap ⊢
      obtain ⟨s', event⟩ := t
      cases event with
      | some e => exact Or.inl ⟨rfl, rfl⟩
      | none => exact Or.inr ⟨(s.receive n).2.2, rfl, rfl, hcap⟩

/-- The loop, looked at from one of its passes on. -/
theorem loop_split (time : Milliseconds) (fuel : Nat) : ∀ s n before,
    turnsLoop time fuel s n = before ++ x :: after → Capacity s.messageBuffer n →
      Capacity x.1.messageBuffer x.2 ∧ ∃ fuel',
        turnsLoop time (fuel' + 1) x.1 x.2 = x :: after ∧
          receiveLoop time fuel s n = receiveLoop time (fuel' + 1) x.1 x.2 := by
  induction fuel with
  | zero =>
      intro s n before h _
      exact absurd h.symm (List.append_ne_nil_of_right_ne_nil _ (List.cons_ne_nil _ _))
  | succ fuel ih =>
      intro s n before h hcap
      cases before with
      | nil =>
          obtain rfl : x = (s, n) := by
            unfold turnsLoop at h
            exact (List.cons.inj h).1.symm
          exact ⟨hcap, fuel, h, rfl⟩
      | cons y before =>
          rcases loop_succ time fuel s n with ⟨hturns, -⟩ | ⟨m, hturns, hcall, hnext⟩
          · rw [hturns] at h
            have hnil := (List.cons.inj h).2
            exact absurd hnil.symm (List.append_ne_nil_of_right_ne_nil _ (List.cons_ne_nil _ _))
          · rw [hturns] at h
            rw [hcall]
            exact ih _ m before (List.cons.inj h).2 (hnext hcap)

/-- What the passes before it keep holds when a pass begins. -/
theorem loop_reaches {P : UdcServerImpl → Prop} (time : Milliseconds) (fuel : Nat) :
    ∀ s n before, turnsLoop time fuel s n = before ++ x :: after → P s →
      (∀ y ∈ before, P y.1 → P (pass time y).1) → P x.1 := by
  induction fuel with
  | zero =>
      intro s n before h
      exact absurd h.symm (List.append_ne_nil_of_right_ne_nil _ (List.cons_ne_nil _ _))
  | succ fuel ih =>
      intro s n before h hP hkeep
      cases before with
      | nil =>
          obtain rfl : x = (s, n) := by
            unfold turnsLoop at h
            exact (List.cons.inj h).1.symm
          exact hP
      | cons y before =>
          rcases loop_succ time fuel s n with ⟨hturns, -⟩ | ⟨m, hturns, -, -⟩
          · rw [hturns] at h
            have hnil := (List.cons.inj h).2
            exact absurd hnil.symm (List.append_ne_nil_of_right_ne_nil _ (List.cons_ne_nil _ _))
          · rw [hturns] at h
            obtain ⟨rfl, hrest⟩ := List.cons.inj h
            exact ih _ m before hrest (hkeep _ List.mem_cons_self hP)
              fun z hz => hkeep z (List.mem_cons_of_mem _ hz)

/-- What every pass keeps holds when the loop is left. -/
theorem loop_keeps {P : UdcServerImpl → Prop} (time : Milliseconds) (fuel : Nat) : ∀ s n, P s →
    (∀ y ∈ turnsLoop time fuel s n, P y.1 → P (pass time y).1) →
      P (receiveLoop time fuel s n).1 := by
  induction fuel with
  | zero =>
      intro s n hP _
      exact hP
  | succ fuel ih =>
      intro s n hP hkeep
      rcases loop_succ time fuel s n with ⟨hturns, hcall⟩ | ⟨m, hturns, hcall, -⟩
      · rw [hturns] at hkeep
        rw [hcall]
        exact hkeep _ List.mem_cons_self hP
      · rw [hturns] at hkeep
        rw [hcall]
        exact ih _ m (hkeep _ List.mem_cons_self hP) fun y hy =>
          hkeep y (List.mem_cons_of_mem _ hy)

/-- What a pass brings about and the passes after it keep holds when the loop is left. -/
theorem loop_from {P : UdcServerImpl → Prop} (time : Milliseconds)
    (h : turnsLoop time (fuel + 1) x.1 x.2 = x :: after) (hP : P (pass time x).1)
    (hkeep : ∀ y ∈ after, P y.1 → P (pass time y).1) :
    P (receiveLoop time (fuel + 1) x.1 x.2).1 := by
  rcases loop_succ time fuel x.1 x.2 with ⟨-, hcall⟩ | ⟨m, hturns, hcall, -⟩
  · rw [hcall]
    exact hP
  · rw [hturns] at h
    rw [hcall]
    apply loop_keeps time fuel _ m hP
    rw [(List.cons.inj h).2]
    exact hkeep

/-! ### The call -/

theorem turns_capacity (hx : x ∈ s.turns time) : Capacity x.1.messageBuffer x.2 := by
  obtain ⟨before, after, h⟩ := List.append_of_mem hx
  exact (loop_split time _ s _ before h (capacity_full _)).1

/-- **What every pass of a call keeps, the call keeps.** -/
theorem receiveMessages_keeps {P : UdcServerImpl → Prop} (hP : P s)
    (hkeep : ∀ y ∈ s.turns time, P y.1 → P (pass time y).1) : P (s.receiveMessages time).1 :=
  loop_keeps time _ s _ hP hkeep

theorem turns_reach {P : UdcServerImpl → Prop} (h : s.turns time = before ++ x :: after) (hP : P s)
    (hkeep : ∀ y ∈ before, P y.1 → P (pass time y).1) : P x.1 :=
  loop_reaches time _ s _ before h hP hkeep

/-- What one pass of a call brings about, and those between keep, holds at a later pass. -/
theorem turns_reach_from {P : UdcServerImpl → Prop} {between : List (UdcServerImpl × Nat)}
    {y : UdcServerImpl × Nat} (h : s.turns time = before ++ y :: (between ++ x :: after))
    (hP : P (pass time y).1) (hkeep : ∀ z ∈ between, P z.1 → P (pass time z).1) : P x.1 := by
  obtain ⟨-, fuel, hturns, -⟩ := loop_split time _ s _ before h (capacity_full _)
  rcases loop_succ time fuel y.1 y.2 with ⟨hlast, -⟩ | ⟨m, hnext, -, -⟩
  · rw [hlast] at hturns
    have hnil := (List.cons.inj hturns).2
    exact absurd hnil.symm (List.append_ne_nil_of_right_ne_nil _ (List.cons_ne_nil _ _))
  · rw [hnext] at hturns
    exact loop_reaches time fuel _ m between (List.cons.inj hturns).2 hP hkeep

/-- **What one pass of a call brings about, and the later ones keep, holds after the call.** -/
theorem receiveMessages_from {P : UdcServerImpl → Prop} (h : s.turns time = before ++ x :: after)
    (hP : P (pass time x).1) (hkeep : ∀ y ∈ after, P y.1 → P (pass time y).1) :
    P (s.receiveMessages time).1 := by
  obtain ⟨-, fuel, hturns, hcall⟩ := loop_split time _ s _ before h (capacity_full _)
  show P (receiveLoop time _ s _).1
  rw [hcall]
  exact loop_from time hturns hP hkeep

/-- A pass makes a change of the protocol, or none, and leaves the signature. -/
theorem pass_signature (hcap : Capacity x.1.messageBuffer x.2) :
    (pass time x).1.packetSignature = x.1.packetSignature := by
  cases h : datagram x with
  | none => exact (lastTurn_of_pass time hcap h).1.signature
  | some d =>
      obtain ⟨packet, -, -, hturn⟩ := turn_of_pass time hcap (h.trans (by rw [Prod.eta]))
      exact hturn.signature

theorem turns_signature (hx : x ∈ s.turns time) : x.1.packetSignature = s.packetSignature := by
  obtain ⟨before, after, h⟩ := List.append_of_mem hx
  refine turns_reach (P := fun t => t.packetSignature = s.packetSignature) h rfl ?_
  intro y hy hsame
  have hmem : y ∈ s.turns time := by
    rw [h]
    exact List.mem_append_left _ hy
  exact (pass_signature (turns_capacity hmem)).trans hsame

end Passes

end UdpConnect
