/-
Reliable handshakes, and the message they are for.

A handshake is to acknowledge the message in front, once that has been sent under the
client's bit.  `processReliableHandshake` compares the bits and asks no more: it pops the
queue if there is something in it, and flips the bit either way.  That the message in
front is awaited is what `m_reliableSentTime` records, and nothing reads it here.
`handshake_acts_iff` says that this is all that is missing.
-/
import UdpConnect.Proofs.Timer

namespace UdpConnect

open Memory AlternatingBit Past UdcServerImpl

/-- The pass changes the state of the client. -/
def Flips (r : ClientRef) (time : Milliseconds) (x : UdcServerImpl × Nat) : Prop :=
  ((pass time x).1.heap r).reliableState ≠ (x.1.heap r).reliableState

namespace Course

variable (w : Course) (time : Milliseconds) (before : List (UdcServerImpl × Nat))

/-- After these passes of a call the message is outstanding still. -/
def InFlight (b : Bool) (msg : List UInt8) : Prop :=
  Outstanding w.client.ref b msg w.created w.after ∧ ∀ y ∈ before, ¬ Flips w.client.ref time y

/-- It is outstanding by a tick at time zero, of which the client's timer says nothing. -/
def SentAtZero (b : Bool) : Prop :=
  (∃ msg, Since next (Op.SendsFront w.client.ref b msg 0) (Op.SetsBit w.client.ref) w.created
    w.after) ∧ ∀ y ∈ before, ¬ Flips w.client.ref time y

/-- The pass leaves bit and queue alone, or takes the message in flight off the queue and
flips the bit it was sent under. -/
inductive Acknowledges (x : UdcServerImpl × Nat) (b : Bool) : Prop
  | rests
      (hstate : ((pass time x).1.heap w.client.ref).reliableState
        = (x.1.heap w.client.ref).reliableState)
      (hqueue : ((pass time x).1.heap w.client.ref).reliableMessages
        = (x.1.heap w.client.ref).reliableMessages)
  | pops {msg : List UInt8} (hflight : w.InFlight time before b msg)
      (hbit : (x.1.heap w.client.ref).reliableState = stateOf (.bit b))
      (hstate : ((pass time x).1.heap w.client.ref).reliableState = stateOf (.bit !b))
      (hqueue : (x.1.heap w.client.ref).reliableMessages
        = msg :: ((pass time x).1.heap w.client.ref).reliableMessages)

/-- The handshake is of the client's own bit, and the client's timer does not run. -/
structure Unawaited (x : UdcServerImpl × Nat) (address : UdcAddressMux) (b : Bool)
    (timeStamp : Nat) : Prop where
  lookup : x.1.clientsByAddress.lookup address = some w.client.ref
  timely : (timeStamp : Milliseconds) ≤ time
  state : (x.1.heap w.client.ref).reliableState = stateOf (.bit b)
  sentTime : (x.1.heap w.client.ref).reliableSentTime = 0
  later : ¬ w.SentAtZero time before b

end Course

/-! ### One pass -/

section Handling

variable {s : UdcServerImpl} {r : ClientRef} {time : Milliseconds} {x : UdcServerImpl × Nat}
  {before after : List (UdcServerImpl × Nat)} {address : UdcAddressMux} {bytes : List UInt8}
  {kind : Kind} {timeStamp : Nat}

/-- A handshake of the client's own state moves the client to the next one. -/
theorem state_of_handshake (hcap : Capacity x.1.messageBuffer x.2)
    (hd : datagram x = some (address, bytes))
    (hm : decode x.1.packetSignature.bytes bytes = some (.reliableHandshake kind timeStamp))
    (hlookup : x.1.clientsByAddress.lookup address = some r)
    (htime : (timeStamp : Milliseconds) ≤ time)
    (hmatch : (x.1.heap r).reliableState = stateOf kind) :
    ((pass time x).1.heap r).reliableState = if stateOf kind = 0 then 1 else 0 := by
  obtain ⟨packet, rfl, rfl, hturn⟩ := turn_of_pass time hcap hd
  rcases protocol_turn hturn with ⟨hnone, -⟩ | ⟨m, hm', hstate⟩
  · rw [hm] at hnone
    cases hnone
  · obtain rfl := Option.some.inj (hm.symm.trans hm')
    have hheap : (pass time x).1.heap = _ := congrArg Protocol.heap hstate
    have hlookup' : x.1.protocol.clientsByAddress.lookup packet.address = some r := hlookup
    rw [hheap]
    simp only [Protocol.handle, Protocol.answer, hlookup', if_neg (not_lt.mpr htime),
      Protocol.heap_setClient_self, receivePong_eq]
    exact (acceptHandshake_match hmatch).1

/-- Passes that do not change a client's state leave its reliable part alone. -/
theorem rests_at_pass (hturns : s.turns time = before ++ x :: after)
    (h : ∀ y ∈ before, ¬ Flips r time y) :
    (x.1.heap r).reliableState = (s.heap r).reliableState ∧
      (x.1.heap r).reliableSentTime = (s.heap r).reliableSentTime ∧
        (x.1.heap r).reliableMessages = (s.heap r).reliableMessages := by
  refine turns_reach (P := fun u => (u.heap r).reliableState = (s.heap r).reliableState ∧
    (u.heap r).reliableSentTime = (s.heap r).reliableSentTime ∧
      (u.heap r).reliableMessages = (s.heap r).reliableMessages) hturns ⟨rfl, rfl, rfl⟩ ?_
  rintro y hy ⟨hstate, hsent, hqueue⟩
  have hmem : y ∈ s.turns time := by
    rw [hturns]
    exact List.mem_append_left _ hy
  cases reliablePass r time (turns_capacity hmem) with
  | rests hstate' hsent' hqueue' =>
      exact ⟨hstate'.trans hstate, hsent'.trans hsent, hqueue'.trans hqueue⟩
  | @sets address bytes kind timeStamp hd hm hlookup htime hmatch hstate' hsent' hqueue' =>
      refine absurd ?_ (h y hy)
      unfold Flips
      rw [hstate', hmatch]
      exact next_state_ne kind

/-- A pass that has changed a client's state has stopped its timer. -/
theorem stopped_at_pass (hturns : s.turns time = before ++ x :: after)
    (h : ¬ ∀ y ∈ before, ¬ Flips r time y) : (x.1.heap r).reliableSentTime = 0 := by
  push Not at h
  obtain ⟨y, hy, hflips⟩ := h
  obtain ⟨earlier, between, rfl⟩ := List.append_of_mem hy
  have hmem (z : UdcServerImpl × Nat) (hz : z ∈ y :: between) : z ∈ s.turns time := by
    rw [hturns]
    exact List.mem_append_left _ (List.mem_append_right _ hz)
  rw [List.append_assoc] at hturns
  refine turns_reach_from (P := fun u => (u.heap r).reliableSentTime = 0) hturns ?_ ?_
  · cases reliablePass r time (turns_capacity (hmem y List.mem_cons_self)) with
    | rests hstate hsent hqueue => exact absurd hstate hflips
    | @sets address bytes kind timeStamp hd hm hlookup htime hmatch hstate hsent hqueue =>
        exact hsent
  · intro z hz hzero
    cases reliablePass r time (turns_capacity (hmem z (List.mem_cons_of_mem y hz))) with
    | rests hstate hsent hqueue => exact hsent.trans hzero
    | @sets address bytes kind timeStamp hd hm hlookup htime hmatch hstate hsent hqueue =>
        exact hsent

end Handling

/-! ### Runs -/

section Courses

variable {w : Course} {time : Milliseconds} {x : UdcServerImpl × Nat}
  {before after : List (UdcServerImpl × Nat)} {address : UdcAddressMux} {b : Bool}
  {msg : List UInt8} {timeStamp : Nat}

/-- What is in flight is in front, and has been sent under the client's bit. -/
theorem front_of_inFlight (hturns : w.now.turns time = before ++ x :: after)
    (h : w.InFlight time before b msg) :
    (x.1.heap w.client.ref).reliableState = stateOf (.bit b) ∧
      (x.1.heap w.client.ref).reliableMessages.head? = some msg := by
  obtain ⟨hout, hflips⟩ := h
  obtain ⟨hstate, hfront⟩ := (timer_course w).front b msg hout
  obtain ⟨hstate', -, hqueue'⟩ := rests_at_pass hturns hflips
  rw [← w.now_eq] at hstate hfront
  rw [hstate', hqueue']
  exact ⟨hstate, hfront⟩

/-- A message is in flight exactly if the timer runs, or had to be started at time zero. -/
theorem inFlight_iff (hturns : w.now.turns time = before ++ x :: after)
    (hbit : (x.1.heap w.client.ref).reliableState = stateOf (.bit b)) :
    (∃ msg, w.InFlight time before b msg) ↔
      (x.1.heap w.client.ref).reliableSentTime ≠ 0 ∨ w.SentAtZero time before b := by
  have htimer := timer_course w
  by_cases hflips : ∀ y ∈ before, ¬ Flips w.client.ref time y
  · obtain ⟨hstate, hsent, -⟩ := rests_at_pass hturns hflips
    rw [hstate, w.now_eq] at hbit
    rw [hsent, w.now_eq]
    constructor
    · rintro ⟨msg, hout, -⟩
      by_cases hzero : ((runState w.created w.after).heap w.client.ref).reliableSentTime = 0
      · -- the sending cannot have been at any other time, for then the timer would run
        obtain ⟨earlier, op, later, hsplit, ⟨t, hsends⟩, hset⟩ := hout
        have htime : t = 0 := by
          by_contra hne
          exact htimer.stopped hzero b msg ⟨earlier, op, later, hsplit, ⟨t, hne, hsends⟩, hset⟩
        subst htime
        exact Or.inr ⟨⟨msg, earlier, op, later, hsplit, hsends, hset⟩, hflips⟩
      · exact Or.inl hzero
    · rintro (hrun | ⟨⟨msg, hzero⟩, -⟩)
      · obtain ⟨b', msg, hout, -⟩ := htimer.running hrun
        obtain ⟨hstate', -⟩ := htimer.front b' msg hout
        obtain rfl : b' = b := by
          rw [hstate'] at hbit
          revert hbit
          cases b' <;> cases b <;> decide
        exact ⟨msg, hout, hflips⟩
      · exact ⟨msg, hzero.mono fun _ _ h => ⟨0, h⟩, hflips⟩
  · constructor
    · rintro ⟨msg, -, hnone⟩
      exact absurd hnone hflips
    · rintro (hrun | ⟨-, hnone⟩)
      · exact absurd (stopped_at_pass hturns hflips) hrun
      · exact absurd hnone hflips

/--
**A handshake acts on a message in flight only, exactly if the client awaits one** when a
handshake of its own bit is processed for it.
-/
theorem handshake_acts_iff (w : Course) (hturns : w.now.turns time = before ++ x :: after)
    (hts : timeStamp < 2 ^ 32)
    (hd : datagram x = some (address,
      encode w.now.packetSignature.bytes (.reliableHandshake (.bit b) timeStamp))) :
    w.Acknowledges time before x b ↔ ¬ w.Unawaited time before x address b timeStamp := by
  have hx : x ∈ w.now.turns time := by
    rw [hturns]
    exact List.mem_append_right _ List.mem_cons_self
  have hread : decode x.1.packetSignature.bytes
      (encode w.now.packetSignature.bytes (.reliableHandshake (.bit b) timeStamp))
        = some (.reliableHandshake (.bit b) timeStamp) := by
    rw [turns_signature hx]
    exact decode_encode w.now.packetSignature.size hts
  have hnext : (if stateOf (.bit b) = 0 then (1 : Int) else 0) = stateOf (.bit !b) := by
    cases b <;> decide
  constructor
  · rintro hacts ⟨hlookup, htime, hmatch, hzero, hlater⟩
    cases hacts with
    | rests hstate hqueue =>
        have hmoved := state_of_handshake (turns_capacity hx) hd hread hlookup htime hmatch
        rw [hstate, hmatch] at hmoved
        exact next_state_ne (.bit b) hmoved.symm
    | pops hflight hbit hstate hqueue =>
        rcases (inFlight_iff hturns hbit).mp ⟨_, hflight⟩ with hrun | hsent
        · exact hrun hzero
        · exact hlater hsent
  · intro hawaited
    cases reliablePass w.client.ref time (turns_capacity hx) with
    | rests hstate hsent hqueue => exact .rests hstate hqueue
    | @sets address' bytes kind timeStamp' hd' hm hlookup htime hmatch hstate hsent hqueue =>
        obtain ⟨rfl, rfl⟩ := Prod.mk.inj (Option.some.inj (hd.symm.trans hd'))
        obtain ⟨rfl, rfl⟩ := Message.reliableHandshake.inj (Option.some.inj (hread.symm.trans hm))
        rw [hnext] at hstate
        rw [if_neg Kind.noConfusion] at hqueue
        have hflight : ∃ msg, w.InFlight time before b msg := by
          rw [inFlight_iff hturns hmatch]
          by_contra hnone
          rw [not_or, not_not] at hnone
          exact hawaited ⟨hlookup, htime, hmatch, hnone.1, hnone.2⟩
        obtain ⟨msg, hflight⟩ := hflight
        obtain ⟨rest, hfront⟩ :=
          List.head?_eq_some_iff.mp (front_of_inFlight hturns hflight).2
        refine .pops hflight hmatch hstate ?_
        rw [hqueue, hfront]
        rfl

/-- A handshake arrives for the message, which has been sent. -/
def acknowledgedOps : List Op :=
  sentOps ++ [.arriveIPv4 0 (.datagram
    ⟨exampleIP 2, 2, [1, 2, 3, 4, 9, 11, 0, 0, 0], default⟩)]

theorem admissible_acknowledged : Throughout (fun s op => op.Admissible s) exampleServer
    (exampleBound ++ exampleConnect :: acknowledgedOps) := by
  decide +kernel

def acknowledgedCourse : Course := exampleCourse acknowledgedOps admissible_acknowledged

theorem handshake_acts_once : acknowledgedCourse.Acknowledges (exampleTime + 20) []
    (acknowledgedCourse.now, 16) false := by
  have hturns : acknowledgedCourse.now.turns (exampleTime + 20)
      = [] ++ (acknowledgedCourse.now, 16) ::
        (acknowledgedCourse.now.turns (exampleTime + 20)).tail := rfl
  have hd : datagram (acknowledgedCourse.now, 16) = some (⟨.ipv4 (exampleIP 2), 2⟩,
      encode acknowledgedCourse.now.packetSignature.bytes
        (.reliableHandshake (.bit false) 11)) := by
    decide +kernel
  refine (handshake_acts_iff acknowledgedCourse hturns (by decide) hd).mpr ?_
  intro h
  have hzero := h.sentTime
  revert hzero
  decide +kernel

/-- The message has been pushed only, and the handshake is forged. -/
def forgedOps : List Op :=
  heardOps ++ [.sendMessage 1 [65] .reliableMessage, .arriveIPv4 0 (.datagram
    ⟨exampleIP 2, 2, [1, 2, 3, 4, 9, 0, 0, 0, 0], default⟩)]

theorem admissible_forged : Throughout (fun s op => op.Admissible s) exampleServer
    (exampleBound ++ exampleConnect :: forgedOps) := by
  decide +kernel

def forgedCourse : Course := exampleCourse forgedOps admissible_forged

theorem unsent_message_acknowledged : ¬ ∀ (w : Course) (time : Milliseconds)
    (before : List (UdcServerImpl × Nat)) (x : UdcServerImpl × Nat)
    (after : List (UdcServerImpl × Nat)) (address : UdcAddressMux) (b : Bool) (timeStamp : Nat),
    w.now.turns time = before ++ x :: after → timeStamp < 2 ^ 32 →
      datagram x = some (address,
        encode w.now.packetSignature.bytes (.reliableHandshake (.bit b) timeStamp)) →
          w.Acknowledges time before x b := by
  intro h
  have hd : datagram (forgedCourse.now, 16) = some (⟨.ipv4 (exampleIP 2), 2⟩,
      encode forgedCourse.now.packetSignature.bytes (.reliableHandshake (.bit false) 0)) := by
    decide +kernel
  have hturns : forgedCourse.now.turns (exampleTime + 20)
      = [] ++ (forgedCourse.now, 16) ::
        (forgedCourse.now.turns (exampleTime + 20)).tail := rfl
  have hacts := h forgedCourse _ [] _ _ _ false 0 hturns (by decide) hd
  cases hacts with
  | rests hstate hqueue =>
      revert hstate
      decide +kernel
  | pops hflight hbit hstate hqueue =>
      rcases (inFlight_iff hturns hbit).mp ⟨_, hflight⟩ with hrun | ⟨⟨msg, hzero⟩, -⟩
      · revert hrun
        decide +kernel
      · -- there was no tick at all
        obtain ⟨earlier, op, later, hsplit, hsends, -⟩ := hzero
        obtain ⟨order, rfl⟩ := op_of_sendsFront hsends
        have hmem : Op.updateClientConnectionStatus 0 order ∈ forgedOps := by
          show _ ∈ forgedCourse.after
          rw [hsplit]
          exact List.mem_append_right _ List.mem_cons_self
        simp [forgedOps, heardOps] at hmem

end Courses

end UdpConnect
