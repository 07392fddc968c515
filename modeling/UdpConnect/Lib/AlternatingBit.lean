/-
The alternating-bit protocol with a reset handshake, over lossy FIFO channels.

A sender holds a queue of messages and one bit; it keeps sending the message in
front, tagged with the bit, until an acknowledgement of that bit arrives, then drops
the message and flips the bit.  A receiver holds at most one expected bit.  It
acknowledges everything, reports a message when it expects its bit or has no
expectation yet, and expects the other bit afterwards.

When the sender loses patience it gives up its bit and asks the receiver to start
over: it sends resets until one is acknowledged and goes on with bit `false`.  An
acknowledged reset makes the receiver expect `false`, if it expects anything.

A `Channel` says what may become of the elements in flight: `Channel.fifo` loses them and
repeats them in place, `Channel.any` may also reorder them.  `Terms` are a channel and
conditions under which a step may be taken, so that one step relation serves for every
theorem below, and a model of the protocol is related to it once.

Every frame carries the time at which the sender made it and the number of the message that
was in front then, and an acknowledgement keeps the tag of the frame it answers.  Over a FIFO
channel acknowledgements and data together,
acknowledgements first, are one word that a delivery does not change at all: it moves the
boundary.  What there is to know about the frames in flight is a property of that word.

The one thing a bit cannot protect is a reset: the acknowledgement of an earlier reset
looks like that of the present one.  Under the terms `orderly` the sender acts on a reset
acknowledgement only if it is fresh.  With that, every message dropped by the sender has
been reported (`Inv.delivered`), and as long as nothing times out the receiver has
reported exactly the dropped messages, in order, and possibly the one in front (`Exact`).

What may be said when the channel reorders is in `Lib/Overtaking.lean`.
-/
import Mathlib.Data.List.Pairwise
import Mathlib.Logic.Relation

namespace AlternatingBit

/-! ### Channels -/

section Stutter

variable {α β : Type}

/-- The second list is what a FIFO channel makes of the first: losses and repetitions in place. -/
inductive Stutter : List α → List α → Prop
  | nil : Stutter [] []
  | drop {x : α} {xs ys : List α} (h : Stutter xs ys) : Stutter (x :: xs) ys
  | copy {x : α} {xs ys : List α} (h : Stutter (x :: xs) ys) : Stutter (x :: xs) (x :: ys)

namespace Stutter

theorem to_nil (xs : List α) : Stutter xs [] := by
  induction xs with
  | nil => exact nil
  | cons x xs ih => exact drop ih

theorem cons {x : α} {xs ys : List α} (h : Stutter xs ys) : Stutter (x :: xs) (x :: ys) :=
  copy (drop h)

theorem of_sublist {xs ys : List α} (h : ys.Sublist xs) : Stutter xs ys := by
  induction h with
  | slnil => exact nil
  | cons _ _ ih => exact drop ih
  | cons_cons _ _ ih => exact cons ih

/-- A channel invents nothing. -/
theorem mem {xs ys : List α} (h : Stutter xs ys) {y : α} (hy : y ∈ ys) : y ∈ xs := by
  induction h with
  | nil => exact hy
  | drop _ ih => exact List.mem_cons_of_mem _ (ih hy)
  | copy _ ih =>
      rcases List.mem_cons.mp hy with rfl | hy
      · exact List.mem_cons_self
      · exact ih hy

theorem append_left (zs : List α) {xs ys : List α} (h : Stutter xs ys) :
    Stutter (zs ++ xs) (zs ++ ys) := by
  induction zs with
  | nil => exact h
  | cons z zs ih => exact cons ih

theorem append {xs ys xs' ys' : List α} (h : Stutter xs ys) (h' : Stutter xs' ys') :
    Stutter (xs ++ xs') (ys ++ ys') := by
  induction h with
  | nil => exact h'
  | drop _ ih => exact drop ih
  | copy _ ih => exact copy ih

theorem map (f : α → β) {xs ys : List α} (h : Stutter xs ys) : Stutter (xs.map f) (ys.map f) := by
  induction h with
  | nil => exact nil
  | drop _ ih => exact drop ih
  | copy _ ih => exact copy ih

theorem filterMap (f : α → Option β) {xs ys : List α} (h : Stutter xs ys) :
    Stutter (xs.filterMap f) (ys.filterMap f) := by
  induction h with
  | nil => exact nil
  | @drop x _ _ _ ih =>
      cases hx : f x with
      | none => simpa [List.filterMap_cons, hx] using ih
      | some y => simpa [List.filterMap_cons, hx] using drop ih
  | @copy x _ _ _ ih =>
      cases hx : f x with
      | none => simpa [List.filterMap_cons, hx] using ih
      | some y =>
          rw [List.filterMap_cons_some hx] at ih ⊢
          rw [List.filterMap_cons_some hx]
          exact copy ih

/-- An order that elements bear to themselves survives losses and repetitions. -/
theorem pairwise {R : α → α → Prop} (hrefl : ∀ x, R x x) {xs ys : List α} (h : Stutter xs ys)
    (hxs : xs.Pairwise R) : ys.Pairwise R := by
  induction h with
  | nil => exact hxs
  | drop _ ih => exact ih (List.pairwise_cons.mp hxs).2
  | copy h ih =>
      refine List.pairwise_cons.mpr ⟨fun y hy => ?_, ih hxs⟩
      rcases List.mem_cons.mp (h.mem hy) with rfl | hy'
      · exact hrefl _
      · exact (List.pairwise_cons.mp hxs).1 y hy'

end Stutter

end Stutter

/-- What may become of the elements in flight, given their list before and after. -/
structure Channel where
  may : ∀ {α : Type}, List α → List α → Prop
  sublist : ∀ {α : Type} {xs ys : List α}, ys.Sublist xs → may xs ys
  mem : ∀ {α : Type} {xs ys : List α}, may xs ys → ∀ y ∈ ys, y ∈ xs
  append_left : ∀ {α : Type} (zs : List α) {xs ys : List α}, may xs ys → may (zs ++ xs) (zs ++ ys)
  filterMap : ∀ {α β : Type} (f : α → Option β) {xs ys : List α}, may xs ys →
    may (xs.filterMap f) (ys.filterMap f)

namespace Channel

/-- Losses and repetitions in place. -/
def fifo : Channel where
  may := Stutter
  sublist := .of_sublist
  mem h _ hy := h.mem hy
  append_left := .append_left
  filterMap := .filterMap

/-- Losses, repetitions and any reordering. -/
def any : Channel where
  may xs ys := ∀ y ∈ ys, y ∈ xs
  sublist h _ hy := h.subset hy
  mem h := h
  append_left zs xs ys h y hy := by
    rcases List.mem_append.mp hy with hy | hy
    · exact List.mem_append_left _ hy
    · exact List.mem_append_right _ (h y hy)
  filterMap f xs ys h y hy := by
    obtain ⟨x, hx, hfx⟩ := List.mem_filterMap.mp hy
    exact List.mem_filterMap.mpr ⟨x, h x hx, hfx⟩

theorem refl (c : Channel) {α : Type} (xs : List α) : c.may xs xs :=
  c.sublist (List.Sublist.refl xs)

end Channel

/-! ### The protocol -/

inductive Kind where
  | reset
  | bit (b : Bool)
deriving DecidableEq

/-- What the sender sends next, once a frame of this kind is acknowledged. -/
def Kind.next : Kind → Kind
  | .reset => .bit false
  | .bit b => .bit !b

/-- What an acknowledgement says of the frame it answers. -/
structure Tag where
  kind : Kind
  stamp : Nat
  /-- The number of the message in front when the frame was made. -/
  number : Nat

structure Frame (Message : Type) where
  tag : Tag
  msg : Message

/-- A sender, a receiver, and the two channels between them, oldest element first. -/
structure Link (Message : Type) where
  mode : Kind
  queue : List Message
  expected : Option Bool
  data : List (Frame Message)
  acks : List Tag
  clock : Nat
  /-- No frame stamped earlier belongs to the present reset. -/
  since : Nat
  /-- The number of the first message of all. -/
  base : Nat
  popped : List Message
  reported : List Message
  /-- The frames that have reached the receiver. -/
  heard : List (Frame Message)

variable {Message : Type}

namespace Link

variable (l : Link Message)

/-- Everything in flight: the acknowledgements, then the frames not yet delivered. -/
def wire : List Tag := l.acks ++ l.data.map Frame.tag

/-- The number of the message in front. -/
def number : Nat := l.base + l.popped.length

def push (m : Message) : Link Message := { l with queue := l.queue ++ [m] }

/-- The sender puts a frame of its present mode on the channel. -/
def emit (m : Message) : Link Message :=
  { l with data := l.data ++ [⟨⟨l.mode, l.clock, l.number⟩, m⟩], clock := l.clock + 1 }

def timeout : Link Message :=
  { l with mode := .reset, clock := l.clock + 1, since := l.clock + 1 }

/-- The receiver takes a message with this bit for a new one. -/
def Accepts (b : Bool) : Prop := l.expected = none ∨ l.expected = some b

instance (b : Bool) : Decidable (l.Accepts b) :=
  inferInstanceAs (Decidable (_ ∨ _))

/-- The acknowledgement does not take an earlier reset for the present one. -/
def Fresh (t : Tag) : Prop := l.mode = .reset → t.kind = .reset → l.since ≤ t.stamp

/-- The receiver handles the frame `f`, behind which `rest` is in flight. -/
def receive (f : Frame Message) (rest : List (Frame Message)) : Link Message :=
  match f.tag.kind with
  | .reset =>
      { l with
        expected := l.expected.map fun _ => false
        data := rest
        acks := l.acks ++ [f.tag]
        heard := l.heard ++ [f] }
  | .bit b =>
      { l with
        expected := some !b
        data := rest
        acks := l.acks ++ [f.tag]
        reported := if l.Accepts b then l.reported ++ [f.msg] else l.reported
        heard := l.heard ++ [f] }

/-- The sender handles an acknowledgement, behind which `rest` is in flight. -/
def acknowledge (t : Tag) (rest : List Tag) : Link Message :=
  if t.kind = l.mode then
    match l.mode with
    | .reset => { l with mode := .bit false, acks := rest }
    | .bit b =>
        { l with
          mode := .bit !b
          acks := rest
          queue := l.queue.tail
          popped := l.popped ++ l.queue.take 1 }
  else { l with acks := rest }

end Link

/-- A channel, and when a step may be taken. -/
structure Terms (Message : Type) where
  channel : Channel
  timeout : Prop
  receive : Link Message → Frame Message → Prop
  acknowledge : Link Message → Tag → Prop

/-- The steps of the protocol. -/
inductive Step (T : Terms Message) : Link Message → Link Message → Prop
  | push (l : Link Message) (m : Message) : Step T l (l.push m)
  | tick (l : Link Message) : Step T l { l with clock := l.clock + 1 }
  | emitData (l : Link Message) {b : Bool} {m : Message} (hmode : l.mode = .bit b)
      (hfront : l.queue.head? = some m) : Step T l (l.emit m)
  | emitReset (l : Link Message) (hmode : l.mode = .reset) (m : Message) : Step T l (l.emit m)
  | timeout (l : Link Message) (hallowed : T.timeout) : Step T l l.timeout
  | receive (l : Link Message) {f : Frame Message} {rest : List (Frame Message)}
      (hdata : l.data = f :: rest) (hallowed : T.receive l f) : Step T l (l.receive f rest)
  | acknowledge (l : Link Message) {t : Tag} {rest : List Tag} (hacks : l.acks = t :: rest)
      (hallowed : T.acknowledge l t) : Step T l (l.acknowledge t rest)
  | channel (l : Link Message) {data : List (Frame Message)} {acks : List Tag}
      (hdata : T.channel.may l.data data) (hacks : T.channel.may l.acks acks) :
      Step T l { l with data := data, acks := acks }

/-- Any number of steps. -/
def Evolves (T : Terms Message) : Link Message → Link Message → Prop :=
  Relation.ReflTransGen (Step T)

/-- What every step keeps, any number of them keeps. -/
theorem Evolves.preserves {T : Terms Message} {P : Link Message → Prop}
    (hstep : ∀ l l', P l → Step T l l' → P l') {l l' : Link Message} (h : Evolves T l l')
    (hl : P l) : P l' := by
  induction h with
  | refl => exact hl
  | tail _ hlast ih => exact hstep _ _ ih hlast

/-- The channel is FIFO, and no reset is taken for another. -/
def orderly : Terms Message where
  channel := .fifo
  timeout := True
  receive _ _ := True
  acknowledge l t := l.Fresh t

/-- The channel is FIFO, and nothing times out. -/
def calm : Terms Message where
  channel := .fifo
  timeout := False
  receive _ _ := True
  acknowledge _ _ := True

/-! ### What is in flight -/

/-- The receiver has not seen a frame of the present bit. -/
structure Unseen (l : Link Message) (b : Bool) : Prop where
  acks : ∀ t ∈ l.acks, t.kind ≠ .bit b
  expected : l.expected = some b ∨ (l.expected = none ∧ ∀ f ∈ l.data, f.tag.kind ≠ .bit !b)

/-- The receiver has seen one, so the message in front is reported. -/
structure Seen (l : Link Message) (b : Bool) : Prop where
  data : ∀ f ∈ l.data, f.tag.kind = .bit b
  expected : l.expected = some !b
  front : ∃ m, l.queue.head? = some m ∧ m ∈ l.reported

/-- While the sender holds a bit, the word is leftovers of one kind and then that bit. -/
structure Sending (l : Link Message) (b : Bool) : Prop where
  leftover : ∃ k, (k = .bit !b ∨ (k = .reset ∧ b = false)) ∧
    ∀ t ∈ l.wire, t.kind = .bit b ∨ t.kind = k
  order : l.wire.Pairwise fun x y => x.kind = .bit b → y.kind = .bit b
  current : ∀ f ∈ l.data, f.tag.kind = .bit b → l.queue.head? = some f.msg
  receiver : Unseen l b ∨ Seen l b

/-- While the sender resets, what it sent since is resets. -/
structure Resetting (l : Link Message) : Prop where
  resets : ∀ t ∈ l.wire, l.since ≤ t.stamp → t.kind = .reset
  answered : (∃ t ∈ l.acks, l.since ≤ t.stamp) → l.expected ≠ some true

structure Inv (l : Link Message) : Prop where
  sorted : l.wire.Pairwise fun x y => x.stamp ≤ y.stamp
  bounded : ∀ t ∈ l.wire, t.stamp < l.clock
  sending : ∀ b, l.mode = .bit b → Sending l b
  resetting : l.mode = .reset → Resetting l
  delivered : ∀ m ∈ l.popped, m ∈ l.reported

/-! ### The word under the operations -/

section Wire

variable (l : Link Message)

@[simp] theorem wire_emit (m : Message) :
    (l.emit m).wire = l.wire ++ [⟨l.mode, l.clock, l.number⟩] := by
  simp [Link.wire, Link.emit]

/-- A delivery does not change the word. -/
theorem wire_receive {f : Frame Message} {rest : List (Frame Message)}
    (hdata : l.data = f :: rest) : (l.receive f rest).wire = l.wire := by
  unfold Link.receive
  cases hk : f.tag.kind <;> simp [Link.wire, hdata]

theorem acks_acknowledge (t : Tag) (rest : List Tag) : (l.acknowledge t rest).acks = rest := by
  unfold Link.acknowledge
  split
  · split <;> rfl
  · rfl

theorem data_acknowledge (t : Tag) (rest : List Tag) :
    (l.acknowledge t rest).data = l.data := by
  unfold Link.acknowledge
  split
  · split <;> rfl
  · rfl

/-- The receiver's side and the clock do not change with an acknowledgement. -/
theorem acknowledge_frame (t : Tag) (rest : List Tag) :
    (l.acknowledge t rest).heard = l.heard ∧
      (l.acknowledge t rest).reported = l.reported ∧
      (l.acknowledge t rest).expected = l.expected ∧
      (l.acknowledge t rest).clock = l.clock ∧ (l.acknowledge t rest).since = l.since ∧
      (l.acknowledge t rest).base = l.base := by
  unfold Link.acknowledge
  split
  · split <;> exact ⟨rfl, rfl, rfl, rfl, rfl, rfl⟩
  · exact ⟨rfl, rfl, rfl, rfl, rfl, rfl⟩

/-- An acknowledgement moves the message in front to those dropped. -/
theorem sent_acknowledge (t : Tag) (rest : List Tag) :
    (l.acknowledge t rest).popped ++ (l.acknowledge t rest).queue = l.popped ++ l.queue := by
  unfold Link.acknowledge
  split
  · split
    · rfl
    · cases l.queue <;> simp
  · rfl

/-- No acknowledgement begins a reset. -/
theorem mode_acknowledge {t : Tag} {rest : List Tag}
    (h : (l.acknowledge t rest).mode = .reset) : l.mode = .reset := by
  unfold Link.acknowledge at h
  split at h
  · split at h
    · assumption
    · cases h
  · exact h

/-- An acknowledgement takes the oldest element of the word. -/
theorem wire_acknowledge {t : Tag} {rest : List Tag} (hacks : l.acks = t :: rest) :
    l.wire = t :: (l.acknowledge t rest).wire := by
  simp [Link.wire, acks_acknowledge, data_acknowledge, hacks]

theorem wire_channel {data : List (Frame Message)} {acks : List Tag}
    (hdata : Stutter l.data data) (hacks : Stutter l.acks acks) :
    Stutter l.wire ({ l with data := data, acks := acks } : Link Message).wire :=
  hacks.append (hdata.map _)

end Wire

/-! ### Each step keeps the invariant -/

section Preservation

variable {l : Link Message}

theorem inv_push (h : Inv l) (m : Message) : Inv (l.push m) where
  sorted := h.sorted
  bounded := h.bounded
  delivered := h.delivered
  resetting hm := ⟨(h.resetting hm).resets, (h.resetting hm).answered⟩
  sending b hm := by
    have hs := h.sending b hm
    have hhead : ∀ x, l.queue.head? = some x → (l.push m).queue.head? = some x := by
      intro x hx
      simp [Link.push, List.head?_append, hx]
    refine ⟨hs.leftover, hs.order, fun f hf hk => hhead _ (hs.current f hf hk), ?_⟩
    rcases hs.receiver with hu | hu
    · exact Or.inl ⟨hu.acks, hu.expected⟩
    · obtain ⟨x, hx, hr⟩ := hu.front
      exact Or.inr ⟨hu.data, hu.expected, x, hhead x hx, hr⟩

theorem inv_tick (h : Inv l) : Inv { l with clock := l.clock + 1 } where
  sorted := h.sorted
  bounded t ht := Nat.lt_succ_of_lt (h.bounded t ht)
  delivered := h.delivered
  resetting hm := ⟨(h.resetting hm).resets, (h.resetting hm).answered⟩
  sending b hm := by
    have hs := h.sending b hm
    refine ⟨hs.leftover, hs.order, hs.current, ?_⟩
    rcases hs.receiver with hu | hu
    · exact Or.inl ⟨hu.acks, hu.expected⟩
    · exact Or.inr ⟨hu.data, hu.expected, hu.front⟩

/-- The newest frame is stamped last. -/
theorem sorted_emit (h : Inv l) (m : Message) :
    (l.emit m).wire.Pairwise fun x y => x.stamp ≤ y.stamp := by
  rw [wire_emit, List.pairwise_append]
  refine ⟨h.sorted, List.pairwise_singleton _ _, fun x hx y hy => ?_⟩
  rw [List.mem_singleton.mp hy]
  exact Nat.le_of_lt (h.bounded x hx)

theorem bounded_emit (h : Inv l) (m : Message) : ∀ t ∈ (l.emit m).wire, t.stamp < l.clock + 1 := by
  intro t ht
  rw [wire_emit, List.mem_append, List.mem_singleton] at ht
  rcases ht with ht | rfl
  · exact Nat.lt_succ_of_lt (h.bounded t ht)
  · exact Nat.lt_succ_self _

theorem inv_emitData (h : Inv l) {b : Bool} {m : Message} (hmode : l.mode = .bit b)
    (hfront : l.queue.head? = some m) : Inv (l.emit m) where
  sorted := sorted_emit h m
  bounded := bounded_emit h m
  delivered := h.delivered
  resetting hm := by rw [show l.mode = .reset from hm] at hmode; cases hmode
  sending b' hm := by
    have hb : b' = b := by
      have : Kind.bit b' = .bit b := hm.symm.trans hmode
      simpa using this
    subst hb
    have hs := h.sending b' hmode
    obtain ⟨k, hk, hwire⟩ := hs.leftover
    refine ⟨⟨k, hk, fun t ht => ?_⟩, ?_, fun f hf hkind => ?_, ?_⟩
    · rw [wire_emit, List.mem_append, List.mem_singleton] at ht
      rcases ht with ht | rfl
      · exact hwire t ht
      · exact Or.inl hmode
    · rw [wire_emit, List.pairwise_append]
      refine ⟨hs.order, List.pairwise_singleton _ _, fun x _ y hy _ => ?_⟩
      rw [List.mem_singleton.mp hy]
      exact hmode
    · rcases List.mem_append.mp hf with hf | hf
      · exact hs.current f hf hkind
      · rw [List.mem_singleton.mp hf]
        exact hfront
    · rcases hs.receiver with hu | hu
      · refine Or.inl ⟨hu.acks, hu.expected.imp id fun ⟨hn, hd⟩ => ⟨hn, fun f hf => ?_⟩⟩
        rcases List.mem_append.mp hf with hf | hf
        · exact hd f hf
        · rw [List.mem_singleton.mp hf]
          simp [hmode]
      · refine Or.inr ⟨fun f hf => ?_, hu.expected, hu.front⟩
        rcases List.mem_append.mp hf with hf | hf
        · exact hu.data f hf
        · rw [List.mem_singleton.mp hf]
          exact hmode

theorem inv_emitReset (h : Inv l) (hmode : l.mode = .reset) (m : Message) : Inv (l.emit m) where
  sorted := sorted_emit h m
  bounded := bounded_emit h m
  delivered := h.delivered
  sending b hm := by rw [show l.mode = .bit b from hm] at hmode; cases hmode
  resetting _ := by
    refine ⟨fun t ht hst => ?_, (h.resetting hmode).answered⟩
    rw [wire_emit, List.mem_append, List.mem_singleton] at ht
    rcases ht with ht | rfl
    · exact (h.resetting hmode).resets t ht hst
    · exact hmode

theorem inv_timeout (h : Inv l) : Inv l.timeout where
  sorted := h.sorted
  bounded t ht := Nat.lt_succ_of_lt (h.bounded t ht)
  delivered := h.delivered
  sending b hm := by cases hm
  resetting _ := by
    -- nothing in flight is as young as the reset
    have hold : ∀ t ∈ l.wire, ¬ l.clock + 1 ≤ t.stamp := fun t ht =>
      Nat.not_le.mpr (Nat.lt_succ_of_lt (h.bounded t ht))
    exact ⟨fun t ht hst => absurd hst (hold t ht),
      fun ⟨t, ht, hst⟩ => absurd hst (hold t (List.mem_append_left _ ht))⟩

/-- The sender's side and the clock do not change with a delivery. -/
theorem receive_frame (f : Frame Message) (rest : List (Frame Message)) :
    (l.receive f rest).mode = l.mode ∧ (l.receive f rest).queue = l.queue ∧
      (l.receive f rest).data = rest ∧ (l.receive f rest).acks = l.acks ++ [f.tag] ∧
      (l.receive f rest).clock = l.clock ∧ (l.receive f rest).since = l.since ∧
      (l.receive f rest).popped = l.popped := by
  unfold Link.receive
  cases f.tag.kind <;> exact ⟨rfl, rfl, rfl, rfl, rfl, rfl, rfl⟩

/-- A frame received is remembered, and messages keep their numbers. -/
theorem heard_receive (f : Frame Message) (rest : List (Frame Message)) :
    (l.receive f rest).heard = l.heard ++ [f] ∧ (l.receive f rest).base = l.base := by
  unfold Link.receive
  cases f.tag.kind <;> exact ⟨rfl, rfl⟩

theorem reported_receive (f : Frame Message) (rest : List (Frame Message)) {m : Message}
    (hm : m ∈ l.reported) : m ∈ (l.receive f rest).reported := by
  unfold Link.receive
  cases f.tag.kind with
  | reset => exact hm
  | bit b =>
      show m ∈ ite _ _ _
      split
      · exact List.mem_append_left _ hm
      · exact hm

/-- What a delivery does to a receiver that has not seen the present bit. -/
theorem receiver_receive_unseen {f : Frame Message} {rest : List (Frame Message)} {b : Bool}
    (hs : Sending l b) (hu : Unseen l b) (hdata : l.data = f :: rest) :
    Unseen (l.receive f rest) b ∨ Seen (l.receive f rest) b := by
  obtain ⟨k, hk, hwire⟩ := hs.leftover
  have hf : f ∈ l.data := by rw [hdata]; exact List.mem_cons_self
  have hrest : ∀ g ∈ rest, g ∈ l.data := fun g hg => by
    rw [hdata]; exact List.mem_cons_of_mem _ hg
  have hwf : f.tag.kind = .bit b ∨ f.tag.kind = k :=
    hwire _ (List.mem_append_right _ (List.mem_map_of_mem hf))
  by_cases hnow : f.tag.kind = .bit b
  · -- the first frame of the present bit: it is reported
    right
    have hexp : l.Accepts b := hu.expected.elim Or.inr fun hn => Or.inl hn.1
    have hall : ∀ g ∈ rest, g.tag.kind = .bit b := by
      have horder := hs.order
      rw [Link.wire, List.pairwise_append, hdata, List.map_cons, List.pairwise_cons] at horder
      exact fun g hg => horder.2.1.1 _ (List.mem_map_of_mem hg) hnow
    refine ⟨?_, ?_, f.msg, ?_, ?_⟩ <;> simp only [Link.receive, hnow]
    · exact hall
    · exact hs.current f hf hnow
    · rw [if_pos hexp]
      exact List.mem_append_right _ (List.mem_singleton.mpr rfl)
  · left
    have hk' : f.tag.kind = k := hwf.resolve_left hnow
    rcases hk with rfl | ⟨rfl, rfl⟩
    · -- a leftover of the other bit: it sets the expectation to what it is
      refine ⟨fun t ht => ?_, Or.inl ?_⟩
      · rw [(receive_frame f rest).2.2.2.1, List.mem_append, List.mem_singleton] at ht
        rcases ht with ht | rfl
        · exact hu.acks t ht
        · exact hnow
      · simp [Link.receive, hk']
    · -- a leftover reset: the bit is `false`, as after every reset
      refine ⟨fun t ht => ?_, ?_⟩
      · rw [(receive_frame f rest).2.2.2.1, List.mem_append, List.mem_singleton] at ht
        rcases ht with ht | rfl
        · exact hu.acks t ht
        · exact hnow
      · simp only [Link.receive, hk']
        rcases hu.expected with he | ⟨hn, hd⟩
        · left; simp [he]
        · right; exact ⟨by simp [hn], fun g hg => hd g (hrest g hg)⟩

theorem receiver_receive_seen {f : Frame Message} {rest : List (Frame Message)} {b : Bool}
    (hu : Seen l b) (hdata : l.data = f :: rest) : Seen (l.receive f rest) b := by
  have hk : f.tag.kind = .bit b := hu.data f (by rw [hdata]; exact List.mem_cons_self)
  obtain ⟨m, hm, hr⟩ := hu.front
  refine ⟨fun g hg => ?_, ?_, m, ?_, reported_receive f rest hr⟩
  · rw [(receive_frame f rest).2.2.1] at hg
    exact hu.data g (by rw [hdata]; exact List.mem_cons_of_mem _ hg)
  · simp [Link.receive, hk]
  · rw [(receive_frame f rest).2.1]; exact hm

theorem inv_receive (h : Inv l) {f : Frame Message} {rest : List (Frame Message)}
    (hdata : l.data = f :: rest) : Inv (l.receive f rest) := by
  obtain ⟨hmode, hqueue, hrest, hacks, hclock, hsince, hpopped⟩ := receive_frame (l := l) f rest
  have hwire := wire_receive l hdata
  refine ⟨by rw [hwire]; exact h.sorted, by rw [hwire, hclock]; exact h.bounded, ?_, ?_, ?_⟩
  · intro b hm
    rw [hmode] at hm
    have hs := h.sending b hm
    refine ⟨by rw [hwire]; exact hs.leftover, by rw [hwire]; exact hs.order, ?_, ?_⟩
    · intro g hg hk
      rw [hrest] at hg
      rw [hqueue]
      exact hs.current g (by rw [hdata]; exact List.mem_cons_of_mem _ hg) hk
    · rcases hs.receiver with hu | hu
      · exact receiver_receive_unseen hs hu hdata
      · exact Or.inr (receiver_receive_seen hu hdata)
  · intro hm
    rw [hmode] at hm
    have hr := h.resetting hm
    refine ⟨by rw [hwire, hsince]; exact hr.resets, ?_⟩
    rintro ⟨t, ht, hst⟩
    rw [hsince] at hst
    cases hk : f.tag.kind with
    | reset => cases he : l.expected <;> simp [Link.receive, hk, he]
    | bit b =>
        -- a delivered bit is older than the reset, and so is every answer in front of it
        exfalso
        have hf : f.tag ∈ l.wire := by
          rw [Link.wire, hdata]
          exact List.mem_append_right _ List.mem_cons_self
        have hold : ¬ l.since ≤ f.tag.stamp := fun hc => by
          have := hr.resets _ hf hc
          rw [hk] at this
          cases this
        rw [hacks, List.mem_append, List.mem_singleton] at ht
        rcases ht with ht | rfl
        · have hsorted := h.sorted
          rw [Link.wire, List.pairwise_append] at hsorted
          have hle := hsorted.2.2 t ht f.tag (by rw [hdata]; exact List.mem_cons_self)
          exact hold (Nat.le_trans hst hle)
        · exact hold hst
  · intro m hm
    rw [hpopped] at hm
    exact reported_receive f rest (h.delivered m hm)

/-- An acknowledgement of another kind than the present mode is just taken off the channel. -/
theorem inv_ignore (h : Inv l) {t : Tag} {rest : List Tag} (hacks : l.acks = t :: rest) :
    Inv { l with acks := rest } := by
  have hwire : l.wire = t :: ({ l with acks := rest } : Link Message).wire := by
    simp [Link.wire, hacks]
  have hsub : ∀ x ∈ rest, x ∈ l.acks := fun x hx => by
    rw [hacks]; exact List.mem_cons_of_mem _ hx
  have hmem : ∀ x ∈ ({ l with acks := rest } : Link Message).wire, x ∈ l.wire := fun x hx => by
    rw [hwire]; exact List.mem_cons_of_mem _ hx
  have hsorted := h.sorted
  rw [hwire] at hsorted
  refine ⟨(List.pairwise_cons.mp hsorted).2, fun x hx => h.bounded x (hmem x hx), ?_, ?_,
    h.delivered⟩
  · intro b hm
    have hs := h.sending b hm
    have horder := hs.order
    rw [hwire] at horder
    obtain ⟨k, hk, hkinds⟩ := hs.leftover
    refine ⟨⟨k, hk, fun x hx => hkinds x (hmem x hx)⟩, (List.pairwise_cons.mp horder).2,
      hs.current, ?_⟩
    rcases hs.receiver with hu | hu
    · exact Or.inl ⟨fun x hx => hu.acks x (hsub x hx), hu.expected⟩
    · exact Or.inr ⟨hu.data, hu.expected, hu.front⟩
  · intro hm
    have hr := h.resetting hm
    exact ⟨fun x hx => hr.resets x (hmem x hx),
      fun ⟨x, hx, hst⟩ => hr.answered ⟨x, hsub x hx, hst⟩⟩

/-- The acknowledgement of the present bit: the message in front has been reported. -/
theorem front_reported {b : Bool} (hs : Sending l b) {t : Tag} {rest : List Tag}
    (hacks : l.acks = t :: rest) (hk : t.kind = .bit b) : Seen l b := by
  rcases hs.receiver with hu | hu
  · exact absurd hk (hu.acks t (by rw [hacks]; exact List.mem_cons_self))
  · exact hu

theorem inv_acknowledge_bit (h : Inv l) {b : Bool} (hmode : l.mode = .bit b) {t : Tag}
    {rest : List Tag} (hacks : l.acks = t :: rest) (hk : t.kind = .bit b) :
    Inv (l.acknowledge t rest) := by
  have hs := h.sending b hmode
  have hseen := front_reported hs hacks hk
  have hwire := wire_acknowledge l hacks
  have heq : l.acknowledge t rest = { l with
      mode := .bit !b
      acks := rest
      queue := l.queue.tail
      popped := l.popped ++ l.queue.take 1 } := by
    simp [Link.acknowledge, hk, hmode]
  -- behind an acknowledgement of the bit there is nothing but the bit
  have hbits : ∀ x ∈ (l.acknowledge t rest).wire, x.kind = .bit b := by
    have horder := hs.order
    rw [hwire, List.pairwise_cons] at horder
    exact fun x hx => horder.1 x hx hk
  have hsorted := h.sorted
  rw [hwire, List.pairwise_cons] at hsorted
  have hflip : ∀ x ∈ (l.acknowledge t rest).wire, x.kind ≠ .bit !b := fun x hx hc => by
    rw [hbits x hx] at hc
    simp at hc
  refine ⟨hsorted.2, fun x hx => ?_, ?_, ?_, ?_⟩
  · rw [heq]
    exact h.bounded x (by rw [hwire]; exact List.mem_cons_of_mem _ hx)
  · intro b' hm
    have hb : b' = !b := by
      rw [heq] at hm
      simpa using hm.symm
    subst hb
    refine ⟨⟨.bit b, Or.inl (by simp), fun x hx => Or.inr (hbits x hx)⟩,
      List.pairwise_of_forall_mem_list fun x hx y _ hc => absurd hc (hflip x hx), ?_,
      Or.inl ⟨?_, Or.inl ?_⟩⟩
    · intro f hf hc
      exact absurd hc (hflip _ (List.mem_append_right _ (List.mem_map_of_mem hf)))
    · exact fun x hx => hflip x (List.mem_append_left _ hx)
    · rw [heq]; exact hseen.expected
  · intro hm
    rw [heq] at hm
    cases hm
  · intro m hm
    rw [heq] at hm ⊢
    rcases List.mem_append.mp hm with hm | hm
    · exact h.delivered m hm
    · obtain ⟨x, hx, hr⟩ := hseen.front
      have : m = x := by
        cases hq : l.queue with
        | nil => simp [hq] at hx
        | cons y ys =>
            rw [hq] at hx hm
            simp only [List.head?_cons, Option.some.injEq] at hx
            simpa [hx] using hm
      rw [this]
      exact hr

theorem inv_acknowledge_reset (h : Inv l) (hmode : l.mode = .reset) {t : Tag} {rest : List Tag}
    (hacks : l.acks = t :: rest) (hk : t.kind = .reset) (hfresh : l.since ≤ t.stamp) :
    Inv (l.acknowledge t rest) := by
  have hr := h.resetting hmode
  have hwire := wire_acknowledge l hacks
  have heq : l.acknowledge t rest = { l with mode := .bit false, acks := rest } := by
    simp [Link.acknowledge, hk, hmode]
  have hsorted := h.sorted
  rw [hwire, List.pairwise_cons] at hsorted
  -- behind a fresh answer there is nothing but resets
  have hresets : ∀ x ∈ (l.acknowledge t rest).wire, x.kind = .reset := fun x hx =>
    hr.resets x (by rw [hwire]; exact List.mem_cons_of_mem _ hx)
      (Nat.le_trans hfresh (hsorted.1 x hx))
  have hexp : l.expected ≠ some true :=
    hr.answered ⟨t, by rw [hacks]; exact List.mem_cons_self, hfresh⟩
  refine ⟨hsorted.2, fun x hx => ?_, ?_, ?_, ?_⟩
  · rw [heq]
    exact h.bounded x (by rw [hwire]; exact List.mem_cons_of_mem _ hx)
  · intro b hm
    have hb : b = false := by
      rw [heq] at hm
      simpa using hm.symm
    subst hb
    have hnobit : ∀ c, ∀ x ∈ (l.acknowledge t rest).wire, x.kind ≠ .bit c := fun c x hx hc => by
      rw [hresets x hx] at hc
      cases hc
    refine ⟨⟨.reset, Or.inr ⟨rfl, rfl⟩, fun x hx => Or.inr (hresets x hx)⟩,
      List.pairwise_of_forall_mem_list fun x hx y _ hc => absurd hc (hnobit _ x hx), ?_,
      Or.inl ⟨fun x hx => hnobit _ x (List.mem_append_left _ hx), ?_⟩⟩
    · intro f hf hc
      exact absurd hc (hnobit _ _ (List.mem_append_right _ (List.mem_map_of_mem hf)))
    · rw [heq]
      cases he : l.expected with
      | none =>
          refine Or.inr ⟨rfl, fun f hf => ?_⟩
          refine hnobit _ _ (List.mem_append_right _ (List.mem_map_of_mem ?_))
          rw [heq]
          exact hf
      | some e =>
          left
          rw [he] at hexp
          cases e
          · rfl
          · exact absurd rfl hexp
  · intro hm
    rw [heq] at hm
    cases hm
  · rw [heq]; exact h.delivered

theorem inv_acknowledge (h : Inv l) {t : Tag} {rest : List Tag} (hacks : l.acks = t :: rest)
    (hfresh : l.Fresh t) :
    Inv (l.acknowledge t rest) := by
  by_cases hk : t.kind = l.mode
  · cases hmode : l.mode with
    | reset =>
        rw [hmode] at hk
        exact inv_acknowledge_reset h hmode hacks hk (hfresh hmode hk)
    | bit b =>
        rw [hmode] at hk
        exact inv_acknowledge_bit h hmode hacks hk
  · have heq : l.acknowledge t rest = { l with acks := rest } := by
      rw [Link.acknowledge, if_neg hk]
    rw [heq]
    exact inv_ignore h hacks

theorem inv_channel (h : Inv l) {data : List (Frame Message)} {acks : List Tag}
    (hdata : Stutter l.data data) (hacks : Stutter l.acks acks) :
    Inv { l with data := data, acks := acks } := by
  have hwire := wire_channel l hdata hacks
  refine ⟨hwire.pairwise (R := fun x y => x.stamp ≤ y.stamp) (fun _ => Nat.le_refl _) h.sorted,
    fun t ht => h.bounded t (hwire.mem ht), ?_, ?_, h.delivered⟩
  · intro b hm
    have hs := h.sending b hm
    obtain ⟨k, hk, hkinds⟩ := hs.leftover
    refine ⟨⟨k, hk, fun t ht => hkinds t (hwire.mem ht)⟩,
      hwire.pairwise (fun _ => id) hs.order, fun f hf => hs.current f (hdata.mem hf), ?_⟩
    rcases hs.receiver with hu | hu
    · exact Or.inl ⟨fun t ht => hu.acks t (hacks.mem ht),
        hu.expected.imp id fun ⟨hn, hd⟩ => ⟨hn, fun f hf => hd f (hdata.mem hf)⟩⟩
    · exact Or.inr ⟨fun f hf => hu.data f (hdata.mem hf), hu.expected, hu.front⟩
  · intro hm
    have hr := h.resetting hm
    exact ⟨fun t ht => hr.resets t (hwire.mem ht),
      fun ⟨t, ht, hst⟩ => hr.answered ⟨t, hacks.mem ht, hst⟩⟩

/-- **Every step keeps the invariant.** -/
theorem inv_step {l' : Link Message} (h : Inv l) (hstep : Step orderly l l') : Inv l' := by
  cases hstep with
  | push m => exact inv_push h m
  | tick => exact inv_tick h
  | emitData hmode hfront => exact inv_emitData h hmode hfront
  | emitReset hmode m => exact inv_emitReset h hmode m
  | timeout => exact inv_timeout h
  | receive hdata _ => exact inv_receive h hdata
  | acknowledge hacks hfresh => exact inv_acknowledge h hacks hfresh
  | channel hdata hacks => exact inv_channel h hdata hacks

/-- A fresh link: nothing in flight, and a receiver that expects the sender's bit or nothing. -/
theorem inv_start {b : Bool} (hmode : l.mode = .bit b) (hdata : l.data = []) (hacks : l.acks = [])
    (hexp : l.expected = none ∨ l.expected = some b) (hdel : ∀ m ∈ l.popped, m ∈ l.reported) :
    Inv l := by
  have hwire : l.wire = [] := by simp [Link.wire, hdata, hacks]
  refine ⟨by rw [hwire]; exact List.Pairwise.nil, by simp [hwire], ?_, ?_, hdel⟩
  · intro b' hm
    have hb : b' = b := by
      rw [hmode] at hm
      simpa using hm.symm
    subst hb
    refine ⟨⟨.bit !b', Or.inl rfl, by simp [hwire]⟩, by rw [hwire]; exact List.Pairwise.nil,
      by simp [hdata], Or.inl ⟨by simp [hacks], ?_⟩⟩
    rcases hexp with he | he
    · exact Or.inr ⟨he, by simp [hdata]⟩
    · exact Or.inl he
  · intro hm
    rw [hmode] at hm
    cases hm

end Preservation

/-! ### Exactly once, in order

As long as the sender holds a bit, the receiver has reported the dropped messages and,
once it has seen the bit, the message in front.
-/

/-- The message in front, if the receiver has reported it already. -/
def inFlight (l : Link Message) (b : Bool) : List Message :=
  if l.expected = some !b then l.queue.take 1 else []

/-- The sender holds a bit and the reports are exactly the messages dropped and `inFlight`. -/
def Exact (l : Link Message) : Prop :=
  ∃ b, l.mode = .bit b ∧ l.reported = l.popped ++ inFlight l b

section Exactness

variable {l : Link Message}

theorem exact_push (h : Inv l) (he : Exact l) (m : Message) : Exact (l.push m) := by
  obtain ⟨b, hmode, hrep⟩ := he
  refine ⟨b, hmode, ?_⟩
  show l.reported = l.popped ++ _
  rw [hrep]
  congr 1
  by_cases hx : l.expected = some !b
  · rcases (h.sending b hmode).receiver with hu | hu
    · rcases hu.expected with hc | ⟨hc, -⟩ <;> rw [hc] at hx <;> simp at hx
    · obtain ⟨x, hfront, -⟩ := hu.front
      cases hq : l.queue with
      | nil => simp [hq] at hfront
      | cons y ys => simp [inFlight, Link.push, hx, hq]
  · simp [inFlight, Link.push, hx]

theorem exact_receive (h : Inv l) (he : Exact l) {f : Frame Message}
    {rest : List (Frame Message)} (hdata : l.data = f :: rest) : Exact (l.receive f rest) := by
  obtain ⟨b, hmode, hrep⟩ := he
  have hs := h.sending b hmode
  have hf : f ∈ l.data := by rw [hdata]; exact List.mem_cons_self
  refine ⟨b, (receive_frame f rest).1.trans hmode, ?_⟩
  rcases hs.receiver with hu | hu
  · have hne : l.expected ≠ some !b := by
      rcases hu.expected with hc | ⟨hc, -⟩ <;> rw [hc] <;> simp
    have hrep' : l.reported = l.popped := by simpa [inFlight, hne] using hrep
    obtain ⟨k, hk, hwire⟩ := hs.leftover
    rcases hwire f.tag (List.mem_append_right _ (List.mem_map_of_mem hf)) with hnow | hold
    · have hfront := hs.current f hf hnow
      have htake : l.queue.take 1 = [f.msg] := by
        cases hq : l.queue with
        | nil => simp [hq] at hfront
        | cons y ys => rw [hq] at hfront; simpa using hfront
      have hexp : l.Accepts b := hu.expected.elim Or.inr fun hn => Or.inl hn.1
      simp [Link.receive, hnow, inFlight, hexp, hrep', htake]
    · rcases hk with rfl | ⟨rfl, rfl⟩
      · have hexp : l.expected = some b := by
          rcases hu.expected with hc | ⟨-, hd⟩
          · exact hc
          · exact absurd hold (hd f hf)
        have hno : ¬ l.Accepts !b := by simp [Link.Accepts, hexp]
        simp [Link.receive, hold, inFlight, hno, hrep']
      · have hexp : l.expected.map (fun _ => false) ≠ some true := by
          cases l.expected <;> simp
        simp [Link.receive, hold, inFlight, hrep']
  · have hk : f.tag.kind = .bit b := hu.data f hf
    have hno : ¬ l.Accepts b := by simp [Link.Accepts, hu.expected]
    simp [Link.receive, hk, inFlight, hno, hu.expected, hrep]

theorem exact_acknowledge (h : Inv l) (he : Exact l) {t : Tag} {rest : List Tag}
    (hacks : l.acks = t :: rest) : Exact (l.acknowledge t rest) := by
  obtain ⟨b, hmode, hrep⟩ := he
  by_cases hk : t.kind = .bit b
  · have hseen := front_reported (h.sending b hmode) hacks hk
    refine ⟨!b, by simp [Link.acknowledge, hk, hmode], ?_⟩
    have hrep' : l.reported = l.popped ++ l.queue.take 1 := by
      simpa [inFlight, hseen.expected] using hrep
    simp [Link.acknowledge, hk, hmode, inFlight, hseen.expected, hrep']
  · have hne : ¬ t.kind = l.mode := by rw [hmode]; exact hk
    have heq : l.acknowledge t rest = { l with acks := rest } := by
      rw [Link.acknowledge, if_neg hne]
    rw [heq]
    exact ⟨b, hmode, hrep⟩

/-- While the sender holds a bit, every acknowledgement is fresh. -/
theorem step_of_calm {l' : Link Message} (he : Exact l) (hstep : Step calm l l') :
    Step orderly l l' := by
  obtain ⟨b, hmode, -⟩ := he
  cases hstep with
  | push m => exact .push l m
  | tick => exact .tick l
  | emitData hbit hfront => exact .emitData l hbit hfront
  | emitReset hreset m => exact .emitReset l hreset m
  | timeout hallowed => exact hallowed.elim
  | receive hdata _ => exact .receive l hdata trivial
  | acknowledge hacks _ =>
      refine .acknowledge l hacks fun hreset => ?_
      rw [hmode] at hreset
      cases hreset
  | channel hdata hacks => exact .channel l hdata hacks

/-- **Without a timeout, exactly the dropped messages and possibly the front are reported.** -/
theorem exact_step {l' : Link Message} (h : Inv l ∧ Exact l) (hstep : Step calm l l') :
    Inv l' ∧ Exact l' := by
  obtain ⟨hinv, he⟩ := h
  refine ⟨inv_step hinv (step_of_calm he hstep), ?_⟩
  cases hstep with
  | push m => exact exact_push hinv he m
  | tick => exact he
  | emitData _ _ => exact he
  | emitReset _ _ => exact he
  | timeout hallowed => exact hallowed.elim
  | receive hdata _ => exact exact_receive hinv he hdata
  | acknowledge hacks _ => exact exact_acknowledge hinv he hacks
  | channel _ _ => exact he

end Exactness

end AlternatingBit
