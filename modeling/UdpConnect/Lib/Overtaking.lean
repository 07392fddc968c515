/-
The alternating-bit protocol over a channel that reorders.

A frame that comes after a younger one is overtaken.  What a single bit cannot survive
is an overtaken frame that acts, one by which the receiver's expectation changes, and an
acknowledgement that is taken for one of the present frames and is not.  Two sets of terms
rule these out and allow everything else: any loss, any copies, any reordering of what
does not act, timeouts and resets at any moment.

  * Under `lossless` an acknowledgement counts only if it answers a frame of the message
    in front, made since the present reset began.  Every message that is dropped has been
    reported (`NoneLost`).
  * Under `once` a reset is not received while the message in front has been reported, and
    no reset is taken for another.  Nothing is reported twice (`Once`).

Both rest on what is true of any frames in flight (`Flight`): they are stamped and numbered
in the order in which they were made, whatever the order in which they come.
-/
import UdpConnect.Lib.AlternatingBit

namespace AlternatingBit

variable {Message : Type}

/-! ### Order of arrival -/

namespace Link

variable (l : Link Message)

/-- The frames in flight and those that have reached the receiver. -/
def frames : List (Frame Message) := l.data ++ l.heard

/-- A younger frame has reached the receiver. -/
def Overtaken (f : Frame Message) : Prop := ∃ g ∈ l.heard, f.tag.stamp < g.tag.stamp

/-- Received now, the frame changes what the receiver expects. -/
def Acts (f : Frame Message) : Prop :=
  match f.tag.kind with
  | .reset => l.expected = some true
  | .bit b => l.Accepts b

/-- The frame does not act if it is overtaken. -/
def InTurn (f : Frame Message) : Prop := l.Overtaken f → ¬ l.Acts f

/-- What is taken for an acknowledgement of a present frame is one. -/
def Current (t : Tag) : Prop := t.kind = l.mode → l.since ≤ t.stamp ∧ t.number = l.number

/-- The message with this number, among those dropped and those queued. -/
def At (number : Nat) (m : Message) : Prop :=
  l.base ≤ number ∧ (l.popped ++ l.queue)[number - l.base]? = some m

end Link

/-- Any channel; what comes late does not act, and acknowledgements are current. -/
def lossless : Terms Message where
  channel := .any
  timeout := True
  receive l f := l.InTurn f
  acknowledge l t := l.Current t

/-- Any channel; what comes late does not act, no reset is received between the report of a
message and its acknowledgement, and none is taken for another. -/
def once : Terms Message where
  channel := .any
  timeout := True
  receive l f :=
    l.InTurn f ∧ (f.tag.kind = .reset → ∀ m, l.queue.head? = some m → m ∉ l.reported)
  acknowledge l t := l.Fresh t

/-! ### What the steps do -/

section Steps

variable {l l' : Link Message} {f : Frame Message} {rest : List (Frame Message)} {t : Tag}
  {tags : List Tag}

/-- A frame that reaches the receiver and comes to nothing there. -/
def Link.hear (l : Link Message) (f : Frame Message) (rest : List (Frame Message)) :
    Link Message :=
  { l with data := rest, acks := l.acks ++ [f.tag], heard := l.heard ++ [f] }

/-- What may become of a frame that is received. -/
inductive FrameOutcome (l : Link Message) (f : Frame Message) (rest : List (Frame Message)) :
    Link Message → Prop
  | idle (hidle : ¬ l.Acts f) : FrameOutcome l f rest (l.hear f rest)
  | reset (hkind : f.tag.kind = .reset) (hexpected : l.expected = some true) :
      FrameOutcome l f rest { l.hear f rest with expected := some false }
  | report {b : Bool} (hkind : f.tag.kind = .bit b) (haccepts : l.Accepts b) :
      FrameOutcome l f rest
        { l.hear f rest with expected := some !b, reported := l.reported ++ [f.msg] }

theorem receive_outcome (l : Link Message) (f : Frame Message) (rest : List (Frame Message)) :
    FrameOutcome l f rest (l.receive f rest) := by
  cases hkind : f.tag.kind with
  | reset =>
      by_cases hexpected : l.expected = some true
      · have heq : l.receive f rest = { l.hear f rest with expected := some false } := by
          simp [Link.receive, Link.hear, hkind, hexpected]
        rw [heq]
        exact .reset hkind hexpected
      · have hsame : l.expected.map (fun _ => false) = l.expected := by
          rcases he : l.expected with _ | _ | _
          · rfl
          · rfl
          · exact absurd he hexpected
        have heq : l.receive f rest = l.hear f rest := by
          simp [Link.receive, Link.hear, hkind, hsame]
        rw [heq]
        exact .idle (by simp [Link.Acts, hkind, hexpected])
  | bit b =>
      by_cases haccepts : l.Accepts b
      · have heq : l.receive f rest
            = { l.hear f rest with expected := some !b, reported := l.reported ++ [f.msg] } := by
          simp [Link.receive, Link.hear, hkind, haccepts]
        rw [heq]
        exact .report hkind haccepts
      · have hsame : l.expected = some !b := by
          unfold Link.Accepts at haccepts
          rcases he : l.expected with _ | _ | _ <;> cases b <;> simp_all
        have heq : l.receive f rest = l.hear f rest := by
          simp [Link.receive, Link.hear, hkind, haccepts, hsame]
        rw [heq]
        exact .idle (by simp [Link.Acts, hkind, haccepts])

/-- What may become of an acknowledgement. -/
inductive TagOutcome (l : Link Message) (t : Tag) (tags : List Tag) : Link Message → Prop
  | ignored (hkind : t.kind ≠ l.mode) : TagOutcome l t tags { l with acks := tags }
  | reset (hmode : l.mode = .reset) (hkind : t.kind = .reset) :
      TagOutcome l t tags { l with mode := .bit false, acks := tags }
  | popped {b : Bool} (hmode : l.mode = .bit b) (hkind : t.kind = .bit b) :
      TagOutcome l t tags
        { l with
          mode := .bit !b
          acks := tags
          queue := l.queue.tail
          popped := l.popped ++ l.queue.take 1 }

theorem acknowledge_outcome (l : Link Message) (t : Tag) (tags : List Tag) :
    TagOutcome l t tags (l.acknowledge t tags) := by
  by_cases hkind : t.kind = l.mode
  · cases hmode : l.mode with
    | reset =>
        have heq : l.acknowledge t tags = { l with mode := .bit false, acks := tags } := by
          simp [Link.acknowledge, hkind, hmode]
        rw [heq]
        exact .reset hmode (hkind.trans hmode)
    | bit b =>
        have heq : l.acknowledge t tags = { l with
            mode := .bit !b
            acks := tags
            queue := l.queue.tail
            popped := l.popped ++ l.queue.take 1 } := by
          simp [Link.acknowledge, hkind, hmode]
        rw [heq]
        exact .popped hmode (hkind.trans hmode)
  · have heq : l.acknowledge t tags = { l with acks := tags } := by
      simp [Link.acknowledge, hkind]
    rw [heq]
    exact .ignored hkind

/-- The messages dropped and those queued: a step adds to their end. -/
theorem sent_step {T : Terms Message} (h : Step T l l') :
    (l.popped ++ l.queue) <+: (l'.popped ++ l'.queue) := by
  cases h with
  | push m =>
      show _ <+: l.popped ++ (l.queue ++ [m])
      rw [← List.append_assoc]
      exact List.prefix_append _ _
  | receive _ _ =>
      obtain ⟨-, hqueue, -, -, -, -, hpopped⟩ := receive_frame (l := l) _ _
      exact ⟨[], by rw [hqueue, hpopped, List.append_nil]⟩
  | acknowledge _ _ => exact ⟨[], by rw [sent_acknowledge, List.append_nil]⟩
  | _ => exact List.prefix_refl _

theorem mem_data_head (hdata : l.data = f :: rest) : f ∈ l.data := by
  rw [hdata]
  exact List.mem_cons_self

theorem mem_data_of_mem_rest (hdata : l.data = f :: rest) {g : Frame Message} (hg : g ∈ rest) :
    g ∈ l.data := by
  rw [hdata]
  exact List.mem_cons_of_mem _ hg

theorem mem_frames_receive (hdata : l.data = f :: rest) {g : Frame Message} :
    g ∈ rest ++ (l.heard ++ [f]) ↔ g ∈ l.frames := by
  rw [Link.frames, hdata]
  grind

end Steps

/-! ### Frames in flight -/

/-- Frames are stamped and numbered in the order of their making, and acknowledgements and
reports are of frames received. -/
structure Flight (l : Link Message) : Prop where
  stamped : ∀ f ∈ l.frames, f.tag.stamp < l.clock
  numbered : ∀ f ∈ l.frames, f.tag.number ≤ l.number
  ordered : ∀ f ∈ l.frames, ∀ g ∈ l.frames, f.tag.number < g.tag.number →
    f.tag.stamp < g.tag.stamp
  named : ∀ f ∈ l.frames, ∀ b, f.tag.kind = .bit b → l.At f.tag.number f.msg
  answers : ∀ t ∈ l.acks, ∃ g ∈ l.heard, g.tag = t
  told : ∀ m ∈ l.reported, ∃ g ∈ l.heard, (∃ b, g.tag.kind = .bit b) ∧ g.msg = m

section Flight

variable {l l' : Link Message} {f g : Frame Message} {rest : List (Frame Message)}
  {m : Message} {i j : Nat}

theorem at_front (h : l.queue.head? = some m) : l.At l.number m := by
  refine ⟨Nat.le_add_right _ _, ?_⟩
  rw [Link.number, Nat.add_sub_cancel_left, List.getElem?_append_right (Nat.le_refl _),
    Nat.sub_self, ← List.head?_eq_getElem?]
  exact h

theorem front_of_at (h : l.At l.number m) : l.queue.head? = some m := by
  obtain ⟨-, h⟩ := h
  rw [Link.number, Nat.add_sub_cancel_left, List.getElem?_append_right (Nat.le_refl _),
    Nat.sub_self, ← List.head?_eq_getElem?] at h
  exact h

theorem at_extend (hbase : l'.base = l.base)
    (hsent : (l.popped ++ l.queue) <+: (l'.popped ++ l'.queue)) (h : l.At i m) : l'.At i m := by
  obtain ⟨hle, hget⟩ := h
  obtain ⟨more, hmore⟩ := hsent
  refine ⟨hbase ▸ hle, ?_⟩
  rw [hbase, ← hmore, List.getElem?_append_left (List.getElem?_eq_some_iff.mp hget).1]
  exact hget

/-- Messages that are sent once have one number. -/
theorem at_injective (hnodup : (l.popped ++ l.queue).Nodup) (h : l.At i m) (h' : l.At j m) :
    i = j := by
  have hlt := (List.getElem?_eq_some_iff.mp h.2).1
  have heq := (List.getElem?_inj hlt hnodup).mp (h.2.trans h'.2.symm)
  have := h.1
  have := h'.1
  omega

theorem mem_sent_of_at (h : l.At i m) : m ∈ l.popped ++ l.queue := List.mem_of_getElem? h.2

theorem Link.Overtaken.mono (hheard : ∀ g ∈ l.heard, g ∈ l'.heard) (h : l.Overtaken f) :
    l'.Overtaken f := by
  obtain ⟨g, hg, hlt⟩ := h
  exact ⟨g, hheard g hg, hlt⟩

theorem acts_reset (hkind : f.tag.kind = .reset) : l.Acts f ↔ l.expected = some true := by
  rw [Link.Acts, hkind]

theorem acts_bit {b : Bool} (hkind : f.tag.kind = .bit b) : l.Acts f ↔ l.Accepts b := by
  rw [Link.Acts, hkind]

/-- What is reported has been received under its number. -/
theorem Flight.reported_at (h : Flight l) (hm : m ∈ l.reported) :
    ∃ g ∈ l.heard, l.At g.tag.number m := by
  obtain ⟨g, hg, ⟨b, hb⟩, rfl⟩ := h.told m hm
  exact ⟨g, hg, h.named g (List.mem_append_right _ hg) b hb⟩

/-- What is reported has been sent. -/
theorem Flight.reported_sent (h : Flight l) (hm : m ∈ l.reported) :
    m ∈ l.popped ++ l.queue := by
  obtain ⟨g, -, hat⟩ := h.reported_at hm
  exact mem_sent_of_at hat

/-- A frame of a later message than one that is reported is a younger frame. -/
theorem Flight.overtaken_of_reported (h : Flight l) (hnodup : (l.popped ++ l.queue).Nodup)
    (hf : f ∈ l.frames) (hm : m ∈ l.reported) (hat : l.At i m) (hlt : f.tag.number < i) :
    l.Overtaken f := by
  obtain ⟨g, hg, hgat⟩ := h.reported_at hm
  obtain rfl := at_injective hnodup hgat hat
  exact ⟨g, hg, h.ordered f hf g (List.mem_append_right _ hg) hlt⟩

/-- While only resets are made, one of them overtakes every other frame. -/
theorem overtaken_of_resets
    (hresets : ∀ f ∈ l.frames, l.since ≤ f.tag.stamp → f.tag.kind = .reset)
    (hheard : ∃ g ∈ l.heard, l.since ≤ g.tag.stamp) (hf : f ∈ l.frames)
    (hkind : f.tag.kind ≠ .reset) : l.Overtaken f := by
  obtain ⟨g, hg, hsince⟩ := hheard
  exact ⟨g, hg, Nat.lt_of_lt_of_le (Nat.lt_of_not_le fun hc => hkind (hresets f hf hc)) hsince⟩

/-! #### Each step -/

theorem flight_push (h : Flight l) (m : Message) : Flight (l.push m) where
  stamped := h.stamped
  numbered := h.numbered
  ordered := h.ordered
  named f hf b hb := by
    have hsent : (l.popped ++ l.queue) <+: ((l.push m).popped ++ (l.push m).queue) :=
      sent_step (T := lossless) (.push l m)
    exact at_extend (l := l) rfl hsent (h.named f hf b hb)
  answers := h.answers
  told := h.told

/-- Time passes, and possibly a reset begins. -/
theorem flight_later (h : Flight l) (mode : Kind) (since : Nat) :
    Flight { l with mode := mode, clock := l.clock + 1, since := since } where
  stamped f hf := Nat.lt_succ_of_lt (h.stamped f hf)
  numbered := h.numbered
  ordered := h.ordered
  named := h.named
  answers := h.answers
  told := h.told

theorem mem_frames_emit :
    g ∈ (l.emit m).frames ↔ g ∈ l.frames ∨ g = ⟨⟨l.mode, l.clock, l.number⟩, m⟩ := by
  simp only [Link.frames, Link.emit, List.mem_append, List.mem_singleton]
  exact or_right_comm

theorem flight_emit (h : Flight l) (hfront : ∀ b, l.mode = .bit b → l.queue.head? = some m) :
    Flight (l.emit m) where
  stamped f hf := by
    rcases mem_frames_emit.mp hf with hf | rfl
    · exact Nat.lt_succ_of_lt (h.stamped f hf)
    · exact Nat.lt_succ_self _
  numbered f hf := by
    rcases mem_frames_emit.mp hf with hf | rfl
    · exact h.numbered f hf
    · exact Nat.le_refl _
  ordered f hf g hg hlt := by
    rcases mem_frames_emit.mp hf with hf | rfl
    · rcases mem_frames_emit.mp hg with hg | rfl
      · exact h.ordered f hf g hg hlt
      · exact h.stamped f hf
    · -- nothing has a greater number than the newest frame
      rcases mem_frames_emit.mp hg with hg | rfl
      · exact absurd hlt (Nat.not_lt.mpr (h.numbered g hg))
      · exact absurd hlt (Nat.lt_irrefl _)
  named f hf b hb := by
    rcases mem_frames_emit.mp hf with hf | rfl
    · exact h.named f hf b hb
    · exact at_front (hfront b hb)
  answers := h.answers
  told := h.told

theorem flight_hear (h : Flight l) (hdata : l.data = f :: rest) : Flight (l.hear f rest) := by
  have hmem : ∀ {g}, g ∈ rest ++ (l.heard ++ [f]) → g ∈ l.frames :=
    (mem_frames_receive hdata).mp
  refine ⟨fun g hg => h.stamped g (hmem hg), fun g hg => h.numbered g (hmem hg),
    fun g hg g' hg' => h.ordered g (hmem hg) g' (hmem hg'),
    fun g hg => h.named g (hmem hg), fun t ht => ?_, fun m hm => ?_⟩
  · rcases List.mem_append.mp ht with ht | ht
    · obtain ⟨g, hg, hgt⟩ := h.answers t ht
      exact ⟨g, List.mem_append_left _ hg, hgt⟩
    · exact ⟨f, List.mem_append_right _ List.mem_cons_self, (List.mem_singleton.mp ht).symm⟩
  · obtain ⟨g, hg, hgm⟩ := h.told m hm
    exact ⟨g, List.mem_append_left _ hg, hgm⟩

/-- What the receiver expects is of no account here. -/
theorem flight_expecting (h : Flight l) (expected : Option Bool) :
    Flight { l with expected := expected } :=
  ⟨h.stamped, h.numbered, h.ordered, h.named, h.answers, h.told⟩

theorem flight_report {b : Bool} (h : Flight l) (hdata : l.data = f :: rest)
    (hkind : f.tag.kind = .bit b) :
    Flight { l.hear f rest with expected := some !b, reported := l.reported ++ [f.msg] } := by
  have hhear := flight_hear h hdata
  refine ⟨hhear.stamped, hhear.numbered, hhear.ordered, hhear.named, hhear.answers,
    fun m hm => ?_⟩
  rcases List.mem_append.mp hm with hm | hm
  · exact hhear.told m hm
  · exact ⟨f, List.mem_append_right _ List.mem_cons_self, ⟨b, hkind⟩,
      (List.mem_singleton.mp hm).symm⟩

theorem flight_receive (h : Flight l) (hdata : l.data = f :: rest) :
    Flight (l.receive f rest) := by
  have houtcome := receive_outcome l f rest
  generalize l.receive f rest = l' at houtcome
  cases houtcome with
  | idle _ => exact flight_hear h hdata
  | reset _ _ => exact flight_expecting (flight_hear h hdata) _
  | report hkind _ => exact flight_report h hdata hkind

theorem number_acknowledge (t : Tag) (tags : List Tag) :
    l.number ≤ (l.acknowledge t tags).number := by
  have houtcome := acknowledge_outcome l t tags
  generalize l.acknowledge t tags = l' at houtcome
  cases houtcome with
  | popped _ _ =>
      simp only [Link.number, List.length_append]
      exact Nat.add_le_add_left (Nat.le_add_right _ _) _
  | _ => exact Nat.le_refl _

theorem flight_acknowledge (h : Flight l) {t : Tag} {tags : List Tag}
    (hacks : l.acks = t :: tags) : Flight (l.acknowledge t tags) := by
  obtain ⟨hheard, hreported, -, hclock, -, hbase⟩ := acknowledge_frame l t tags
  have hframes : (l.acknowledge t tags).frames = l.frames := by
    rw [Link.frames, Link.frames, data_acknowledge, hheard]
  refine ⟨?_, ?_, ?_, ?_, ?_, ?_⟩
  · rw [hframes, hclock]
    exact h.stamped
  · rw [hframes]
    exact fun f hf => Nat.le_trans (h.numbered f hf) (number_acknowledge t tags)
  · rw [hframes]
    exact h.ordered
  · rw [hframes]
    exact fun f hf b hb => at_extend hbase ⟨[], by rw [sent_acknowledge, List.append_nil]⟩
      (h.named f hf b hb)
  · rw [hheard, acks_acknowledge]
    exact fun x hx => h.answers x (by rw [hacks]; exact List.mem_cons_of_mem _ hx)
  · rw [hheard, hreported]
    exact h.told

/-- Whatever the network does with the frames in flight. -/
theorem flight_channel (h : Flight l) {data : List (Frame Message)} {acks : List Tag}
    (hdata : ∀ f ∈ data, f ∈ l.data) (hacks : ∀ t ∈ acks, t ∈ l.acks) :
    Flight { l with data := data, acks := acks } := by
  have hmem : ∀ f ∈ data ++ l.heard, f ∈ l.frames := fun f hf => by
    rcases List.mem_append.mp hf with hf | hf
    · exact List.mem_append_left _ (hdata f hf)
    · exact List.mem_append_right _ hf
  exact ⟨fun f hf => h.stamped f (hmem f hf), fun f hf => h.numbered f (hmem f hf),
    fun f hf g hg => h.ordered f (hmem f hf) g (hmem g hg), fun f hf => h.named f (hmem f hf),
    fun t ht => h.answers t (hacks t ht), h.told⟩

/-- Before anything is sent. -/
theorem flight_start (hdata : l.data = []) (hacks : l.acks = []) (hheard : l.heard = [])
    (hreported : l.reported = []) : Flight l := by
  have hnone : ∀ f, f ∉ l.frames := fun f hf => by simp [Link.frames, hdata, hheard] at hf
  refine ⟨fun f hf => absurd hf (hnone f), fun f hf => absurd hf (hnone f),
    fun f hf => absurd hf (hnone f), fun f hf => absurd hf (hnone f), ?_, ?_⟩
  · simp [hacks]
  · simp [hreported]

end Flight

/-! ### Nothing is lost -/

/-- A frame of the present bit and the message in front, made since the last reset. -/
def Link.Present (l : Link Message) (b : Bool) (f : Frame Message) : Prop :=
  f.tag.kind = .bit b ∧ f.tag.number = l.number ∧ l.since ≤ f.tag.stamp

/-- While the sender holds a bit, whatever else is in flight is older than the present frames
and does not act once one of these has come. -/
structure Holding (l : Link Message) (b : Bool) : Prop where
  later : ∀ f ∈ l.data, ¬ l.Present b f → ∀ g ∈ l.data, l.Present b g →
    f.tag.stamp < g.tag.stamp
  stale : ∀ f ∈ l.data, ¬ l.Present b f → l.Overtaken f ∨ ¬ l.Acts f
  receiver : ((∀ g ∈ l.heard, ¬ l.Present b g) ∧ l.Accepts b) ∨
    (l.expected = some !b ∧ ∃ m, l.queue.head? = some m ∧ m ∈ l.reported)

/-- While the sender resets, a receiver that has heard a present reset waits for `false`. -/
structure Restarting (l : Link Message) : Prop where
  resets : ∀ f ∈ l.frames, l.since ≤ f.tag.stamp → f.tag.kind = .reset
  answered : (∃ g ∈ l.heard, l.since ≤ g.tag.stamp) → l.expected ≠ some true

structure NoneLost (l : Link Message) : Prop where
  flight : Flight l
  begun : l.since ≤ l.clock
  holding : ∀ b, l.mode = .bit b → Holding l b
  restarting : l.mode = .reset → Restarting l
  delivered : ∀ m ∈ l.popped, m ∈ l.reported

section Loss

variable {l l' : Link Message} {f g : Frame Message} {rest : List (Frame Message)} {b : Bool}
  {t : Tag} {tags : List Tag}

theorem front_push {m m' : Message} (h : l.queue.head? = some m) :
    (l.push m').queue.head? = some m := by
  simp [Link.push, List.head?_append, h]

theorem noneLost_push (h : NoneLost l) (m : Message) : NoneLost (l.push m) where
  flight := flight_push h.flight m
  begun := h.begun
  holding b hmode := by
    have hb := h.holding b hmode
    refine ⟨hb.later, hb.stale, hb.receiver.imp id ?_⟩
    rintro ⟨hexpected, x, hx, hreported⟩
    exact ⟨hexpected, x, front_push hx, hreported⟩
  restarting hmode := ⟨(h.restarting hmode).resets, (h.restarting hmode).answered⟩
  delivered := h.delivered

theorem noneLost_tick (h : NoneLost l) : NoneLost { l with clock := l.clock + 1 } where
  flight := flight_later h.flight l.mode l.since
  begun := Nat.le_succ_of_le h.begun
  holding b hmode :=
    ⟨(h.holding b hmode).later, (h.holding b hmode).stale, (h.holding b hmode).receiver⟩
  restarting hmode := ⟨(h.restarting hmode).resets, (h.restarting hmode).answered⟩
  delivered := h.delivered

/-- The newest frame is a present one. -/
theorem noneLost_emitData (h : NoneLost l) {m : Message} (hmode : l.mode = .bit b)
    (hfront : l.queue.head? = some m) : NoneLost (l.emit m) where
  flight := flight_emit h.flight fun _ _ => hfront
  begun := Nat.le_succ_of_le h.begun
  restarting hm := by
    rw [show l.mode = .reset from hm] at hmode
    cases hmode
  delivered := h.delivered
  holding b' hm := by
    obtain rfl : b' = b := by
      have heq : Kind.bit b' = .bit b := hm.symm.trans hmode
      simpa using heq
    have hb := h.holding b' hmode
    have hnew : l.Present b' ⟨⟨l.mode, l.clock, l.number⟩, m⟩ :=
      ⟨hmode, rfl, h.begun⟩
    refine ⟨fun f hf hold g hg hpresent => ?_, fun f hf hold => ?_, hb.receiver⟩
    · rcases List.mem_append.mp hf with hf | hf
      · rcases List.mem_append.mp hg with hg | hg
        · exact hb.later f hf hold g hg hpresent
        · rw [List.mem_singleton.mp hg]
          exact h.flight.stamped f (List.mem_append_left _ hf)
      · rw [List.mem_singleton.mp hf] at hold
        exact absurd hnew hold
    · rcases List.mem_append.mp hf with hf | hf
      · exact hb.stale f hf hold
      · rw [List.mem_singleton.mp hf] at hold
        exact absurd hnew hold

theorem noneLost_emitReset (h : NoneLost l) (hmode : l.mode = .reset) (m : Message) :
    NoneLost (l.emit m) where
  flight := flight_emit h.flight fun b hb => by rw [hmode] at hb; cases hb
  begun := Nat.le_succ_of_le h.begun
  holding b hm := by
    rw [show l.mode = .bit b from hm] at hmode
    cases hmode
  delivered := h.delivered
  restarting _ := by
    refine ⟨fun f hf hsince => ?_, (h.restarting hmode).answered⟩
    rcases mem_frames_emit.mp hf with hf | rfl
    · exact (h.restarting hmode).resets f hf hsince
    · exact hmode

/-- Nothing is as young as a reset that begins. -/
theorem Flight.before_timeout (h : Flight l) (hf : f ∈ l.frames) :
    ¬ l.timeout.since ≤ f.tag.stamp :=
  Nat.not_le.mpr (Nat.lt_succ_of_lt (h.stamped f hf))

theorem noneLost_timeout (h : NoneLost l) : NoneLost l.timeout where
  flight := flight_later h.flight .reset (l.clock + 1)
  begun := Nat.le_refl _
  holding b hm := by cases hm
  delivered := h.delivered
  restarting _ :=
    ⟨fun _ hf hsince => absurd hsince (h.flight.before_timeout hf),
      fun ⟨_, hg, hsince⟩ =>
        absurd hsince (h.flight.before_timeout (List.mem_append_right _ hg))⟩

/-- What is not a present frame comes to nothing when its turn comes. -/
theorem Holding.idle (h : Holding l b) (hf : f ∈ l.data) (hold : ¬ l.Present b f)
    (hturn : l.InTurn f) : ¬ l.Acts f :=
  (h.stale f hf hold).elim hturn id

/-- A frame that comes to nothing leaves everything as it is. -/
theorem holding_hear (h : Holding l b) (hdata : l.data = f :: rest) (hidle : ¬ l.Acts f) :
    Holding (l.hear f rest) b := by
  have hmem : ∀ g ∈ rest, g ∈ l.data := fun _ hg => mem_data_of_mem_rest hdata hg
  refine ⟨fun g hg hold g' hg' => h.later g (hmem g hg) hold g' (hmem g' hg'),
    fun g hg hold => ?_, ?_⟩
  · exact (h.stale g (hmem g hg) hold).imp
      (Link.Overtaken.mono fun _ hx => List.mem_append_left _ hx) id
  · rcases h.receiver with ⟨hunseen, haccepts⟩ | hseen
    · refine Or.inl ⟨fun g hg => ?_, haccepts⟩
      rcases List.mem_append.mp hg with hg | hg
      · exact hunseen g hg
      · -- a present frame would act
        rw [List.mem_singleton.mp hg]
        rintro ⟨hkind, -, -⟩
        exact hidle ((acts_bit hkind).mpr haccepts)
    · exact Or.inr hseen

/-- A present frame that is reported is the message in front, and overtakes the others. -/
theorem holding_report (hflight : Flight l) (h : Holding l b) (hdata : l.data = f :: rest)
    (hpresent : l.Present b f) :
    Holding { l.hear f rest with expected := some !b, reported := l.reported ++ [f.msg] } b := by
  have hf := mem_data_head hdata
  have hmem : ∀ g ∈ rest, g ∈ l.data := fun _ hg => mem_data_of_mem_rest hdata hg
  refine ⟨fun g hg hold g' hg' => h.later g (hmem g hg) hold g' (hmem g' hg'),
    fun g hg hold => Or.inl ⟨f, List.mem_append_right _ List.mem_cons_self,
      h.later g (hmem g hg) hold f hf hpresent⟩,
    Or.inr ⟨rfl, f.msg, ?_, List.mem_append_right _ List.mem_cons_self⟩⟩
  obtain ⟨hkind, hnumber, -⟩ := hpresent
  have hat := hflight.named f (List.mem_append_left _ hf) b hkind
  rw [hnumber] at hat
  exact front_of_at hat

theorem holding_receive (hflight : Flight l) (h : Holding l b) (hdata : l.data = f :: rest)
    (hturn : l.InTurn f) : Holding (l.receive f rest) b := by
  have hf := mem_data_head hdata
  have houtcome := receive_outcome l f rest
  generalize l.receive f rest = l' at houtcome
  cases houtcome with
  | idle hidle => exact holding_hear h hdata hidle
  | reset hkind hexpected =>
      have hold : ¬ l.Present b f := fun hc => nomatch hkind.symm.trans hc.1
      exact absurd ((acts_reset hkind).mpr hexpected) (h.idle hf hold hturn)
  | @report c hkind haccepts =>
      by_cases hpresent : l.Present b f
      · obtain rfl : c = b := by
          have heq := hkind.symm.trans hpresent.1
          simpa using heq
        exact holding_report hflight h hdata hpresent
      · exact absurd ((acts_bit hkind).mpr haccepts) (h.idle hf hpresent hturn)

theorem restarting_receive (h : Restarting l) (hdata : l.data = f :: rest)
    (hturn : l.InTurn f) : Restarting (l.receive f rest) := by
  have hf : f ∈ l.frames := List.mem_append_left _ (mem_data_head hdata)
  have hresets : ∀ g ∈ rest ++ (l.heard ++ [f]), l.since ≤ g.tag.stamp → g.tag.kind = .reset :=
    fun g hg => h.resets g ((mem_frames_receive hdata).mp hg)
  have houtcome := receive_outcome l f rest
  generalize l.receive f rest = l' at houtcome
  cases houtcome with
  | idle hidle =>
      refine ⟨hresets, ?_⟩
      rintro ⟨g, hg, hsince⟩
      rcases List.mem_append.mp hg with hg | hg
      · exact h.answered ⟨g, hg, hsince⟩
      · rw [List.mem_singleton.mp hg] at hsince
        intro hc
        exact hidle ((acts_reset (h.resets f hf hsince)).mpr hc)
  | reset _ _ => exact ⟨hresets, fun _ => nofun⟩
  | @report c hkind haccepts =>
      refine ⟨hresets, ?_⟩
      rintro ⟨g, hg, hsince⟩
      have hbit : f.tag.kind ≠ .reset := by simp [hkind]
      rcases List.mem_append.mp hg with hg | hg
      · exact absurd ((acts_bit hkind).mpr haccepts)
          (hturn (overtaken_of_resets h.resets ⟨g, hg, hsince⟩ hf hbit))
      · rw [List.mem_singleton.mp hg] at hsince
        exact absurd (h.resets f hf hsince) hbit

theorem noneLost_receive (h : NoneLost l) (hdata : l.data = f :: rest) (hturn : l.InTurn f) :
    NoneLost (l.receive f rest) := by
  obtain ⟨hmode, -, -, -, hclock, hsince, hpopped⟩ := receive_frame (l := l) f rest
  refine ⟨flight_receive h.flight hdata, hsince ▸ hclock ▸ h.begun, fun b hm => ?_, fun hm => ?_,
    fun m hm => ?_⟩
  · exact holding_receive h.flight (h.holding b (hmode ▸ hm)) hdata hturn
  · exact restarting_receive (h.restarting (hmode ▸ hm)) hdata hturn
  · rw [hpopped] at hm
    exact reported_receive f rest (h.delivered m hm)

/-- The acknowledgement of a present frame says that it has been heard and reported. -/
theorem Holding.seen (hflight : Flight l) (h : Holding l b) (hacks : t ∈ l.acks)
    (hkind : t.kind = .bit b) (hcurrent : l.since ≤ t.stamp ∧ t.number = l.number) :
    l.expected = some !b ∧ ∃ m, l.queue.head? = some m ∧ m ∈ l.reported := by
  obtain ⟨g, hg, rfl⟩ := hflight.answers t hacks
  rcases h.receiver with ⟨hunseen, -⟩ | hseen
  · exact absurd ⟨hkind, hcurrent.2, hcurrent.1⟩ (hunseen g hg)
  · exact hseen

theorem noneLost_popped (h : NoneLost l) (hmode : l.mode = .bit b) (hacks : l.acks = t :: tags)
    (hkind : t.kind = .bit b) (hcurrent : l.since ≤ t.stamp ∧ t.number = l.number)
    (hflight : Flight { l with
      mode := .bit !b
      acks := tags
      queue := l.queue.tail
      popped := l.popped ++ l.queue.take 1 }) :
    NoneLost { l with
      mode := .bit !b
      acks := tags
      queue := l.queue.tail
      popped := l.popped ++ l.queue.take 1 } := by
  have hb := h.holding b hmode
  obtain ⟨hexpected, x, hfront, hreported⟩ :=
    hb.seen h.flight (by rw [hacks]; exact List.mem_cons_self) hkind hcurrent
  obtain ⟨queue, hqueue⟩ := List.head?_eq_some_iff.mp hfront
  have htake : l.queue.take 1 = [x] := by
    rw [hqueue]
    rfl
  -- no frame has the number of the next message yet
  have hnext : ∀ c, ∀ f ∈ l.frames, ¬ ({ l with
      mode := .bit !b
      acks := tags
      queue := l.queue.tail
      popped := l.popped ++ l.queue.take 1 } : Link Message).Present c f := by
    rintro c f hf ⟨-, hnumber, -⟩
    have hle := h.flight.numbered f hf
    simp only [Link.number, htake, List.length_append, List.length_singleton] at hnumber hle
    omega
  refine ⟨hflight, h.begun, fun c hc => ?_, nofun, fun m hm => ?_⟩
  · obtain rfl : c = !b := by
      simpa using hc.symm
    refine ⟨fun f _ _ g hg hc => absurd hc (hnext _ g (List.mem_append_left _ hg)),
      fun f hf _ => ?_,
      Or.inl ⟨fun g hg => hnext _ g (List.mem_append_right _ hg), Or.inr hexpected⟩⟩
    by_cases hold : l.Present b f
    · -- the bit of what was present a moment ago is not expected
      right
      rw [acts_bit hold.1, Link.Accepts, hexpected]
      simp
    · exact hb.stale f hf hold
  · rcases List.mem_append.mp hm with hm | hm
    · exact h.delivered m hm
    · rw [htake, List.mem_singleton] at hm
      rw [hm]
      exact hreported

theorem noneLost_restarted (h : NoneLost l) (hmode : l.mode = .reset) (hacks : l.acks = t :: tags)
    (hsince : l.since ≤ t.stamp)
    (hflight : Flight { l with mode := .bit false, acks := tags }) :
    NoneLost { l with mode := .bit false, acks := tags } := by
  have hr := h.restarting hmode
  obtain ⟨x, hx, rfl⟩ := h.flight.answers t (by rw [hacks]; exact List.mem_cons_self)
  have hheard : ∃ g ∈ l.heard, l.since ≤ g.tag.stamp := ⟨x, hx, hsince⟩
  have hexpected := hr.answered hheard
  -- what is as young as the reset is a reset
  have hnone : ∀ f ∈ l.frames, ¬ l.Present false f := by
    rintro f hf ⟨hkind, -, hyoung⟩
    rw [hr.resets f hf hyoung] at hkind
    cases hkind
  refine ⟨hflight, h.begun, fun c hc => ?_, nofun, h.delivered⟩
  obtain rfl : c = false := by
    simpa using hc.symm
  refine ⟨fun f _ _ g hg hc => absurd hc (hnone g (List.mem_append_left _ hg)),
    fun f hf _ => ?_, Or.inl ⟨fun g hg => hnone g (List.mem_append_right _ hg), ?_⟩⟩
  · by_cases hkind : f.tag.kind = .reset
    · exact Or.inr fun hacts => hexpected ((acts_reset hkind).mp hacts)
    · exact Or.inl (overtaken_of_resets hr.resets hheard (List.mem_append_left _ hf) hkind)
  · show l.expected = none ∨ l.expected = some false
    rcases he : l.expected with _ | _ | _
    · exact Or.inl rfl
    · exact Or.inr rfl
    · exact absurd he hexpected

theorem noneLost_acknowledge (h : NoneLost l) (hacks : l.acks = t :: tags)
    (hcurrent : l.Current t) : NoneLost (l.acknowledge t tags) := by
  have hflight := flight_acknowledge h.flight hacks
  have houtcome := acknowledge_outcome l t tags
  generalize l.acknowledge t tags = l' at hflight houtcome
  cases houtcome with
  | ignored _ =>
      refine ⟨hflight, h.begun, fun b hm => ?_, fun hm => ?_, h.delivered⟩
      · exact ⟨(h.holding b hm).later, (h.holding b hm).stale, (h.holding b hm).receiver⟩
      · exact ⟨(h.restarting hm).resets, (h.restarting hm).answered⟩
  | reset hmode hkind =>
      exact noneLost_restarted h hmode hacks (hcurrent (hkind.trans hmode.symm)).1 hflight
  | popped hmode hkind =>
      exact noneLost_popped h hmode hacks hkind (hcurrent (hkind.trans hmode.symm)) hflight

theorem noneLost_channel (h : NoneLost l) {data : List (Frame Message)} {acks : List Tag}
    (hdata : ∀ f ∈ data, f ∈ l.data) (hacks : ∀ t ∈ acks, t ∈ l.acks) :
    NoneLost { l with data := data, acks := acks } where
  flight := flight_channel h.flight hdata hacks
  begun := h.begun
  holding b hm := by
    have hb := h.holding b hm
    exact ⟨fun f hf hold g hg => hb.later f (hdata f hf) hold g (hdata g hg),
      fun f hf => hb.stale f (hdata f hf), hb.receiver⟩
  restarting hm := by
    have hr := h.restarting hm
    refine ⟨fun f hf => hr.resets f ?_, hr.answered⟩
    rcases List.mem_append.mp hf with hf | hf
    · exact List.mem_append_left _ (hdata f hf)
    · exact List.mem_append_right _ hf
  delivered := h.delivered

/-- **Nothing is lost, as long as what comes late does not act.** -/
theorem noneLost_step (h : NoneLost l) (hstep : Step lossless l l') : NoneLost l' := by
  cases hstep with
  | push m => exact noneLost_push h m
  | tick => exact noneLost_tick h
  | emitData hmode hfront => exact noneLost_emitData h hmode hfront
  | emitReset hmode m => exact noneLost_emitReset h hmode m
  | timeout _ => exact noneLost_timeout h
  | receive hdata hturn => exact noneLost_receive h hdata hturn
  | acknowledge hacks hcurrent => exact noneLost_acknowledge h hacks hcurrent
  | channel hdata hacks => exact noneLost_channel h hdata hacks

/-- A fresh link whose receiver expects the sender's bit or nothing. -/
theorem noneLost_start (hflight : Flight l) (hbegun : l.since ≤ l.clock)
    (hmode : l.mode = .bit b) (hdata : l.data = []) (hheard : l.heard = [])
    (haccepts : l.Accepts b) (hpopped : l.popped = []) : NoneLost l := by
  refine ⟨hflight, hbegun, fun c hc => ?_, fun hc => (nomatch hmode.symm.trans hc), ?_⟩
  · obtain rfl : c = b := by
      have heq := hc.symm.trans hmode
      simpa using heq
    exact ⟨by simp [hdata], by simp [hdata], Or.inl ⟨by simp [hheard], haccepts⟩⟩
  · simp [hpopped]

end Loss

/-! ### Nothing is reported twice -/

/-- While the sender holds a bit: what the front's report leaves, and the front's frames. -/
structure Waiting (l : Link Message) (b : Bool) : Prop where
  front : ∀ m, l.queue.head? = some m → m ∈ l.reported → l.expected = some !b
  bits : ∀ f ∈ l.data, f.tag.number = l.number → ∀ c, f.tag.kind = .bit c →
    c = b ∨ (b = false ∧ l.Overtaken f)

/-- While the sender resets: a present reset is not heard once the front is reported. -/
structure Recovering (l : Link Message) : Prop where
  resets : ∀ f ∈ l.frames, l.since ≤ f.tag.stamp → f.tag.kind = .reset
  front : (∃ g ∈ l.heard, l.since ≤ g.tag.stamp) → ∀ m, l.queue.head? = some m → m ∉ l.reported

structure Once (l : Link Message) : Prop where
  flight : Flight l
  distinct : l.reported.Nodup
  /-- A copy of what is reported is not taken for new. -/
  old : ∀ f ∈ l.data, ∀ b, f.tag.kind = .bit b → f.msg ∈ l.reported →
    l.Overtaken f ∨ ¬ l.Accepts b
  /-- A message goes out under both bits only if a reset came between. -/
  twice : ∀ f ∈ l.data, ∀ g ∈ l.data, f.tag.kind = .bit true → g.tag.kind = .bit false →
    f.tag.number = g.tag.number → l.Overtaken f
  /-- A reset overtakes what was sent of its message before. -/
  settled : ∀ f ∈ l.data, f.tag.kind = .reset → ∀ g ∈ l.data, ∀ b, g.tag.kind = .bit b →
    f.tag.number = g.tag.number → (l.mode = .reset → f.tag.number < l.number) →
      l.Overtaken g ∨ f.tag.stamp < g.tag.stamp
  /-- A reset of a message that is reported is a present one, or overtaken. -/
  spent : ∀ f ∈ l.data, f.tag.kind = .reset → ∀ m ∈ l.reported, l.At f.tag.number m →
    l.Overtaken f ∨ (f.tag.number = l.number ∧ l.mode = .reset)
  waiting : ∀ b, l.mode = .bit b → Waiting l b
  recovering : l.mode = .reset → Recovering l

section Repetition

variable {l l' : Link Message} {f g : Frame Message} {rest : List (Frame Message)} {b : Bool}
  {t : Tag} {tags : List Tag} {m : Message}

/-- What was reported had its number before. -/
theorem Flight.at_before (h : Flight l) (hnodup : (l'.popped ++ l'.queue).Nodup)
    (hbase : l'.base = l.base) (hsent : (l.popped ++ l.queue) <+: (l'.popped ++ l'.queue))
    {i : Nat} (hm : m ∈ l.reported) (hat : l'.At i m) : l.At i m := by
  obtain ⟨g, -, hg⟩ := h.reported_at hm
  obtain rfl := at_injective hnodup (at_extend hbase hsent hg) hat
  exact hg

/-- A message that joins an empty queue is not reported. -/
theorem front_push_unreported (h : Flight l)
    (hnodup : ((l.push m).popped ++ (l.push m).queue).Nodup)
    {x : Message} (hx : (l.push m).queue.head? = some x) (hreported : x ∈ l.reported) :
    l.queue.head? = some x := by
  cases hqueue : l.queue with
  | cons y ys =>
      rw [Link.push, hqueue] at hx
      exact hx
  | nil =>
      have hsent := h.reported_sent hreported
      simp only [Link.push, hqueue, List.nil_append, List.head?_cons, Option.some.injEq] at hx
      simp only [Link.push, hqueue, List.nil_append] at hnodup
      rw [hqueue, List.append_nil] at hsent
      subst hx
      exact absurd rfl ((List.nodup_append.mp hnodup).2.2 m hsent m List.mem_cons_self)

theorem once_push (h : Once l) (hnodup : ((l.push m).popped ++ (l.push m).queue).Nodup) :
    Once (l.push m) where
  flight := flight_push h.flight m
  distinct := h.distinct
  old := h.old
  twice := h.twice
  settled := h.settled
  spent f hf hkind x hx hat :=
    h.spent f hf hkind x hx
      (h.flight.at_before hnodup rfl (sent_step (T := once) (.push l m)) hx hat)
  waiting b hmode := by
    have hw := h.waiting b hmode
    exact ⟨fun x hx hreported =>
      hw.front x (front_push_unreported h.flight hnodup hx hreported) hreported, hw.bits⟩
  recovering hmode := by
    have hr := h.recovering hmode
    exact ⟨hr.resets, fun hheard x hx hreported =>
      hr.front hheard x (front_push_unreported h.flight hnodup hx hreported) hreported⟩

theorem once_tick (h : Once l) : Once { l with clock := l.clock + 1 } where
  flight := flight_later h.flight l.mode l.since
  distinct := h.distinct
  old := h.old
  twice := h.twice
  settled := h.settled
  spent := h.spent
  waiting b hmode := ⟨(h.waiting b hmode).front, (h.waiting b hmode).bits⟩
  recovering hmode := ⟨(h.recovering hmode).resets, (h.recovering hmode).front⟩

theorem once_emitData (h : Once l) (hmode : l.mode = .bit b) (hfront : l.queue.head? = some m) :
    Once (l.emit m) := by
  have hw := h.waiting b hmode
  have hmem : ∀ {f}, f ∈ (l.emit m).data →
      f ∈ l.data ∨ f = ⟨⟨.bit b, l.clock, l.number⟩, m⟩ := fun {f} hf => by
    rw [← hmode]
    exact (List.mem_append.mp hf).imp id List.mem_singleton.mp
  refine ⟨flight_emit h.flight fun _ _ => hfront, h.distinct, ?_, ?_, ?_, ?_, ?_, fun hm => ?_⟩
  · intro f hf c hkind hreported
    rcases hmem hf with hf | rfl
    · exact h.old f hf c hkind hreported
    · obtain rfl : b = c := by simpa using hkind
      right
      show ¬ l.Accepts b
      rw [Link.Accepts, hw.front m hfront hreported]
      simp
  · intro f hf g hg hfkind hgkind hnumber
    rcases hmem hf with hf | rfl
    · rcases hmem hg with hg | rfl
      · exact h.twice f hf g hg hfkind hgkind hnumber
      · -- the front goes out again under the bit that a reset left
        rcases hw.bits f hf hnumber true hfkind with hc | ⟨-, hovertaken⟩
        · subst hc
          cases hgkind
        · exact hovertaken
    · rcases hmem hg with hg | rfl
      · rcases hw.bits g hg hnumber.symm false hgkind with hc | ⟨hc, -⟩
        · subst hc
          cases hfkind
        · subst hc
          cases hfkind
      · exact absurd (hfkind.symm.trans hgkind) (by simp)
  · intro f hf hfkind g hg c hgkind hnumber hbefore
    rcases hmem hf with hf | rfl
    · rcases hmem hg with hg | rfl
      · exact h.settled f hf hfkind g hg c hgkind hnumber hbefore
      · exact Or.inr (h.flight.stamped f (List.mem_append_left _ hf))
    · cases hfkind
  · intro f hf hkind x hx hat
    rcases hmem hf with hf | rfl
    · exact h.spent f hf hkind x hx hat
    · cases hkind
  · intro c hc
    obtain rfl : c = b := by
      have heq : Kind.bit c = .bit b := hc.symm.trans hmode
      simpa using heq
    refine ⟨hw.front, fun f hf hnumber d hkind => ?_⟩
    rcases hmem hf with hf | rfl
    · exact hw.bits f hf hnumber d hkind
    · exact Or.inl (by simpa using hkind.symm)
  · rw [show l.mode = .reset from hm] at hmode
    cases hmode

theorem once_emitReset (h : Once l) (hmode : l.mode = .reset) (m : Message) :
    Once (l.emit m) := by
  have hmem : ∀ {f}, f ∈ (l.emit m).data →
      f ∈ l.data ∨ f = ⟨⟨.reset, l.clock, l.number⟩, m⟩ := fun {f} hf => by
    rw [← hmode]
    exact (List.mem_append.mp hf).imp id List.mem_singleton.mp
  refine ⟨flight_emit h.flight fun b hb => (nomatch hmode.symm.trans hb), h.distinct, ?_, ?_, ?_,
    ?_, fun b hb => (nomatch hmode.symm.trans hb), fun _ => ⟨fun f hf hsince => ?_,
      (h.recovering hmode).front⟩⟩
  · intro f hf c hkind hreported
    rcases hmem hf with hf | rfl
    · exact h.old f hf c hkind hreported
    · cases hkind
  · intro f hf g hg hfkind hgkind hnumber
    rcases hmem hf with hf | rfl
    · rcases hmem hg with hg | rfl
      · exact h.twice f hf g hg hfkind hgkind hnumber
      · cases hgkind
    · cases hfkind
  · intro f hf hfkind g hg c hgkind hnumber hbefore
    rcases hmem hg with hg | rfl
    · rcases hmem hf with hf | rfl
      · exact h.settled f hf hfkind g hg c hgkind hnumber hbefore
      · exact absurd (hbefore hmode) (Nat.lt_irrefl _)
    · cases hgkind
  · intro f hf hkind x hx hat
    rcases hmem hf with hf | rfl
    · exact h.spent f hf hkind x hx hat
    · exact Or.inr ⟨rfl, hmode⟩
  · rcases mem_frames_emit.mp hf with hf | rfl
    · exact (h.recovering hmode).resets f hf hsince
    · exact hmode

theorem once_timeout (h : Once l) : Once l.timeout where
  flight := flight_later h.flight .reset (l.clock + 1)
  distinct := h.distinct
  old := h.old
  twice := h.twice
  settled f hf hfkind g hg c hgkind hnumber hbefore :=
    h.settled f hf hfkind g hg c hgkind hnumber fun _ => hbefore rfl
  spent f hf hkind x hx hat :=
    (h.spent f hf hkind x hx hat).imp id fun hpresent => ⟨hpresent.1, rfl⟩
  waiting _ hm := nomatch hm
  recovering _ :=
    ⟨fun _ hf hsince => absurd hsince (h.flight.before_timeout hf),
      fun ⟨_, hg, hsince⟩ =>
        absurd hsince (h.flight.before_timeout (List.mem_append_right _ hg))⟩

/-! #### What the receiver handles -/

section Receiving

variable (h : Once l) (hnodup : (l.popped ++ l.queue).Nodup) (hdata : l.data = f :: rest)

include h hdata

/-- A frame that comes to nothing leaves what there is to know as it is. -/
theorem once_hear (hfront : f.tag.kind = .reset → ∀ m, l.queue.head? = some m → m ∉ l.reported) :
    Once (l.hear f rest) := by
  have hmem : ∀ {g}, g ∈ rest → g ∈ l.data := fun hg => mem_data_of_mem_rest hdata hg
  have hmono : ∀ {g}, l.Overtaken g → (l.hear f rest).Overtaken g :=
    Link.Overtaken.mono fun _ hx => List.mem_append_left _ hx
  refine ⟨flight_hear h.flight hdata, h.distinct, ?_, ?_, ?_, ?_, fun b hb => ?_, fun hm => ?_⟩
  · exact fun g hg b hkind hreported =>
      (h.old g (hmem hg) b hkind hreported).imp hmono id
  · exact fun g hg g' hg' hk hk' hnumber => hmono (h.twice g (hmem hg) g' (hmem hg') hk hk' hnumber)
  · exact fun g hg hk g' hg' b hk' hnumber hbefore =>
      (h.settled g (hmem hg) hk g' (hmem hg') b hk' hnumber hbefore).imp hmono id
  · exact fun g hg hk x hx hat => (h.spent g (hmem hg) hk x hx hat).imp hmono id
  · have hw := h.waiting b hb
    exact ⟨hw.front, fun g hg hnumber c hk =>
      (hw.bits g (hmem hg) hnumber c hk).imp id fun hold => ⟨hold.1, hmono hold.2⟩⟩
  · have hr := h.recovering hm
    refine ⟨fun g hg => hr.resets g ((mem_frames_receive hdata).mp hg), ?_⟩
    rintro ⟨g, hg, hsince⟩ x hx
    rcases List.mem_append.mp hg with hg | hg
    · exact hr.front ⟨g, hg, hsince⟩ x hx
    · rw [List.mem_singleton.mp hg] at hsince
      exact hfront (hr.resets f (List.mem_append_left _ (mem_data_head hdata)) hsince) x hx

include hnodup

/-- A reset that acts comes after every copy of what is reported. -/
theorem reset_overtakes (hkind : f.tag.kind = .reset) (hturn : ¬ l.Overtaken f)
    (hfront : ∀ m, l.queue.head? = some m → m ∉ l.reported) (hg : g ∈ l.data)
    (hgkind : g.tag.kind = .bit b) (hreported : g.msg ∈ l.reported) :
    g.tag.stamp < f.tag.stamp := by
  have hf := mem_data_head hdata
  have hat := h.flight.named g (List.mem_append_left _ hg) b hgkind
  rcases Nat.lt_trichotomy g.tag.number f.tag.number with hlt | heq | hlt
  · exact h.flight.ordered g (List.mem_append_left _ hg) f (List.mem_append_left _ hf) hlt
  · rw [heq] at hat
    rcases h.spent f hf hkind g.msg hreported hat with hovertaken | ⟨hnumber, -⟩
    · exact absurd hovertaken hturn
    · rw [hnumber] at hat
      exact absurd hreported (hfront g.msg (front_of_at hat))
  · exact absurd
      (h.flight.overtaken_of_reported hnodup (List.mem_append_left _ hf) hreported hat hlt) hturn

theorem once_reset (hkind : f.tag.kind = .reset) (hturn : ¬ l.Overtaken f)
    (hfront : ∀ m, l.queue.head? = some m → m ∉ l.reported) :
    Once { l.hear f rest with expected := some false } := by
  have hhear := once_hear h hdata fun _ => hfront
  refine ⟨flight_expecting hhear.flight _, hhear.distinct, ?_, hhear.twice, hhear.settled,
    hhear.spent,
    fun c hc => ⟨fun x hx hreported => absurd hreported (hfront x hx), (hhear.waiting c hc).bits⟩,
    fun hm => ⟨(hhear.recovering hm).resets, (hhear.recovering hm).front⟩⟩
  intro g hg c hk hreported
  cases c with
  | true => exact Or.inr (by simp [Link.Accepts])
  | false =>
      have hlt := reset_overtakes h hnodup hdata hkind hturn hfront (mem_data_of_mem_rest hdata hg)
        hk hreported
      exact Or.inl ⟨f, List.mem_append_right _ List.mem_cons_self, hlt⟩

/-- A message that is reported overtakes every copy that would be taken for new now. -/
theorem report_overtakes (hkind : f.tag.kind = .bit b) (hturn : ¬ l.Overtaken f)
    (hg : g ∈ l.data) (hgkind : g.tag.kind = .bit !b)
    (hreported : g.msg ∈ l.reported ++ [f.msg]) :
    l.Overtaken g ∨ g.tag.stamp < f.tag.stamp := by
  have hf := mem_data_head hdata
  have hat := h.flight.named g (List.mem_append_left _ hg) _ hgkind
  have hatf := h.flight.named f (List.mem_append_left _ hf) b hkind
  rcases Nat.lt_trichotomy g.tag.number f.tag.number with hlt | heq | hlt
  · exact Or.inr
      (h.flight.ordered g (List.mem_append_left _ hg) f (List.mem_append_left _ hf) hlt)
  · left
    cases b with
    | true => exact absurd (h.twice f hf g hg hkind hgkind heq.symm) hturn
    | false => exact h.twice g hg f hf hgkind hkind heq
  · exfalso
    rcases List.mem_append.mp hreported with hold | hnew
    · exact hturn
        (h.flight.overtaken_of_reported hnodup (List.mem_append_left _ hf) hold hat hlt)
    · rw [List.mem_singleton.mp hnew] at hat
      exact Nat.ne_of_lt hlt (at_injective hnodup hatf hat)

theorem once_report (hkind : f.tag.kind = .bit b) (haccepts : l.Accepts b)
    (hturn : ¬ l.Overtaken f) :
    Once { l.hear f rest with expected := some !b, reported := l.reported ++ [f.msg] } := by
  have hmem : ∀ {g}, g ∈ rest → g ∈ l.data := fun hg => mem_data_of_mem_rest hdata hg
  have hmono : ∀ {g}, l.Overtaken g → (l.hear f rest).Overtaken g :=
    Link.Overtaken.mono fun _ hx => List.mem_append_left _ hx
  have hhear := once_hear h hdata fun hc => (nomatch hkind.symm.trans hc)
  have hf := mem_data_head hdata
  have hframe : f ∈ l.frames := List.mem_append_left _ hf
  have hatf := h.flight.named f hframe b hkind
  have hnew : f.msg ∉ l.reported := fun hreported =>
    (h.old f hf b hkind hreported).elim hturn fun hno => hno haccepts
  refine ⟨flight_report h.flight hdata hkind, ?_, ?_, hhear.twice, hhear.settled, ?_,
    fun c hc => ⟨?_, (hhear.waiting c hc).bits⟩, fun hm => ⟨(hhear.recovering hm).resets, ?_⟩⟩
  · exact List.nodup_append.mpr ⟨h.distinct, List.pairwise_singleton _ _, fun x hx y hy => by
      rw [List.mem_singleton.mp hy]
      exact fun hc => hnew (hc ▸ hx)⟩
  · intro g hg c hk hreported
    by_cases hc : c = b
    · right
      subst hc
      simp [Link.Accepts]
    · obtain rfl : c = !b := by cases b <;> cases c <;> simp_all
      left
      rcases report_overtakes h hnodup hdata hkind hturn (hmem hg) hk hreported with hold | hlt
      · exact hmono hold
      · exact ⟨f, List.mem_append_right _ List.mem_cons_self, hlt⟩
  · intro g hg hk x hx hat
    rcases List.mem_append.mp hx with hx | hx
    · exact (h.spent g (hmem hg) hk x hx hat).imp hmono id
    · -- a reset of the message that is reported now
      rw [List.mem_singleton.mp hx] at hat
      have hnumber := at_injective hnodup hat hatf
      by_cases hpresent : g.tag.number = l.number ∧ l.mode = .reset
      · exact Or.inr hpresent
      · left
        have hle := h.flight.numbered g (List.mem_append_left _ (hmem hg))
        rcases h.settled g (hmem hg) hk f hf b hkind hnumber fun hm =>
          Nat.lt_of_le_of_ne hle fun hc => hpresent ⟨hc, hm⟩ with hold | hlt
        · exact absurd hold hturn
        · exact ⟨f, List.mem_append_right _ List.mem_cons_self, hlt⟩
  · -- the front is reported under the present bit only
    intro x hx hreported
    have hw := h.waiting c hc
    have hatx := at_front hx
    suffices hbc : b = c by rw [hbc]
    rcases Nat.lt_or_eq_of_le (h.flight.numbered f hframe) with hlt | heq
    · exfalso
      rcases List.mem_append.mp hreported with hold | hnew'
      · exact hturn (h.flight.overtaken_of_reported hnodup hframe hold hatx hlt)
      · rw [List.mem_singleton.mp hnew'] at hatx
        exact Nat.ne_of_lt hlt (at_injective hnodup hatf hatx)
    · rcases hw.bits f hf heq b hkind with hb | ⟨-, hold⟩
      · exact hb
      · exact absurd hold hturn
  · -- a bit is older than the reset, so a present reset would have overtaken it
    rintro ⟨g, hg, hsince⟩
    have hbit : f.tag.kind ≠ .reset := by simp [hkind]
    have hresets := (h.recovering hm).resets
    rcases List.mem_append.mp hg with hg | hg
    · exact absurd (overtaken_of_resets hresets ⟨g, hg, hsince⟩ hframe hbit) hturn
    · rw [List.mem_singleton.mp hg] at hsince
      exact absurd (hresets f hframe hsince) hbit

theorem once_receive (hturn : l.InTurn f)
    (hfront : f.tag.kind = .reset → ∀ m, l.queue.head? = some m → m ∉ l.reported) :
    Once (l.receive f rest) := by
  have houtcome := receive_outcome l f rest
  generalize l.receive f rest = l' at houtcome
  cases houtcome with
  | idle _ => exact once_hear h hdata hfront
  | reset hkind hexpected =>
      have hnot : ¬ l.Overtaken f := fun hc => hturn hc ((acts_reset hkind).mpr hexpected)
      exact once_reset h hnodup hdata hkind hnot (hfront hkind)
  | report hkind haccepts =>
      have hnot : ¬ l.Overtaken f := fun hc => hturn hc ((acts_bit hkind).mpr haccepts)
      exact once_report h hnodup hdata hkind haccepts hnot

end Receiving

/-! #### What the sender handles -/

theorem once_ignored (h : Once l) (hflight : Flight { l with acks := tags }) :
    Once { l with acks := tags } where
  flight := hflight
  distinct := h.distinct
  old := h.old
  twice := h.twice
  settled := h.settled
  spent := h.spent
  waiting b hm := ⟨(h.waiting b hm).front, (h.waiting b hm).bits⟩
  recovering hm := ⟨(h.recovering hm).resets, (h.recovering hm).front⟩

theorem once_restarted (h : Once l) (hmode : l.mode = .reset) (hacks : l.acks = t :: tags)
    (hsince : l.since ≤ t.stamp) (hflight : Flight { l with mode := .bit false, acks := tags }) :
    Once { l with mode := .bit false, acks := tags } := by
  have hr := h.recovering hmode
  obtain ⟨x, hx, rfl⟩ := h.flight.answers t (by rw [hacks]; exact List.mem_cons_self)
  have hheard : ∃ g ∈ l.heard, l.since ≤ g.tag.stamp := ⟨x, hx, hsince⟩
  have hfront := hr.front hheard
  have hbits : ∀ g ∈ l.data, ∀ b, g.tag.kind = .bit b → l.Overtaken g := fun g hg b hk =>
    overtaken_of_resets hr.resets hheard (List.mem_append_left _ hg) (by simp [hk])
  refine ⟨hflight, h.distinct, h.old, h.twice, ?_, ?_, fun b hb => ⟨?_, ?_⟩, nofun⟩
  · exact fun f _ _ g hg b hk _ _ => Or.inl (hbits g hg b hk)
  · intro f hf hk m hm hat
    rcases h.spent f hf hk m hm hat with hold | ⟨hnumber, -⟩
    · exact Or.inl hold
    · have hat' : l.At f.tag.number m := hat
      rw [hnumber] at hat'
      exact absurd hm (hfront m (front_of_at hat'))
  · exact fun m hm hreported => absurd hreported (hfront m hm)
  · obtain rfl : b = false := by simpa using hb.symm
    exact fun f hf _ c hk => Or.inr ⟨rfl, hbits f hf c hk⟩

/-- The next message has no frame yet. -/
theorem Flight.next_unsent (h : Flight l) (hf : f ∈ l.frames) (hkind : f.tag.kind = .bit b) :
    f.tag.number ≠ l.number + (l.queue.take 1).length := by
  intro hnumber
  have hle := h.numbered f hf
  have hat := h.named f hf b hkind
  cases hqueue : l.queue with
  | nil =>
      rw [hqueue] at hnumber
      rw [show f.tag.number = l.number from hnumber] at hat
      have hfront := front_of_at hat
      rw [hqueue] at hfront
      cases hfront
  | cons x xs =>
      rw [hqueue, List.take_succ_cons, List.length_cons] at hnumber
      omega

theorem once_popped (h : Once l) (hnodup : (l.popped ++ l.queue).Nodup) (hmode : l.mode = .bit b)
    (hflight : Flight { l with
      mode := .bit !b
      acks := tags
      queue := l.queue.tail
      popped := l.popped ++ l.queue.take 1 }) :
    Once { l with
      mode := .bit !b
      acks := tags
      queue := l.queue.tail
      popped := l.popped ++ l.queue.take 1 } := by
  have hsent : (l.popped ++ l.queue.take 1) ++ l.queue.tail = l.popped ++ l.queue := by
    cases l.queue <;> simp
  have hnumber : ({ l with
      mode := .bit !b
      acks := tags
      queue := l.queue.tail
      popped := l.popped ++ l.queue.take 1 } : Link Message).number
      = l.number + (l.queue.take 1).length := by
    simp only [Link.number, List.length_append, Nat.add_assoc]
  refine ⟨hflight, h.distinct, h.old, h.twice, ?_, ?_, fun c hc => ⟨?_, ?_⟩, nofun⟩
  · exact fun f hf hk g hg c hk' heq _ =>
      h.settled f hf hk g hg c hk' heq fun hm => (nomatch hmode.symm.trans hm)
  · intro f hf hk m hm hat
    have hat' : l.At f.tag.number m := ⟨hat.1, by rw [← hsent]; exact hat.2⟩
    rcases h.spent f hf hk m hm hat' with hold | ⟨-, hm'⟩
    · exact Or.inl hold
    · exact (nomatch hmode.symm.trans hm')
  · -- the new front has not been reported
    intro m hm hreported
    obtain ⟨g, hg, ⟨d, hd⟩, rfl⟩ := h.flight.told m hreported
    have hg' := List.mem_append_right l.data hg
    have hat := at_front hm
    rw [hnumber] at hat
    have hat' : l.At (l.number + (l.queue.take 1).length) g.msg :=
      ⟨hat.1, by rw [← hsent]; exact hat.2⟩
    exact absurd (at_injective hnodup (h.flight.named g hg' d hd) hat')
      (h.flight.next_unsent hg' hd)
  · intro f hf heq d hd
    rw [hnumber] at heq
    exact absurd heq (h.flight.next_unsent (List.mem_append_left _ hf) hd)

theorem once_acknowledge (h : Once l) (hnodup : (l.popped ++ l.queue).Nodup)
    (hacks : l.acks = t :: tags) (hfresh : l.Fresh t) : Once (l.acknowledge t tags) := by
  have hflight := flight_acknowledge h.flight hacks
  have houtcome := acknowledge_outcome l t tags
  generalize l.acknowledge t tags = l' at hflight houtcome
  cases houtcome with
  | ignored _ => exact once_ignored h hflight
  | reset hmode hkind => exact once_restarted h hmode hacks (hfresh hmode hkind) hflight
  | popped hmode _ => exact once_popped h hnodup hmode hflight

theorem once_channel (h : Once l) {data : List (Frame Message)} {acks : List Tag}
    (hdata : ∀ f ∈ data, f ∈ l.data) (hacks : ∀ t ∈ acks, t ∈ l.acks) :
    Once { l with data := data, acks := acks } where
  flight := flight_channel h.flight hdata hacks
  distinct := h.distinct
  old f hf := h.old f (hdata f hf)
  twice f hf g hg := h.twice f (hdata f hf) g (hdata g hg)
  settled f hf hk g hg := h.settled f (hdata f hf) hk g (hdata g hg)
  spent f hf := h.spent f (hdata f hf)
  waiting b hm := ⟨(h.waiting b hm).front, fun f hf => (h.waiting b hm).bits f (hdata f hf)⟩
  recovering hm := by
    refine ⟨fun f hf => (h.recovering hm).resets f ?_, (h.recovering hm).front⟩
    rcases List.mem_append.mp hf with hf | hf
    · exact List.mem_append_left _ (hdata f hf)
    · exact List.mem_append_right _ hf

/-- **Nothing is reported twice, as long as no message is sent twice.** -/
theorem once_step (h : (l.popped ++ l.queue).Nodup → Once l) (hstep : Step once l l')
    (hnodup' : (l'.popped ++ l'.queue).Nodup) : Once l' := by
  have hnodup := hnodup'.sublist (sent_step hstep).sublist
  specialize h hnodup
  cases hstep with
  | push m => exact once_push h hnodup'
  | tick => exact once_tick h
  | emitData hmode hfront => exact once_emitData h hmode hfront
  | emitReset hmode m => exact once_emitReset h hmode m
  | timeout _ => exact once_timeout h
  | receive hdata hallowed => exact once_receive h hnodup hdata hallowed.1 hallowed.2
  | acknowledge hacks hfresh => exact once_acknowledge h hnodup hacks hfresh
  | channel hdata hacks => exact once_channel h hdata hacks

/-- Before anything is sent, whatever the receiver expects. -/
theorem once_start (hflight : Flight l) (hmode : l.mode = .bit b) (hdata : l.data = [])
    (hreported : l.reported = []) : Once l := by
  refine ⟨hflight, by rw [hreported]; exact List.nodup_nil, by simp [hdata], by simp [hdata],
    by simp [hdata], by simp [hdata], fun c _ => ⟨by simp [hreported], by simp [hdata]⟩,
    fun hm => (nomatch hmode.symm.trans hm)⟩

end Repetition

end AlternatingBit
