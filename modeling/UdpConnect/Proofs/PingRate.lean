/-
How often a client is pinged.

`m_pingLastSetTime` is to be the last time a ping was sent, and `needsPing` measures the
period from it, but it is the handling of replies that writes it, and nothing else.  Until
a reply comes, a client that has been pinged is pinged again in each of its turns.
`pings_apart_iff` says that the pings of a run keep their distance exactly if each of them
is answered before the client has another turn within the period.
-/
import UdpConnect.Proofs.Timer

namespace UdpConnect

open Past UdcServerImpl

/-- A run in which two ticks are picked out. -/
structure TwoTicks where
  before : List Op
  first : Milliseconds
  firstOrder : List UdcEndPointId
  between : List Op
  second : Milliseconds
  secondOrder : List UdcEndPointId
  after : List Op

namespace TwoTicks

variable (k : TwoTicks) (s : UdcServerImpl)

def firstTick : Op := .updateClientConnectionStatus k.first k.firstOrder

def secondTick : Op := .updateClientConnectionStatus k.second k.secondOrder

def run : List Op := k.before ++ k.firstTick :: (k.between ++ k.secondTick :: k.after)

/-- The server when the first tick begins, when it has ended, and when the second begins. -/
def atFirst : UdcServerImpl := runState s k.before

def sinceFirst : UdcServerImpl := next (k.atFirst s) k.firstTick

def atSecond : UdcServerImpl := runState (k.sinceFirst s) k.between

end TwoTicks

namespace Course

variable (w : Course)

/-- Any two pings of the client are sent a ping period apart. -/
def PingsApart : Prop :=
  ∀ k : TwoTicks, k.run = w.after →
    k.firstTick.SendsKind [.ping] w.client.ref (k.atFirst w.created) →
      k.secondTick.SendsKind [.ping] w.client.ref (k.atSecond w.created) →
        w.client.settings.pingPeriod ≤ k.second - k.first

/-- Whenever a ping is due in a turn of the client, and another turn comes within the period,
a reply has been accepted in the meantime. -/
def PingsAnswered : Prop :=
  ∀ k : TwoTicks, k.run = w.after →
    k.firstTick.Visits w.client.ref (k.atFirst w.created) →
      ((k.atFirst w.created).heap w.client.ref).needsPing k.first = true →
        k.secondTick.Visits w.client.ref (k.atSecond w.created) →
          k.second - k.first < w.client.settings.pingPeriod →
            Once next (Op.AcceptsReply w.client.ref) (k.sinceFirst w.created) k.between

end Course

/-! ### The time of the last reply -/

section Replies

variable {s : UdcServerImpl} {r : ClientRef} {time t : Milliseconds} {x : UdcServerImpl × Nat}
  {op : Op} {ops : List Op}

theorem needsPing_iff {c : UdcClient} :
    c.needsPing time = true ↔ c.pingPeriod ≤ time - c.pingLastSetTime := by
  unfold UdcClient.needsPing
  rw [decide_eq_true_iff]

theorem pingLastSetTime_of_accepts (hcap : Capacity x.1.messageBuffer x.2)
    (h : AcceptsReply r time x) : ((pass time x).1.heap r).pingLastSetTime = time := by
  obtain ⟨address, bytes, m, timeStamp, hd, hm, hanswers, hlookup, htime⟩ := h
  obtain ⟨state, sent, queue, hheap⟩ := heap_of_reply hcap hd hm hanswers hlookup htime
  rw [hheap]

/-- A pass sets the time to its own, or leaves it. -/
theorem le_pingLastSetTime_pass (hcap : Capacity x.1.messageBuffer x.2) (hle : t ≤ time)
    (h : t ≤ (x.1.heap r).pingLastSetTime) : t ≤ ((pass time x).1.heap r).pingLastSetTime := by
  by_cases haccepts : AcceptsReply r time x
  · rw [pingLastSetTime_of_accepts hcap haccepts]
    exact hle
  · rw [(sameSample_pass hcap haccepts).pingLastSetTime]
    exact h

/-- A call that accepts a reply sets the time to its own. -/
theorem le_pingLastSetTime_of_accepts (h : op.AcceptsReply r s)
    (hle : ∀ time ∈ op.time?, t ≤ time) : t ≤ ((next s op).heap r).pingLastSetTime := by
  cases op with
  | receiveMessages time =>
      have hle : t ≤ time := hle time rfl
      obtain ⟨x, hx, haccepts⟩ := h
      obtain ⟨before, after, hturns⟩ := List.append_of_mem hx
      refine receiveMessages_from (P := fun u => t ≤ (u.heap r).pingLastSetTime) hturns ?_ ?_
      · rw [pingLastSetTime_of_accepts (turns_capacity hx) haccepts]
        exact hle
      · intro y hy hset
        have hmem : y ∈ s.turns time := by
          rw [hturns]
          exact List.mem_append_right _ (List.mem_cons_of_mem _ hy)
        exact le_pingLastSetTime_pass (turns_capacity hmem) hle hset
  | _ => exact absurd h id

theorem le_pingLastSetTime_call (hadm : op.Admissible s) (hr : r < s.nextRef)
    (hle : ∀ time ∈ op.time?, t ≤ time) (h : t ≤ (s.heap r).pingLastSetTime) :
    t ≤ ((next s op).heap r).pingLastSetTime := by
  by_cases haccepts : op.AcceptsReply r s
  · exact le_pingLastSetTime_of_accepts haccepts hle
  · have hsame : ((next s op).heap r).pingLastSetTime = (s.heap r).pingLastSetTime :=
      (sameSample_call hadm hr haccepts).pingLastSetTime
    rw [hsame]
    exact h

/-- **Once a reply has been accepted, the time of the last one is not before it.** -/
theorem le_pingLastSetTime_run (ops : List Op) (hr : r < s.nextRef)
    (hadm : Throughout (fun s op => op.Admissible s) s ops)
    (hle : ∀ time ∈ ops.filterMap Op.time?, t ≤ time)
    (h : Once next (Op.AcceptsReply r) s ops) :
    t ≤ ((runState s ops).heap r).pingLastSetTime := by
  induction ops using List.reverseRecOn with
  | nil => exact absurd h once_nil
  | append_singleton ops op ih =>
      obtain ⟨hrun, hlast, -⟩ := (throughout_append ops [op] s).mp hadm
      have hlt : r < (runState s ops).nextRef :=
        run_stages (P := fun u => r < u.nextRef)
          (fun _ _ _ hr hstage => Nat.lt_of_lt_of_le hr (nextRef_le_stage hstage)) ops s hrun hr
      have hnow : ∀ time ∈ op.time?, t ≤ time := by
        intro time htime
        exact hle time (mem_times (List.mem_append_right _ (List.mem_singleton.mpr rfl)) htime)
      rw [runState_snoc]
      rcases once_snoc.mp h with hbefore | haccepts
      · refine le_pingLastSetTime_call hlast hlt hnow (ih hrun ?_ hbefore)
        intro time htime
        apply hle time
        rw [List.filterMap_append]
        exact List.mem_append_left _ htime
      · exact le_pingLastSetTime_of_accepts haccepts hnow

end Replies

/-! ### Two ticks of a run -/

/-- What is known of the two ticks, and of the calls between them. -/
structure Placed (w : Course) (k : TwoTicks) : Prop where
  first : Ready (k.atFirst w.created) ∧ k.firstTick.Admissible (k.atFirst w.created) ∧
    Made w.client.ref w.client.settings (k.atFirst w.created)
  since : Made w.client.ref w.client.settings (k.sinceFirst w.created)
  between : Throughout (fun s op => op.Admissible s) (k.sinceFirst w.created) k.between
  second : Ready (k.atSecond w.created) ∧ k.secondTick.Admissible (k.atSecond w.created) ∧
    Made w.client.ref w.client.settings (k.atSecond w.created)
  order : k.first ≤ k.second
  times : ∀ t ∈ k.between.filterMap Op.time?, k.first ≤ t

section Ticks

variable {w : Course} {k : TwoTicks} {s : UdcServerImpl} {r : ClientRef}
  {time : Milliseconds} {order : List UdcEndPointId}

/-- What never happens in a run is kept out of each of its calls. -/
theorem throughout_of_not_once {P A : UdcServerImpl → Op → Prop} {ops : List Op}
    (h : Throughout P s ops) (hnone : ¬ Once next A s ops) :
    Throughout (fun s op => P s op ∧ ¬ A s op) s ops := by
  induction ops generalizing s with
  | nil => trivial
  | cons op ops ih =>
      rw [once_cons, not_or] at hnone
      exact ⟨⟨h.1, hnone.1⟩, ih h.2 hnone.2⟩

theorem tick_sendsPing_iff (hready : Ready s)
    (hadm : (Op.updateClientConnectionStatus time order).Admissible s) :
    (Op.updateClientConnectionStatus time order).SendsKind [.ping] r s ↔
      (Op.updateClientConnectionStatus time order).Visits r s ∧
        (s.heap r).needsPing time = true :=
  exists_turn_iff (P := fun c => c.needsPing time = true) hready hadm
    fun _ hu => sendsPing_iff hu

theorem placed (hclock : Clocked w.after) (h : k.run = w.after) : Placed w k := by
  have hadm := w.admissible_after
  rw [← h] at hadm hclock
  obtain ⟨hbefore, hfirst, hrest⟩ := (throughout_append k.before _ w.created).mp hadm
  obtain ⟨hbetween, hsecond, -⟩ := (throughout_append k.between _ _).mp hrest
  obtain ⟨-, hlater, -⟩ := clocked_append.mp hclock
  have hle := (List.pairwise_cons.mp hlater).1
  have hready (op : Op) (t t' : UdcServerImpl) (h : Ready t) (hstage : Stage op t t') : Ready t' :=
    ready_stage h hstage
  have hreadyFirst := run_stages hready k.before w.created hbefore w.ready_created
  have hmadeFirst := made_run hbefore w.begun.made
  have hreadySince := step_stages hfirst (hready _) hreadyFirst
  have hmadeSince := step_stages hfirst (fun _ _ h hstage => made_stage h hstage) hmadeFirst
  refine ⟨⟨hreadyFirst, hfirst, hmadeFirst⟩, hmadeSince, hbetween,
    ⟨run_stages hready k.between _ hbetween hreadySince, hsecond, made_run hbetween hmadeSince⟩,
    ?_, ?_⟩
  · apply hle
    rw [List.filterMap_append]
    exact List.mem_append_right _ List.mem_cons_self
  · intro t ht
    apply hle
    rw [List.filterMap_append]
    exact List.mem_append_left _ ht

/-- A tick accepts no reply. -/
theorem sameSample_tick (hadm : (Op.updateClientConnectionStatus time order).Admissible s)
    (hr : r < s.nextRef) :
    SameSample (s.heap r) ((next s (.updateClientConnectionStatus time order)).heap r) :=
  sameSample_call hadm hr id

/-- Without a reply, a ping that was due in the first tick is due in the second. -/
theorem needsPing_again (h : Placed w k)
    (hnone : ¬ Once next (Op.AcceptsReply w.client.ref) (k.sinceFirst w.created) k.between)
    (hneeds : ((k.atFirst w.created).heap w.client.ref).needsPing k.first = true) :
    ((k.atSecond w.created).heap w.client.ref).needsPing k.second = true := by
  have hquiet : Throughout (fun s op => op.Admissible s ∧ ¬ op.AcceptsReply w.client.ref s)
      (k.sinceFirst w.created) k.between := throughout_of_not_once h.between hnone
  have hfirst : SameSample ((k.atFirst w.created).heap w.client.ref)
      ((k.sinceFirst w.created).heap w.client.ref) :=
    sameSample_tick h.first.2.1 h.first.2.2.lt
  have hbetween := sameSample_run k.between _ h.since.lt hquiet
  have hset : ((k.atSecond w.created).heap w.client.ref).pingLastSetTime
      = ((k.atFirst w.created).heap w.client.ref).pingLastSetTime :=
    hbetween.pingLastSetTime.trans hfirst.pingLastSetTime
  have hperiod := congrArg Settings.pingPeriod h.first.2.2.settings
  have hperiod' := congrArg Settings.pingPeriod h.second.2.2.settings
  rw [needsPing_iff] at hneeds ⊢
  rw [hset]
  calc ((k.atSecond w.created).heap w.client.ref).pingPeriod
      = ((k.atFirst w.created).heap w.client.ref).pingPeriod := hperiod'.trans hperiod.symm
    _ ≤ k.first - ((k.atFirst w.created).heap w.client.ref).pingLastSetTime := hneeds
    _ ≤ k.second - ((k.atFirst w.created).heap w.client.ref).pingLastSetTime :=
        sub_le_sub_right h.order _

/-- After a reply no ping is due within the period. -/
theorem not_needsPing_of_reply (h : Placed w k)
    (honce : Once next (Op.AcceptsReply w.client.ref) (k.sinceFirst w.created) k.between)
    (hearly : k.second - k.first < w.client.settings.pingPeriod) :
    ¬ ((k.atSecond w.created).heap w.client.ref).needsPing k.second = true := by
  have hset : k.first ≤ ((k.atSecond w.created).heap w.client.ref).pingLastSetTime :=
    le_pingLastSetTime_run k.between h.since.lt h.between h.times honce
  have hperiod : ((k.atSecond w.created).heap w.client.ref).pingPeriod
      = w.client.settings.pingPeriod := congrArg Settings.pingPeriod h.second.2.2.settings
  rw [needsPing_iff, hperiod]
  intro hneeds
  exact absurd (lt_of_le_of_lt (le_trans hneeds (sub_le_sub_left hset _)) hearly) (lt_irrefl _)

/-- **The pings of a client keep the period between them exactly if each is answered** before
the client has another turn within it. -/
theorem pings_apart_iff (w : Course) (hclock : Clocked w.after) :
    w.PingsApart ↔ w.PingsAnswered := by
  constructor
  · intro hapart k hk hvisits hneeds hvisits' hearly
    have hplaced := placed hclock hk
    by_contra hnone
    have hping := (tick_sendsPing_iff hplaced.first.1 hplaced.first.2.1).mpr ⟨hvisits, hneeds⟩
    have hping' := (tick_sendsPing_iff hplaced.second.1 hplaced.second.2.1).mpr
      ⟨hvisits', needsPing_again hplaced hnone hneeds⟩
    exact absurd (hapart k hk hping hping') (not_le.mpr hearly)
  · intro hanswered k hk hping hping'
    have hplaced := placed hclock hk
    obtain ⟨hvisits, hneeds⟩ := (tick_sendsPing_iff hplaced.first.1 hplaced.first.2.1).mp hping
    obtain ⟨hvisits', hneeds'⟩ :=
      (tick_sendsPing_iff hplaced.second.1 hplaced.second.2.1).mp hping'
    by_contra hearly
    have honce := hanswered k hk hvisits hneeds hvisits' (not_le.mp hearly)
    exact not_needsPing_of_reply hplaced honce (not_le.mp hearly) hneeds'

/-- A ping is answered before the next tick, in which it would be due again. -/
def oncePingedOps : List Op :=
  answeredOps ++ [.updateClientConnectionStatus (exampleTime + 13) [1]]

theorem admissible_oncePinged : Throughout (fun s op => op.Admissible s) exampleServer
    (exampleBound ++ exampleConnect :: oncePingedOps) := by
  decide +kernel

def oncePingedCourse : Course := exampleCourse oncePingedOps admissible_oncePinged

theorem accepts_oncePinged : (Op.receiveMessages (exampleTime + 12)).AcceptsReply 0
    (runState oncePingedCourse.created (oncePingedOps.take 4)) :=
  ⟨(runState oncePingedCourse.created (oncePingedOps.take 4), 16), List.mem_cons_self,
    ⟨.ipv4 (exampleIP 2), 2⟩, [1, 2, 3, 4, 3, 11, 0, 0, 0], .pong 11, 11, by decide +kernel,
    by decide +kernel, rfl, by decide +kernel, by decide⟩

theorem pings_apart_once : oncePingedCourse.PingsApart := by
  refine (pings_apart_iff oncePingedCourse (by unfold Clocked; decide +kernel)).mpr ?_
  intro k hk _ _ _ _
  -- there are two ticks only, and the pong is handled between them
  have hsplit : k.run = oncePingedOps := hk
  simp only [TwoTicks.run, TwoTicks.firstTick, TwoTicks.secondTick, oncePingedOps, answeredOps,
    List.cons_append, List.nil_append, List.append_eq_cons_iff, List.cons_eq_append_iff,
    List.cons.injEq, reduceCtorEq, List.append_eq_nil_iff, List.nil_eq_append_iff, and_false,
    false_and, or_false, false_or, exists_false, Op.updateClientConnectionStatus.injEq] at hsplit
  obtain ⟨_, hbefore, _, rfl, rfl, ⟨hfirst, horder⟩, _, hbetween, _, rfl, rfl, -⟩ := hsplit
  rw [TwoTicks.sinceFirst, TwoTicks.atFirst, TwoTicks.firstTick, hbefore, hfirst, horder, hbetween]
  exact ⟨[_], _, [], rfl, accepts_oncePinged⟩

/-- The endpoint does not answer its pings, the first of which is sent at once. -/
def twicePingedOps : List Op :=
  heardOps ++ [.updateClientConnectionStatus (exampleTime + 11) [1],
    .updateClientConnectionStatus (exampleTime + 12) [1]]

theorem admissible_twicePinged : Throughout (fun s op => op.Admissible s) exampleServer
    (exampleBound ++ exampleConnect :: twicePingedOps) := by
  decide +kernel

def twicePingedCourse : Course := exampleCourse twicePingedOps admissible_twicePinged

theorem pinged_twice_in_a_millisecond :
    ¬ ∀ w : Course, Clocked w.after → w.PingsApart := by
  intro h
  have hclock : Clocked twicePingedCourse.after := by
    unfold Clocked
    decide +kernel
  have hk : TwoTicks.run ⟨heardOps, exampleTime + 11, [1], [], exampleTime + 12, [1], []⟩
      = twicePingedCourse.after := rfl
  have hplaced := placed hclock hk
  have hping := (tick_sendsPing_iff (r := 0) hplaced.first.1 hplaced.first.2.1).mpr
    ⟨⟨_, List.mem_cons_self⟩, by decide +kernel⟩
  have hping' := (tick_sendsPing_iff (r := 0) hplaced.second.1 hplaced.second.2.1).mpr
    ⟨⟨_, List.mem_cons_self⟩, by decide +kernel⟩
  have hapart := h twicePingedCourse hclock _ hk hping hping'
  revert hapart
  decide +kernel

end Ticks

end UdpConnect
