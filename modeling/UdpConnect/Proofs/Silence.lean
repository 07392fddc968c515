/-
Lost connections: what a connection lost event says about the silence before it.

The period a tick compares the silence with is a tenth of the user's timeout, not the
timeout, and the ping period is the whole of it.  `lost_after_silence` says when a lost
event means a timeout of silence all the same, and `probed_before_lost_iff` when the
endpoint has been sent something since it was last heard from.  Both rest on one
induction along the run, over the last call that refreshed the client.
-/
import UdpConnect.Proofs.Attempts

namespace UdpConnect

open Past

/-! ### The clock -/

/-- The time that a call is told. -/
def Op.time? : Op → Option Milliseconds
  | .tryConnectIPv4 _ _ _ currentTime | .tryConnectIPv6 _ _ _ currentTime => some currentTime
  | .updatePendingClients time | .updateClientConnectionStatus time _ => some time
  | .receiveMessages time => some time
  | _ => none

/-- The clock does not go back from one call to the next. -/
def Clocked (ops : List Op) : Prop := (ops.filterMap Op.time?).Pairwise (· ≤ ·)

/-- The call handles this message at this time. -/
def Op.Hears (t : Milliseconds) (x : Handling) (s : UdcServerImpl) (op : Op) : Prop :=
  (t, x) ∈ op.handles s

/-- The tick reports that the connection to this endpoint has been lost. -/
def Loses (c : Creation) (s : UdcServerImpl) (time : Milliseconds)
    (order : List UdcEndPointId) : Prop :=
  s.clientsById.lookup c.id = some c.ref ∧
    ∃ e, (UdcServerImpl.updateClientConnectionStatus time order s).2 = some e ∧
      e.eventType = .connectionLost ∧ e.endPointId = c.id

section Clock

variable {s : UdcServerImpl} {op : Op} {ops ops' : List Op} {t : Milliseconds} {x : Handling}

theorem clocked_append : Clocked (ops ++ ops') ↔ Clocked ops ∧ Clocked ops' ∧
    ∀ t ∈ ops.filterMap Op.time?, ∀ t' ∈ ops'.filterMap Op.time?, t ≤ t' := by
  rw [Clocked, List.filterMap_append, List.pairwise_append]
  rfl

theorem time_of_hears (h : op.Hears t x s) : op = .receiveMessages t := by
  cases op with
  | receiveMessages time =>
      obtain ⟨y, -, heq⟩ := List.mem_map.mp h
      rw [(Prod.mk.inj heq).1]
  | _ => cases h

theorem mem_times (h : op ∈ ops) (htime : op.time? = some t) : t ∈ ops.filterMap Op.time? :=
  List.mem_filterMap.mpr ⟨op, h, htime⟩

theorem time_of_once (h : Once next (Op.Hears t x) s ops) : t ∈ ops.filterMap Op.time? := by
  obtain ⟨before, op, after, rfl, hop⟩ := h
  exact mem_times (List.mem_append_right _ List.mem_cons_self) (by rw [time_of_hears hop]; rfl)

theorem refreshes_of_hears {r : ClientRef} (h : op.Hears t x s) (hrefresh : Refreshes t x r) :
    op.Refreshes r s := ⟨(t, x), h, hrefresh⟩

end Clock

/-! ### The last reception -/

section Reception

variable {s : UdcServerImpl} {op : Op} {ops after : List Op} {c : Creation}
  {time : Milliseconds} {order : List UdcEndPointId}

theorem needsLost_iff (h : Made c.ref c.settings s) :
    ((s.heap c.ref).sendReliable time).1.needsConnectionLostEvent time = true ↔
      (s.heap c.ref).isConnected = true ∧
        tenth c.timeout ≤ time - (s.heap c.ref).lastReceivedTime := by
  have hperiod : (s.heap c.ref).connectionLostPeriod = tenth c.timeout :=
    congrArg Settings.connectionLostPeriod h.settings
  obtain ⟨state, sent, heq⟩ := sendReliable_only (s.heap c.ref) time
  rw [heq, ← hperiod, UdcClient.needsConnectionLostEvent, Bool.and_eq_true, decide_eq_true_iff]

theorem loses_of_any (hlookup : s.clientsById.lookup c.id = some c.ref)
    (hevent : ((UdcServerImpl.updateClientConnectionStatus time order s).2.any
      fun e => e.eventType = .connectionLost ∧ e.endPointId = c.id) = true) :
    Loses c s time order := by
  refine ⟨hlookup, ?_⟩
  cases he : (UdcServerImpl.updateClientConnectionStatus time order s).2 with
  | none =>
      rw [he] at hevent
      cases hevent
  | some e =>
      rw [he] at hevent
      exact ⟨e, rfl, of_decide_eq_true hevent⟩

/-- The client that is lost has had its turn, and is connected but silent for a tenth. -/
theorem loses_client (hroot : Rooted s.protocol) (hmade : Made c.ref c.settings s)
    (hadm : (Op.updateClientConnectionStatus time order).Admissible s)
    (h : Loses c s time order) :
    (Op.updateClientConnectionStatus time order).Visits c.ref s ∧
      (s.heap c.ref).isConnected = true ∧
        tenth c.timeout ≤ time - (s.heap c.ref).lastReceivedTime := by
  obtain ⟨hlookup, e, he, -, hid⟩ := h
  obtain ⟨-, r, hfound, hvisits, hlost⟩ := (ticked order s hroot hadm.1).lost e he
  rw [hid, hlookup] at hfound
  obtain rfl := Option.some.inj hfound
  exact ⟨hvisits, (needsLost_iff hmade).mp hlost⟩

/-- What is known of the last reception after a run that began with the connect call. -/
structure LastHeard (c : Creation) (s₁ : UdcServerImpl) (ops : List Op) : Prop where
  connected : ((runState s₁ ops).heap c.ref).isConnected = true →
    c.time ≤ ((runState s₁ ops).heap c.ref).lastReceivedTime
  latest : ∀ t x, Once next (Op.Hears t x) s₁ ops → Refreshes t x c.ref →
    t ≤ ((runState s₁ ops).heap c.ref).lastReceivedTime

theorem isConnected_turned (k : UdcClient) (time : Milliseconds)
    (h : (k.turned time).isConnected = true) : k.isConnected = true := by
  unfold UdcClient.turned at h
  obtain ⟨state, sent, heq⟩ := sendReliable_only k time
  rw [heq] at h
  split at h
  · cases h
  · exact h

theorem runState_snoc (s : UdcServerImpl) (ops : List Op) (op : Op) :
    runState s (ops ++ [op]) = next (runState s ops) op := by
  rw [runState, List.foldl_append]
  rfl

theorem lastHeard_step {s₁ : UdcServerImpl} (h : LastHeard c s₁ ops)
    (hroot : Rooted (runState s₁ ops).protocol) (hmade : Made c.ref c.settings (runState s₁ ops))
    (hadm : op.Admissible (runState s₁ ops))
    (hclock : ∀ t ∈ op.time?, c.time ≤ t ∧ ∀ t' ∈ ops.filterMap Op.time?, t' ≤ t) :
    LastHeard c s₁ (ops ++ [op]) := by
  by_cases hrefresh : op.Refreshes c.ref (runState s₁ ops)
  · -- the client has been heard from now, and the clock has not gone back
    obtain ⟨time, rfl, hheard⟩ := refreshed_step hrefresh
    obtain ⟨hcreated, hearlier⟩ := hclock time rfl
    rw [← next, ← runState_snoc] at hheard
    refine ⟨?_, ?_⟩
    · rw [hheard.lastReceivedTime]
      exact fun _ => hcreated
    · intro t x hhears _
      rw [hheard.lastReceivedTime]
      rcases once_snoc.mp hhears with hbefore | hnow
      · exact hearlier t (time_of_once hbefore)
      · have htime := Op.receiveMessages.inj (time_of_hears hnow)
        exact le_of_eq htime.symm
  · -- nothing was heard from the client, and its times are what they were
    have hkept : ((runState s₁ (ops ++ [op])).heap c.ref).lastReceivedTime
          = ((runState s₁ ops).heap c.ref).lastReceivedTime ∧
        (((runState s₁ (ops ++ [op])).heap c.ref).isConnected = true →
          ((runState s₁ ops).heap c.ref).isConnected = true) := by
      rw [runState_snoc, next]
      by_cases hvisits : op.Visits c.ref (runState s₁ ops)
      · obtain ⟨time, order, rfl, hturned⟩ := turned_step hroot hadm hvisits
        rw [hturned]
        obtain ⟨state, sent, connected, heq⟩ :=
          turned_only ((runState s₁ ops).heap c.ref) time
        refine ⟨?_, isConnected_turned _ _⟩
        rw [heq]
      · have hrests := rests_step hroot hadm hmade.lt hvisits hrefresh
        refine ⟨hrests.lastReceivedTime, ?_⟩
        rw [hrests.isConnected]
        exact id
    refine ⟨?_, ?_⟩
    · intro hconn
      rw [hkept.1]
      exact h.connected (hkept.2 hconn)
    · intro t x hhears hx
      rw [hkept.1]
      rcases once_snoc.mp hhears with hbefore | hnow
      · exact h.latest t x hbefore hx
      · exact absurd (refreshes_of_hears hnow hx) hrefresh

/-- The clock never goes back, and starts from the connect call. -/
def ClockedFrom (t₀ : Milliseconds) (ops : List Op) : Prop :=
  Clocked ops ∧ ∀ t ∈ ops.filterMap Op.time?, t₀ ≤ t

theorem clockedFrom_snoc {t₀ : Milliseconds} (h : ClockedFrom t₀ (ops ++ [op])) :
    ClockedFrom t₀ ops ∧
      ∀ t ∈ op.time?, t₀ ≤ t ∧ ∀ t' ∈ ops.filterMap Op.time?, t' ≤ t := by
  obtain ⟨hclocked, hfrom⟩ := h
  obtain ⟨hearlier, -, hlast⟩ := clocked_append.mp hclocked
  rw [List.filterMap_append] at hfrom
  refine ⟨⟨hearlier, fun t ht => hfrom t (List.mem_append_left _ ht)⟩, ?_⟩
  intro t ht
  have hmem : t ∈ [op].filterMap Op.time? := mem_times List.mem_cons_self ht
  exact ⟨hfrom t (List.mem_append_right _ hmem), fun t' ht' => hlast t' ht' t hmem⟩

theorem lastHeard_run {s₁ : UdcServerImpl} (hroot : Rooted s₁.protocol) (hbegun : Begun c s₁)
    (ops : List Op) (hadm : Throughout (fun s op => op.Admissible s) s₁ ops)
    (hclock : ClockedFrom c.time ops) : LastHeard c s₁ ops := by
  induction ops using List.reverseRecOn with
  | nil =>
      refine ⟨?_, ?_⟩
      · intro hconn
        rw [show runState s₁ [] = s₁ from rfl, hbegun.waits] at hconn
        cases hconn
      · intro t x hhears
        exact absurd hhears once_nil
  | append_singleton ops op ih =>
      obtain ⟨hrun, hlast, -⟩ := (throughout_append ops [op] s₁).mp hadm
      obtain ⟨hearlier, hnow⟩ := clockedFrom_snoc hclock
      exact lastHeard_step (ih hrun hearlier) (rooted_run hrun hroot)
        (made_run hrun hbegun.made) hlast hnow

theorem Course.time_call (w : Course) : w.call.time? = some w.client.time := by
  obtain ⟨-, -, hargs⟩ := w.creates
  cases hcall : w.call with
  | tryConnectIPv4 ip port timeout currentTime =>
      rw [hcall] at hargs
      exact congrArg some hargs.2.2.symm
  | tryConnectIPv6 ip port timeout currentTime =>
      rw [hcall] at hargs
      exact congrArg some hargs.2.2.symm
  | _ =>
      rw [hcall] at hargs
      exact absurd hargs id

theorem clockedFrom_after (w : Course) (h : Clocked w.ops) :
    ClockedFrom w.client.time w.after := by
  have hafter : Clocked (w.call :: w.after) := (clocked_append.mp h).2.1
  rw [← List.singleton_append] at hafter
  obtain ⟨-, hclocked, hlater⟩ := clocked_append.mp hafter
  exact ⟨hclocked, hlater _ (mem_times List.mem_cons_self w.time_call)⟩

/-- Nothing heard in the run before the connect call or at it is younger than the client. -/
theorem hears_before (w : Course) (hclock : Clocked w.ops) {t : Milliseconds} {x : Handling}
    (h : Once next (Op.Hears t x) w.start w.ops) :
    t ≤ w.client.time ∨ Once next (Op.Hears t x) w.created w.after := by
  rw [Course.ops] at h hclock
  rcases once_append.mp h with hbefore | hafter
  · left
    obtain ⟨-, -, hlater⟩ := clocked_append.mp hclock
    exact hlater t (time_of_once hbefore) _ (mem_times List.mem_cons_self w.time_call)
  · rcases once_cons.mp hafter with hcall | hafter
    · have hreceive := time_of_hears hcall
      obtain ⟨-, -, hargs⟩ := w.creates
      rw [hreceive] at hargs
      exact absurd hargs id
    · exact Or.inr hafter

/-- Nothing was heard from the endpoint's address in the last timeout before `time`. -/
def Course.Silent (w : Course) (time : Milliseconds) : Prop :=
  ∀ t x, Once next (Op.Hears t x) w.start w.ops → x.address = w.client.address →
    w.client.timeout ≤ time - t

/--
**A connection is lost only after its whole timeout of silence, if no tick falls between a
tenth of the timeout and the whole of it after the last reception, and if whatever is
heard from the endpoint's address in that time refreshes the endpoint.**
-/
theorem lost_after_silence (w : Course)
    (hadm : (Op.updateClientConnectionStatus time order).Admissible w.now)
    (hclock : Clocked (w.ops ++ [.updateClientConnectionStatus time order]))
    (hlost : Loses w.client w.now time order)
    (hgap : ¬ (tenth w.client.timeout ≤ time - (w.now.heap w.client.ref).lastReceivedTime ∧
      time - (w.now.heap w.client.ref).lastReceivedTime < w.client.timeout))
    (hrefresh : ∀ t x, Once next (Op.Hears t x) w.created w.after →
      x.address = w.client.address → time - t < w.client.timeout → Refreshes t x w.client.ref) :
    w.Silent time := by
  obtain ⟨hran, -, -⟩ := clocked_append.mp hclock
  obtain ⟨-, hconn, htenth⟩ := loses_client w.rooted w.made hadm hlost
  have hlong : w.client.timeout ≤ time - (w.now.heap w.client.ref).lastReceivedTime := by
    by_contra hless
    exact hgap ⟨htenth, not_le.mp hless⟩
  have hheard := lastHeard_run w.rooted_created w.begun w.after w.admissible_after
    (clockedFrom_after w hran)
  have hcreated := hheard.connected
  have hlatest := hheard.latest
  rw [← w.now_eq] at hcreated hlatest
  intro t x hhears haddress
  by_contra hless
  -- then what was heard has refreshed the client, or is older than the client
  have hbefore : t ≤ (w.now.heap w.client.ref).lastReceivedTime := by
    rcases hears_before w hran hhears with hold | hafter
    · exact le_trans hold (hcreated hconn)
    · exact hlatest t x hafter (hrefresh t x hafter haddress (not_le.mp hless))
  exact hless (le_trans hlong (sub_le_sub_left hbefore time))

/-- The endpoint answers, and nothing is heard from it afterwards. -/
def heardOps : List Op :=
  [.arriveIPv4 0 (.datagram ⟨exampleIP 2, 2, [1, 2, 3, 4, 1, 1, 0, 0, 0], default⟩),
    .receiveMessages (exampleTime + 10)]

theorem admissible_heard : Throughout (fun s op => op.Admissible s) exampleServer
    (exampleBound ++ exampleConnect :: heardOps) := by
  decide +kernel

def heardCourse : Course := exampleCourse heardOps admissible_heard

theorem clocked_heard {t : Milliseconds} (h : exampleTime + 10 ≤ t) :
    Clocked (heardCourse.ops ++ [.updateClientConnectionStatus t [1]]) := by
  refine clocked_append.mpr ⟨by unfold Clocked; decide +kernel, List.pairwise_singleton _ _, ?_⟩
  intro t' ht' t'' ht''
  obtain rfl := List.mem_singleton.mp ht''
  have hle : ∀ t' ∈ heardCourse.ops.filterMap Op.time?, t' ≤ exampleTime + 10 := by
    decide +kernel
  exact le_trans (hle t' ht') h

theorem lost_after_silence_second : heardCourse.Silent (exampleTime + 1010) := by
  refine lost_after_silence heardCourse (by decide +kernel) (clocked_heard (by decide))
    (loses_of_any (by decide +kernel) (by decide +kernel)) (by decide +kernel) ?_
  intro t x hhears _ hless
  obtain rfl := List.mem_singleton.mp (time_of_once hhears)
  exact absurd hless (by decide)

/-- The handshake has come a tenth of the timeout ago. -/
theorem lost_after_a_tenth : ¬ ∀ (w : Course) (time : Milliseconds) (order : List UdcEndPointId),
    (Op.updateClientConnectionStatus time order).Admissible w.now →
      Clocked (w.ops ++ [.updateClientConnectionStatus time order]) →
        Loses w.client w.now time order → w.Silent time := by
  intro h
  have hheard : ∃ x ∈ (Op.receiveMessages (exampleTime + 10)).handles
      (runState exampleServer (heardCourse.ops.take 3)),
        x.1 = exampleTime + 10 ∧ x.2.address = exampleCreation.address := by
    decide +kernel
  obtain ⟨⟨t, x⟩, hmem, rfl, haddress⟩ := hheard
  have hsilent := h heardCourse (exampleTime + 110) [1] (by decide +kernel)
    (clocked_heard (by decide)) (loses_of_any (by decide +kernel) (by decide +kernel)) _ x
    ⟨heardCourse.ops.take 3, _, [], rfl, hmem⟩ haddress
  exact absurd hsilent (by decide)

end Reception

/-! ### Probes -/

/-- An empty queue has no message in flight. -/
def UdcClient.Settled (c : UdcClient) : Prop := c.reliableMessages = [] → c.reliableSentTime = 0

section Probes

variable {s s₁ : UdcServerImpl} {op : Op} {ops : List Op} {r : ClientRef} {k : UdcClient}
  {time : Milliseconds} {order : List UdcEndPointId}

/-- When the turn sends no reliable message, there is none, or it is time to start over. -/
theorem sendReliable_nil_iff : (k.sendReliable time).2 = [] ↔
    k.reliableMessages = [] ∨ (k.reliableState ≠ -1 ∧ k.needsReliableReset time = true) := by
  unfold UdcClient.sendReliable
  split
  · rename_i hqueue
    exact iff_of_true rfl (Or.inl hqueue)
  · rename_i msg rest hqueue
    have hne : k.reliableMessages ≠ [] := by
      rw [hqueue]
      exact List.cons_ne_nil _ _
    split
    · rename_i hreset
      simp [hne, hreset]
    · rename_i hreset
      split
      · rename_i hneeds
        exact iff_of_true rfl (Or.inr ⟨hreset, hneeds⟩)
      · rename_i hneeds
        simp [hne, hneeds]

theorem reliableMessages_turned (k : UdcClient) (time : Milliseconds) :
    (k.turned time).reliableMessages = k.reliableMessages ∧
      (k.turned time).pingLastSetTime = k.pingLastSetTime := by
  obtain ⟨state, sent, connected, h⟩ := turned_only k time
  rw [h]
  exact ⟨rfl, rfl⟩

/-- A turn that sends no reliable message leaves none in flight. -/
theorem unsent_turned (hsettled : k.Settled) (hnone : (k.sendReliable time).2 = []) :
    (k.turned time).reliableSentTime = 0 := by
  have hsent : (k.sendReliable time).1.reliableSentTime = 0 := by
    unfold UdcClient.sendReliable at hnone ⊢
    split
    · rename_i hqueue
      exact hsettled hqueue
    · rename_i msg rest hqueue
      rw [hqueue] at hnone
      by_cases hreset : k.reliableState = -1
      · simp only [if_pos hreset] at hnone
        cases hnone
      · by_cases hneeds : k.needsReliableReset time
        · simp only [if_neg hreset, if_pos hneeds]
          rfl
        · simp only [if_neg hreset, if_neg hneeds] at hnone
          cases hnone
  unfold UdcClient.turned
  split
  · exact hsent
  · exact hsent

theorem settled_step {p : Protocol} {change : Change} (h : p.ClientStep r change k)
    (hsettled : (p.heap r).Settled) : k.Settled := by
  cases h with
  | same => exact hsettled
  | push => exact fun hnone => absurd hnone (List.append_ne_nil_of_right_ne_nil _ (by simp))
  | retry hfront hearly hdue => exact hsettled
  | turn hlookup =>
      intro hnone
      rw [(reliableMessages_turned _ _).1] at hnone
      exact unsent_turned hsettled (sendReliable_nil_iff.mpr (Or.inl hnone))
  | handshake h =>
      rw [receiveConnectionHandshake_eq]
      exact hsettled
  | pong h =>
      rw [receivePong_eq]
      exact hsettled
  | @reliableHandshake _ _ kind _ h =>
      rw [receivePong_eq]
      show ((p.heap r).acceptHandshake (stateOf kind)).Settled
      unfold UdcClient.acceptHandshake
      split
      · exact fun _ => rfl
      · exact hsettled

theorem settled_stage {s' : UdcServerImpl} (h : r < s.nextRef ∧ (s.heap r).Settled)
    (hstage : Stage op s s') : r < s'.nextRef ∧ (s'.heap r).Settled := by
  rcases hstage.state with hsame | ⟨c, hstate, -⟩
  · have hheap : s'.heap = s.heap := congrArg Protocol.heap hsame
    have hnext : s'.nextRef = s.nextRef := congrArg Protocol.nextRef hsame
    rw [hheap, hnext]
    exact h
  · have hheap : s'.heap = _ := congrArg Protocol.heap hstate
    have hnext : s'.nextRef = _ := congrArg Protocol.nextRef hstate
    rw [hheap, hnext]
    exact ⟨Nat.lt_of_lt_of_le h.1 (nextRef_change s.protocol _),
      settled_step (client_step (p := s.protocol) c fun _ => h.1) h.2⟩

/-- In its turn a client is sent something exactly if a ping or a reliable message is due. -/
theorem op_probes_iff (hroot : Rooted s.protocol)
    (hadm : (Op.updateClientConnectionStatus time order).Admissible s)
    (hvisits : (Op.updateClientConnectionStatus time order).Visits r s) :
    (Op.updateClientConnectionStatus time order).Probes r s ↔
      (s.heap r).needsPing time = true ∨ ((s.heap r).sendReliable time).2 ≠ [] := by
  have hticked : Ticked time order s := ticked order s hroot hadm.1
  constructor
  · rintro ⟨t, ht, hprobes⟩
    rw [← (hticked.found _ ht).1]
    exact probes_iff.mp hprobes
  · intro hdue
    obtain ⟨t, ht⟩ := hvisits
    rw [← (hticked.found _ ht).1] at hdue
    exact ⟨t, ht, probes_iff.mpr hdue⟩

theorem visits_of_probes (h : op.Probes r s) : op.Visits r s := by
  cases op with
  | updateClientConnectionStatus time order =>
      obtain ⟨t, ht, -⟩ := h
      exact ⟨t, ht⟩
  | _ => exact absurd h id

theorem not_refreshes_of_visits (h : op.Visits r s) : ¬ op.Refreshes r s := by
  rintro ⟨x, hx, -⟩
  cases op with
  | updateClientConnectionStatus time order => cases hx
  | _ => exact absurd h id

theorem needsPing_congr {k' : UdcClient} (hsettings : k'.settings = k.settings)
    (hset : k'.pingLastSetTime = k.pingLastSetTime) (time : Milliseconds) :
    k'.needsPing time = k.needsPing time := by
  have hperiod : k'.pingPeriod = k.pingPeriod := congrArg Settings.pingPeriod hsettings
  rw [UdcClient.needsPing, UdcClient.needsPing, hperiod, hset]

theorem needsPing_mono {t : Milliseconds} (h : t ≤ time) (hneeds : k.needsPing t = true) :
    k.needsPing time = true := by
  rw [UdcClient.needsPing, decide_eq_true_iff] at hneeds ⊢
  exact le_trans hneeds (sub_le_sub_right h _)

/-- What is known of the turns since the client was refreshed last. -/
structure Watched (r : ClientRef) (s₁ : UdcServerImpl) (ops : List Op) : Prop where
  turned : Since next (Op.Visits r) (Op.Refreshes r) s₁ ops →
    Since next (Op.Probes r) (Op.Refreshes r) s₁ ops ∨
      ((runState s₁ ops).heap r).reliableSentTime = 0
  probed : Since next (Op.Probes r) (Op.Refreshes r) s₁ ops →
    ((runState s₁ ops).heap r).reliableMessages ≠ [] ∨
      ∃ t ∈ ops.filterMap Op.time?, ((runState s₁ ops).heap r).needsPing t = true

theorem watched_refreshed (hrefresh : op.Refreshes r (runState s₁ ops)) :
    Watched r s₁ (ops ++ [op]) := by
  have hno : ∀ A : UdcServerImpl → Op → Prop, (∀ t o, A t o → o.Visits r t) →
      ¬ Since next A (Op.Refreshes r) s₁ (ops ++ [op]) := by
    intro A hA hsince
    rcases since_snoc.mp hsince with hnow | ⟨hnot, -⟩
    · exact not_refreshes_of_visits (hA _ _ hnow) hrefresh
    · exact hnot hrefresh
  exact ⟨fun h => absurd h (hno _ fun _ _ h => h),
    fun h => absurd h (hno _ fun _ _ h => visits_of_probes h)⟩

theorem watched_visited (h : Watched r s₁ ops) (hroot : Rooted (runState s₁ ops).protocol)
    (hadm : op.Admissible (runState s₁ ops)) (hsettled : ((runState s₁ ops).heap r).Settled)
    (hvisits : op.Visits r (runState s₁ ops)) : Watched r s₁ (ops ++ [op]) := by
  have hquiet := not_refreshes_of_visits hvisits
  obtain ⟨time, order, rfl, hturned⟩ := turned_step hroot hadm hvisits
  have hprobes := op_probes_iff hroot hadm hvisits
  obtain ⟨hqueue, hset⟩ := reliableMessages_turned ((runState s₁ ops).heap r) time
  have hping := needsPing_congr (settings_turned ((runState s₁ ops).heap r) time) hset
  refine ⟨?_, ?_⟩
  · intro _
    rw [runState_snoc, next, hturned, since_snoc]
    by_cases hnone : (((runState s₁ ops).heap r).sendReliable time).2 = []
    · exact Or.inr (unsent_turned hsettled hnone)
    · exact Or.inl (Or.inl (hprobes.mpr (Or.inr hnone)))
  · intro hsince
    rw [runState_snoc, next, hturned, hqueue]
    rcases since_snoc.mp hsince with hnow | ⟨-, hbefore⟩
    · rcases hprobes.mp hnow with hneeds | hsends
      · refine Or.inr ⟨time, mem_times (List.mem_append_right _ List.mem_cons_self) rfl, ?_⟩
        rw [hping]
        exact hneeds
      · exact Or.inl fun hnone => hsends (sendReliable_nil_iff.mpr (Or.inl hnone))
    · rcases h.probed hbefore with hqueued | ⟨t, ht, hneeds⟩
      · exact Or.inl hqueued
      · refine Or.inr ⟨t, ?_, by rw [hping]; exact hneeds⟩
        rw [List.filterMap_append]
        exact List.mem_append_left _ ht

theorem watched_rested (h : Watched r s₁ ops)
    (hvisits : ¬ op.Visits r (runState s₁ ops)) (hquiet : ¬ op.Refreshes r (runState s₁ ops))
    (hrests : Rests ((runState s₁ ops).heap r) ((runState s₁ (ops ++ [op])).heap r)) :
    Watched r s₁ (ops ++ [op]) := by
  refine ⟨?_, ?_⟩
  · intro hsince
    rcases since_snoc.mp hsince with hnow | ⟨-, hbefore⟩
    · exact absurd hnow hvisits
    · rcases h.turned hbefore with hprobed | hsent
      · exact Or.inl (since_snoc.mpr (Or.inr ⟨hquiet, hprobed⟩))
      · exact Or.inr (hrests.reliableSentTime.trans hsent)
  · intro hsince
    rcases since_snoc.mp hsince with hnow | ⟨-, hbefore⟩
    · exact absurd (visits_of_probes hnow) hvisits
    · rcases h.probed hbefore with hqueued | ⟨t, ht, hneeds⟩
      · left
        intro hnone
        have hprefix := hrests.reliableMessages
        rw [hnone] at hprefix
        exact hqueued (List.prefix_nil.mp hprefix)
      · refine Or.inr ⟨t, ?_, ?_⟩
        · rw [List.filterMap_append]
          exact List.mem_append_left _ ht
        · rw [needsPing_congr hrests.settings hrests.pingLastSetTime]
          exact hneeds

theorem watched_run {c : Creation} (hroot : Rooted s₁.protocol) (hbegun : Begun c s₁)
    (ops : List Op) (hadm : Throughout (fun s op => op.Admissible s) s₁ ops) :
    Watched c.ref s₁ ops := by
  induction ops using List.reverseRecOn with
  | nil => exact ⟨fun h => absurd h since_nil, fun h => absurd h since_nil⟩
  | append_singleton ops op ih =>
      obtain ⟨hrun, hlast, -⟩ := (throughout_append ops [op] s₁).mp hadm
      have hroot' := rooted_run hrun hroot
      have hwatched := ih hrun
      have hsettled := run_stages (fun _ _ _ h hstage => settled_stage h hstage) ops s₁ hrun
        ⟨hbegun.made.lt, fun _ => hbegun.unsent⟩
      by_cases hrefresh : op.Refreshes c.ref (runState s₁ ops)
      · exact watched_refreshed hrefresh
      · by_cases hvisits : op.Visits c.ref (runState s₁ ops)
        · exact watched_visited hwatched hroot' hlast hsettled.2 hvisits
        · refine watched_rested hwatched hvisits hrefresh ?_
          rw [runState_snoc]
          exact rests_step hroot' hlast hsettled.1 hvisits hrefresh

/-- What is due when a client that has its turn has been probed since it was last heard from. -/
theorem due_of_probed (w : Course)
    (hadm : (Op.updateClientConnectionStatus time order).Admissible w.now)
    (hclock : Clocked (w.ops ++ [.updateClientConnectionStatus time order]))
    (hvisits : (Op.updateClientConnectionStatus time order).Visits w.client.ref w.now)
    (h : Since next (Op.Probes w.client.ref) (Op.Refreshes w.client.ref) w.created
      (w.after ++ [.updateClientConnectionStatus time order])) :
    (w.now.heap w.client.ref).needsPing time = true ∨
      (w.now.heap w.client.ref).reliableMessages ≠ [] ∧
        ((w.now.heap w.client.ref).reliableState = -1 ∨
          (w.now.heap w.client.ref).needsReliableReset time = false ∨
            Since next (Op.Visits w.client.ref) (Op.Refreshes w.client.ref) w.created
              w.after) := by
  have hprobed := (watched_run w.rooted_created w.begun w.after w.admissible_after).probed
  rw [← w.now_eq] at hprobed
  have hnow : w.after.foldl next w.created = w.now := w.now_eq.symm
  rw [since_snoc, hnow, op_probes_iff w.rooted hadm hvisits] at h
  rcases h with (hping | hsends) | ⟨-, hbefore⟩
  · exact Or.inl hping
  · -- a reliable message is sent now
    rw [Ne, sendReliable_nil_iff, not_or, not_and_or, not_not] at hsends
    exact Or.inr ⟨hsends.1, hsends.2.imp_right fun h => Or.inl (Bool.eq_false_iff.mpr h)⟩
  · rcases hprobed hbefore with hqueued | ⟨t, ht, hneeds⟩
    · have hturn : Since next (Op.Visits w.client.ref) (Op.Refreshes w.client.ref) w.created
          w.after := hbefore.mono fun _ _ h => visits_of_probes h
      exact Or.inr ⟨hqueued, Or.inr (Or.inr hturn)⟩
    · -- a ping that was due then is due now
      have hlater := (clocked_append.mp hclock).2.2
      refine Or.inl (needsPing_mono (hlater t ?_ time (mem_times List.mem_cons_self rfl)) hneeds)
      obtain ⟨op, hop, htime⟩ := List.mem_filterMap.mp ht
      exact mem_times (List.mem_append_right _ (List.mem_cons_of_mem _ hop)) htime

theorem probed_of_due (w : Course)
    (hadm : (Op.updateClientConnectionStatus time order).Admissible w.now)
    (hvisits : (Op.updateClientConnectionStatus time order).Visits w.client.ref w.now)
    (h : (w.now.heap w.client.ref).needsPing time = true ∨
      (w.now.heap w.client.ref).reliableMessages ≠ [] ∧
        ((w.now.heap w.client.ref).reliableState = -1 ∨
          (w.now.heap w.client.ref).needsReliableReset time = false ∨
            Since next (Op.Visits w.client.ref) (Op.Refreshes w.client.ref) w.created
              w.after)) :
    Since next (Op.Probes w.client.ref) (Op.Refreshes w.client.ref) w.created
      (w.after ++ [.updateClientConnectionStatus time order]) := by
  have hturned := (watched_run w.rooted_created w.begun w.after w.admissible_after).turned
  rw [← w.now_eq] at hturned
  have hnow : w.after.foldl next w.created = w.now := w.now_eq.symm
  rw [since_snoc, hnow, op_probes_iff w.rooted hadm hvisits]
  rcases h with hping | ⟨hqueued, hreset⟩
  · exact Or.inl (Or.inl hping)
  · by_cases hsends : ((w.now.heap w.client.ref).sendReliable time).2 = []
    · -- it is time to start over, so the message in front has been sent before
      obtain ⟨hstate, hneeds⟩ := (sendReliable_nil_iff.mp hsends).resolve_left hqueued
      rw [hneeds] at hreset
      have hturn := (hreset.resolve_left hstate).resolve_left Bool.noConfusion
      refine Or.inr ⟨not_refreshes_of_visits hvisits, (hturned hturn).resolve_right ?_⟩
      intro hsent
      rw [UdcClient.needsReliableReset, if_pos hsent] at hneeds
      cases hneeds
    · exact Or.inl (Or.inr hsends)

/--
**A client is lost with a probe behind it exactly if its ping is due, or if a reliable
message is sent to it in this turn or was in an earlier one.**
-/
theorem probed_before_lost_iff (w : Course)
    (hadm : (Op.updateClientConnectionStatus time order).Admissible w.now)
    (hclock : Clocked (w.ops ++ [.updateClientConnectionStatus time order]))
    (hlost : Loses w.client w.now time order) :
    Since next (Op.Probes w.client.ref) (Op.Refreshes w.client.ref) w.created
        (w.after ++ [.updateClientConnectionStatus time order]) ↔
      (w.now.heap w.client.ref).needsPing time = true ∨
        (w.now.heap w.client.ref).reliableMessages ≠ [] ∧
          ((w.now.heap w.client.ref).reliableState = -1 ∨
            (w.now.heap w.client.ref).needsReliableReset time = false ∨
              Since next (Op.Visits w.client.ref) (Op.Refreshes w.client.ref) w.created
                w.after) := by
  obtain ⟨hvisits, -, -⟩ := loses_client w.rooted w.made hadm hlost
  exact ⟨due_of_probed w hadm hclock hvisits, probed_of_due w hadm hvisits⟩

/-- The endpoint answers, its ping is answered, and nothing is heard from it afterwards. -/
def answeredOps : List Op :=
  [.arriveIPv4 0 (.datagram ⟨exampleIP 2, 2, [1, 2, 3, 4, 1, 1, 0, 0, 0], default⟩),
    .receiveMessages (exampleTime + 10),
    .updateClientConnectionStatus (exampleTime + 11) [1],
    .arriveIPv4 0 (.datagram ⟨exampleIP 2, 2, [1, 2, 3, 4, 3, 11, 0, 0, 0], default⟩),
    .receiveMessages (exampleTime + 12)]

theorem admissible_answered : Throughout (fun s op => op.Admissible s) exampleServer
    (exampleBound ++ exampleConnect :: answeredOps) := by
  decide +kernel

def answeredCourse : Course := exampleCourse answeredOps admissible_answered

theorem loses_answered : Loses exampleCreation answeredCourse.now (exampleTime + 112) [1] :=
  loses_of_any (by decide +kernel) (by decide +kernel)

/-- The pong has just come, and the ping period is ten times the period of the lost event. -/
theorem lost_without_probe : ¬ ∀ (w : Course) (time : Milliseconds) (order : List UdcEndPointId),
    (Op.updateClientConnectionStatus time order).Admissible w.now →
      Clocked (w.ops ++ [.updateClientConnectionStatus time order]) →
        Loses w.client w.now time order →
          Since next (Op.Probes w.client.ref) (Op.Refreshes w.client.ref) w.created
            (w.after ++ [.updateClientConnectionStatus time order]) := by
  intro h
  have hadm : (Op.updateClientConnectionStatus (exampleTime + 112) [1]).Admissible
      answeredCourse.now := by decide +kernel
  have hclock : Clocked (answeredCourse.ops ++
      [.updateClientConnectionStatus (exampleTime + 112) [1]]) := by
    unfold Clocked
    decide +kernel
  have hsince := h answeredCourse (exampleTime + 112) [1] hadm hclock loses_answered
  obtain ⟨hvisits, -, -⟩ := loses_client answeredCourse.rooted answeredCourse.made hadm
    loses_answered
  rcases due_of_probed answeredCourse hadm hclock hvisits hsince with hping | ⟨hqueued, -⟩
  · revert hping
    decide +kernel
  · revert hqueued
    decide +kernel

theorem probed_before_lost_ping :
    Since next (Op.Probes exampleCreation.ref) (Op.Refreshes exampleCreation.ref)
      heardCourse.created (heardOps ++ [.updateClientConnectionStatus (exampleTime + 110) [1]]) :=
  have hlost : Loses exampleCreation heardCourse.now (exampleTime + 110) [1] :=
    loses_of_any (by decide +kernel) (by decide +kernel)
  (probed_before_lost_iff heardCourse (by decide +kernel) (clocked_heard (by decide)) hlost).mpr
    (Or.inl (by decide +kernel))

end Probes

end UdpConnect
