/-
A `receive` over all sockets, as far as lengths go.

`receive` asks every socket once, the IPv6 sockets first, until one returns a datagram.
Which one does, what length each is asked for and what stays behind depends on nothing
but the lengths of what is queued, and on what becomes of it at a negative length.
`scan` is `receive` on these, and `receive_scan` says so.

The length is handed from socket to socket by reference, and a datagram that does not
fit overwrites it with what is `-1` to the next `recvfrom`.  From there on no socket
returns anything.  `asked_within_iff` says when this is seen by a socket, and
`scan_clear_iff` when it hides a datagram from the caller.
-/
import UdpConnect.Proofs.Effects

namespace UdpConnect

/-! ### Lengths -/

/-- A datagram, as far as a pass over the sockets goes. -/
structure Parcel where
  length : Nat
  negative : NegativeLength
deriving DecidableEq

/-- What a `recvfrom` call is going to see, if it is a datagram. -/
def Arrival.parcel? {Address : Type} : Arrival Address → Option Parcel
  | .datagram d negative => some ⟨d.bytes.length, negative⟩
  | _ => none

def UdcSocket.queue {Address : Type} (s : UdcSocket Address) : List (Option Parcel) :=
  s.pending.map Arrival.parcel?

/-- The queues of all sockets, in the order in which the sockets are asked. -/
def UdcSocketMux.queues (m : UdcSocketMux) : List (List (Option Parcel)) :=
  m.socketIPv6.map UdcSocket.queue ++ m.socketIPv4.map UdcSocket.queue

/-- What asking one socket leaves: its queue, the size, and whether a datagram was returned. -/
structure Poll where
  queue : List (Option Parcel)
  size : Nat
  found : Bool

/-- Ask a socket for `n` bytes. -/
def poll (n : Nat) : List (Option Parcel) → Poll
  | [] => ⟨[], n, false⟩
  | none :: rest => ⟨rest, n, false⟩
  | some x :: rest =>
      if 2 ^ 31 ≤ n then
        match x.negative with
        | .refused => ⟨some x :: rest, n, false⟩
        | .dropped => ⟨rest, 2 ^ 32 - 1, false⟩
      else if x.length = 0 then ⟨rest, n, false⟩
      else if x.length ≤ n then ⟨rest, x.length, true⟩
      else ⟨rest, 2 ^ 32 - 1, false⟩

/-- What a pass over several sockets leaves, and the lengths it has asked for. -/
structure Scan where
  queues : List (List (Option Parcel))
  size : Nat
  found : Bool
  asked : List Int

/-- Ask one socket after another, until one returns a datagram. -/
def scan (n : Nat) : List (List (Option Parcel)) → Scan
  | [] => ⟨[], n, false, []⟩
  | queue :: rest =>
      let p := poll n queue
      if p.found then ⟨p.queue :: rest, p.size, true, [asInt n]⟩
      else
        let t := scan p.size rest
        ⟨p.queue :: t.queues, t.size, t.found, asInt n :: t.asked⟩

theorem scan_found {n : Nat} {queue : List (Option Parcel)} (rest : List (List (Option Parcel)))
    (h : (poll n queue).found = true) :
    scan n (queue :: rest)
      = ⟨(poll n queue).queue :: rest, (poll n queue).size, true, [asInt n]⟩ := by
  rw [scan, if_pos h]

theorem scan_missed {n : Nat} {queue : List (Option Parcel)}
    (rest : List (List (Option Parcel))) (h : ¬ (poll n queue).found = true) :
    scan n (queue :: rest)
      = ⟨(poll n queue).queue :: (scan (poll n queue).size rest).queues,
          (scan (poll n queue).size rest).size, (scan (poll n queue).size rest).found,
          asInt n :: (scan (poll n queue).size rest).asked⟩ := by
  rw [scan, if_neg h]

/-- Asked for `n` bytes, the socket loses the datagram for being too long. -/
def Parcel.Lost (n : Nat) (x : Parcel) : Prop :=
  if n < 2 ^ 31 then n < x.length else x.negative = .dropped

instance (n : Nat) (x : Parcel) : Decidable (x.Lost n) :=
  inferInstanceAs (Decidable (if n < 2 ^ 31 then n < x.length else x.negative = .dropped))

theorem lost_small {n : Nat} (hn : n < 2 ^ 31) (x : Parcel) : x.Lost n ↔ n < x.length := by
  rw [Parcel.Lost, if_pos hn]

theorem lost_big {n : Nat} (hn : 2 ^ 31 ≤ n) (x : Parcel) :
    x.Lost n ↔ x.negative = .dropped := by
  rw [Parcel.Lost, if_neg (Nat.not_lt.mpr hn)]

/-- What can come of asking the first socket, and how the pass goes on from there. -/
inductive ScanCase (n : Nat) (rest : List (List (Option Parcel))) :
    List (Option Parcel) → Scan → Prop
  | found {x : Parcel} {behind : List (Option Parcel)} (hn : n < 2 ^ 31) (hpos : 0 < x.length)
      (hfits : x.length ≤ n) :
      ScanCase n rest (some x :: behind) ⟨behind :: rest, x.length, true, [asInt n]⟩
  | lost {x : Parcel} {behind : List (Option Parcel)} (hlost : x.Lost n) :
      ScanCase n rest (some x :: behind)
        ⟨behind :: (scan (2 ^ 32 - 1) rest).queues, (scan (2 ^ 32 - 1) rest).size,
          (scan (2 ^ 32 - 1) rest).found, asInt n :: (scan (2 ^ 32 - 1) rest).asked⟩
  | missed {queue left : List (Option Parcel)}
      (hfront : ∀ x, queue.head? = some (some x) → x.length = 0 ∨ 2 ^ 31 ≤ n)
      (hkept : ∀ x, queue.head? = some (some x) → ¬ x.Lost n)
      (hleft : ∀ x, 0 < x.length → (some x ∈ left ↔ some x ∈ queue)) :
      ScanCase n rest queue
        ⟨left :: (scan n rest).queues, (scan n rest).size, (scan n rest).found,
          asInt n :: (scan n rest).asked⟩

theorem scan_cases (n : Nat) (queue : List (Option Parcel)) (rest : List (List (Option Parcel))) :
    ScanCase n rest queue (scan n (queue :: rest)) := by
  unfold scan
  match queue with
  | [] => exact .missed (by simp) (by simp) (by simp [poll])
  | none :: behind => exact .missed (by simp) (by simp) (by simp [poll])
  | some x :: behind =>
      by_cases hbig : 2 ^ 31 ≤ n
      · rw [poll, if_pos hbig]
        cases hneg : x.negative with
        | refused =>
            refine .missed (fun _ _ => Or.inr hbig) (fun x' hx' => ?_) (by simp)
            obtain rfl : x = x' := by simpa using hx'
            rw [lost_big hbig, hneg]
            simp
        | dropped => exact .lost ((lost_big hbig x).mpr hneg)
      · rw [poll, if_neg hbig]
        have hn : n < 2 ^ 31 := Nat.lt_of_not_le hbig
        by_cases hzero : x.length = 0
        · rw [if_pos hzero]
          refine .missed (fun x' hx' => Or.inl ?_) (fun x' hx' => ?_) (fun x' hpos => ?_)
          · obtain rfl : x = x' := by simpa using hx'
            exact hzero
          · obtain rfl : x = x' := by simpa using hx'
            rw [lost_small hn]
            omega
          · have hne : x' ≠ x := fun h => by
              rw [h, hzero] at hpos
              exact absurd hpos (Nat.lt_irrefl 0)
            simp [hne]
        · rw [if_neg hzero]
          by_cases hfits : x.length ≤ n
          · rw [if_pos hfits]
            exact .found hn (Nat.pos_of_ne_zero hzero) hfits
          · rw [if_neg hfits]
            exact .lost ((lost_small hn x).mpr (Nat.lt_of_not_le hfits))

/-! ### What a pass finds, and what it leaves -/

/-- Nothing is queued that could be handed on whole. -/
def Clear (capacity : Nat) (queues : List (List (Option Parcel))) : Prop :=
  ∀ queue ∈ queues, ∀ x, some x ∈ queue → 0 < x.length → capacity < x.length

/-- Some socket has a datagram in front that fits, and no socket before it one that does not. -/
def Reaches (n : Nat) (queues : List (List (Option Parcel))) : Prop :=
  n < 2 ^ 31 ∧ ∃ before x behind after, queues = before ++ (some x :: behind) :: after ∧
    0 < x.length ∧ x.length ≤ n ∧
      ∀ queue ∈ before, ∀ x', queue.head? = some (some x') → x'.length ≤ n

/-- The queue without a front that is dropped for a negative length. -/
def beheaded : List (Option Parcel) → List (Option Parcel)
  | some x :: behind => if x.negative = .dropped then behind else some x :: behind
  | queue => queue

/-- The queues without the front that does not fit, and without those behind it that are
dropped for the `-1` it leaves. -/
def waiting (n : Nat) : List (List (Option Parcel)) → List (List (Option Parcel))
  | [] => []
  | (some x :: behind) :: rest =>
      if x.Lost n then behind :: rest.map beheaded else (some x :: behind) :: waiting n rest
  | queue :: rest => queue :: waiting n rest

/-- A datagram is found, or there is none to be found. -/
def Exposed (n capacity : Nat) (queues : List (List (Option Parcel))) : Prop :=
  Reaches n queues ∨ Clear capacity (waiting n queues)

theorem clear_cons {capacity : Nat} {queue : List (Option Parcel)}
    {rest : List (List (Option Parcel))} : Clear capacity (queue :: rest) ↔
      (∀ x, some x ∈ queue → 0 < x.length → capacity < x.length) ∧ Clear capacity rest :=
  List.forall_mem_cons

theorem clear_congr {capacity : Nat} {queue left : List (Option Parcel)}
    (h : ∀ x, 0 < x.length → (some x ∈ left ↔ some x ∈ queue)) :
    (∀ x, some x ∈ left → 0 < x.length → capacity < x.length) ↔
      ∀ x, some x ∈ queue → 0 < x.length → capacity < x.length := by
  constructor
  · intro hclear x hmem hpos
    exact hclear x ((h x hpos).mpr hmem) hpos
  · intro hclear x hmem hpos
    exact hclear x ((h x hpos).mp hmem) hpos

theorem beheaded_kept {n : Nat} (hn : 2 ^ 31 ≤ n) {queue : List (Option Parcel)}
    (hkept : ∀ x, queue.head? = some (some x) → ¬ x.Lost n) : beheaded queue = queue := by
  match queue with
  | [] => rfl
  | none :: behind => rfl
  | some x :: behind =>
      have hneg := hkept x rfl
      rw [lost_big hn] at hneg
      exact if_neg hneg

theorem waiting_kept {n : Nat} {queue : List (Option Parcel)} (rest : List (List (Option Parcel)))
    (hkept : ∀ x, queue.head? = some (some x) → ¬ x.Lost n) :
    waiting n (queue :: rest) = queue :: waiting n rest := by
  match queue with
  | [] => rfl
  | none :: behind => rfl
  | some x :: behind => exact if_neg (hkept x rfl)

/-- What a pass with a negative length comes to. -/
structure Stuck (queues : List (List (Option Parcel))) (t : Scan) : Prop where
  found : t.found = false
  count : t.asked.length = queues.length
  asked : ∀ len ∈ t.asked, len < 0
  clear : ∀ capacity, Clear capacity t.queues ↔ Clear capacity (queues.map beheaded)

/-- After a truncation no socket returns anything, and each is asked for a negative length. -/
theorem scan_stuck (queues : List (List (Option Parcel))) : ∀ {n : Nat}, 2 ^ 31 ≤ n →
    n < 2 ^ 32 → Stuck queues (scan n queues) := by
  induction queues with
  | nil => exact fun _ _ => ⟨rfl, rfl, by simp [scan], fun _ => Iff.rfl⟩
  | cons queue rest ih =>
      intro n hn hlt
      have hneg := asInt_neg hlt hn
      have hcases := scan_cases n queue rest
      generalize scan n (queue :: rest) = t at hcases
      cases hcases with
      | found hsmall hpos hfits => omega
      | @lost x behind hlost =>
          have h := ih (n := 2 ^ 32 - 1) (by decide) (by decide)
          have hqueue : beheaded (some x :: behind) = behind :=
            if_pos ((lost_big hn x).mp hlost)
          refine ⟨h.found, congrArg Nat.succ h.count, List.forall_mem_cons.mpr ⟨hneg, h.asked⟩,
            fun capacity => ?_⟩
          rw [List.map_cons, hqueue, clear_cons, clear_cons, h.clear]
      | missed hfront hkept hleft =>
          have h := ih hn hlt
          refine ⟨h.found, congrArg Nat.succ h.count, List.forall_mem_cons.mpr ⟨hneg, h.asked⟩,
            fun capacity => ?_⟩
          rw [List.map_cons, beheaded_kept hn hkept, clear_cons, clear_cons, h.clear,
            clear_congr hleft]

/-- **A pass finds a datagram exactly if it reaches one.** -/
theorem scan_found_iff (queues : List (List (Option Parcel))) : ∀ n,
    (scan n queues).found = true ↔ Reaches n queues := by
  induction queues with
  | nil =>
      intro n
      refine iff_of_false Bool.false_ne_true ?_
      rintro ⟨-, before, x, behind, after, hsplit, -⟩
      simp at hsplit
  | cons queue rest ih =>
      intro n
      have hcases := scan_cases n queue rest
      generalize scan n (queue :: rest) = t at hcases ⊢
      cases hcases with
      | @found x behind hn hpos hfits =>
          exact iff_of_true rfl ⟨hn, [], x, behind, rest, rfl, hpos, hfits, by simp⟩
      | @lost x behind hlost =>
          rw [(scan_stuck rest (by decide) (by decide)).found]
          refine iff_of_false Bool.false_ne_true ?_
          rintro ⟨hn, before, x', behind', after, hsplit, hpos, hfits, hbefore⟩
          have hlong := (lost_small hn x).mp hlost
          cases before with
          | nil =>
              simp only [List.nil_append, List.cons.injEq, Option.some.injEq] at hsplit
              obtain ⟨⟨rfl, -⟩, -⟩ := hsplit
              exact absurd hfits (Nat.not_le.mpr hlong)
          | cons q before =>
              obtain ⟨rfl, -⟩ := List.cons.inj hsplit
              have hle := hbefore _ List.mem_cons_self x rfl
              omega
      | missed hfront hkept hleft =>
          rw [ih n]
          constructor
          · rintro ⟨hn, before, x, behind, after, rfl, hpos, hfits, hbefore⟩
            refine ⟨hn, queue :: before, x, behind, after, rfl, hpos, hfits, ?_⟩
            intro q hq x' hx'
            rcases List.mem_cons.mp hq with rfl | hq
            · rcases hfront x' hx' with hzero | hbig
              · omega
              · omega
            · exact hbefore q hq x' hx'
          · rintro ⟨hn, before, x, behind, after, hsplit, hpos, hfits, hbefore⟩
            cases before with
            | nil =>
                obtain ⟨rfl, -⟩ := List.cons.inj hsplit
                rcases hfront x rfl with hzero | hbig
                · omega
                · omega
            | cons q before =>
                obtain ⟨rfl, rfl⟩ := List.cons.inj hsplit
                exact ⟨hn, before, x, behind, after, rfl, hpos, hfits,
                  fun q' hq' => hbefore q' (List.mem_cons_of_mem _ hq')⟩

/-- A pass that finds nothing has taken nothing that could have been handed on. -/
theorem scan_left (capacity : Nat) (queues : List (List (Option Parcel))) : ∀ n,
    (scan n queues).found = false →
      (Clear capacity (scan n queues).queues ↔ Clear capacity (waiting n queues)) := by
  induction queues with
  | nil =>
      intro n _
      exact Iff.rfl
  | cons queue rest ih =>
      intro n
      have hcases := scan_cases n queue rest
      generalize scan n (queue :: rest) = t at hcases ⊢
      cases hcases with
      | found hn hpos hfits =>
          intro hfound
          cases hfound
      | lost hlost =>
          intro _
          rw [waiting, if_pos hlost, clear_cons, clear_cons]
          exact and_congr_right fun _ => (scan_stuck rest (by decide) (by decide)).clear capacity
      | missed hfront hkept hleft =>
          intro hfound
          rw [waiting_kept rest hkept, clear_cons, clear_cons, ih n hfound, clear_congr hleft]

/-- **A pass that finds nothing leaves nothing to be found, if all there is was exposed.** -/
theorem scan_clear_iff (n capacity : Nat) (queues : List (List (Option Parcel))) :
    ((scan n queues).found = false → Clear capacity (scan n queues).queues) ↔
      Exposed n capacity queues := by
  unfold Exposed
  rw [← scan_found_iff queues n]
  cases hfound : (scan n queues).found with
  | true => simp
  | false => simp [scan_left capacity queues n hfound]

/-! ### What a pass asks for -/

/-- The first datagram met, if it does not fit, is met at the last socket. -/
def Steady (n : Nat) (queues : List (List (Option Parcel))) : Prop :=
  queues = [] ∨ (n < 2 ^ 31 ∧ ∀ before x behind after,
    queues = before ++ (some x :: behind) :: after → n < x.length →
      (∀ queue ∈ before, ∀ x', queue.head? = some (some x') → x'.length = 0) → after = [])

section Steady

variable {n : Nat} {x : Parcel} {behind queue : List (Option Parcel)}
  {rest : List (List (Option Parcel))}

theorem not_steady (h : 2 ^ 31 ≤ n) : ¬ Steady n (queue :: rest) := by
  rintro (hnil | ⟨hn, -⟩)
  · cases hnil
  · exact absurd hn (Nat.not_lt.mpr h)

/-- A datagram that fits is the first one met. -/
theorem steady_found (hn : n < 2 ^ 31) (hpos : 0 < x.length) (hfits : x.length ≤ n) :
    Steady n ((some x :: behind) :: rest) := by
  refine Or.inr ⟨hn, ?_⟩
  intro before x' behind' after hsplit hlong hbefore
  cases before with
  | nil =>
      simp only [List.nil_append, List.cons.injEq, Option.some.injEq] at hsplit
      obtain ⟨⟨rfl, -⟩, -⟩ := hsplit
      exact absurd hfits (Nat.not_le.mpr hlong)
  | cons q before =>
      obtain ⟨rfl, -⟩ := List.cons.inj hsplit
      have hzero := hbefore _ List.mem_cons_self x rfl
      omega

/-- So is one that does not fit, which has to be met at the last socket. -/
theorem steady_truncated (hn : n < 2 ^ 31) (hlong : n < x.length) :
    Steady n ((some x :: behind) :: rest) ↔ rest = [] := by
  constructor
  · rintro (hnil | ⟨-, hlast⟩)
    · cases hnil
    · exact hlast [] x behind rest rfl hlong (by simp)
  · rintro rfl
    refine Or.inr ⟨hn, ?_⟩
    intro before x' behind' after hsplit _ _
    cases before with
    | nil => exact (List.cons.inj hsplit).2.symm
    | cons q before => simp at hsplit

/-- A socket at which nothing is met does not matter. -/
theorem steady_missed (hn : n < 2 ^ 31)
    (hzero : ∀ x, queue.head? = some (some x) → x.length = 0) :
    Steady n (queue :: rest) ↔ Steady n rest := by
  constructor
  · rintro (hnil | ⟨-, hlast⟩)
    · cases hnil
    · refine Or.inr ⟨hn, ?_⟩
      rintro before x behind after rfl hlong hbefore
      refine hlast (queue :: before) x behind after rfl hlong ?_
      intro q hq x' hx'
      rcases List.mem_cons.mp hq with rfl | hq
      · exact hzero x' hx'
      · exact hbefore q hq x' hx'
  · intro h
    refine Or.inr ⟨hn, ?_⟩
    intro before x behind after hsplit hlong hbefore
    cases before with
    | nil =>
        obtain ⟨rfl, -⟩ := List.cons.inj hsplit
        have hlen := hzero x rfl
        omega
    | cons q before =>
        obtain ⟨rfl, rfl⟩ := List.cons.inj hsplit
        rcases h with hnil | ⟨-, hlast⟩
        · simp at hnil
        · exact hlast before x behind after rfl hlong
            fun q' hq' => hbefore q' (List.mem_cons_of_mem _ hq')

end Steady

/-- A pass with a negative length asks for one, if there is a socket to ask. -/
theorem Stuck.asks {queues : List (List (Option Parcel))} {t : Scan} (h : Stuck queues t)
    (hne : queues ≠ []) : ∃ len ∈ t.asked, len < 0 := by
  obtain ⟨len, hlen⟩ := List.exists_mem_of_ne_nil t.asked fun hnil => by
    have hcount := h.count
    rw [hnil] at hcount
    exact hne (List.eq_nil_of_length_eq_zero hcount.symm)
  exact ⟨len, hlen, h.asked len hlen⟩

theorem asked_within_iff {capacity : Nat} (queues : List (List (Option Parcel))) : ∀ {n : Nat},
    n ≤ capacity → n < 2 ^ 32 →
      ((∀ len ∈ (scan n queues).asked, 0 ≤ len ∧ len ≤ capacity) ↔ Steady n queues) := by
  induction queues with
  | nil =>
      intro n _ _
      exact iff_of_true (by simp [scan]) (Or.inl rfl)
  | cons queue rest ih =>
      intro n hle hlt
      have hcases := scan_cases n queue rest
      by_cases hbig : 2 ^ 31 ≤ n
      · refine iff_of_false (fun h => ?_) (not_steady hbig)
        obtain ⟨len, hlen, hneg⟩ :=
          (scan_stuck (queue :: rest) hbig hlt).asks (List.cons_ne_nil queue rest)
        exact absurd (h len hlen).1 (Int.not_le.mpr hneg)
      · have hn : n < 2 ^ 31 := Nat.lt_of_not_le hbig
        have hfirst : 0 ≤ asInt n ∧ asInt n ≤ capacity := by
          rw [asInt_of_lt hn]
          omega
        generalize scan n (queue :: rest) = t at hcases ⊢
        cases hcases with
        | found _ hpos hfits =>
            exact iff_of_true (by simpa using hfirst) (steady_found hn hpos hfits)
        | lost hlost =>
            -- every socket after this one is asked for -1
            rw [steady_truncated hn ((lost_small hn _).mp hlost)]
            have hstuck := scan_stuck rest (n := 2 ^ 32 - 1) (by decide) (by decide)
            cases rest with
            | nil => exact iff_of_true (by simpa [scan] using hfirst) rfl
            | cons q rest =>
                refine iff_of_false (fun h => ?_) (List.cons_ne_nil q rest)
                obtain ⟨len, hlen, hneg⟩ := hstuck.asks (List.cons_ne_nil q rest)
                exact absurd (h len (List.mem_cons_of_mem _ hlen)).1 (Int.not_le.mpr hneg)
        | missed hfront hkept hleft =>
            rw [List.forall_mem_cons, ih hle hlt, and_iff_right hfirst, steady_missed hn]
            intro x hx
            exact (hfront x hx).resolve_right hbig

/-! ### The sockets do as the lengths say -/

section Sockets

variable {Address : Type} {s : UdcSocket Address} {b : MessageBuffer} {n : Nat}

structure Polls (s : UdcSocket Address) (n : Nat) (r : PacketResult Address) : Prop where
  queue : r.socket.queue = (poll n s.queue).queue
  size : r.size = (poll n s.queue).size
  found : r.code = 1 ↔ (poll n s.queue).found = true
  source : r.code = 1 → r.source.isSome = true

theorem polls_of_missed {r : PacketResult Address} (hcode : r.code ≠ 1)
    (hpoll : poll n s.queue = ⟨r.socket.queue, r.size, false⟩) : Polls s n r := by
  refine ⟨by rw [hpoll], by rw [hpoll], ?_, fun h => absurd h hcode⟩
  rw [hpoll]
  exact iff_of_false hcode Bool.false_ne_true

theorem receivePacket_polls (hn : n < 2 ^ 32) : Polls s n (receivePacket s b n) := by
  obtain ⟨pending⟩ := s
  cases pending with
  | nil => exact polls_of_missed (show (0 : Int) ≠ 1 by decide) rfl
  | cons arrival rest =>
      cases arrival with
      | wouldBlock => exact polls_of_missed (show (0 : Int) ≠ 1 by decide) rfl
      | failure => exact polls_of_missed (show (-2 : Int) ≠ 1 by decide) rfl
      | datagram d negative =>
          rw [receivePacket_datagram b hn rfl]
          have hqueue : UdcSocket.queue ⟨.datagram d negative :: rest⟩
              = some ⟨d.bytes.length, negative⟩ :: UdcSocket.queue ⟨rest⟩ := rfl
          by_cases hbig : 2 ^ 31 ≤ n
          · rw [if_pos hbig]
            cases negative with
            | refused =>
                exact polls_of_missed (show (-2 : Int) ≠ 1 by decide)
                  (by rw [hqueue, poll, if_pos hbig])
            | dropped =>
                exact polls_of_missed (show (-1 : Int) ≠ 1 by decide)
                  (by rw [hqueue, poll, if_pos hbig])
          · rw [if_neg hbig]
            by_cases hzero : d.bytes.length = 0
            · rw [if_pos hzero]
              exact polls_of_missed (show (-2 : Int) ≠ 1 by decide)
                (by rw [hqueue, poll, if_neg hbig, if_pos hzero])
            · rw [if_neg hzero]
              by_cases hfits : d.bytes.length ≤ n
              · have hpoll : poll n (UdcSocket.queue ⟨.datagram d negative :: rest⟩)
                    = ⟨UdcSocket.queue ⟨rest⟩, d.bytes.length, true⟩ := by
                  rw [hqueue, poll, if_neg hbig, if_neg hzero, if_pos hfits]
                rw [if_pos hfits]
                exact ⟨by rw [hpoll], by rw [hpoll], by simp [hpoll], fun _ => rfl⟩
              · rw [if_neg hfits]
                exact polls_of_missed (show (-1 : Int) ≠ 1 by decide)
                  (by rw [hqueue, poll, if_neg hbig, if_neg hzero, if_neg hfits])

theorem poll_size_lt {queue : List (Option Parcel)} (hn : n < 2 ^ 32) :
    (poll n queue).size < 2 ^ 32 := by
  unfold poll
  split
  · exact hn
  · exact hn
  · split_ifs with hbig hzero hfits
    · split
      · exact hn
      · exact (by decide : 2 ^ 32 - 1 < 2 ^ 32)
    · exact hn
    · exact Nat.lt_of_le_of_lt hfits hn
    · exact (by decide : 2 ^ 32 - 1 < 2 ^ 32)

structure Scans (sockets : List (UdcSocket Address)) (n : Nat) (r : ScanResult Address) : Prop where
  queues : r.sockets.map UdcSocket.queue = (scan n (sockets.map UdcSocket.queue)).queues
  size : r.size = (scan n (sockets.map UdcSocket.queue)).size
  found : r.source.isSome = (scan n (sockets.map UdcSocket.queue)).found
  asked : r.asked = (scan n (sockets.map UdcSocket.queue)).asked

theorem receiveFirst_scans (sockets : List (UdcSocket Address)) : ∀ (b : MessageBuffer) {n : Nat},
    n < 2 ^ 32 → Scans sockets n (receiveFirst receivePacket sockets b n) := by
  induction sockets with
  | nil =>
      intro b n _
      exact ⟨rfl, rfl, rfl, rfl⟩
  | cons socket rest ih =>
      intro b n hn
      have hpolls := receivePacket_polls (s := socket) (b := b) hn
      unfold receiveFirst
      by_cases hcode : (receivePacket socket b n).code = 1
      · have hscan := scan_found (rest.map UdcSocket.queue) (hpolls.found.mp hcode)
        simp only [if_pos hcode]
        refine ⟨?_, ?_, ?_, ?_⟩
        · rw [List.map_cons, List.map_cons, hscan, hpolls.queue]
        · rw [List.map_cons, hscan, hpolls.size]
        · rw [List.map_cons, hscan]
          exact hpolls.source hcode
        · rw [List.map_cons, hscan]
      · have hscan := scan_missed (rest.map UdcSocket.queue)
          fun h => hcode (hpolls.found.mpr h)
        have hsize : (receivePacket socket b n).size < 2 ^ 32 := by
          rw [hpolls.size]
          exact poll_size_lt hn
        have hrest := ih (receivePacket socket b n).buffer hsize
        simp only [if_neg hcode]
        rw [hpolls.size] at hrest ⊢
        refine ⟨?_, ?_, ?_, ?_⟩
        · rw [List.map_cons, List.map_cons, hscan, hpolls.queue, hrest.queues]
        · rw [List.map_cons, hscan, hrest.size]
        · rw [List.map_cons, hscan, hrest.found]
        · rw [List.map_cons, hscan, hrest.asked]

end Sockets

/-! ### One pass over the sockets of a server -/

theorem scan_size_lt (queues : List (List (Option Parcel))) :
    ∀ {n : Nat}, n < 2 ^ 32 → (scan n queues).size < 2 ^ 32 := by
  induction queues with
  | nil =>
      intro n hn
      exact hn
  | cons queue rest ih =>
      intro n hn
      by_cases hpoll : (poll n queue).found = true
      · rw [scan_found _ hpoll]
        exact poll_size_lt hn
      · rw [scan_missed _ hpoll]
        exact ih (poll_size_lt hn)

theorem scan_append (xs ys : List (List (Option Parcel))) : ∀ n,
    scan n (xs ++ ys) =
      if (scan n xs).found = true then { scan n xs with queues := (scan n xs).queues ++ ys }
      else
        { scan (scan n xs).size ys with
          queues := (scan n xs).queues ++ (scan (scan n xs).size ys).queues
          asked := (scan n xs).asked ++ (scan (scan n xs).size ys).asked } := by
  induction xs with
  | nil =>
      intro n
      exact (if_neg Bool.false_ne_true).symm
  | cons queue xs ih =>
      intro n
      rw [List.cons_append]
      by_cases hpoll : (poll n queue).found = true
      · rw [scan_found _ hpoll, scan_found _ hpoll]
        rfl
      · rw [scan_missed _ hpoll, scan_missed _ hpoll, ih]
        by_cases hrest : (scan (poll n queue).size xs).found = true
        · simp only [if_pos hrest, List.cons_append]
        · simp only [if_neg hrest, List.cons_append]

structure Surveys (m : UdcSocketMux) (t : Scan) (r : MuxResult) : Prop where
  queues : r.mux.queues = t.queues
  size : r.size = t.size
  found : r.address.isSome = t.found
  asked : r.mux.history.asked = m.history.asked ++ t.asked

section Mux

variable {m : UdcSocketMux} {b : MessageBuffer} {n : Nat}

theorem receiveIPv6_surveys (hn : n < 2 ^ 32) :
    Surveys m
      { scan n (m.socketIPv6.map UdcSocket.queue) with
        queues := (scan n (m.socketIPv6.map UdcSocket.queue)).queues
          ++ m.socketIPv4.map UdcSocket.queue }
      (m.receiveIPv6 b n) := by
  have h := receiveFirst_scans m.socketIPv6 b hn
  unfold UdcSocketMux.receiveIPv6
  rw [show receivePacketIPv6 = receivePacket from rfl]
  generalize receiveFirst receivePacket m.socketIPv6 b n = r at h
  obtain ⟨sockets, source, buffer, size, asked⟩ := r
  have hqueues := h.queues
  cases source with
  | none =>
      refine ⟨?_, h.size, h.found, congrArg _ h.asked⟩
      rw [← hqueues]
      rfl
  | some d =>
      refine ⟨?_, h.size, h.found, congrArg _ h.asked⟩
      rw [← hqueues]
      rfl

theorem receiveIPv4_surveys (hn : n < 2 ^ 32) :
    Surveys m
      { scan n (m.socketIPv4.map UdcSocket.queue) with
        queues := m.socketIPv6.map UdcSocket.queue
          ++ (scan n (m.socketIPv4.map UdcSocket.queue)).queues }
      (m.receiveIPv4 b n) := by
  have h := receiveFirst_scans m.socketIPv4 b hn
  unfold UdcSocketMux.receiveIPv4
  rw [show receivePacketIPv4 = receivePacket from rfl]
  generalize receiveFirst receivePacket m.socketIPv4 b n = r at h
  obtain ⟨sockets, source, buffer, size, asked⟩ := r
  have hqueues := h.queues
  cases source with
  | none =>
      refine ⟨?_, h.size, h.found, congrArg _ h.asked⟩
      rw [← hqueues]
      rfl
  | some d =>
      refine ⟨?_, h.size, h.found, congrArg _ h.asked⟩
      rw [← hqueues]
      rfl

/-- **`receive` is `scan`.** -/
theorem receive_surveys (hn : n < 2 ^ 32) :
    Surveys m (scan n m.queues) (m.receive b n) := by
  have h₆ := receiveIPv6_surveys (m := m) (b := b) hn
  unfold UdcSocketMux.receive
  rw [show m.queues = m.socketIPv6.map UdcSocket.queue ++ m.socketIPv4.map UdcSocket.queue
    from rfl, scan_append]
  by_cases hsome : (m.receiveIPv6 b n).address.isSome = true
  · simp only [if_pos hsome]
    rw [h₆.found] at hsome
    rw [if_pos hsome]
    exact ⟨h₆.queues, h₆.size, h₆.found, h₆.asked⟩
  · have hsize : (m.receiveIPv6 b n).size < 2 ^ 32 := by
      rw [h₆.size]
      exact scan_size_lt _ hn
    have h₄ := receiveIPv4_surveys (m := (m.receiveIPv6 b n).mux) (b := (m.receiveIPv6 b n).buffer)
      hsize
    have hleft : (m.receiveIPv6 b n).mux.socketIPv6.map UdcSocket.queue
        = (scan n (m.socketIPv6.map UdcSocket.queue)).queues := by
      have h := h₆.queues
      rw [UdcSocketMux.queues, socketIPv4_receiveIPv6] at h
      exact List.append_cancel_right h
    rw [socketIPv4_receiveIPv6, hleft, h₆.size] at h₄
    simp only [if_neg hsome]
    rw [h₆.found] at hsome
    rw [if_neg hsome, h₆.size]
    refine ⟨h₄.queues, h₄.size, h₄.found, ?_⟩
    rw [h₄.asked, h₆.asked, List.append_assoc]

end Mux

end UdpConnect
