/-
What one `receive` does, and how the loop around it is reasoned about.

A pass over the sockets asks each of them for one packet until one call succeeds, so
every socket loses at most what is first in its queue, and the socket that succeeds
loses exactly the datagram that is returned (`receive_some`).  `inbox` lists the
datagrams queued at one socket, with their sources, so that the statement reads the
same for both families.

The length that goes in is the length that came out last time.  What can be said of
it in general is `Capacity`: it never exceeds the buffer, unless it is the `-1` a
truncated datagram left behind, which is a negative length to every later call.

`receiveLoop_rule` is the loop's induction: the fuel of `receiveMessages` is one more
than all that is queued, and each successful turn takes something off a queue.
-/
import UdpConnect.Proofs.Protocol

namespace UdpConnect

open Memory

@[simp] theorem MessageBuffer.write_nil (b : MessageBuffer) : b.write 0 [] = b := by
  obtain ⟨bytes, hge, hlt⟩ := b
  simp [MessageBuffer.write, memcpy]

theorem u32_lt (n : Int) : u32 n < 2 ^ 32 := by
  unfold u32
  omega

theorem u32_of_lt {n : Nat} (h : n < 2 ^ 32) : u32 (n : Int) = n := by
  unfold u32
  omega

theorem asInt_of_lt {n : Nat} (h : n < 2 ^ 31) : asInt n = n := by
  rw [asInt, if_pos h]

theorem asInt_neg {n : Nat} (hn : n < 2 ^ 32) (h : 2 ^ 31 ≤ n) : asInt n < 0 := by
  unfold asInt
  rw [if_neg (Nat.not_lt.mpr h)]
  omega

/-! ### One socket -/

section Socket

variable {Address : Type}

/-- The five things `receivePacket` does, asked for `n` bytes. -/
inductive Received (s : UdcSocket Address) (b : MessageBuffer) (n : Nat) :
    PacketResult Address → Prop
  | success {d : Datagram Address} {negative : NegativeLength} {rest : List (Arrival Address)}
      (hpending : s.pending = .datagram d negative :: rest) (hpos : 0 < d.bytes.length)
      (hfits : d.bytes.length ≤ n) (hn : n < 2 ^ 31) :
      Received s b n ⟨1, some d, b.write 0 d.bytes, d.bytes.length, ⟨rest⟩⟩
  | truncated {d : Datagram Address} {negative : NegativeLength} {rest : List (Arrival Address)}
      (hpending : s.pending = .datagram d negative :: rest) (hlong : n < d.bytes.length)
      (hn : n < 2 ^ 31) :
      Received s b n ⟨-1, some d, b.write 0 (d.bytes.take n), 2 ^ 32 - 1, ⟨rest⟩⟩
  | dropped {d : Datagram Address} {rest : List (Arrival Address)}
      (hpending : s.pending = .datagram d .dropped :: rest) (hn : 2 ^ 31 ≤ n) :
      Received s b n ⟨-1, some d, b, 2 ^ 32 - 1, ⟨rest⟩⟩
  | skipped {x : Arrival Address} {rest : List (Arrival Address)} {code : Int}
      (hpending : s.pending = x :: rest)
      (hempty : ∀ d negative, x = .datagram d negative → d.bytes = []) (hcode : code ≠ 1) :
      Received s b n ⟨code, none, b, n, ⟨rest⟩⟩
  | idle {code : Int} (hidle : s.pending = [] ∨ 2 ^ 31 ≤ n) (hcode : code ≠ 1) :
      Received s b n ⟨code, none, b, n, s⟩

/-- What `receivePacket` makes of a datagram, length by length. -/
theorem receivePacket_datagram {s : UdcSocket Address} (b : MessageBuffer) {n : Nat}
    (hn : n < 2 ^ 32) {d : Datagram Address} {negative : NegativeLength}
    {rest : List (Arrival Address)} (hpending : s.pending = .datagram d negative :: rest) :
    receivePacket s b n =
      if 2 ^ 31 ≤ n then
        match negative with
        | .refused => ⟨-2, none, b, n, s⟩
        | .dropped => ⟨-1, some d, b, 2 ^ 32 - 1, ⟨rest⟩⟩
      else if d.bytes.length = 0 then ⟨-2, none, b, n, ⟨rest⟩⟩
      else if d.bytes.length ≤ n then ⟨1, some d, b.write 0 d.bytes, d.bytes.length, ⟨rest⟩⟩
      else ⟨-1, some d, b.write 0 (d.bytes.take n), 2 ^ 32 - 1, ⟨rest⟩⟩ := by
  by_cases hbig : 2 ^ 31 ≤ n
  · have hneg : asInt n < 0 := asInt_neg hn hbig
    rw [if_pos hbig]
    cases negative <;> simp [receivePacket, recvfrom, hpending, hneg, socketError, u32]
  · have hsmall : n < 2 ^ 31 := Nat.lt_of_not_le hbig
    have hint : asInt n = n := asInt_of_lt hsmall
    have hnn : ¬ (n : Int) < 0 := by omega
    rw [if_neg hbig]
    by_cases hzero : d.bytes.length = 0
    · have hnil : d.bytes = [] := List.eq_nil_of_length_eq_zero hzero
      rw [if_pos hzero]
      simp [receivePacket, recvfrom, hpending, hint, hnn, hnil]
    · rw [if_neg hzero]
      by_cases hfits : d.bytes.length ≤ n
      · have hne : ¬ (d.bytes.length : Int) = 0 := by omega
        have hne' : ¬ (d.bytes.length : Int) = -1 := by omega
        have hle : (d.bytes.length : Int) ≤ n := by omega
        have hlen : u32 (d.bytes.length : Int) = d.bytes.length := u32_of_lt (by omega)
        rw [if_pos hfits]
        simp only [receivePacket, recvfrom, hpending, hint, if_neg hnn, if_pos hle, if_neg hne,
          socketError, if_neg hne', hlen]
      · have hle : ¬ (d.bytes.length : Int) ≤ n := by omega
        rw [if_neg hfits]
        simp [receivePacket, recvfrom, hpending, hint, hnn, hle, socketError, u32]

theorem received_datagram {s : UdcSocket Address} {b : MessageBuffer} {n : Nat} (hn : n < 2 ^ 32)
    {d : Datagram Address} {negative : NegativeLength} {rest : List (Arrival Address)}
    (hpending : s.pending = .datagram d negative :: rest) :
    Received s b n (receivePacket s b n) := by
  rw [receivePacket_datagram b hn hpending]
  by_cases hbig : 2 ^ 31 ≤ n
  · rw [if_pos hbig]
    cases negative with
    | refused => exact .idle (Or.inr hbig) (by decide)
    | dropped => exact .dropped hpending hbig
  · rw [if_neg hbig]
    by_cases hzero : d.bytes.length = 0
    · rw [if_pos hzero]
      refine .skipped hpending (fun d' negative' hd' => ?_) (by decide)
      cases hd'
      exact List.eq_nil_of_length_eq_zero hzero
    · rw [if_neg hzero]
      by_cases hfits : d.bytes.length ≤ n
      · rw [if_pos hfits]
        exact .success hpending (by omega) hfits (by omega)
      · rw [if_neg hfits]
        exact .truncated hpending (by omega) (by omega)

theorem receivePacket_received (s : UdcSocket Address) (b : MessageBuffer) {n : Nat}
    (hn : n < 2 ^ 32) : Received s b n (receivePacket s b n) := by
  cases hpending : s.pending with
  | nil =>
      have heq : receivePacket s b n = ⟨0, none, b, n, s⟩ := by
        simp [receivePacket, recvfrom, hpending, socketError]
      rw [heq]
      exact .idle (Or.inl hpending) (by decide)
  | cons x rest =>
      cases x with
      | datagram d negative => exact received_datagram hn hpending
      | wouldBlock =>
          have heq : receivePacket s b n = ⟨0, none, b, n, ⟨rest⟩⟩ := by
            simp [receivePacket, recvfrom, hpending, socketError]
          rw [heq]
          exact .skipped hpending (by simp) (by decide)
      | failure =>
          have heq : receivePacket s b n = ⟨-2, none, b, n, ⟨rest⟩⟩ := by
            simp [receivePacket, recvfrom, hpending, socketError]
          rw [heq]
          exact .skipped hpending (by simp) (by decide)

/-- The length argument never exceeds the buffer, or is too large to be one. -/
def Capacity (b : MessageBuffer) (n : Nat) : Prop := n < 2 ^ 32 ∧ (n ≤ b.size ∨ 2 ^ 31 ≤ n)

theorem capacity_full (b : MessageBuffer) : Capacity b b.size := ⟨b.size_lt, Or.inl (Nat.le_refl _)⟩

/-- A datagram with its source, of either family. -/
def Datagram.packet (family : Address → UdcAddress) (d : Datagram Address) : Packet :=
  ⟨⟨family d.source, d.port⟩, d.bytes, d.mark⟩

/-- The datagrams queued at a socket. -/
def UdcSocket.inbox (family : Address → UdcAddress) (s : UdcSocket Address) : List Packet :=
  s.pending.filterMap fun
    | .datagram d _ => some (d.packet family)
    | _ => none

theorem inbox_datagram {family : Address → UdcAddress} {s : UdcSocket Address}
    {d : Datagram Address} {negative : NegativeLength} {rest : List (Arrival Address)}
    (hpending : s.pending = .datagram d negative :: rest) :
    s.inbox family = d.packet family :: UdcSocket.inbox family ⟨rest⟩ := by
  simp [UdcSocket.inbox, hpending]

/-- A queue that may have lost its first element. -/
def Shrinks (before after : List Packet) : Prop := after = before ∨ ∃ p, before = p :: after

/-- What holds of one socket, whatever its `receivePacket` returned. -/
structure Asked (family : Address → UdcAddress) (s : UdcSocket Address) (b : MessageBuffer)
    (n : Nat) (r : PacketResult Address) : Prop where
  size : r.buffer.size = b.size
  capacity : Capacity r.buffer r.size
  inbox : Shrinks (s.inbox family) (r.socket.inbox family)
  backlog : r.socket.pending.length ≤ s.pending.length

/-- What holds of it when a packet was returned. -/
structure Returned (family : Address → UdcAddress) (s : UdcSocket Address) (b : MessageBuffer)
    (d : Datagram Address) (r : PacketResult Address) : Prop where
  source : r.source = some d
  inbox : s.inbox family = d.packet family :: r.socket.inbox family
  backlog : r.socket.pending.length < s.pending.length
  size : r.size = d.bytes.length
  room : r.size ≤ b.size
  positive : 0 < r.size
  front : r.buffer.bytes.take r.size = d.bytes

variable {s : UdcSocket Address} {b : MessageBuffer} {n : Nat} (family : Address → UdcAddress)

theorem receivePacket_asked (hcap : Capacity b n) :
    Asked family s b n (receivePacket s b n) := by
  have hr := receivePacket_received s b hcap.1
  generalize receivePacket s b n = r at hr
  cases hr with
  | @success d _ _ hpending hpos hfits hn =>
      have hlt : d.bytes.length < 2 ^ 32 := by omega
      refine ⟨by simp, ⟨hlt, Or.inl ?_⟩, Or.inr ⟨_, inbox_datagram hpending⟩, by simp [hpending]⟩
      rw [MessageBuffer.size_write]
      rcases hcap.2 with h | h
      · exact hfits.trans h
      · omega
  | truncated hpending hlong hn =>
      exact ⟨by simp, ⟨by simp, Or.inr (by simp)⟩, Or.inr ⟨_, inbox_datagram hpending⟩,
        by simp [hpending]⟩
  | dropped hpending hn =>
      exact ⟨rfl, ⟨by simp, Or.inr (by simp)⟩, Or.inr ⟨_, inbox_datagram hpending⟩,
        by simp [hpending]⟩
  | @skipped x rest _ hpending hempty hcode =>
      refine ⟨rfl, hcap, ?_, by simp [hpending]⟩
      cases x with
      | datagram d negative => exact Or.inr ⟨_, inbox_datagram hpending⟩
      | _ => exact Or.inl (by simp [UdcSocket.inbox, hpending])
  | idle hidle hcode => exact ⟨rfl, hcap, Or.inl rfl, Nat.le_refl _⟩

theorem receivePacket_returned (hcap : Capacity b n) (hcode : (receivePacket s b n).code = 1) :
    ∃ d, Returned family s b d (receivePacket s b n) := by
  have hr := receivePacket_received s b hcap.1
  generalize receivePacket s b n = r at hr hcode
  cases hr with
  | @success d _ rest hpending hpos hfits hn =>
      have hroom : d.bytes.length ≤ b.size := by rcases hcap.2 with h | h <;> omega
      refine ⟨d, rfl, inbox_datagram hpending, by simp [hpending], rfl, hroom, hpos, ?_⟩
      show (memcpy b.bytes 0 d.bytes).take d.bytes.length = d.bytes
      rw [memcpy_zero hroom, List.take_left' rfl]
  | truncated hpending hlong hn => simp at hcode
  | dropped hpending hn => simp at hcode
  | skipped hpending hempty hne => exact absurd hcode hne
  | idle hidle hne => exact absurd hcode hne

end Socket

/-! ### A pass over the sockets of one family -/

section Scan

variable {Address : Type} (family : Address → UdcAddress)

def inboxAt (sockets : List (UdcSocket Address)) (index : Nat) : List Packet :=
  (sockets[index]?.map (UdcSocket.inbox family)).getD []

def backlogOf (sockets : List (UdcSocket Address)) : Nat :=
  (sockets.map fun s => s.pending.length).sum

@[simp] theorem inboxAt_cons_succ (s : UdcSocket Address) (sockets : List (UdcSocket Address))
    (index : Nat) : inboxAt family (s :: sockets) (index + 1) = inboxAt family sockets index := by
  simp [inboxAt]

/-- What holds of a pass, whatever it returned. -/
structure Scanned (sockets : List (UdcSocket Address)) (b : MessageBuffer)
    (r : ScanResult Address) : Prop where
  length : r.sockets.length = sockets.length
  size : r.buffer.size = b.size
  capacity : Capacity r.buffer r.size
  inbox : ∀ index, Shrinks (inboxAt family sockets index) (inboxAt family r.sockets index)
  backlog : backlogOf r.sockets ≤ backlogOf sockets
  returned : ∀ d, r.source = some d →
    (∃ index, inboxAt family sockets index
        = d.packet family :: inboxAt family r.sockets index) ∧
      backlogOf r.sockets < backlogOf sockets ∧ r.size = d.bytes.length ∧ r.size ≤ b.size ∧
      0 < r.size ∧ r.buffer.bytes.take r.size = d.bytes

theorem receiveFirst_scanned (sockets : List (UdcSocket Address)) {b : MessageBuffer} {n : Nat}
    (hcap : Capacity b n) :
    Scanned family sockets b (receiveFirst receivePacket sockets b n) := by
  induction sockets generalizing b n with
  | nil => exact ⟨rfl, rfl, hcap, fun _ => Or.inl rfl, Nat.le_refl _, by simp [receiveFirst]⟩
  | cons s rest ih =>
      have hone := receivePacket_asked (s := s) family hcap
      by_cases hcode : (receivePacket s b n).code = 1
      · obtain ⟨d, hd⟩ := receivePacket_returned (s := s) family hcap hcode
        have hless : backlogOf ((receivePacket s b n).socket :: rest) < backlogOf (s :: rest) := by
          have := hd.backlog
          simp only [backlogOf, List.map_cons, List.sum_cons]
          omega
        rw [receiveFirst]
        simp only [if_pos hcode]
        refine ⟨rfl, hone.size, hone.capacity, fun index => ?_, Nat.le_of_lt hless,
          fun d' hd' => ?_⟩
        · cases index with
          | zero => exact hone.inbox
          | succ index =>
              rw [inboxAt_cons_succ, inboxAt_cons_succ]
              exact Or.inl rfl
        · have heq : d' = d := Option.some.inj (hd'.symm.trans hd.source)
          subst heq
          exact ⟨⟨0, hd.inbox⟩, hless, hd.size, hd.room, hd.positive, hd.front⟩
      · have ht := ih hone.capacity
        rw [receiveFirst]
        simp only [if_neg hcode]
        refine ⟨by simp [ht.length], ht.size.trans hone.size, ht.capacity, fun index => ?_, ?_,
          fun d hd => ?_⟩
        · cases index with
          | zero => exact hone.inbox
          | succ index =>
              rw [inboxAt_cons_succ, inboxAt_cons_succ]
              exact ht.inbox index
        · have h₁ := hone.backlog
          have h₂ := ht.backlog
          simp only [backlogOf, List.map_cons, List.sum_cons] at h₂ ⊢
          omega
        · obtain ⟨⟨index, hindex⟩, hless, hsize, hroom, hpos, hfront⟩ := ht.returned d hd
          refine ⟨⟨index + 1, ?_⟩, ?_, hsize, by rw [← hone.size]; exact hroom, hpos, hfront⟩
          · rw [inboxAt_cons_succ, inboxAt_cons_succ]
            exact hindex
          · have h₁ := hone.backlog
            simp only [backlogOf, List.map_cons, List.sum_cons] at hless ⊢
            omega

end Scan

/-! ### All sockets -/

/-- A socket of a server, by its place among those of its family. -/
inductive SocketName where
  | ipv4 (index : Nat)
  | ipv6 (index : Nat)
deriving DecidableEq

/-- The datagrams queued at one socket. -/
def UdcSocketMux.inbox (m : UdcSocketMux) : SocketName → List Packet
  | .ipv4 index => inboxAt .ipv4 m.socketIPv4 index
  | .ipv6 index => inboxAt .ipv6 m.socketIPv6 index

/-- What holds after `receive`, whatever it returned. -/
structure Polled (m : UdcSocketMux) (b : MessageBuffer) (r : MuxResult) : Prop where
  size : r.buffer.size = b.size
  capacity : Capacity r.buffer r.size
  inbox : ∀ name, Shrinks (m.inbox name) (r.mux.inbox name)
  backlog : r.mux.backlog ≤ m.backlog
  sent : r.mux.history.sent = m.history.sent
  idle : r.address = none → r.mux.history.mark = m.history.mark
  quiet : r.address = none → r.mux.history.received = m.history.received

/-- What holds after it returned true with the datagram `p`. -/
structure Delivered (m : UdcSocketMux) (b : MessageBuffer) (p : Packet) (r : MuxResult) : Prop where
  address : r.address = some p.address
  inbox : ∃ name, m.inbox name = p :: r.mux.inbox name
  backlog : r.mux.backlog < m.backlog
  size : r.size = p.bytes.length
  room : r.size ≤ b.size
  positive : 0 < r.size
  front : r.buffer.bytes.take r.size = p.bytes
  mark : r.mux.history.mark = p.mark
  received : r.mux.history.received = m.history.received ++ [p]

theorem backlog_eq (m : UdcSocketMux) :
    m.backlog = backlogOf m.socketIPv4 + backlogOf m.socketIPv6 := rfl

section Mux

variable {m : UdcSocketMux} {b : MessageBuffer} {n : Nat}

theorem receiveIPv4_polled (hcap : Capacity b n) : Polled m b (m.receiveIPv4 b n) ∧
    ∀ a, (m.receiveIPv4 b n).address = some a → ∃ p, Delivered m b p (m.receiveIPv4 b n) := by
  have hs := receiveFirst_scanned UdcAddress.ipv4 m.socketIPv4 hcap
  unfold UdcSocketMux.receiveIPv4
  change Scanned .ipv4 m.socketIPv4 b (receiveFirst receivePacketIPv4 m.socketIPv4 b n) at hs
  generalize receiveFirst receivePacketIPv4 m.socketIPv4 b n = r at hs
  have hinbox : ∀ name, Shrinks (m.inbox name)
      (({ m with socketIPv4 := r.sockets } : UdcSocketMux).inbox name) := by
    intro name
    cases name with
    | ipv4 index => exact hs.inbox index
    | ipv6 index => exact Or.inl rfl
  have hless := hs.backlog
  cases hsource : r.source with
  | none =>
      simp only [hsource]
      refine ⟨⟨hs.size, hs.capacity, hinbox, ?_, rfl, fun _ => rfl, fun _ => rfl⟩, by simp⟩
      show backlogOf r.sockets + backlogOf m.socketIPv6 ≤ _
      rw [backlog_eq]
      omega
  | some d =>
      obtain ⟨⟨index, hindex⟩, hlt, hsize, hroom, hpos, hfront⟩ := hs.returned d hsource
      simp only [hsource]
      refine ⟨⟨hs.size, hs.capacity, hinbox, ?_, rfl, by simp, by simp⟩, fun a _ =>
        ⟨d.packet .ipv4, rfl, ⟨.ipv4 index, hindex⟩, ?_, hsize, hroom,
          hpos, hfront, rfl, rfl⟩⟩
      · show backlogOf r.sockets + backlogOf m.socketIPv6 ≤ _
        rw [backlog_eq]
        omega
      · show backlogOf r.sockets + backlogOf m.socketIPv6 < _
        rw [backlog_eq]
        omega

theorem receiveIPv6_polled (hcap : Capacity b n) : Polled m b (m.receiveIPv6 b n) ∧
    ∀ a, (m.receiveIPv6 b n).address = some a → ∃ p, Delivered m b p (m.receiveIPv6 b n) := by
  have hs := receiveFirst_scanned UdcAddress.ipv6 m.socketIPv6 hcap
  unfold UdcSocketMux.receiveIPv6
  change Scanned .ipv6 m.socketIPv6 b (receiveFirst receivePacketIPv6 m.socketIPv6 b n) at hs
  generalize receiveFirst receivePacketIPv6 m.socketIPv6 b n = r at hs
  have hinbox : ∀ name, Shrinks (m.inbox name)
      (({ m with socketIPv6 := r.sockets } : UdcSocketMux).inbox name) := by
    intro name
    cases name with
    | ipv4 index => exact Or.inl rfl
    | ipv6 index => exact hs.inbox index
  have hless := hs.backlog
  cases hsource : r.source with
  | none =>
      simp only [hsource]
      refine ⟨⟨hs.size, hs.capacity, hinbox, ?_, rfl, fun _ => rfl, fun _ => rfl⟩, by simp⟩
      show backlogOf m.socketIPv4 + backlogOf r.sockets ≤ _
      rw [backlog_eq]
      omega
  | some d =>
      obtain ⟨⟨index, hindex⟩, hlt, hsize, hroom, hpos, hfront⟩ := hs.returned d hsource
      simp only [hsource]
      refine ⟨⟨hs.size, hs.capacity, hinbox, ?_, rfl, by simp, by simp⟩, fun a _ =>
        ⟨d.packet .ipv6, rfl, ⟨.ipv6 index, hindex⟩, ?_, hsize, hroom,
          hpos, hfront, rfl, rfl⟩⟩
      · show backlogOf m.socketIPv4 + backlogOf r.sockets ≤ _
        rw [backlog_eq]
        omega
      · show backlogOf m.socketIPv4 + backlogOf r.sockets < _
        rw [backlog_eq]
        omega

theorem socketIPv6_receiveIPv4 : (m.receiveIPv4 b n).mux.socketIPv6 = m.socketIPv6 := by
  unfold UdcSocketMux.receiveIPv4
  cases h : (receiveFirst receivePacketIPv4 m.socketIPv4 b n).source <;> simp only [h] <;> rfl

theorem socketIPv4_receiveIPv6 : (m.receiveIPv6 b n).mux.socketIPv4 = m.socketIPv4 := by
  unfold UdcSocketMux.receiveIPv6
  cases h : (receiveFirst receivePacketIPv6 m.socketIPv6 b n).source <;> simp only [h] <;> rfl

/-- The two passes ask different sockets. -/
theorem inbox_receiveIPv6_receiveIPv4 {b' : MessageBuffer} {n' : Nat}
    (h₆ : ∀ name, Shrinks (m.inbox name) ((m.receiveIPv6 b n).mux.inbox name))
    (h₄ : ∀ name, Shrinks ((m.receiveIPv6 b n).mux.inbox name)
      (((m.receiveIPv6 b n).mux.receiveIPv4 b' n').mux.inbox name)) (name : SocketName) :
    Shrinks (m.inbox name) (((m.receiveIPv6 b n).mux.receiveIPv4 b' n').mux.inbox name) := by
  cases name with
  | ipv4 index =>
      have hsame : (m.receiveIPv6 b n).mux.inbox (.ipv4 index) = m.inbox (.ipv4 index) := by
        simp only [UdcSocketMux.inbox, socketIPv4_receiveIPv6]
      rw [← hsame]
      exact h₄ _
  | ipv6 index =>
      have hsame : ((m.receiveIPv6 b n).mux.receiveIPv4 b' n').mux.inbox (.ipv6 index)
          = (m.receiveIPv6 b n).mux.inbox (.ipv6 index) := by
        simp only [UdcSocketMux.inbox, socketIPv6_receiveIPv4]
      rw [hsame]
      exact h₆ _

theorem receive_polled (hcap : Capacity b n) : Polled m b (m.receive b n) ∧
    ∀ a, (m.receive b n).address = some a → ∃ p, Delivered m b p (m.receive b n) := by
  obtain ⟨h₆, hret₆⟩ := receiveIPv6_polled (m := m) hcap
  unfold UdcSocketMux.receive
  by_cases hsome : (m.receiveIPv6 b n).address.isSome
  · simp only [if_pos hsome]
    exact ⟨h₆, hret₆⟩
  · simp only [if_neg hsome]
    obtain ⟨h₄, hret₄⟩ := receiveIPv4_polled (m := (m.receiveIPv6 b n).mux) h₆.capacity
    have hnone : (m.receiveIPv6 b n).address = none := by simpa using hsome
    refine ⟨⟨h₄.size.trans h₆.size, h₄.capacity,
      inbox_receiveIPv6_receiveIPv4 h₆.inbox h₄.inbox, h₄.backlog.trans h₆.backlog,
      h₄.sent.trans h₆.sent, fun h => (h₄.idle h).trans (h₆.idle hnone),
      fun h => (h₄.quiet h).trans (h₆.quiet hnone)⟩, fun a ha => ?_⟩
    obtain ⟨p, hp⟩ := hret₄ a ha
    obtain ⟨name, hname⟩ := hp.inbox
    refine ⟨p, hp.address, ⟨name, ?_⟩, hp.backlog.trans_le h₆.backlog, hp.size,
      by rw [← h₆.size]; exact hp.room, hp.positive, hp.front, hp.mark,
      by rw [← h₆.quiet hnone]; exact hp.received⟩
    cases name with
    | ipv4 index =>
        rw [← hname]
        simp only [UdcSocketMux.inbox, socketIPv4_receiveIPv6]
    | ipv6 index =>
        -- the IPv4 pass leaves the IPv6 sockets alone
        simp only [UdcSocketMux.inbox, socketIPv6_receiveIPv4] at hname
        exact absurd hname.symm (List.cons_ne_self _ _)

end Mux

/-! ### One turn of the loop -/

/-- Every queue keeps its order and loses at most its first element. -/
def UdcServerImpl.Drained (s s' : UdcServerImpl) : Prop :=
  ∀ name, Shrinks (s.socket.inbox name) (s'.socket.inbox name)

/-- The turn in which `receive` returned `packet`. -/
structure Turn (time : Milliseconds) (s : UdcServerImpl) (packet : Packet) (s' : UdcServerImpl)
    (event : Option UdcEvent) : Prop where
  signature : s'.packetSignature = s.packetSignature
  size : s'.messageBufferSize = s.messageBufferSize
  state : s'.protocol = (s.protocol.react s.packetSignature time packet).state
  taken : ∃ name, s.socket.inbox name = packet :: s'.socket.inbox name
  drained : s.Drained s'
  sent : s'.socket.history.sent = s.socket.history.sent ++
    (s.protocol.react s.packetSignature time packet).sends.map fun p =>
      ⟨p.1, encode s.packetSignature.bytes p.2, packet.mark⟩
  mark : s'.socket.history.mark = packet.mark
  received : s'.socket.history.received = s.socket.history.received ++ [packet]
  backlog : s'.socket.backlog < s.socket.backlog
  report : event.map (UdcEvent.report s'.messageBuffer)
    = (s.protocol.react s.packetSignature time packet).report

/-- The last turn, in which `receive` returned false. -/
structure LastTurn (s s' : UdcServerImpl) : Prop where
  signature : s'.packetSignature = s.packetSignature
  size : s'.messageBufferSize = s.messageBufferSize
  state : s'.protocol = s.protocol
  drained : s.Drained s'
  sent : s'.socket.history.sent = s.socket.history.sent
  mark : s'.socket.history.mark = s.socket.history.mark
  received : s'.socket.history.received = s.socket.history.received
  backlog : s'.socket.backlog ≤ s.socket.backlog

section Loop

variable {s : UdcServerImpl} {n : Nat} {time : Milliseconds}

theorem lastTurn_of_receive (hcap : Capacity s.messageBuffer n)
    (hnone : (s.receive n).2.1 = none) : LastTurn s (s.receive n).1 := by
  have hp := (receive_polled (m := s.socket) hcap).1
  exact ⟨rfl, hp.size, rfl, hp.inbox, hp.sent, hp.idle hnone, hp.quiet hnone, hp.backlog⟩

theorem turn_of_receive (time : Milliseconds) (hcap : Capacity s.messageBuffer n)
    {address : UdcAddressMux} (hsome : (s.receive n).2.1 = some address) :
    ∃ p, Delivered s.socket s.messageBuffer p (s.socket.receive s.messageBuffer n) ∧
      Turn time s p ((s.receive n).1.handleDatagram address (s.receive n).2.2 time).1
        ((s.receive n).1.handleDatagram address (s.receive n).2.2 time).2 ∧
      Capacity ((s.receive n).1.handleDatagram address (s.receive n).2.2 time).1.messageBuffer
        (s.receive n).2.2 := by
  obtain ⟨hpolled, hret⟩ := receive_polled (m := s.socket) hcap
  obtain ⟨p, hp⟩ := hret address hsome
  have haddress : address = p.address := Option.some.inj (hsome.symm.trans hp.address)
  subst haddress
  have hroom : (s.receive n).2.2 ≤ (s.receive n).1.messageBufferSize := by
    show (s.socket.receive s.messageBuffer n).size
      ≤ (s.socket.receive s.messageBuffer n).buffer.size
    rw [hpolled.size]
    exact hp.room
  have hpacket : (s.receive n).1.packet
      = fun q => ⟨q.1, encode s.packetSignature.bytes q.2, p.mark⟩ := by
    have hmark : (s.receive n).1.socket.history.mark = p.mark := hp.mark
    funext q
    rw [UdcServerImpl.packet, hmark]
    rfl
  have href := handleDatagram_react time hroom hp.front
  have hsocket := href.socket
  refine ⟨p, hp, ⟨href.signature, href.size.trans hpolled.size, href.state, ?_, ?_, ?_, ?_, ?_, ?_,
    href.report⟩, ⟨?_, ?_⟩⟩
  · rw [hsocket]; exact hp.inbox
  · intro name; rw [hsocket]; exact hpolled.inbox name
  · have hsent : (s.receive n).1.socket.history.sent = s.socket.history.sent := hpolled.sent
    rw [hsocket, ← hpacket, ← hsent]
    rfl
  · rw [hsocket]; exact hp.mark
  · rw [hsocket]; exact hp.received
  · rw [hsocket]; exact hp.backlog
  · exact hroom.trans_lt (s.receive n).1.messageBuffer.size_lt
  · exact Or.inl (hroom.trans_eq href.size.symm)

/-- A message on its way to the machine, with the state it meets. -/
structure Handling where
  state : Protocol
  address : UdcAddressMux
  message : Message

/-- The same with the mark of the datagram it came in, and what has been received by then. -/
structure Reception extends Handling where
  mark : Mark
  /-- The datagram of the message is the last of them. -/
  received : List Packet

/-- The messages one call of `receiveMessages` handles, in order. -/
def UdcServerImpl.receptionsLoop (time : Milliseconds) :
    Nat → UdcServerImpl → Nat → List Reception
  | 0, _, _ => []
  | fuel + 1, s, msgSize =>
      match s.receive msgSize with
      | (_, none, _) => []
      | (s, some address, msgSize) =>
          ((decode s.packetSignature.bytes (s.messageBuffer.bytes.take msgSize)).toList.map
            fun m =>
              ⟨⟨s.protocol, address, m⟩, s.socket.history.mark, s.socket.history.received⟩) ++
          match s.handleDatagram address msgSize time with
          | (_, some _) => []
          | (s, none) => receptionsLoop time fuel s msgSize

def UdcServerImpl.receptions (s : UdcServerImpl) (time : Milliseconds) : List Reception :=
  receptionsLoop time (s.socket.backlog + 1) s s.messageBufferSize

/-- The messages alone, with the states they meet. -/
def UdcServerImpl.handled (s : UdcServerImpl) (time : Milliseconds) : List Handling :=
  (s.receptions time).map Reception.toHandling

/-- The condition holds of the message the turn handles, if the datagram reads as one. -/
def TurnMeets (C : Reception → Prop) (s : UdcServerImpl) (packet : Packet) : Prop :=
  ∀ m, decode s.packetSignature.bytes packet.bytes = some m →
    C ⟨⟨s.protocol, packet.address, m⟩, packet.mark, s.socket.history.received ++ [packet]⟩

theorem receive_none (h : (s.receive n).2.1 = none) :
    s.receive n = ((s.receive n).1, none, (s.receive n).2.2) := by
  rw [← h]

theorem receive_some {address : UdcAddressMux} (h : (s.receive n).2.1 = some address) :
    s.receive n = ((s.receive n).1, some address, (s.receive n).2.2) := by
  rw [← h]

/-- What every turn keeps, and what the turn that ends the loop makes of it. -/
theorem receiveLoop_rule {P : UdcServerImpl → Prop} {Q : UdcServerImpl → Option UdcEvent → Prop}
    {C : Reception → Prop} (hstop : ∀ s s', P s → LastTurn s s' → Q s' none)
    (hquiet : ∀ s p s', P s → Turn time s p s' none → TurnMeets C s p → P s')
    (hevent : ∀ s p s' e, P s → Turn time s p s' (some e) → TurnMeets C s p → Q s' (some e))
    (fuel : Nat) :
    ∀ s n, s.socket.backlog < fuel → Capacity s.messageBuffer n → P s →
      (∀ x ∈ UdcServerImpl.receptionsLoop time fuel s n, C x) →
      Q (UdcServerImpl.receiveLoop time fuel s n).1
        (UdcServerImpl.receiveLoop time fuel s n).2 := by
  induction fuel with
  | zero => intro s n h; omega
  | succ fuel ih =>
      intro s n hfuel hcap hP hC
      unfold UdcServerImpl.receiveLoop
      unfold UdcServerImpl.receptionsLoop at hC
      cases hr : (s.receive n).2.1 with
      | none =>
          rw [receive_none hr]
          exact hstop s _ hP (lastTurn_of_receive hcap hr)
      | some address =>
          obtain ⟨p, hp, hturn, hcap'⟩ := turn_of_receive time hcap hr
          have hless := hturn.backlog
          rw [receive_some hr] at hC ⊢
          simp only at hC ⊢
          have hmeets : TurnMeets C s p := by
            intro m hm
            rw [← hp.front] at hm
            have haddress : address = p.address := Option.some.inj (hr.symm.trans hp.address)
            refine hC _ (List.mem_append_left _ (List.mem_map.mpr ⟨m, ?_, ?_⟩))
            · exact Option.mem_toList.mpr hm
            · have hmark : (s.receive n).1.socket.history.mark = p.mark := hp.mark
              have hreceived : (s.receive n).1.socket.history.received
                  = s.socket.history.received ++ [p] := hp.received
              have hstate : (s.receive n).1.protocol = s.protocol := rfl
              rw [haddress, hmark, hreceived, hstate]
          generalize (s.receive n).1.handleDatagram address (s.receive n).2.2 time = t at *
          obtain ⟨s', event⟩ := t
          cases event with
          | none =>
              exact ih s' _ (by simp only at hless; omega) hcap' (hquiet s p s' hP hturn hmeets)
                fun x hx => hC x (List.mem_append_right _ hx)
          | some e => exact hevent s p s' e hP hturn hmeets

/-- The same for `receiveMessages`. -/
theorem receiveMessages_rule (time : Milliseconds) {P : UdcServerImpl → Prop}
    {Q : UdcServerImpl → Option UdcEvent → Prop} {C : Reception → Prop}
    (hstop : ∀ s s', P s → LastTurn s s' → Q s' none)
    (hquiet : ∀ s p s', P s → Turn time s p s' none → TurnMeets C s p → P s')
    (hevent : ∀ s p s' e, P s → Turn time s p s' (some e) → TurnMeets C s p → Q s' (some e))
    (hC : ∀ x ∈ s.receptions time, C x) (hP : P s) :
    Q (s.receiveMessages time).1 (s.receiveMessages time).2 :=
  receiveLoop_rule hstop hquiet hevent _ s _ (Nat.lt_succ_self _) (capacity_full _) hP hC

end Loop

end UdpConnect
