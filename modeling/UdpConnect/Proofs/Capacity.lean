/-
What the length carried from one turn of the receive loop to the next does.

`receiveMessages` passes one variable to `m_socket.receive` as the room there is, and
finds in it the length of what was received.  Only the first datagram of a call is
received with the whole buffer; each later one has the room its predecessor took.  A
datagram longer than that is consumed, truncated and forgotten.

`drain` calls `receiveMessages` until nothing is queued, and `isolated` gives every
datagram a call of its own.  The two agree exactly when no datagram is longer than a
predecessor that made no event (`drained_as_isolated_iff`): an event ends the call, so
that the next one starts with the whole buffer again.

The proof follows the one socket that holds datagrams.  `grab` is what a single
`receive` makes of its queue, and `receiveLoop_held` what a whole call makes of it: it
gets through some of the queue as `digest` says, or it has lost a datagram for good.
-/
import UdpConnect.Proofs.Scan

namespace UdpConnect

open Memory AlternatingBit

/-! ### Draining a socket, and giving every datagram its own call -/

/-- What one call reports to the application. -/
def callReports (r : UdcServerImpl × Option UdcEvent) : List Report :=
  (r.2.map (UdcEvent.report r.1.messageBuffer)).toList

/-- Up to `calls` calls of `receiveMessages`, as long as something is queued. -/
def UdcServerImpl.drain (time : Milliseconds) : Nat → UdcServerImpl → UdcServerImpl × List Report
  | 0, s => (s, [])
  | calls + 1, s =>
      if s.socket.backlog = 0 then (s, [])
      else
        let r := s.receiveMessages time
        let t := drain time calls r.1
        (t.1, callReports r ++ t.2)

/-- Each thing arrives when its turn has come and is met by a call of its own. -/
def UdcServerImpl.isolated (time : Milliseconds) :
    List Op → UdcServerImpl → UdcServerImpl × List Report
  | [], s => (s, [])
  | arrival :: arrivals, s =>
      let r := (step s arrival).1.receiveMessages time
      let t := isolated time arrivals r.1
      (t.1, callReports r ++ t.2)

/-- Datagrams for one socket, oldest first, each with what a negative length does to it. -/
inductive Batch where
  | ipv4 (index : Nat) (datagrams : List (Datagram UdcAddressIPv4 × NegativeLength))
  | ipv6 (index : Nat) (datagrams : List (Datagram UdcAddressIPv6 × NegativeLength))

namespace Batch

def packets : Batch → List Packet
  | ipv4 _ datagrams => datagrams.map fun x => x.1.packet .ipv4
  | ipv6 _ datagrams => datagrams.map fun x => x.1.packet .ipv6

def arrivals : Batch → List Op
  | ipv4 index datagrams => datagrams.map fun x => .arriveIPv4 index (.datagram x.1 x.2)
  | ipv6 index datagrams => datagrams.map fun x => .arriveIPv6 index (.datagram x.1 x.2)

/-- The server has the socket the batch is for. -/
def Bound (s : UdcServerImpl) : Batch → Prop
  | ipv4 index _ => index < s.socket.socketIPv4.length
  | ipv6 index _ => index < s.socket.socketIPv6.length

end Batch

instance (s : UdcServerImpl) (b : Batch) : Decidable (b.Bound s) := by
  induction b using Batch.casesOn <;> unfold Batch.Bound <;> infer_instance

/-- Draining all of it leads where the separate calls lead, and every datagram is received. -/
structure DrainedAsIsolated (time : Milliseconds) (calls : Nat) (s : UdcServerImpl) (b : Batch) :
    Prop where
  empty : ((runState s b.arrivals).drain time calls).1.socket.backlog = 0
  received : ((runState s b.arrivals).drain time calls).1.socket.history.received
    = s.socket.history.received ++ b.packets
  reports : ((runState s b.arrivals).drain time calls).2 = (s.isolated time b.arrivals).2
  sent : ((runState s b.arrivals).drain time calls).1.socket.history.sent
    = (s.isolated time b.arrivals).1.socket.history.sent
  state : ((runState s b.arrivals).drain time calls).1.protocol
    = (s.isolated time b.arrivals).1.protocol

/-! ### Which datagrams make an event -/

/-- A client is known under the address, is lost, and takes an answer stamped like that. -/
def Protocol.regains (p : Protocol) (address : UdcAddressMux) (time : Milliseconds)
    (timeStamp : Nat) : Bool :=
  match p.clientsByAddress.lookup address with
  | none => false
  | some r => (timeStamp : Milliseconds) ≤ time && !(p.heap r).isConnected

/-- The message is one the application hears about. -/
def Protocol.tells (p : Protocol) (address : UdcAddressMux) (time : Milliseconds) :
    Message → Bool
  | .connectionRequest _ => false
  | .connectionHandshake endPointId =>
      match p.pendingClients.head? with
      | none => false
      | some r => (p.heap r).id = endPointId && address ∉ p.clientsByAddress
  | .ping _ => false
  | .pong timeStamp => p.regains address time timeStamp
  | .unreliable _ => true
  | .reliable .reset _ _ => false
  | .reliable (.bit b) _ _ =>
      p.reliableStates.lookup address = none ∨
        p.reliableStates.lookup address = some (stateOf (.bit b))
  | .reliableHandshake _ timeStamp => p.regains address time timeStamp

/-- The datagram is one the application hears about. -/
def Protocol.tellsOf (p : Protocol) (signature : UdcSignature) (time : Milliseconds)
    (packet : Packet) : Bool :=
  match decode signature.bytes packet.bytes with
  | none => false
  | some m => p.tells packet.address time m

/-- Behind a datagram that the application does not hear about there is no longer one. -/
def Shrinking (signature : UdcSignature) (time : Milliseconds) : Protocol → List Packet → Prop
  | _, [] => True
  | _, [_] => True
  | p, packet :: next :: rest =>
      (p.tellsOf signature time packet = false → next.bytes.length ≤ packet.bytes.length) ∧
        Shrinking signature time (p.react signature time packet).state (next :: rest)

instance decidableShrinking (signature : UdcSignature) (time : Milliseconds) (p : Protocol) :
    (ps : List Packet) → Decidable (Shrinking signature time p ps)
  | [] => .isTrue trivial
  | [_] => .isTrue trivial
  | packet :: next :: rest =>
      have := decidableShrinking signature time (p.react signature time packet).state (next :: rest)
      inferInstanceAs (Decidable (_ ∧ _))

theorem shrinking_cons {signature : UdcSignature} {time : Milliseconds} {p : Protocol}
    {packet : Packet} {rest : List Packet} :
    Shrinking signature time p (packet :: rest) ↔
      (p.tellsOf signature time packet = false →
        ∀ next ∈ rest.head?, next.bytes.length ≤ packet.bytes.length) ∧
      Shrinking signature time (p.react signature time packet).state rest := by
  cases rest with
  | nil => simp [Shrinking]
  | cons next rest => simp [Shrinking]

theorem regains_answer (p : Protocol) (address : UdcAddressMux) (time : Milliseconds)
    (timeStamp : Nat) {change : UdcClient → UdcClient}
    (hchange : ∀ c, (change c).isConnected = c.isConnected) :
    (p.answer address time timeStamp change).report.isSome
      = p.regains address time timeStamp := by
  unfold Protocol.answer Protocol.regains
  cases p.clientsByAddress.lookup address with
  | none => rfl
  | some r =>
      by_cases htime : time < timeStamp
      · have hle : ¬ (timeStamp : Milliseconds) ≤ time := not_le.mpr htime
        simp [htime, hle, Protocol.idle]
      · have hle : (timeStamp : Milliseconds) ≤ time := not_lt.mp htime
        simp only [if_neg htime, (receivePong_same (change (p.heap r)) timeStamp time).2.2,
          hchange, hle]
        cases (p.heap r).isConnected <;> rfl

theorem tells_handle (p : Protocol) (address : UdcAddressMux) (time : Milliseconds) (m : Message) :
    (p.handle address time m).report.isSome = p.tells address time m := by
  cases m with
  | connectionRequest endPointId => rfl
  | connectionHandshake endPointId =>
      simp only [Protocol.handle, Protocol.handshake, Protocol.tells]
      cases p.pendingClients.head? with
      | none => rfl
      | some r =>
          by_cases hid : (p.heap r).id = endPointId
          · by_cases hmem : address ∈ p.clientsByAddress <;> simp [hid, hmem, Protocol.idle]
          · simp [hid, Protocol.idle]
  | ping timeStamp => rfl
  | pong timeStamp => exact regains_answer p address time timeStamp fun _ => rfl
  | unreliable data => rfl
  | reliable kind timeStamp data =>
      cases kind with
      | reset => rfl
      | bit b =>
          simp only [Protocol.handle, Protocol.reliable, Protocol.tells]
          split <;> simp [*]
  | reliableHandshake kind timeStamp =>
      exact regains_answer p address time timeStamp fun c => (acceptHandshake_same c _).2

theorem tellsOf_react (p : Protocol) (signature : UdcSignature) (time : Milliseconds)
    (packet : Packet) :
    (p.react signature time packet).report.isSome = p.tellsOf signature time packet := by
  unfold Protocol.react Protocol.tellsOf
  cases decode signature.bytes packet.bytes with
  | none => rfl
  | some m => exact tells_handle p packet.address time m

/-! ### The one socket that holds datagrams -/

/-- Asking a queue for `n < 2 ^ 31` bytes: what is returned, the size reported, and what is left. -/
def grab (n : Nat) : List Packet → Option Packet × Nat × List Packet
  | [] => (none, n, [])
  | p :: ps =>
      if p.bytes.length ≤ n then (some p, p.bytes.length, ps) else (none, 2 ^ 32 - 1, ps)

theorem grab_fits {n : Nat} {p : Packet} (hp : p.bytes.length ≤ n) (ps : List Packet) :
    grab n (p :: ps) = (some p, p.bytes.length, ps) := by
  rw [grab, if_pos hp]

theorem grab_long {n : Nat} {p : Packet} (hp : n < p.bytes.length) (ps : List Packet) :
    grab n (p :: ps) = (none, 2 ^ 32 - 1, ps) := by
  rw [grab, if_neg (Nat.not_le.mpr hp)]

section Sockets

variable {Address : Type} {family : Address → UdcAddress}

/-- The socket with this index holds the packets, and the others hold nothing. -/
inductive Held (family : Address → UdcAddress) :
    List Packet → Nat → List (UdcSocket Address) → Prop
  | here (ds : List (Datagram Address × NegativeLength)) {rest : List (UdcSocket Address)}
      (hrest : ∀ s ∈ rest, s.pending = []) :
      Held family (ds.map fun x => x.1.packet family) 0
        (⟨ds.map fun x => .datagram x.1 x.2⟩ :: rest)
  | there {ps : List Packet} {index : Nat} {sockets : List (UdcSocket Address)}
      (h : Held family ps index sockets) : Held family ps (index + 1) (⟨[]⟩ :: sockets)

theorem backlogOf_empty {sockets : List (UdcSocket Address)} :
    backlogOf sockets = 0 ↔ ∀ s ∈ sockets, s.pending = [] := by
  simp [backlogOf, List.sum_eq_zero_iff_forall_eq_nat]

theorem Held.backlog {ps : List Packet} {index : Nat} {sockets : List (UdcSocket Address)}
    (h : Held family ps index sockets) : backlogOf sockets = ps.length := by
  induction h with
  | here ds hrest =>
      have hzero := backlogOf_empty.mpr hrest
      simp only [backlogOf] at hzero
      simp [backlogOf, hzero]
  | there h ih => simpa [backlogOf] using ih

theorem held_empty {sockets : List (UdcSocket Address)} (h : ∀ s ∈ sockets, s.pending = [])
    {index : Nat} (hindex : index < sockets.length) : Held family [] index sockets := by
  induction sockets generalizing index with
  | nil => cases hindex
  | cons s rest ih =>
      obtain ⟨hs, hrest⟩ := List.forall_mem_cons.mp h
      have heq : s = ⟨[]⟩ := by
        obtain ⟨pending⟩ := s
        exact congrArg UdcSocket.mk hs
      subst heq
      cases index with
      | zero => exact .here [] hrest
      | succ index => exact .there (ih hrest (Nat.lt_of_succ_lt_succ hindex))

theorem held_arrive {ps : List Packet} {index : Nat} {sockets : List (UdcSocket Address)}
    (h : Held family ps index sockets) (d : Datagram Address) (negative : NegativeLength) :
    Held family (ps ++ [d.packet family]) index
      (sockets.modify index fun s => ⟨s.pending ++ [.datagram d negative]⟩) := by
  induction h with
  | here ds hrest =>
      have hnew : Held family _ 0 _ := .here (ds ++ [(d, negative)]) hrest
      simpa using hnew
  | there h ih => exact .there ih

/-- What a pass over the sockets does is what it does to the one that holds something. -/
structure Grabbed (family : Address → UdcAddress) (ps : List Packet) (n index : Nat)
    (r : ScanResult Address) : Prop where
  source : r.source.map (Datagram.packet family) = (grab n ps).1
  size : r.size = (grab n ps).2.1
  held : Held family (grab n ps).2.2 index r.sockets

theorem receivePacket_empty (b : MessageBuffer) (n : Nat) :
    receivePacket (⟨[]⟩ : UdcSocket Address) b n = ⟨0, none, b, n, ⟨[]⟩⟩ := by
  simp [receivePacket, recvfrom, socketError]

theorem receiveFirst_cons_empty (rest : List (UdcSocket Address)) (b : MessageBuffer) (n : Nat) :
    receiveFirst receivePacket (⟨[]⟩ :: rest) b n
      = { receiveFirst receivePacket rest b n with
          sockets := ⟨[]⟩ :: (receiveFirst receivePacket rest b n).sockets
          asked := asInt n :: (receiveFirst receivePacket rest b n).asked } := by
  have hcode : ¬ (0 : Int) = 1 := by decide
  rw [receiveFirst, receivePacket_empty, if_neg hcode]

theorem receiveFirst_empty {sockets : List (UdcSocket Address)}
    (h : ∀ s ∈ sockets, s.pending = []) (b : MessageBuffer) (n : Nat) :
    ∃ asked, receiveFirst receivePacket sockets b n = ⟨sockets, none, b, n, asked⟩ := by
  induction sockets with
  | nil => exact ⟨_, rfl⟩
  | cons s rest ih =>
      obtain ⟨hs, hrest⟩ := List.forall_mem_cons.mp h
      obtain ⟨asked, hasked⟩ := ih hrest
      have heq : s = ⟨[]⟩ := by
        obtain ⟨pending⟩ := s
        exact congrArg UdcSocket.mk hs
      subst heq
      exact ⟨asInt n :: asked, by rw [receiveFirst_cons_empty, hasked]⟩

theorem receiveFirst_held {ps : List Packet} {index : Nat} {sockets : List (UdcSocket Address)}
    (h : Held family ps index sockets) (hpos : ∀ p ∈ ps, 1 ≤ p.bytes.length)
    (b : MessageBuffer) {n : Nat} (hn : n < 2 ^ 31) :
    Grabbed family ps n index (receiveFirst receivePacket sockets b n) := by
  induction h with
  | @here ds rest hrest =>
      cases ds with
      | nil =>
          obtain ⟨asked, hasked⟩ := receiveFirst_empty hrest b n
          rw [List.map_nil, List.map_nil, receiveFirst_cons_empty, hasked]
          exact ⟨rfl, rfl, .here [] hrest⟩
      | cons x ds =>
          obtain ⟨d, negative⟩ := x
          have hlen : 1 ≤ d.bytes.length := hpos _ List.mem_cons_self
          rw [List.map_cons, List.map_cons, receiveFirst,
            receivePacket_datagram b (hn.trans (by decide)) rfl, if_neg (Nat.not_le.mpr hn),
            if_neg (Nat.ne_of_gt hlen)]
          by_cases hfits : d.bytes.length ≤ n
          · have hgrab := grab_fits (p := d.packet family) hfits
              (ds.map fun x => x.1.packet family)
            rw [if_pos hfits]
            exact ⟨by rw [hgrab]; rfl, by rw [hgrab]; rfl, by rw [hgrab]; exact .here ds hrest⟩
          · have hgrab := grab_long (p := d.packet family) (Nat.lt_of_not_le hfits)
              (ds.map fun x => x.1.packet family)
            have hcode : ¬ (-1 : Int) = 1 := by decide
            obtain ⟨asked, hasked⟩ :=
              receiveFirst_empty hrest (b.write 0 (d.bytes.take n)) (2 ^ 32 - 1)
            rw [if_neg hfits, if_neg hcode, hasked]
            exact ⟨by rw [hgrab]; rfl, by rw [hgrab], by rw [hgrab]; exact .here ds hrest⟩
  | there h ih =>
      obtain ⟨hsource, hsize, hheld⟩ := ih hpos
      rw [receiveFirst_cons_empty]
      exact ⟨hsource, hsize, .there hheld⟩

end Sockets

/-- Of all the server's sockets, the one named holds the packets and the others nothing. -/
def UdcSocketMux.Holds (m : UdcSocketMux) : SocketName → List Packet → Prop
  | .ipv4 index, ps => Held .ipv4 ps index m.socketIPv4 ∧ ∀ s ∈ m.socketIPv6, s.pending = []
  | .ipv6 index, ps => Held .ipv6 ps index m.socketIPv6 ∧ ∀ s ∈ m.socketIPv4, s.pending = []

section Mux

variable {m : UdcSocketMux} {name : SocketName} {ps : List Packet}

theorem Holds.backlog (h : m.Holds name ps) : m.backlog = ps.length := by
  rw [backlog_eq]
  cases name with
  | ipv4 index => rw [h.1.backlog, backlogOf_empty.mpr h.2, Nat.add_zero]
  | ipv6 index => rw [h.1.backlog, backlogOf_empty.mpr h.2, Nat.zero_add]

theorem receiveIPv4_empty (h : ∀ s ∈ m.socketIPv4, s.pending = []) (b : MessageBuffer)
    (n : Nat) : ∃ asked, m.receiveIPv4 b n = ⟨m.record asked none, none, b, n⟩ := by
  obtain ⟨asked, hasked⟩ := receiveFirst_empty h b n
  have hsame : receiveFirst receivePacketIPv4 m.socketIPv4 b n = _ := hasked
  exact ⟨asked, by rw [UdcSocketMux.receiveIPv4, hsame]⟩

theorem receiveIPv6_empty (h : ∀ s ∈ m.socketIPv6, s.pending = []) (b : MessageBuffer)
    (n : Nat) : ∃ asked, m.receiveIPv6 b n = ⟨m.record asked none, none, b, n⟩ := by
  obtain ⟨asked, hasked⟩ := receiveFirst_empty h b n
  have hsame : receiveFirst receivePacketIPv6 m.socketIPv6 b n = _ := hasked
  exact ⟨asked, by rw [UdcSocketMux.receiveIPv6, hsame]⟩

/-- **One `receive` grabs from the socket that holds something.** -/
theorem receive_holds (h : m.Holds name ps) (hpos : ∀ p ∈ ps, 1 ≤ p.bytes.length)
    (b : MessageBuffer) {n : Nat} (hn : n < 2 ^ 31) :
    (m.receive b n).address = (grab n ps).1.map Packet.address ∧
      (m.receive b n).mux.history.received = m.history.received ++ (grab n ps).1.toList ∧
      (m.receive b n).size = (grab n ps).2.1 ∧
      (m.receive b n).mux.Holds name (grab n ps).2.2 := by
  unfold UdcSocketMux.receive
  cases name with
  | ipv4 index =>
      obtain ⟨hheld, hidle⟩ := h
      obtain ⟨asked, hasked⟩ := receiveIPv6_empty hidle b n
      have hscan := receiveFirst_held hheld hpos b hn
      simp only [hasked, Option.isSome_none, Bool.false_eq_true, if_false]
      unfold UdcSocketMux.receiveIPv4
      change Grabbed .ipv4 ps n index (receiveFirst receivePacketIPv4 m.socketIPv4 b n) at hscan
      simp only [UdcSocketMux.record]
      generalize receiveFirst receivePacketIPv4 m.socketIPv4 b n = r at hscan
      obtain ⟨hsource, hsize, hheld'⟩ := hscan
      rw [← hsource]
      cases hr : r.source with
      | none => exact ⟨rfl, (List.append_nil _).symm, hsize, hheld', hidle⟩
      | some d => exact ⟨rfl, rfl, hsize, hheld', hidle⟩
  | ipv6 index =>
      obtain ⟨hheld, hidle⟩ := h
      have hscan := receiveFirst_held hheld hpos b hn
      unfold UdcSocketMux.receiveIPv6
      change Grabbed .ipv6 ps n index (receiveFirst receivePacketIPv6 m.socketIPv6 b n) at hscan
      generalize receiveFirst receivePacketIPv6 m.socketIPv6 b n = r at hscan
      obtain ⟨hsource, hsize, hheld'⟩ := hscan
      rw [← hsource]
      cases hr : r.source with
      | none =>
          simp only [hr, Option.isSome_none, Bool.false_eq_true, if_false]
          obtain ⟨asked, hasked⟩ := receiveIPv4_empty
            (m := ({ m with socketIPv6 := r.sockets } : UdcSocketMux).record r.asked none)
            hidle r.buffer r.size
          rw [hasked]
          exact ⟨rfl, (List.append_nil _).symm, hsize, hheld', hidle⟩
      | some d =>
          simp only [hr, Option.isSome_some, if_true]
          exact ⟨rfl, rfl, hsize, hheld', hidle⟩

end Mux

/-! ### Datagram after datagram -/

/-- The state, the packets sent and the reports after some datagrams. -/
structure Digest where
  state : Protocol
  sent : List Packet
  reports : List Report

/-- Every datagram does what it does, one after the other. -/
def Protocol.digest (signature : UdcSignature) (time : Milliseconds) :
    Protocol → List Packet → Digest
  | p, [] => ⟨p, [], []⟩
  | p, packet :: rest =>
      let r := p.react signature time packet
      let d := digest signature time r.state rest
      ⟨d.state,
        (r.sends.map fun q => ⟨q.1, encode signature.bytes q.2, packet.mark⟩) ++ d.sent,
        r.report.toList ++ d.reports⟩

theorem digest_append (signature : UdcSignature) (time : Milliseconds) (p : Protocol)
    (ps qs : List Packet) :
    p.digest signature time (ps ++ qs)
      = ⟨((p.digest signature time ps).state.digest signature time qs).state,
        (p.digest signature time ps).sent ++
          ((p.digest signature time ps).state.digest signature time qs).sent,
        (p.digest signature time ps).reports ++
          ((p.digest signature time ps).state.digest signature time qs).reports⟩ := by
  induction ps generalizing p with
  | nil => rfl
  | cons packet ps ih => simp only [List.cons_append, Protocol.digest, ih, List.append_assoc]

/-- The server has received these datagrams and done what they do. -/
structure Follows (time : Milliseconds) (s : UdcServerImpl) (ps : List Packet)
    (reports : List Report) (s' : UdcServerImpl) : Prop where
  signature : s'.packetSignature = s.packetSignature
  size : s'.messageBufferSize = s.messageBufferSize
  received : s'.socket.history.received = s.socket.history.received ++ ps
  sent : s'.socket.history.sent
    = s.socket.history.sent ++ (s.protocol.digest s.packetSignature time ps).sent
  reports : reports = (s.protocol.digest s.packetSignature time ps).reports
  state : s'.protocol = (s.protocol.digest s.packetSignature time ps).state

/-- The same of a call that has also left the rest of the queue for later calls. -/
inductive CallOutcome (time : Milliseconds) (name : SocketName) (s : UdcServerImpl)
    (ps : List Packet) (r : UdcServerImpl × Option UdcEvent) : Prop
  | through (done rest : List Packet) (hps : ps = done ++ rest) (hsome : ps ≠ [] → done ≠ [])
      (hfollows : Follows time s done (callReports r) r.1) (hholds : r.1.socket.Holds name rest)
      (hshrinking : Shrinking s.packetSignature time s.protocol ps ↔
        Shrinking s.packetSignature time r.1.protocol rest)
  | lost (hlong : ¬ Shrinking s.packetSignature time s.protocol ps)
      (hless : r.1.socket.history.received.length + r.1.socket.backlog
        < s.socket.history.received.length + ps.length)

section Calls

variable {time : Milliseconds} {s s' s'' : UdcServerImpl} {name : SocketName}
  {ps qs : List Packet} {n : Nat}

theorem Follows.refl (time : Milliseconds) (s : UdcServerImpl) : Follows time s [] [] s :=
  ⟨rfl, rfl, (List.append_nil _).symm, (List.append_nil _).symm, rfl, rfl⟩

theorem Follows.trans {reports reports' : List Report} (h : Follows time s ps reports s')
    (h' : Follows time s' qs reports' s'') :
    Follows time s (ps ++ qs) (reports ++ reports') s'' := by
  have hdigest := digest_append s.packetSignature time s.protocol ps qs
  rw [← h.state, ← h.signature] at hdigest
  refine ⟨h'.signature.trans h.signature, h'.size.trans h.size, ?_, ?_, ?_, ?_⟩
  · rw [h'.received, h.received, List.append_assoc]
  · rw [h'.sent, h.sent, ← h.signature, hdigest, List.append_assoc]
  · rw [h'.reports, h.reports, ← h.signature, hdigest]
  · rw [h'.state, ← h.signature, hdigest]

theorem Turn.follows {packet : Packet} {event : Option UdcEvent}
    (h : Turn time s packet s' event) : Follows time s [packet] (callReports (s', event)) s' where
  signature := h.signature
  size := h.size
  received := h.received
  sent := by
    rw [h.sent]
    simp [Protocol.digest]
  reports := by
    rw [callReports, h.report]
    simp [Protocol.digest]
  state := h.state

theorem LastTurn.follows (h : LastTurn s s') : Follows time s [] (callReports (s', none)) s' where
  signature := h.signature
  size := h.size
  received := by rw [h.received, List.append_nil]
  sent := by
    rw [h.sent]
    simp [Protocol.digest]
  reports := rfl
  state := h.state

/-- A turn makes an event exactly if the application hears about its datagram. -/
theorem Turn.tells {packet : Packet} {event : Option UdcEvent}
    (h : Turn time s packet s' event) :
    s.protocol.tellsOf s.packetSignature time packet = event.isSome := by
  rw [← tellsOf_react, ← h.report]
  cases event <;> rfl

variable (time) in
/-- Handling a datagram leaves the sockets' queues alone. -/
theorem handleDatagram_holds (address : UdcAddressMux) (hn : n ≤ s.messageBufferSize)
    (h : s.socket.Holds name ps) :
    (s.handleDatagram address n time).1.socket.Holds name ps := by
  have href := @handleDatagram_react s time n hn
    ⟨address, s.messageBuffer.bytes.take n, default⟩ rfl
  rw [href.socket]
  cases name <;> exact h

variable (time) in
/-- A turn whose datagram fits takes it off the queue; its length is the next turn's room. -/
theorem receiveLoop_fits {packet : Packet} {rest : List Packet}
    (hholds : s.socket.Holds name (packet :: rest))
    (hpos : ∀ p ∈ packet :: rest, 1 ≤ p.bytes.length) (hcap : Capacity s.messageBuffer n)
    (hn : n < 2 ^ 31) (hfits : packet.bytes.length ≤ n) (fuel : Nat) :
    ∃ s' event, Turn time s packet s' event ∧ s'.socket.Holds name rest ∧
      Capacity s'.messageBuffer packet.bytes.length ∧
      UdcServerImpl.receiveLoop time (fuel + 1) s n = match event with
        | some e => (s', some e)
        | none => UdcServerImpl.receiveLoop time fuel s' packet.bytes.length := by
  obtain ⟨haddress, hreceived, hsize, hrest⟩ := receive_holds hholds hpos s.messageBuffer hn
  rw [grab_fits hfits] at haddress hreceived hsize hrest
  have hsome : (s.receive n).2.1 = some packet.address := haddress
  have hlen : (s.receive n).2.2 = packet.bytes.length := hsize
  obtain ⟨p, hp, hturn, hcap'⟩ := turn_of_receive time hcap hsome
  have hpacket : p = packet := by
    have hsame := hp.received.symm.trans hreceived
    simpa using hsame
  subst hpacket
  have hroom : (s.receive n).2.2 ≤ (s.receive n).1.messageBufferSize := by
    have hbuffer := (receive_polled (m := s.socket) hcap).1.size
    exact hp.room.trans_eq hbuffer.symm
  have hholds' := handleDatagram_holds time p.address hroom hrest
  refine ⟨_, _, hturn, hholds', by rw [← hlen]; exact hcap', ?_⟩
  rw [UdcServerImpl.receiveLoop, receive_some hsome]
  simp only [hlen]
  generalize (s.receive n).1.handleDatagram p.address p.bytes.length time = t
  obtain ⟨s', event⟩ := t
  cases event <;> rfl

variable (time) in
/-- A turn that returns nothing is the last. -/
theorem receiveLoop_stops (hholds : s.socket.Holds name ps)
    (hpos : ∀ p ∈ ps, 1 ≤ p.bytes.length) (hcap : Capacity s.messageBuffer n) (hn : n < 2 ^ 31)
    (hnone : (grab n ps).1 = none) (fuel : Nat) :
    ∃ s', LastTurn s s' ∧ s'.socket.Holds name (grab n ps).2.2 ∧
      UdcServerImpl.receiveLoop time (fuel + 1) s n = (s', none) := by
  obtain ⟨haddress, -, -, hrest⟩ := receive_holds hholds hpos s.messageBuffer hn
  rw [hnone] at haddress
  have hquiet : (s.receive n).2.1 = none := haddress
  exact ⟨(s.receive n).1, lastTurn_of_receive hcap hquiet, hrest, by
    rw [UdcServerImpl.receiveLoop, receive_none hquiet]⟩

/-- **What a call makes of the queue**, if it starts with room for the first datagram. -/
theorem receiveLoop_held (fuel : Nat) : ∀ {s : UdcServerImpl} {n : Nat} {ps : List Packet},
    s.socket.Holds name ps → ps.length < fuel → Capacity s.messageBuffer n → n < 2 ^ 31 →
    (∀ p ∈ ps, 1 ≤ p.bytes.length) → (∀ p ∈ ps.head?, p.bytes.length ≤ n) →
    CallOutcome time name s ps (UdcServerImpl.receiveLoop time fuel s n) := by
  induction fuel with
  | zero =>
      intro s n ps _ hfuel
      cases hfuel
  | succ fuel ih =>
      intro s n ps hholds hfuel hcap hn hpos hhead
      cases ps with
      | nil =>
          obtain ⟨s', hlast, hholds', hloop⟩ := receiveLoop_stops time hholds hpos hcap hn rfl
            fuel
          rw [hloop]
          exact .through [] [] rfl id hlast.follows hholds' Iff.rfl
      | cons packet rest =>
          obtain ⟨s', event, hturn, hholds', hcap', hloop⟩ := receiveLoop_fits time hholds
            hpos hcap hn (hhead packet rfl) fuel
          have htells := hturn.tells
          have hpos' : ∀ p ∈ rest, 1 ≤ p.bytes.length := fun p hp =>
            hpos p (List.mem_cons_of_mem _ hp)
          cases event with
          | some e =>
              rw [hloop]
              refine .through [packet] rest rfl (fun _ => by simp) hturn.follows hholds' ?_
              rw [hturn.state, shrinking_cons, htells]
              simp
          | none =>
              have hgo : UdcServerImpl.receiveLoop time (fuel + 1) s n
                  = UdcServerImpl.receiveLoop time fuel s' packet.bytes.length := hloop
              rw [hgo]
              have hstep : Shrinking s.packetSignature time s.protocol (packet :: rest) ↔
                  (∀ next ∈ rest.head?, next.bytes.length ≤ packet.bytes.length) ∧
                    Shrinking s.packetSignature time s'.protocol rest := by
                rw [hturn.state, shrinking_cons, htells]
                simp
              have hreceived : s'.socket.history.received.length
                  = s.socket.history.received.length + 1 := by
                rw [hturn.received, List.length_append, List.length_singleton]
              by_cases hnext : ∀ next ∈ rest.head?, next.bytes.length ≤ packet.bytes.length
              · have hlen := hhead packet rfl
                rcases ih hholds' (Nat.lt_of_succ_lt_succ hfuel) hcap' (hlen.trans_lt hn) hpos'
                    hnext with
                  ⟨done, left, hps, hsome, hfollows, hleft, hshrinking⟩ | ⟨hlong, hless⟩
                · rw [hturn.signature] at hshrinking
                  refine .through (packet :: done) left (by rw [hps]; rfl) (fun _ => by simp)
                    (hturn.follows.trans hfollows) hleft ?_
                  rw [hstep, hshrinking, and_iff_right hnext]
                · rw [hturn.signature] at hlong
                  refine .lost (fun h => hlong (hstep.mp h).2) ?_
                  rw [hreceived] at hless
                  rw [List.length_cons]
                  omega
              · -- the next datagram is longer than the room this one leaves
                cases rest with
                | nil => simp at hnext
                | cons next rest =>
                    have hlonger : packet.bytes.length < next.bytes.length := by simpa using hnext
                    have hsmall : packet.bytes.length < 2 ^ 31 := (hhead packet rfl).trans_lt hn
                    have hgrab := grab_long hlonger rest
                    obtain ⟨fuel, rfl⟩ : ∃ k, fuel = k + 1 :=
                      Nat.exists_eq_succ_of_ne_zero (by simp at hfuel; omega)
                    obtain ⟨s'', hlast, hholds'', hloop'⟩ := receiveLoop_stops time hholds'
                      hpos' hcap' hsmall (by rw [hgrab]) fuel
                    rw [hgrab] at hholds''
                    rw [hloop']
                    refine .lost (fun h => hnext (hstep.mp h).1) ?_
                    rw [hlast.received, hreceived, Holds.backlog hholds'']
                    simp only [List.length_cons]
                    omega

/-- The datagrams are not empty and fit the message buffer. -/
def Sized (s : UdcServerImpl) (ps : List Packet) : Prop :=
  ∀ p ∈ ps, 1 ≤ p.bytes.length ∧ p.bytes.length ≤ s.messageBufferSize

instance (s : UdcServerImpl) (ps : List Packet) : Decidable (Sized s ps) :=
  inferInstanceAs (Decidable (∀ p ∈ ps, _))

theorem Sized.mono (h : Sized s ps) (hsize : s'.messageBufferSize = s.messageBufferSize)
    (hsub : ∀ p ∈ qs, p ∈ ps) : Sized s' qs := by
  intro p hp
  rw [hsize]
  exact h p (hsub p hp)

variable (time) in
theorem receiveMessages_held (hholds : s.socket.Holds name ps)
    (hsmall : s.messageBufferSize < 2 ^ 31) (hsized : Sized s ps) :
    CallOutcome time name s ps (s.receiveMessages time) := by
  refine receiveLoop_held _ hholds ?_ (capacity_full _) hsmall (fun p hp => (hsized p hp).1)
    fun p hp => (hsized p (List.mem_of_mem_head? hp)).2
  rw [Holds.backlog hholds]
  exact Nat.lt_succ_self _

variable (time) in
/-- A call never makes more of what is queued and what has been received. -/
theorem receiveMessages_measure (s : UdcServerImpl) :
    (s.receiveMessages time).1.socket.history.received.length
        + (s.receiveMessages time).1.socket.backlog
      ≤ s.socket.history.received.length + s.socket.backlog := by
  refine receiveMessages_rule time (C := fun _ => True)
    (P := fun t => t.socket.history.received.length + t.socket.backlog
      ≤ s.socket.history.received.length + s.socket.backlog)
    (Q := fun t _ => t.socket.history.received.length + t.socket.backlog
      ≤ s.socket.history.received.length + s.socket.backlog)
    (fun t t' h hlast => ?_) (fun t p t' h hturn _ => ?_) (fun t p t' e h hturn _ => ?_)
    (fun _ _ => trivial) (Nat.le_refl _)
  · have hless := hlast.backlog
    rw [hlast.received]
    omega
  · have hless := hturn.backlog
    rw [hturn.received, List.length_append, List.length_singleton]
    omega
  · have hless := hturn.backlog
    rw [hturn.received, List.length_append, List.length_singleton]
    omega

variable (time) in
theorem drain_measure (calls : Nat) (s : UdcServerImpl) :
    (s.drain time calls).1.socket.history.received.length
        + (s.drain time calls).1.socket.backlog
      ≤ s.socket.history.received.length + s.socket.backlog := by
  induction calls generalizing s with
  | zero => exact Nat.le_refl _
  | succ calls ih =>
      rw [UdcServerImpl.drain]
      split
      · exact Nat.le_refl _
      · exact (ih _).trans (receiveMessages_measure time s)

theorem drain_of_empty (hempty : s.socket.backlog = 0) (calls : Nat) :
    s.drain time calls = (s, []) := by
  cases calls with
  | zero => rfl
  | succ calls => rw [UdcServerImpl.drain, if_pos hempty]

variable (time) in
/-- **Draining**: every datagram does what it does, or one of them is lost. -/
theorem drain_held (calls : Nat) : ∀ {s : UdcServerImpl} {ps : List Packet},
    s.socket.Holds name ps → ps.length ≤ calls → s.messageBufferSize < 2 ^ 31 → Sized s ps →
    (Shrinking s.packetSignature time s.protocol ps ∧
      Follows time s ps (s.drain time calls).2 (s.drain time calls).1 ∧
      (s.drain time calls).1.socket.backlog = 0) ∨
    (¬ Shrinking s.packetSignature time s.protocol ps ∧
      (s.drain time calls).1.socket.history.received.length
        < s.socket.history.received.length + ps.length) := by
  induction calls with
  | zero =>
      intro s ps hholds hcalls _ _
      obtain rfl : ps = [] := List.eq_nil_of_length_eq_zero (by omega)
      exact Or.inl ⟨trivial, .refl time s, Holds.backlog hholds⟩
  | succ calls ih =>
      intro s ps hholds hcalls hsmall hsized
      rw [UdcServerImpl.drain]
      by_cases hempty : s.socket.backlog = 0
      · rw [if_pos hempty]
        obtain rfl : ps = [] :=
          List.eq_nil_of_length_eq_zero ((Holds.backlog hholds).symm.trans hempty)
        exact Or.inl ⟨trivial, .refl time s, hempty⟩
      · rw [if_neg hempty]
        have hne : ps ≠ [] := by
          rintro rfl
          exact hempty (Holds.backlog hholds)
        rcases receiveMessages_held time hholds hsmall hsized with
          ⟨done, rest, hps, hsome, hfollows, hleft, hshrinking⟩ | ⟨hlong, hless⟩
        · have hdone : 0 < done.length := List.length_pos_iff.mpr (hsome hne)
          have hlen : ps.length = done.length + rest.length := by rw [hps, List.length_append]
          rw [hshrinking, ← hfollows.signature]
          rcases ih hleft (by omega) (hfollows.size ▸ hsmall)
              (hsized.mono hfollows.size fun p hp => by
                rw [hps]
                exact List.mem_append_right _ hp) with
            ⟨hshrinks, hrest, hzero⟩ | ⟨hlong, hless⟩
          · refine Or.inl ⟨hshrinks, ?_, hzero⟩
            rw [hps]
            exact hfollows.trans hrest
          · refine Or.inr ⟨hlong, ?_⟩
            rw [hfollows.received, List.length_append] at hless
            simp only
            omega
        · have hmono := drain_measure time calls (s.receiveMessages time).1
          exact Or.inr ⟨hlong, by simp only; omega⟩

variable (time) in
/-- A buffer whose size is negative as an `int` receives nothing. -/
theorem receiveMessages_stuck (hlarge : 2 ^ 31 ≤ s.messageBufferSize) :
    ∃ s', LastTurn s s' ∧ s.receiveMessages time = (s', none) := by
  have hsurveys := receive_surveys (m := s.socket) (b := s.messageBuffer) (size_lt s)
  have hfound : (s.receive s.messageBufferSize).2.1.isSome
      = (scan s.messageBufferSize s.socket.queues).found := hsurveys.found
  rw [(scan_stuck _ hlarge (size_lt s)).found, Option.isSome_eq_false_iff,
    Option.isNone_iff_eq_none] at hfound
  refine ⟨_, lastTurn_of_receive (capacity_full _) hfound, ?_⟩
  unfold UdcServerImpl.receiveMessages UdcServerImpl.receiveLoop
  rw [receive_none hfound]
  rfl

variable (time) in
/-- However often it is drained, such a server has received what it had received before. -/
theorem drain_stuck (calls : Nat) : ∀ {s : UdcServerImpl}, 2 ^ 31 ≤ s.messageBufferSize →
    (s.drain time calls).1.socket.history.received = s.socket.history.received := by
  induction calls with
  | zero => exact fun _ => rfl
  | succ calls ih =>
      intro s hlarge
      rw [UdcServerImpl.drain]
      split
      · rfl
      · obtain ⟨s', hlast, hcall⟩ := receiveMessages_stuck time hlarge
        rw [hcall]
        exact (ih (hlast.size ▸ hlarge)).trans hlast.received

end Calls

/-! ### Arrivals -/

/-- The call puts the packet behind what the socket holds, and does nothing else. -/
structure Arrives (time : Milliseconds) (name : SocketName) (packet : Packet) (op : Op) :
    Prop where
  holds : ∀ s ps, s.socket.Holds name ps → (step s op).1.socket.Holds name (ps ++ [packet])
  follows : ∀ s, Follows time s [] [] (step s op).1

/-- The socket a batch is for. -/
def Batch.name : Batch → SocketName
  | ipv4 index _ => .ipv4 index
  | ipv6 index _ => .ipv6 index

section Arrivals

variable {s : UdcServerImpl} {name : SocketName} {packets qs : List Packet} {ops : List Op}

variable (time : Milliseconds)

theorem batch_arrives (b : Batch) :
    List.Forall₂ (Arrives time b.name) b.packets b.arrivals := by
  cases b with
  | ipv4 index datagrams =>
      refine List.forall₂_map_left_iff.mpr (List.forall₂_map_right_iff.mpr
        (List.forall₂_same.mpr fun x _ => ⟨fun s ps h => ?_, fun s => ?_⟩))
      · exact ⟨held_arrive h.1 x.1 x.2, h.2⟩
      · exact ⟨rfl, rfl, (List.append_nil _).symm, (List.append_nil _).symm, rfl, rfl⟩
  | ipv6 index datagrams =>
      refine List.forall₂_map_left_iff.mpr (List.forall₂_map_right_iff.mpr
        (List.forall₂_same.mpr fun x _ => ⟨fun s ps h => ?_, fun s => ?_⟩))
      · exact ⟨held_arrive h.1 x.1 x.2, h.2⟩
      · exact ⟨rfl, rfl, (List.append_nil _).symm, (List.append_nil _).symm, rfl, rfl⟩

/-- All of it arrives at once. -/
theorem runState_arrivals (h : List.Forall₂ (Arrives time name) packets ops)
    (hholds : s.socket.Holds name qs) :
    (runState s ops).socket.Holds name (qs ++ packets) ∧
      Follows time s [] [] (runState s ops) := by
  induction h generalizing s qs with
  | nil => exact ⟨by rw [List.append_nil]; exact hholds, .refl time s⟩
  | @cons packet op packets ops harrives _ ih =>
      obtain ⟨hall, hfollows⟩ := ih (harrives.holds s qs hholds)
      rw [List.append_assoc] at hall
      exact ⟨hall, (harrives.follows s).trans hfollows⟩

/-- Separate calls do what the datagrams do, one after the other. -/
theorem isolated_follows (h : List.Forall₂ (Arrives time name) packets ops)
    (hholds : s.socket.Holds name []) (hsmall : s.messageBufferSize < 2 ^ 31)
    (hsized : Sized s packets) :
    Follows time s packets (s.isolated time ops).2 (s.isolated time ops).1 := by
  induction h generalizing s with
  | nil => exact .refl time s
  | @cons packet op packets ops harrives _ ih =>
      have hone := harrives.holds s [] hholds
      have harrived := harrives.follows s
      have hsized' : Sized (step s op).1 [packet] := hsized.mono harrived.size fun p hp => by
        rw [List.mem_singleton.mp hp]
        exact List.mem_cons_self
      rw [UdcServerImpl.isolated]
      rcases receiveMessages_held time hone (harrived.size ▸ hsmall) hsized' with
        ⟨done, rest, hps, hsome, hfollows, hleft, -⟩ | ⟨hlong, -⟩
      · -- one datagram in the queue, so the call gets through all of it
        have hdone : 0 < done.length := List.length_pos_iff.mpr (hsome (by simp))
        have hlen : 1 = done.length + rest.length := by
          rw [← List.length_append, ← hps]
          rfl
        obtain rfl : rest = [] := List.eq_nil_of_length_eq_zero (by omega)
        rw [List.append_nil] at hps
        subst hps
        have hcall := harrived.trans hfollows
        exact hcall.trans (ih hleft (hcall.size ▸ hsmall)
          (hsized.mono hcall.size fun p hp => List.mem_cons_of_mem _ hp))
      · exact absurd trivial hlong

theorem holds_of_empty (hempty : s.socket.backlog = 0) {b : Batch} (hbound : b.Bound s) :
    s.socket.Holds b.name [] := by
  rw [backlog_eq, Nat.add_eq_zero_iff, backlogOf_empty, backlogOf_empty] at hempty
  cases b with
  | ipv4 index datagrams => exact ⟨held_empty hempty.1 hbound, hempty.2⟩
  | ipv6 index datagrams => exact ⟨held_empty hempty.2 hbound, hempty.1⟩

/-- **Draining a socket is like giving every datagram its own call exactly if none is longer
than a predecessor the application did not hear about**, and the buffer is one `recvfrom` takes. -/
theorem drained_as_isolated_iff {b : Batch} (hempty : s.socket.backlog = 0) (hbound : b.Bound s)
    (hsized : Sized s b.packets) {calls : Nat} (hcalls : b.packets.length ≤ calls) :
    DrainedAsIsolated time calls s b ↔
      b.packets = [] ∨ (s.messageBufferSize < 2 ^ 31 ∧
        Shrinking s.packetSignature time s.protocol b.packets) := by
  have harrives := batch_arrives time b
  have hnil := holds_of_empty hempty hbound
  obtain ⟨hholds, hsame⟩ := runState_arrivals time harrives hnil
  rw [List.nil_append] at hholds
  have hsized' : Sized (runState s b.arrivals) b.packets := hsized.mono hsame.size fun _ => id
  by_cases hsmall : s.messageBufferSize < 2 ^ 31
  · have hisolated := isolated_follows time harrives hnil hsmall hsized
    have hdrain := drain_held time calls hholds hcalls (hsame.size ▸ hsmall) hsized'
    rw [hsame.signature, hsame.state] at hdrain
    rcases hdrain with ⟨hshrinking, hfollows, hzero⟩ | ⟨hlong, hless⟩
    · refine iff_of_true ?_ (Or.inr ⟨hsmall, hshrinking⟩)
      have hdrained := hsame.trans hfollows
      rw [List.nil_append, List.nil_append] at hdrained
      exact ⟨hzero, hdrained.received, hdrained.reports.trans hisolated.reports.symm,
        hdrained.sent.trans hisolated.sent.symm, hdrained.state.trans hisolated.state.symm⟩
    · refine iff_of_false (fun h => ?_) ?_
      · rw [h.received, hsame.received, List.append_nil, List.length_append] at hless
        exact absurd hless (Nat.lt_irrefl _)
      · rintro (hpackets | ⟨-, hshrinking⟩)
        · rw [hpackets] at hlong
          exact hlong trivial
        · exact hlong hshrinking
  · have hstuck := drain_stuck time calls (s := runState s b.arrivals)
      (hsame.size ▸ Nat.not_lt.mp hsmall)
    constructor
    · intro h
      rw [h.received, hsame.received, List.append_nil] at hstuck
      exact Or.inl (List.append_right_eq_self.mp hstuck)
    · rintro (hpackets | ⟨hlt, -⟩)
      · have hops : b.arrivals = [] := by
          rw [hpackets] at harrives
          exact List.forall₂_nil_left_iff.mp harrives
        have hdrain : (runState s b.arrivals).drain time calls = s.isolated time b.arrivals := by
          rw [hops]
          exact drain_of_empty hempty calls
        have hstay : s.isolated time b.arrivals = (s, []) := by
          rw [hops]
          rfl
        refine ⟨?_, ?_, by rw [hdrain], by rw [hdrain], by rw [hdrain]⟩
        · rw [hdrain, hstay]
          exact hempty
        · rw [hdrain, hstay, hpackets, List.append_nil]
      · exact absurd hlt hsmall

/-- A server with one IPv4 socket. -/
def boundServer : UdcServerImpl := runState exampleServer [.tryBindIPv4 true]

/-- Application data, which ends a call, before two pings, which do not. -/
def shrinkingBatch : Batch :=
  .ipv4 0 [(⟨exampleIP 2, 2, [1, 2, 3, 4, 4, 65], default⟩, .refused),
    (⟨exampleIP 2, 2, [1, 2, 3, 4, 2, 0, 0, 0, 0], default⟩, .refused),
    (⟨exampleIP 2, 2, [1, 2, 3, 4, 2, 1, 0, 0, 0], default⟩, .refused)]

theorem drained_as_isolated_shrinking : DrainedAsIsolated 10 3 boundServer shrinkingBatch :=
  (drained_as_isolated_iff 10 (by decide +kernel) (by decide +kernel) (by decide +kernel)
    (by decide +kernel)).mpr (Or.inr ⟨by decide +kernel, by decide +kernel⟩)

/-- A ping of nine bytes before application data of eleven. -/
def growingBatch : Batch :=
  .ipv4 0 [(⟨exampleIP 2, 2, [1, 2, 3, 4, 2, 0, 0, 0, 0], default⟩, .refused),
    (⟨exampleIP 2, 2, [1, 2, 3, 4, 4, 65, 66, 67, 68, 69, 70], default⟩, .refused)]

theorem lost_behind_a_ping :
    boundServer.socket.backlog = 0 ∧ growingBatch.Bound boundServer ∧
      Sized boundServer growingBatch.packets ∧
      ¬ DrainedAsIsolated 10 growingBatch.packets.length boundServer growingBatch := by
  refine ⟨by decide +kernel, by decide +kernel, by decide +kernel, fun h => ?_⟩
  have hlost : ((runState boundServer growingBatch.arrivals).drain 10
      growingBatch.packets.length).1.socket.history.received ≠
        boundServer.socket.history.received ++ growingBatch.packets := by decide +kernel
  exact hlost h.received

end Arrivals

end UdpConnect
