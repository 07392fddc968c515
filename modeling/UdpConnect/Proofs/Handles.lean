/-
The sockets of a process are its servers' sockets.

Binding a socket has four ways to fail and asks the operating system for something before
each of them, so what has to be shown is that every way out leaves the system as it was,
or with one socket more that somebody holds: `localBind_cases`.  From there `Sound` is an
invariant of a whole process, whatever the system answers, with any number of servers:
nothing is leaked, nothing is closed twice or used after it was closed, and no receive
waits.

The bind functions copy the socket they have opened into a vector, and the copy they leave
behind goes out of scope.  That this closes nothing is part of what is shown: a comment in
`UdcSocket.h` speaks of a destructor that disconnects, and there is none.
-/
import UdpConnect.Lib.Ownership
import UdpConnect.Win32

namespace UdpConnect.Win32

open Ownership Past

/-! ### What a call does to the system -/

section System

variable {os os' os'' : System} {s s' : SOCKET} {h : Handle} {Address : Type} [Family Address]
  {a : Answers} {port : UInt16} {socket : UdcSocket}

@[simp] theorem handles_set_self (os : System) (s : SOCKET) (h : Option Handle) :
    (os.set s h).handles s = h := Function.update_self ..

theorem handles_set_of_ne (os : System) (hne : s' ≠ s) (h : Option Handle) :
    (os.set s h).handles s' = os.handles s' := Function.update_of_ne hne ..

@[simp] theorem set_set (os : System) (s : SOCKET) (h h' : Option Handle) :
    (os.set s h).set s h' = os.set s h' := by
  unfold System.set
  simp

/-- To close what was opened last leaves nothing behind. -/
theorem set_none (hfree : os.handles s = none) : os.set s none = os := by
  unfold System.set
  rw [← hfree, Function.update_eq_self]

theorem change_set (os : System) (s : SOCKET) (h : Handle) (f : Handle → Handle) (ok : Bool) :
    (os.set s (some h)).change s f ok
      = if ok then (os.set s (some (f h)), true) else (os.set s (some h), false) := by
  unfold System.change
  rw [handles_set_self]
  simp

theorem closesocket_set (hfree : os.handles s = none) (h : Handle) :
    (os.set s (some h)).closesocket s = os := by
  unfold System.closesocket
  rw [handles_set_self]
  simp [set_none hfree]

/-- A socket as a server uses it. -/
structure System.Ready (os : System) (family : AddressFamily) (s : SOCKET) : Prop where
  ready : ∃ h, os.handles s = some h ∧ h.pending.family = family ∧ h.nonBlocking = true ∧
    h.localPort.isSome = true

/-- What a bind leaves at a socket. -/
def boundHandle (Address : Type) [Family Address] (port : UInt16) (ipv6Only : Bool) : Handle where
  pending := Family.pending ([] : List (Arrival Address))
  nonBlocking := true
  ipv6Only := ipv6Only
  localPort := some port

/-- **A bind leaves the system as it was, or opens one socket that is ready.** -/
theorem localBind_cases (Address : Type) [Family Address] (socket : UdcSocket) (port : UInt16)
    (allowIPv4 : Bool) (hstarted : os.started = true)
    (hfresh : ∀ s, a.socket = some s → os.handles s = none) :
    socket.localBind Address os port allowIPv4 a = (os, socket, false) ∨
      ∃ s, a.socket = some s ∧ os.handles s = none ∧
        socket.localBind Address os port allowIPv4 a
          = (os.set s (some (boundHandle Address port !allowIPv4)), ⟨some s⟩, true) := by
  unfold UdcSocket.localBind createSocket System.socket
  rw [hstarted]
  cases hsocket : a.socket with
  | none => exact Or.inl rfl
  | some s =>
      have hfree := hfresh s hsocket
      simp only [Bool.not_true, Bool.false_eq_true, if_false, setSocketOptionNonBlocking,
        setSocketOptionIpv6Only, bindSocket, deleteSocket, change_set]
      cases a.nonBlocking with
      | false => exact Or.inl (by simp [closesocket_set hfree])
      | true =>
          cases allowIPv4 with
          | false =>
              cases a.bind with
              | false => exact Or.inl (by simp [change_set, closesocket_set hfree])
              | true => exact Or.inr ⟨s, rfl, hfree, by simp [change_set, boundHandle]⟩
          | true =>
              cases a.ipv6Only with
              | false => exact Or.inl (by simp [change_set, closesocket_set hfree])
              | true =>
                  cases a.bind with
                  | false => exact Or.inl (by simp [change_set, closesocket_set hfree])
                  | true => exact Or.inr ⟨s, rfl, hfree, by simp [change_set, boundHandle]⟩

/-! What the system keeps for a socket may change without the socket's changing. -/

/-- The same socket, with something else waiting at it. -/
structure Handle.Same (h h' : Handle) : Prop where
  family : h'.pending.family = h.pending.family
  nonBlocking : h'.nonBlocking = h.nonBlocking
  localPort : h'.localPort = h.localPort

/-- The same sockets are open, and what waits has changed at most where it was allowed to. -/
structure Still (touched : SOCKET → Prop) (os os' : System) : Prop where
  started : os'.started = os.started
  faults : os'.faults = os.faults
  untouched : ∀ s, ¬ touched s → os'.handles s = os.handles s
  closed : ∀ s, os.handles s = none → os'.handles s = none
  same : ∀ s h, os.handles s = some h → ∃ h', os'.handles s = some h' ∧ h.Same h'

variable {touched touched' : SOCKET → Prop} {family : AddressFamily}

theorem Still.refl (touched : SOCKET → Prop) (os : System) : Still touched os os where
  started := rfl
  faults := rfl
  untouched _ _ := rfl
  closed _ hs := hs
  same _ h hs := ⟨h, hs, rfl, rfl, rfl⟩

theorem Still.trans (h : Still touched os os') (h' : Still touched os' os'') :
    Still touched os os'' where
  started := h'.started.trans h.started
  faults := h'.faults.trans h.faults
  untouched s hs := (h'.untouched s hs).trans (h.untouched s hs)
  closed s hs := h'.closed s (h.closed s hs)
  same s x hx := by
    obtain ⟨y, hy, hxy⟩ := h.same s x hx
    obtain ⟨z, hz, hyz⟩ := h'.same s y hy
    exact ⟨z, hz, hyz.family.trans hxy.family, hyz.nonBlocking.trans hxy.nonBlocking,
      hyz.localPort.trans hxy.localPort⟩

theorem Still.mono (h : Still touched os os') (hsub : ∀ s, touched s → touched' s) :
    Still touched' os os' where
  started := h.started
  faults := h.faults
  untouched s hs := h.untouched s fun ht => hs (hsub s ht)
  closed := h.closed
  same := h.same

theorem still_set (hs : os.handles s = some h) {h' : Handle} (hsame : h.Same h') :
    Still (· = s) os (os.set s (some h')) where
  started := rfl
  faults := rfl
  untouched s' hne := handles_set_of_ne os hne (some h')
  closed s' hclosed := by
    have hne : s' ≠ s := by
      rintro rfl
      rw [hs] at hclosed
      cases hclosed
    rw [handles_set_of_ne os hne, hclosed]
  same s' x hx := by
    by_cases hne : s' = s
    · subst hne
      rw [hs] at hx
      cases hx
      exact ⟨h', handles_set_self os s' (some h'), hsame⟩
    · exact ⟨x, (handles_set_of_ne os hne (some h')).trans hx, rfl, rfl, rfl⟩

theorem Still.isSome (hstill : Still touched os os') (s : SOCKET) :
    (os'.handles s).isSome = (os.handles s).isSome := by
  cases hs : os.handles s with
  | none => rw [hstill.closed s hs]
  | some h =>
      obtain ⟨h', hs', -⟩ := hstill.same s h hs
      rw [hs']
      rfl

theorem Still.ready (hstill : Still touched os os') (hready : os.Ready family s) :
    os'.Ready family s := by
  obtain ⟨h, hs, hfamily, hblocking, hport⟩ := hready.ready
  obtain ⟨h', hs', hsame⟩ := hstill.same s h hs
  exact ⟨h', hs', hsame.family.trans hfamily, hsame.nonBlocking.trans hblocking,
    hsame.localPort ▸ hport⟩

end System

/-! ### What a server asks of its sockets -/

/-- What waits at a socket, as a queue. -/
def queue {Address : Type} [Family Address] (os : System) (socket : UdcSocket) :
    UdpConnect.UdcSocket Address :=
  ⟨((socket.m_socket.bind os.handles).bind fun h => Family.pending? h.pending).getD []⟩

/-- The sockets of a vector are ready. -/
def AllReady (os : System) (family : AddressFamily) (sockets : List UdcSocket) : Prop :=
  ∀ u ∈ sockets, ∃ s, u.m_socket = some s ∧ os.Ready family s

/-- The numbers behind the sockets. -/
def numbers (sockets : List UdcSocket) : List SOCKET := sockets.filterMap UdcSocket.m_socket

section Asking

variable {os os' : System} {s : SOCKET} {Address : Type} [Family Address] {socket : UdcSocket}
  {sockets : List UdcSocket} {touched : SOCKET → Prop} {family : AddressFamily}

theorem mem_numbers : s ∈ numbers sockets ↔ ∃ u ∈ sockets, u.m_socket = some s :=
  List.mem_filterMap

theorem AllReady.still (h : AllReady os family sockets) (hstill : Still touched os os') :
    AllReady os' family sockets := by
  intro u hu
  obtain ⟨s, hs, hready⟩ := h u hu
  exact ⟨s, hs, hstill.ready hready⟩

theorem family_pending (xs : List (Arrival Address)) :
    (Family.pending xs).family = Family.family Address := by
  have hsome := (Family.pending?_iff (Family.pending xs) xs).mpr rfl
  exact (@Family.family_iff Address _ _).mpr (by rw [hsome]; rfl)

/-- What a ready socket holds, and its queue. -/
theorem ready_queue (hready : os.Ready (Family.family Address) s)
    (hsocket : socket.m_socket = some s) : ∃ h xs, os.handles s = some h ∧
      h.nonBlocking = true ∧ h.pending = Family.pending xs ∧
      (queue os socket : UdpConnect.UdcSocket Address) = ⟨xs⟩ := by
  obtain ⟨h, hs, hfamily, hblocking, -⟩ := hready.ready
  obtain ⟨xs, hxs⟩ := Option.isSome_iff_exists.mp ((@Family.family_iff Address _ _).mp hfamily)
  refine ⟨h, xs, hs, hblocking, (Family.pending?_iff _ _).mp hxs, ?_⟩
  unfold queue
  rw [hsocket, Option.bind_some, hs, Option.bind_some, hxs]
  rfl

theorem queue_untouched (hstill : Still touched os os')
    (huntouched : ∀ s, socket.m_socket = some s → ¬ touched s) :
    (queue os' socket : UdpConnect.UdcSocket Address) = queue os socket := by
  unfold queue
  cases hs : socket.m_socket with
  | none => rfl
  | some s => rw [Option.bind_some, Option.bind_some, hstill.untouched s (huntouched s hs)]

/-- A receive at a ready socket is a receive at its queue. -/
theorem receive_ready (hready : os.Ready (Family.family Address) s)
    (hsocket : socket.m_socket = some s) (buffer : MessageBuffer) (size : Nat) :
    let r : Received Address := socket.receive os buffer size
    let q := receivePacket (queue os socket : UdpConnect.UdcSocket Address) buffer size
    r.code = q.code ∧ r.source = q.source ∧ r.buffer = q.buffer ∧ r.size = q.size ∧
      queue r.os socket = q.socket ∧ Still (· = s) os r.os := by
  obtain ⟨h, xs, hs, hblocking, hpending, hqueue⟩ := ready_queue hready hsocket
  have hxs : (Family.pending? h.pending : Option (List (Arrival Address))) = some xs :=
    (Family.pending?_iff _ _).mpr hpending
  rw [hqueue]
  unfold UdcSocket.receive receivePacketAt
  simp only [hsocket, hs, hxs, hblocking, Bool.not_true, Bool.false_and, Bool.false_eq_true,
    if_false, true_and]
  refine ⟨?_, still_set hs ⟨?_, hblocking.symm, rfl⟩⟩
  · unfold queue
    rw [hsocket, Option.bind_some, handles_set_self, Option.bind_some,
      (Family.pending?_iff _ _).mpr rfl]
    rfl
  · rw [hpending, family_pending, family_pending]

/-- The loop of `receive` over a vector is the loop over its queues. -/
theorem receiveFrom_ready (Address : Type) [Family Address] (sockets : List UdcSocket) :
    ∀ (os : System) (buffer : MessageBuffer) (size : Nat),
    AllReady os (Family.family Address) sockets → (numbers sockets).Nodup →
    let r := receiveFrom Address sockets os buffer size
    let q := receiveFirst receivePacket
      (sockets.map (queue os : UdcSocket → UdpConnect.UdcSocket Address)) buffer size
    (r.address = q.source.map fun d => ⟨Family.address d.source, d.port⟩) ∧
      r.buffer = q.buffer ∧ r.size = q.size ∧ sockets.map (queue r.os) = q.sockets ∧
      Still (· ∈ numbers sockets) os r.os := by
  induction sockets with
  | nil =>
      intro os buffer size _ _
      exact ⟨rfl, rfl, rfl, rfl, .refl _ os⟩
  | cons socket rest ih =>
      intro os buffer size hready hnodup
      obtain ⟨s, hsocket, hs⟩ := hready socket List.mem_cons_self
      have hnumbers : numbers (socket :: rest) = s :: numbers rest := by
        simp [numbers, hsocket]
      rw [hnumbers] at hnodup ⊢
      obtain ⟨hnew, hrest⟩ := List.nodup_cons.mp hnodup
      obtain ⟨hcode, hsource, hbuffer, hsize, hqueue, hstill⟩ :=
        receive_ready hs hsocket buffer size
      have hapart : ∀ (os₁ os₂ : System), Still (· = s) os₁ os₂ →
          rest.map (queue os₂ : UdcSocket → UdpConnect.UdcSocket Address)
            = rest.map (queue os₁) := by
        intro os₁ os₂ h
        refine List.map_congr_left fun u hu => queue_untouched h ?_
        rintro s' hs' rfl
        exact hnew (mem_numbers.mpr ⟨u, hu, hs'⟩)
      simp only [receiveFrom, List.map_cons, receiveFirst, hcode]
      split
      · refine ⟨by rw [hsource], hbuffer, hsize, ?_, hstill.mono fun s' hs' => ?_⟩
        · rw [hqueue, hapart _ _ hstill]
        · rw [hs']
          exact List.mem_cons_self
      · have hready' := AllReady.still (fun u hu => hready u (List.mem_cons_of_mem _ hu)) hstill
        rw [hbuffer, hsize]
        obtain ⟨haddress, hbuffer', hsize', hsockets, hstill'⟩ := ih _
          (receivePacket (queue os socket : UdpConnect.UdcSocket Address) buffer size).buffer
          (receivePacket (queue os socket : UdpConnect.UdcSocket Address) buffer size).size
          hready' hrest
        rw [hapart _ _ hstill] at haddress hbuffer' hsize' hsockets
        refine ⟨haddress, hbuffer', hsize', ?_, ?_⟩
        · rw [queue_untouched hstill' ?_, hqueue, hsockets]
          intro s' hs' hmem
          rw [hsocket] at hs'
          exact hnew (Option.some.inj hs' ▸ hmem)
        · refine (hstill.mono fun s' hs' => ?_).trans
            (hstill'.mono fun s' => List.mem_cons_of_mem s)
          rw [hs']
          exact List.mem_cons_self

/-- The system with some sockets closed. -/
def System.without (os : System) (ss : List SOCKET) : System :=
  { os with handles := fun s => if s ∈ ss then none else os.handles s }

theorem ready_congr {os' : System} (hs : os'.handles s = os.handles s)
    (hready : os.Ready family s) : os'.Ready family s := by
  obtain ⟨h, hh, hrest⟩ := hready.ready
  exact ⟨h, hs.trans hh, hrest⟩

/-- The loop of `disconnect` over a vector closes its sockets, and each once. -/
theorem disconnectAll_ready (sockets : List UdcSocket) : ∀ os : System,
    AllReady os family sockets → (numbers sockets).Nodup →
      disconnectAll sockets os = os.without (numbers sockets) := by
  induction sockets with
  | nil =>
      intro os _ _
      simp [disconnectAll, System.without, numbers]
  | cons socket rest ih =>
      intro os hready hnodup
      obtain ⟨s, hsocket, hs⟩ := hready socket List.mem_cons_self
      have hnumbers : numbers (socket :: rest) = s :: numbers rest := by
        simp [numbers, hsocket]
      rw [hnumbers] at hnodup ⊢
      obtain ⟨hnew, hrest⟩ := List.nodup_cons.mp hnodup
      obtain ⟨h, hh, -⟩ := hs.ready
      have hclose : (socket.disconnect os).1 = os.set s none := by
        simp [UdcSocket.disconnect, deleteSocket, hsocket, System.closesocket, hh]
      have hready' : AllReady (os.set s none) family rest := by
        intro u hu
        obtain ⟨s', hs', hu'⟩ := hready u (List.mem_cons_of_mem _ hu)
        have hne : s' ≠ s := by
          rintro rfl
          exact hnew (mem_numbers.mpr ⟨u, hu, hs'⟩)
        exact ⟨s', hs', ready_congr (handles_set_of_ne os hne none) hu'⟩
      have hfold : disconnectAll (socket :: rest) os = disconnectAll rest (os.set s none) := by
        rw [← hclose]
        rfl
      rw [hfold, ih _ hready' hrest]
      unfold System.without System.set
      simp only [System.mk.injEq, and_true, true_and]
      funext s'
      by_cases hne : s' = s
      · subst hne
        simp
      · simp [hne]

theorem send_ready (hready : os.Ready family s) (hsocket : socket.m_socket = some s)
    (data : List UInt8) (sent : Int) : (socket.send os data sent).1 = os := by
  obtain ⟨h, hs, -⟩ := hready.ready
  simp [UdcSocket.send, hsocket, sendPacket, hs]

end Asking

/-! ### A process keeps its sockets -/

/-- The sockets of a server. -/
def UdcSocketMux.held (m : UdcSocketMux) : List SOCKET :=
  numbers m.socketIPv4 ++ numbers m.socketIPv6

def Process.held (p : Process) (i : Nat) : List SOCKET :=
  ((p.servers i).map UdcSocketMux.held).getD []

/-- The servers hold what is open, and it is all ready. -/
structure Sound (p : Process) : Prop where
  owned : Owned (fun s => (p.world.os.handles s).isSome = true) p.held
  readyIPv4 : ∀ i m, p.servers i = some m → AllReady p.world.os .inet m.socketIPv4
  readyIPv6 : ∀ i m, p.servers i = some m → AllReady p.world.os .inet6 m.socketIPv6
  started : p.world.winSockReference = true → p.world.os.started = true
  faults : p.world.os.faults = []

section Sound

variable {p p' : Process} {w : World} {i : Nat} {m : UdcSocketMux} {touched : SOCKET → Prop}
  {call : Call} {calls : List Call} {a : Answers} {port : UInt16}

theorem held_server (hi : p.servers i = some m) : p.held i = m.held := by
  unfold Process.held
  rw [hi]
  rfl

theorem held_setServer (p : Process) (i : Nat) (w : World) (m : Option UdcSocketMux) :
    (p.setServer i w m).held = Function.update p.held i ((m.map UdcSocketMux.held).getD []) := by
  funext j
  unfold Process.held Process.setServer
  by_cases hj : j = i
  · subst hj
    simp
  · simp [hj]

theorem servers_setServer_self (p : Process) (i : Nat) (w : World) (m : Option UdcSocketMux) :
    (p.setServer i w m).servers i = m := Function.update_self ..

theorem servers_setServer_of_ne (p : Process) {i j : Nat} (hne : j ≠ i) (w : World)
    (m : Option UdcSocketMux) : (p.setServer i w m).servers j = p.servers j :=
  Function.update_of_ne hne ..

theorem sound_start : Sound .start where
  owned := owned_nothing.congr (fun s => by simp [Process.start]) fun i => rfl
  readyIPv4 i m hi := by cases hi
  readyIPv6 i m hi := by cases hi
  started h := h
  faults := rfl

/-- No call on what is open: the system may have been started, and something may have arrived. -/
theorem sound_still (h : Sound p) (hservers : p'.servers = p.servers)
    (hstill : Still touched p.world.os p'.world.os)
    (hreference : p'.world.winSockReference = p.world.winSockReference) : Sound p' where
  owned := h.owned.congr (fun s => by rw [hstill.isSome]) fun j => by
    unfold Process.held
    rw [hservers]
  readyIPv4 j m hj := (h.readyIPv4 j m (hservers ▸ hj)).still hstill
  readyIPv6 j m hj := (h.readyIPv6 j m (hservers ▸ hj)).still hstill
  started hr := hstill.started.trans (h.started (hreference ▸ hr))
  faults := hstill.faults.trans h.faults

theorem sound_world (h : Sound p) (hhandles : w.os.handles = p.world.os.handles)
    (hfaults : w.os.faults = p.world.os.faults)
    (hstarted : w.winSockReference = true → w.os.started = true) : Sound { p with world := w } where
  owned := h.owned.congr (fun s => by rw [hhandles]) fun j => rfl
  readyIPv4 j m hj u hu := by
    obtain ⟨s, hs, hready⟩ := h.readyIPv4 j m hj u hu
    exact ⟨s, hs, ready_congr (congrFun hhandles s) hready⟩
  readyIPv6 j m hj u hu := by
    obtain ⟨s, hs, hready⟩ := h.readyIPv6 j m hj u hu
    exact ⟨s, hs, ready_congr (congrFun hhandles s) hready⟩
  started := hstarted
  faults := hfaults.trans h.faults

/-! Binding. -/

theorem refer_frame (w : World) (startup : Bool) :
    (w.refer startup).1.os.handles = w.os.handles ∧
      (w.refer startup).1.os.faults = w.os.faults := by
  unfold World.refer
  split
  · exact ⟨rfl, rfl⟩
  · split <;> exact ⟨rfl, rfl⟩

theorem refer_started (hstarted : w.winSockReference = true → w.os.started = true)
    (startup : Bool) :
    ((w.refer startup).1.winSockReference = true → (w.refer startup).1.os.started = true) ∧
      ((w.refer startup).2 = true → (w.refer startup).1.os.started = true) := by
  unfold World.refer
  split
  · rename_i hreference
    exact ⟨hstarted, fun _ => hstarted hreference⟩
  · split
    · simp [System.startup]
    · exact ⟨hstarted, fun h => by cases h⟩

/-- The world in which a bind call asks for its socket. -/
theorem sound_refer (h : Sound p) (startup : Bool) :
    Sound { p with world := (p.world.refer startup).1 } :=
  sound_world h (refer_frame _ _).1 (refer_frame _ _).2 (refer_started h.started _).1

/-- What a bind call of the mux comes to, with the socket in its place. -/
structure Binds (Address : Type) [Family Address] (w : World) (m m' : UdcSocketMux)
    (port : UInt16) (s : SOCKET) (w' : World) : Prop where
  free : w.os.handles s = none
  world : w' = { w with os := w.os.set s (some (boundHandle Address port true)) }
  held : m'.held.Perm (s :: m.held)

/-- A bind call of the mux keeps its sockets, or has one more in its place. -/
def Tried (Address : Type) [Family Address] (w : World) (m : UdcSocketMux) (port : UInt16)
    (bound : SOCKET → UdcSocketMux) (r : World × UdcSocketMux × Option Bool) : Prop :=
  (∃ b, r = (w, m, b) ∧ b ≠ some true) ∨
    ∃ s w', Binds Address w m (bound s) port s w' ∧ r = (w', bound s, some true)

/-- The constructor of the socket throws, or the socket binds or does not. -/
theorem new_localBind_cases (Address : Type) [Family Address] (port : UInt16)
    (hstarted : w.winSockReference = true → w.os.started = true)
    (hfresh : ∀ s, a.socket = some s → w.os.handles s = none) :
    (w.refer a.startup).2 = false ∨ (w.refer a.startup).2 = true ∧
      ((⟨none⟩ : UdcSocket).localBind Address (w.refer a.startup).1.os port false a
          = ((w.refer a.startup).1.os, ⟨none⟩, false) ∨
        ∃ s, (w.refer a.startup).1.os.handles s = none ∧
          (⟨none⟩ : UdcSocket).localBind Address (w.refer a.startup).1.os port false a
            = ((w.refer a.startup).1.os.set s (some (boundHandle Address port true)),
                ⟨some s⟩, true)) := by
  cases hreference : (w.refer a.startup).2 with
  | false => exact Or.inl rfl
  | true =>
      have hhandles := (refer_frame w a.startup).1
      rcases localBind_cases Address ⟨none⟩ port false
        ((refer_started hstarted a.startup).2 hreference)
        (fun s hs => (congrFun hhandles s).trans (hfresh s hs)) with hfails | ⟨s, -, hfree, hbinds⟩
      · exact Or.inr ⟨rfl, Or.inl hfails⟩
      · exact Or.inr ⟨rfl, Or.inr ⟨s, hfree, hbinds⟩⟩

theorem tryBindIPv4_tried (m : UdcSocketMux) (port : UInt16)
    (hstarted : w.winSockReference = true → w.os.started = true)
    (hfresh : ∀ s, a.socket = some s → w.os.handles s = none) :
    Tried UdcAddressIPv4 (w.refer a.startup).1 m port
      (fun s => { m with socketIPv4 := m.socketIPv4 ++ [⟨some s⟩] }) (m.tryBindIPv4 w port a) := by
  unfold UdcSocketMux.tryBindIPv4 UdcSocket.new UdcSocket.localBindIPv4
  rcases new_localBind_cases UdcAddressIPv4 port hstarted hfresh with
    hthrows | ⟨hnew, hfails | ⟨s, hfree, hbinds⟩⟩
  · exact Or.inl ⟨none, by simp [hthrows], by simp⟩
  · exact Or.inl ⟨some false, by simp [hnew, hfails], by simp⟩
  · refine Or.inr ⟨s, _, ⟨hfree, rfl, ?_⟩, by simp [hnew, hbinds]⟩
    unfold UdcSocketMux.held numbers
    simp only [List.filterMap_append, List.filterMap_cons, List.filterMap_nil,
      List.append_assoc]
    exact List.perm_middle

theorem tryBindIPv6_tried (m : UdcSocketMux) (port : UInt16)
    (hstarted : w.winSockReference = true → w.os.started = true)
    (hfresh : ∀ s, a.socket = some s → w.os.handles s = none) :
    Tried UdcAddressIPv6 (w.refer a.startup).1 m port
      (fun s => { m with socketIPv6 := m.socketIPv6 ++ [⟨some s⟩] }) (m.tryBindIPv6 w port a) := by
  unfold UdcSocketMux.tryBindIPv6 UdcSocket.new UdcSocket.localBindIPv6
  rcases new_localBind_cases UdcAddressIPv6 port hstarted hfresh with
    hthrows | ⟨hnew, hfails | ⟨s, hfree, hbinds⟩⟩
  · exact Or.inl ⟨none, by simp [hthrows], by simp⟩
  · exact Or.inl ⟨some false, by simp [hnew, hfails], by simp⟩
  · refine Or.inr ⟨s, _, ⟨hfree, rfl, ?_⟩, by simp [hnew, hbinds]⟩
    unfold UdcSocketMux.held numbers
    simp only [List.filterMap_append, List.filterMap_cons, List.filterMap_nil]
    rw [← List.append_assoc]
    exact List.perm_append_singleton s _

theorem ready_boundHandle {os : System} {s : SOCKET} {Address : Type} [Family Address]
    (ipv6Only : Bool) : (os.set s (some (boundHandle Address port ipv6Only))).Ready
      (Family.family Address) s :=
  ⟨boundHandle Address port ipv6Only, handles_set_self .., family_pending _, rfl, rfl⟩

/-- The sockets there were are ready after one more has been opened. -/
theorem AllReady.set {os : System} {s : SOCKET} {h : Option Handle} {family : AddressFamily}
    {sockets : List UdcSocket} (hready : AllReady os family sockets)
    (hfree : os.handles s = none) : AllReady (os.set s h) family sockets := by
  intro u hu
  obtain ⟨s', hs', hu'⟩ := hready u hu
  have hne : s' ≠ s := by
    rintro rfl
    obtain ⟨x, hx, -⟩ := hu'.ready
    rw [hfree] at hx
    cases hx
  exact ⟨s', hs', ready_congr (handles_set_of_ne os hne h) hu'⟩

theorem AllReady.snoc {os : System} {s : SOCKET} {family : AddressFamily}
    {sockets : List UdcSocket} (hready : AllReady os family sockets) (hs : os.Ready family s) :
    AllReady os family (sockets ++ [⟨some s⟩]) := by
  intro u hu
  rcases List.mem_append.mp hu with hu | hu
  · exact hready u hu
  · rw [List.mem_singleton.mp hu]
    exact ⟨s, rfl, hs⟩

/-- A server gets a socket more. -/
theorem sound_bind {Address : Type} [Family Address] {s : SOCKET} {m' : UdcSocketMux}
    (h : Sound p) (hi : p.servers i = some m) (hbinds : Binds Address p.world m m' port s w)
    (hreadyIPv4 : AllReady w.os .inet m'.socketIPv4)
    (hreadyIPv6 : AllReady w.os .inet6 m'.socketIPv6) : Sound (p.setServer i w (some m')) where
  owned := by
    have hfree : ¬ (p.world.os.handles s).isSome = true := by simp [hbinds.free]
    have hheld := hbinds.held
    rw [← held_server hi] at hheld
    refine (h.owned.acquire hfree hheld).congr (fun s' => ?_) fun j => ?_
    · rw [hbinds.world]
      by_cases hs' : s' = s
      · subst hs'
        simp [Process.setServer]
      · simp [Process.setServer, handles_set_of_ne _ hs', hs']
    · rw [held_setServer]
      rfl
  readyIPv4 j m'' hj := by
    by_cases hji : j = i
    · subst hji
      rw [servers_setServer_self] at hj
      rw [← Option.some.inj hj]
      exact hreadyIPv4
    · have hold := h.readyIPv4 j m'' ((servers_setServer_of_ne p hji w (some m')).symm.trans hj)
      have hset := hold.set (h := some (boundHandle Address port true)) hbinds.free
      simpa [Process.setServer, hbinds.world] using hset
  readyIPv6 j m'' hj := by
    by_cases hji : j = i
    · subst hji
      rw [servers_setServer_self] at hj
      rw [← Option.some.inj hj]
      exact hreadyIPv6
    · have hold := h.readyIPv6 j m'' ((servers_setServer_of_ne p hji w (some m')).symm.trans hj)
      have hset := hold.set (h := some (boundHandle Address port true)) hbinds.free
      simpa [Process.setServer, hbinds.world] using hset
  started hr := by
    have hw := hbinds.world
    subst hw
    exact h.started hr
  faults := by
    have hw := hbinds.world
    subst hw
    exact h.faults

theorem fresh_of_admissible
    (h : (a.socket.all fun s => (p.world.os.handles s).isNone) = true) :
    ∀ s, a.socket = some s → p.world.os.handles s = none := by
  intro s hs
  rw [hs] at h
  exact Option.isNone_iff_eq_none.mp h

/-- A server that stays as it is. -/
theorem setServer_self (hi : p.servers i = some m) (w : World) :
    p.setServer i w (some m) = { p with world := w } := by
  unfold Process.setServer
  rw [← hi, Function.update_eq_self]

/-- A bind call that adds its socket to a vector of the family the socket is of. -/
theorem sound_tried {Address : Type} [Family Address] {bound : SOCKET → UdcSocketMux}
    {r : World × UdcSocketMux × Option Bool} {startup : Bool} (h : Sound p)
    (hi : p.servers i = some m)
    (htried : Tried Address (p.world.refer startup).1 m port bound r)
    (hIPv4 : ∀ os s, os.Ready (Family.family Address) s → AllReady os .inet m.socketIPv4 →
      AllReady os .inet (bound s).socketIPv4)
    (hIPv6 : ∀ os s, os.Ready (Family.family Address) s → AllReady os .inet6 m.socketIPv6 →
      AllReady os .inet6 (bound s).socketIPv6) :
    Sound (p.setServer i r.1 (some r.2.1)) := by
  have hrefer := sound_refer h startup
  rcases htried with ⟨b, hfails, -⟩ | ⟨s, w', hbinds, hresult⟩
  · rw [hfails, setServer_self hi]
    exact hrefer
  · rw [hresult]
    have hw : w'.os = _ := congrArg World.os hbinds.world
    refine sound_bind (p := { p with world := (p.world.refer startup).1 }) hrefer hi hbinds ?_ ?_
    · rw [hw]
      exact hIPv4 _ s (ready_boundHandle true) ((hrefer.readyIPv4 i m hi).set hbinds.free)
    · rw [hw]
      exact hIPv6 _ s (ready_boundHandle true) ((hrefer.readyIPv6 i m hi).set hbinds.free)

theorem sound_tryBindIPv4 (h : Sound p) (hi : p.servers i = some m)
    (hfresh : ∀ s, a.socket = some s → p.world.os.handles s = none) :
    Sound (p.setServer i (m.tryBindIPv4 p.world port a).1
      (some (m.tryBindIPv4 p.world port a).2.1)) :=
  sound_tried h hi (tryBindIPv4_tried m port h.started hfresh)
    (fun _ _ hs hready => hready.snoc hs) (fun _ _ _ hready => hready)

theorem sound_tryBindIPv6 (h : Sound p) (hi : p.servers i = some m)
    (hfresh : ∀ s, a.socket = some s → p.world.os.handles s = none) :
    Sound (p.setServer i (m.tryBindIPv6 p.world port a).1
      (some (m.tryBindIPv6 p.world port a).2.1)) :=
  sound_tried h hi (tryBindIPv6_tried m port h.started hfresh)
    (fun _ _ _ hready => hready) (fun _ _ hs hready => hready.snoc hs)

/-! The other calls. -/

theorem numbers_nodup (h : Sound p) (hi : p.servers i = some m) :
    (numbers m.socketIPv4).Nodup ∧ (numbers m.socketIPv6).Nodup ∧
      ∀ s ∈ numbers m.socketIPv4, s ∉ numbers m.socketIPv6 := by
  have hheld := h.owned.once i
  rw [held_server hi, UdcSocketMux.held, List.nodup_append] at hheld
  exact ⟨hheld.1, hheld.2.1, fun s hs hs' => hheld.2.2 s hs s hs' rfl⟩

/-- What a receive of the mux comes to: only the server's own sockets are touched. -/
theorem still_receive (h : Sound p) (hi : p.servers i = some m) (buffer : MessageBuffer)
    (size : Nat) :
    Still (· ∈ m.held) p.world.os (m.receive p.world.os buffer size).os := by
  obtain ⟨hnodup, hnodup', -⟩ := numbers_nodup h hi
  obtain ⟨-, -, -, -, hsix⟩ := receiveFrom_ready UdcAddressIPv6 m.socketIPv6
    p.world.os buffer size (h.readyIPv6 i m hi) hnodup'
  have hsix' : Still (· ∈ m.held) p.world.os _ := hsix.mono fun s hs => List.mem_append_right _ hs
  unfold UdcSocketMux.receive
  simp only
  split
  · exact hsix'
  · obtain ⟨-, -, -, -, hfour⟩ := receiveFrom_ready UdcAddressIPv4 m.socketIPv4
      (receiveFrom UdcAddressIPv6 m.socketIPv6 p.world.os buffer size).os
      (receiveFrom UdcAddressIPv6 m.socketIPv6 p.world.os buffer size).buffer
      (receiveFrom UdcAddressIPv6 m.socketIPv6 p.world.os buffer size).size
      ((h.readyIPv4 i m hi).still hsix) hnodup
    exact hsix'.trans (hfour.mono fun s hs => List.mem_append_left _ hs)

theorem still_arrive {Address : Type} [Family Address] (os : System) (s : SOCKET)
    (arrival : Arrival Address) : Still (· = s) os (os.arrive s arrival) := by
  unfold System.arrive
  split
  · exact .refl _ os
  · rename_i h hs
    split
    · exact .refl _ os
    · rename_i xs hxs
      split
      · exact .refl _ os
      · refine still_set hs ⟨?_, rfl, rfl⟩
        rw [(Family.pending?_iff _ _).mp hxs, family_pending, family_pending]

/-- To delete a server is to close its sockets. -/
theorem disconnect_server (h : Sound p) (hi : p.servers i = some m) :
    (m.disconnect p.world.os).1 = p.world.os.without m.held := by
  obtain ⟨hnodup, hnodup', hapart⟩ := numbers_nodup h hi
  have hready : AllReady (p.world.os.without (numbers m.socketIPv4)) .inet6 m.socketIPv6 := by
    intro u hu
    obtain ⟨s, hs, hready⟩ := h.readyIPv6 i m hi u hu
    refine ⟨s, hs, ready_congr ?_ hready⟩
    have hs' : s ∉ numbers m.socketIPv4 := fun hmem =>
      hapart s hmem (mem_numbers.mpr ⟨u, hu, hs⟩)
    simp [System.without, hs']
  unfold UdcSocketMux.disconnect
  simp only
  rw [disconnectAll_ready _ _ (h.readyIPv4 i m hi) hnodup,
    disconnectAll_ready _ _ hready hnodup']
  unfold System.without UdcSocketMux.held
  simp only [System.mk.injEq, and_true, true_and]
  funext s
  by_cases hs : s ∈ numbers m.socketIPv6 <;> simp [hs]

theorem sound_delete (h : Sound p) (hi : p.servers i = some m) :
    Sound (p.setServer i { p.world with os := (m.disconnect p.world.os).1 } none) := by
  rw [disconnect_server h hi]
  have hkept : ∀ j m', j ≠ i → p.servers j = some m' → ∀ s ∈ m'.held,
      (p.world.os.without m.held).handles s = p.world.os.handles s := by
    intro j m' hne hj s hs
    have hs' : s ∉ m.held := fun hmem => hne
      (h.owned.apart j i s (held_server hj ▸ hs) (held_server hi ▸ hmem))
    simp [System.without, hs']
  refine ⟨(h.owned.release i).congr (fun s => ?_) fun j => ?_, fun j m' hj u hu => ?_,
    fun j m' hj u hu => ?_, h.started, h.faults⟩
  · rw [held_server hi]
    by_cases hs : s ∈ m.held <;> simp [Process.setServer, System.without, hs]
  · rw [held_setServer]
    rfl
  all_goals
    have hne : j ≠ i := by
      rintro rfl
      rw [servers_setServer_self] at hj
      cases hj
    rw [servers_setServer_of_ne p hne] at hj
  · obtain ⟨s, hs, hready⟩ := h.readyIPv4 j m' hj u hu
    have hmem : s ∈ m'.held := List.mem_append_left _ (mem_numbers.mpr ⟨u, hu, hs⟩)
    exact ⟨s, hs, ready_congr (hkept j m' hne hj s hmem) hready⟩
  · obtain ⟨s, hs, hready⟩ := h.readyIPv6 j m' hj u hu
    have hmem : s ∈ m'.held := List.mem_append_right _ (mem_numbers.mpr ⟨u, hu, hs⟩)
    exact ⟨s, hs, ready_congr (hkept j m' hne hj s hmem) hready⟩

theorem send_still (h : Sound p) (hi : p.servers i = some m) (address : UdcAddressMux)
    (data : List UInt8) (sent : Int) : (m.send p.world.os address data sent).1 = p.world.os := by
  have hone : ∀ family u rest, AllReady p.world.os family (u :: rest) →
      (u.send p.world.os data sent).1 = p.world.os := by
    intro family u rest hready
    obtain ⟨s, hs, hu⟩ := hready u List.mem_cons_self
    exact send_ready hu hs data sent
  have hreadyIPv4 := h.readyIPv4 i m hi
  have hreadyIPv6 := h.readyIPv6 i m hi
  unfold UdcSocketMux.send
  cases address.address with
  | ipv4 ip =>
      cases hsockets : m.socketIPv4 with
      | nil => rfl
      | cons u rest => exact hone _ u rest (hsockets ▸ hreadyIPv4)
  | ipv6 ip =>
      cases hsockets : m.socketIPv6 with
      | nil => rfl
      | cons u rest => exact hone _ u rest (hsockets ▸ hreadyIPv6)

theorem getaddrinfo_frame {α : Type} {os : System} (hstarted : os.started = true)
    (answer : Option α) :
    (os.getaddrinfo answer).1.handles = os.handles ∧
      (os.getaddrinfo answer).1.faults = os.faults ∧
      (os.getaddrinfo answer).1.started = true := by
  unfold System.getaddrinfo
  rw [hstarted]
  cases answer with
  | none => exact ⟨rfl, rfl, hstarted⟩
  | some list => exact ⟨rfl, rfl, rfl⟩

theorem stringTo_frame (Address : Type) [Family Address] (startup : Bool)
    (answer : Option (List AddrInfo)) (hstarted : w.winSockReference = true → w.os.started = true) :
    (stringTo Address w startup answer).1.os.handles = w.os.handles ∧
      (stringTo Address w startup answer).1.os.faults = w.os.faults ∧
      ((stringTo Address w startup answer).1.winSockReference = true →
        (stringTo Address w startup answer).1.os.started = true) := by
  obtain ⟨hhandles, hfaults⟩ := refer_frame w startup
  obtain ⟨hrefer, hready⟩ := refer_started hstarted startup
  unfold stringTo
  split
  · rename_i w' hw
    rw [hw] at hhandles hfaults hrefer
    exact ⟨hhandles, hfaults, hrefer⟩
  · rename_i w' hw
    rw [hw] at hhandles hfaults hready
    obtain ⟨hlists, hnofault, hstart⟩ := getaddrinfo_frame (hready rfl) answer
    split
    all_goals
      rename_i hlist
      rw [hlist] at hlists hnofault hstart
      exact ⟨hlists.trans hhandles, hnofault.trans hfaults, fun _ => hstart⟩

theorem sound_step (h : Sound p) (hadm : p.Admissible call) : Sound (p.step call) := by
  cases call with
  | createServer i =>
      have hnone : p.servers i = none := Option.isNone_iff_eq_none.mp hadm
      have hheld : p.held i = [] := by
        unfold Process.held
        rw [hnone]
        rfl
      refine ⟨h.owned.congr (fun s => Iff.rfl) fun j => ?_, fun j m hj => ?_, fun j m hj => ?_,
        h.started, h.faults⟩
      · rw [Process.step, held_setServer]
        by_cases hji : j = i
        · subst hji
          rw [hheld]
          simp [UdcSocketMux.held, numbers]
        · rw [Function.update_of_ne hji]
      all_goals
        rw [Process.step] at hj
        by_cases hji : j = i
      · subst hji
        rw [servers_setServer_self] at hj
        rw [← Option.some.inj hj]
        intro u hu
        cases hu
      · exact h.readyIPv4 j m ((servers_setServer_of_ne p hji ..).symm.trans hj)
      · subst hji
        rw [servers_setServer_self] at hj
        rw [← Option.some.inj hj]
        intro u hu
        cases hu
      · exact h.readyIPv6 j m ((servers_setServer_of_ne p hji ..).symm.trans hj)
  | tryBindIPv4 i port a =>
      obtain ⟨hserver, hfresh⟩ := hadm
      obtain ⟨m, hi⟩ := Option.isSome_iff_exists.mp hserver
      simp only [Process.step, hi]
      exact sound_tryBindIPv4 h hi (fresh_of_admissible hfresh)
  | tryBindIPv6 i port a =>
      obtain ⟨hserver, hfresh⟩ := hadm
      obtain ⟨m, hi⟩ := Option.isSome_iff_exists.mp hserver
      simp only [Process.step, hi]
      exact sound_tryBindIPv6 h hi (fresh_of_admissible hfresh)
  | send i address data sent =>
      obtain ⟨m, hi⟩ := Option.isSome_iff_exists.mp hadm
      simp only [Process.step, hi, send_still h hi]
      exact h
  | receive i buffer size =>
      obtain ⟨m, hi⟩ := Option.isSome_iff_exists.mp hadm
      simp only [Process.step, hi]
      exact sound_still h rfl (still_receive h hi buffer size) rfl
  | deleteServer i =>
      obtain ⟨m, hi⟩ := Option.isSome_iff_exists.mp hadm
      simp only [Process.step, hi]
      exact sound_delete h hi
  | stringToIPv4 startup answer =>
      obtain ⟨hhandles, hfaults, hstarted⟩ :=
        stringTo_frame UdcAddressIPv4 startup answer h.started
      exact sound_world h hhandles hfaults hstarted
  | stringToIPv6 startup answer =>
      obtain ⟨hhandles, hfaults, hstarted⟩ :=
        stringTo_frame UdcAddressIPv6 startup answer h.started
      exact sound_world h hhandles hfaults hstarted
  | arriveIPv4 s arrival | arriveIPv6 s arrival =>
      exact sound_still h rfl (still_arrive p.world.os s arrival) rfl

theorem sound_after (h : Sound p) (hruns : p.Runs calls) : Sound (p.after calls) :=
  Always.preserves (fun _ _ hp hadm => sound_step hp hadm) h hruns

/--
**A process has the sockets of its servers and no others.**  Whatever the operating system
refuses but to close a socket, each open socket is held by one server in one place, is bound
and does not wait, no call is made that the system does not allow, and when the servers are
gone so are the sockets.
-/
theorem sockets_owned (h : Process.start.Runs calls) :
    (Process.start.after calls).world.os.faults = [] ∧
      Owned (fun s => ((Process.start.after calls).world.os.handles s).isSome = true)
        (Process.start.after calls).held ∧
      (∀ i m, (Process.start.after calls).servers i = some m →
        AllReady (Process.start.after calls).world.os .inet m.socketIPv4 ∧
          AllReady (Process.start.after calls).world.os .inet6 m.socketIPv6) ∧
      ((∀ i, (Process.start.after calls).servers i = none) →
        ∀ s, (Process.start.after calls).world.os.handles s = none) := by
  have hsound := sound_after sound_start h
  refine ⟨hsound.faults, hsound.owned,
    fun i m hi => ⟨hsound.readyIPv4 i m hi, hsound.readyIPv6 i m hi⟩, fun hnone s => ?_⟩
  have hheld : ∀ i, (Process.start.after calls).held i = [] := by
    intro i
    unfold Process.held
    rw [hnone i]
    rfl
  exact Option.not_isSome_iff_eq_none.mp (hsound.owned.nothing hheld s)

end Sound

/-- The answers of a bind that succeeds with a socket. -/
def grants (s : SOCKET) : Answers := ⟨true, some s, true, true, true⟩

/-- Two servers: a bind of the first fails when its socket exists, the next one does not, and
something arrives. -/
def twoServers : List Call :=
  [.createServer 1, .createServer 2, .tryBindIPv4 1 80 { grants 5 with bind := false },
    .tryBindIPv4 1 81 (grants 5), .tryBindIPv6 2 80 (grants 6), .tryBindIPv4 1 82 (grants 7),
    .arriveIPv4 7 (.datagram ⟨exampleIP 2, 2, [1, 2, 3, 4, 4], default⟩)]

theorem sockets_owned_twoServers :
    (Process.start.after twoServers).world.os.faults = [] ∧
      ∃ i, 7 ∈ (Process.start.after twoServers).held i := by
  have hruns : Process.start.Runs twoServers := by decide +kernel
  obtain ⟨hfaults, howned, -⟩ := sockets_owned hruns
  exact ⟨hfaults, (howned.out_iff 7).mp rfl⟩

end UdpConnect.Win32
