/-
The sockets of a server are the queues that `Socket.lean` takes them to be.

`shadow` says what a call of a process is for the queues of one server: a bind is a bind
with the result it had, an arrival at a socket is one at the queue in its place, a receive
is a receive, and what the process does for other servers is nothing.  `mux_follows` shows
that along any run the sockets hold what the queues hold, and that a receive returns the
same at both.  Everything shown of servers over queues is about servers over sockets.
-/
import UdpConnect.Proofs.Handles

namespace UdpConnect.Win32

/-- What waits at the server's sockets is what waits in the queues. -/
structure Follows (os : System) (m : UdcSocketMux) (a : UdpConnect.UdcSocketMux) : Prop where
  socketIPv4 : a.socketIPv4 = m.socketIPv4.map (queue os)
  socketIPv6 : a.socketIPv6 = m.socketIPv6.map (queue os)

/-- Where a socket stands in a vector. -/
def place (sockets : List UdcSocket) (s : SOCKET) : Option Nat :=
  sockets.findIdx? fun u => u.m_socket == some s

/-- What a call of the process is for the queues of one server. -/
def shadow (i : Nat) (p : Process) (a : UdpConnect.UdcSocketMux) :
    Call → UdpConnect.UdcSocketMux
  | .createServer j => if j = i then ⟨[], [], default⟩ else a
  | .tryBindIPv4 j port ans =>
      if j = i then
        a.tryBindIPv4 (((p.servers i).bind fun m => (m.tryBindIPv4 p.world port ans).2.2)
          == some true)
      else a
  | .tryBindIPv6 j port ans =>
      if j = i then
        a.tryBindIPv6 (((p.servers i).bind fun m => (m.tryBindIPv6 p.world port ans).2.2)
          == some true)
      else a
  | .receive j buffer size => if j = i then (a.receive buffer size).mux else a
  | .arriveIPv4 s arrival =>
      match (p.servers i).bind fun m => place m.socketIPv4 s with
      | some index => a.arriveIPv4 index arrival
      | none => a
  | .arriveIPv6 s arrival =>
      match (p.servers i).bind fun m => place m.socketIPv6 s with
      | some index => a.arriveIPv6 index arrival
      | none => a
  | _ => a

/-- The queues of one server after a run. -/
def shadows (i : Nat) (p : Process) (a : UdpConnect.UdcSocketMux) :
    List Call → UdpConnect.UdcSocketMux
  | [] => a
  | call :: calls => shadows i (p.step call) (shadow i p a call) calls

section Queues

variable {Address : Type} [Family Address] {os os' : System} {s : SOCKET} {socket : UdcSocket}
  {sockets : List UdcSocket} {family : AddressFamily} {arrival : Arrival Address}
  {m : UdcSocketMux} {a : UdpConnect.UdcSocketMux}

theorem queue_congr (hsame : ∀ s, socket.m_socket = some s → os'.handles s = os.handles s) :
    (queue os' socket : UdpConnect.UdcSocket Address) = queue os socket := by
  unfold queue
  cases hs : socket.m_socket with
  | none => rfl
  | some s => rw [Option.bind_some, Option.bind_some, hsame s hs]

theorem Follows.congr (h : Follows os m a)
    (hsame : ∀ s ∈ m.held, os'.handles s = os.handles s) : Follows os' m a where
  socketIPv4 := h.socketIPv4.trans (List.map_congr_left fun u hu => queue_congr fun s hs =>
    (hsame s (List.mem_append_left _ (mem_numbers.mpr ⟨u, hu, hs⟩))).symm)
  socketIPv6 := h.socketIPv6.trans (List.map_congr_left fun u hu => queue_congr fun s hs =>
    (hsame s (List.mem_append_right _ (mem_numbers.mpr ⟨u, hu, hs⟩))).symm)

theorem arrive_ready (hready : os.Ready (Family.family Address) s)
    (hsocket : socket.m_socket = some s) (arrival : Arrival Address) :
    (queue (os.arrive s arrival) socket : UdpConnect.UdcSocket Address)
      = ⟨(queue os socket : UdpConnect.UdcSocket Address).pending ++ [arrival]⟩ := by
  obtain ⟨h, xs, hs, -, hpending, hqueue⟩ := ready_queue hready hsocket
  obtain ⟨h', hs', -, -, hport⟩ := hready.ready
  cases hs.symm.trans hs'
  have hxs : (Family.pending? h.pending : Option (List (Arrival Address))) = some xs :=
    (Family.pending?_iff _ _).mpr hpending
  have hbound : h.localPort.isNone = false := by
    rw [← Option.not_isSome, hport]
    rfl
  rw [hqueue]
  unfold System.arrive
  simp only [hs, hxs, hbound, Bool.false_eq_true, if_false]
  unfold queue
  rw [hsocket, Option.bind_some, handles_set_self, Option.bind_some,
    (Family.pending?_iff _ _).mpr rfl]
  rfl

theorem arrive_other (hready : os.Ready family s) (hfamily : family ≠ Family.family Address) :
    os.arrive s arrival = os := by
  obtain ⟨h, hs, hpending, -⟩ := hready.ready
  have hnone : (Family.pending? h.pending : Option (List (Arrival Address))) = none := by
    refine Option.not_isSome_iff_eq_none.mp fun hsome => hfamily ?_
    rw [← hpending]
    exact (@Family.family_iff Address _ _).mpr hsome
  unfold System.arrive
  simp only [hs, hnone]

/-- An arrival at a socket of a vector is one at the queue in its place. -/
theorem map_arrive (sockets : List UdcSocket) (hready : AllReady os (Family.family Address) sockets)
    (hnodup : (numbers sockets).Nodup) (s : SOCKET) (arrival : Arrival Address) :
    sockets.map (queue (os.arrive s arrival) : UdcSocket → UdpConnect.UdcSocket Address)
      = match place sockets s with
        | some index => (sockets.map (queue os)).modify index fun q => ⟨q.pending ++ [arrival]⟩
        | none => sockets.map (queue os) := by
  induction sockets with
  | nil => rfl
  | cons u rest ih =>
      obtain ⟨s', hu, hs'⟩ := hready u List.mem_cons_self
      have hnumbers : numbers (u :: rest) = s' :: numbers rest := by
        simp [numbers, hu]
      rw [hnumbers] at hnodup
      obtain ⟨hnew, hrest⟩ := List.nodup_cons.mp hnodup
      have ih := ih (fun u hu => hready u (List.mem_cons_of_mem _ hu)) hrest
      by_cases hs : s' = s
      · subst hs
        have hplace : place (u :: rest) s' = some 0 := by simp [place, List.findIdx?_cons, hu]
        rw [hplace, List.map_cons, arrive_ready hs' hu]
        simp only [List.map_cons, List.modify_zero_cons]
        congr 1
        refine List.map_congr_left fun u' hu' => queue_untouched (still_arrive os s' arrival) ?_
        rintro s'' hs'' rfl
        exact hnew (mem_numbers.mpr ⟨u', hu', hs''⟩)
      · have hplace : place (u :: rest) s = (place rest s).map (· + 1) := by
          simp [place, List.findIdx?_cons, hu, hs]
        have hhead :
            (queue (os.arrive s arrival) u : UdpConnect.UdcSocket Address) = queue os u := by
          refine queue_untouched (still_arrive os s arrival) ?_
          rintro s'' hs'' rfl
          rw [hu] at hs''
          exact hs (Option.some.inj hs'')
        rw [hplace, List.map_cons, hhead, ih]
        cases place rest s with
        | none => rfl
        | some index => simp [List.modify_succ_cons]

/-- A pass of the queues, apart from what it puts on record. -/
theorem receiveIPv6_eq (a : UdpConnect.UdcSocketMux) (buffer : MessageBuffer) (size : Nat) :
    let q := receiveFirst receivePacket a.socketIPv6 buffer size
    (a.receiveIPv6 buffer size).address = (q.source.map fun d => ⟨.ipv6 d.source, d.port⟩) ∧
      (a.receiveIPv6 buffer size).buffer = q.buffer ∧
      (a.receiveIPv6 buffer size).size = q.size ∧
      (a.receiveIPv6 buffer size).mux.socketIPv6 = q.sockets ∧
      (a.receiveIPv6 buffer size).mux.socketIPv4 = a.socketIPv4 := by
  unfold UdpConnect.UdcSocketMux.receiveIPv6 receivePacketIPv6
  simp only
  cases (receiveFirst receivePacket a.socketIPv6 buffer size).source <;>
    exact ⟨rfl, rfl, rfl, rfl, rfl⟩

theorem receiveIPv4_eq (a : UdpConnect.UdcSocketMux) (buffer : MessageBuffer) (size : Nat) :
    let q := receiveFirst receivePacket a.socketIPv4 buffer size
    (a.receiveIPv4 buffer size).address = (q.source.map fun d => ⟨.ipv4 d.source, d.port⟩) ∧
      (a.receiveIPv4 buffer size).buffer = q.buffer ∧
      (a.receiveIPv4 buffer size).size = q.size ∧
      (a.receiveIPv4 buffer size).mux.socketIPv4 = q.sockets ∧
      (a.receiveIPv4 buffer size).mux.socketIPv6 = a.socketIPv6 := by
  unfold UdpConnect.UdcSocketMux.receiveIPv4 receivePacketIPv4
  simp only
  cases (receiveFirst receivePacket a.socketIPv4 buffer size).source <;>
    exact ⟨rfl, rfl, rfl, rfl, rfl⟩

/-- What a receive returns, on either level. -/
structure SameResult (r : MuxReceived) (q : MuxResult) : Prop where
  address : r.address = q.address
  buffer : r.buffer = q.buffer
  size : r.size = q.size

/-- A receive at the sockets of a server is a receive at its queues. -/
theorem receive_follows (hfollows : Follows os m a) (hreadyIPv4 : AllReady os .inet m.socketIPv4)
    (hreadyIPv6 : AllReady os .inet6 m.socketIPv6) (hnodup : m.held.Nodup)
    (buffer : MessageBuffer) (size : Nat) :
    SameResult (m.receive os buffer size) (a.receive buffer size) ∧
      Follows (m.receive os buffer size).os m (a.receive buffer size).mux := by
  obtain ⟨hnodup4, hnodup6, hapart⟩ := List.nodup_append.mp hnodup
  obtain ⟨haddress6, hbuffer6, hsize6, hqueues6, hstill6⟩ :=
    receiveFrom_ready UdcAddressIPv6 m.socketIPv6 os buffer size hreadyIPv6 hnodup6
  obtain ⟨haddress, hbuffer, hsize, hmux6, hmux4⟩ := receiveIPv6_eq a buffer size
  rw [hfollows.socketIPv6] at haddress hbuffer hsize hmux6
  have hsame : (a.receiveIPv6 buffer size).address
      = (receiveFrom UdcAddressIPv6 m.socketIPv6 os buffer size).address :=
    haddress.trans haddress6.symm
  -- the IPv4 sockets are not touched by the pass over the others
  have hrest : m.socketIPv4.map
      (queue (receiveFrom UdcAddressIPv6 m.socketIPv6 os buffer size).os)
        = (m.socketIPv4.map (queue os) : List (UdpConnect.UdcSocket UdcAddressIPv4)) := by
    refine List.map_congr_left fun u hu => queue_untouched hstill6 fun s hs hmem => ?_
    exact hapart s (mem_numbers.mpr ⟨u, hu, hs⟩) s hmem rfl
  have hfollows6 : Follows (receiveFrom UdcAddressIPv6 m.socketIPv6 os buffer size).os m
      (a.receiveIPv6 buffer size).mux :=
    ⟨(hmux4.trans hfollows.socketIPv4).trans hrest.symm, hmux6.trans hqueues6.symm⟩
  unfold UdcSocketMux.receive UdpConnect.UdcSocketMux.receive
  simp only
  rw [hsame]
  split
  · exact ⟨⟨hsame.symm, hbuffer6.trans hbuffer.symm, hsize6.trans hsize.symm⟩, hfollows6⟩
  · rw [hbuffer6.trans hbuffer.symm, hsize6.trans hsize.symm]
    obtain ⟨haddress4, hbuffer4, hsize4, hqueues4, hstill4⟩ :=
      receiveFrom_ready UdcAddressIPv4 m.socketIPv4
        (receiveFrom UdcAddressIPv6 m.socketIPv6 os buffer size).os
        (a.receiveIPv6 buffer size).buffer (a.receiveIPv6 buffer size).size
        (hreadyIPv4.still hstill6) hnodup4
    obtain ⟨haddress', hbuffer', hsize', hmux4', hmux6'⟩ :=
      receiveIPv4_eq (a.receiveIPv6 buffer size).mux (a.receiveIPv6 buffer size).buffer
        (a.receiveIPv6 buffer size).size
    rw [hfollows6.socketIPv4] at haddress' hbuffer' hsize' hmux4'
    refine ⟨⟨haddress4.trans haddress'.symm, hbuffer4.trans hbuffer'.symm,
      hsize4.trans hsize'.symm⟩, hmux4'.trans hqueues4.symm, ?_⟩
    rw [hmux6', hfollows6.socketIPv6]
    refine List.map_congr_left fun u hu => (queue_untouched hstill4 fun s hs hmem => ?_).symm
    exact hapart s hmem s (mem_numbers.mpr ⟨u, hu, hs⟩) rfl

end Queues

section Following

variable {p : Process} {i : Nat} {a : UdpConnect.UdcSocketMux} {call : Call} {calls : List Call}
  {m : UdcSocketMux} {w : World}

theorem held_apart (h : Sound p) {j : Nat} {m' : UdcSocketMux} (hne : j ≠ i)
    (hj : p.servers j = some m') (hi : p.servers i = some m) : ∀ s ∈ m.held, s ∉ m'.held := by
  intro s hs hs'
  exact hne (h.owned.apart j i s (held_server hj ▸ hs') (held_server hi ▸ hs))

/-- What a server's queues hold stays there while a socket is opened. -/
theorem follows_opened {Address : Type} [Family Address] {m' m'' : UdcSocketMux} {port : UInt16}
    {s : SOCKET} {startup : Bool} (h : Sound p)
    (hbinds : Binds Address (p.world.refer startup).1 m' m'' port s w)
    (hi : p.servers i = some m) (hfollows : Follows p.world.os m a) : Follows w.os m a := by
  rw [hbinds.world]
  refine hfollows.congr fun s' hs' => ?_
  have hne : s' ≠ s := by
    rintro rfl
    have hopen := ((sound_refer h startup).owned.out_iff s').mpr ⟨i, by
      rw [← held_server hi] at hs'
      exact hs'⟩
    rw [hbinds.free] at hopen
    cases hopen
  exact (handles_set_of_ne _ hne _).trans (congrFun (refer_frame p.world startup).1 s')

/-- A socket that was opened last has nothing waiting at it. -/
theorem queue_bound {Address : Type} [Family Address] {w' : World} {m' m'' : UdcSocketMux}
    {port : UInt16} {s : SOCKET} (hbinds : Binds Address w' m' m'' port s w) :
    (queue w.os ⟨some s⟩ : UdpConnect.UdcSocket Address) = ⟨[]⟩ := by
  simp [queue, hbinds.world, boundHandle, (Family.pending?_iff _ _).mpr rfl]

/-- A bind call that adds its socket to a vector, on the queues of any server. -/
theorem follows_tried {Address : Type} [Family Address] {bound : SOCKET → UdcSocketMux}
    {r : World × UdcSocketMux × Option Bool} {startup : Bool} {j : Nat} {m' : UdcSocketMux}
    {port : UInt16} {opens : Bool → UdpConnect.UdcSocketMux} {result : Option Bool} (h : Sound p)
    (hj : p.servers j = some m')
    (htried : Tried Address (p.world.refer startup).1 m' port bound r)
    (hresult : j = i → result = r.2.2)
    (hfollows : ∀ m, p.servers i = some m → Follows p.world.os m a)
    (hfails : opens false = a)
    (hopens : ∀ w s, Binds Address (p.world.refer startup).1 m' (bound s) port s w →
      Follows w.os m' a → Follows w.os (bound s) (opens true))
    (hm : (p.setServer j r.1 (some r.2.1)).servers i = some m) :
    Follows (p.setServer j r.1 (some r.2.1)).world.os m
      (if j = i then opens (result == some true) else a) := by
  rcases htried with ⟨b, rfl, hb⟩ | ⟨s, w', hbinds, rfl⟩
  · rw [setServer_self hj] at hm ⊢
    have hstays := (hfollows m hm).congr fun s _ => congrFun (refer_frame p.world startup).1 s
    split
    · rename_i hij
      rw [hresult hij, beq_eq_false_iff_ne.mpr hb, hfails]
      exact hstays
    · exact hstays
  · by_cases hij : j = i
    · subst hij
      rw [servers_setServer_self] at hm
      rw [← Option.some.inj hm, if_pos rfl, hresult rfl]
      exact hopens w' s hbinds (follows_opened h hbinds hj (hfollows m' hj))
    · rw [servers_setServer_of_ne p (Ne.symm hij)] at hm
      rw [if_neg hij]
      exact follows_opened h hbinds hm (hfollows m hm)

/-- A bind call of a server is a bind of its queues. -/
theorem follows_tryBindIPv4 (h : Sound p) {j : Nat} {m' : UdcSocketMux} {port : UInt16}
    {ans : Answers} (hj : p.servers j = some m')
    (hfresh : ∀ s, ans.socket = some s → p.world.os.handles s = none)
    (hfollows : ∀ m, p.servers i = some m → Follows p.world.os m a)
    (hm : (p.step (.tryBindIPv4 j port ans)).servers i = some m) :
    Follows (p.step (.tryBindIPv4 j port ans)).world.os m
      (shadow i p a (.tryBindIPv4 j port ans)) := by
  simp only [Process.step, shadow, hj] at hm ⊢
  refine follows_tried h hj (tryBindIPv4_tried m' port h.started hfresh)
    (fun hij => by rw [← hij, hj, Option.bind_some]) hfollows rfl (fun w s hbinds hold => ?_) hm
  refine ⟨?_, hold.socketIPv6⟩
  simp only [UdpConnect.UdcSocketMux.tryBindIPv4, if_true, List.map_append, List.map_cons,
    List.map_nil, hold.socketIPv4, queue_bound hbinds]

theorem follows_tryBindIPv6 (h : Sound p) {j : Nat} {m' : UdcSocketMux} {port : UInt16}
    {ans : Answers} (hj : p.servers j = some m')
    (hfresh : ∀ s, ans.socket = some s → p.world.os.handles s = none)
    (hfollows : ∀ m, p.servers i = some m → Follows p.world.os m a)
    (hm : (p.step (.tryBindIPv6 j port ans)).servers i = some m) :
    Follows (p.step (.tryBindIPv6 j port ans)).world.os m
      (shadow i p a (.tryBindIPv6 j port ans)) := by
  simp only [Process.step, shadow, hj] at hm ⊢
  refine follows_tried h hj (tryBindIPv6_tried m' port h.started hfresh)
    (fun hij => by rw [← hij, hj, Option.bind_some]) hfollows rfl (fun w s hbinds hold => ?_) hm
  refine ⟨hold.socketIPv4, ?_⟩
  simp only [UdpConnect.UdcSocketMux.tryBindIPv6, if_true, List.map_append, List.map_cons,
    List.map_nil, hold.socketIPv6, queue_bound hbinds]

/-- The queues of one family, when something of the other family arrives. -/
theorem map_arrive_other (Address' : Type) {Address : Type} [Family Address] [Family Address']
    {os : System} {sockets : List UdcSocket}
    (hready : AllReady os (Family.family Address') sockets)
    (hfamily : Family.family Address' ≠ Family.family Address) (s : SOCKET)
    (arrival : Arrival Address) :
    (sockets.map (queue (os.arrive s arrival)) : List (UdpConnect.UdcSocket Address'))
      = sockets.map (queue os) := by
  refine List.map_congr_left fun u hu => ?_
  obtain ⟨s', hs', hready'⟩ := hready u hu
  by_cases hs : s' = s
  · subst hs
    rw [arrive_other hready' hfamily]
  · refine queue_untouched (still_arrive os s arrival) ?_
    rintro s'' hs'' rfl
    exact hs (Option.some.inj (hs'.symm.trans hs''))

theorem follows_arriveIPv4 (h : Sound p) (hi : p.servers i = some m)
    (hfollows : Follows p.world.os m a) (s : SOCKET) (arrival : Arrival UdcAddressIPv4) :
    Follows (p.world.os.arrive s arrival) m (shadow i p a (.arriveIPv4 s arrival)) := by
  have hmap := map_arrive m.socketIPv4 (h.readyIPv4 i m hi) (numbers_nodup h hi).1 s arrival
  have hother := map_arrive_other UdcAddressIPv6 (h.readyIPv6 i m hi) (by decide) s arrival
  simp only [shadow, hi, Option.bind_some]
  cases hplace : place m.socketIPv4 s with
  | none =>
      rw [hplace] at hmap
      exact ⟨hfollows.socketIPv4.trans hmap.symm, hfollows.socketIPv6.trans hother.symm⟩
  | some index =>
      rw [hplace] at hmap
      refine ⟨?_, hfollows.socketIPv6.trans hother.symm⟩
      simp only [UdpConnect.UdcSocketMux.arriveIPv4, hfollows.socketIPv4]
      exact hmap.symm

theorem follows_arriveIPv6 (h : Sound p) (hi : p.servers i = some m)
    (hfollows : Follows p.world.os m a) (s : SOCKET) (arrival : Arrival UdcAddressIPv6) :
    Follows (p.world.os.arrive s arrival) m (shadow i p a (.arriveIPv6 s arrival)) := by
  have hmap := map_arrive m.socketIPv6 (h.readyIPv6 i m hi) (numbers_nodup h hi).2.1 s arrival
  have hother := map_arrive_other UdcAddressIPv4 (h.readyIPv4 i m hi) (by decide) s arrival
  simp only [shadow, hi, Option.bind_some]
  cases hplace : place m.socketIPv6 s with
  | none =>
      rw [hplace] at hmap
      exact ⟨hfollows.socketIPv4.trans hother.symm, hfollows.socketIPv6.trans hmap.symm⟩
  | some index =>
      rw [hplace] at hmap
      refine ⟨hfollows.socketIPv4.trans hother.symm, ?_⟩
      simp only [UdpConnect.UdcSocketMux.arriveIPv6, hfollows.socketIPv6]
      exact hmap.symm

theorem follows_step (h : Sound p) (hadm : p.Admissible call)
    (hfollows : ∀ m, p.servers i = some m → Follows p.world.os m a) :
    ∀ m, (p.step call).servers i = some m →
      Follows (p.step call).world.os m (shadow i p a call) := by
  intro m hm
  cases call with
  | createServer j =>
      by_cases hij : j = i
      · subst hij
        rw [Process.step, servers_setServer_self] at hm
        rw [← Option.some.inj hm]
        simp only [shadow, if_true]
        exact ⟨rfl, rfl⟩
      · rw [Process.step, servers_setServer_of_ne p (Ne.symm hij)] at hm
        simp only [shadow, if_neg hij]
        exact hfollows m hm
  | tryBindIPv4 j port ans =>
      obtain ⟨hserver, hfresh⟩ := hadm
      obtain ⟨m', hj⟩ := Option.isSome_iff_exists.mp hserver
      exact follows_tryBindIPv4 h hj (fresh_of_admissible hfresh) hfollows hm
  | tryBindIPv6 j port ans =>
      obtain ⟨hserver, hfresh⟩ := hadm
      obtain ⟨m', hj⟩ := Option.isSome_iff_exists.mp hserver
      exact follows_tryBindIPv6 h hj (fresh_of_admissible hfresh) hfollows hm
  | send j address data sent =>
      obtain ⟨m', hj⟩ := Option.isSome_iff_exists.mp hadm
      simp only [Process.step, hj, send_still h hj] at hm ⊢
      exact hfollows m hm
  | receive j buffer size =>
      obtain ⟨m', hj⟩ := Option.isSome_iff_exists.mp hadm
      simp only [Process.step, hj] at hm ⊢
      by_cases hij : j = i
      · subst hij
        cases hj.symm.trans hm
        simp only [shadow, if_true]
        have hnodup := h.owned.once j
        rw [held_server hm] at hnodup
        exact (receive_follows (hfollows m hm) (h.readyIPv4 j m hm) (h.readyIPv6 j m hm) hnodup
          buffer size).2
      · simp only [shadow, if_neg hij]
        exact (hfollows m hm).congr fun s hs =>
          (still_receive h hj buffer size).untouched s (held_apart h hij hj hm s hs)
  | deleteServer j =>
      obtain ⟨m', hj⟩ := Option.isSome_iff_exists.mp hadm
      simp only [Process.step, hj] at hm ⊢
      by_cases hij : j = i
      · subst hij
        rw [servers_setServer_self] at hm
        cases hm
      · rw [servers_setServer_of_ne p (Ne.symm hij)] at hm
        refine (hfollows m hm).congr fun s hs => ?_
        have hs' := held_apart h hij hj hm s hs
        simp [Process.setServer, disconnect_server h hj, System.without, hs']
  | stringToIPv4 startup answer =>
      have hframe := (stringTo_frame UdcAddressIPv4 startup answer h.started).1
      exact (hfollows m hm).congr fun s _ => congrFun hframe s
  | stringToIPv6 startup answer =>
      have hframe := (stringTo_frame UdcAddressIPv6 startup answer h.started).1
      exact (hfollows m hm).congr fun s _ => congrFun hframe s
  | arriveIPv4 s arrival => exact follows_arriveIPv4 h hm (hfollows m hm) s arrival
  | arriveIPv6 s arrival => exact follows_arriveIPv6 h hm (hfollows m hm) s arrival

theorem follows_after (calls : List Call) : ∀ (p : Process) (a : UdpConnect.UdcSocketMux),
    Sound p → p.Runs calls → (∀ m, p.servers i = some m → Follows p.world.os m a) →
      ∀ m, (p.after calls).servers i = some m →
        Follows (p.after calls).world.os m (shadows i p a calls) := by
  induction calls with
  | nil =>
      intro p a _ _ hfollows
      exact hfollows
  | cons call calls ih =>
      intro p a h hruns hfollows
      exact ih _ _ (sound_step h hruns.1) hruns.2 (follows_step h hruns.1 hfollows)

/--
**A server's sockets are the queues that `Socket.lean` puts in their place.**  Along any run
of a process the two hold the same, and a receive returns the same at both.
-/
theorem mux_follows (h : Process.start.Runs calls)
    (hi : (Process.start.after calls).servers i = some m) (buffer : MessageBuffer) (size : Nat) :
    Follows (Process.start.after calls).world.os m (shadows i .start ⟨[], [], default⟩ calls) ∧
      SameResult (m.receive (Process.start.after calls).world.os buffer size)
        ((shadows i .start ⟨[], [], default⟩ calls).receive buffer size) := by
  have hsound := sound_after sound_start h
  have hfollows := follows_after calls .start ⟨[], [], default⟩ sound_start h
    (fun m hm => by cases hm) m hi
  have hnodup := hsound.owned.once i
  rw [held_server hi] at hnodup
  exact ⟨hfollows, (receive_follows hfollows (hsound.readyIPv4 i m hi) (hsound.readyIPv6 i m hi)
    hnodup buffer size).1⟩

end Following

theorem mux_follows_twoServers :
    (shadows 1 .start ⟨[], [], default⟩ twoServers).socketIPv4.length = 2 ∧
      ((shadows 1 .start ⟨[], [], default⟩ twoServers).receive exampleBuffer 16).address
        = some ⟨.ipv4 (exampleIP 2), 2⟩ := by
  have hruns : Process.start.Runs twoServers := by decide +kernel
  have hi : (Process.start.after twoServers).servers 1
      = some ⟨[⟨some 5⟩, ⟨some 7⟩], []⟩ := by rfl
  obtain ⟨hfollows, hresult⟩ := mux_follows hruns hi exampleBuffer 16
  refine ⟨?_, hresult.address.symm.trans ?_⟩
  · rw [hfollows.socketIPv4]
    rfl
  · rfl

end UdpConnect.Win32
