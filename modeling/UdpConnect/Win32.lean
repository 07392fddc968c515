/-
The sockets of Windows: `platform/win32/src/UdcSocket.cpp`,
`platform/win32/src/UdcSocketHelper.cpp`, and of `UdcSocketMux.cpp` what deals in
sockets.

`Socket.lean` takes a bound socket to be a queue of arrivals.  Under it lies a number the
operating system hands out: a `SOCKET` has to be asked for, made non-blocking, bound and
in the end closed, and the number means nothing once it is closed.  The calls of the
operating system follow their documentation.  What it answers is an argument, so each of them
may fail, but for `closesocket`: the source does not look at its result, and that an open
socket can be closed is assumed.  What an answer does to the system is `System`.  A call that
its documentation does not allow, and a receive that would wait, are put down in `faults` and
fail.

A process may have several servers, and they share one operating system.
-/
import UdpConnect.Api
import UdpConnect.Lib.Past

namespace UdpConnect.Win32

open Past

/-! ### The operating system -/

/-- A valid `SOCKET`; `INVALID_SOCKET` is `none`. -/
abbrev SOCKET := Nat

/-- `AF_INET` and `AF_INET6`. -/
inductive AddressFamily where
  | inet
  | inet6
deriving DecidableEq

/-- What waits at a socket. -/
inductive Pending where
  | ipv4 (pending : List (Arrival UdcAddressIPv4))
  | ipv6 (pending : List (Arrival UdcAddressIPv6))

def Pending.family : Pending → AddressFamily
  | ipv4 _ => .inet
  | ipv6 _ => .inet6

/-- The addresses of one family. -/
class Family (Address : Type) where
  family : AddressFamily
  pending : List (Arrival Address) → Pending
  pending? : Pending → Option (List (Arrival Address))
  pending?_iff : ∀ p xs, pending? p = some xs ↔ p = pending xs
  family_iff : ∀ p, p.family = family ↔ (pending? p).isSome
  address : Address → UdcAddress
  address? : UdcAddress → Option Address

instance : Family UdcAddressIPv4 where
  family := .inet
  pending := .ipv4
  pending?
    | .ipv4 xs => some xs
    | .ipv6 _ => none
  pending?_iff p xs := by cases p <;> simp
  family_iff p := by cases p <;> simp [Pending.family]
  address := .ipv4
  address?
    | .ipv4 ip => some ip
    | .ipv6 _ => none

instance : Family UdcAddressIPv6 where
  family := .inet6
  pending := .ipv6
  pending?
    | .ipv4 _ => none
    | .ipv6 xs => some xs
  pending?_iff p xs := by cases p <;> simp
  family_iff p := by cases p <;> simp [Pending.family]
  address := .ipv6
  address?
    | .ipv4 _ => none
    | .ipv6 ip => some ip

/-- What the system keeps for an open socket. -/
structure Handle where
  pending : Pending
  nonBlocking : Bool
  ipv6Only : Bool
  /-- The port it is bound to. -/
  localPort : Option UInt16

/-- What the documentation does not allow, and what would never return. -/
inductive Fault where
  | notStarted
  | notOpen
  | waits
deriving DecidableEq

structure System where
  started : Bool
  handles : SOCKET → Option Handle
  /-- The address lists handed out by `getaddrinfo` that wait for `freeaddrinfo`. -/
  lists : Nat
  faults : List Fault

namespace System

variable (os : System)

def fail (fault : Fault) : System := { os with faults := os.faults ++ [fault] }

def set (s : SOCKET) (h : Option Handle) : System :=
  { os with handles := Function.update os.handles s h }

/-- `WSAStartup`. -/
def startup (ok : Bool) : System := { os with started := os.started || ok }

/-- `socket(protocol, SOCK_DGRAM, IPPROTO_UDP)`: a new socket waits, and is not bound. -/
def socket (Address : Type) [Family Address] (answer : Option SOCKET) : System × Option SOCKET :=
  if !os.started then (os.fail .notStarted, none)
  else
    match answer with
    | none => (os, none)
    | some s =>
        let h : Handle :=
          { pending := Family.pending ([] : List (Arrival Address))
            nonBlocking := false
            ipv6Only := true
            localPort := none }
        (os.set s (some h), some s)

/-- A call that changes what is kept for a socket, and whether it succeeds. -/
def change (s : SOCKET) (f : Handle → Handle) (ok : Bool) : System × Bool :=
  match os.handles s with
  | none => (os.fail .notOpen, false)
  | some h => if ok then (os.set s (some (f h)), true) else (os, false)

/-- Closing an open socket is taken to succeed. -/
def closesocket (s : SOCKET) : System :=
  match os.handles s with
  | none => os.fail .notOpen
  | some _ => os.set s none

/-- `getaddrinfo`; the list is the caller's to free. -/
def getaddrinfo {α : Type} (answer : Option α) : System × Option α :=
  if !os.started then (os.fail .notStarted, none)
  else
    match answer with
    | none => (os, none)
    | some list => ({ os with lists := os.lists + 1 }, some list)

/-- Something arrives at a bound socket of its family; elsewhere there is nobody to take it. -/
def arrive {Address : Type} [Family Address] (s : SOCKET) (arrival : Arrival Address) : System :=
  match os.handles s with
  | none => os
  | some h =>
      match (Family.pending? h.pending : Option (List (Arrival Address))) with
      | none => os
      | some xs =>
          if h.localPort.isNone then os
          else os.set s (some { h with pending := Family.pending (xs ++ [arrival]) })

end System

/-! ### `UdcSocketHelper.cpp` -/

section Helper

variable (os : System)

/-- `createSocket(protocol)`. -/
def createSocket (Address : Type) [Family Address] (answer : Option SOCKET) :
    System × Option SOCKET :=
  os.socket Address answer

/-- `deleteSocket(s)`; the reference is `INVALID_SOCKET` afterwards. -/
def deleteSocket (s : Option SOCKET) : System × Option SOCKET :=
  match s with
  | none => (os, none)
  | some s => (os.closesocket s, none)

/-- `bindSocketIPv4` and `bindSocketIPv6`, to any address of the machine. -/
def bindSocket (s : SOCKET) (localPort : UInt16) (ok : Bool) : System × Bool :=
  os.change s (fun h => { h with localPort := some localPort }) ok

def setSocketOptionNonBlocking (s : SOCKET) (noBlock : Bool) (ok : Bool) : System × Bool :=
  os.change s (fun h => { h with nonBlocking := noBlock }) ok

def setSocketOptionIpv6Only (s : SOCKET) (ipv6Only : Bool) (ok : Bool) : System × Bool :=
  os.change s (fun h => { h with ipv6Only := ipv6Only }) ok

/-- `sendPacketIPv4` and `sendPacketIPv6`; `sent` is what `sendto` returns. -/
def sendPacket (s : SOCKET) (data : List UInt8) (sent : Int) : System × Bool :=
  match os.handles s with
  | none => (os.fail .notOpen, false)
  | some _ => (os, sent ≠ socketError && u32 sent == data.length)

/-- Whether `recvfrom` has something to return. -/
def returns {Address : Type} : List (Arrival Address) → Bool
  | [] | .wouldBlock :: _ => false
  | _ => true

/-- What a receive at a socket leaves in its reference parameters. -/
structure Received (Address : Type) where
  os : System
  code : Int
  source : Option (Datagram Address)
  buffer : MessageBuffer
  size : Nat

/-- `receivePacketIPv4` and `receivePacketIPv6`, on a socket the system keeps. -/
def receivePacketAt {Address : Type} [Family Address] (s : SOCKET) (buffer : MessageBuffer)
    (size : Nat) : Received Address :=
  match os.handles s with
  | none => ⟨os.fail .notOpen, -2, none, buffer, size⟩
  | some h =>
      match (Family.pending? h.pending : Option (List (Arrival Address))) with
      | none => ⟨os.fail .notOpen, -2, none, buffer, size⟩
      | some xs =>
          if !h.nonBlocking && !returns xs then ⟨os.fail .waits, -2, none, buffer, size⟩
          else
            let r := receivePacket ⟨xs⟩ buffer size
            ⟨os.set s (some { h with pending := Family.pending r.socket.pending }), r.code,
              r.source, r.buffer, r.size⟩

end Helper

/-! ### `UdcSocket.cpp` -/

/-- What the system answers in the course of binding a socket. -/
structure Answers where
  startup : Bool
  socket : Option SOCKET
  nonBlocking : Bool
  ipv6Only : Bool
  bind : Bool

/-- The system, and whether there is a `winSockReference`. -/
structure World where
  os : System
  winSockReference : Bool

/-- The first use makes the `winSockReference`; `false` where the constructor of it throws. -/
def World.refer (w : World) (startup : Bool) : World × Bool :=
  if w.winSockReference then (w, true)
  else if startup then (⟨w.os.startup true, true⟩, true)
  else (w, false)

/-- An entry of the list `getaddrinfo` makes. -/
structure AddrInfo where
  ai_socktype : Nat
  ai_protocol : Nat
  ai_addr : UdcAddress
  port : UInt16

/-- `SOCK_DGRAM` -/
def sockDgram : Nat := 2

/-- `IPPROTO_UDP` -/
def ipprotoUdp : Nat := 17

/--
`stringToIPv4` and `stringToIPv6`: the first entry of the list that is a UDP address of the
family.  The exception is caught here, and the list is not freed.
-/
def stringTo (Address : Type) [Family Address] (w : World) (startup : Bool)
    (answer : Option (List AddrInfo)) : World × Option (Address × UInt16) :=
  match w.refer startup with
  | (w, false) => (w, none)
  | (w, true) =>
      match w.os.getaddrinfo answer with
      | (os, none) => ({ w with os := os }, none)
      | (os, some list) =>
          ({ w with os := os }, list.findSome? fun entry =>
            if entry.ai_socktype ≠ sockDgram ∨ entry.ai_protocol ≠ ipprotoUdp then none
            else (Family.address? entry.ai_addr).map fun ip => (ip, entry.port))

def stringToIPv4 := stringTo UdcAddressIPv4

def stringToIPv6 := stringTo UdcAddressIPv6

structure UdcSocket where
  m_socket : Option SOCKET

namespace UdcSocket

variable (socket : UdcSocket)

/-- The constructor, or none where it throws. -/
def new (w : World) (startup : Bool) : World × Option UdcSocket :=
  let r := w.refer startup
  (r.1, if r.2 then some ⟨none⟩ else none)

def isConnected : Bool := socket.m_socket.isSome

/-- The two bind functions, which close what they have opened on every way out but one. -/
def localBind (Address : Type) [Family Address] (os : System) (localPort : UInt16)
    (allowIPv4 : Bool) (a : Answers) : System × UdcSocket × Bool :=
  match createSocket os Address a.socket with
  | (os, none) => (os, socket, false)
  | (os, some s) =>
      match setSocketOptionNonBlocking os s true a.nonBlocking with
      | (os, false) => ((deleteSocket os (some s)).1, socket, false)
      | (os, true) =>
          match (if allowIPv4 then setSocketOptionIpv6Only os s false a.ipv6Only
            else (os, true)) with
          | (os, false) => ((deleteSocket os (some s)).1, socket, false)
          | (os, true) =>
              match bindSocket os s localPort a.bind with
              | (os, false) => ((deleteSocket os (some s)).1, socket, false)
              | (os, true) => (os, ⟨some s⟩, true)

def localBindIPv4 (os : System) (localPort : UInt16) (a : Answers) : System × UdcSocket × Bool :=
  socket.localBind UdcAddressIPv4 os localPort false a

def localBindIPv6 (os : System) (localPort : UInt16) (allowIPv4 : Bool) (a : Answers) :
    System × UdcSocket × Bool :=
  socket.localBind UdcAddressIPv6 os localPort allowIPv4 a

def disconnect (os : System) : System × UdcSocket :=
  let r := deleteSocket os socket.m_socket
  (r.1, ⟨r.2⟩)

/-- `sendIPv4` and `sendIPv6`. -/
def send (os : System) (data : List UInt8) (sent : Int) : System × Bool :=
  match socket.m_socket with
  | none => (os, false)
  | some s => sendPacket os s data sent

/-- `receiveIPv4` and `receiveIPv6`. -/
def receive {Address : Type} [Family Address] (os : System) (buffer : MessageBuffer)
    (size : Nat) : Received Address :=
  match socket.m_socket with
  | none => ⟨os, -2, none, buffer, size⟩
  | some s => receivePacketAt os s buffer size

end UdcSocket

/-! ### `UdcSocketMux.cpp` -/

structure UdcSocketMux where
  socketIPv4 : List UdcSocket
  socketIPv6 : List UdcSocket

/-- What a receive of the mux leaves; no address if it returned false. -/
structure MuxReceived where
  os : System
  address : Option UdcAddressMux
  buffer : MessageBuffer
  size : Nat

/-- The loop of `receive` over one vector. -/
def receiveFrom (Address : Type) [Family Address] : List UdcSocket → System → MessageBuffer →
    Nat → MuxReceived
  | [], os, buffer, size => ⟨os, none, buffer, size⟩
  | socket :: rest, os, buffer, size =>
      let r : Received Address := socket.receive os buffer size
      if r.code = 1 then
        ⟨r.os, r.source.map fun d => ⟨Family.address d.source, d.port⟩, r.buffer, r.size⟩
      else receiveFrom Address rest r.os r.buffer r.size

/-- The loop of `disconnect` over one vector. -/
def disconnectAll (sockets : List UdcSocket) (os : System) : System :=
  sockets.foldl (fun os socket => (socket.disconnect os).1) os

namespace UdcSocketMux

variable (m : UdcSocketMux)

/-- The result is none where the constructor of the socket throws. -/
def tryBindIPv4 (w : World) (port : UInt16) (a : Answers) : World × UdcSocketMux × Option Bool :=
  match UdcSocket.new w a.startup with
  | (w, none) => (w, m, none)
  | (w, some socket) =>
      match socket.localBindIPv4 w.os port a with
      | (os, socket, true) =>
          ({ w with os := os }, { m with socketIPv4 := m.socketIPv4 ++ [socket] }, some true)
      | (os, _, false) => ({ w with os := os }, m, some false)

def tryBindIPv6 (w : World) (port : UInt16) (a : Answers) : World × UdcSocketMux × Option Bool :=
  match UdcSocket.new w a.startup with
  | (w, none) => (w, m, none)
  | (w, some socket) =>
      match socket.localBindIPv6 w.os port false a with
      | (os, socket, true) =>
          ({ w with os := os }, { m with socketIPv6 := m.socketIPv6 ++ [socket] }, some true)
      | (os, _, false) => ({ w with os := os }, m, some false)

/-- `send(address, data, size)`, from the first socket of the family. -/
def send (os : System) (address : UdcAddressMux) (data : List UInt8) (sent : Int) :
    System × Bool :=
  match (match address.address with
    | .ipv4 _ => m.socketIPv4
    | .ipv6 _ => m.socketIPv6) with
  | [] => (os, false)
  | socket :: _ => socket.send os data sent

/-- `receive(UdcAddressMux&, ...)`: the IPv6 sockets first. -/
def receive (os : System) (buffer : MessageBuffer) (size : Nat) : MuxReceived :=
  let r := receiveFrom UdcAddressIPv6 m.socketIPv6 os buffer size
  if r.address.isSome then r else receiveFrom UdcAddressIPv4 m.socketIPv4 r.os r.buffer r.size

/-- `disconnect()`, which the destructor calls. -/
def disconnect (os : System) : System × UdcSocketMux :=
  (disconnectAll m.socketIPv6 (disconnectAll m.socketIPv4 os), ⟨[], []⟩)

def isConnected : Bool := !(m.socketIPv4.isEmpty && m.socketIPv6.isEmpty)

end UdcSocketMux

/-! ### A process -/

/-- The servers of a process are told by their pointers. -/
structure Process where
  world : World
  servers : Nat → Option UdcSocketMux

inductive Call where
  | createServer (server : Nat)
  | tryBindIPv4 (server : Nat) (port : UInt16) (a : Answers)
  | tryBindIPv6 (server : Nat) (port : UInt16) (a : Answers)
  | send (server : Nat) (address : UdcAddressMux) (data : List UInt8) (sent : Int)
  | receive (server : Nat) (buffer : MessageBuffer) (size : Nat)
  | deleteServer (server : Nat)
  | stringToIPv4 (startup : Bool) (answer : Option (List AddrInfo))
  | stringToIPv6 (startup : Bool) (answer : Option (List AddrInfo))
  | arriveIPv4 (s : SOCKET) (arrival : Arrival UdcAddressIPv4)
  | arriveIPv6 (s : SOCKET) (arrival : Arrival UdcAddressIPv6)

namespace Process

/-- No server, and nothing asked of the system. -/
def start : Process where
  world := ⟨⟨false, fun _ => none, 0, []⟩, false⟩
  servers := fun _ => none

/-- A pointer is that of a server, or is not, and the system hands out no open socket. -/
def Admissible (p : Process) : Call → Prop
  | .createServer i => (p.servers i).isNone
  | .tryBindIPv4 i _ a | .tryBindIPv6 i _ a =>
      (p.servers i).isSome ∧ a.socket.all fun s => (p.world.os.handles s).isNone
  | .send i _ _ _ | .receive i _ _ | .deleteServer i => (p.servers i).isSome
  | _ => True

instance (p : Process) (call : Call) : Decidable (p.Admissible call) := by
  induction call using Call.casesOn <;> unfold Admissible <;> infer_instance

/-- The servers with one of them changed. -/
def setServer (p : Process) (i : Nat) (w : World) (m : Option UdcSocketMux) : Process :=
  ⟨w, Function.update p.servers i m⟩

def step (p : Process) : Call → Process
  | .createServer i => p.setServer i p.world (some ⟨[], []⟩)
  | .tryBindIPv4 i port a =>
      match p.servers i with
      | none => p
      | some m =>
          let r := m.tryBindIPv4 p.world port a
          p.setServer i r.1 (some r.2.1)
  | .tryBindIPv6 i port a =>
      match p.servers i with
      | none => p
      | some m =>
          let r := m.tryBindIPv6 p.world port a
          p.setServer i r.1 (some r.2.1)
  | .send i address data sent =>
      match p.servers i with
      | none => p
      | some m => { p with world.os := (m.send p.world.os address data sent).1 }
  | .receive i buffer size =>
      match p.servers i with
      | none => p
      | some m => { p with world.os := (m.receive p.world.os buffer size).os }
  | .deleteServer i =>
      match p.servers i with
      | none => p
      | some m => p.setServer i { p.world with os := (m.disconnect p.world.os).1 } none
  | .stringToIPv4 startup answer =>
      { p with world := (Win32.stringToIPv4 p.world startup answer).1 }
  | .stringToIPv6 startup answer =>
      { p with world := (Win32.stringToIPv6 p.world startup answer).1 }
  | .arriveIPv4 s arrival => { p with world.os := p.world.os.arrive s arrival }
  | .arriveIPv6 s arrival => { p with world.os := p.world.os.arrive s arrival }

def after (p : Process) (calls : List Call) : Process := calls.foldl step p

/-- Each call is admissible when its turn comes. -/
def Runs (p : Process) (calls : List Call) : Prop := Always step Admissible p calls

instance (p : Process) (calls : List Call) : Decidable (p.Runs calls) := by
  unfold Runs
  infer_instance

end Process

/-! ### Connecting by name -/

/--
`udcTryConnect`: an IPv6 address of the name if there is one, and else an IPv4 address.
The union of the two is one variable, and is written before it is read.
-/
def udcTryConnect (w : World) (s : UdcServerImpl) (startup startup' : Bool)
    (answerIPv6 answerIPv4 : Option (List AddrInfo)) (timeout : Nat)
    (currentTime : Milliseconds) : World × UdcServerImpl × Option UdcEndPointId :=
  match stringToIPv6 w startup answerIPv6 with
  | (w, some (ip, port)) => (w, udcTryConnectIPv6 s ip port timeout currentTime)
  | (w, none) =>
      match stringToIPv4 w startup' answerIPv4 with
      | (w, some (ip, port)) => (w, udcTryConnectIPv4 s ip port timeout currentTime)
      | (w, none) => (w, s, none)

end UdpConnect.Win32
