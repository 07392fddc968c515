/-
The library's interface: `udp_connect.h` and `udp_connect.cpp`.

The clock is an argument of every call that reads it.  `Op` lists the calls an
application makes on one server, together with what the operating system does to
it; `step` runs one of them.
-/
import UdpConnect.Server
import UdpConnect.Lib.Run

namespace UdpConnect

/-- No server where the source returns a null pointer. -/
def udcCreateServer (signature : UdcSignature) (buffer : List UInt8) : Option UdcServerImpl :=
  if h : udcGetMinimumBufferSize ≤ buffer.length ∧ buffer.length < 2 ^ 32 then
    some (UdcServerImpl.new signature ⟨buffer, h.1, h.2⟩)
  else none

/-- The common body of `udcTryConnectIPv4` and `udcTryConnectIPv6`. -/
def tryConnect (s : UdcServerImpl) (address : UdcAddressMux) (timeout : Nat)
    (currentTime : Milliseconds) : UdcServerImpl × Option UdcEndPointId :=
  if timeout = 0 then (s, none)
  else
    let (s, endPointId) := s.createUniqueId
    let (s, client) := s.makeShared
      (UdcClient.new endPointId address timeout (min 500 ((timeout : Milliseconds) / 10)))
    (s.addPendingClient client currentTime, some endPointId)

def udcTryConnectIPv4 (s : UdcServerImpl) (ip : UdcAddressIPv4) (port : UInt16) :
    Nat → Milliseconds → UdcServerImpl × Option UdcEndPointId :=
  tryConnect s ⟨.ipv4 ip, port⟩

def udcTryConnectIPv6 (s : UdcServerImpl) (ip : UdcAddressIPv6) (port : UInt16) :
    Nat → Milliseconds → UdcServerImpl × Option UdcEndPointId :=
  tryConnect s ⟨.ipv6 ip, port⟩

/-- The ping as a `uint32_t`, or none where the source returns false. -/
def udcGetStatus (s : UdcServerImpl) (id : UdcEndPointId) : Option Nat :=
  (s.getEndPointStatus id).map u32

def udcDisconnect (s : UdcServerImpl) (endPointId : UdcEndPointId) : UdcServerImpl :=
  s.disconnectFromClient endPointId

inductive UdcMessageType where
  | unreliableMessage
  | reliableMessage
deriving DecidableEq

def udcSendMessage (s : UdcServerImpl) (endPointId : UdcEndPointId) (data : List UInt8)
    (reliability : UdcMessageType) : UdcServerImpl × Bool :=
  if reliability = .unreliableMessage then s.sendUnreliableMessage endPointId data
  else s.sendReliableMessage endPointId data

/-- One call; `order` is the order in which the connected clients are met. -/
def udcProcessEvents (s : UdcServerImpl) (order : List UdcEndPointId)
    (currentTime : Milliseconds) : UdcServerImpl × Option UdcEvent :=
  match s.updatePendingClients currentTime with
  | (s, some event) => (s, some event)
  | (s, none) =>
      match s.updateClientConnectionStatus currentTime order with
      | (s, some event) => (s, some event)
      | (s, none) => s.receiveMessages currentTime

/-! ### Reading an event -/

def udcGetResultConnectionEvent (event : UdcEvent) : Option UdcEndPointId :=
  if event.eventType.code > UdcEventType.connectionRegained.code then none
  else some event.endPointId

/-- Address, port, index and size of a message received over IPv4. -/
def udcGetResultMessageIPv4Event (event : UdcEvent) :
    Option (UdcAddressIPv4 × UInt16 × Nat × Nat) :=
  match event.eventType, event.address with
  | .receiveMessageIPv4, .ipv4 ip => some (ip, event.port, event.msgIndex, event.msgSize)
  | _, _ => none

/-- Address, port, index and size of a message received over IPv6. -/
def udcGetResultMessageIPv6Event (event : UdcEvent) :
    Option (UdcAddressIPv6 × UInt16 × Nat × Nat) :=
  match event.eventType, event.address with
  | .receiveMessageIPv6, .ipv6 ip => some (ip, event.port, event.msgIndex, event.msgSize)
  | _, _ => none

/-! ### Runs of one server -/

inductive Op where
  | tryBindIPv4 (bound : Bool)
  | tryBindIPv6 (bound : Bool)
  | tryConnectIPv4 (ip : UdcAddressIPv4) (port : UInt16) (timeout : Nat)
      (currentTime : Milliseconds)
  | tryConnectIPv6 (ip : UdcAddressIPv6) (port : UInt16) (timeout : Nat)
      (currentTime : Milliseconds)
  | disconnect (endPointId : UdcEndPointId)
  | sendMessage (endPointId : UdcEndPointId) (data : List UInt8) (reliability : UdcMessageType)
  | updatePendingClients (time : Milliseconds)
  | updateClientConnectionStatus (time : Milliseconds) (order : List UdcEndPointId)
  | receiveMessages (time : Milliseconds)
  | arriveIPv4 (index : Nat) (arrival : Arrival UdcAddressIPv4)
  | arriveIPv6 (index : Nat) (arrival : Arrival UdcAddressIPv6)

/-- What a call returns: the id a connect call hands out, and the event of a polling call. -/
structure Outcome where
  endPointId : Option UdcEndPointId := none
  event : Option UdcEvent := none

/-- The arguments fit their types, and the order visits each connected client once. -/
def Op.Admissible (s : UdcServerImpl) : Op → Prop
  | .tryConnectIPv4 _ _ timeout _ | .tryConnectIPv6 _ _ timeout _ => timeout < 2 ^ 32
  | .disconnect endPointId => endPointId < 2 ^ 32
  | .sendMessage endPointId data _ => endPointId < 2 ^ 32 ∧ data.length < 2 ^ 32
  | .updateClientConnectionStatus _ order =>
      order.Nodup ∧ order.toFinset = s.clientsById.keys
  | _ => True

instance (s : UdcServerImpl) (op : Op) : Decidable (op.Admissible s) := by
  induction op using Op.casesOn <;> unfold Op.Admissible <;> infer_instance

def step (s : UdcServerImpl) : Op → UdcServerImpl × Outcome
  | .tryBindIPv4 bound => (s.tryBindIPv4 bound, {})
  | .tryBindIPv6 bound => (s.tryBindIPv6 bound, {})
  | .tryConnectIPv4 ip port timeout currentTime =>
      let r := udcTryConnectIPv4 s ip port timeout currentTime
      (r.1, { endPointId := r.2 })
  | .tryConnectIPv6 ip port timeout currentTime =>
      let r := udcTryConnectIPv6 s ip port timeout currentTime
      (r.1, { endPointId := r.2 })
  | .disconnect endPointId => (udcDisconnect s endPointId, {})
  | .sendMessage endPointId data reliability =>
      ((udcSendMessage s endPointId data reliability).1, {})
  | .updatePendingClients time =>
      let r := s.updatePendingClients time
      (r.1, { event := r.2 })
  | .updateClientConnectionStatus time order =>
      let r := s.updateClientConnectionStatus time order
      (r.1, { event := r.2 })
  | .receiveMessages time =>
      let r := s.receiveMessages time
      (r.1, { event := r.2 })
  | .arriveIPv4 index arrival => ({ s with socket := s.socket.arriveIPv4 index arrival }, {})
  | .arriveIPv6 index arrival => ({ s with socket := s.socket.arriveIPv6 index arrival }, {})

/-- One step of a run: an admissible call and what it returned. -/
def Steps (s : UdcServerImpl) (l : Op × Outcome) (s' : UdcServerImpl) : Prop :=
  l.1.Admissible s ∧ step s l.1 = (s', l.2)

/-- `ServerRun sig buf trace s`: a server created with this signature and buffer gets to `s`. -/
def ServerRun (signature : UdcSignature) (buffer : MessageBuffer) :
    List (Op × Outcome) → UdcServerImpl → Prop :=
  Runs.Run Steps (UdcServerImpl.new signature buffer)

/-! ### Running a list of calls -/

def runState (s : UdcServerImpl) (ops : List Op) : UdcServerImpl :=
  ops.foldl (fun s op => (step s op).1) s

def runTrace (s : UdcServerImpl) : List Op → List (Op × Outcome)
  | [] => []
  | op :: ops => (op, (step s op).2) :: runTrace (step s op).1 ops

/-- Each call meets the condition when its turn comes. -/
def Throughout (P : UdcServerImpl → Op → Prop) (s : UdcServerImpl) : List Op → Prop
  | [] => True
  | op :: ops => P s op ∧ Throughout P (step s op).1 ops

instance decidableThroughout {P : UdcServerImpl → Op → Prop} [∀ s op, Decidable (P s op)]
    (s : UdcServerImpl) : (ops : List Op) → Decidable (Throughout P s ops)
  | [] => .isTrue trivial
  | op :: ops =>
      have := decidableThroughout (P := P) (step s op).1 ops
      inferInstanceAs (Decidable (P s op ∧ Throughout P (step s op).1 ops))

theorem throughout_append {P : UdcServerImpl → Op → Prop} (ops ops' : List Op) :
    ∀ s, Throughout P s (ops ++ ops') ↔
      Throughout P s ops ∧ Throughout P (runState s ops) ops' := by
  induction ops with
  | nil =>
      intro s
      exact (and_iff_right trivial).symm
  | cons op ops ih =>
      intro s
      simp only [List.cons_append, Throughout, ih, and_assoc]
      rfl

theorem throughout_mono {P Q : UdcServerImpl → Op → Prop} (hPQ : ∀ s op, P s op → Q s op)
    {ops : List Op} : ∀ {s}, Throughout P s ops → Throughout Q s ops := by
  induction ops with
  | nil =>
      intro s _
      exact trivial
  | cons op ops ih =>
      intro s h
      exact ⟨hPQ s op h.1, ih h.2⟩

theorem run_of_throughout {P : UdcServerImpl → Op → Prop}
    {R : UdcServerImpl → Op × Outcome → UdcServerImpl → Prop}
    (hR : ∀ s op, P s op → R s (op, (step s op).2) (step s op).1) {s : UdcServerImpl}
    (ops : List Op) (h : Throughout P s ops) :
    Runs.Run R s (runTrace s ops) (runState s ops) := by
  induction ops generalizing s with
  | nil => exact .nil
  | cons op ops ih => exact (Runs.Run.nil.snoc (hR s op h.1)).append (ih h.2)

theorem run_of_admissible {s : UdcServerImpl} (ops : List Op)
    (h : Throughout (fun s op => op.Admissible s) s ops) :
    Runs.Run Steps s (runTrace s ops) (runState s ops) :=
  run_of_throughout (fun _ _ h => ⟨h, rfl⟩) ops h

/-! ### A server to try things on -/

def exampleSignature : UdcSignature := ⟨[1, 2, 3, 4], rfl⟩

def exampleBuffer : MessageBuffer := ⟨List.replicate 16 0, by decide, by decide⟩

def exampleServer : UdcServerImpl := .new exampleSignature exampleBuffer

/-- An address of the private network `10.0.0.0`. -/
def exampleIP (host : UInt8) : UdcAddressIPv4 := ⟨[10, 0, 0, host], rfl⟩

/-- An endpoint connects. -/
def connectedOps : List Op :=
  [.tryBindIPv4 true, .tryConnectIPv4 (exampleIP 2) 2 1000 0,
    .arriveIPv4 0 (.datagram ⟨exampleIP 2, 2, [1, 2, 3, 4, 1, 1, 0, 0, 0], default⟩),
    .receiveMessages 10]

end UdpConnect
