/-
The server: `UdcServer.h`, `UdcServer.cpp` and `UdcEvent.h`.

`std::shared_ptr<UdcClient>` puts one client object behind several containers, so
the client objects live in a heap and the containers hold references into it.  A
reference is never reused.  Unordered maps are finite maps; the order in which
`updateClientConnectionStatus` meets the entries is an argument of the call.

A call that returns `&m_eventBuffer` returns the event buffer's value.
-/
import UdpConnect.Client
import UdpConnect.Socket

namespace UdpConnect

inductive UdcEventType where
  | connectionSuccess
  | connectionTimeout
  | connectionLost
  | connectionRegained
  | receiveMessageIPv4
  | receiveMessageIPv6
deriving DecidableEq, Repr

/-- The enumerators are numbered in order, from zero. -/
def UdcEventType.code : UdcEventType → Nat
  | connectionSuccess => 0
  | connectionTimeout => 1
  | connectionLost => 2
  | connectionRegained => 3
  | receiveMessageIPv4 => 4
  | receiveMessageIPv6 => 5

structure UdcEvent where
  eventType : UdcEventType
  endPointId : UdcEndPointId
  /-- The union of the two addresses, as the member written last. -/
  address : UdcAddress
  port : UInt16
  msgIndex : Nat
  msgSize : Nat
deriving DecidableEq

/-- A `std::shared_ptr<UdcClient>`. -/
abbrev ClientRef := Nat

structure UdcServerImpl where
  socket : UdcSocketMux
  idCounter : UdcEndPointId
  packetSignature : UdcSignature
  eventBuffer : UdcEvent
  heap : ClientRef → UdcClient
  nextRef : ClientRef
  pendingClients : List ClientRef
  clientsById : Finmap fun _ : UdcEndPointId => ClientRef
  clientsByAddress : UdcAddressMap ClientRef
  reliableStates : UdcAddressMap Int
  messageBuffer : MessageBuffer

namespace UdcServerImpl

variable (s : UdcServerImpl)

def messageBufferSize : Nat := s.messageBuffer.size

/-- Write through a client pointer. -/
def setClient (r : ClientRef) (c : UdcClient) : UdcServerImpl :=
  { s with heap := Function.update s.heap r c }

/-- `m_socket.send(address, m_messageBuffer, size)`. -/
def send (address : UdcAddressMux) (size : Nat) : UdcServerImpl :=
  { s with socket := s.socket.send address s.messageBuffer.bytes size }

/-! ### Construction and the application's calls -/

/-- The constructor; the event buffer is zeroed. -/
def new (signature : UdcSignature) (buffer : MessageBuffer) : UdcServerImpl where
  socket := { socketIPv4 := [], socketIPv6 := [], history := default }
  idCounter := 0
  packetSignature := signature
  eventBuffer :=
    { eventType := .connectionSuccess
      endPointId := 0
      address := .ipv4 ⟨[0, 0, 0, 0], rfl⟩
      port := 0
      msgIndex := 0
      msgSize := 0 }
  heap := fun _ => UdcClient.new 0 ⟨.ipv4 ⟨[0, 0, 0, 0], rfl⟩, 0⟩ 0 0
  nextRef := 0
  pendingClients := []
  clientsById := ∅
  clientsByAddress := ∅
  reliableStates := ∅
  messageBuffer := MsgHeader.serializeMsgSignature buffer signature

def tryBindIPv4 (bound : Bool) : UdcServerImpl :=
  { s with socket := s.socket.tryBindIPv4 bound }

def tryBindIPv6 (bound : Bool) : UdcServerImpl :=
  { s with socket := s.socket.tryBindIPv6 bound }

/-- `tryGetClient(clientId, &client)`. -/
def tryGetClientById (clientId : UdcEndPointId) : Option ClientRef := s.clientsById.lookup clientId

/-- `tryGetClient(address, &client)`. -/
def tryGetClientByAddress (address : UdcAddressMux) : Option ClientRef :=
  s.clientsByAddress.lookup address

def tryGetFirstPendingClient : Option ClientRef := s.pendingClients.head?

/-- The ping of a connected endpoint, or none where the source returns false. -/
def getEndPointStatus (id : UdcEndPointId) : Option Milliseconds :=
  match s.tryGetClientById id with
  | some client => if (s.heap client).isConnected then some (s.heap client).ping else none
  | none => none

def createUniqueId : UdcServerImpl × UdcEndPointId :=
  let id := u32 (s.idCounter + 1)
  ({ s with idCounter := id }, id)

/-- `std::make_shared<UdcClient>`. -/
def makeShared (client : UdcClient) : UdcServerImpl × ClientRef :=
  ({ s.setClient s.nextRef client with nextRef := s.nextRef + 1 }, s.nextRef)

def addPendingClient (client : ClientRef) (time : Milliseconds) : UdcServerImpl :=
  let s := s.setClient client ((s.heap client).startConnecting time)
  { s with pendingClients := s.pendingClients ++ [client] }

def disconnectFromClient (endPointId : UdcEndPointId) : UdcServerImpl :=
  match s.clientsById.lookup endPointId with
  | some client =>
      { s with
        clientsByAddress := s.clientsByAddress.erase (s.heap client).outgoingAddress
        clientsById := s.clientsById.erase endPointId }
  | none =>
      { s with pendingClients := s.pendingClients.filter fun r => (s.heap r).id ≠ endPointId }

def sendUnreliableMessage (endPointId : UdcEndPointId) (data : List UInt8) :
    UdcServerImpl × Bool :=
  if u32 (data.length + MsgUnreliable.size) > s.messageBufferSize then (s, false)
  else
    match s.tryGetClientById endPointId with
    | none => (s, false)
    | some client =>
        if !(s.heap client).isConnected then (s, true)
        else
          let b := MsgHeader.serializeMsgId s.messageBuffer .unreliable
          let b := MsgUnreliable.serializeData b data
          ({ s with messageBuffer := b }.send (s.heap client).outgoingAddress
            (u32 (MsgHeader.size + data.length)), true)

def sendReliableMessage (endPointId : UdcEndPointId) (data : List UInt8) : UdcServerImpl × Bool :=
  if u32 (data.length + MsgReliable.size) > s.messageBufferSize then (s, false)
  else
    match s.tryGetClientById endPointId with
    | none => (s, false)
    | some client => (s.setClient client ((s.heap client).pushReliable data), true)

/-! ### Events -/

/-- Fill the event buffer with a connection event. -/
def connectionEvent (eventType : UdcEventType) (endPointId : UdcEndPointId) :
    UdcServerImpl × Option UdcEvent :=
  let e := { s.eventBuffer with eventType := eventType, endPointId := endPointId }
  ({ s with eventBuffer := e }, some e)

/-- Fill the event buffer with a received message. -/
def messageEvent (fromAddress : UdcAddressMux) (msgIndex msgSize : Nat) :
    UdcServerImpl × Option UdcEvent :=
  let eventType := match fromAddress.address with
    | .ipv4 _ => .receiveMessageIPv4
    | .ipv6 _ => .receiveMessageIPv6
  let e := { s.eventBuffer with
    eventType := eventType
    address := fromAddress.address
    port := fromAddress.port
    msgIndex := msgIndex
    msgSize := msgSize }
  ({ s with eventBuffer := e }, some e)

/-! ### Receiving -/

def processConnectionRequest (fromAddress : UdcAddressMux) : UdcServerImpl :=
  let b := MsgHeader.serializeMsgId s.messageBuffer .connectionHandshake
  { s with messageBuffer := b }.send fromAddress MsgConnection.size

def processConnectionHandshake (fromAddress : UdcAddressMux) (time : Milliseconds) :
    UdcServerImpl × Option UdcEvent :=
  match s.tryGetFirstPendingClient with
  | none => (s, none)
  | some client =>
      let endPointId := MsgConnection.deserializeEndPointId s.messageBuffer
      if (s.heap client).id ≠ endPointId then (s, none)
      else if fromAddress ∈ s.clientsByAddress then (s, none)
      else
        let s := s.setClient client ((s.heap client).receiveConnectionHandshake time)
        let s := { s with
          clientsById := s.clientsById.insert endPointId client
          clientsByAddress := s.clientsByAddress.insert fromAddress client
          pendingClients := s.pendingClients.tail }
        s.connectionEvent .connectionSuccess endPointId

def processPing (fromAddress : UdcAddressMux) : UdcServerImpl :=
  let b := MsgHeader.serializeMsgId s.messageBuffer .pong
  { s with messageBuffer := b }.send fromAddress MsgPingPong.size

def processPong (fromAddress : UdcAddressMux) (time : Milliseconds) :
    UdcServerImpl × Option UdcEvent :=
  match s.tryGetClientByAddress fromAddress with
  | none => (s, none)
  | some client =>
      let timeStampMs : Milliseconds := MsgPingPong.deserializeTimeStamp s.messageBuffer
      if time < timeStampMs then (s, none)
      else
        let r := (s.heap client).receivePong timeStampMs time
        let s := s.setClient client r.1
        if !r.2 then (s, none) else s.connectionEvent .connectionRegained (s.heap client).id

def processReliableMessage (state : Int) (fromAddress : UdcAddressMux) (msgSize : Nat) :
    UdcServerImpl × Option UdcEvent :=
  let it := s.reliableStates.lookup fromAddress
  if state = -1 then
    let states := if it.isSome then s.reliableStates.insert fromAddress 0 else s.reliableStates
    let b := MsgHeader.serializeMsgId s.messageBuffer .reliableHandshakeReset
    ({ s with reliableStates := states, messageBuffer := b }.send fromAddress MsgReliable.size,
      none)
  else
    let process := it.isNone || it == some state
    -- the source inserts or overwrites, with the same value
    let states := s.reliableStates.insert fromAddress (if state = 0 then 1 else 0)
    let b := MsgHeader.serializeMsgId s.messageBuffer
      (if state = 0 then .reliableHandshake0 else .reliableHandshake1)
    let s := { s with reliableStates := states, messageBuffer := b }.send fromAddress
      MsgReliable.size
    if process then s.messageEvent fromAddress MsgReliable.size (msgSize - MsgReliable.size)
    else (s, none)

def processReliableHandshake (state : Int) (fromAddress : UdcAddressMux) (time : Milliseconds) :
    UdcServerImpl × Option UdcEvent :=
  match s.tryGetClientByAddress fromAddress with
  | none => (s, none)
  | some client =>
      let timeStampMs : Milliseconds := MsgReliable.deserializeTimeStamp s.messageBuffer
      if time < timeStampMs then (s, none)
      else
        let c := s.heap client
        let reliableState := c.reliableState
        let c :=
          if state = reliableState then
            let c := if reliableState ≠ -1 && !c.reliableMessages.isEmpty then c.popReliable else c
            (c.setReliableState (if state = 0 then 1 else 0)).resetSendReliable
          else c
        let r := c.receiveReliableHandshake timeStampMs time
        let s := s.setClient client r.1
        if !r.2 then (s, none) else s.connectionEvent .connectionRegained (s.heap client).id

def processUnreliable (fromAddress : UdcAddressMux) (msgSize : Nat) :
    UdcServerImpl × Option UdcEvent :=
  s.messageEvent fromAddress MsgHeader.size (msgSize - MsgHeader.size)

/-- The switch of `receiveMessages` on the message id. -/
def processMessage (address : UdcAddressMux) (msgSize : Nat) (time : Milliseconds) :
    UdcServerImpl × Option UdcEvent :=
  match UdcMessageId.ofByte? (MsgHeader.deserializeMsgId s.messageBuffer) with
  | some .connectionRequest =>
      if msgSize = MsgConnection.size then (s.processConnectionRequest address, none) else (s, none)
  | some .connectionHandshake =>
      if msgSize = MsgConnection.size then s.processConnectionHandshake address time else (s, none)
  | some .ping =>
      if msgSize = MsgPingPong.size then (s.processPing address, none) else (s, none)
  | some .pong =>
      if msgSize = MsgPingPong.size then s.processPong address time else (s, none)
  | some .unreliable =>
      if msgSize ≥ MsgHeader.size then s.processUnreliable address msgSize else (s, none)
  | some .reliableReset =>
      if msgSize = MsgReliable.size then s.processReliableMessage (-1) address msgSize
      else (s, none)
  | some .reliable0 =>
      if msgSize ≥ MsgReliable.size then s.processReliableMessage 0 address msgSize else (s, none)
  | some .reliable1 =>
      if msgSize ≥ MsgReliable.size then s.processReliableMessage 1 address msgSize else (s, none)
  | some .reliableHandshakeReset =>
      if msgSize = MsgReliable.size then s.processReliableHandshake (-1) address time
      else (s, none)
  | some .reliableHandshake0 =>
      if msgSize = MsgReliable.size then s.processReliableHandshake 0 address time else (s, none)
  | some .reliableHandshake1 =>
      if msgSize = MsgReliable.size then s.processReliableHandshake 1 address time else (s, none)
  | none => (s, none)

/-- The body of the loop of `receiveMessages`, once `m_socket.receive` has returned true. -/
def handleDatagram (address : UdcAddressMux) (msgSize : Nat) (time : Milliseconds) :
    UdcServerImpl × Option UdcEvent :=
  if msgSize < MsgHeader.size then (s, none)
  else if MsgHeader.deserializeMsgSignature s.messageBuffer ≠ s.packetSignature.bytes then
    ({ s with
      messageBuffer := MsgHeader.serializeMsgSignature s.messageBuffer s.packetSignature }, none)
  else s.processMessage address msgSize time

/-- `m_socket.receive(address, m_messageBuffer, msgSize)`: the server, the address and the size. -/
def receive (msgSize : Nat) : UdcServerImpl × Option UdcAddressMux × Nat :=
  let r := s.socket.receive s.messageBuffer msgSize
  ({ s with socket := r.mux, messageBuffer := r.buffer }, r.address, r.size)

/-- The loop of `receiveMessages`; each turn consumes something queued at a socket. -/
def receiveLoop (time : Milliseconds) : Nat → UdcServerImpl → Nat →
    UdcServerImpl × Option UdcEvent
  | 0, s, _ => (s, none)
  | fuel + 1, s, msgSize =>
      match s.receive msgSize with
      | (s, none, _) => (s, none)
      | (s, some address, msgSize) =>
          match s.handleDatagram address msgSize time with
          | (s, some event) => (s, some event)
          | (s, none) => receiveLoop time fuel s msgSize

def receiveMessages (time : Milliseconds) : UdcServerImpl × Option UdcEvent :=
  receiveLoop time (s.socket.backlog + 1) s s.messageBufferSize

/-! ### Ticks -/

def updatePendingClients (time : Milliseconds) : UdcServerImpl × Option UdcEvent :=
  match s.tryGetFirstPendingClient with
  | none => (s, none)
  | some client =>
      if (s.heap client).needsConnectionTimeoutEvent time then
        let r := s.connectionEvent .connectionTimeout (s.heap client).id
        ({ r.1 with pendingClients := r.1.pendingClients.tail }, r.2)
      else if (s.heap client).needsConnectionAttempt time then
        let s := s.setClient client ((s.heap client).retryConnecting time)
        let b := MsgHeader.serializeMsgId s.messageBuffer .connectionRequest
        let b := MsgConnection.serializeEndPointId b (s.heap client).id
        ({ s with messageBuffer := b }.send (s.heap client).outgoingAddress MsgConnection.size,
          none)
      else (s, none)

/-- The part of `updateClientConnectionStatus` that sends the reliable message in front. -/
def updateReliable (client : ClientRef) (time : Milliseconds) : UdcServerImpl :=
  let c := s.heap client
  match c.reliableMessages with
  | [] => s
  | msg :: _ =>
      if c.reliableState = -1 then
        let b := MsgHeader.serializeMsgId s.messageBuffer .reliableReset
        let b := MsgReliable.serializeTimeStamp b (u32 time)
        { s with messageBuffer := b }.send c.outgoingAddress MsgReliable.size
      else if c.needsReliableReset time then
        s.setClient client (c.setReliableState (-1)).resetSendReliable
      else
        let b := MsgHeader.serializeMsgId s.messageBuffer
          (if c.reliableState = 0 then .reliable0 else .reliable1)
        let b := MsgReliable.serializeTimeStamp b (u32 time)
        let b := MsgReliable.serializeData b msg
        let s := { s with messageBuffer := b }.send c.outgoingAddress
          (u32 (MsgReliable.size + msg.length))
        s.setClient client (c.setSendReliable time)

/-- The part that sends a ping. -/
def updatePing (client : ClientRef) (time : Milliseconds) : UdcServerImpl :=
  if (s.heap client).needsPing time then
    let b := MsgHeader.serializeMsgId s.messageBuffer .ping
    let b := MsgPingPong.serializeTimeStamp b (u32 time)
    { s with messageBuffer := b }.send (s.heap client).outgoingAddress MsgPingPong.size
  else s

/-- The part that throws a connection lost event. -/
def updateLost (client : ClientRef) (time : Milliseconds) : UdcServerImpl × Option UdcEvent :=
  if (s.heap client).needsConnectionLostEvent time then
    let s := s.setClient client (s.heap client).setConnectionLost
    s.connectionEvent .connectionLost (s.heap client).id
  else (s, none)

/-- `updateClientConnectionStatus`, meeting the clients in the given order. -/
def updateClientConnectionStatus (time : Milliseconds) : List UdcEndPointId → UdcServerImpl →
    UdcServerImpl × Option UdcEvent
  | [], s => (s, none)
  | id :: order, s =>
      match s.clientsById.lookup id with
      | none => updateClientConnectionStatus time order s
      | some client =>
          match ((s.updateReliable client time).updatePing client time).updateLost client time with
          | (s, some event) => (s, some event)
          | (s, none) => updateClientConnectionStatus time order s

end UdcServerImpl

end UdpConnect
