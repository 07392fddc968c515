/-
The C# wrapper: `udp_connect.cs`.

The class owns the message buffer, hands it to the library, and in `ProcessEvents` asks for
events until there are none.  Each event becomes a call of the handler it is for.  The bytes
of a message stay where they are: the handler is given a part of the buffer, and .NET checks
that it is one.

The library keeps a pointer to the array, which is pinned only while `udcCreateServer` runs.
That .NET leaves it where it is from then on is an assumption, `InPlace`.  Others are in the
type of `processEvents`: who has subscribed stays the same for the whole call, and a handler
calls the library, but neither throws nor disposes of the server.

The other methods call the function of the library that they are named after.
-/
import UdpConnect.Api

namespace UdpConnect

open Memory

/-! ### The loop, from outside -/

/-- What an application does in a turn of its loop: it asks for an event and handles it. -/
structure Frame where
  order : List UdcEndPointId
  time : Milliseconds
  handler : List Op

namespace Frame

def event (s : UdcServerImpl) (x : Frame) : Option UdcEvent := (udcProcessEvents s x.order x.time).2

def next (s : UdcServerImpl) (x : Frame) : UdcServerImpl :=
  runState (udcProcessEvents s x.order x.time).1 x.handler

end Frame

namespace Wrapper

/-! ### What .NET does -/

inductive Exception where
  /-- An array of this length is not to be had. -/
  | allocation
  /-- `new Exception("Failed to start server.")` -/
  | failedToStart
  /-- The part of an array is not inside of it. -/
  | argument
  /-- A delegate that is null has been called. -/
  | nullReference
deriving DecidableEq

/-- An `ArraySegment<byte>`, with what can be read in it. -/
structure ArraySegment where
  offset : Nat
  bytes : List UInt8
deriving DecidableEq

/-- `new ArraySegment<byte>(array, offset, count)`. -/
def ArraySegment.new (array : List UInt8) (offset count : Int) : Except Exception ArraySegment :=
  if 0 ≤ offset ∧ 0 ≤ count ∧ offset + count ≤ array.length then
    .ok ⟨offset.toNat, slice array offset.toNat count.toNat⟩
  else .error .argument

/-! ### The class -/

/-- The events of the class, each of which is null unless somebody has subscribed to it. -/
inductive Handler where
  | onConnectionSuccess
  | onConnectionTimeout
  | onConnectionLost
  | onConnectionRegained
  | onReceivedMessageIPv4
  | onReceivedMessageIPv6
deriving DecidableEq

/-- A call of a handler. -/
inductive Invocation where
  | onConnectionSuccess (endPointId : UdcEndPointId)
  | onConnectionTimeout (endPointId : UdcEndPointId)
  | onConnectionLost (endPointId : UdcEndPointId)
  | onConnectionRegained (endPointId : UdcEndPointId)
  | onReceivedMessageIPv4 (address : UdcAddressIPv4) (port : UInt16) (segment : ArraySegment)
  | onReceivedMessageIPv6 (address : UdcAddressIPv6) (port : UInt16) (segment : ArraySegment)
deriving DecidableEq

/-- The constructor; `allocated` is whether there is room for the array. -/
def new (signature : UdcSignature) (bufferSize : Nat) (allocated : Bool) :
    Except Exception UdcServerImpl :=
  let length := u32 (bufferSize + udcGetMinimumBufferSize)
  if !allocated || decide (2 ^ 31 ≤ length) then .error .allocation
  else
    match udcCreateServer signature (List.replicate length 0) with
    | none => .error .failedToStart
    | some server => .ok server

/-- The cases of connection events: `handler?.Invoke(endPointId)`. -/
def invokeConnection (subscribed : Bool) (invoke : UdcEndPointId → Invocation)
    (evnt : UdcEvent) : Except Exception (List Invocation) :=
  match udcGetResultConnectionEvent evnt with
  | none => .ok []
  | some endPointId => .ok (if subscribed then [invoke endPointId] else [])

/-- The cases of messages, where nobody asks whether the handler is null. -/
def invokeMessage {Address : Type} (subscribed : Bool)
    (invoke : Address → UInt16 → ArraySegment → Invocation) (buffer : List UInt8) :
    Option (Address × UInt16 × Nat × Nat) → Except Exception (List Invocation)
  | none => .ok []
  | some (address, port, index, size) =>
      match ArraySegment.new buffer (asInt index) (asInt size) with
      | .error e => .error e
      | .ok segment =>
          if subscribed then .ok [invoke address port segment] else .error .nullReference

/-- The `switch` of `ProcessEvents`. -/
def dispatch (subscribed : Handler → Bool) (buffer : List UInt8) (evnt : UdcEvent) :
    Except Exception (List Invocation) :=
  match evnt.eventType with
  | .connectionSuccess =>
      invokeConnection (subscribed .onConnectionSuccess) .onConnectionSuccess evnt
  | .connectionTimeout =>
      invokeConnection (subscribed .onConnectionTimeout) .onConnectionTimeout evnt
  | .connectionLost =>
      invokeConnection (subscribed .onConnectionLost) .onConnectionLost evnt
  | .connectionRegained =>
      invokeConnection (subscribed .onConnectionRegained) .onConnectionRegained evnt
  | .receiveMessageIPv4 =>
      invokeMessage (subscribed .onReceivedMessageIPv4) .onReceivedMessageIPv4 buffer
        (udcGetResultMessageIPv4Event evnt)
  | .receiveMessageIPv6 =>
      invokeMessage (subscribed .onReceivedMessageIPv6) .onReceivedMessageIPv6 buffer
        (udcGetResultMessageIPv6Event evnt)

/-- How far a call of `ProcessEvents` has come. -/
inductive Ending where
  | running
  | returned
  | threw (e : Exception)
deriving DecidableEq

structure Processed where
  server : UdcServerImpl
  invocations : List Invocation
  ending : Ending

/-- The array is where the library writes, whatever the library's state. -/
def InPlace (m_buffer : UdcServerImpl → List UInt8) : Prop :=
  ∀ s, m_buffer s = s.messageBuffer.bytes

/--
`ProcessEvents`, for as many turns as there are frames.  A frame says what its handler does,
and what arrives until the next turn; `m_buffer` is what the array then holds.
-/
def processEvents (m_buffer : UdcServerImpl → List UInt8) (subscribed : Handler → Bool) :
    List Frame → UdcServerImpl → Processed
  | [], s => ⟨s, [], .running⟩
  | x :: frames, s =>
      match x.event s with
      | none => ⟨(udcProcessEvents s x.order x.time).1, [], .returned⟩
      | some evnt =>
          match dispatch subscribed (m_buffer (udcProcessEvents s x.order x.time).1) evnt with
          | .error e => ⟨(udcProcessEvents s x.order x.time).1, [], .threw e⟩
          | .ok invocations =>
              let rest := processEvents m_buffer subscribed frames (x.next s)
              { rest with invocations := invocations ++ rest.invocations }

end Wrapper

end UdpConnect
