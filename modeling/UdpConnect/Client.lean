/-
One endpoint as the local server sees it: `UdcClient.h` and `UdcClient.cpp`.

A client is created pending, becomes connected by a connection handshake, may be
lost and regained any number of times, and carries the queue of reliable messages
with the one bit of the alternating-bit protocol.  `reliableState` is that bit, or
`-1` while the receiver is being asked to start over.
-/
import UdpConnect.Address
import UdpConnect.Message

namespace UdpConnect

structure UdcClient where
  id : UdcEndPointId
  /-- The reliable message id: `0`, `1`, or `-1` while resetting. -/
  reliableState : Int
  reliableMessages : List (List UInt8)
  isConnected : Bool
  outgoingAddress : UdcAddressMux
  pingPeriod : Milliseconds
  connectionTimeoutPeriod : Milliseconds
  connectionLostPeriod : Milliseconds
  connectionAttemptPeriod : Milliseconds
  reliableTimeoutPeriod : Milliseconds
  ping : Milliseconds
  pingLastSetTime : Milliseconds
  lastReceivedTime : Milliseconds
  /-- When the message in flight was first sent, or `0`. -/
  reliableSentTime : Milliseconds
  firstConnectAttemptTime : Milliseconds
  prevConnectAttemptTime : Milliseconds

namespace UdcClient

/-- The constructor. -/
def new (endPointId : UdcEndPointId) (outgoingAddress : UdcAddressMux)
    (pingPeriod timeoutPeriod : Milliseconds) : UdcClient where
  id := endPointId
  reliableState := 0
  reliableMessages := []
  isConnected := false
  outgoingAddress := outgoingAddress
  pingPeriod := pingPeriod
  connectionTimeoutPeriod := timeoutPeriod
  connectionLostPeriod := timeoutPeriod
  connectionAttemptPeriod := pingPeriod
  reliableTimeoutPeriod := timeoutPeriod
  ping := 0
  pingLastSetTime := 0
  lastReceivedTime := 0
  reliableSentTime := 0
  firstConnectAttemptTime := 0
  prevConnectAttemptTime := 0

variable (c : UdcClient)

def setReliableState (state : Int) : UdcClient := { c with reliableState := state }

def startConnecting (time : Milliseconds) : UdcClient :=
  { c with firstConnectAttemptTime := time, prevConnectAttemptTime := 0 }

def retryConnecting (time : Milliseconds) : UdcClient := { c with prevConnectAttemptTime := time }

def setConnectionLost : UdcClient := { c with isConnected := false }

def needsConnectionTimeoutEvent (time : Milliseconds) : Bool :=
  time - c.firstConnectAttemptTime ≥ c.connectionTimeoutPeriod

def needsConnectionAttempt (time : Milliseconds) : Bool :=
  time - c.prevConnectAttemptTime ≥ c.connectionAttemptPeriod

/-- The client after a pong, and whether a lost connection has been regained by it. -/
def receivePong (pingSentTime pongReceivedTime : Milliseconds) : UdcClient × Bool :=
  let c := { c with
    ping := pongReceivedTime - pingSentTime
    pingLastSetTime := pongReceivedTime
    lastReceivedTime := pongReceivedTime }
  if !c.isConnected then ({ c with isConnected := true }, true) else (c, false)

/-- A reliable handshake acts like a pong. -/
def receiveReliableHandshake (reliableSentTime handshakeReceivedTime : Milliseconds) :
    UdcClient × Bool :=
  c.receivePong reliableSentTime handshakeReceivedTime

def resetSendReliable : UdcClient := { c with reliableSentTime := 0 }

def setSendReliable (time : Milliseconds) : UdcClient :=
  if c.reliableSentTime = 0 then { c with reliableSentTime := time } else c

def needsReliableReset (time : Milliseconds) : Bool :=
  if c.reliableSentTime = 0 then false else time - c.reliableSentTime ≥ c.reliableTimeoutPeriod

def needsPing (time : Milliseconds) : Bool := time - c.pingLastSetTime ≥ c.pingPeriod

def needsConnectionLostEvent (time : Milliseconds) : Bool :=
  c.isConnected && time - c.lastReceivedTime ≥ c.connectionLostPeriod

def receiveConnectionHandshake (receivedTime : Milliseconds) : UdcClient :=
  let c := if !c.isConnected then { c with isConnected := true } else c
  { c with lastReceivedTime := receivedTime }

/-- `reliableMessages().push(msg)`. -/
def pushReliable (msg : List UInt8) : UdcClient :=
  { c with reliableMessages := c.reliableMessages ++ [msg] }

/-- `reliableMessages().pop()`. -/
def popReliable : UdcClient := { c with reliableMessages := c.reliableMessages.tail }

end UdcClient

end UdpConnect
