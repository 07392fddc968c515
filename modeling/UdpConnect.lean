import UdpConnect.Address
import UdpConnect.AddressHash
import UdpConnect.Api
import UdpConnect.Client
import UdpConnect.Lib.AlternatingBit
import UdpConnect.Lib.Budget
import UdpConnect.Lib.HashTable
import UdpConnect.Lib.LossFree
import UdpConnect.Lib.Memory
import UdpConnect.Lib.Overtaking
import UdpConnect.Lib.Ownership
import UdpConnect.Lib.Past
import UdpConnect.Lib.Run
import UdpConnect.Lib.SelfDelimiting
import UdpConnect.Lib.Swap
import UdpConnect.Lib.Transducer
import UdpConnect.Logger
import UdpConnect.Message
import UdpConnect.Proofs.AddressMap
import UdpConnect.Proofs.Attempts
import UdpConnect.Proofs.Calls
import UdpConnect.Proofs.Capacity
import UdpConnect.Proofs.Clients
import UdpConnect.Proofs.Community
import UdpConnect.Proofs.Commute
import UdpConnect.Proofs.Delivery
import UdpConnect.Proofs.Effects
import UdpConnect.Proofs.Endpoints
import UdpConnect.Proofs.Frame
import UdpConnect.Proofs.Grammar
import UdpConnect.Proofs.Guards
import UdpConnect.Proofs.Handles
import UdpConnect.Proofs.Handshakes
import UdpConnect.Proofs.Idle
import UdpConnect.Proofs.Indexes
import UdpConnect.Proofs.Lifecycle
import UdpConnect.Proofs.Link
import UdpConnect.Proofs.Listener
import UdpConnect.Proofs.Logger
import UdpConnect.Proofs.Losses
import UdpConnect.Proofs.Machine
import UdpConnect.Proofs.Meeting
import UdpConnect.Proofs.Network
import UdpConnect.Proofs.Order
import UdpConnect.Proofs.Outage
import UdpConnect.Proofs.Pair
import UdpConnect.Proofs.Passes
import UdpConnect.Proofs.Payload
import UdpConnect.Proofs.PingRate
import UdpConnect.Proofs.Polling
import UdpConnect.Proofs.Probes
import UdpConnect.Proofs.Protocol
import UdpConnect.Proofs.Queues
import UdpConnect.Proofs.Receive
import UdpConnect.Proofs.Reconnect
import UdpConnect.Proofs.Replies
import UdpConnect.Proofs.RoundTrip
import UdpConnect.Proofs.Rounds
import UdpConnect.Proofs.Scan
import UdpConnect.Proofs.Sender
import UdpConnect.Proofs.Session
import UdpConnect.Proofs.Signature
import UdpConnect.Proofs.Silence
import UdpConnect.Proofs.Simulation
import UdpConnect.Proofs.Stages
import UdpConnect.Proofs.Timer
import UdpConnect.Proofs.Wire
import UdpConnect.Proofs.Wrapper
import UdpConnect.Server
import UdpConnect.Socket
import UdpConnect.Win32
import UdpConnect.Wrapper
