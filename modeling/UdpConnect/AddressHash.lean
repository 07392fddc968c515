/-
The map on addresses: `UdcAddressHash.h`, on addresses as `UdcAddressMux.h` lays them out.

In memory an address is a tag beside a union of sixteen bytes, of which an IPv4 address
takes the first four and leaves the others as they were.  Elsewhere addresses are the
values of `UdcAddressMux` and maps are finite maps; `Layout.mux` is the value an address
in memory stands for.
-/
import UdpConnect.Address
import UdpConnect.Lib.HashTable
import UdpConnect.Lib.Memory

namespace UdpConnect

open Memory

inductive UdcAddressFamily where
  | ipv4
  | ipv6
deriving DecidableEq, Repr

/-- The union of the two addresses, both of which begin at its first byte. -/
@[ext] structure UdcAddressUnion where
  bytes : List UInt8
  size : bytes.length = 16

instance : DecidableEq UdcAddressUnion := fun _ _ => decidable_of_iff' _ UdcAddressUnion.ext_iff

namespace UdcAddressUnion

variable (u : UdcAddressUnion)

def ipv4 : UdcAddressIPv4 := ⟨u.bytes.take 4, by rw [List.length_take, u.size]; rfl⟩

def ipv6 : UdcAddressIPv6 := ⟨u.bytes, u.size⟩

/-- Writing the IPv4 address leaves the bytes behind it. -/
def setIPv4 (ip : UdcAddressIPv4) : UdcAddressUnion :=
  ⟨ip.octets ++ u.bytes.drop 4, by rw [List.length_append, ip.size, List.length_drop, u.size]⟩

/-- The IPv6 address takes all of them. -/
def ofIPv6 (ip : UdcAddressIPv6) : UdcAddressUnion := ⟨ip.segments, ip.size⟩

end UdcAddressUnion

/-- A `UdcAddressMux` in memory. -/
structure UdcAddressMux.Layout where
  family : UdcAddressFamily
  address : UdcAddressUnion
  port : UInt16
deriving DecidableEq

namespace UdcAddressMux.Layout

variable (x : Layout)

/-- The address that the members named by the tag make up. -/
def mux : UdcAddressMux where
  address := match x.family with
    | .ipv4 => .ipv4 x.address.ipv4
    | .ipv6 => .ipv6 x.address.ipv6
  port := x.port

/-- The bytes of the member that the tag names. -/
def active : List UInt8 :=
  match x.family with
  | .ipv4 => x.address.ipv4.octets
  | .ipv6 => x.address.ipv6.segments

/-- What `UdcSocketMux::receive` makes of the variable it is given, for each kind of socket. -/
def receiveIPv4 (ip : UdcAddressIPv4) (port : UInt16) : Layout :=
  ⟨.ipv4, x.address.setIPv4 ip, port⟩

def receiveIPv6 (ip : UdcAddressIPv6) (port : UInt16) : Layout :=
  ⟨.ipv6, .ofIPv6 ip, port⟩

end UdcAddressMux.Layout

namespace UdcAddressMap

open UdcAddressMux

/-- The first four bytes of the union, whichever member is in it, as a `uint32_t`. -/
def hasher (x : Layout) : Nat := ofLe32 x.address.ipv4.octets

def compareEquals (a b : Layout) : Bool :=
  if a.family ≠ b.family then false
  else if a.port ≠ b.port then false
  else if a.family = .ipv6 then a.address.ipv6.segments = b.address.ipv6.segments
  else a.address.ipv4.octets = b.address.ipv4.octets

end UdcAddressMap

end UdpConnect
