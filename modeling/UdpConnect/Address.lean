/-
Addresses: `UdcAddressMux.h` and the address structures of `udp_connect.h`.

The source keeps an address as a family tag beside a union, and every reader looks
only at the member the tag names.  Here the tag and the union are one inductive
type.  Two addresses are then equal exactly when `UdcAddressMap`'s comparison says
so: same family, same bytes of that family, same port.
-/
import Mathlib.Data.Finmap

namespace UdpConnect

/-- Four octets, `[0].[1].[2].[3]`. -/
structure UdcAddressIPv4 where
  octets : List UInt8
  size : octets.length = 4
deriving DecidableEq

/-- Eight segments of two bytes, kept as the bytes in network order. -/
structure UdcAddressIPv6 where
  segments : List UInt8
  size : segments.length = 16
deriving DecidableEq

inductive UdcAddress where
  | ipv4 (ip : UdcAddressIPv4)
  | ipv6 (ip : UdcAddressIPv6)
deriving DecidableEq

structure UdcAddressMux where
  address : UdcAddress
  port : UInt16
deriving DecidableEq

/-- `UdcAddressMap<T>`. -/
abbrev UdcAddressMap (T : Type) := Finmap fun _ : UdcAddressMux => T

end UdpConnect
