import NetDial.Network

/-!
# What the host can reach

A host has an IPv4 stack, an IPv6 stack or both, and its IPv6 sockets may serve
IPv4-mapped addresses. Narrowing turns an address into one that the stacks and
the family of the network allow, or drops it.
-/
namespace NetDial

/-- The IP stacks of a host. -/
structure Capability where
  ipv4 : Bool
  ipv6 : Bool
  ipv4Mapped : Bool
  deriving DecidableEq, Repr

namespace Capability

/-- Both stacks and mapped addresses. -/
def dualStack : Capability :=
  ⟨true, true, true⟩

/-- A form of `ip` that the stacks support: IPv4 for IPv4 and mapped addresses
where there is an IPv4 stack, else IPv6, an IPv4 address in its mapped form. -/
def supportedIp? (c : Capability) (ip : Ip) : Option Ip :=
  match c.ipv4, ip.asV4? with
  | true, some x => some (.v4 x)
  | _, _ =>
    if c.ipv6 then
      match ip with
      | .v4 x => some (.v6 x.toMapped)
      | .v6 x => some (.v6 x)
    else none

/-- `ip` as an IPv4 address, if it is one or the mapped form of one. -/
def ipv4Only? (c : Capability) (ip : Ip) : Option Ip :=
  if c.ipv4 then ip.asV4?.map .v4 else none

/-- `ip`, if it is an IPv6 address and no mapped one. -/
def ipv6Only? (c : Capability) (ip : Ip) : Option Ip :=
  match ip with
  | .v4 _ => none
  | .v6 x => if c.ipv6 && x.mapped?.isNone then some (.v6 x) else none

/-- `ip` for a network pinned to `family`. An address with a zone can only be
an IPv6 address and is narrowed as such. -/
def narrow? (c : Capability) (ip : Ip) (family : IpFamily) (zoned : Bool) : Option Ip :=
  match family, zoned with
  | .v6, _ => c.ipv6Only? ip
  | _, true => c.ipv6Only? ip
  | .v4, false => c.ipv4Only? ip
  | .any, false => c.supportedIp? ip

end Capability
end NetDial
