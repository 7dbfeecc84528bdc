import NetDial.Address.AddrList
import NetDial.Address.Domain
import NetDial.Capability
import NetDial.Dial.Error
import NetDial.Service

/-!
# Targets

What the text of an address asks for on a network. On a local network it is a
path. On the others it is a host, with a port if the network has ports: an
absent host stands for the unspecified address, a literal for itself, and
anything else is a name, with an optional zone, that has to be looked up.

The addresses of a host are narrowed to what the network and the stacks allow,
one by one and in order.
-/
namespace NetDial

/-- What an address asks for. -/
inductive Target where
  | fixed (addr : NetAddr)
  | literal (ip : Ip) (zone : Option Text) (port : UInt16)
  | name (host : Domain) (zone : Option Text) (port : UInt16)
  deriving DecidableEq

/-- The unspecified address of a family, IPv4 unless the family is IPv6. -/
def IpFamily.unspecified : IpFamily → Ip
  | .v6 => .v6 .unspecified
  | .any | .v4 => .v4 .unspecified

namespace Target

/-- The host and the port of an address on a network with ports, or the host
alone. -/
def endpoint (n : Network) (services : Services) (address : Text) :
    Except ResolveError (Text × UInt16) :=
  match n.transport? with
  | none => .ok (address, 0)
  | some t =>
    match splitHostPort address with
    | .error e => .error (.malformed (.root (.address e)))
    | .ok (host, port) =>
      match parsePort t port services with
      | .error e => .error (.malformed e)
      | .ok p => .ok (host, p)

/-- What a host that is not empty asks for. -/
def ofHost (host : Text) (port : UInt16) : Except ResolveError Target :=
  match Ipv4.parse? host, Ipv6.parseZoned? host with
  | some x, _ => .ok (.literal (.v4 x) none port)
  | none, some (x, zone) => .ok (.literal (.v6 x) zone port)
  | none, none =>
    let (label, zone) := splitHostZone host
    match Domain.parse? label with
    | some d => .ok (.name d (zone? zone) port)
    | none => .error (.resolution (.root .invalidDomain))

/-- The unspecified address of the network, with a port if it has ports. -/
def unspecified (n : Network) (port : UInt16) : NetAddr :=
  match n.transport? with
  | some .tcp => .stream (.ofIp n.family.unspecified) port
  | some .udp => .datagram (.ofIp n.family.unspecified) port
  | none => .rawIp (.ofIp n.family.unspecified)

/-- What an address asks for on a network. -/
def parse (n : Network) (services : Services) (address : Text) : Except ResolveError Target :=
  if address = [] then .error (.malformed (.root .missingAddress))
  else if n.addrKind = .localPath then .ok (.fixed (.localPath address))
  else
    match endpoint n services address with
    | .error e => .error e
    | .ok (host, port) =>
      if host = [] then .ok (.fixed (unspecified n port)) else ofHost host port

/-- The addresses that are left of a host's IP addresses on a network. There
must be one. -/
def narrowed (c : Capability) (n : Network) (zone : Option Text) (port : UInt16) (ips : List Ip) :
    Except ResolveError AddrList :=
  let usable := ips.filterMap fun ip => c.narrow? ip n.family zone.isSome
  let addrs := usable.filterMap fun ip => NetAddr.withIp? n.addrKind (.withZone ip zone) port
  if addrs = [] then .error .noSuitableAddress else .ok ⟨n.addrKind, addrs⟩

end Target
end NetDial
