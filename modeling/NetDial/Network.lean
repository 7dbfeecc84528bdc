import NetDial.Address.NetAddr

/-!
# Networks

A network names a transport and, for IP networks, the family it is pinned to:
`tcp`, `udp` and `ip` with an optional `4` or `6`, or one of the local socket
types. An `ip` network may name a protocol behind a colon; the protocol is kept
as written and read only when a raw socket is opened.
-/
namespace NetDial

/-- The family that a network is pinned to. -/
inductive IpFamily where
  | any
  | v4
  | v6
  deriving DecidableEq, Repr

/-- The suffix of a network name. -/
def IpFamily.suffix : IpFamily → Text
  | any => []
  | v4 => ['4']
  | v6 => ['6']

/-- The socket type of a local network. -/
inductive UnixType where
  | stream
  | datagram
  | seqPacket
  deriving DecidableEq, Repr

/-- The transport that ports belong to. -/
inductive Transport where
  | tcp
  | udp
  deriving DecidableEq, Repr

/-- The name of a transport. -/
def Transport.text : Transport → Text
  | tcp => "tcp".toList
  | udp => "udp".toList

/-- A network. -/
inductive Network where
  | tcp (family : IpFamily)
  | udp (family : IpFamily)
  | ip (family : IpFamily) (protocol : Option Text)
  | unix (type : UnixType)
  deriving DecidableEq, Repr

/-- A name that is no network. -/
structure UnknownNetwork where
  name : Text
  deriving DecidableEq, Repr

/-- The message names the network. -/
def UnknownNetwork.text (e : UnknownNetwork) : Text :=
  "unknown network ".toList ++ e.name

namespace Network

/-- The kind of the addresses on a network. -/
def addrKind : Network → AddrKind
  | tcp _ => .stream
  | udp _ => .datagram
  | ip .. => .rawIp
  | unix _ => .localPath

/-- The family that the network is pinned to. -/
def family : Network → IpFamily
  | tcp f | udp f | ip f _ => f
  | unix _ => .any

/-- The transport, if the network has ports. -/
def transport? : Network → Option Transport
  | tcp _ => some .tcp
  | udp _ => some .udp
  | ip .. | unix _ => none

/-- The network is raced: only the TCP networks are. -/
def isStream : Network → Bool
  | tcp _ => true
  | _ => false

/-- The protocol of an `ip` network, if one was given. -/
def protocol? : Network → Option Text
  | ip _ protocol => protocol
  | _ => none

/-- The name of a network. -/
def text : Network → Text
  | tcp f => "tcp".toList ++ f.suffix
  | udp f => "udp".toList ++ f.suffix
  | ip f none => "ip".toList ++ f.suffix
  | ip f (some p) => "ip".toList ++ f.suffix ++ ':' :: p
  | unix .stream => "unix".toList
  | unix .datagram => "unixgram".toList
  | unix .seqPacket => "unixpacket".toList

/-- The names that have no colon, each with its network. -/
def plainNames : List (Text × Network) :=
  [("tcp".toList, tcp .any), ("tcp4".toList, tcp .v4), ("tcp6".toList, tcp .v6),
    ("udp".toList, udp .any), ("udp4".toList, udp .v4), ("udp6".toList, udp .v6),
    ("ip".toList, ip .any none), ("ip4".toList, ip .v4 none), ("ip6".toList, ip .v6 none),
    ("unix".toList, unix .stream), ("unixgram".toList, unix .datagram),
    ("unixpacket".toList, unix .seqPacket)]

/-- The names that may stand before a protocol, each with its family. -/
def ipNames : List (Text × IpFamily) :=
  [("ip".toList, .any), ("ip4".toList, .v4), ("ip6".toList, .v6)]

/-- The network of this name. A protocol is what stands behind the last colon,
and none if that is empty. -/
def parse (s : Text) : Except UnknownNetwork Network :=
  match Text.splitLast? ':' s with
  | some (base, protocol) =>
    match ipNames.lookup base with
    | some f => .ok (ip f (if protocol = [] then none else some protocol))
    | none => .error ⟨s⟩
  | none =>
    match plainNames.lookup s with
    | some n => .ok n
    | none => .error ⟨s⟩

/-- Protocols known by name. -/
def protocolNames : List (Text × Nat) :=
  [("icmp".toList, 1), ("igmp".toList, 2), ("tcp".toList, 6), ("udp".toList, 17),
    ("ipv6-icmp".toList, 58), ("ospf".toList, 89)]

/-- A decimal number up to 255, with an optional plus sign. -/
def parseProtocolNumber? (s : Text) : Option Nat :=
  let digits := match s with
    | '+' :: rest => rest
    | _ => s
  let n := Text.decimalValue digits
  if Text.isDecimal digits && n ≤ 255 then some n else none

/-- The number of the network's protocol: a known name in any case or a
decimal number. A network without protocol has none. -/
def protocolNumber (n : Network) : Except UnknownNetwork (Option Nat) :=
  match n.protocol? with
  | none => .ok none
  | some p =>
    match protocolNames.lookup (Text.lower p) with
    | some k => .ok (some k)
    | none =>
      match parseProtocolNumber? p with
      | some k => .ok (some k)
      | none => .error ⟨n.text⟩

end Network
end NetDial
