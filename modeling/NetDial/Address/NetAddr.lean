import NetDial.Address.HostPort
import NetDial.Address.Path
import NetDial.Ip.Scoped

/-!
# Network addresses

An address is an endpoint of one of four kinds: IP address and port of a stream
or datagram socket, IP address of a raw socket, or path of a local socket.
-/
namespace NetDial

/-- The kind of an address. -/
inductive AddrKind where
  | stream
  | datagram
  | rawIp
  | localPath
  deriving DecidableEq, Repr

namespace AddrKind

/-- The name of the kind. -/
def text : AddrKind → Text
  | stream => "stream".toList
  | datagram => "datagram".toList
  | rawIp => "raw-ip".toList
  | localPath => "local".toList

/-- Addresses of the kind have an IP address. -/
def hasIp : AddrKind → Bool
  | localPath => false
  | _ => true

/-- Addresses of the kind have a port. -/
def hasPort : AddrKind → Bool
  | stream | datagram => true
  | _ => false

end AddrKind

/-- An address of the wrong kind. -/
structure KindMismatch where
  expected : AddrKind
  found : AddrKind
  deriving DecidableEq, Repr

/-- The message names both kinds. -/
def KindMismatch.text (e : KindMismatch) : Text :=
  "address kind mismatch: expected ".toList ++ e.expected.text ++ " address, found ".toList
    ++ e.found.text

/-- A network address. -/
inductive NetAddr where
  | stream (ip : ScopedIp) (port : UInt16)
  | datagram (ip : ScopedIp) (port : UInt16)
  | rawIp (ip : ScopedIp)
  | localPath (path : Text)
  deriving DecidableEq, Repr

/-- An IP address and port as the socket layer takes it; the link number is
there for IPv6 only. -/
structure SocketAddr where
  ip : Ip
  port : UInt16
  scopeId : Option Nat
  deriving DecidableEq, Repr

namespace NetAddr

/-- The address of this kind with this IP address; raw IP addresses have no
port, and local addresses no IP address. -/
def withIp? (kind : AddrKind) (ip : ScopedIp) (port : UInt16) : Option NetAddr :=
  match kind with
  | .stream => some (.stream ip port)
  | .datagram => some (.datagram ip port)
  | .rawIp => some (.rawIp ip)
  | .localPath => none

/-- The kind of the address. -/
def kind : NetAddr → AddrKind
  | stream .. => .stream
  | datagram .. => .datagram
  | rawIp _ => .rawIp
  | localPath _ => .localPath

/-- The IP address with its zone. -/
def scopedIp? : NetAddr → Option ScopedIp
  | stream ip _ | datagram ip _ | rawIp ip => some ip
  | localPath _ => none

/-- The IP address. -/
def ip? (a : NetAddr) : Option Ip :=
  a.scopedIp?.map ScopedIp.ip

/-- The zone. -/
def zone? (a : NetAddr) : Option Text :=
  a.scopedIp?.bind ScopedIp.zone

/-- The port of a stream or datagram address. -/
def port? : NetAddr → Option UInt16
  | stream _ port | datagram _ port => some port
  | rawIp _ | localPath _ => none

/-- The path of a local address. -/
def path? : NetAddr → Option Text
  | localPath path => some path
  | _ => none

/-- The address for the socket layer. Raw IP addresses have port 0, and the
zone of an IPv6 address becomes a link number. -/
def toSocketAddr? (a : NetAddr) : Option SocketAddr :=
  a.scopedIp?.map fun x =>
    let scopeId := if x.ip.isV6 then some ((x.zone.map zoneScopeId).getD 0) else none
    ⟨x.ip, a.port?.getD 0, scopeId⟩

/-- A scoped IP address before its port, an IPv6 address in brackets. -/
def endpointText (ip : ScopedIp) (port : UInt16) : Text :=
  let port := Text.decimal port.toNat
  if ip.ip.isV6 then '[' :: ip.text ++ "]:".toList ++ port else ip.text ++ ':' :: port

/-- The text of an address. -/
def text : NetAddr → Text
  | stream ip port | datagram ip port => endpointText ip port
  | rawIp ip => ip.text
  | localPath path => path

/-- The same address, local paths being compared by their components. -/
def same : NetAddr → NetAddr → Bool
  | localPath p, localPath q => SocketPath.same p q
  | a, b => a == b

/-- The stream address of a socket address in its usual text, `ip:port` or
`[ip]:port`, whose zone is dropped. -/
def ofSocketText? (s : Text) : Option NetAddr :=
  match splitHostPort s with
  | .error _ => none
  | .ok (host, port) =>
    let n := Text.decimalValue port
    match Ip.parseStrict? (splitHostZone host).1 with
    | some ip =>
      if Text.isDecimal port && n < 65536 then some (.stream (.ofIp ip) (UInt16.ofNat n)) else none
    | none => none

end NetAddr
end NetDial
