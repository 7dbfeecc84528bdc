import NetDial.Dial.Connector
import NetDial.Dial.Target
import NetDial.Session.Lookup

/-!
# Resolution

A directory turns addresses into lists of IP addresses: it has a resolver for
names, a table of services for ports, and the stacks that addresses are narrowed
to. The resolver is asked only for names, and only if there is time left; the
rest needs no time.

What a resolution or a dial comes to is optional: without a deadline it may
never return.
-/
namespace NetDial

/-- What the host has: its IP stacks and its sockets. -/
structure Host where
  capability : Capability
  sockets : Network → NetAddr → ConnectOptions → Connecting

/-- How names, services and stacks are found. -/
structure Directory where
  resolver : Resolver
  capability : Capability
  services : Services

/-- The directory of a host itself. -/
def Host.directory (h : Host) : Directory :=
  ⟨.system, h.capability, .wellKnown⟩

namespace Session

/-- Resolves a name: it is looked up, unless the deadline has passed, and the
addresses found are narrowed. -/
def resolveName (s : Session) (d : Directory) (deadline : Option Nat) (n : Network)
    (host : Domain) (zone : Option Text) (port : UInt16) :
    Option (Except ResolveError AddrList) × Session :=
  if deadline.any fun t => t ≤ s.now then (some (.error .timeout), s)
  else
    match s.lookup d.resolver deadline host with
    | (.answered (.ok ips), s) => (some (Target.narrowed d.capability n zone port ips), s)
    | (.answered (.error e), s) => (some (.error (.resolution e)), s)
    | (.late, s) => (some (.error .timeout), s)
    | (.forever, s) => (none, s)

/-- Resolves an address on a network up to a deadline. -/
def resolve (s : Session) (d : Directory) (deadline : Option Nat) (n : Network) (address : Text) :
    Option (Except ResolveError AddrList) × Session :=
  match Target.parse n d.services address with
  | .error e => (some (.error e), s)
  | .ok (.fixed a) => (some (.ok ⟨n.addrKind, [a]⟩), s)
  | .ok (.literal ip zone port) => (some (Target.narrowed d.capability n zone port [ip]), s)
  | .ok (.name host zone port) => s.resolveName d deadline n host zone port

/-- Resolves an address on a named network, whose addresses must be of one of
these kinds. -/
def resolveOn (s : Session) (d : Directory) (kinds : List AddrKind) (network address : Text) :
    Option (Except ResolveError AddrList) × Session :=
  match Network.parse network with
  | .error e => (some (.error (.malformed (.root (.unknownNetwork e)))), s)
  | .ok n =>
    if n.addrKind ∈ kinds then s.resolve d none n address
    else (some (.error (.malformed (.root (.unknownNetwork ⟨network⟩)))), s)

end Session
end NetDial
