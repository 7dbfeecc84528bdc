import NetDial.Ip.Literal
import NetDial.Ip.Print

/-!
# Zones and scoped addresses

A zone names the link on which an IPv6 address is meant. In a text it stands
behind the last percent sign, unless that sign opens the text. A scoped address
is an IP address with a zone or without one; the empty zone is no zone.
-/
namespace NetDial

/-- The host and its zone: the zone is what stands behind the last `%`, if that
is not the first character, and else empty. -/
def splitHostZone (s : Text) : Text × Text :=
  match Text.splitLast? '%' s with
  | some (c :: host, zone) => (c :: host, zone)
  | _ => (s, [])

/-- A zone, if it is not empty. -/
def zone? (z : Text) : Option Text :=
  if z = [] then none else some z

/-- The address of an IPv6 literal and its zone. -/
def Ipv6.parseZoned? (s : Text) : Option (Ipv6 × Option Text) :=
  let (host, zone) := splitHostZone s
  (Ipv6.parse? host).map fun x => (x, zone? zone)

/-- An IP address with an optional zone. -/
structure ScopedIp where
  ip : Ip
  zone : Option Text
  deriving DecidableEq, Repr

namespace ScopedIp

/-- The address with this zone; the empty zone is dropped. -/
def withZone (ip : Ip) (zone : Option Text) : ScopedIp :=
  ⟨ip, zone.bind zone?⟩

/-- The address without zone. -/
def ofIp (ip : Ip) : ScopedIp :=
  ⟨ip, none⟩

/-- Reads an IPv4 literal, or an IPv6 literal with an optional zone. -/
def parse? (s : Text) : Option ScopedIp :=
  match Ipv4.parse? s with
  | some x => some (ofIp (.v4 x))
  | none => (Ipv6.parseZoned? s).map fun p => withZone (.v6 p.1) p.2

/-- The address, and a percent sign before its zone. -/
def text (x : ScopedIp) : Text :=
  match x.zone with
  | some z => x.ip.text ++ '%' :: z
  | none => x.ip.text

end ScopedIp

/-- The number of the link that a zone names: its leading digits as a 32-bit
number, and 0 (no link) if there are none or they are too large. Links are not
known by name here. -/
def zoneScopeId (zone : Text) : Nat :=
  let digits := zone.takeWhile Char.isDigit
  let n := Text.decimalValue digits
  if n < UInt32.size then n else 0

end NetDial
