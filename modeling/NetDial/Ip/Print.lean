import NetDial.Ip.Basic
import NetDial.Text.Digits

/-!
# The text of IP addresses

IPv4 addresses print as dotted quads. IPv6 addresses print in the canonical
form: groups in small hexadecimal digits without leading zeros, the first
longest run of at least two zero groups written `::`, and an IPv4-mapped
address as `::ffff:` before its dotted quad.
-/
namespace NetDial

/-- The dotted quad. -/
def Ipv4.text (x : Ipv4) : Text :=
  Text.join ['.'] ([x.a, x.b, x.c, x.d].map fun n => Text.decimal n.toNat)

namespace Ipv6

/-- How many zero groups stand at the front. -/
def leadingZeros : List UInt16 → Nat
  | [] => 0
  | g :: gs => if g = 0 then leadingZeros gs + 1 else 0

/-- A run of groups by its place and length. -/
structure Run where
  start : Nat
  length : Nat
  deriving DecidableEq, Repr

/-- The first longest run of zero groups, looking at places from `at` on;
`best` is the one found before. -/
def longestZerosFrom (place : Nat) (best : Run) : List UInt16 → Run
  | [] => best
  | g :: gs =>
    let n := leadingZeros (g :: gs)
    longestZerosFrom (place + 1) (if best.length < n then ⟨place, n⟩ else best) gs

/-- The first longest run of zero groups. -/
def longestZeros (gs : List UInt16) : Run :=
  longestZerosFrom 0 ⟨0, 0⟩ gs

/-- Groups with colons between them. -/
def groupsText (gs : List UInt16) : Text :=
  Text.join [':'] (gs.map fun g => Text.hexadecimal g.toNat)

/-- The canonical text. -/
def text (x : Ipv6) : Text :=
  match x.mapped? with
  | some y => "::ffff:".toList ++ y.text
  | none =>
    let zeros := longestZeros x.groups
    if 2 ≤ zeros.length then
      groupsText (x.groups.take zeros.start) ++ "::".toList
        ++ groupsText (x.groups.drop (zeros.start + zeros.length))
    else groupsText x.groups

end Ipv6

/-- The canonical text of an address. -/
def Ip.text : Ip → Text
  | .v4 x => x.text
  | .v6 x => x.text

end NetDial
