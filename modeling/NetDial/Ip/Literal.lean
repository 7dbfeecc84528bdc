import NetDial.Ip.Basic
import NetDial.Ip.Scan

/-!
# IP literals

The readers of IPv4 and IPv6 literals. A literal covers the whole text or it is
none.

* A dotted quad is four runs of decimal digits between single dots, each at
  most 255; leading zeros are fine.
* An IPv6 literal is read group by group. The state of the reader (`Scan`) is
  the groups so far, the place of the ellipsis `::` among them and the text
  that is left; `Scan.step` reads one group, with what separates it from the
  next, or a dotted quad at the end. `Scan.run` makes at most eight steps,
  because each step adds a group, and `Scan.close` fills the ellipsis.

The dotted quad at the end of an IPv6 literal is read by a parameter, so that
the strict form below shares the reader. The strict form is the one used in
address tables: octets have one to three digits and no leading zero.
-/
namespace NetDial

namespace Ipv4

/-- Reads an octet and gives the text behind it. -/
def scanOctet? (s : Text) : Option (UInt8 × Text) :=
  match Ip.scanDecimal? s with
  | some (n, rest) => if n ≤ 255 then some (n.toUInt8, rest) else none
  | none => none

/-- Reads a dot and then an octet. -/
def scanDottedOctet? : Text → Option (UInt8 × Text)
  | '.' :: s => scanOctet? s
  | _ => none

/-- The address that a dotted quad stands for. -/
def parse? (s : Text) : Option Ipv4 := do
  let (a, s) ← scanOctet? s
  let (b, s) ← scanDottedOctet? s
  let (c, s) ← scanDottedOctet? s
  let (d, s) ← scanDottedOctet? s
  if s = [] then some ⟨a, b, c, d⟩ else none

/-- A run of digits as the strict form writes an octet: at most three of them,
and a zero in front only as the only one. -/
def isStrictOctet (run : Text) : Bool :=
  run.length ≤ 3 && (run.length ≤ 1 || run.head? != some '0')

/-- The address of a dotted quad whose octets have one to three digits and no
leading zero. -/
def parseStrict? (s : Text) : Option Ipv4 :=
  if (Text.split '.' s).all isStrictOctet then parse? s else none

end Ipv4

namespace Ipv6

/-- The state of the reader: the groups so far, how many of them stand before
the ellipsis, and the text that is left. -/
structure Scan where
  groups : List UInt16
  ellipsis : Option Nat
  rest : Text
  deriving DecidableEq

/-- What one step of the reader ends with. -/
inductive Progress where
  | failed
  | more (scan : Scan)
  | finished (scan : Scan)

namespace Scan

/-- The reader before the first group: an ellipsis may open the literal. -/
def start : Text → Scan
  | ':' :: ':' :: s => ⟨[], some 0, s⟩
  | s => ⟨[], none, s⟩

/-- The state after one more group. -/
def push (s : Scan) (g : UInt16) (rest : Text) : Scan :=
  { s with groups := s.groups ++ [g], rest }

/-- The end of a literal whose last four bytes are written as a dotted quad:
without an ellipsis exactly six groups stand before it, otherwise at most
six. -/
def stepQuad (quad : Text → Option Ipv4) (s : Scan) : Progress :=
  if s.ellipsis.isNone ∧ s.groups.length ≠ 6 then .failed
  else if 6 < s.groups.length then .failed
  else
    match quad s.rest with
    | none => .failed
    | some x => .finished { s with groups := s.groups ++ x.groups, rest := [] }

/-- Reads one group and the colon or ellipsis behind it, or the dotted quad
that ends the literal. A literal does not end in a single colon and has at
most one ellipsis. -/
def step (quad : Text → Option Ipv4) (s : Scan) : Progress :=
  match Ip.scanHex? s.rest with
  | none => .failed
  | some (n, after) =>
    let g := n.toUInt16
    match after with
    | '.' :: _ => stepQuad quad s
    | [] => .finished (s.push g [])
    | [':'] => .failed
    | ':' :: ':' :: rest =>
      if s.ellipsis.isSome then .failed
      else
        let t := { s.push g rest with ellipsis := some (s.groups.length + 1) }
        if rest = [] then .finished t else .more t
    | ':' :: rest => .more (s.push g rest)
    | _ => .failed

/-- At most `room` steps. -/
def run (quad : Text → Option Ipv4) : (room : Nat) → Scan → Option Scan
  | 0, s => some s
  | room + 1, s =>
    match step quad s with
    | .failed => none
    | .finished t => some t
    | .more t => run quad room t

/-- The groups with zeros in the place of the ellipsis, eight in all. -/
def expand (groups : List UInt16) (ellipsis : Nat) : List UInt16 :=
  groups.take ellipsis ++ List.replicate (8 - groups.length) 0 ++ groups.drop ellipsis

/-- The address that was read, if the whole text was: eight groups, or fewer
and an ellipsis, which stands for at least one group. -/
def close (s : Scan) : Option Ipv6 :=
  if s.rest ≠ [] then none
  else
    match s.ellipsis with
    | none => ofGroups? s.groups
    | some k => if s.groups.length < 8 then ofGroups? (expand s.groups k) else none

end Scan

/-- The address of an IPv6 literal, whose dotted quad is read by `quad`. -/
def parseWith? (quad : Text → Option Ipv4) (s : Text) : Option Ipv6 :=
  match Scan.start s with
  | ⟨_, some 0, []⟩ => some unspecified
  | t => (Scan.run quad 8 t).bind Scan.close

/-- The address of an IPv6 literal without zone. -/
def parse? (s : Text) : Option Ipv6 :=
  parseWith? Ipv4.parse? s

end Ipv6

/-- The address of a literal in the strict form used in address tables. -/
def Ip.parseStrict? (s : Text) : Option Ip :=
  match Ipv4.parseStrict? s with
  | some x => some (.v4 x)
  | none => (Ipv6.parseWith? Ipv4.parseStrict? s).map .v6

end NetDial
