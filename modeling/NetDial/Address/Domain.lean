import NetDial.Error.Chain

/-!
# Domain names

A domain name is a sequence of labels between dots, with an optional dot at the
end. A label has 1 to 63 ASCII letters, digits, underscores and hyphens and
neither starts nor ends with a hyphen; the name has 1 to 255 bytes and some
letter or underscore. Names are compared as they are written.
-/
namespace NetDial

/-- The longest label. -/
def maxLabelLength : Nat :=
  63

/-- The longest name, in bytes. -/
def maxNameLength : Nat :=
  255

/-- What was read of a name: its last character, how long the current label is
and whether a letter or underscore was seen. Before the name the last character
counts as a dot. -/
structure NameScan where
  last : Char := '.'
  label : Nat := 0
  named : Bool := false

/-- The state after one more character, if the name may go on with it. -/
def NameScan.step (s : NameScan) (c : Char) : Option NameScan :=
  if c.isAlpha || c == '_' then some ⟨c, s.label + 1, true⟩
  else if c.isDigit then some ⟨c, s.label + 1, s.named⟩
  else if c == '-' then
    if s.last == '.' then none else some ⟨c, s.label + 1, s.named⟩
  else if c == '.' then
    if s.last == '.' || s.last == '-' || maxLabelLength < s.label || s.label == 0 then none
    else some ⟨c, 0, s.named⟩
  else none

/-- The name may end here. -/
def NameScan.isComplete (s : NameScan) : Bool :=
  s.last != '-' && s.label ≤ maxLabelLength && s.named

/-- The text is a domain name. -/
def isDomainName (s : Text) : Bool :=
  s != [] && Text.byteLength s ≤ maxNameLength &&
    match s.foldlM NameScan.step {} with
    | some t => t.isComplete
    | none => false

/-- A domain name. -/
structure Domain where
  name : Text
  isName : isDomainName name = true
  deriving DecidableEq

namespace Domain

/-- The text as a domain name, if it is one. -/
def parse? (s : Text) : Option Domain :=
  if h : isDomainName s = true then some ⟨s, h⟩ else none

/-- The error for a text that is no domain name. -/
def invalid : Error :=
  .erased (.ofText "invalid domain".toList)

/-- The text as a domain name, or the error that it is none. -/
def parse (s : Text) : Except Error Domain :=
  match parse? s with
  | some d => .ok d
  | none => .error invalid

/-- The name of this host. -/
def localhost : Domain :=
  ⟨"localhost".toList, by decide⟩

/-- The name ends in a dot. -/
def isFullyQualified (d : Domain) : Bool :=
  d.name.getLast? == some '.'

/-- The order of names is that of their bytes. -/
def order (d e : Domain) : Ordering :=
  Text.order d.name e.name

end Domain
end NetDial
