import NetDial.Address.NetAddr

/-!
# Address lists

An ordered list of addresses that all have the kind of the list. Filters pick
from a list by index, so that picking keeps kind, ports and zones.
-/
namespace NetDial

/-- An ordered list of addresses and the kind they share. -/
structure AddrList where
  kind : AddrKind
  addrs : List NetAddr
  deriving DecidableEq, Repr

namespace AddrList

/-- Every address has the kind of the list. -/
def Homogeneous (l : AddrList) : Prop :=
  ∀ a ∈ l.addrs, a.kind = l.kind

/-- The empty list of a kind. -/
def empty (kind : AddrKind) : AddrList :=
  ⟨kind, []⟩

/-- The empty list of the same kind. -/
def newLike (l : AddrList) : AddrList :=
  empty l.kind

/-- The number of addresses. -/
def length (l : AddrList) : Nat :=
  l.addrs.length

/-- The list has no address. -/
def isEmpty (l : AddrList) : Bool :=
  l.addrs.isEmpty

/-- The address at index `i`. -/
def addr? (l : AddrList) (i : Nat) : Option NetAddr :=
  l.addrs[i]?

/-- The IP address at index `i`, if there is one. -/
def ip? (l : AddrList) (i : Nat) : Option Ip :=
  (l.addr? i).bind NetAddr.ip?

/-- The IP address of each element, in order. -/
def ips (l : AddrList) : List (Option Ip) :=
  l.addrs.map NetAddr.ip?

/-- The list with one more address at the end, which must have its kind. -/
def push (l : AddrList) (a : NetAddr) : Except KindMismatch AddrList :=
  if a.kind = l.kind then .ok { l with addrs := l.addrs ++ [a] }
  else .error ⟨l.kind, a.kind⟩

/-- The list of these addresses, which must all have the kind. -/
def ofAddrs (kind : AddrKind) (addrs : List NetAddr) : Except KindMismatch AddrList :=
  addrs.foldlM push (empty kind)

/-- The list with element `i` of `src` at the end; the same list if there is no
such element or the kinds differ. -/
def appendFrom (l src : AddrList) (i : Nat) : AddrList :=
  if src.kind = l.kind then
    match src.addr? i with
    | some a => { l with addrs := l.addrs ++ [a] }
    | none => l
  else l

/-- The elements at these indices, in that order; indices without element are
skipped. -/
def select (l : AddrList) (indices : List Nat) : AddrList :=
  indices.foldl (fun acc i => acc.appendFrom l i) l.newLike

/-- The list with elements `i` and `j` exchanged, if both are there. -/
def swap? (l : AddrList) (i j : Nat) : Option AddrList :=
  match l.addrs[i]?, l.addrs[j]? with
  | some a, some b => some { l with addrs := (l.addrs.set i b).set j a }
  | _, _ => none

/-- The addresses in brackets, with blanks between them. -/
def text (l : AddrList) : Text :=
  '[' :: Text.join [' '] (l.addrs.map NetAddr.text) ++ [']']

/-- The same kind and the same addresses, local paths being compared by their
components. -/
def same (l r : AddrList) : Bool :=
  l.kind == r.kind && l.length == r.length &&
    (l.addrs.zip r.addrs).all fun p => p.1.same p.2

end AddrList
end NetDial
