import NetDial.Address.AddrList

/-!
# Filters

A filter picks which of several addresses to try and in which order. It sees
the IP addresses only, an address without one being `none`, and answers with
indices; a caller drops indices that do not exist. Unless said otherwise a
filter keeps the order of what it picks and leaves lists of at most one address
as they are.
-/
namespace NetDial

/-- What a filter chooses from. -/
abbrev Candidates := List (Option Ip)

/-- The candidate is an IPv4 address. -/
def isV4Candidate (c : Option Ip) : Bool :=
  c.any Ip.isV4

/-- The candidate is an IPv6 address. -/
def isV6Candidate (c : Option Ip) : Bool :=
  c.any Ip.isV6

/-- A rule that picks candidates by index. -/
structure Filter where
  select : Candidates → List Nat

/-- An order of each number of things. -/
structure Arrangement where
  order : Nat → List Nat
  perm : ∀ n, (order n).Perm (List.range n)

/-- Things in the order they are in. -/
def Arrangement.asIs : Arrangement :=
  ⟨List.range, fun n => List.Perm.refl (List.range n)⟩

namespace Filter

/-- The addresses of a list that the filter picks. -/
def filterAddrs (f : Filter) (l : AddrList) : AddrList :=
  l.select (f.select l.ips)

/-- The IP addresses that the filter picks. -/
def filterIps (f : Filter) (ips : List Ip) : List Ip :=
  (f.select (ips.map some)).filterMap fun i => ips[i]?

/-! ## Picking by family -/

/-- All indices. -/
def allIndices (cs : Candidates) : List Nat :=
  List.range cs.length

/-- The index of the first candidate with the property. -/
def firstWhere (p : Option Ip → Bool) (cs : Candidates) : List Nat :=
  (cs.findIdx? p).toList

/-- The indices of all candidates with the property. -/
def allWhere (p : Option Ip → Bool) (cs : Candidates) : List Nat :=
  (allIndices cs).filter fun i => cs[i]?.any p

/-- Picks with `pick`, but leaves at most one candidate as it is. -/
def unlessSingle (pick : Candidates → List Nat) : Filter :=
  ⟨fun cs => if cs.length ≤ 1 then allIndices cs else pick cs⟩

/-- Every candidate. -/
def all : Filter :=
  ⟨allIndices⟩

/-- The first candidate. -/
def first : Filter :=
  ⟨fun cs => if cs = [] then [] else [0]⟩

/-- The first IPv4 address. -/
def firstV4 : Filter :=
  unlessSingle (firstWhere isV4Candidate)

/-- The first IPv6 address. -/
def firstV6 : Filter :=
  unlessSingle (firstWhere isV6Candidate)

/-- The first IPv4 address, or if there is none the first IPv6 address. -/
def default : Filter :=
  unlessSingle fun cs =>
    ((cs.findIdx? isV4Candidate).or (cs.findIdx? isV6Candidate)).toList

/-- The first address of each family that was not `seen` yet, indices counting
from `i`. -/
def firstOfEach (i : Nat) (seenV4 seenV6 : Bool) : Candidates → List Nat
  | [] => []
  | c :: cs =>
    if seenV4 && seenV6 then []
    else if !seenV4 && isV4Candidate c then i :: firstOfEach (i + 1) true seenV6 cs
    else if !seenV6 && isV6Candidate c then i :: firstOfEach (i + 1) seenV4 true cs
    else firstOfEach (i + 1) seenV4 seenV6 cs

/-- The first IPv4 and the first IPv6 address, in the order of the list. -/
def dualStack : Filter :=
  unlessSingle (firstOfEach 0 false false)

/-- All IPv4 addresses, also of a single candidate. -/
def allV4 : Filter :=
  ⟨allWhere isV4Candidate⟩

/-- All IPv6 addresses, also of a single candidate. -/
def allV6 : Filter :=
  ⟨allWhere isV6Candidate⟩

/-- All candidates from last to first. -/
def reverse : Filter :=
  ⟨fun cs => (allIndices cs).reverse⟩

/-- All candidates, arranged anew. -/
def shuffle (a : Arrangement) : Filter :=
  ⟨fun cs => a.order cs.length⟩

/-! ## At most so many, evenly from both families -/

/-- How many addresses of each family to take. -/
structure Quota where
  v4 : Nat
  v6 : Nat
  deriving DecidableEq, Repr

/-- The shares of both families in `n` places, when there are `c4` and `c6` of
them: half each, an odd place going to IPv4, and what one family cannot fill
going to the other. -/
def quota (n c4 c6 : Nat) : Quota :=
  let half := n / 2
  if c6 ≤ half then ⟨n - c6, c6⟩
  else if c4 ≤ half then ⟨c4, n - c4⟩
  else ⟨n - half, half⟩

/-- The first addresses of each family within the quota, indices counting from
`i`. -/
def takeQuota (i : Nat) (q : Quota) : Candidates → List Nat
  | [] => []
  | c :: cs =>
    if 0 < q.v4 ∧ isV4Candidate c then i :: takeQuota (i + 1) { q with v4 := q.v4 - 1 } cs
    else if 0 < q.v6 ∧ isV6Candidate c then i :: takeQuota (i + 1) { q with v6 := q.v6 - 1 } cs
    else takeQuota (i + 1) q cs

/-- At most `n` addresses, evenly from both families, the front of the list
first. -/
def max (n : Nat) : Filter :=
  ⟨fun cs =>
    if cs.length ≤ n then allIndices cs
    else takeQuota 0 (quota n (cs.countP isV4Candidate) (cs.countP isV6Candidate)) cs⟩

/-! ## Composition -/

/-- What the next filter picks from what was selected so far. -/
def refine (cs : Candidates) (selected : List Nat) (f : Filter) : List Nat :=
  (f.select (selected.map fun i => cs[i]?.join)).filterMap fun j => selected[j]?

/-- The filters one after the other, each on what the one before picked. -/
def compose (fs : List Filter) : Filter :=
  ⟨fun cs => fs.foldl (refine cs) (allIndices cs)⟩

/-- The tuples that are filters. -/
inductive Tuple where
  | two (f g : Filter)
  | three (f g h : Filter)
  | four (f g h k : Filter)

/-- The filters of a tuple, in order. -/
def Tuple.members : Tuple → List Filter
  | two f g => [f, g]
  | three f g h => [f, g, h]
  | four f g h k => [f, g, h, k]

/-- A tuple is the composition of its members. -/
def Tuple.filter (t : Tuple) : Filter :=
  compose t.members

/-! ## Descriptions -/

/-- The description of a filter whose rule is hidden. -/
def hiddenName : Text :=
  "BoxAddrFilter".toList

/-- The description of a composition of so many filters. -/
def describeCompose (count : Nat) : Text :=
  "Compose([".toList ++ Text.join ", ".toList (List.replicate count hiddenName) ++ "])".toList

/-- The description of `max n`. -/
def describeMax (n : Nat) : Text :=
  "MaxFilter(".toList ++ Text.decimal n ++ ")".toList

end Filter
end NetDial
