import NetDial.Filter.Basic

/-!
# Policies

A policy names a filter, so that it can be written down. A composition may hold
any number of policies and other compositions. Shuffling is the one random
policy: its arrangement is given per place in the policy, so that two
occurrences may shuffle differently.
-/
namespace NetDial

/-- The name of a filter. -/
inductive Policy where
  | default
  | dualStack
  | first
  | firstV4
  | firstV6
  | allV4
  | allV6
  | max (n : Nat)
  | reverse
  | shuffle
  | all
  | compose (policies : List Policy)
  deriving Repr

namespace Policy

mutual
/-- Two policies are the same. -/
def same : Policy → Policy → Bool
  | default, default => true
  | dualStack, dualStack => true
  | first, first => true
  | firstV4, firstV4 => true
  | firstV6, firstV6 => true
  | allV4, allV4 => true
  | allV6, allV6 => true
  | max n, max m => n == m
  | reverse, reverse => true
  | shuffle, shuffle => true
  | all, all => true
  | compose ps, compose qs => sameAll ps qs
  | _, _ => false

/-- The policies of two lists are the same, one by one. -/
def sameAll : List Policy → List Policy → Bool
  | [], [] => true
  | p :: ps, q :: qs => same p q && sameAll ps qs
  | _, _ => false
end

mutual
/-- The filter that a policy names, shuffles being arranged by their place in
it. -/
def filterAt (arrange : List Nat → Arrangement) (place : List Nat) : Policy → Filter
  | default => .default
  | dualStack => .dualStack
  | first => .first
  | firstV4 => .firstV4
  | firstV6 => .firstV6
  | allV4 => .allV4
  | allV6 => .allV6
  | max n => .max n
  | reverse => .reverse
  | shuffle => .shuffle (arrange place)
  | all => .all
  | compose ps => .compose (filtersAt arrange place 0 ps)

/-- The filters of the policies of a composition, which are its places from
`i` on. -/
def filtersAt (arrange : List Nat → Arrangement) (place : List Nat) (i : Nat) :
    List Policy → List Filter
  | [] => []
  | p :: ps => filterAt arrange (place ++ [i]) p :: filtersAt arrange place (i + 1) ps
end

/-- The filter that a policy names. -/
def filter (arrange : List Nat → Arrangement) (p : Policy) : Filter :=
  p.filterAt arrange []

end Policy
end NetDial
