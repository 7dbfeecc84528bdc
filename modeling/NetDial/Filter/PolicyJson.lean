import NetDial.Filter.Policy
import NetDial.Json.Parse
import NetDial.Json.Print

/-!
# Policies as JSON

A policy without arguments is its name, or an object with its name before
`null`. `max` and `compose` are objects with their argument. Compositions nest,
within the number of brackets that a reader may have open at once.
-/
namespace NetDial

/-- How many objects and arrays a reader may have open at once. -/
def maxOpenBrackets : Nat :=
  127

namespace Policy

/-- The policies without arguments by their names. -/
def names : List (Text × Policy) :=
  [("default".toList, default), ("dual_stack".toList, dualStack), ("first".toList, first),
    ("first_ipv4".toList, firstV4), ("first_ipv6".toList, firstV6), ("ipv4".toList, allV4),
    ("ipv6".toList, allV6), ("reverse".toList, reverse), ("shuffle".toList, shuffle),
    ("all".toList, all)]

/-- The name of `max` in an object. -/
def maxName : Text :=
  "max".toList

/-- The name of `compose` in an object. -/
def composeName : Text :=
  "compose".toList

mutual
/-- The policy of a value, `room` brackets more being allowed. -/
def ofJsonWithin (room : Nat) : Json → Option Policy
  | .string (some s) => names.lookup s
  | .object [(some k, .null)] => if 1 ≤ room then names.lookup k else none
  | .object [(some k, .number n)] =>
    if 1 ≤ room ∧ k = maxName then n.toWord?.map max else none
  | .object [(some k, .array items)] =>
    if 2 ≤ room ∧ k = composeName then (listOfJsonWithin (room - 2) items).map compose else none
  | _ => none

/-- The policies of a composition. -/
def listOfJsonWithin (room : Nat) : List Json → Option (List Policy)
  | [] => some []
  | x :: xs =>
    match ofJsonWithin room x, listOfJsonWithin room xs with
    | some p, some ps => some (p :: ps)
    | _, _ => none
end

/-- The policy of a value. -/
def ofJson (j : Json) : Option Policy :=
  ofJsonWithin maxOpenBrackets j

/-- The object with one member. -/
def member (name : Text) (value : Json) : Json :=
  .object [(some name, value)]

mutual
/-- The value that stands for a policy. -/
def toJson : Policy → Json
  | default => .text "default".toList
  | dualStack => .text "dual_stack".toList
  | first => .text "first".toList
  | firstV4 => .text "first_ipv4".toList
  | firstV6 => .text "first_ipv6".toList
  | allV4 => .text "ipv4".toList
  | allV6 => .text "ipv6".toList
  | max n => member maxName (.number (.ofNat n))
  | reverse => .text "reverse".toList
  | shuffle => .text "shuffle".toList
  | all => .text "all".toList
  | compose ps => member composeName (.array (listToJson ps))

/-- The values that stand for the policies of a composition. -/
def listToJson : List Policy → List Json
  | [] => []
  | p :: ps => toJson p :: listToJson ps
end

/-- The policy that a JSON text stands for. -/
def read (s : Text) : Option Policy :=
  (Json.parse s).bind ofJson

/-- The compact JSON text of a policy. -/
def write (p : Policy) : Text :=
  p.toJson.render

end Policy
end NetDial
