import NetDial.Decimal.Binary64
import NetDial.Text.Digits

/-!
# The shortest decimal of a double

The decimal with the fewest digits that rounds to a given double, and among
those the nearest one. For each number of digits the two neighbours of the
double on that decimal grid are tried.
-/
namespace NetDial

/-- The decimal `d.ddd * 10 ^ exponent` by its digits, the first of which is
not zero and neither is the last. -/
structure Scientific where
  digits : Text
  exponent : Int
  deriving DecidableEq, Repr

namespace Binary64

/-- Twice the distances, in units of `2 ^ (exponent - 1)`, are compared below;
this is the double in quarters of its unit. -/
def quarters (x : Binary64) : Nat :=
  4 * x.mantissa

/-- The lower end of the interval that rounds to the double, in quarters of its
unit. Right above a power of two the neighbour below is half as far away. -/
def lowerQuarters (x : Binary64) : Nat :=
  if x.mantissa = pow2 52 ∧ -1074 < x.exponent then x.quarters - 1 else x.quarters - 2

/-- The upper end of the interval that rounds to the double, in quarters of its
unit. -/
def upperQuarters (x : Binary64) : Nat :=
  x.quarters + 2

/-- The decimal `n * 10 ^ e` in quarters of the double's unit, as a quotient. -/
def decimalQuarters (x : Binary64) (n : Nat) (e : Int) : Nat × Nat :=
  (4 * n * pow10 e.toNat * pow2 (-x.exponent).toNat, pow10 (-e).toNat * pow2 x.exponent.toNat)

/-- The decimal `n * 10 ^ e` rounds to the double. -/
def readsBack (x : Binary64) (n : Nat) (e : Int) : Bool :=
  let (a, b) := x.decimalQuarters n e
  if x.mantissa % 2 = 0 then x.lowerQuarters * b ≤ a && a ≤ x.upperQuarters * b
  else x.lowerQuarters * b < a && a < x.upperQuarters * b

/-- The power of ten of the first digit. -/
def leadingPower (x : Binary64) : Int :=
  let whole := x.num / x.den
  if 0 < whole then ((Text.decimal whole).length : Int) - 1
  else
    match (List.range 330).find? fun k => x.den ≤ x.num * pow10 k with
    | some k => -(k : Int)
    | none => -330

/-- The decimal `n * 10 ^ e` by its digits. -/
def scientific (n : Nat) (e : Int) : Scientific :=
  let digits := Text.decimal n
  ⟨(digits.reverse.dropWhile (· == '0')).reverse, e + (digits.length : Int) - 1⟩

/-- The nearest decimal of `k` digits that reads back, if one of the two
neighbours does. -/
def withDigits? (x : Binary64) (k : Nat) : Option Scientific :=
  let e := x.leadingPower - (k : Int) + 1
  let a := x.num * pow10 (-e).toNat
  let b := x.den * pow10 e.toNat
  let below := a / b
  let above := below + 1
  let nearBelow := 2 * (a - below * b) < b || (2 * (a - below * b) == b && below % 2 == 0)
  match x.readsBack below e, x.readsBack above e with
  | true, true => some (scientific (if nearBelow then below else above) e)
  | true, false => some (scientific below e)
  | false, true => some (scientific above e)
  | false, false => none

/-- The shortest decimal of a double other than zero. -/
def shortest (x : Binary64) : Scientific :=
  ((List.range 17).findSome? fun k => x.withDigits? (k + 1)).getD ⟨['0'], 0⟩

end Binary64
end NetDial
