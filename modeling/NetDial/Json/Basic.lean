import NetDial.Text.Digits

/-!
# JSON values

A value of the JSON grammar. Numbers stay as they are written, because readers
differ in what they take. A string holds the text its escapes stand for, or
nothing if they stand for no Unicode text (an unpaired surrogate).
-/
namespace NetDial

/-- The sign before an exponent. -/
inductive ExponentSign where
  | none
  | plus
  | minus
  deriving DecidableEq, Repr

/-- A number as it is written: digits before the point, digits behind it (none
without a point) and an exponent. -/
structure Numeral where
  negative : Bool
  whole : Text
  fraction : Text
  exponent : Option (ExponentSign × Text)
  deriving DecidableEq, Repr

/-- A whole number. -/
def Numeral.ofNat (n : Nat) : Numeral :=
  ⟨false, Text.decimal n, [], none⟩

/-- The value of a whole number of 64 bits without sign, fraction or
exponent. -/
def Numeral.toWord? (n : Numeral) : Option Nat :=
  if n.negative || n.fraction != [] || n.exponent.isSome then none
  else
    let v := Text.decimalValue n.whole
    if v < UInt64.size then some v else none

/-- A JSON value. -/
inductive Json where
  | null
  | bool (value : Bool)
  | number (value : Numeral)
  | string (value : Option Text)
  | array (items : List Json)
  | object (members : List (Option Text × Json))
  deriving Repr

/-- A string that stands for this text. -/
def Json.text (s : Text) : Json :=
  .string (some s)

end NetDial
