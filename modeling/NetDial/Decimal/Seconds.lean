import NetDial.Decimal.Shortest
import NetDial.Json.Basic
import NetDial.Time

/-!
# Durations as seconds

A duration is written as a double-precision number of seconds. Reading takes a
literal to a double and the double, exactly, to nanoseconds, a half going to the
even one. Writing takes the duration to a double and prints its shortest
decimal.

A literal becomes a double in three steps: its digits are gathered into 64 bits,
further digits being dropped; the number so far is rounded to a double; and that
is multiplied or divided by a power of ten, which rounds once more.
-/
namespace NetDial
namespace Numeral

/-- The digits gathered so far and the power of ten that belongs to them. -/
structure Gathered where
  significand : Nat
  power : Int
  deriving DecidableEq, Repr

/-- Gathers the digits before the point. Once a digit does not fit any more,
each further one counts as a factor of ten. -/
def gatherWhole (significand : Nat) : Text → Gathered
  | [] => ⟨significand, 0⟩
  | c :: s =>
    let n := significand * 10 + Text.digitValue c
    if n < UInt64.size then gatherWhole n s else ⟨significand, (c :: s).length⟩

/-- Gathers the digits behind the point up to the first that does not fit. -/
def gatherFraction (g : Gathered) : Text → Gathered
  | [] => g
  | c :: s =>
    let n := g.significand * 10 + Text.digitValue c
    if n < UInt64.size then gatherFraction ⟨n, g.power - 1⟩ s else g

/-- The power of ten that the exponent names. -/
def exponentValue (n : Numeral) : Int :=
  match n.exponent with
  | none => 0
  | some (.minus, ds) => -(Text.decimalValue ds : Int)
  | some (_, ds) => Text.decimalValue ds

/-- A power of ten as a double. -/
def tenTo (k : Nat) : Binary64 :=
  .ofNat (pow10 k)

/-- `x / 10 ^ k`, no step dividing by more than `10 ^ 308`. -/
def scaleDown (x : Binary64) (k : Nat) : Binary64 :=
  if k ≤ 308 then x.div (tenTo k)
  else if x.mantissa = 0 then x
  else scaleDown (x.div (tenTo 308)) (k - 308)
termination_by k

/-- The double `significand * 10 ^ power`, if it is finite. -/
def Gathered.toBinary64? (g : Gathered) : Option Binary64 :=
  let x := Binary64.ofNat g.significand
  if g.power < 0 then some (scaleDown x (-g.power).toNat)
  else if x.mantissa = 0 then some x
  else if 308 < g.power then none
  else
    let y := x.mul (tenTo g.power.toNat)
    if y.isFinite then some y else none

/-- The size of a literal as a double. -/
def magnitude? (n : Numeral) : Option Binary64 :=
  let g := gatherFraction (gatherWhole 0 n.whole) n.fraction
  Gathered.toBinary64? { g with power := g.power + n.exponentValue }

/-- The literal of a decimal: positional from `10 ^ -5` up to `10 ^ 16`, with a
digit behind the point, and else with an exponent that always has a sign. -/
def ofScientific (s : Scientific) : Numeral :=
  let count := s.digits.length
  if 16 ≤ s.exponent then
    ⟨false, s.digits.take 1, s.digits.drop 1, some (.plus, Text.decimal s.exponent.toNat)⟩
  else if 0 ≤ s.exponent then
    let places := s.exponent.toNat + 1
    let padded := s.digits ++ List.replicate (places - count) '0'
    let fraction := padded.drop places
    ⟨false, padded.take places, if fraction = [] then ['0'] else fraction, none⟩
  else if -5 ≤ s.exponent then
    ⟨false, ['0'], List.replicate ((-s.exponent).toNat - 1) '0' ++ s.digits, none⟩
  else
    ⟨false, s.digits.take 1, s.digits.drop 1, some (.minus, Text.decimal (-s.exponent).toNat)⟩

end Numeral

namespace Duration

/-- A double number of seconds in nanoseconds, if it is below `2 ^ 64`
seconds. -/
def ofBinary64? (x : Binary64) : Option Nat :=
  let d := roundDiv (x.num * nanosPerSecond) x.den
  if d < UInt64.size * nanosPerSecond then some d else none

/-- The duration of a literal number of seconds, which must not be negative;
a zero may have a sign. -/
def ofNumeral? (n : Numeral) : Option Nat :=
  match n.magnitude? with
  | none => none
  | some x => if n.negative ∧ x.mantissa ≠ 0 then none else ofBinary64? x

/-- The duration as a double number of seconds: whole seconds and the rest are
rounded each, and then their sum. -/
def toBinary64 (d : Nat) : Binary64 :=
  (Binary64.ofNat (secs d)).add (Binary64.nearest (subsecNanos d) nanosPerSecond)

/-- The literal number of seconds of a duration. -/
def toNumeral (d : Nat) : Numeral :=
  let x := toBinary64 d
  if x.mantissa = 0 then ⟨false, ['0'], ['0'], none⟩ else .ofScientific x.shortest

end Duration
end NetDial
