/-!
# Double-precision numbers

The non-negative finite double-precision numbers, as `mantissa * 2 ^ exponent`,
and rounding of an exact quotient to the nearest of them. Ties go to the even
neighbour. All arithmetic is on natural numbers and exact.

**Results.**
* `roundDiv_le`, `le_roundDiv`: a rounded quotient is within half a unit.
-/
namespace NetDial

/-- The power of two with exponent `k`. -/
def pow2 (k : Nat) : Nat :=
  Nat.pow 2 k

/-- The power of ten with exponent `k`. -/
def pow10 (k : Nat) : Nat :=
  Nat.pow 10 k

/-- The quotient rounded to the nearest whole number, a tie to the even one. -/
def roundDiv (num den : Nat) : Nat :=
  let q := num / den
  let r := num % den
  if 2 * r < den then q
  else if den < 2 * r then q + 1
  else if q % 2 = 0 then q else q + 1

theorem roundDiv_le (num den : Nat) (h : 0 < den) : 2 * (roundDiv num den * den) ≤ 2 * num + den := by
  have hr := Nat.div_add_mod num den
  have hm := Nat.mod_lt num h
  rw [Nat.mul_comm] at hr
  unfold roundDiv
  simp only
  split
  · omega
  · split
    · rw [Nat.add_mul]; omega
    · split
      · omega
      · rw [Nat.add_mul]; omega

theorem le_roundDiv (num den : Nat) (h : 0 < den) : 2 * num ≤ 2 * (roundDiv num den * den) + den := by
  have hr := Nat.div_add_mod num den
  have hm := Nat.mod_lt num h
  rw [Nat.mul_comm] at hr
  unfold roundDiv
  simp only
  split
  · omega
  · split
    · rw [Nat.add_mul]; omega
    · split
      · omega
      · rw [Nat.add_mul]; omega

/-- The number `mantissa * 2 ^ exponent`. -/
structure Binary64 where
  mantissa : Nat
  exponent : Int
  deriving DecidableEq, Repr

namespace Binary64

/-- Zero. -/
def zero : Binary64 :=
  ⟨0, -1074⟩

/-- The numerator of the number as a quotient. -/
def num (x : Binary64) : Nat :=
  x.mantissa * pow2 x.exponent.toNat

/-- The denominator of the number as a quotient, a power of two. -/
def den (x : Binary64) : Nat :=
  pow2 (-x.exponent).toNat

/-- The number is not above the largest finite double. -/
def isFinite (x : Binary64) : Bool :=
  x.num < pow2 1024 * x.den

/-- The exponent of the highest bit of `num / den`. -/
def topBit (num den : Nat) : Int :=
  let e : Int := (Nat.log2 num : Int) - Nat.log2 den
  if num * pow2 (-e).toNat < den * pow2 e.toNat then e - 1 else e

/-- The double nearest to `num / den`: 53 bits from the highest one down, but
none below `2 ^ -1074`. -/
def nearest (num den : Nat) : Binary64 :=
  if num = 0 then zero
  else
    let e := Max.max (topBit num den - 52) (-1074)
    let m := roundDiv (num * pow2 (-e).toNat) (den * pow2 e.toNat)
    if m = pow2 53 then ⟨pow2 52, e + 1⟩ else ⟨m, e⟩

/-- The rounded product. -/
def mul (x y : Binary64) : Binary64 :=
  nearest (x.num * y.num) (x.den * y.den)

/-- The rounded quotient. -/
def div (x y : Binary64) : Binary64 :=
  nearest (x.num * y.den) (x.den * y.num)

/-- The rounded sum. -/
def add (x y : Binary64) : Binary64 :=
  nearest (x.num * y.den + y.num * x.den) (x.den * y.den)

/-- The double nearest to a whole number. -/
def ofNat (n : Nat) : Binary64 :=
  nearest n 1

end Binary64
end NetDial
