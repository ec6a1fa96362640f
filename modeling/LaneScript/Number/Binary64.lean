/-!
# Binary floating-point numbers

A script's decimal literal denotes a binary64 number: of the numbers `m · 2^e` with `m` below
`2^53` and `e` between -1074 and 971 it is the nearest, and of two equally near ones the one whose
`m` is even.  The type keeps `m` and `e` apart, so that reading and writing are exact arithmetic on
natural numbers.
-/

namespace LaneScript.Number

/-- A binary64 number that is not a NaN: `± mantissa · 2^exponent`, or an infinity.

The numbers built here are in lowest form: the mantissa is below `2^53`, and it is at least `2^52`
unless the exponent is the least one, -1074. -/
inductive Binary64 where
  | finite (negative : Bool) (mantissa : Nat) (exponent : Int)
  | infinite (negative : Bool)
  deriving DecidableEq, Repr, Inhabited

namespace Binary64

/-- The least exponent. -/
def minExponent : Int := -1074

/-- The greatest exponent. -/
def maxExponent : Int := 971

/-- The positive zero. -/
def zero : Binary64 := .finite false 0 minExponent

/-- The opposite number; zero and infinity change their sign too. -/
def neg : Binary64 → Binary64
  | .finite negative mantissa exponent => .finite (!negative) mantissa exponent
  | .infinite negative => .infinite (!negative)

/-- Below zero, which the negative zero is not. -/
def isNegative : Binary64 → Bool
  | .finite negative mantissa _ => negative && mantissa != 0
  | .infinite negative => negative

/-- Equality of the numbers, for which the two zeros are one. -/
def same : Binary64 → Binary64 → Bool
  | .finite s m e, .finite s' m' e' => (m == 0 && m' == 0) || (s == s' && m == m' && e == e')
  | .infinite s, .infinite s' => s == s'
  | _, _ => false

/-- The quotient, rounded to the nearest natural number and from the middle to the even one. -/
def roundDiv (numerator denominator : Nat) : Nat :=
  let quotient := numerator / denominator
  let twice := 2 * (numerator % denominator)
  if twice < denominator then quotient
  else if denominator < twice then quotient + 1
  else quotient + quotient % 2

/-- The numerator and denominator of `numerator / denominator / 2^exponent`. -/
def scale (numerator denominator : Nat) (exponent : Int) : Nat × Nat :=
  if exponent < 0 then (numerator * Nat.pow 2 exponent.natAbs, denominator)
  else (numerator, denominator * Nat.pow 2 exponent.natAbs)

/-- The exponent at which a positive quotient has a mantissa of 53 bits, or the least one. -/
def exponentOf (numerator denominator : Nat) : Int :=
  -- the quotient lies between `2^(size - 1)` and `2^(size + 1)`
  let size : Int := numerator.log2 - denominator.log2
  let (n, d) := scale numerator denominator (size - 53)
  max minExponent (if n / d < Nat.pow 2 53 then size - 53 else size - 52)

/-- The binary64 number nearest to a positive quotient. -/
def ofQuotient (numerator denominator : Nat) : Binary64 :=
  let exponent := exponentOf numerator denominator
  let (n, d) := scale numerator denominator exponent
  let mantissa := roundDiv n d
  -- rounding up may carry into the next binade
  let (mantissa, exponent) :=
    if mantissa = Nat.pow 2 53 then (Nat.pow 2 52, exponent + 1) else (mantissa, exponent)
  if maxExponent < exponent then .infinite false else .finite false mantissa exponent

/-- The binary64 number nearest to `digits · 10^exponent`, where `digits` is below `10^size`.

A number of at least `10^310` is infinite and one below `10^-330` is zero; deciding this first
keeps the powers of ten small. -/
def ofDecimal (digits : Nat) (size : Nat) (exponent : Int) : Binary64 :=
  if digits = 0 ∨ size + exponent < -330 then zero
  else if 310 ≤ exponent then .infinite false
  else if 0 ≤ exponent then ofQuotient (digits * Nat.pow 10 exponent.natAbs) 1
  else ofQuotient digits (Nat.pow 10 exponent.natAbs)

/-- The number in the interchange format: the sign bit, eleven bits of exponent and fifty-two of
mantissa. -/
def bits : Binary64 → Nat
  | .finite negative mantissa exponent =>
    (if negative then Nat.pow 2 63 else 0)
      + (if mantissa < Nat.pow 2 52 then mantissa
        else (exponent + 1074).natAbs * Nat.pow 2 52 + mantissa)
  | .infinite negative => (if negative then Nat.pow 2 63 else 0) + 2047 * Nat.pow 2 52

end Binary64
end LaneScript.Number
