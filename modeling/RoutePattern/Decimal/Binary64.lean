/-! Binary floating-point numbers of 64 bits as exact values. A finite number is a
whole significand below 2⁵³ times a power of two, the exponent being at least
-1074; the zeros of both signs are told apart. -/
namespace RoutePattern

/-- A binary floating-point number of 64 bits. -/
inductive Binary64 where
  | nan
  | infinite (negative : Bool)
  | finite (negative : Bool) (significand : Nat) (exponent : Int)
deriving DecidableEq, Repr

namespace Binary64

/-- A quotient rounded to the nearest whole number, halves to the even one. -/
def roundHalfEven (numerator denominator : Nat) : Nat :=
  let quotient := numerator / denominator
  let twice := 2 * (numerator % denominator)
  if twice < denominator then quotient
  else if denominator < twice then quotient + 1
  else quotient + quotient % 2

/-- A positive fraction divided by a power of two, as a fraction. -/
def scaleDown (numerator denominator : Nat) (exponent : Int) : Nat × Nat :=
  if 0 ≤ exponent then (numerator, denominator * Nat.pow 2 exponent.toNat)
  else (numerator * Nat.pow 2 (-exponent).toNat, denominator)

/-- The number nearest to a fraction, of two nearest ones the one with the even
significand; fractions beyond the largest number become infinite. -/
def ofFraction (negative : Bool) (numerator denominator : Nat) : Binary64 :=
  if numerator = 0 then .finite negative 0 (-1074)
  else
    let guess : Int := max (-1074) ((numerator.log2 : Int) - denominator.log2 - 53)
    let (above, below) := scaleDown numerator denominator guess
    let exponent := if above / below < Nat.pow 2 53 then guess else guess + 1
    let (above, below) := scaleDown numerator denominator exponent
    let significand := roundHalfEven above below
    let (significand, exponent) :=
      if significand = Nat.pow 2 53 then (Nat.pow 2 52, exponent + 1) else (significand, exponent)
    if 971 < exponent then .infinite negative else .finite negative significand exponent

/-- The number nearest to `digits` times a power of ten. -/
def ofDecimal (negative : Bool) (digits : Nat) (power : Int) : Binary64 :=
  if 0 ≤ power then ofFraction negative (digits * Nat.pow 10 power.toNat) 1
  else ofFraction negative digits (Nat.pow 10 (-power).toNat)

/-- Both zeros and nothing else. -/
def isZero : Binary64 → Bool
  | .finite _ significand _ => significand == 0
  | _ => false

/-- Is the number equal to this whole number? -/
def equalsInt (number : Binary64) (whole : Int) : Bool :=
  match number with
  | .finite negative significand exponent =>
    let magnitude :=
      if 0 ≤ exponent then significand * Nat.pow 2 exponent.toNat == whole.natAbs
      else significand == whole.natAbs * Nat.pow 2 (-exponent).toNat
    magnitude && (significand == 0 || negative == decide (whole < 0))
  | _ => false

/-- Equality of values: the zeros are equal, and not-a-number equals nothing. -/
def equals : Binary64 → Binary64 → Bool
  | .infinite first, .infinite second => first == second
  | .finite negative significand exponent, other =>
    (significand == 0 && other.isZero) || other == .finite negative significand exponent
  | _, _ => false

end Binary64
end RoutePattern
