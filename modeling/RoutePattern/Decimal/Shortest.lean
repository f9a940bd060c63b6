import RoutePattern.Decimal.Binary64

/-! Shortest decimals. Of the decimals that are read back as a given number those
with the fewest digits count, and of these the one nearest to the number. -/
namespace RoutePattern.Binary64

/-- A fraction whose numerator may be scaled by a power of two of either sign. -/
def dyadic (factor : Nat) (exponent : Int) : Nat × Nat :=
  if 0 ≤ exponent then (factor * Nat.pow 2 exponent.toNat, 1)
  else (factor, Nat.pow 2 (-exponent).toNat)

/-- The number of digits in front of the decimal point of a fraction of at least
10⁻⁴⁰⁰; negative if zeros follow the point. -/
def pointOf (numerator denominator : Nat) : Int :=
  ((Nat.toDigits 10 (numerator * Nat.pow 10 400 / denominator)).length : Int) - 400

/-- Is `digits` times a power of ten within the reals that are rounded to this
significand and exponent? All is measured in quarters of the last binary place. The
ends belong to the interval if the significand is even; below a power of two the
interval reaches half as far. -/
def readsBack (significand : Nat) (exponent : Int) (digits : Nat) (power : Int) : Bool :=
  let gap := if significand = Nat.pow 2 52 ∧ -1074 < exponent then 1 else 2
  let (low, unit) := dyadic (4 * significand - gap) (exponent - 2)
  let (high, _) := dyadic (4 * significand + 2) (exponent - 2)
  let (decimal, ten) :=
    if 0 ≤ power then (digits * Nat.pow 10 power.toNat, 1)
    else (digits, Nat.pow 10 (-power).toNat)
  if significand % 2 = 0 then low * ten ≤ decimal * unit && decimal * unit ≤ high * ten
  else low * ten < decimal * unit && decimal * unit < high * ten

/-- The multiple of a power of ten that is nearest to a fraction and reads back, if
one of the two neighbours does; halfway between both the even one is taken. -/
def nearestOnGrid? (significand : Nat) (exponent : Int) (power : Int) : Option Nat :=
  let (value, unit) := dyadic significand exponent
  let (above, below) :=
    if 0 ≤ power then (value, unit * Nat.pow 10 power.toNat)
    else (value * Nat.pow 10 (-power).toNat, unit)
  let near := roundHalfEven above below
  let far := if near * below ≤ above then near + 1 else near - 1
  if readsBack significand exponent near power then some near
  else if readsBack significand exponent far power then some far
  else none

/-- The first grid with a point that reads back, from one digit on; seventeen digits
always suffice. -/
def shortestFrom (significand : Nat) (exponent : Int) (point : Int) : Nat → Nat → Nat × Int
  | _, 0 => (0, 0)
  | count, fuel + 1 =>
    let power := point - count
    match nearestOnGrid? significand exponent power with
    | some digits => (digits, power)
    | none => shortestFrom significand exponent point (count + 1) fuel

/-- The shortest decimal of a positive number: its digits and the power of ten they
are multiplied by. -/
def shortest (significand : Nat) (exponent : Int) : Nat × Int :=
  let (value, unit) := dyadic significand exponent
  shortestFrom significand exponent (pointOf value unit) 1 18

end RoutePattern.Binary64
