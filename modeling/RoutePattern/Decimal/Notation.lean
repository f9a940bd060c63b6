import RoutePattern.Decimal.Shortest

/-! The text of a floating-point number. Its shortest decimal is written out from
10⁻⁴ on and below 10¹⁶, with at least one digit behind the point; otherwise it is
written with an exponent of at least two digits and a sign. -/
namespace RoutePattern.Binary64

/-- A number without the zeros at its end. -/
def dropFinalZeros (digits : List Char) : List Char :=
  (digits.reverse.dropWhile (· == '0')).reverse

/-- Digits written out; the first `point` of them stand in front of the decimal point. -/
def positional (digits : List Char) (point : Int) : List Char :=
  if point ≤ 0 then "0.".toList ++ List.replicate (-point).toNat '0' ++ digits
  else
    let whole := digits.take point.toNat
    let fraction := digits.drop point.toNat
    whole ++ List.replicate (point.toNat - whole.length) '0' ++ '.' ::
      (if fraction.isEmpty then ['0'] else fraction)

/-- Digits with the point behind the first one, and a power of ten. -/
def scientific (digits : List Char) (power : Int) : List Char :=
  let magnitude := Nat.toDigits 10 power.natAbs
  let mantissa :=
    match digits with
    | [] => ['0']
    | [digit] => [digit]
    | digit :: more => digit :: '.' :: more
  mantissa ++ 'e' :: (if power < 0 then '-' else '+') ::
    (List.replicate (2 - magnitude.length) '0' ++ magnitude)

/-- A positive number as text. -/
def magnitudeText (significand : Nat) (exponent : Int) : List Char :=
  let (number, power) := shortest significand exponent
  let all := Nat.toDigits 10 number
  let point := (all.length : Int) + power
  let digits := dropFinalZeros all
  if -4 < point ∧ point ≤ 16 then positional digits point else scientific digits (point - 1)

/-- A number as text. -/
def text : Binary64 → List Char
  | .nan => "nan".toList
  | .infinite negative => if negative then "-inf".toList else "inf".toList
  | .finite negative significand exponent =>
    let magnitude := if significand = 0 then "0.0".toList else magnitudeText significand exponent
    if negative then '-' :: magnitude else magnitude

example : text (ofDecimal false 1 16) = "1e+16".toList := by decide +kernel

example : text (ofDecimal false 9999999999999998 0) = "9999999999999998.0".toList := by
  decide +kernel

example : text (ofDecimal true 1 (-4)) = "-0.0001".toList := by decide +kernel

example : text (ofDecimal false 1 (-5)) = "1e-05".toList := by decide +kernel

example : text (ofDecimal false 5 (-324)) = "5e-324".toList := by decide +kernel

end RoutePattern.Binary64
