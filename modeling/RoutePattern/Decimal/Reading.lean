import RoutePattern.Decimal.Binary64

/-! Reading floating-point numbers: an optional sign, digits with an optional point,
and an optional power of ten; or one of the words for infinity and not-a-number. -/
namespace RoutePattern.Binary64

/-- The number that decimal digits stand for. -/
def numberOf (digits : List Char) : Nat :=
  digits.foldl (fun number digit => 10 * number + (digit.toNat - 48)) 0

/-- A sign is read if there is one: the answer tells whether it is negative. -/
def readSign : List Char → Bool × List Char
  | '-' :: rest => (true, rest)
  | '+' :: rest => (false, rest)
  | text => (false, text)

/-- A power of ten, or nothing at all. -/
def readPower? : List Char → Option Int
  | [] => some 0
  | mark :: rest =>
    let (negative, digits) := readSign rest
    if mark.toLower == 'e' && !digits.isEmpty && digits.all Char.isDigit then
      some (if negative then -(numberOf digits : Int) else numberOf digits)
    else none

/-- Digits with an optional point among them, and a power of ten. -/
def readMagnitude? (negative : Bool) (text : List Char) : Option Binary64 := do
  let whole := text.takeWhile Char.isDigit
  let behind := text.dropWhile Char.isDigit
  let (fraction, behind) :=
    match behind with
    | '.' :: rest => (rest.takeWhile Char.isDigit, rest.dropWhile Char.isDigit)
    | _ => ([], behind)
  if whole.isEmpty && fraction.isEmpty then none
  else
    let power ← readPower? behind
    some (ofDecimal negative (numberOf (whole ++ fraction)) (power - fraction.length))

/-- The number nearest to what a text says. -/
def ofText? (text : List Char) : Option Binary64 :=
  let (negative, magnitude) := readSign text
  let name := magnitude.map Char.toLower
  if name == "inf".toList || name == "infinity".toList then some (.infinite negative)
  else if name == "nan".toList then some .nan
  else readMagnitude? negative magnitude

end RoutePattern.Binary64
