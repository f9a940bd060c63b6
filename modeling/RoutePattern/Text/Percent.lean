/-! Percent encoding of one component of an address. Letters, digits and the marks
of `isUnreserved` stay; every other character becomes the bytes of its UTF-8 form,
each written as a percent sign and two hexadecimal digits in upper case. -/
namespace RoutePattern.Text

/-- Characters that stand for themselves in a component. -/
def isUnreserved (char : Char) : Bool :=
  char.isAlphanum || "_.-~!*\x27()".toList.contains char

/-- The digit of value `n` below sixteen, in upper case. -/
def upperHexDigit (n : Nat) : Char :=
  if n < 10 then Char.ofNat (n + 48) else Char.ofNat (n + 55)

/-- A percent sign and the two digits of a byte. -/
def escapeByte (byte : UInt8) : List Char :=
  ['%', upperHexDigit (byte.toNat / 16), upperHexDigit (byte.toNat % 16)]

/-- A character as it stands in a component. -/
def encodeChar (char : Char) : List Char :=
  if isUnreserved char then [char] else (String.utf8EncodeChar char).flatMap escapeByte

/-- A text as one component. -/
def encode (text : List Char) : List Char := text.flatMap encodeChar

@[simp] theorem encode_nil : encode [] = [] := rfl

@[simp] theorem encode_append (first second : List Char) :
    encode (first ++ second) = encode first ++ encode second := by
  simp [encode]

example : encode "a b/é".toList = "a%20b%2F%C3%A9".toList := by decide

end RoutePattern.Text
