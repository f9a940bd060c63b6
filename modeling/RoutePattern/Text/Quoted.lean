import RoutePattern.Text.Printable

/-! Quoted forms of texts and of byte strings. The quote is an apostrophe unless
the content holds apostrophes and no double quotes; whatever would not be visible
is written by its number in hexadecimal. -/
namespace RoutePattern.Text

/-- The digit of value `n` below sixteen, in lower case. -/
def hexDigit (n : Nat) : Char :=
  if n < 10 then Char.ofNat (n + 48) else Char.ofNat (n + 87)

/-- The last `width` hexadecimal digits of a number. -/
def hexDigits : Nat → Nat → List Char
  | 0, _ => []
  | width + 1, n => hexDigits width (n / 16) ++ [hexDigit (n % 16)]

/-- The quote that a content is put in. -/
def quoteOf (content : List Char) : Char :=
  if content.contains '\x27' && !content.contains '\x22' then '\x22' else '\x27'

/-- How a character reads between quotes. -/
def quotedChar (quote char : Char) : List Char :=
  if char == quote || char == '\\' then ['\\', char]
  else if char == '\t' then ['\\', 't']
  else if char == '\n' then ['\\', 'n']
  else if char == '\r' then ['\\', 'r']
  else if isPrintable char then [char]
  else if char.toNat < 0x100 then ['\\', 'x'] ++ hexDigits 2 char.toNat
  else if char.toNat < 0x10000 then ['\\', 'u'] ++ hexDigits 4 char.toNat
  else ['\\', 'U'] ++ hexDigits 8 char.toNat

/-- A text between quotes. -/
def quoted (content : List Char) : List Char :=
  let quote := quoteOf content
  quote :: content.flatMap (quotedChar quote) ++ [quote]

/-- How a byte reads between quotes: the visible part of ASCII stands for itself. -/
def quotedByte (quote : Char) (byte : UInt8) : List Char :=
  let char := Char.ofNat byte.toNat
  if char == quote || char == '\\' then ['\\', char]
  else if char == '\t' then ['\\', 't']
  else if char == '\n' then ['\\', 'n']
  else if char == '\r' then ['\\', 'r']
  else if 0x20 ≤ byte.toNat && byte.toNat < 0x7F then [char]
  else ['\\', 'x'] ++ hexDigits 2 byte.toNat

/-- A byte string between quotes, marked by a `b` in front. -/
def quotedBytes (data : List UInt8) : List Char :=
  let quote := quoteOf (data.map fun byte => Char.ofNat byte.toNat)
  'b' :: quote :: data.flatMap (quotedByte quote) ++ [quote]

example : quoted "it\x27s".toList = "\x22it\x27s\x22".toList := by decide +kernel

example : quoted "\x27\x22\n\u00ad".toList = "\x27\\\x27\x22\\n\\xad\x27".toList := by
  decide +kernel

example : quotedBytes [0x61, 0x0A, 0xFF] = "b\x27a\\n\\xff\x27".toList := by decide

end RoutePattern.Text
