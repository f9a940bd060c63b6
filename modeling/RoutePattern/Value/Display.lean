import RoutePattern.Decimal.Notation
import RoutePattern.Text.Quoted
import RoutePattern.Value.Basic

/-! Values as text. Within collections texts are quoted; a text by itself is its own
text. -/
namespace RoutePattern.Value

/-- A whole number in decimal digits. -/
def intText (number : Int) : List Char :=
  if number < 0 then '-' :: Nat.toDigits 10 number.natAbs else Nat.toDigits 10 number.natAbs

/-- The shape of an argument set by name. -/
def kindText : ArgumentKind → List Char
  | .empty => "<ArgumentKind.EMPTY: \x27empty\x27>".toList
  | .positional => "<ArgumentKind.POSITIONAL: \x27positional\x27>".toList
  | .keyed => "<ArgumentKind.KEYED: \x27keyed\x27>".toList

mutual

/-- A value as it stands within a collection. -/
def literal : Value → List Char
  | .null => "None".toList
  | .bool truth => if truth then "True".toList else "False".toList
  | .int number => intText number
  | .float number => number.text
  | .text content => Text.quoted content.toList
  | .list items => '[' :: literals items ++ [']']
  | .tuple [item] => '(' :: literal item ++ ",)".toList
  | .tuple items => '(' :: literals items ++ [')']
  | .bytes data => Text.quotedBytes data
  | .buffer data => "bytearray(".toList ++ Text.quotedBytes data ++ [')']
  | .range first bound stride =>
    "range(".toList ++ intText first ++ ", ".toList ++ intText bound ++
      (if stride == 1 then [] else ", ".toList ++ intText stride) ++ [')']
  | .set [] => "set()".toList
  | .set items => '\x7b' :: literals items ++ ['\x7d']
  | .map entries => '\x7b' :: entryLiterals entries ++ ['\x7d']
  | .arguments kind values view mapping =>
    "Arguments(kind=".toList ++ kindText kind ++ ", values=(".toList ++ literals values ++
      (if values.length == 1 then ",), ".toList else "), ".toList) ++ "mapping=".toList ++
      (if view then "mappingproxy(\x7b".toList else ['\x7b']) ++ entryLiterals mapping ++
      (if view then "\x7d))".toList else "\x7d)".toList)
  | .buildOptions host path params query hash =>
    "BuildOptions(host=".toList ++ literal host ++ ", path=".toList ++ literal path ++
      ", params=".toList ++ literal params ++ ", query=".toList ++ literal query ++
      ", hash=".toList ++ literal hash ++ [')']
  | .matchOptions path url =>
    "MatchOptions(path=".toList ++ literal path ++ ", url=".toList ++ literal url ++ [')']

/-- Items with commas between them. -/
def literals : List Value → List Char
  | [] => []
  | [item] => literal item
  | item :: rest => literal item ++ ", ".toList ++ literals rest

/-- Entries with commas between them. -/
def entryLiterals : List (Value × Value) → List Char
  | [] => []
  | [(key, value)] => literal key ++ ": ".toList ++ literal value
  | (key, value) :: rest =>
    literal key ++ ": ".toList ++ literal value ++ ", ".toList ++ entryLiterals rest

end

/-- A value as text by itself. -/
def plain : Value → List Char
  | .text content => content.toList
  | value => value.literal

/-- A value as it goes into an address: nothing for an absent value, truth values in
lower case. -/
def spoken : Value → List Char
  | .null => []
  | .bool truth => if truth then "true".toList else "false".toList
  | value => value.plain

end RoutePattern.Value
