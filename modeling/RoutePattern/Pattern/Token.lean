import RoutePattern.Text.Scan
import RoutePattern.Text.Word

/-! Tokens of a pattern. A named token is a colon and a name, a splat token an
asterisk and a name. Where `(?` stands right in front of the colon it belongs to
the token: such a token is called marked. -/
namespace RoutePattern.Pattern
open Text

/-- The length of the named token at the head of a text. -/
def namedLength : Finder
  | ':' :: rest => lengthWithName 1 rest
  | '(' :: '?' :: ':' :: rest => lengthWithName 3 rest
  | _ => 0

/-- The length of the splat token at the head of a text. -/
def splatLength : Finder
  | '*' :: rest => lengthWithName 1 rest
  | _ => 0

/-- The length of the token of either kind at the head of a text. -/
def tokenLength : Finder := fun text =>
  match namedLength text with
  | 0 => splatLength text
  | length => length

/-- A named parameter takes one segment of a path, a splat parameter any run of
characters. -/
inductive Kind where
  | named
  | splat
deriving DecidableEq, Repr

/-- A token with its place in the pattern. -/
structure Token where
  kind : Kind
  start : Nat
  text : List Char
deriving DecidableEq, Repr

namespace Token

/-- The place right behind the last character. -/
def stop (token : Token) : Nat := token.start + token.text.length

/-- What stands at the head of a token tells its kind. -/
def ofOccurrence (found : Occurrence) : Token :=
  ⟨if found.text.head? == some '*' then .splat else .named, found.start, found.text⟩

end Token

/-- A token without its first character is the key that arguments are looked up by. -/
def key (token : List Char) : List Char := token.drop 1

/-- A named token is marked if it brings `(?` with it. -/
def isMarked (token : List Char) : Bool := token.head? == some '('

/-- The tokens of a pattern, in reading order. -/
def tokens (pattern : List Char) : List Token :=
  (occurrences tokenLength pattern).map Token.ofOccurrence

/-- The texts of the named tokens, in reading order. -/
def named (pattern : List Char) : List (List Char) :=
  ((tokens pattern).filter (·.kind == .named)).map Token.text

/-- The texts of the splat tokens, in reading order. -/
def splats (pattern : List Char) : List (List Char) :=
  ((tokens pattern).filter (·.kind == .splat)).map Token.text

/-- The parameters of a pattern: the named tokens and after them the splat tokens. -/
def parameters (pattern : List Char) : List (List Char) := named pattern ++ splats pattern

end RoutePattern.Pattern
