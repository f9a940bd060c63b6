import RoutePattern.Expr.Basic

/-! Lexemes of a written expression. A backslash takes the character behind it
literally, except in `\Z`, the end of the text; brackets hold either `^` and the
excluded characters or a pair of complementary classes, which admits everything.
What is neither an operator nor one of these forms stands for itself. -/
namespace RoutePattern

/-- The units a written expression consists of. -/
inductive Lexeme where
  | one (set : CharSet)
  | start
  | finish
  | openCapture
  | openPlain
  | close
  | times (iteration : Iteration)
deriving DecidableEq, Repr

namespace Lexeme

/-- The set written between brackets, from behind the opening one. -/
def bracketSet : List Char → CharSet
  | '^' :: excluded => .noneOf excluded
  | _ => .all

/-- The lexeme that begins with a character, and how many characters of the text
behind it belong to it. -/
def head (char : Char) (behind : List Char) : Lexeme × Nat :=
  if char == '(' then
    if behind.take 2 == ['?', ':'] then (.openPlain, 2) else (.openCapture, 0)
  else if char == ')' then (.close, 0)
  else if char == '*' then
    if behind.head? == some '?' then (.times .reluctant, 1) else (.times .greedy, 0)
  else if char == '+' then (.times .atLeastOnce, 0)
  else if char == '?' then (.times .atMostOnce, 0)
  else if char == '^' then (.start, 0)
  else if char == '[' then
    let content := behind.takeWhile (· != ']')
    (.one (bracketSet content), content.length + 1)
  else if char == '\\' then
    match behind with
    | [] => (.one (.only '\\'), 0)
    | escaped :: _ => if escaped == 'Z' then (.finish, 1) else (.one (.only escaped), 1)
  else (.one (.only char), 0)

/-- The lexemes of the characters from `place` on, of which the first `skip` belong
to the lexeme already taken. -/
def readFrom : Nat → Nat → List Char → List (Nat × Lexeme)
  | _, _, [] => []
  | place, skip + 1, _ :: rest => readFrom (place + 1) skip rest
  | place, 0, char :: rest =>
    let (lexeme, more) := head char rest
    (place, lexeme) :: readFrom (place + 1) more rest

/-- The lexemes of a written expression, each with the place where it begins. -/
def read (source : List Char) : List (Nat × Lexeme) := readFrom 0 0 source

end Lexeme
end RoutePattern
