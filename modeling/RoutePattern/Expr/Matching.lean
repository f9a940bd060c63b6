import RoutePattern.Expr.Basic

/-! Matching by backtracking. An expression is run together with what has to follow
it: choices are tried in order, and the first one under which everything behind it
succeeds is final. -/
namespace RoutePattern

/-- A place in the text that is matched: how many characters have been taken in, the
characters ahead, and what each capturing group took in last, if it has taken part. -/
structure Cursor where
  consumed : Nat
  rest : List Char
  captures : List (Option (List Char))
deriving DecidableEq, Repr

namespace Cursor

/-- The next character is taken in if it belongs to the set. -/
def advance (set : CharSet) (cursor : Cursor) : Option Cursor :=
  match cursor.rest with
  | [] => none
  | char :: rest =>
    if set.has char then some { cursor with consumed := cursor.consumed + 1, rest := rest }
    else none

/-- The group of this number has taken in everything since an earlier cursor. -/
def capture (cursor : Cursor) (number : Nat) (opened : Cursor) : Cursor :=
  let text := opened.rest.take (cursor.consumed - opened.consumed)
  { cursor with captures := cursor.captures.set number (some text) }

end Cursor

namespace Expr

/-- What has to succeed behind an expression. -/
abbrev Continuation := Cursor → Option Cursor

/-- As many repetitions as possible are tried first. A repetition that takes in
nothing is the last one. `fuel` is greater than the number of characters ahead. -/
def runGreedy (body : Continuation → Continuation) (next : Continuation) : Nat → Continuation
  | 0, cursor => next cursor
  | fuel + 1, cursor =>
    body (fun reached =>
      if reached.consumed == cursor.consumed then next reached
      else runGreedy body next fuel reached) cursor <|> next cursor

/-- As few repetitions as possible are tried first. A repetition that takes in
nothing is the last one. `fuel` is greater than the number of characters ahead. -/
def runReluctant (body : Continuation → Continuation) (next : Continuation) : Nat → Continuation
  | 0, cursor => next cursor
  | fuel + 1, cursor =>
    next cursor <|> body (fun reached =>
      if reached.consumed == cursor.consumed then next reached
      else runReluctant body next fuel reached) cursor

/-- The expression is run from a cursor, and what follows it from where it ends. -/
def run : Expr → Continuation → Continuation
  | .empty, next, cursor => next cursor
  | .one set, next, cursor => (cursor.advance set).bind next
  | .start, next, cursor => if cursor.consumed == 0 then next cursor else none
  | .finish, next, cursor => if cursor.rest.isEmpty then next cursor else none
  | .cat first second, next, cursor => run first (run second next) cursor
  | .group none body, next, cursor => run body next cursor
  | .group (some number) body, next, cursor =>
    run body (fun reached => next (reached.capture number cursor)) cursor
  | .iterate .atMostOnce body, next, cursor => run body next cursor <|> next cursor
  | .iterate .greedy body, next, cursor =>
    runGreedy (run body) next (cursor.rest.length + 1) cursor
  | .iterate .reluctant body, next, cursor =>
    runReluctant (run body) next (cursor.rest.length + 1) cursor
  | .iterate .atLeastOnce body, next, cursor =>
    run body (fun reached => runGreedy (run body) next (reached.rest.length + 1) reached) cursor

/-- The captures of the first way in which an expression with so many capturing groups
matches from the beginning of a text. -/
def captures? (expr : Expr) (count : Nat) (text : List Char) :
    Option (List (Option (List Char))) :=
  (expr.run some ⟨0, text, List.replicate count none⟩).map Cursor.captures

end Expr
end RoutePattern
