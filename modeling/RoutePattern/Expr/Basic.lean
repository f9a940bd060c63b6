/-! Expressions that texts are matched with: single characters of a set, both ends
of the text, sequence, groups that may remember what they took in, and iteration. -/
namespace RoutePattern

/-- A set of characters: one, all but some, or all. -/
inductive CharSet where
  | only (char : Char)
  | noneOf (excluded : List Char)
  | all
deriving DecidableEq, Repr

/-- Is the character in the set? -/
def CharSet.has : CharSet → Char → Bool
  | .only char, other => other == char
  | .noneOf excluded, other => !excluded.contains other
  | .all, _ => true

/-- How often an expression is repeated, and whether more or fewer repetitions are
tried first. -/
inductive Iteration where
  | atMostOnce
  | greedy
  | reluctant
  | atLeastOnce
deriving DecidableEq, Repr

/-- Expressions. A capturing group carries its number, counted from zero. -/
inductive Expr where
  | empty
  | one (set : CharSet)
  | start
  | finish
  | cat (first second : Expr)
  | group (capture : Option Nat) (body : Expr)
  | iterate (times : Iteration) (body : Expr)
deriving DecidableEq, Repr

end RoutePattern
