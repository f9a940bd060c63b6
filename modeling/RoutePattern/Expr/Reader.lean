import RoutePattern.Expr.Lexeme

/-! Reading a written expression. Lexemes are taken from left to right; the groups
that are open are kept on a stack, and an iteration applies to the item in front of
it. The first lexeme that does not fit is the fault that is reported; a group left
open is reported at the end, the innermost one first. -/
namespace RoutePattern

/-- What keeps a text from being an expression. -/
inductive FaultKind where
  | nothingToRepeat
  | multipleRepeat
  | unbalancedParenthesis
  | unterminatedGroup
deriving DecidableEq, Repr

/-- A fault and the place of the character that causes it. -/
structure Fault where
  kind : FaultKind
  place : Nat
deriving DecidableEq, Repr

namespace Expr

/-- A group that is open: where it begins, its number if it captures, and the items
in front of it, the last one first. -/
structure Frame where
  opened : Nat
  capture : Option Nat
  before : List Expr
deriving DecidableEq, Repr

/-- The items of the innermost open group, the last one first; the open groups, the
innermost one first; and how many capturing groups have begun. -/
structure Reading where
  items : List Expr := []
  frames : List Frame := []
  captures : Nat := 0
deriving DecidableEq, Repr

/-- Items in sequence, given the last one first. -/
def ofItems (items : List Expr) : Expr :=
  items.foldl (fun behind item => .cat item behind) .empty

/-- The item in front of an iteration is repeated. An end of the text cannot be, nor
can what is repeated already. -/
def repeatLast (place : Nat) (times : Iteration) : List Expr → Except Fault (List Expr)
  | [] => .error ⟨.nothingToRepeat, place⟩
  | .start :: _ => .error ⟨.nothingToRepeat, place⟩
  | .finish :: _ => .error ⟨.nothingToRepeat, place⟩
  | .iterate _ _ :: _ => .error ⟨.multipleRepeat, place⟩
  | item :: before => .ok (.iterate times item :: before)

/-- One lexeme is taken in. -/
def step (reading : Reading) (place : Nat) : Lexeme → Except Fault Reading
  | .one set => .ok { reading with items := .one set :: reading.items }
  | .start => .ok { reading with items := .start :: reading.items }
  | .finish => .ok { reading with items := .finish :: reading.items }
  | .openCapture => .ok
      { items := [], captures := reading.captures + 1
        frames := ⟨place, some reading.captures, reading.items⟩ :: reading.frames }
  | .openPlain => .ok
      { reading with
        items := []
        frames := ⟨place, none, reading.items⟩ :: reading.frames }
  | .close =>
    match reading.frames with
    | [] => .error ⟨.unbalancedParenthesis, place⟩
    | frame :: outer => .ok
        { reading with
          items := .group frame.capture (ofItems reading.items) :: frame.before
          frames := outer }
  | .times times => do
      let items ← repeatLast place times reading.items
      .ok { reading with items := items }

/-- All lexemes are taken in, one after the other. -/
def steps (reading : Reading) : List (Nat × Lexeme) → Except Fault Reading
  | [] => .ok reading
  | (place, lexeme) :: rest => do steps (← step reading place lexeme) rest

/-- The expression read, and the number of its capturing groups. -/
def Reading.finish (reading : Reading) : Except Fault (Expr × Nat) :=
  match reading.frames with
  | [] => .ok (ofItems reading.items, reading.captures)
  | frame :: _ => .error ⟨.unterminatedGroup, frame.opened⟩

/-- The expression that a text writes down, and the number of its capturing groups. -/
def read (source : List Char) : Except Fault (Expr × Nat) := do
  (← steps {} (Lexeme.read source)).finish

end Expr

/-- The name of a kind of fault. -/
def FaultKind.message : FaultKind → String
  | .nothingToRepeat => "nothing to repeat"
  | .multipleRepeat => "multiple repeat"
  | .unbalancedParenthesis => "unbalanced parenthesis"
  | .unterminatedGroup => "missing ), unterminated subpattern"

/-- A fault in words. Where the expression has several lines, the line and the column
are added, both counted from one. -/
def Fault.message (fault : Fault) (source : List Char) : String :=
  let before := source.take fault.place
  let line := before.count '\n' + 1
  let column := (before.reverse.takeWhile (· != '\n')).length + 1
  let place := s!"{fault.kind.message} at position {fault.place}"
  if source.contains '\n' then s!"{place} (line {line}, column {column})" else place

end RoutePattern
