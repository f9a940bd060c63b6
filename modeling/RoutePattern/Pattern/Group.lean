import RoutePattern.Text.Scan

/-! Optional groups of a pattern. A group runs from an opening parenthesis to the
first closing one behind it and stays within one line; parentheses opened in
between are part of its body. -/
namespace RoutePattern.Pattern
open Text

/-- May this character stand in the body of a group? -/
def inBody (char : Char) : Bool := char != ')' && char != '\n'

/-- The length of the optional group at the head of a text. -/
def groupLength : Finder
  | '(' :: rest =>
    match rest.dropWhile inBody with
    | ')' :: _ => (rest.takeWhile inBody).length + 2
    | _ => 0
  | _ => 0

/-- The optional groups of a pattern with their parentheses and places. -/
def groups (pattern : List Char) : List Occurrence := occurrences groupLength pattern

/-- A group without its parentheses. -/
def body (group : List Char) : List Char := (group.drop 1).dropLast

/-- Every optional group is removed with its content. -/
def dropGroups (pattern : List Char) : List Char := replace groupLength (fun _ => []) pattern

end RoutePattern.Pattern
