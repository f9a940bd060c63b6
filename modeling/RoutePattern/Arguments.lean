import RoutePattern.Error
import RoutePattern.Pattern.Filling
import RoutePattern.Text.Percent
import RoutePattern.Value.Entries

/-! Argument sets and what they do to a pattern. Positional arguments are given out in
reading order; keyed ones are first put into the order of the named tokens. -/
namespace RoutePattern

/-- A value as one component of an address. -/
def component (value : Value) : List Char := Text.encode value.spoken

/-- A classified argument set. Only the part that belongs to its kind counts. -/
structure Arguments where
  kind : ArgumentKind
  values : List Value := []
  mapping : Entries := []

namespace Arguments

/-- The argument set without arguments. -/
def empty : Arguments := { kind := .empty }

/-- Does the set count as having no arguments? -/
def isEmpty (arguments : Arguments) : Bool := arguments.kind == .empty

/-- Arguments in order, from anything that can be gone through. -/
def positional (value : Value) : Except Error Arguments :=
  if value.isNothing then .ok empty
  else
    match value.items? with
    | some items => .ok { kind := .positional, values := items }
    | none => .error .wrongType

/-- A key and its value, from a collection of two items. -/
def pairOf (value : Value) : Except Error (Value × Value) :=
  match value.items? with
  | none => .error .wrongType
  | some [key, content] => if key.isKey then .ok (key, content) else .error .wrongType
  | some _ => .error .wrongForm

/-- Arguments by name, from a map or from a collection of pairs. -/
def keyed (value : Value) : Except Error Arguments :=
  if value.isNothing then .ok empty
  else
    match value with
    | .map entries => .ok { kind := .keyed, mapping := entries }
    | _ =>
      match value.items? with
      | none => .error .wrongType
      | some items => do
        let pairs ← items.mapM pairOf
        .ok { kind := .keyed, mapping := Entries.ofPairs pairs }

/-- Any value classified: non-empty maps are keyed, non-empty sequences that are
neither text nor bytes positional; everything else counts as no arguments. -/
def ofValue : Value → Arguments
  | .arguments kind values _ mapping => ⟨kind, values, mapping⟩
  | .map (entry :: rest) => { kind := .keyed, mapping := entry :: rest }
  | .list (item :: rest) => { kind := .positional, values := item :: rest }
  | .tuple (item :: rest) => { kind := .positional, values := item :: rest }
  | .range first bound stride =>
    match Value.rangeItems first bound stride with
    | [] => empty
    | items => { kind := .positional, values := items }
  | _ => empty

/-- Are two argument sets equal? -/
def same (arguments others : Arguments) : Bool :=
  arguments.kind == others.kind && Value.sameItems arguments.values others.values &&
    arguments.mapping.length == others.mapping.length &&
    Value.allHeld arguments.mapping others.mapping

/-- The key of a token as a value. -/
def keyOf (token : List Char) : Value := .text (String.ofList (Pattern.key token))

/-- The value that keyed arguments give a named token of a pattern. -/
def valueFor (mapping : Entries) (pattern token : List Char) : Except Error Value :=
  match mapping.get? (keyOf token) with
  | some value => .ok value
  | none => .error
      (.missingParameter (String.ofList (Pattern.key token)) (String.ofList pattern))

/-- Keyed arguments in the order of the named tokens of a pattern. -/
def inNamedOrder (mapping : Entries) (pattern : List Char) : Except Error (List Value) :=
  match Pattern.named pattern with
  | [] => .error (.keyedWithoutNames (String.ofList pattern))
  | tokens => tokens.mapM (valueFor mapping pattern)

/-- The values in the order in which they are given out. -/
def sequence (arguments : Arguments) (pattern : List Char) : Except Error (List Value) :=
  match arguments.kind with
  | .empty => .ok []
  | .positional => .ok arguments.values
  | .keyed => inNamedOrder arguments.mapping pattern

/-- The pattern with the arguments filled in, before parentheses and the final slash
are removed. -/
def inject (arguments : Arguments) (pattern : List Char) : Except Error (List Char) := do
  let values ← arguments.sequence pattern
  .ok (Pattern.fill pattern (values.map component))

/-- The path that a pattern and arguments stand for. Without arguments all optional
groups go; otherwise all parentheses, also those that came in with a value, and one
slash at the end. -/
def path (arguments : Arguments) (pattern : List Char) : Except Error (List Char) :=
  if arguments.isEmpty then .ok (Pattern.dropGroups pattern)
  else do
    let filled ← arguments.inject pattern
    .ok (Pattern.dropFinalSlash (Pattern.eraseParentheses filled))

/-- Each token with the value at its position; tokens behind the last value get the
absent one. -/
def pairUp : List (List Char) → List Value → List (Value × Value)
  | [], _ => []
  | token :: rest, [] => (keyOf token, .null) :: pairUp rest []
  | token :: rest, value :: values => (keyOf token, value) :: pairUp rest values

/-- Positional arguments as keyed ones: values go to the parameters of the pattern,
named tokens before splat tokens. -/
def byName (pattern : List Char) (values : List Value) : Entries :=
  Entries.ofPairs (pairUp (Pattern.parameters pattern) values)

end Arguments
end RoutePattern
