import RoutePattern.Expr.Reader
import RoutePattern.Pattern.Source
import RoutePattern.Value.Display

/-! What can go wrong, the words for it, and how the kinds of errors include one
another. -/
namespace RoutePattern

/-- Kinds of errors. `composition` includes the four that follow it; the others are
the general kinds of the surroundings. -/
inductive ErrorKind where
  | composition
  | invalidArgument
  | missingParameter
  | invalidOptions
  | patternCompile
  | value
  | type
  | lookup
  | key
  | attribute
  | rejection
deriving DecidableEq, Repr

namespace ErrorKind

/-- The kinds that a kind belongs to, itself among them. -/
def included : ErrorKind → List ErrorKind
  | .invalidArgument => [.composition, .invalidArgument, .value]
  | .missingParameter =>
    [.composition, .invalidArgument, .missingParameter, .value, .lookup, .key]
  | .invalidOptions => [.composition, .invalidOptions, .type]
  | .patternCompile => [.composition, .patternCompile]
  | .key => [.lookup, .key]
  | kind => [kind]

/-- Does every error of the first kind count as one of the second kind? -/
def isA (kind other : ErrorKind) : Bool := kind.included.contains other

end ErrorKind

/-- Causes of failure. The last three say that a value is of no use where it stands:
it has another type, it has the type but not the form, or it has no entries. -/
inductive Error where
  | keyedWithoutNames (pattern : String)
  | missingParameter (name pattern : String)
  | unsupportedOptions (operation expected given : String)
  | unknownOptions (operation : String) (names : List String)
  | uncompilable (pattern : String) (fault : Fault)
  | rejected (status : Int)
  | wrongType
  | wrongForm
  | withoutEntries
deriving DecidableEq, Repr

/-- An error as it is shown: its kind, and whatever it tells. -/
structure Notice where
  kind : ErrorKind
  message : Option String := none
  name : Option String := none
  pattern : Option String := none
  cause : Option String := none
  status : Option Int := none
deriving DecidableEq, Repr

namespace Notice

/-- The notice of a parameter without a value. -/
def missingParameter (name pattern : String) : Notice :=
  { kind := .missingParameter
    message := some s!"No value for parameter '{name}' in pattern '{pattern}'"
    name := some name
    pattern := some pattern }

/-- One text is the message itself; several are shown as a tuple. -/
def messageOf : List String → String
  | [] => ""
  | [text] => text
  | texts => String.ofList (Value.literal (.tuple (texts.map Value.text)))

/-- A notice made from texts. A missing parameter takes its name and the pattern, a
pattern that does not compile a message and the pattern; the others take any number. -/
def ofTexts (kind : ErrorKind) (texts : List String) : Except Error Notice :=
  match kind, texts with
  | .missingParameter, [name, pattern] => .ok (missingParameter name pattern)
  | .missingParameter, _ => .error .wrongType
  | .patternCompile, [message, pattern] =>
    .ok { kind := .patternCompile, message := some message, pattern := some pattern }
  | .patternCompile, _ => .error .wrongType
  | kind, texts => .ok { kind := kind, message := some (messageOf texts) }

end Notice

namespace Error

/-- What is wrong with the expression of a pattern, in words. -/
def causeText (pattern : String) (fault : Fault) : String :=
  fault.message (Pattern.source pattern.toList)

/-- Names as a list of quoted texts. -/
def listText (names : List String) : String :=
  String.ofList (Value.literal (.list (names.map Value.text)))

/-- An error as it is shown. -/
def notice : Error → Notice
  | .keyedWithoutNames pattern =>
    { kind := .invalidArgument
      message := some
        s!"Keyed arguments require named parameters, but pattern '{pattern}' has none" }
  | .missingParameter name pattern => Notice.missingParameter name pattern
  | .unsupportedOptions operation expected given =>
    { kind := .invalidOptions
      message := some
        s!"Options for {operation} must be a mapping or {expected}, got {given}" }
  | .unknownOptions operation names =>
    { kind := .invalidOptions
      message := some s!"Unknown option(s) for {operation}: {listText names}" }
  | .uncompilable pattern fault =>
    { kind := .patternCompile
      message := some s!"Cannot compile pattern '{pattern}': {causeText pattern fault}"
      pattern := some pattern
      cause := some (causeText pattern fault) }
  | .rejected status => { kind := .rejection, status := some status }
  | .wrongType => { kind := .type }
  | .wrongForm => { kind := .value }
  | .withoutEntries => { kind := .attribute }

end Error
end RoutePattern
