import RoutePattern.Arguments

/-! Which parameters a pattern has, which of them are optional, and which would be left
without a value by given arguments. -/
namespace RoutePattern

/-- A parameter of a pattern with the value it gets; an empty text means none. -/
structure Parameter where
  token : List Char
  value : Value
  optional : Bool

namespace Parameter

/-- A parameter that no group has is required. -/
def required (parameter : Parameter) : Bool := !parameter.optional

/-- Is there no value for the parameter? -/
def isMissing (parameter : Parameter) : Bool := parameter.value.same (.text "")

/-- Are two parameters equal? -/
def same (parameter other : Parameter) : Bool :=
  parameter.token == other.token && parameter.value.same other.value &&
    parameter.optional == other.optional

end Parameter

/-- Does a text occur within another one? -/
def occursIn (part : List Char) : List Char → Bool
  | [] => part.isEmpty
  | char :: rest => part.isPrefixOf (char :: rest) || occursIn part rest

/-- All parameters of a pattern, and whether it has optional groups. -/
structure Report where
  parameters : List Parameter
  hasGroups : Bool

namespace Report

/-- The values by name that arguments stand for in a report. -/
def valuesOf (pattern : List Char) (arguments : Arguments) : Entries :=
  match arguments.kind with
  | .empty => []
  | .positional => Arguments.byName pattern arguments.values
  | .keyed => arguments.mapping

/-- A token of a pattern with its value. It counts as optional when its text occurs
anywhere within a group. -/
def parameterOf (groups : List (List Char)) (values : Entries) (token : List Char) : Parameter :=
  let value :=
    match values.get? (Arguments.keyOf token) with
    | none => .text ""
    | some .null => .text ""
    | some value => value
  ⟨token, value, groups.any (occursIn token)⟩

/-- The report on a pattern under given arguments. -/
def make (pattern : List Char) (arguments : Arguments) : Report :=
  let groups := (Pattern.groups pattern).map Text.Occurrence.text
  let values := valuesOf pattern arguments
  ⟨(Pattern.parameters pattern).map (parameterOf groups values), !groups.isEmpty⟩

/-- The parameters without a value. -/
def missing (report : Report) : List Parameter := report.parameters.filter Parameter.isMissing

/-- The optional parameters without a value. -/
def missingOptional (report : Report) : List Parameter :=
  report.parameters.filter fun parameter => parameter.optional && parameter.isMissing

/-- The required parameters without a value. -/
def missingRequired (report : Report) : List Parameter :=
  report.parameters.filter fun parameter => parameter.required && parameter.isMissing

/-- Are two lists of parameters equal item by item? -/
def sameParameters : List Parameter → List Parameter → Bool
  | [], [] => true
  | parameter :: rest, other :: others => parameter.same other && sameParameters rest others
  | _, _ => false

/-- Are two reports equal? -/
def same (report other : Report) : Bool :=
  report.hasGroups == other.hasGroups && sameParameters report.parameters other.parameters

end Report
end RoutePattern
