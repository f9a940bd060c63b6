import RoutePattern.Value.Basic

/-! Events that a session records. -/
namespace RoutePattern

/-- What happened, with the values it happened to. -/
inductive Event where
  | compiled (pattern source : String) (groups : Nat)
  | missingArgument (parameter pattern : String)
  | built (pattern : Value) (url : String)
  | tested (pattern url : Value) (matched : Bool)
  | rejected (pattern : Value) (path : String)

namespace Event

/-- An event in words. -/
def message : Event → String
  | .compiled .. => "Compiled path pattern"
  | .missingArgument .. => "Missing keyed argument"
  | .built .. => "Built url"
  | .tested .. => "Tested url against pattern"
  | .rejected .. => "Request rejected by path pattern"

/-- The values of an event by name. -/
def fields : Event → List (String × Value)
  | .compiled pattern source groups =>
    [("pattern", .text pattern), ("regex", .text source), ("groups", .int groups)]
  | .missingArgument parameter pattern =>
    [("parameter", .text parameter), ("pattern", .text pattern)]
  | .built pattern url => [("pattern", pattern), ("url", .text url)]
  | .tested pattern url matched =>
    [("pattern", pattern), ("url", url), ("matched", .bool matched)]
  | .rejected pattern path => [("pattern", pattern), ("path", .text path)]

end Event
end RoutePattern
