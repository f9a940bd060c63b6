import RoutePattern.Operations
import RoutePattern.Session.Basic

/-! Addresses built and tested within a session. -/
namespace RoutePattern.Session

/-- The address that options describe. -/
def build (options : Options BuildField) : Action String := do
  let url ← lift (buildAddress options)
  record (.built (options .path) url)
  pure url

/-- Does the pattern match the whole of the address? -/
def test (options : Options MatchField) : Action Bool := do
  let route ← route (options .path)
  match options .url with
  | .text url =>
    let matched := route.accepts url.toList
    record (.tested (options .path) (options .url) matched)
    pure matched
  | _ => throw .wrongType

end RoutePattern.Session
