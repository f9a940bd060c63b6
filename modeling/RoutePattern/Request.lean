import RoutePattern.Session.Operations

/-! Requests: addresses relative to a request, and requests tested against patterns. -/
namespace RoutePattern

/-- What is known of a request: the address of the site, the path and the query. -/
structure Request where
  baseUrl : String := ""
  path : String := ""
  query : String := ""
deriving DecidableEq, Repr

namespace Request

/-- The path of a request, and its query behind a question mark if there is one. -/
def target (request : Request) : String :=
  if request.query == "" then request.path else request.path ++ "?" ++ request.query

/-- An address; without a host the site of the request is taken. -/
def url (request : Request) (options : Options BuildField) : Action String :=
  Session.build fun
    | .host => if (options .host).isNothing then .text request.baseUrl else options .host
    | field => options field

/-- Does the request match a pattern? -/
def matchesPattern (request : Request) (pattern : Value) : Action Bool := do
  let options ← Session.lift (Options.coerce MatchField "test" .null
    [(.text "path", pattern), (.text "url", .text request.target)])
  Session.test options

/-- A request that does not match is rejected with a status. Whoever serves the request says
what a rejection with this status is; there may be statuses that cannot be used for one. -/
def require (request : Request) (pattern : Value) (status : Int)
    (rejection : Int → Error := .rejected) : Action Unit := do
  unless ← request.matchesPattern pattern do
    Session.record (.rejected pattern request.path)
    throw (rejection status)

end Request
end RoutePattern
