import RoutePattern.Request

/-! Operations as they are called, and sessions that perform them one after the other. -/
namespace RoutePattern

namespace Session

/-- The address that a call describes. -/
def buildWith (call : Options.Call) : Action String := do
  build (← lift (Options.ofCall BuildField "build" [] call))

/-- Does the pattern that a call names match the whole of its address? -/
def testWith (call : Options.Call) : Action Bool := do
  test (← lift (Options.ofCall MatchField "test" [] call))

end Session

/-- The address that a call describes; without a host the site of the request is taken. -/
def Request.urlWith (request : Request) (call : Options.Call) : Action String := do
  request.url (← Session.lift (Options.ofCall BuildField "request_url" ["request"] call))

/-- The path that a call describes. -/
def pathWith (call : Options.Call) : Except Error String := do
  buildPath (← Options.ofCall BuildField "path" [] call)

/-- The query that a call describes. -/
def queryWith (call : Options.Call) : Except Error String := do
  buildQuery (← Options.ofCall BuildField "query" [] call)

/-- An operation within a session. The last one stands for whatever is computed without the
session. -/
inductive Operation where
  | route (pattern : Value)
  | test (call : Options.Call)
  | matchesPattern (request : Request) (pattern : Value)
  | require (request : Request) (pattern : Value) (status : Int) (rejection : Int → Error)
  | build (call : Options.Call)
  | url (request : Request) (call : Options.Call)
  | outside (result : Except Error Value)

namespace Operation

/-- What an operation does in a session; its answer is not told. -/
def action : Operation → Action Unit
  | .route pattern => do let _ ← Session.route pattern
  | .test call => do let _ ← Session.testWith call
  | .matchesPattern request pattern => do let _ ← request.matchesPattern pattern
  | .require request pattern status rejection => request.require pattern status rejection
  | .build call => do let _ ← Session.buildWith call
  | .url request call => do let _ ← request.urlWith call
  | .outside result => do let _ ← Session.lift result

/-- The session behind an operation. -/
def perform (session : Session) (operation : Operation) : Session :=
  (operation.action.run.run session).2

end Operation

/-- The session behind operations that begin with nothing remembered. -/
def Session.after (operations : List Operation) : Session :=
  operations.foldl Operation.perform {}

end RoutePattern
