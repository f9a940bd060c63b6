import RoutePattern.Error
import RoutePattern.Session.Cache
import RoutePattern.Session.Event

/-! Sessions: what is remembered from one operation to the next. An operation may fail;
what it has recorded and compiled before stays. -/
namespace RoutePattern

/-- The cache of compiled routes, and the events so far, the first one in front. -/
structure Session where
  cache : Cache := {}
  events : List Event := []

/-- An operation within a session: an answer or an error, and the session behind it. -/
abbrev Action (α : Type) := ExceptT Error (StateM Session) α

namespace Session

/-- An event is recorded. -/
def record (event : Event) : Action Unit :=
  modify fun session => { session with events := session.events ++ [event] }

/-- The cache is changed. -/
def updateCache (change : Cache → Cache) : Action Unit :=
  modify fun session => { session with cache := change session.cache }

/-- The answer of a computation outside the session. A parameter without a value is
recorded. -/
def lift {α : Type} (result : Except Error α) : Action α :=
  match result with
  | .ok answer => pure answer
  | .error (.missingParameter name pattern) => do
    record (.missingArgument name pattern)
    throw (.missingParameter name pattern)
  | .error error => throw error

/-- The route of a pattern, from the cache if it is kept there. A pattern that does not
compile counts as not found and is not kept. -/
def routeOf (pattern : String) : Action Route := do
  match (← get).cache.find? pattern with
  | some route =>
    updateCache (·.touch pattern route)
    pure route
  | none =>
    updateCache Cache.miss
    match Route.compile pattern.toList with
    | .error fault => throw (.uncompilable pattern fault)
    | .ok route =>
      record (.compiled pattern (String.ofList route.source) route.captures)
      updateCache (·.store pattern route)
      pure route

/-- The route of a value: nothing stands for the empty pattern. A value that is no text
but could be a key counts as a pattern not found. -/
def route (pattern : Value) : Action Route :=
  if pattern.isNothing then routeOf ""
  else
    match pattern with
    | .text content => routeOf content
    | other => do
      if other.isKey then updateCache Cache.miss
      throw .wrongType

end Session
end RoutePattern
