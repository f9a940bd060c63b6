import RoutePattern.Address
import RoutePattern.Options
import RoutePattern.Report

/-! Operations on values of any type: patterns are filled and reported on, addresses
are put together. Where a pattern is expected nothing stands for the empty one. -/
namespace RoutePattern

/-- The path for a pattern and arguments of any form. -/
def fillPath (pattern arguments : Value) : Except Error String := do
  let pattern ← pattern.textOrNothing
  let path ← (Arguments.ofValue arguments).path pattern
  .ok (String.ofList path)

/-- The report on a pattern under arguments of any form. -/
def reportOn (pattern arguments : Value) : Except Error Report := do
  let pattern ← pattern.textOrNothing
  .ok (Report.make pattern (Arguments.ofValue arguments))

/-- The items of a collection under the names of the parameters of a pattern. -/
def argumentsByName (pattern arguments : Value) : Except Error Entries := do
  let values ← arguments.itemsOrNothing
  let pattern ← pattern.textOrNothing
  .ok (Arguments.byName pattern values)

/-- The path part of an address. -/
def buildPath (options : Options BuildField) : Except Error String :=
  fillPath (options .path) (options .params)

/-- The query part of an address. -/
def buildQuery (options : Options BuildField) : Except Error String := do
  .ok (String.ofList (← Address.renderQuery (options .query)))

/-- The whole address: the path is filled first, then the query is rendered, and then the
parts are put together. -/
def buildAddress (options : Options BuildField) : Except Error String := do
  let path ← buildPath options
  let query ← buildQuery options
  let url ← Address.joinValues (options .host) (.text path) (.text query) (options .hash)
  .ok (String.ofList url)

end RoutePattern
