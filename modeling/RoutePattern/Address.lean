import RoutePattern.Arguments
import RoutePattern.Value.Reading

/-! Addresses: a host, a path, a query and a fragment put together. -/
namespace RoutePattern.Address

/-- A mark in front of a part, and nothing at all for an empty part. -/
def marked (mark : Char) (part : List Char) : List Char :=
  if part.isEmpty then [] else mark :: part

/-- Parts put together. The host loses one slash at its end, the path one at either end;
each separator stands only in front of a part that is there. -/
def join (host path query hash : List Char) : List Char :=
  Pattern.dropFinalSlash host ++
    marked '/' (Pattern.dropFinalSlash (Pattern.dropFirstSlash path)) ++
    marked '?' query ++ marked '#' hash

/-- Entries as `key=value`. The value is encoded, the key is taken as it is. -/
def queryEntry (entry : Value × Value) : List Char :=
  entry.1.plain ++ '=' :: component entry.2

/-- Entries in order, with `&` between them. -/
def renderEntries (entries : Entries) : List Char :=
  ['&'].intercalate (entries.map queryEntry)

/-- The query that a value stands for: a map gives its entries, nothing an empty query. -/
def renderQuery (query : Value) : Except Error (List Char) :=
  if query.isNothing then .ok []
  else
    match query with
    | .map entries => .ok (renderEntries entries)
    | _ => .error .withoutEntries

/-- A value that may be anything, as text; nothing gives an empty text. -/
def anyText (value : Value) : List Char := if value.isNothing then [] else value.plain

/-- Values put together to an address. Host and path have to be texts. -/
def joinValues (host path query hash : Value) : Except Error (List Char) := do
  let host ← host.textOrNothing
  let path ← path.textOrNothing
  .ok (join host path (anyText query) (anyText hash))

end RoutePattern.Address
