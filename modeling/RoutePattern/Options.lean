import RoutePattern.Error
import RoutePattern.Value.Entries

/-! Options of an operation. They are given as a record, as a map, or one by one as
overrides; overrides win over the map, and an absent value never counts as given. -/
namespace RoutePattern

/-- What there is to say about an address to be built. -/
inductive BuildField where
  | host
  | path
  | params
  | query
  | hash
deriving DecidableEq, Repr

/-- What there is to say about an address to be tested. -/
inductive MatchField where
  | path
  | url
deriving DecidableEq, Repr

/-- Options give each field a value. -/
abbrev Options (φ : Type) := φ → Value

/-- A sort of options: its name, its fields with their names and initial values, and the
records of this sort as values. -/
class OptionSort (φ : Type) where
  name : String
  fields : List φ
  fieldName : φ → String
  initial : Options φ
  toValue : Options φ → Value
  ofValue? : Value → Option (Options φ)
  ofValue?_toValue (options : Options φ) : ofValue? (toValue options) = some options

instance : OptionSort BuildField where
  name := "BuildOptions"
  fields := [.host, .path, .params, .query, .hash]
  fieldName
    | .host => "host"
    | .path => "path"
    | .params => "params"
    | .query => "query"
    | .hash => "hash"
  initial
    | .params => .null
    | .query => .null
    | _ => .text ""
  toValue options := .buildOptions (options .host) (options .path) (options .params)
    (options .query) (options .hash)
  ofValue?
    | .buildOptions host path params query hash => some fun
      | .host => host
      | .path => path
      | .params => params
      | .query => query
      | .hash => hash
    | _ => none
  ofValue?_toValue options := congrArg some (funext fun field => by cases field <;> rfl)

instance : OptionSort MatchField where
  name := "MatchOptions"
  fields := [.path, .url]
  fieldName
    | .path => "path"
    | .url => "url"
  initial _ := .text ""
  toValue options := .matchOptions (options .path) (options .url)
  ofValue?
    | .matchOptions path url => some fun
      | .path => path
      | .url => url
    | _ => none
  ofValue?_toValue options := congrArg some (funext fun field => by cases field <;> rfl)

namespace Options

/-- The name of a field as a key. -/
def fieldKey {φ : Type} [OptionSort φ] (field : φ) : Value := .text (OptionSort.fieldName field)

/-- Is this key the name of a field? -/
def isField (φ : Type) [OptionSort φ] (key : Value) : Bool :=
  (OptionSort.fields (φ := φ)).any fun field => key.same (fieldKey field)

/-- A name is put into its place among sorted names, unless it is there already. -/
def insertName (name : String) : List String → List String
  | [] => [name]
  | other :: rest =>
    if name == other then other :: rest
    else if name < other then name :: other :: rest
    else other :: insertName name rest

/-- The keys that name no field, as texts, sorted and each one once. -/
def unknownNames (φ : Type) [OptionSort φ] (entries : Entries) : List String :=
  ((entries.map Prod.fst).filter fun key => !isField φ key).foldr
    (fun key names => insertName (String.ofList key.plain) names) []

/-- The value under a key, unless it is absent. -/
def given? (entries : Entries) (key : Value) : Option Value :=
  match entries.get? key with
  | some .null => none
  | other => other

/-- Two layers of entries over a record: the upper layer wins, then the lower one. -/
def layered {φ : Type} [OptionSort φ] (base : Options φ) (lower upper : Entries) : Options φ :=
  fun field =>
    match given? upper (fieldKey field) with
    | some value => value
    | none => (given? lower (fieldKey field)).getD (base field)

/-- The record and the map that options consist of: an absent value is the initial
record, a map lies over it, a record of the right sort stands for itself. -/
def split? (φ : Type) [OptionSort φ] (options : Value) : Option (Options φ × Entries) :=
  match options with
  | .null => some (OptionSort.initial, [])
  | .map entries => some (OptionSort.initial, entries)
  | other => (OptionSort.ofValue? other).map fun record => (record, [])

/-- The options of an operation out of a value and overrides. Every key has to be the
name of a field, also where its value is absent. -/
def coerce (φ : Type) [OptionSort φ] (operation : String) (options : Value)
    (overrides : Entries) : Except Error (Options φ) :=
  match split? φ options with
  | none => .error
      (.unsupportedOptions operation (OptionSort.name φ) options.typeName)
  | some (base, supplied) =>
    match unknownNames φ (supplied ++ overrides) with
    | [] => .ok (layered base supplied overrides)
    | names => .error (.unknownOptions operation names)

/-- What an operation is called with: options if there are any, and overrides by name. -/
structure Call where
  options : Option Value := none
  overrides : Entries := []

/-- An override with the name `options` stands for the options themselves, which cannot
be given twice; names in `reserved` are taken by the operation. -/
def Call.resolve (call : Call) (reserved : List String) : Except Error (Value × Entries) :=
  let isReserved (entry : Value × Value) := reserved.any fun name => entry.1.same (.text name)
  if call.overrides.any isReserved then .error .wrongType
  else
    match call.overrides.get? (.text "options"), call.options with
    | some _, some _ => .error .wrongType
    | some options, none =>
      .ok (options, call.overrides.filter fun entry => !entry.1.same (.text "options"))
    | none, options => .ok (options.getD .null, call.overrides)

/-- The options that an operation is called with. -/
def ofCall (φ : Type) [OptionSort φ] (operation : String) (reserved : List String)
    (call : Call) : Except Error (Options φ) := do
  let (options, overrides) ← call.resolve reserved
  coerce φ operation options overrides

end Options
end RoutePattern
