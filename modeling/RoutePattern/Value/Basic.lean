import RoutePattern.Decimal.Binary64

/-! Values that a caller may hand in: for a parameter, for a query, or in place of
whole argument sets and options. Nothing is known of a value in advance, so every
operation says which values it accepts. -/
namespace RoutePattern

/-- The shape of an argument set. -/
inductive ArgumentKind where
  | empty
  | positional
  | keyed
deriving DecidableEq, Repr

/-- Values of all types that may be handed in. The last three are an argument set and
the two sorts of options; `view` says that the mapping of an argument set is shown as
a read-only view. -/
inductive Value where
  | null
  | bool (truth : Bool)
  | int (number : Int)
  | float (number : Binary64)
  | text (content : String)
  | list (items : List Value)
  | tuple (items : List Value)
  | bytes (data : List UInt8)
  | buffer (data : List UInt8)
  | range (first bound stride : Int)
  | set (items : List Value)
  | map (entries : List (Value × Value))
  | arguments (kind : ArgumentKind) (values : List Value) (view : Bool)
      (mapping : List (Value × Value))
  | buildOptions (host path params query hash : Value)
  | matchOptions (path url : Value)
deriving Repr

/-- Keys with their values, in the order in which the keys came first. -/
abbrev Entries := List (Value × Value)

namespace Value

instance : Inhabited Value := ⟨.null⟩

/-- The name of the type of a value. -/
def typeName : Value → String
  | .null => "null"
  | .bool _ => "bool"
  | .int _ => "int"
  | .float _ => "float"
  | .text _ => "str"
  | .list _ => "list"
  | .tuple _ => "tuple"
  | .bytes _ => "bytes"
  | .buffer _ => "bytearray"
  | .range .. => "range"
  | .set _ => "set"
  | .map _ => "map"
  | .arguments .. => "Arguments"
  | .buildOptions .. => "BuildOptions"
  | .matchOptions .. => "MatchOptions"

/-- How many numbers a range holds; the bound is not one of them. -/
def rangeLength (first bound stride : Int) : Nat :=
  if 0 < stride then ((bound - first + stride - 1) / stride).toNat
  else if stride < 0 then ((first - bound - stride - 1) / (-stride)).toNat
  else 0

/-- Absent values, zeros, false and empty collections count as nothing; argument sets
and options never do. -/
def isNothing : Value → Bool
  | .null => true
  | .bool truth => !truth
  | .int number => number == 0
  | .float number => number.isZero
  | .text content => content == ""
  | .list items => items.isEmpty
  | .tuple items => items.isEmpty
  | .bytes data => data.isEmpty
  | .buffer data => data.isEmpty
  | .range first bound stride => rangeLength first bound stride == 0
  | .set items => items.isEmpty
  | .map entries => entries.isEmpty
  | .arguments .. => false
  | .buildOptions .. => false
  | .matchOptions .. => false

/-- Is the value absent? -/
def isNull : Value → Bool
  | .null => true
  | _ => false

/-- The numbers of a range. -/
def rangeItems (first bound stride : Int) : List Value :=
  (List.range (rangeLength first bound stride)).map fun (index : Nat) =>
    .int (first + index * stride)

/-- Bytes as numbers. -/
def byteItems (data : List UInt8) : List Value := data.map fun byte => .int byte.toNat

/-- What is gone through when a value is taken item by item: a text gives its
characters, a map its keys, bytes their numbers. Values that are no collection give
nothing. -/
def items? : Value → Option (List Value)
  | .text content => some (content.toList.map fun char => .text (String.singleton char))
  | .list items => some items
  | .tuple items => some items
  | .bytes data => some (byteItems data)
  | .buffer data => some (byteItems data)
  | .range first bound stride => some (rangeItems first bound stride)
  | .set items => some items
  | .map entries => some (entries.map Prod.fst)
  | _ => none

mutual

/-- Can the value serve as a key? Collections that may change cannot. -/
def isKey : Value → Bool
  | .list _ => false
  | .buffer _ => false
  | .set _ => false
  | .map _ => false
  | .arguments .. => false
  | .tuple items => areKeys items
  | .buildOptions host path params query hash =>
    host.isKey && path.isKey && params.isKey && query.isKey && hash.isKey
  | .matchOptions path url => path.isKey && url.isKey
  | _ => true

/-- Can all of these values serve as keys? -/
def areKeys : List Value → Bool
  | [] => true
  | item :: rest => item.isKey && areKeys rest

end

end Value
end RoutePattern
