import RoutePattern.Value.Basic

/-! Equality of values. Numbers and truth values are equal when their numerical
values are; ranges are compared as sequences, maps and sets without regard to order,
byte strings with buffers. Otherwise values of different types differ, and
not-a-number differs from everything. -/
namespace RoutePattern.Value

/-- Are two ranges equal as sequences? -/
def sameRange (first bound stride otherFirst otherBound otherStride : Int) : Bool :=
  let length := rangeLength first bound stride
  length == rangeLength otherFirst otherBound otherStride &&
    (length == 0 || (first == otherFirst && (length == 1 || stride == otherStride)))

/-- Is the value equal to this whole number? -/
def isInt (value : Value) (number : Int) : Bool :=
  match value with
  | .bool truth => truth.toInt == number
  | .int other => other == number
  | .float other => other.equalsInt number
  | _ => false

/-- Is the value equal to this floating-point number? -/
def isFloat (value : Value) (number : Binary64) : Bool :=
  match value with
  | .bool truth => number.equalsInt truth.toInt
  | .int other => number.equalsInt other
  | .float other => number.equals other
  | _ => false

mutual

/-- Are two values equal? -/
def same : Value → Value → Bool
  | .null, other => other.isNull
  | .bool truth, other => other.isInt truth.toInt
  | .int number, other => other.isInt number
  | .float number, other => other.isFloat number
  | .text content, .text other => content == other
  | .list items, .list others => sameItems items others
  | .tuple items, .tuple others => sameItems items others
  | .bytes data, .bytes other => data == other
  | .bytes data, .buffer other => data == other
  | .buffer data, .bytes other => data == other
  | .buffer data, .buffer other => data == other
  | .range first bound stride, .range otherFirst otherBound otherStride =>
    sameRange first bound stride otherFirst otherBound otherStride
  | .set items, .set others => items.length == others.length && allAmong items others
  | .map entries, .map others => entries.length == others.length && allHeld entries others
  | .arguments kind values _ mapping, .arguments otherKind otherValues _ otherMapping =>
    kind == otherKind && sameItems values otherValues &&
      mapping.length == otherMapping.length && allHeld mapping otherMapping
  | .buildOptions host path params query hash, .buildOptions host' path' params' query' hash' =>
    same host host' && same path path' && same params params' && same query query' &&
      same hash hash'
  | .matchOptions path url, .matchOptions path' url' => same path path' && same url url'
  | _, _ => false

/-- Are two sequences equal item by item? -/
def sameItems : List Value → List Value → Bool
  | [], [] => true
  | item :: rest, other :: others => same item other && sameItems rest others
  | _, _ => false

/-- Does each of these items occur among the others? -/
def allAmong : List Value → List Value → Bool
  | [], _ => true
  | item :: rest, others => others.any (same item) && allAmong rest others

/-- Do the others hold each of these entries, an equal value under an equal key? -/
def allHeld : List (Value × Value) → List (Value × Value) → Bool
  | [], _ => true
  | (key, value) :: rest, others =>
    others.any (fun other => same key other.1 && same value other.2) && allHeld rest others

end

/-- A text is equal to itself and to nothing else. -/
@[simp] theorem same_text_iff {content : String} {other : Value} :
    (Value.text content).same other = true ↔ other = .text content := by
  constructor
  · intro equal
    cases other <;> simp only [same, beq_iff_eq, Bool.false_eq_true] at equal
    rw [equal]
  · rintro rfl
    simp only [same, beq_self_eq_true]

end RoutePattern.Value
