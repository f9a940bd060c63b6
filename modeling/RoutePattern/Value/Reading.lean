import RoutePattern.Error

/-! Values read as the texts that an operation needs. -/
namespace RoutePattern.Value

/-- A value that has to be a text. -/
def strictText : Value → Except Error (List Char)
  | .text content => .ok content.toList
  | _ => .error .wrongType

/-- A value that has to be a text, or nothing, which stands for the empty text. -/
def textOrNothing (value : Value) : Except Error (List Char) :=
  if value.isNothing then .ok [] else value.strictText

/-- A value that has to be a collection, or nothing, which stands for the empty one. -/
def itemsOrNothing (value : Value) : Except Error (List Value) :=
  if value.isNothing then .ok []
  else
    match value.items? with
    | some items => .ok items
    | none => .error .wrongType

@[simp] theorem textOrNothing_text (content : String) :
    (Value.text content).textOrNothing = .ok content.toList := by
  by_cases blank : content = ""
  · subst blank; rfl
  · simp [textOrNothing, isNothing, strictText, blank]

end RoutePattern.Value
