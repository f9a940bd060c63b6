import RoutePattern.Pattern.Group
import RoutePattern.Pattern.Token

/-! Filling the tokens of a pattern with texts. Places are found once, in the
pattern itself, so a text that has been put in is never read as a token. Values
go to the named tokens while a colon is left, and to the splat tokens afterwards;
groups that keep an unfilled token vanish. -/
namespace RoutePattern.Pattern
open Text

/-- A token and the text it is filled with. -/
structure Slot where
  token : Token
  filling : Option (List Char) := none
deriving DecidableEq, Repr

/-- A stretch of `length` characters from `start` on is exchanged for a text. -/
structure Edit where
  start : Nat
  length : Nat
  text : List Char
deriving DecidableEq, Repr

/-- What a filled slot changes. -/
def Slot.edit? (slot : Slot) : Option Edit :=
  slot.filling.map fun text => ⟨slot.token.start, slot.token.text.length, text⟩

/-- The edits applied to the characters from `place` on, of which the first `skip`
have been replaced already. An edit that begins within a replaced stretch has no
effect; of two that begin together the one listed first has. -/
def applyEdits (edits : List Edit) : Nat → Nat → List Char → List Char
  | _, _, [] => []
  | place, skip + 1, _ :: rest => applyEdits edits (place + 1) skip rest
  | place, 0, char :: rest =>
    match edits.find? (·.start == place) with
    | none => char :: applyEdits edits (place + 1) 0 rest
    | some edit => edit.text ++ applyEdits edits (place + 1) (edit.length - 1) rest

/-- The pattern with its filled tokens exchanged and some groups removed. Groups are
listed first, since a token that begins with a group lies in it. -/
def render (pattern : List Char) (slots : List Slot) (dropped : List Occurrence) : List Char :=
  applyEdits (dropped.map (fun group => ⟨group.start, group.text.length, []⟩) ++
    slots.filterMap Slot.edit?) 0 0 pattern

/-- The tokens of a pattern, none of them filled. -/
def emptySlots (pattern : List Char) : List Slot :=
  (tokens pattern).map fun token => ⟨token, none⟩

/-- The first unfilled slot of a kind takes the text; if there is none the text is lost. -/
def place (kind : Kind) (text : List Char) : List Slot → List Slot
  | [] => []
  | slot :: rest =>
    if slot.filling.isNone && slot.token.kind == kind then
      { slot with filling := some text } :: rest
    else slot :: place kind text rest

/-- The kind of slot that the next value goes to. -/
def nextKind (pattern : List Char) (slots : List Slot) : Kind :=
  if (render pattern slots []).contains ':' then .named else .splat

/-- The slots of a pattern after these texts have been given out one by one. -/
def fillSlots (pattern : List Char) (texts : List (List Char)) : List Slot :=
  texts.foldl (fun slots text => place (nextKind pattern slots) text slots) (emptySlots pattern)

/-- Do these stretches share a character? -/
def overlaps (token : Token) (group : Occurrence) : Bool :=
  token.start < group.stop && group.start < token.stop

/-- The groups that hold an unfilled token. -/
def droppedGroups (pattern : List Char) (slots : List Slot) : List Occurrence :=
  (groups pattern).filter fun group =>
    slots.any fun slot => slot.filling.isNone && overlaps slot.token group

/-- The pattern with texts filled in and without the groups left incomplete. -/
def fill (pattern : List Char) (texts : List (List Char)) : List Char :=
  let slots := fillSlots pattern texts
  render pattern slots (droppedGroups pattern slots)

/-- Parentheses are erased wherever they stand. -/
def eraseParentheses (text : List Char) : List Char :=
  text.filter fun char => !(char == '(' || char == ')')

/-- One slash at the end is taken away. -/
def dropFinalSlash (text : List Char) : List Char :=
  if text.getLast? == some '/' then text.dropLast else text

/-- One slash at the beginning is taken away. -/
def dropFirstSlash : List Char → List Char
  | '/' :: rest => rest
  | text => text

example : fill "/:a/*b".toList ["x".toList, "y".toList] = "/x/y".toList := by decide

example : fill "/*b/:a(/:c)".toList ["x".toList] = "/*b/x".toList := by decide

end RoutePattern.Pattern
