import RoutePattern.Proofs.Lexemes
import RoutePattern.Proofs.Marks
import RoutePattern.Proofs.Recall

/-! When a pattern compiles. Of a reading that goes well it only matters how many groups are open
and whether the last item can be repeated; which lexemes fit depends on nothing else. Of the
marks of a pattern the same can be told without reading any expression, so that compiling fails
exactly where a parenthesis or an asterisk of the pattern is out of place. -/
namespace RoutePattern

/-- How far a reading has come: how many groups are open, and whether there is an item in front
that can be repeated. -/
structure Progress where
  opened : Nat
  ready : Bool
deriving DecidableEq, Repr

/-- Can the last of these items be repeated? -/
def Expr.repeatable : List Expr → Bool
  | [] => false
  | .start :: _ => false
  | .finish :: _ => false
  | .iterate _ _ :: _ => false
  | _ :: _ => true

/-- How far a reading has come. -/
def Expr.Reading.progress (reading : Expr.Reading) : Progress :=
  ⟨reading.frames.length, Expr.repeatable reading.items⟩

namespace Progress
open Pattern

/-- A group is closed, if one is open. -/
def close (progress : Progress) (ready : Bool) : Option Progress :=
  match progress.opened with
  | 0 => none
  | opened + 1 => some ⟨opened, ready⟩

/-- The item in front is repeated, if it can be. -/
def again (progress : Progress) : Option Progress :=
  if progress.ready then some ⟨progress.opened, false⟩ else none

/-- How far a reading comes with one more lexeme, if this fits. -/
def read (progress : Progress) : Lexeme → Option Progress
  | .one _ => some ⟨progress.opened, true⟩
  | .start => some ⟨progress.opened, false⟩
  | .finish => some ⟨progress.opened, false⟩
  | .openCapture => some ⟨progress.opened + 1, false⟩
  | .openPlain => some ⟨progress.opened + 1, false⟩
  | .close => progress.close true
  | .times _ => progress.again

/-- How far a reading comes with one more character of a pattern. What a group has taken in is
repeated at its end. -/
def pass (progress : Progress) : Mark → Option Progress
  | .plain char =>
    if char == '(' then some ⟨progress.opened + 1, false⟩
    else if char == ')' then progress.close true
    else some ⟨progress.opened, true⟩
  | .star => progress.again
  | .ending => progress.close false

end Progress

section Readings

/-- A lexeme fits or not depending on how far the reading has come, and takes it further
accordingly. -/
theorem progress_step (reading : Expr.Reading) (place : Nat) (lexeme : Lexeme) :
    (Expr.step reading place lexeme).toOption.map Expr.Reading.progress =
      reading.progress.read lexeme := by
  obtain ⟨items, frames, captures⟩ := reading
  cases lexeme with
  | one set => rfl
  | start => rfl
  | finish => rfl
  | openCapture => rfl
  | openPlain => rfl
  | close => cases frames <;> rfl
  | times times =>
    cases items with
    | nil => rfl
    | cons item before => cases item <;> rfl

private theorem progress_steps (reading : Expr.Reading) (entries : List (Nat × Lexeme)) :
    (Expr.steps reading entries).toOption.map Expr.Reading.progress =
      (entries.map Prod.snd).foldlM Progress.read reading.progress := by
  induction entries generalizing reading with
  | nil => rfl
  | cons entry entries ih =>
    obtain ⟨place, lexeme⟩ := entry
    rw [Expr.steps, List.map_cons, List.foldlM_cons, ← progress_step reading place lexeme]
    cases Expr.step reading place lexeme with
    | error fault => rfl
    | ok next => exact ih next

/-- A text is an expression if all its lexemes fit and no group is left open. -/
theorem read_isOk_iff (source : List Char) :
    (∃ result, Expr.read source = .ok result) ↔
      ∃ ready, ((Lexeme.read source).map Prod.snd).foldlM Progress.read ⟨0, false⟩ =
        some ⟨0, ready⟩ := by
  have whole := progress_steps {} (Lexeme.read source)
  rw [show Expr.Reading.progress {} = ⟨0, false⟩ from rfl] at whole
  rw [Expr.read, ← whole]
  cases Expr.steps {} (Lexeme.read source) with
  | error fault =>
    constructor
    · rintro ⟨result, impossible⟩
      cases impossible
    · rintro ⟨ready, impossible⟩
      cases impossible
  | ok final =>
    obtain ⟨items, frames, captures⟩ := final
    cases frames with
    | nil => exact ⟨fun _ => ⟨_, rfl⟩, fun _ => ⟨_, rfl⟩⟩
    | cons frame frames =>
      constructor
      · rintro ⟨result, impossible⟩
        cases impossible
      · rintro ⟨ready, impossible⟩
        cases impossible

end Readings

namespace Pattern
open Text

section Marks
variable {progress : Progress}

private theorem foldlM_closing (progress : Progress) :
    closingLexemes.foldlM Progress.read progress = some ⟨progress.opened, false⟩ := rfl

private theorem foldlM_literal (char : Char) (progress : Progress) :
    (Part.literal char).lexemes.foldlM Progress.read progress =
      (Part.literal char).marks.foldlM Progress.pass progress := by
  by_cases opened : char = '('
  · subst opened
    rfl
  · by_cases closed : char = ')'
    · subst closed
      rfl
    · by_cases star : char = '*'
      · subst star
        rfl
      · simp [Part.lexemes, Part.marks, literalLexeme, Progress.pass, Progress.read, opened, closed,
          star]

/-- A text without parentheses ends with something that can be repeated. -/
theorem foldlM_plain {text : List Char} (present : text ≠ [])
    (plain : ∀ char ∈ text, char ≠ '(' ∧ char ≠ ')') (progress : Progress) :
    (text.map Mark.plain).foldlM Progress.pass progress = some ⟨progress.opened, true⟩ := by
  induction text generalizing progress with
  | nil => exact absurd rfl present
  | cons char text ih =>
    have here : progress.pass (.plain char) = some ⟨progress.opened, true⟩ := by
      simp [Progress.pass, plain char (by simp)]
    rw [List.map_cons, List.foldlM_cons, here]
    by_cases last : text = []
    · subst last
      rfl
    · exact ih last (fun other member => plain other (by simp [member])) _

private theorem foldlM_slot {name : List Char} (kind : Kind)
    (word : ∀ char ∈ name, isWord char = true)
    (progress : Progress) :
    (Part.slot kind name).lexemes.foldlM Progress.read progress =
      (Part.slot kind name).marks.foldlM Progress.pass progress := by
  rw [Part.marks, foldlM_plain (List.cons_ne_nil _ _) (slot_ne_parenthesis kind word)]
  cases kind <;> rfl

private theorem foldlM_parts (text : List Char) (progress : Progress) :
    ((parts text).flatMap Part.lexemes).foldlM Progress.read progress =
      ((parts text).flatMap Part.marks).foldlM Progress.pass progress := by
  induction text using parts_induction generalizing progress with
  | nil => rfl
  | slot kind name rest present word ended ih =>
    rw [parts_slot kind present word ended, List.flatMap_cons, List.flatMap_cons,
      List.foldlM_append, List.foldlM_append, foldlM_slot kind word, funext ih]
  | literal char rest none ih =>
    rw [parts_literal none, List.flatMap_cons, List.flatMap_cons, List.foldlM_append,
      List.foldlM_append, foldlM_literal, funext ih]

/-- The lexemes of a pattern take a reading as far as its marks do. -/
theorem foldlM_marks (pattern : List Char) (progress : Progress) :
    ((outline pattern).flatMap Segment.lexemes).foldlM Progress.read progress =
      (marks pattern).foldlM Progress.pass progress := by
  rw [marks]
  induction pattern using outline_induction generalizing progress with
  | nil => rfl
  | group inner rest inside ih =>
    have ending (progress : Progress) :
        [Lexeme.close, Lexeme.times .atMostOnce].foldlM Progress.read progress =
          [Mark.ending].foldlM Progress.pass progress := by
      obtain ⟨opened, ready⟩ := progress
      cases opened <;> rfl
    rw [outline_group inside, List.flatMap_cons, List.flatMap_cons, List.foldlM_append,
      List.foldlM_append, funext ih, Segment.lexemes, Segment.marks, List.foldlM_cons,
      List.foldlM_cons]
    simp only [List.foldlM_append, foldlM_parts, ending]
    rfl
  | slot kind name rest present word ended ih =>
    rw [outline_slot kind present word ended, List.flatMap_cons, List.flatMap_cons,
      List.foldlM_append, List.foldlM_append, funext ih]
    exact congrArg (· >>= _) (foldlM_slot kind word progress)
  | literal char rest outside none ih =>
    rw [outline_literal outside none, List.flatMap_cons, List.flatMap_cons,
      List.foldlM_append, List.foldlM_append, funext ih]
    exact congrArg (· >>= _) (foldlM_literal char progress)

/-- Marks are passed to the end, with no group left open there, if the parentheses behind those
already open are balanced and every asterisk without a name has something to repeat. -/
theorem foldlM_pass_iff (row : List Mark) (opened : Nat) (ready : Bool) :
    (∃ last, row.foldlM Progress.pass ⟨opened, ready⟩ = some ⟨0, last⟩) ↔
      Balanced opened (row.map Mark.char) ∧ Placed ready row := by
  induction row generalizing opened ready with
  | nil =>
    rw [List.map_nil, balanced_nil_iff]
    simp [Placed, pure]
  | cons mark row ih =>
    rw [List.foldlM_cons, List.map_cons, Placed]
    cases mark with
    | plain char =>
      by_cases opening : char = '('
      · subst opening
        have further := ih (opened + 1) false
        rw [← balanced_open_iff] at further
        simpa [Progress.pass, Mark.char, Mark.repeatable] using further
      · by_cases closing : char = ')'
        · subst closing
          cases opened with
          | zero => simp [Progress.pass, Progress.close, Mark.char, not_balanced_close]
          | succ opened =>
            have further := ih opened true
            rw [← balanced_close_iff] at further
            simpa [Progress.pass, Progress.close, Mark.char, Mark.repeatable] using further
        · have further := ih opened true
          rw [← balanced_other_iff opening closing] at further
          have repeatable : (Mark.plain char).repeatable = true := by
            simpa [Mark.repeatable] using opening
          rw [repeatable]
          simpa [Progress.pass, Mark.char, opening, closing] using further
    | star =>
      cases ready with
      | false => simp [Progress.pass, Progress.again]
      | true =>
        have further := ih opened false
        rw [← balanced_other_iff (by simp : '*' ≠ '(') (by simp)] at further
        simpa [Progress.pass, Progress.again, Mark.char, Mark.repeatable] using further
    | ending =>
      cases opened with
      | zero => simp [Progress.pass, Progress.close, Mark.char, not_balanced_close]
      | succ opened =>
        have further := ih opened false
        rw [← balanced_close_iff] at further
        simpa [Progress.pass, Progress.close, Mark.char, Mark.repeatable] using further

end Marks

/-- The expression of a pattern can be read if the pattern is compilable. -/
theorem read_source_isOk_iff (pattern : List Char) :
    (∃ result, Expr.read (source pattern) = .ok result) ↔ Compilable pattern := by
  have begun : Progress.read ⟨0, false⟩ .start = some ⟨0, false⟩ := rfl
  have whole : ((Lexeme.read (source pattern)).map Prod.snd).foldlM Progress.read ⟨0, false⟩ =
      ((marks pattern).foldlM Progress.pass ⟨0, false⟩).map fun last => ⟨last.opened, false⟩ := by
    rw [lexemes_source, List.foldlM_cons, begun, Option.bind_eq_bind, Option.bind_some,
      List.foldlM_append, foldlM_marks, funext foldlM_closing]
    cases (marks pattern).foldlM Progress.pass ⟨0, false⟩ <;> rfl
  have passed := foldlM_pass_iff (marks pattern) 0 false
  rw [map_char_marks, placed_marks_iff] at passed
  rw [read_isOk_iff, whole]
  constructor
  · rintro ⟨ready, ended⟩
    obtain ⟨⟨opened, last⟩, all, same⟩ := Option.map_eq_some_iff.mp ended
    cases same
    obtain ⟨balanced, placed⟩ := passed.mp ⟨last, all⟩
    exact ⟨balanced, placed⟩
  · rintro ⟨balanced, placed⟩
    obtain ⟨last, all⟩ := passed.mpr ⟨balanced, placed⟩
    exact ⟨false, by rw [all]; rfl⟩

end Pattern

theorem Route.compile_isOk_iff (pattern : List Char) :
    (∃ route, Route.compile pattern = .ok route) ↔ Pattern.Compilable pattern := by
  rw [← Pattern.read_source_isOk_iff]
  constructor
  · rintro ⟨route, compiled⟩
    exact ⟨_, (Route.compile_eq_ok_iff.mp compiled).2⟩
  · rintro ⟨⟨expr, captures⟩, read⟩
    exact ⟨⟨_, expr, captures⟩, Route.compile_eq_ok_iff.mpr ⟨rfl, read⟩⟩

namespace Session

/-- Whether the pattern was compiled before or is compiled now, looking up its route succeeds just
if the pattern is compilable; if not, the error says that it does not compile, and names it. -/
theorem route_of_compilable (pattern : String) (session : Session)
    (sound : session.cache.Sound) :
    ((∃ found, (outcome (route (.text pattern)) session).1 = .ok found) ↔
        Pattern.Compilable pattern.toList) ∧
      (¬ Pattern.Compilable pattern.toList → ∃ fault,
        (outcome (route (.text pattern)) session).1 = .error (.uncompilable pattern fault) ∧
          (Error.uncompilable pattern fault).notice.kind = .patternCompile ∧
          (Error.uncompilable pattern fault).notice.pattern = some pattern) := by
  rw [← Route.compile_isOk_iff, route_text]
  cases compiled : Route.compile pattern.toList with
  | ok made =>
    refine ⟨⟨fun _ => ⟨made, rfl⟩, fun _ => ⟨made, answer_routeOf compiled session sound⟩⟩, ?_⟩
    exact fun none => absurd ⟨made, rfl⟩ none
  | error fault =>
    rw [answer_routeOf_error compiled session sound]
    refine ⟨?_, fun _ => ⟨fault, rfl, rfl, rfl⟩⟩
    constructor
    · rintro ⟨found, impossible⟩
      cases impossible
    · rintro ⟨made, impossible⟩
      cases impossible

/-- An asterisk may stand behind a parenthesis that ends no group, but not behind a group. -/
theorem route_of_compilable_repeated :
    Cache.Sound {} ∧ Pattern.Compilable "((a))*".toList ∧ ¬ Pattern.Compilable "(a)*".toList ∧
      (∃ found, (outcome (route (.text "((a))*")) {}).1 = .ok found) ∧
      ∃ fault, (outcome (route (.text "(a)*")) {}).1 = .error (.uncompilable "(a)*" fault) := by
  have compilable : Pattern.Compilable "((a))*".toList := (Route.compile_isOk_iff _).mp ⟨_, rfl⟩
  have group : ⟨0, "(a)".toList⟩ ∈ Pattern.groups "(a)*".toList := by decide
  have behindGroup : Pattern.Unrepeatable "(a)*".toList 3 := .ended group
  have other : ¬ Pattern.Compilable "(a)*".toList :=
    fun given => given.placed 3 ⟨rfl, by simp⟩ behindGroup
  obtain ⟨fault, answer, _⟩ := (route_of_compilable "(a)*" {} Cache.sound_empty).2 other
  exact ⟨Cache.sound_empty, compilable, other,
    (route_of_compilable "((a))*" {} Cache.sound_empty).1.mpr compilable, fault, answer⟩

end Session

end RoutePattern
