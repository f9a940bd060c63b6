import RoutePattern.Proofs.Translation
import RoutePattern.Route

/-! The expression that the source of a pattern is read as. Where the outline is clean
the reading succeeds, one expression for each segment, and the captures are numbered
as the slots are read, with the one of the query behind them. -/
namespace RoutePattern.Pattern
open Text

/-- The capture of a slot: one segment of a path, or as little as possible. -/
def Kind.expr (number : Nat) : Kind → Expr
  | .named =>
    .group (some number)
      (.cat (.iterate .atLeastOnce (.one (.noneOf ['/', '?']))) .empty)
  | .splat =>
    .group (some number) (.cat (.iterate .reluctant (.one (.noneOf ['?']))) .empty)

/-- The expression of a part when so many captures have begun before it. -/
def Part.expr (number : Nat) : Part → Expr
  | .literal char => .one (.only char)
  | .slot kind _ => kind.expr number

/-- How many captures a list of parts begins. -/
def slotCount (parts : List Part) : Nat := (partKinds parts).length

/-- The expressions of parts, one after the other. -/
def partExprs (number : Nat) : List Part → List Expr
  | [] => []
  | part :: rest => part.expr number :: partExprs (number + slotCount [part]) rest

/-- Expressions in sequence. -/
def sequence (exprs : List Expr) : Expr := exprs.foldr .cat .empty

/-- The expression of a segment: a group is taken in as a whole or not at all. -/
def Segment.expr (number : Nat) : Segment → Expr
  | .single part => part.expr number
  | .group inner => .iterate .atMostOnce (.group none (sequence (partExprs number inner)))

/-- The expressions of segments, one after the other. -/
def segmentExprs (number : Nat) : List Segment → List Expr
  | [] => []
  | segment :: rest =>
    segment.expr number :: segmentExprs (number + slotCount segment.parts) rest

/-- A question mark and any text behind it, or nothing. -/
def queryExpr (number : Nat) : Expr :=
  .iterate .atMostOnce (.group none
    (.cat (.one (.only '?'))
      (.cat (.group (some number) (.cat (.iterate .greedy (.one .all)) .empty)) .empty)))

/-- What follows a pattern: the query, and the end of the text. -/
def closing (number : Nat) : List Expr := [queryExpr number, .finish]

/-- The expression of a whole pattern. -/
def patternExpr (segments : List Segment) : Expr :=
  .cat .start (sequence (segmentExprs 0 segments ++ closing (kinds segments).length))

section Counting

@[simp] theorem partKinds_nil : partKinds [] = [] := rfl

@[simp] theorem partKinds_literal : partKinds (.literal char :: others) = partKinds others := rfl

@[simp] theorem partKinds_slot :
    partKinds (.slot kind name :: others) = kind :: partKinds others := rfl

@[simp] theorem partKinds_append (first second : List Part) :
    partKinds (first ++ second) = partKinds first ++ partKinds second :=
  List.filterMap_append

@[simp] theorem kinds_nil : kinds [] = [] := rfl

@[simp] theorem kinds_cons (segment : Segment) (segments : List Segment) :
    kinds (segment :: segments) = partKinds segment.parts ++ kinds segments := by
  simp [kinds]

theorem slotCount_cons (part : Part) (parts : List Part) :
    slotCount (part :: parts) = slotCount [part] + slotCount parts := by
  cases part <;> simp [slotCount, Nat.add_comm]

end Counting

section Lexemes
variable {char : Char}

/-- A character written literally is read literally. -/
theorem readFrom_literal (place : Nat) (rest : List Char) (notOpen : char ≠ '(')
    (notClose : char ≠ ')') (notStar : char ≠ '*') :
    ∃ behind, Lexeme.readFrom place 0 (escape [char] ++ rest) =
      (place, .one (.only char)) :: Lexeme.readFrom behind 0 rest := by
  by_cases special : isSpecial char = true
  · have notEnd : char ≠ 'Z' := by
      rintro rfl
      exact absurd special (by decide)
    refine ⟨place + 1 + 1, ?_⟩
    rw [escape_of_special special]
    simp [Lexeme.readFrom, Lexeme.head, notEnd]
  · have plain : isSpecial char = false := by simpa using special
    refine ⟨place + 1, ?_⟩
    have operators : char ≠ '+' ∧ char ≠ '?' ∧ char ≠ '^' ∧ char ≠ '[' ∧ char ≠ '\\' := by
      refine ⟨?_, ?_, ?_, ?_, ?_⟩ <;> rintro rfl <;> exact absurd plain (by decide)
    obtain ⟨plus, mark, caret, bracket, backslash⟩ := operators
    rw [escape_of_not_special plain]
    simp [Lexeme.readFrom, Lexeme.head, notOpen, notClose, notStar, plus, mark, caret, bracket,
      backslash]

private theorem steps_capture (reading : Expr.Reading) (place : Nat) (rest : List Char)
    (kind : Kind) :
    ∃ behind, Expr.steps reading (Lexeme.readFrom place 0 (kind.capture ++ rest)) =
      Expr.steps
        { reading with
          items := kind.expr reading.captures :: reading.items
          captures := reading.captures + 1 }
        (Lexeme.readFrom behind 0 rest) := by
  cases kind <;> exact ⟨place + 1 + 1 + 1 + 1 + 1 + 1 + 1 + 1, rfl⟩

/-- Reading a part puts its expression on top of the items. -/
theorem steps_part (reading : Expr.Reading) (place : Nat) (rest : List Char) (part : Part)
    (clean : part.Clean) :
    ∃ behind, Expr.steps reading (Lexeme.readFrom place 0 (part.source ++ rest)) =
      Expr.steps
        { reading with
          items := part.expr reading.captures :: reading.items
          captures := reading.captures + slotCount [part] }
        (Lexeme.readFrom behind 0 rest) := by
  cases part with
  | literal char =>
    obtain ⟨notOpen, notClose, notStar⟩ := clean
    obtain ⟨behind, read⟩ := readFrom_literal place rest notOpen notClose notStar
    refine ⟨behind, ?_⟩
    rw [Part.source, read]
    rfl
  | slot kind name => exact steps_capture reading place rest kind

private theorem steps_parts (reading : Expr.Reading) (place : Nat) (rest : List Char)
    (parts : List Part) (clean : ∀ part ∈ parts, part.Clean) :
    ∃ behind, Expr.steps reading (Lexeme.readFrom place 0 (parts.flatMap Part.source ++ rest)) =
      Expr.steps
        { reading with
          items := (partExprs reading.captures parts).reverse ++ reading.items
          captures := reading.captures + slotCount parts }
        (Lexeme.readFrom behind 0 rest) := by
  induction parts generalizing place reading with
  | nil => exact ⟨place, rfl⟩
  | cons part parts ih =>
    obtain ⟨middle, first⟩ := steps_part reading place (parts.flatMap Part.source ++ rest) part
      (clean part (by simp))
    obtain ⟨behind, later⟩ := ih
      { reading with
        items := part.expr reading.captures :: reading.items
        captures := reading.captures + slotCount [part] }
      middle (fun other member => clean other (by simp [member]))
    refine ⟨behind, ?_⟩
    rw [List.flatMap_cons, List.append_assoc, first, later, slotCount_cons part parts]
    simp [partExprs, Nat.add_assoc]

theorem ofItems_reverse (exprs : List Expr) : Expr.ofItems exprs.reverse = sequence exprs := by
  rw [Expr.ofItems, List.foldl_reverse, sequence]

/-- Reading a segment puts its expression on top of the items; the groups that are open
around it stay as they are. -/
theorem steps_segment (reading : Expr.Reading) (place : Nat) (rest : List Char)
    (segment : Segment) (clean : ∀ part ∈ segment.parts, part.Clean) :
    ∃ behind, Expr.steps reading (Lexeme.readFrom place 0 (segment.source ++ rest)) =
      Expr.steps
        { reading with
          items := segment.expr reading.captures :: reading.items
          captures := reading.captures + slotCount segment.parts }
        (Lexeme.readFrom behind 0 rest) := by
  cases segment with
  | single part => exact steps_part reading place rest part (clean part (by simp [Segment.parts]))
  | group inner =>
    obtain ⟨middle, within⟩ := steps_parts
      { reading with
        items := []
        frames := ⟨place, none, reading.items⟩ :: reading.frames }
      (place + 1 + 1 + 1) (")?".toList ++ rest) inner clean
    refine ⟨middle + 1 + 1, ?_⟩
    have opened : Expr.steps reading
          (Lexeme.readFrom place 0 ((Segment.group inner).source ++ rest)) =
        Expr.steps { reading with
            items := []
            frames := ⟨place, none, reading.items⟩ :: reading.frames }
          (Lexeme.readFrom (place + 1 + 1 + 1) 0
            (inner.flatMap Part.source ++ (")?".toList ++ rest))) := by
      rw [Segment.source, List.append_assoc, List.append_assoc]
      rfl
    rw [opened, within, List.append_nil]
    have closed (items : List Expr) :
        Expr.steps { reading with
            items := items
            captures := reading.captures + slotCount inner
            frames := ⟨place, none, reading.items⟩ :: reading.frames }
          (Lexeme.readFrom middle 0 (")?".toList ++ rest)) =
        Expr.steps { reading with
            items := .iterate .atMostOnce (.group none (Expr.ofItems items)) :: reading.items
            captures := reading.captures + slotCount inner }
          (Lexeme.readFrom (middle + 1 + 1) 0 rest) := rfl
    rw [closed, ofItems_reverse]
    rfl

private theorem steps_segments (reading : Expr.Reading) (place : Nat) (rest : List Char)
    (segments : List Segment)
    (clean : ∀ segment ∈ segments, ∀ part ∈ segment.parts, part.Clean) :
    ∃ behind, Expr.steps reading
        (Lexeme.readFrom place 0 (segments.flatMap Segment.source ++ rest)) =
      Expr.steps
        { reading with
          items := (segmentExprs reading.captures segments).reverse ++ reading.items
          captures := reading.captures + (kinds segments).length }
        (Lexeme.readFrom behind 0 rest) := by
  induction segments generalizing place reading with
  | nil => exact ⟨place, rfl⟩
  | cons segment segments ih =>
    obtain ⟨middle, first⟩ := steps_segment reading place
      (segments.flatMap Segment.source ++ rest) segment (clean segment (by simp))
    obtain ⟨behind, later⟩ := ih
      { reading with
        items := segment.expr reading.captures :: reading.items
        captures := reading.captures + slotCount segment.parts }
      middle (fun other member => clean other (by simp [member]))
    refine ⟨behind, ?_⟩
    rw [List.flatMap_cons, List.append_assoc, first, later]
    simp [segmentExprs, slotCount, Nat.add_assoc]

end Lexemes

/-- Reading the source of a pattern begins with the beginning of the text. -/
theorem steps_source (pattern : List Char) :
    Expr.steps {} (Lexeme.read (source pattern)) =
      Expr.steps { items := [.start] } (Lexeme.readFrom (0 + 1) 0
        ((outline pattern).flatMap Segment.source ++ (queryCapture ++ "\\Z".toList))) := by
  rw [source_eq_outline, ← List.append_assoc]
  rfl

/-- Reading ends with the query and the end of the text. -/
theorem steps_closing (reading : Expr.Reading) (place : Nat) :
    Expr.steps reading (Lexeme.readFrom place 0 (queryCapture ++ "\\Z".toList)) =
      .ok { reading with
        items := .finish :: queryExpr reading.captures :: reading.items
        captures := reading.captures + 1 } := rfl

/-- What has been read from the beginning of the text to its end, in order. -/
theorem ofItems_closing (own : List Expr) (number : Nat) :
    Expr.ofItems (.finish :: queryExpr number :: (own ++ [.start])) =
      .cat .start (sequence (own.reverse ++ closing number)) := by
  have reversed : Expr.finish :: queryExpr number :: (own ++ [.start]) =
      ([Expr.start] ++ (own.reverse ++ closing number)).reverse := by
    simp [closing]
  rw [reversed, ofItems_reverse]
  rfl

/-- A pattern with a clean outline is read as the expression of its outline, which begins
one capture for each slot and one for the query. -/
theorem read_source (pattern : List Char)
    (clean : ∀ segment ∈ outline pattern, ∀ part ∈ segment.parts, part.Clean) :
    Expr.read (source pattern) =
      .ok (patternExpr (outline pattern), (kinds (outline pattern)).length + 1) := by
  obtain ⟨behind, read⟩ := steps_segments { items := [.start] } (0 + 1)
    (queryCapture ++ "\\Z".toList) (outline pattern) clean
  rw [Expr.read, steps_source, read, steps_closing]
  show Except.ok (Expr.ofItems _, _) = _
  rw [ofItems_closing, List.reverse_reverse, Nat.zero_add]
  rfl

/-- The route of a grammatical pattern. -/
def route (pattern : List Char) : Route :=
  ⟨source pattern, patternExpr (outline pattern), (kinds (outline pattern)).length + 1⟩

/-- A grammatical pattern compiles. -/
theorem compile_grammatical (pattern : List Char) (grammatical : Grammatical pattern) :
    Route.compile pattern = .ok (route pattern) := by
  rw [Route.compile, read_source pattern (outline_clean pattern grammatical)]
  rfl

end RoutePattern.Pattern
