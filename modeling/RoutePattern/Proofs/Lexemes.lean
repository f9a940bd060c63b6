import RoutePattern.Proofs.Reading

/-! The lexemes of the expression of a pattern, told from its outline: one for a literal
character, those of a capture for a slot, and those of an optional group around the ones of its
parts. No lexeme reaches from one segment into the next, since no segment is written with a
question mark in front. -/
namespace RoutePattern.Pattern
open Text

/-- What a literal character is read as. Parentheses and asterisks are not escaped: where they
belong to no group and to no slot they are operators. -/
def literalLexeme (char : Char) : Lexeme :=
  if char == '(' then .openCapture
  else if char == ')' then .close
  else if char == '*' then .times .greedy
  else .one (.only char)

/-- What the capture of a slot is read as. -/
def Kind.lexemes : Kind → List Lexeme
  | .named => [.openCapture, .one (.noneOf ['/', '?']), .times .atLeastOnce, .close]
  | .splat => [.openCapture, .one (.noneOf ['?']), .times .reluctant, .close]

/-- What a part is read as. -/
def Part.lexemes : Part → List Lexeme
  | .literal char => [literalLexeme char]
  | .slot kind _ => kind.lexemes

/-- What a segment is read as. -/
def Segment.lexemes : Segment → List Lexeme
  | .single part => part.lexemes
  | .group inner => .openPlain :: (inner.flatMap Part.lexemes ++ [.close, .times .atMostOnce])

/-- What the query and the end of the text are read as. -/
def closingLexemes : List Lexeme :=
  [.openPlain, .one (.only '?'), .openCapture, .one .all, .times .greedy, .close, .close,
    .times .atMostOnce, .finish]

/-- A text that is read as these lexemes wherever it stands, unless a question mark follows. -/
structure LexesTo (text : List Char) (lexemes : List Lexeme) : Prop where
  head : text.head? ≠ some '?'
  readFrom : ∀ place rest, rest.head? ≠ some '?' → ∃ behind entries,
    Lexeme.readFrom place 0 (text ++ rest) = entries ++ Lexeme.readFrom behind 0 rest ∧
      entries.map Prod.snd = lexemes

section Texts
variable {first second rest : List Char} {lexemes others : List Lexeme} {char : Char}

private theorem head?_append_ne (front : first.head? ≠ some '?') (behind : rest.head? ≠ some '?') :
    (first ++ rest).head? ≠ some '?' := by
  cases first with
  | nil => exact behind
  | cons char first => exact front

private theorem lexesTo_nil : LexesTo [] [] :=
  ⟨by simp, fun place _ _ => ⟨place, [], rfl, rfl⟩⟩

private theorem LexesTo.append (front : LexesTo first lexemes) (behind : LexesTo second others) :
    LexesTo (first ++ second) (lexemes ++ others) := by
  refine ⟨head?_append_ne front.head behind.head, fun place rest mark => ?_⟩
  obtain ⟨middle, entries, read, rfl⟩ :=
    front.readFrom place (second ++ rest) (head?_append_ne behind.head mark)
  obtain ⟨last, more, alsoRead, rfl⟩ := behind.readFrom middle rest mark
  refine ⟨last, entries ++ more, ?_, List.map_append⟩
  rw [List.append_assoc, read, alsoRead, List.append_assoc]

private theorem lexesTo_flatMap {α : Type} {items : List α} {written : α → List Char}
    {read : α → List Lexeme} (each : ∀ item ∈ items, LexesTo (written item) (read item)) :
    LexesTo (items.flatMap written) (items.flatMap read) := by
  induction items with
  | nil => exact lexesTo_nil
  | cons item items ih =>
    rw [List.flatMap_cons, List.flatMap_cons]
    exact (each item (by simp)).append (ih fun other member => each other (by simp [member]))

/-- A literal character is read by itself; a question mark behind it would change what an
operator means. -/
theorem lexesTo_escape (char : Char) : LexesTo (escape [char]) [literalLexeme char] := by
  refine ⟨head?_escape [char], fun place rest mark => ?_⟩
  by_cases opened : char = '('
  · subst opened
    have single : Lexeme.head '(' rest = (.openCapture, 0) := by
      cases rest with
      | nil => rfl
      | cons next rest =>
        have different : next ≠ '?' := by simpa using mark
        simp [Lexeme.head, different]
    refine ⟨place + 1, [(place, .openCapture)], ?_, rfl⟩
    show Lexeme.readFrom place 0 ('(' :: rest) = _
    rw [Lexeme.readFrom, single]
    rfl
  · by_cases closed : char = ')'
    · subst closed
      exact ⟨place + 1, [(place, .close)], rfl, rfl⟩
    · by_cases star : char = '*'
      · subst star
        have single : Lexeme.head '*' rest = (.times .greedy, 0) := by
          simp [Lexeme.head, mark]
        refine ⟨place + 1, [(place, .times .greedy)], ?_, rfl⟩
        show Lexeme.readFrom place 0 ('*' :: rest) = _
        rw [Lexeme.readFrom, single]
        rfl
      · obtain ⟨behind, read⟩ := readFrom_literal place rest opened closed star
        exact ⟨behind, [(place, .one (.only char))], read,
          by simp [literalLexeme, opened, closed, star]⟩

private theorem lexesTo_capture (kind : Kind) : LexesTo kind.capture kind.lexemes := by
  cases kind with
  | named =>
    exact ⟨by decide, fun place rest _ => ⟨place + 1 + 1 + 1 + 1 + 1 + 1 + 1 + 1,
      [(place, .openCapture), (place + 1, .one (.noneOf ['/', '?'])),
        (place + 1 + 1 + 1 + 1 + 1 + 1, .times .atLeastOnce),
        (place + 1 + 1 + 1 + 1 + 1 + 1 + 1, .close)], rfl, rfl⟩⟩
  | splat =>
    exact ⟨by decide, fun place rest _ => ⟨place + 1 + 1 + 1 + 1 + 1 + 1 + 1 + 1,
      [(place, .openCapture), (place + 1, .one (.noneOf ['?'])),
        (place + 1 + 1 + 1 + 1 + 1, .times .reluctant),
        (place + 1 + 1 + 1 + 1 + 1 + 1 + 1, .close)], rfl, rfl⟩⟩

private theorem lexesTo_opening : LexesTo "(?:".toList [.openPlain] :=
  ⟨by decide, fun place _ _ => ⟨place + 1 + 1 + 1, [(place, .openPlain)], rfl, rfl⟩⟩

private theorem lexesTo_ending : LexesTo ")?".toList [.close, .times .atMostOnce] :=
  ⟨by decide, fun place _ _ =>
    ⟨place + 1 + 1, [(place, .close), (place + 1, .times .atMostOnce)], rfl, rfl⟩⟩

private theorem lexesTo_part (part : Part) : LexesTo part.source part.lexemes := by
  cases part with
  | literal char => exact lexesTo_escape char
  | slot kind name => exact lexesTo_capture kind

private theorem lexesTo_segment (segment : Segment) : LexesTo segment.source segment.lexemes := by
  cases segment with
  | single part => exact lexesTo_part part
  | group inner =>
    have parts : LexesTo (inner.flatMap Part.source) (inner.flatMap Part.lexemes) :=
      lexesTo_flatMap fun part _ => lexesTo_part part
    exact (lexesTo_opening.append parts).append lexesTo_ending

theorem lexesTo_outline (pattern : List Char) :
    LexesTo ((outline pattern).flatMap Segment.source)
      ((outline pattern).flatMap Segment.lexemes) :=
  lexesTo_flatMap fun segment _ => lexesTo_segment segment

end Texts

/-- The expression of a pattern is read as the beginning of the text, what its segments are read
as, the query and the end of the text. -/
theorem lexemes_source (pattern : List Char) :
    (Lexeme.read (source pattern)).map Prod.snd =
      .start :: ((outline pattern).flatMap Segment.lexemes ++ closingLexemes) := by
  obtain ⟨behind, entries, read, lexemes⟩ :=
    (lexesTo_outline pattern).readFrom (0 + 1) (queryCapture ++ "\\Z".toList) (by decide)
  have anchored : Lexeme.read (source pattern) =
      (0, .start) :: Lexeme.readFrom (0 + 1) 0
        ((outline pattern).flatMap Segment.source ++ (queryCapture ++ "\\Z".toList)) := by
    rw [source_eq_outline, ← List.append_assoc]
    rfl
  rw [anchored, read, List.map_cons, List.map_append, lexemes]
  rfl

end RoutePattern.Pattern
