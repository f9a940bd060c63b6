import RoutePattern.Proofs.Rendering
import RoutePattern.Proofs.Translation

/-! Which patterns compile, said of the pattern itself: its parentheses are balanced, and every
asterisk without a name has something in front of it that can be repeated. For the proof each
character of a pattern is marked with what matters of its surroundings, whether it is an asterisk
without a name and whether a group ends with it; what stands in front of an asterisk is then the
mark before it. -/
namespace RoutePattern.Pattern
open Text

/-- An asterisk stands at this place, and no name behind it. -/
def BareAt (pattern : List Char) (place : Nat) : Prop :=
  pattern[place]? = some '*' ∧ ∀ char, pattern[place + 1]? = some char → isWord char = false

/-- Nothing that could be repeated stands directly in front of a place: only the beginning of the
pattern, an opening parenthesis, another asterisk without a name, or the end of a group. -/
inductive Unrepeatable (pattern : List Char) : Nat → Prop where
  | start : Unrepeatable pattern 0
  | opened {place : Nat} (here : pattern[place]? = some '(') : Unrepeatable pattern (place + 1)
  | repeated {place : Nat} (here : BareAt pattern place) : Unrepeatable pattern (place + 1)
  | ended {group : Occurrence} (listed : group ∈ groups pattern) : Unrepeatable pattern group.stop

/-- Behind so many open parentheses every closing one has an opening one to close, and none is
left open. Parentheses may be nested. -/
structure Balanced (opened : Nat) (text : List Char) : Prop where
  closes : ∀ front, front <+: text → front.count ')' ≤ opened + front.count '('
  closed : text.count ')' = opened + text.count '('

/-- A pattern that is written as an expression. -/
structure Compilable (pattern : List Char) : Prop where
  balanced : Balanced 0 pattern
  placed : ∀ place, BareAt pattern place → ¬ Unrepeatable pattern place

/-- A character of a pattern: an asterisk without a name, the end of a group, or any other one. -/
inductive Mark where
  | plain (char : Char)
  | star
  | ending
deriving DecidableEq, Repr

/-- The character that is marked. -/
def Mark.char : Mark → Char
  | .plain char => char
  | .star => '*'
  | .ending => ')'

/-- Can what ends with this character be repeated? -/
def Mark.repeatable : Mark → Bool
  | .plain char => char != '('
  | .star => false
  | .ending => false

/-- The characters of a part. -/
def Part.marks : Part → List Mark
  | .literal char => [if char == '*' then .star else .plain char]
  | .slot kind name => (kind.sigil :: name).map Mark.plain

/-- The characters of a segment. -/
def Segment.marks : Segment → List Mark
  | .single part => part.marks
  | .group inner => .plain '(' :: (inner.flatMap Part.marks ++ [.ending])

/-- The characters of a pattern. -/
def marks (pattern : List Char) : List Mark := (outline pattern).flatMap Segment.marks

/-- Does every asterisk without a name stand behind something that can be repeated? `ready` tells
whether that is so of what stands in front of the first character. -/
def Placed (ready : Bool) : List Mark → Prop
  | [] => True
  | mark :: rest => (mark = .star → ready = true) ∧ Placed mark.repeatable rest

/-- At which characters of a text an asterisk without a name stands. -/
def bareStars : List Char → List Bool
  | [] => []
  | char :: rest => (char == '*' && (word rest).isEmpty) :: bareStars rest

/-- Which characters of a piece end an occurrence. -/
def endsOf : Piece → List Bool
  | .plain _ => [false]
  | .found text => List.replicate (text.length - 1) false ++ [true]

section Balance
variable {opened next : Nat} {char : Char} {rest : List Char}

theorem balanced_nil_iff : Balanced opened [] ↔ opened = 0 := by
  constructor
  · intro balanced
    simpa using balanced.closed.symm
  · rintro rfl
    exact ⟨fun front inside => by simp [List.prefix_nil.mp inside], rfl⟩

/-- A parenthesis that can be opened or closed changes only how many are open behind it. -/
theorem balanced_cons_iff (shift : opened + [char].count '(' = next + [char].count ')') :
    Balanced opened (char :: rest) ↔ Balanced next rest := by
  have counted (sign : Char) (text : List Char) :
      (char :: text).count sign = [char].count sign + text.count sign :=
    @List.count_append _ _ sign [char] text
  have opens := counted '('
  have shuts := counted ')'
  constructor
  · rintro ⟨closes, closed⟩
    refine ⟨fun front inside => ?_, ?_⟩
    · have bound := closes (char :: front) (List.cons_prefix_cons.mpr ⟨rfl, inside⟩)
      specialize opens front
      specialize shuts front
      omega
    · specialize opens rest
      specialize shuts rest
      omega
  · rintro ⟨closes, closed⟩
    refine ⟨fun front inside => ?_, ?_⟩
    · rcases List.prefix_cons_iff.mp inside with rfl | ⟨tail, rfl, within⟩
      · simp
      · have bound := closes tail within
        specialize opens tail
        specialize shuts tail
        omega
    · specialize opens rest
      specialize shuts rest
      omega

theorem balanced_open_iff :
    Balanced opened ('(' :: rest) ↔ Balanced (opened + 1) rest :=
  balanced_cons_iff (by simp)

theorem balanced_close_iff :
    Balanced (opened + 1) (')' :: rest) ↔ Balanced opened rest :=
  balanced_cons_iff (by simp)

theorem balanced_other_iff (opening : char ≠ '(') (closing : char ≠ ')') :
    Balanced opened (char :: rest) ↔ Balanced opened rest :=
  balanced_cons_iff (by simp [opening, closing])

theorem not_balanced_close : ¬ Balanced 0 (')' :: rest) := by
  rintro ⟨closes, _⟩
  have bound := closes [')'] (List.prefix_append [')'] rest)
  simp at bound

end Balance

section Stars
variable {name rest : List Char} {place : Nat}

private theorem bareAt_iff (pattern : List Char) (place : Nat) :
    BareAt pattern place ↔ (bareStars pattern)[place]? = some true := by
  induction pattern generalizing place with
  | nil => simp [BareAt, bareStars]
  | cons char rest ih =>
    cases place with
    | succ place => exact ih place
    | zero => cases rest <;> simp [BareAt, bareStars, word, List.takeWhile_cons]

private theorem bareStars_word (word : ∀ char ∈ name, isWord char = true) :
    bareStars (name ++ rest) = name.map (fun _ => false) ++ bareStars rest := by
  induction name with
  | nil => rfl
  | cons char name ih =>
    have other : char ≠ '*' := (isWord_plain (word char (by simp))).2.2
    simp [bareStars, other, ih fun later member => word later (by simp [member])]

private theorem map_star_plain (text : List Char) :
    (text.map Mark.plain).map (· == Mark.star) = text.map fun _ => false := by
  rw [List.map_map]
  rfl

private theorem bareStars_slot (kind : Kind) (present : name ≠ [])
    (word : ∀ char ∈ name, isWord char = true) :
    bareStars (kind.sigil :: (name ++ rest)) =
      (Part.slot kind name).marks.map (· == Mark.star) ++ bareStars rest := by
  have named : (Text.word (name ++ rest)).isEmpty = false := by
    cases name with
    | nil => exact absurd rfl present
    | cons first name => simp [Text.word, word first (by simp)]
  rw [Part.marks, map_star_plain, bareStars, named, Bool.and_false, bareStars_word word]
  rfl

private theorem bareStars_literal {char : Char} (ended : char = '*' → word rest = []) :
    bareStars (char :: rest) =
      (Part.literal char).marks.map (· == Mark.star) ++ bareStars rest := by
  by_cases star : char = '*'
  · simp [bareStars, Part.marks, star, ended star]
  · have other : (char == '*') = false := by simpa using star
    rw [bareStars, Part.marks, other]
    rfl

/-- The asterisks without a name that stand within a text, whatever follows it. -/
theorem bareStars_parts (text : List Char) (ended : word rest = []) :
    bareStars (text ++ rest) =
      ((parts text).flatMap Part.marks).map (· == Mark.star) ++ bareStars rest := by
  induction text using parts_induction with
  | nil => rfl
  | slot kind name behind present word none ih =>
    rw [parts_slot kind present word none, List.cons_append, List.append_assoc,
      bareStars_slot kind present word, ih, List.flatMap_cons, List.map_append, List.append_assoc]
  | literal char behind none ih =>
    have closed (star : char = '*') : word (behind ++ rest) = [] :=
      word_append_of_ended ended (word_eq_nil_of_slotLength none .splat star)
    rw [parts_literal none, List.cons_append, bareStars_literal closed, ih, List.flatMap_cons,
      List.map_append, List.append_assoc]

private theorem map_star_marks (pattern : List Char) :
    (marks pattern).map (· == Mark.star) = bareStars pattern := by
  induction pattern using outline_induction with
  | nil => rfl
  | group inner rest inside ih =>
    have opening : bareStars ('(' :: (inner ++ ')' :: rest)) =
        false :: bareStars (inner ++ ')' :: rest) := rfl
    have closing : bareStars (')' :: rest) = false :: bareStars rest := rfl
    rw [opening, bareStars_parts inner (word_cons_of_not (by decide)), closing, ← ih, marks,
      outline_group inside, List.flatMap_cons, Segment.marks]
    simp [marks]
  | slot kind name rest present word ended ih =>
    rw [bareStars_slot kind present word, ← ih, marks, outline_slot kind present word ended,
      List.flatMap_cons, List.map_append]
    rfl
  | literal char rest outside none ih =>
    rw [bareStars_literal (word_eq_nil_of_slotLength none .splat), ← ih, marks,
      outline_literal outside none, List.flatMap_cons, List.map_append]
    rfl

/-- The asterisks that are marked are those without a name. -/
theorem star_mark_iff {pattern : List Char} {place : Nat} :
    (marks pattern)[place]? = some .star ↔ BareAt pattern place := by
  rw [bareAt_iff, ← map_star_marks, List.getElem?_map, Option.map_eq_some_iff]
  simp

end Stars

section Characters

theorem map_char_marks (pattern : List Char) : (marks pattern).map Mark.char = pattern := by
  have literal (char : Char) : (Part.literal char).marks.map Mark.char = [char] := by
    by_cases star : char = '*' <;> simp [Part.marks, Mark.char, star]
  have part (part : Part) : part.marks.map Mark.char = part.text := by
    cases part with
    | literal char => exact literal char
    | slot kind name => simp [Part.marks, Part.text, Mark.char, Function.comp_def]
  have segment (segment : Segment) : segment.marks.map Mark.char = segment.text := by
    cases segment with
    | single one => exact part one
    | group inner => simp [Segment.marks, Segment.text, Mark.char, List.map_flatMap, part]
  rw [marks, List.map_flatMap, funext segment, text_outline]

private theorem plain_mark_iff {pattern : List Char} {place : Nat} :
    (marks pattern)[place]? = some (.plain '(') ↔ pattern[place]? = some '(' := by
  have opens (mark : Mark) : mark.char = '(' ↔ mark = .plain '(' := by
    cases mark <;> simp [Mark.char]
  conv_rhs => rw [← map_char_marks pattern, List.getElem?_map, Option.map_eq_some_iff]
  simp [opens]

end Characters

section Endings
variable {place : Nat} {cut : List Piece}

private theorem length_endsOf_found {text : List Char} (nonempty : 0 < text.length) :
    (endsOf (.found text)).length = text.length := by
  simp only [endsOf, List.length_append, List.length_replicate, List.length_singleton]
  omega

/-- An occurrence ends with its last character. -/
theorem getElem?_endsOf_iff {text : List Char} {index : Nat} (within : index < text.length) :
    (endsOf (.found text))[index]? = some true ↔ index + 1 = text.length := by
  rw [endsOf]
  by_cases last : index = text.length - 1
  · subst last
    simp
    omega
  · have early : index < text.length - 1 := by omega
    simp [List.getElem?_append_left, early]
    omega

/-- The places behind occurrences are those behind the characters that end one. -/
theorem exists_stop_iff (proper : Proper cut) (place index : Nat) :
    (∃ found ∈ locate place cut, found.stop = place + (index + 1)) ↔
      (cut.flatMap endsOf)[index]? = some true := by
  induction cut generalizing place index with
  | nil => simp [locate]
  | cons piece cut ih =>
    have later := proper.tail
    cases piece with
    | plain char =>
      cases index with
      | zero =>
        have none : ¬ ∃ found ∈ locate (place + 1) cut, found.stop = place + (0 + 1) := by
          rintro ⟨found, member, stop⟩
          have bounds := locate_bounds later member
          omega
        simpa [locate, endsOf] using none
      | succ index =>
        have same := ih later (place + 1) index
        rw [show place + 1 + (index + 1) = place + (index + 1 + 1) by omega] at same
        simpa [locate, endsOf] using same
    | found text =>
      have positive : 0 < text.length := List.length_pos_iff.mpr (proper text (by simp))
      have width := length_endsOf_found positive
      have behind {found : Occurrence} (member : found ∈ locate (place + text.length) cut) :
          place + text.length < found.stop := by
        have bounds := locate_bounds later member
        omega
      simp only [locate, List.flatMap_cons, List.mem_cons, exists_eq_or_imp]
      by_cases within : index < text.length
      · -- Only this occurrence can end here, and it does so with its last character.
        have none : ¬ ∃ found ∈ locate (place + text.length) cut,
            found.stop = place + (index + 1) := by
          rintro ⟨found, member, stop⟩
          have bound := behind member
          omega
        rw [List.getElem?_append_left (width ▸ within), or_iff_left none,
          getElem?_endsOf_iff within]
        simp only [Occurrence.stop]
        omega
      · have here : ¬ Occurrence.stop ⟨place, text⟩ = place + (index + 1) := by
          simp only [Occurrence.stop]
          omega
        have same := ih later (place + text.length) (index - text.length)
        rw [show place + text.length + (index - text.length + 1) = place + (index + 1) by omega]
          at same
        rw [List.getElem?_append_right (by omega), width, or_iff_right here, same]

private theorem flatMap_endsOf_plain (text : List Char) :
    (text.map Piece.plain).flatMap endsOf = text.map fun _ => false := by
  rw [List.flatMap_map, List.map_eq_flatMap]
  rfl

/-- No group ends within a part. -/
theorem map_ending_part (part : Part) :
    part.marks.map (· == Mark.ending) = part.text.map fun _ => false := by
  cases part with
  | literal char => by_cases star : char = '*' <;> simp [Part.marks, Part.text, star]
  | slot kind name =>
    rw [Part.marks, List.map_map]
    rfl

private theorem map_ending_parts (text : List Char) :
    ((parts text).flatMap Part.marks).map (· == Mark.ending) = text.map fun _ => false := by
  rw [List.map_flatMap, funext map_ending_part, ← List.map_flatMap, text_parts]

private theorem map_ending_marks (pattern : List Char) :
    (marks pattern).map (· == Mark.ending) = (pieces groupLength pattern).flatMap endsOf := by
  induction pattern using outline_induction with
  | nil => rfl
  | group inner rest inside ih =>
    have within : ((parts inner).flatMap Part.marks).map (· == Mark.ending) =
        List.replicate inner.length false := by
      rw [map_ending_parts, List.map_const']
    rw [pieces_group inside, List.flatMap_cons, ← ih, marks, outline_group inside,
      List.flatMap_cons, Segment.marks, List.map_append, List.map_cons, List.map_append, within]
    simp [endsOf, List.replicate_succ, marks]
  | slot kind name rest present word ended ih =>
    have plain : ∀ char ∈ kind.sigil :: name, ∀ behind, groupLength (char :: behind) = 0 :=
      fun char member behind => groupLength_of_ne (slot_ne_parenthesis kind word char member).1
    have cut : pieces groupLength (kind.sigil :: (name ++ rest)) =
        (kind.sigil :: name).map Piece.plain ++ pieces groupLength rest :=
      pieces_append_of_plain plain
    rw [cut, List.flatMap_append, flatMap_endsOf_plain, ← ih, marks,
      outline_slot kind present word ended, List.flatMap_cons, List.map_append]
    exact congrArg (· ++ _) (map_ending_part (.slot kind name))
  | literal char rest outside none ih =>
    rw [pieces_cons_plain outside, List.flatMap_cons, ← ih, marks, outline_literal outside none,
      List.flatMap_cons, List.map_append]
    exact congrArg (· ++ _) (map_ending_part (.literal char))

/-- The ends of groups that are marked are those of the groups of the pattern. -/
theorem ending_mark_iff {pattern : List Char} {place : Nat} :
    (marks pattern)[place]? = some .ending ↔
      ∃ group ∈ groups pattern, group.stop = place + 1 := by
  have stops := exists_stop_iff (proper_pieces groupLength pattern) 0 place
  rw [Nat.zero_add] at stops
  rw [groups, occurrences, stops, ← map_ending_marks, List.getElem?_map, Option.map_eq_some_iff]
  simp

end Endings

section Placement

/-- Of two characters in a row, the first one has to be repeatable if the second one is an
asterisk without a name. -/
theorem placed_iff {ready : Bool} {row : List Mark} :
    Placed ready row ↔ (row[0]? = some .star → ready = true) ∧
      ∀ index mark, row[index]? = some mark → row[index + 1]? = some .star →
        mark.repeatable = true := by
  induction row generalizing ready with
  | nil => simp [Placed]
  | cons first rest ih =>
    rw [Placed, ih]
    constructor
    · rintro ⟨here, next, later⟩
      refine ⟨fun same => here (Option.some_inj.mp same), fun index mark found star => ?_⟩
      cases index with
      | zero =>
        cases found
        exact next star
      | succ index => exact later index mark found star
    · rintro ⟨here, later⟩
      exact ⟨fun same => here (congrArg some same), later 0 first rfl,
        fun index mark found star => later (index + 1) mark found star⟩

/-- What stands in front of a place can be told from the mark there. -/
theorem unrepeatable_iff {pattern : List Char} {place : Nat} :
    Unrepeatable pattern place ↔ place = 0 ∨ ∃ index mark, place = index + 1 ∧
      (marks pattern)[index]? = some mark ∧ mark.repeatable = false := by
  constructor
  · intro front
    cases front with
    | start => exact .inl rfl
    | opened here => exact .inr ⟨_, .plain '(', rfl, plain_mark_iff.mpr here, rfl⟩
    | repeated here => exact .inr ⟨_, .star, rfl, star_mark_iff.mpr here, rfl⟩
    | @ended group listed =>
      have bounds := locate_bounds (proper_pieces groupLength pattern) listed
      have stop : group.stop = group.stop - 1 + 1 := by omega
      exact .inr ⟨group.stop - 1, .ending, stop, ending_mark_iff.mpr ⟨group, listed, stop⟩, rfl⟩
  · rintro (rfl | ⟨index, mark, rfl, found, front⟩)
    · exact .start
    · cases mark with
      | plain char =>
        have opening : char = '(' := by simpa [Mark.repeatable] using front
        exact .opened (plain_mark_iff.mp (opening ▸ found))
      | star => exact .repeated (star_mark_iff.mp found)
      | ending =>
        obtain ⟨group, listed, stop⟩ := ending_mark_iff.mp found
        exact stop ▸ .ended listed

/-- Where the asterisks without a name stand is told by the marks. -/
theorem placed_marks_iff {pattern : List Char} :
    Placed false (marks pattern) ↔
      ∀ place, BareAt pattern place → ¬ Unrepeatable pattern place := by
  rw [placed_iff]
  constructor
  · rintro ⟨here, later⟩ place bare front
    have star := star_mark_iff.mpr bare
    rcases unrepeatable_iff.mp front with rfl | ⟨index, mark, rfl, found, spent⟩
    · cases here star
    · rw [later index mark found star] at spent
      cases spent
  · intro placed
    refine ⟨fun star => absurd .start (placed 0 (star_mark_iff.mp star)),
      fun index mark found star => ?_⟩
    by_contra spent
    exact placed (index + 1) (star_mark_iff.mp star) (unrepeatable_iff.mpr
      (.inr ⟨index, mark, rfl, found, Bool.eq_false_iff.mpr spent⟩))

end Placement

end RoutePattern.Pattern
