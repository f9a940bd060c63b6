import RoutePattern.Pattern.Source
import RoutePattern.Proofs.Outline

/-! The expression of a pattern, which is written in four steps, each reading what the
one before it has written, is the outline written out once. No step takes for a slot or
for a group what an earlier one has put in, and none loses what is there. -/
namespace RoutePattern.Pattern
open Text

/-- The capture that a slot becomes. -/
def Kind.capture : Kind → List Char
  | .named => namedCapture
  | .splat => splatCapture

/-- A part as it is written in an expression. -/
def Part.source : Part → List Char
  | .literal char => escape [char]
  | .slot kind _ => kind.capture

/-- A segment as it is written in an expression. -/
def Segment.source : Segment → List Char
  | .single part => part.source
  | .group inner => "(?:".toList ++ inner.flatMap Part.source ++ ")?".toList

section Escape
variable {char : Char} {name rest : List Char}

@[simp] theorem escape_nil : escape [] = [] := rfl

private theorem escape_append (first second : List Char) :
    escape (first ++ second) = escape first ++ escape second := by
  simp [escape]

theorem escape_cons (char : Char) (rest : List Char) :
    escape (char :: rest) = escape [char] ++ escape rest :=
  escape_append [char] rest

theorem escape_of_special (special : isSpecial char = true) : escape [char] = ['\\', char] := by
  simp [escape, special]

theorem escape_of_not_special (plain : isSpecial char = false) : escape [char] = [char] := by
  simp [escape, plain]

private theorem not_special_of_isWord (accepted : isWord char = true) : isSpecial char = false := by
  have range : ∀ n < 128, isWord (Char.ofNat n) = true → isSpecial (Char.ofNat n) = false := by
    decide
  have here : isWord char = true → isSpecial char = false :=
    of_ascii char (lt_of_isWord accepted) range
  exact here accepted

private theorem escape_name (word : ∀ char ∈ name, isWord char = true) : escape name = name := by
  induction name with
  | nil => rfl
  | cons char name ih =>
    rw [escape_cons, escape_of_not_special (not_special_of_isWord (word char (by simp))),
      ih fun other member => word other (by simp [member])]
    rfl

theorem escape_slot (kind : Kind) (word : ∀ char ∈ name, isWord char = true) :
    escape (kind.sigil :: (name ++ rest)) = kind.sigil :: (name ++ escape rest) := by
  have sigil : isSpecial kind.sigil = false := by cases kind <;> decide
  rw [escape_cons, escape_append, escape_name word, escape_of_not_special sigil]
  rfl

/-- What an escaped text consists of is in the text, backslashes aside. -/
theorem mem_escape (member : char ∈ escape text) : char = '\\' ∨ char ∈ text := by
  simp only [escape, List.mem_flatMap] at member
  obtain ⟨other, inside, member⟩ := member
  split at member
  · simp only [List.mem_cons, List.not_mem_nil, or_false] at member
    rcases member with rfl | rfl
    · exact .inl rfl
    · exact .inr inside
  · rw [List.mem_singleton] at member
    subst member
    exact .inr inside

theorem escape_body (inside : ∀ char ∈ name, inBody char = true) :
    ∀ char ∈ escape name, inBody char = true := by
  intro char member
  rcases mem_escape member with rfl | member
  · decide
  · exact inside char member

/-- Escaping changes neither where the body of a group ends nor with what. -/
theorem head?_dropWhile_escape (text : List Char) :
    ((escape text).dropWhile inBody).head? = (text.dropWhile inBody).head? := by
  induction text with
  | nil => rfl
  | cons char text ih =>
    rw [escape_cons]
    by_cases special : isSpecial char = true
    · have backslash : inBody '\\' = true := by decide
      rw [escape_of_special special]
      by_cases within : inBody char = true
      · simpa [backslash, within] using ih
      · simp [backslash, within]
    · rw [escape_of_not_special (by simpa using special)]
      by_cases within : inBody char = true
      · simpa [within] using ih
      · simp [within]

theorem groupLength_open_eq_zero_iff :
    groupLength ('(' :: rest) = 0 ↔ (rest.dropWhile inBody).head? ≠ some ')' := by
  simp only [groupLength]
  split
  · rename_i ended
    simp [ended]
  · rename_i ended
    refine ⟨fun _ head => ?_, fun _ => rfl⟩
    obtain ⟨behind, same⟩ := List.head?_eq_some_iff.mp head
    exact ended behind same

private theorem groupLength_escape (outside : groupLength ('(' :: rest) = 0) :
    groupLength ('(' :: escape rest) = 0 := by
  rw [groupLength_open_eq_zero_iff] at outside ⊢
  rwa [head?_dropWhile_escape]

end Escape

section Steps
variable {char : Char} {name rest inner : List Char}

theorem word_escape (ended : word rest = []) : word (escape rest) = [] := by
  cases rest with
  | nil => rfl
  | cons char rest =>
    rw [escape_cons]
    by_cases special : isSpecial char = true
    · rw [escape_of_special special]
      exact word_cons_of_not (by decide)
    · rw [escape_of_not_special (by simpa using special)]
      by_cases accepted : isWord char = true
      · simp [word, accepted] at ended
      · exact word_cons_of_not (by simpa using accepted)

/-- No word appears at the head of a text if what is put in begins with none. -/
theorem word_replace (change : List Char → List Char)
    (fresh : ∀ found behind, word (change found ++ behind) = []) (ended : word rest = []) :
    word (replace finder change rest) = [] := by
  cases rest with
  | nil => rfl
  | cons char rest =>
    cases found : finder (char :: rest) with
    | zero =>
      rw [replace_cons_plain found]
      by_cases accepted : isWord char = true
      · simp [word, accepted] at ended
      · exact word_cons_of_not (by simpa using accepted)
    | succ more =>
      rw [replace, pieces_cons_found found, List.flatMap_cons]
      exact fresh _ _

theorem word_openGroups (ended : word rest = []) : word (openGroups rest) = [] :=
  word_replace _ (fun _ _ => word_cons_of_not (by decide)) ended

theorem word_captureNamed (ended : word rest = []) : word (captureNamed rest) = [] := by
  refine word_replace _ (fun found behind => ?_) ended
  split
  · rename_i marked
    simp only [isMarked, beq_iff_eq] at marked
    obtain ⟨more, rfl⟩ := List.head?_eq_some_iff.mp marked
    exact word_cons_of_not (by decide)
  · exact word_cons_of_not (by decide)

private theorem openGroups_group (inside : ∀ char ∈ inner, inBody char = true) :
    openGroups ('(' :: (inner ++ ')' :: rest)) =
      "(?:".toList ++ inner ++ ")?".toList ++ openGroups rest := by
  have whole : '(' :: (inner ++ ')' :: rest) = ('(' :: (inner ++ [')'])) ++ rest := by simp
  have exact : groupLength (('(' :: (inner ++ [')'])) ++ rest) =
      ('(' :: (inner ++ [')'])).length := by
    simp [groupLength_group inside]
  have unwrapped : body ('(' :: (inner ++ [')'])) = inner := by simp [body]
  rw [openGroups, whole, replace_found (List.cons_ne_nil _ _) exact, unwrapped, openGroups]

private theorem openGroups_append (rest : List Char) (outside : ∀ char ∈ name, char ≠ '(') :
    openGroups (name ++ rest) = name ++ openGroups rest :=
  replace_append_of_plain fun char member _ => groupLength_of_ne (outside char member)

private theorem openGroups_cons (outside : groupLength (char :: rest) = 0) :
    openGroups (char :: rest) = char :: openGroups rest :=
  replace_cons_plain outside

theorem captureNamed_append (rest : List Char) (plain : ∀ char ∈ name, char ≠ ':' ∧ char ≠ '(') :
    captureNamed (name ++ rest) = name ++ captureNamed rest :=
  replace_append_of_plain fun char member _ =>
    namedLength_of_ne (plain char member).1 (plain char member).2

private theorem captureSplats_append (rest : List Char) (plain : ∀ char ∈ name, char ≠ '*') :
    captureSplats (name ++ rest) = name ++ captureSplats rest :=
  replace_append_of_plain fun char member _ => splatLength_of_ne (plain char member)

theorem captureNamed_slot (present : name ≠ []) (word : ∀ char ∈ name, isWord char = true)
    (ended : Text.word rest = []) :
    captureNamed (':' :: (name ++ rest)) = namedCapture ++ captureNamed rest := by
  have exact : namedLength (':' :: name ++ rest) = (':' :: name).length := by
    simp [namedLength, lengthWithName_append 1 present word ended, Nat.add_comm]
  exact replace_found (List.cons_ne_nil _ _) exact

private theorem captureSplats_slot (present : name ≠ []) (word : ∀ char ∈ name, isWord char = true)
    (ended : Text.word rest = []) :
    captureSplats ('*' :: (name ++ rest)) = splatCapture ++ captureSplats rest := by
  have exact : splatLength ('*' :: name ++ rest) = ('*' :: name).length := by
    simp [splatLength, lengthWithName_append 1 present word ended, Nat.add_comm]
  exact replace_found (List.cons_ne_nil _ _) exact

theorem isWord_plain (accepted : isWord char = true) : char ≠ ':' ∧ char ≠ '(' ∧ char ≠ '*' := by
  refine ⟨?_, ?_, ?_⟩ <;> rintro rfl <;> simp [isWord] at accepted

/-- No character of a splat slot can begin a named token. -/
theorem splat_plain (word : ∀ char ∈ name, isWord char = true) :
    ∀ char ∈ '*' :: name, char ≠ ':' ∧ char ≠ '(' := by
  intro char member
  rcases List.mem_cons.mp member with rfl | member
  · decide
  · exact ⟨(isWord_plain (word char member)).1, (isWord_plain (word char member)).2.1⟩

/-- Where no word stands behind it the opening of a group is cut into its characters. -/
theorem pieces_opening (ended : word rest = []) :
    pieces namedLength ("(?:".toList ++ rest) =
      "(?:".toList.map Piece.plain ++ pieces namedLength rest := by
  have opening : namedLength ('(' :: '?' :: ':' :: rest) = 0 :=
    (lengthWithName_eq_zero_iff (by decide)).mpr ended
  have mark : namedLength ('?' :: ':' :: rest) = 0 := namedLength_of_ne (by decide) (by decide)
  have colon : namedLength (':' :: rest) = 0 := (lengthWithName_eq_zero_iff Nat.one_pos).mpr ended
  show pieces namedLength ('(' :: '?' :: ':' :: rest) = _
  rw [pieces_cons_plain opening, pieces_cons_plain mark, pieces_cons_plain colon]
  rfl

/-- A word behind the opening of a group is cut together with it. -/
theorem pieces_opening_word (present : name ≠ []) (word : ∀ char ∈ name, isWord char = true)
    (ended : Text.word rest = []) :
    pieces namedLength ("(?:".toList ++ (name ++ rest)) =
      .found ("(?:".toList ++ name) :: pieces namedLength rest := by
  have exact : namedLength ("(?:".toList ++ name ++ rest) = ("(?:".toList ++ name).length := by
    show lengthWithName 3 (name ++ rest) = _
    rw [lengthWithName_append 3 present word ended, List.length_append]
    rfl
  rw [← List.append_assoc]
  exact pieces_found (List.append_ne_nil_of_right_ne_nil _ present) exact

/-- Behind the opening of a group a word is literal text, and everything else is read as
if the opening were not there. -/
theorem captureNamed_opening (rest : List Char) :
    captureNamed ("(?:".toList ++ rest) = "(?:".toList ++ captureNamed rest := by
  by_cases ended : word rest = []
  · exact replace_of_pieces (pieces_opening ended)
  · have accepted : ∀ char ∈ word rest, isWord char = true :=
      fun char member => isWord_of_mem_word member
    have split : word rest ++ rest.dropWhile isWord = rest := List.takeWhile_append_dropWhile
    have behind := word_dropWhile rest
    have kept : captureNamed (word rest ++ rest.dropWhile isWord) =
        word rest ++ captureNamed (rest.dropWhile isWord) :=
      captureNamed_append _ fun char member =>
        ⟨(isWord_plain (accepted char member)).1, (isWord_plain (accepted char member)).2.1⟩
    rw [← split, kept, captureNamed, replace, pieces_opening_word ended accepted behind]
    rfl

theorem head?_escape (rest : List Char) : (escape rest).head? ≠ some '?' := by
  cases rest with
  | nil => simp
  | cons char rest =>
    rw [escape_cons]
    by_cases special : isSpecial char = true
    · rw [escape_of_special special]
      simp
    · rw [escape_of_not_special (by simpa using special)]
      rintro same
      cases same
      exact special (by decide)

theorem head?_escape_append (text : List Char) (mark : rest.head? ≠ some '?') :
    (escape text ++ rest).head? ≠ some '?' := by
  rw [List.head?_append]
  cases same : (escape text).head? with
  | none => simpa using mark
  | some first =>
    rintro ⟨⟩
    exact head?_escape text same

theorem head?_openGroups (mark : rest.head? ≠ some '?') :
    (openGroups rest).head? ≠ some '?' := by
  cases rest with
  | nil => exact mark
  | cons char rest =>
    by_cases outside : groupLength (char :: rest) = 0
    · rw [openGroups_cons outside]
      exact mark
    · obtain ⟨inner, behind, same, inside⟩ := eq_group_of_groupLength outside
      rw [same, openGroups_group inside]
      simp

/-- The last two steps make one capture of a slot. -/
theorem capture_slot (kind : Kind) (present : name ≠ [])
    (word : ∀ char ∈ name, isWord char = true) (ended : Text.word rest = []) :
    captureSplats (captureNamed (kind.sigil :: (name ++ rest))) =
      kind.capture ++ captureSplats (captureNamed rest) := by
  cases kind with
  | named =>
    have none : '*' ∉ namedCapture := by decide
    rw [Kind.sigil, captureNamed_slot present word ended,
      captureSplats_append _ fun char member same => none (same ▸ member)]
    rfl
  | splat =>
    have kept := captureNamed_append rest (splat_plain word)
    simp only [List.cons_append] at kept
    rw [Kind.sigil, kept, captureSplats_slot present word (word_captureNamed ended)]
    rfl

/-- No named token begins at an escaped character, if no slot begins there. -/
theorem pieces_literal_named (ended : char = ':' → word rest = []) (mark : rest.head? ≠ some '?') :
    pieces namedLength (escape [char] ++ rest) =
      (escape [char]).map Piece.plain ++ pieces namedLength rest := by
  by_cases special : isSpecial char = true
  · rw [escape_of_special special]
    refine pieces_append_of_plain fun other member _ => ?_
    simp only [List.mem_cons, List.not_mem_nil, or_false] at member
    rcases member with rfl | rfl
    · exact namedLength_of_ne (by decide) (by decide)
    · refine namedLength_of_ne ?_ ?_ <;> rintro rfl <;> exact absurd special (by decide)
  · rw [escape_of_not_special (by simpa using special)]
    refine pieces_cons_plain ?_
    by_cases colon : char = ':'
    · subst colon
      exact (lengthWithName_eq_zero_iff Nat.one_pos).mpr (ended rfl)
    · by_cases opened : char = '('
      · subst opened
        exact namedLength_open mark
      · exact namedLength_of_ne colon opened

theorem captureNamed_literal (ended : char = ':' → word rest = [])
    (mark : rest.head? ≠ some '?') :
    captureNamed (escape [char] ++ rest) = escape [char] ++ captureNamed rest :=
  replace_of_pieces (pieces_literal_named ended mark)

/-- No splat token begins at an escaped character, if no slot begins there. -/
theorem pieces_literal_splat (ended : char = '*' → word rest = []) :
    pieces splatLength (escape [char] ++ rest) =
      (escape [char]).map Piece.plain ++ pieces splatLength rest := by
  by_cases star : char = '*'
  · subst star
    exact pieces_cons_plain ((lengthWithName_eq_zero_iff Nat.one_pos).mpr (ended rfl))
  · refine pieces_append_of_plain fun other member _ => splatLength_of_ne ?_
    rcases mem_escape member with rfl | member
    · decide
    · rw [List.mem_singleton] at member
      exact member ▸ star

private theorem captureSplats_literal (ended : char = '*' → word rest = []) :
    captureSplats (escape [char] ++ rest) = escape [char] ++ captureSplats rest :=
  replace_of_pieces (pieces_literal_splat ended)

/-- The last two steps leave an escaped character alone. -/
theorem capture_literal (ended : ∀ kind, char = Kind.sigil kind → word rest = [])
    (mark : rest.head? ≠ some '?') :
    captureSplats (captureNamed (escape [char] ++ rest)) =
      escape [char] ++ captureSplats (captureNamed rest) := by
  rw [captureNamed_literal (ended .named) mark,
    captureSplats_literal fun star => word_captureNamed (ended .splat star)]

theorem word_eq_nil_of_slotLength (none : slotLength (char :: rest) = 0) (kind : Kind)
    (sigil : char = kind.sigil) : word rest = [] := by
  subst sigil
  exact (slotLength_sigil_eq_zero_iff kind).mp none

/-- A text without groups is translated part by part, whatever stands behind it. -/
theorem capture_parts (text rest : List Char) (ended : word rest = [])
    (mark : rest.head? ≠ some '?') :
    captureSplats (captureNamed (escape text ++ rest)) =
      (parts text).flatMap Part.source ++ captureSplats (captureNamed rest) := by
  have word_behind {behind : List Char} (none : word behind = []) :
      word (escape behind ++ rest) = [] :=
    word_append_of_ended ended (word_escape none)
  induction text using parts_induction with
  | nil => rfl
  | slot kind name behind present word none ih =>
    rw [parts_slot kind present word none, escape_slot kind word, List.cons_append,
      List.append_assoc, capture_slot kind present word (word_behind none), ih,
      List.flatMap_cons, List.append_assoc, Part.source]
  | literal char behind none ih =>
    rw [parts_literal none, escape_cons, List.append_assoc,
      capture_literal (fun kind sigil => word_behind (word_eq_nil_of_slotLength none kind sigil))
        (head?_escape_append behind mark), ih, List.flatMap_cons, List.append_assoc, Part.source]

theorem escape_group (inner rest : List Char) :
    escape ('(' :: (inner ++ ')' :: rest)) = '(' :: (escape inner ++ ')' :: escape rest) := by
  rw [escape_cons, escape_append, escape_cons ')']
  rfl

/-- Escaping makes no group begin where none has begun. -/
theorem pieces_literal_group (outside : groupLength (char :: rest) = 0) :
    pieces groupLength (escape [char] ++ escape rest) =
      (escape [char]).map Piece.plain ++ pieces groupLength (escape rest) := by
  by_cases opened : char = '('
  · subst opened
    exact pieces_cons_plain (groupLength_escape outside)
  · refine pieces_append_of_plain fun other member _ => groupLength_of_ne ?_
    rcases mem_escape member with rfl | member
    · decide
    · rw [List.mem_singleton] at member
      exact member ▸ opened

theorem openGroups_literal (outside : groupLength (char :: rest) = 0) :
    openGroups (escape (char :: rest)) = escape [char] ++ openGroups (escape rest) := by
  rw [escape_cons]
  exact replace_of_pieces (pieces_literal_group outside)

theorem openGroups_slot (kind : Kind) (word : ∀ char ∈ name, isWord char = true) :
    openGroups (escape (kind.sigil :: (name ++ rest))) =
      kind.sigil :: (name ++ openGroups (escape rest)) := by
  have outside := slot_ne_parenthesis kind word
  rw [escape_slot kind word]
  exact openGroups_append (escape rest) fun char member => (outside char member).1

theorem openGroups_escape_group (inside : ∀ char ∈ inner, inBody char = true) :
    openGroups (escape ('(' :: (inner ++ ')' :: rest))) =
      "(?:".toList ++ (escape inner ++ (")?".toList ++ openGroups (escape rest))) := by
  rw [escape_group, openGroups_group (escape_body inside), List.append_assoc, List.append_assoc]

/-- All four steps together translate a pattern segment by segment. -/
theorem translate_outline (pattern : List Char) :
    captureSplats (captureNamed (openGroups (escape pattern))) =
      (outline pattern).flatMap Segment.source := by
  induction pattern using outline_induction with
  | nil => rfl
  | group inner rest inside ih =>
    have behind : captureSplats (captureNamed (")?".toList ++ openGroups (escape rest))) =
        ")?".toList ++ captureSplats (captureNamed (openGroups (escape rest))) := by
      rw [captureNamed_append _ (by simp), captureSplats_append _ (by simp)]
    have within := capture_parts inner (")?".toList ++ openGroups (escape rest))
      (word_cons_of_not (by decide)) (by simp)
    rw [outline_group inside, openGroups_escape_group inside, captureNamed_opening,
      captureSplats_append _ (by simp), within, behind, ih, List.flatMap_cons, Segment.source]
    simp only [List.append_assoc]
  | slot kind name rest present word ended ih =>
    rw [outline_slot kind present word ended, openGroups_slot kind word,
      capture_slot kind present word (word_openGroups (word_escape ended)), ih,
      List.flatMap_cons, Segment.source, Part.source]
  | literal char rest outside none ih =>
    have ended (kind : Kind) (sigil : char = kind.sigil) :
        word (openGroups (escape rest)) = [] :=
      word_openGroups (word_escape (word_eq_nil_of_slotLength none kind sigil))
    rw [outline_literal outside none, openGroups_literal outside,
      capture_literal ended (head?_openGroups (head?_escape rest)), ih, List.flatMap_cons,
      Segment.source, Part.source]

/-- The expression of a pattern is its outline, anchored, with the query behind it. -/
theorem source_eq_outline (pattern : List Char) :
    source pattern =
      '^' :: (outline pattern).flatMap Segment.source ++ queryCapture ++ "\\Z".toList := by
  rw [source, translate_outline]

end Steps

end RoutePattern.Pattern
