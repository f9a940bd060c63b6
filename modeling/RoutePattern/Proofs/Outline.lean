import RoutePattern.Proofs.Replacement

/-! The outline of a pattern: its slots, its groups, and the characters that stand for
themselves, read once from left to right. Putting the outline together again gives
the pattern back, so that statements on outlines are statements on patterns. -/
namespace RoutePattern.Pattern
open Text

/-- The sign in front of the name of a slot. -/
def Kind.sigil : Kind → Char
  | .named => ':'
  | .splat => '*'

/-- A character that stands for itself, or a slot that a text is put into. -/
inductive Part where
  | literal (char : Char)
  | slot (kind : Kind) (name : List Char)
deriving DecidableEq, Repr

/-- A part by itself, or the parts within one optional group. -/
inductive Segment where
  | single (part : Part)
  | group (inner : List Part)
deriving DecidableEq, Repr

/-- The length of the slot at the head of a text: a sigil and the longest name behind it. -/
def slotLength : Finder
  | ':' :: rest => lengthWithName 1 rest
  | '*' :: rest => lengthWithName 1 rest
  | _ => 0

/-- A slot is told apart by its sigil; the name is what stands behind it. -/
def Part.ofPiece : Piece → Part
  | .plain char => .literal char
  | .found found => .slot (if found.head? == some '*' then .splat else .named) (found.drop 1)

/-- The parts of a text without groups. -/
def parts (text : List Char) : List Part := (pieces slotLength text).map Part.ofPiece

/-- The length of the group or slot at the head of a text. -/
def unitLength : Finder := fun text =>
  match groupLength text with
  | 0 => slotLength text
  | length => length

/-- Only a group begins with a parenthesis. -/
def Segment.ofPiece : Piece → Segment
  | .plain char => .single (.literal char)
  | .found found =>
    if found.head? == some '(' then .group (parts (body found))
    else .single (Part.ofPiece (.found found))

/-- The outline of a pattern. -/
def outline (pattern : List Char) : List Segment :=
  (pieces unitLength pattern).map Segment.ofPiece

namespace Part

/-- A part as it is written in a pattern. -/
def text : Part → List Char
  | .literal char => [char]
  | .slot kind name => kind.sigil :: name

/-- The kind of a slot. -/
def kind? : Part → Option Kind
  | .literal _ => none
  | .slot kind _ => some kind

end Part

namespace Segment

/-- A segment as it is written in a pattern. -/
def text : Segment → List Char
  | .single part => part.text
  | .group inner => '(' :: (inner.flatMap Part.text ++ [')'])

/-- The parts of a segment, whether they stand in a group or not. -/
def parts : Segment → List Part
  | .single part => [part]
  | .group inner => inner

end Segment

/-- The kinds of the slots among some parts, in reading order. -/
def partKinds (parts : List Part) : List Kind := parts.filterMap Part.kind?

/-- The kinds of the slots of an outline, in reading order. -/
def kinds (segments : List Segment) : List Kind := partKinds (segments.flatMap Segment.parts)

section Finding
variable {name rest : List Char} {char : Char}

theorem slotLength_slot (kind : Kind) (present : name ≠ [])
    (word : ∀ char ∈ name, isWord char = true) (ended : Text.word rest = []) :
    slotLength (kind.sigil :: (name ++ rest)) = name.length + 1 := by
  cases kind <;>
    simp [Kind.sigil, slotLength, lengthWithName_append 1 present word ended, Nat.add_comm]

theorem slotLength_of_ne (notColon : char ≠ ':') (notStar : char ≠ '*') :
    slotLength (char :: rest) = 0 := by
  unfold slotLength
  split
  · rename_i same
    cases same
    exact absurd rfl notColon
  · rename_i same
    cases same
    exact absurd rfl notStar
  · rfl

theorem slotLength_sigil_eq_zero_iff (kind : Kind) :
    slotLength (kind.sigil :: rest) = 0 ↔ word rest = [] := by
  cases kind <;> exact lengthWithName_eq_zero_iff Nat.one_pos

/-- Where a slot is found, its sigil, its name and what is behind can be told apart. -/
theorem eq_slot_of_slotLength {text : List Char} (found : slotLength text ≠ 0) :
    ∃ kind name rest, text = Kind.sigil kind :: (name ++ rest) ∧ name ≠ [] ∧
      (∀ char ∈ name, isWord char = true) ∧ word rest = [] := by
  have told (behind : List Char) (found : lengthWithName 1 behind ≠ 0) :
      ∃ name rest, behind = name ++ rest ∧ name ≠ [] ∧
        (∀ char ∈ name, isWord char = true) ∧ word rest = [] := by
    refine ⟨word behind, behind.dropWhile isWord, List.takeWhile_append_dropWhile.symm, ?_,
      fun char member => isWord_of_mem_word member, ?_⟩
    · exact fun ended => found ((lengthWithName_eq_zero_iff Nat.one_pos).mpr ended)
    · exact word_dropWhile behind
  unfold slotLength at found
  split at found
  · rename_i behind
    obtain ⟨name, rest, rfl, facts⟩ := told behind found
    exact ⟨.named, name, rest, rfl, facts⟩
  · rename_i behind
    obtain ⟨name, rest, rfl, facts⟩ := told behind found
    exact ⟨.splat, name, rest, rfl, facts⟩
  · exact absurd rfl found

end Finding

/-- Reading a text without groups: every text is empty, or begins with a slot, or with
a character where no slot begins. -/
@[elab_as_elim]
theorem parts_induction {motive : List Char → Prop} (nil : motive [])
    (slot : ∀ kind name rest, name ≠ [] → (∀ char ∈ name, isWord char = true) →
      word rest = [] → motive rest → motive (Kind.sigil kind :: (name ++ rest)))
    (literal : ∀ char rest, slotLength (char :: rest) = 0 → motive rest →
      motive (char :: rest)) (text : List Char) : motive text := by
  refine stretch_induction nil (fun char rest => ?_) text
  by_cases none : slotLength (char :: rest) = 0
  · exact ⟨[char], rest, rfl, List.cons_ne_nil _ _, literal char rest none⟩
  · obtain ⟨kind, name, behind, same, present, word, ended⟩ := eq_slot_of_slotLength none
    rw [same]
    exact ⟨kind.sigil :: name, behind, rfl, List.cons_ne_nil _ _,
      slot kind name behind present word ended⟩

/-- Reading a pattern: every pattern is empty, or begins with a group, or with a slot, or
with a character where neither begins. -/
@[elab_as_elim]
theorem outline_induction {motive : List Char → Prop} (nil : motive [])
    (group : ∀ inner rest, (∀ char ∈ inner, inBody char = true) → motive rest →
      motive ('(' :: (inner ++ ')' :: rest)))
    (slot : ∀ kind name rest, name ≠ [] → (∀ char ∈ name, isWord char = true) →
      word rest = [] → motive rest → motive (Kind.sigil kind :: (name ++ rest)))
    (literal : ∀ char rest, groupLength (char :: rest) = 0 → slotLength (char :: rest) = 0 →
      motive rest → motive (char :: rest)) (text : List Char) : motive text := by
  refine stretch_induction nil (fun char rest => ?_) text
  by_cases outside : groupLength (char :: rest) = 0
  · by_cases none : slotLength (char :: rest) = 0
    · exact ⟨[char], rest, rfl, List.cons_ne_nil _ _, literal char rest outside none⟩
    · obtain ⟨kind, name, behind, same, present, word, ended⟩ := eq_slot_of_slotLength none
      rw [same]
      exact ⟨kind.sigil :: name, behind, rfl, List.cons_ne_nil _ _,
        slot kind name behind present word ended⟩
  · obtain ⟨inner, behind, same, inside⟩ := eq_group_of_groupLength outside
    rw [same]
    exact ⟨'(' :: (inner ++ [')']), behind, by simp, List.cons_ne_nil _ _,
      group inner behind inside⟩

section Equations
variable {char : Char} {inner name rest : List Char}

@[simp] theorem parts_nil : parts [] = [] := rfl

@[simp] theorem outline_nil : outline [] = [] := rfl

theorem parts_slot (kind : Kind) (present : name ≠ [])
    (word : ∀ char ∈ name, isWord char = true) (ended : Text.word rest = []) :
    parts (kind.sigil :: (name ++ rest)) = .slot kind name :: parts rest := by
  have cut : pieces slotLength (kind.sigil :: (name ++ rest)) =
      .found (kind.sigil :: name) :: pieces slotLength rest :=
    pieces_found (List.cons_ne_nil _ _) (slotLength_slot kind present word ended)
  rw [parts, cut]
  cases kind <;> rfl

theorem parts_literal (none : slotLength (char :: rest) = 0) :
    parts (char :: rest) = .literal char :: parts rest := by
  simp [parts, pieces_cons_plain none, Part.ofPiece]

theorem outline_group (inside : ∀ char ∈ inner, inBody char = true) :
    outline ('(' :: (inner ++ ')' :: rest)) = .group (parts inner) :: outline rest := by
  have exact : unitLength (('(' :: (inner ++ [')'])) ++ rest) =
      ('(' :: (inner ++ [')'])).length := by
    simp [unitLength, groupLength_group inside]
  have cut := pieces_found (List.cons_ne_nil _ _) exact
  simp only [List.cons_append, List.append_assoc, List.nil_append] at cut
  rw [outline, cut]
  simp [outline, Segment.ofPiece, body]

theorem outline_slot (kind : Kind) (present : name ≠ [])
    (word : ∀ char ∈ name, isWord char = true) (ended : Text.word rest = []) :
    outline (kind.sigil :: (name ++ rest)) = .single (.slot kind name) :: outline rest := by
  have outside : groupLength (kind.sigil :: (name ++ rest)) = 0 :=
    groupLength_of_ne (by cases kind <;> decide)
  have exact : unitLength (kind.sigil :: (name ++ rest)) = name.length + 1 := by
    simp only [unitLength, outside, slotLength_slot kind present word ended]
  have cut : pieces unitLength (kind.sigil :: (name ++ rest)) =
      .found (kind.sigil :: name) :: pieces unitLength rest :=
    pieces_found (List.cons_ne_nil _ _) exact
  rw [outline, cut]
  cases kind <;> rfl

theorem outline_literal (outside : groupLength (char :: rest) = 0)
    (none : slotLength (char :: rest) = 0) :
    outline (char :: rest) = .single (.literal char) :: outline rest := by
  have nothing : unitLength (char :: rest) = 0 := by simp only [unitLength, outside, none]
  simp [outline, pieces_cons_plain nothing, Segment.ofPiece]

end Equations

/-- The slots of a pattern with their places: sigils with the longest names behind them. -/
def slots (pattern : List Char) : List Token :=
  (occurrences slotLength pattern).map Token.ofOccurrence

/-- The text of an occurrence. -/
def found? : Piece → Option (List Char)
  | .plain _ => none
  | .found found => some found

/-- A part as a piece of a text. -/
def Part.piece : Part → Piece
  | .literal char => .plain char
  | .slot kind name => .found (kind.sigil :: name)

/-- The pieces of a segment. -/
def Segment.pieces : Segment → List Piece
  | .single part => [part.piece]
  | .group inner => .plain '(' :: (inner.map Part.piece ++ [.plain ')'])

theorem word_append_of_ended (ended : word second = []) (none : word first = []) :
    word (first ++ second) = [] := by
  cases first with
  | nil => exact ended
  | cons char first =>
    by_cases accepted : isWord char = true
    · simp [word, accepted] at none
    · simp [word, accepted]

/-- What stands behind a text without continuing a name does not change its parts. -/
theorem pieces_append_parts (text : List Char) (ended : word rest = []) :
    pieces slotLength (text ++ rest) = (parts text).map Part.piece ++ pieces slotLength rest := by
  induction text using parts_induction with
  | nil => rfl
  | slot kind name behind present word none ih =>
    have exact := slotLength_slot kind present word (word_append_of_ended ended none)
    have cut : pieces slotLength ((kind.sigil :: name) ++ (behind ++ rest)) =
        .found (kind.sigil :: name) :: pieces slotLength (behind ++ rest) :=
      pieces_found (List.cons_ne_nil _ _) exact
    rw [parts_slot kind present word none, List.cons_append, List.append_assoc]
    rw [List.cons_append] at cut
    rw [cut, ih]
    rfl
  | literal char behind none ih =>
    have still : slotLength (char :: (behind ++ rest)) = 0 := by
      by_cases sigil : ∃ kind, char = Kind.sigil kind
      · obtain ⟨kind, rfl⟩ := sigil
        rw [slotLength_sigil_eq_zero_iff] at none ⊢
        exact word_append_of_ended ended none
      · exact slotLength_of_ne (fun colon => sigil ⟨.named, colon⟩)
          fun star => sigil ⟨.splat, star⟩
    rw [parts_literal none, List.cons_append, pieces_cons_plain still, ih]
    rfl

/-- Cutting a pattern into slots and single characters is cutting its outline. -/
theorem pieces_outline (pattern : List Char) :
    pieces slotLength pattern = (outline pattern).flatMap Segment.pieces := by
  induction pattern using outline_induction with
  | nil => rfl
  | group inner rest inside ih =>
    have opening : slotLength ('(' :: (inner ++ ')' :: rest)) = 0 :=
      slotLength_of_ne (by decide) (by decide)
    have closing : slotLength (')' :: rest) = 0 := slotLength_of_ne (by decide) (by decide)
    rw [outline_group inside, pieces_cons_plain opening,
      pieces_append_parts inner (word_cons_of_not (by decide)), pieces_cons_plain closing, ih]
    simp [Segment.pieces]
  | slot kind name rest present word ended ih =>
    have cut : pieces slotLength (kind.sigil :: (name ++ rest)) =
        .found (kind.sigil :: name) :: pieces slotLength rest :=
      pieces_found (List.cons_ne_nil _ _) (slotLength_slot kind present word ended)
    rw [outline_slot kind present word ended, cut, ih]
    rfl
  | literal char rest outside none ih =>
    rw [outline_literal outside none, pieces_cons_plain none, ih]
    rfl

/-- Occurrences are told apart by their places, which do not change their texts. -/
theorem map_text_locate (place : Nat) (cut : List Piece) :
    (locate place cut).map Occurrence.text = cut.filterMap found? := by
  induction cut generalizing place with
  | nil => rfl
  | cons piece cut ih =>
    cases piece with
    | plain char => simpa [locate, found?, List.filterMap_cons] using ih (place + 1)
    | found found => simpa [locate, found?, List.filterMap_cons] using ih (place + found.length)

theorem partKinds_eq (others : List Part) :
    partKinds others = ((others.map Part.piece).filterMap found?).map fun text =>
      (Token.ofOccurrence ⟨0, text⟩).kind := by
  induction others with
  | nil => rfl
  | cons part others ih =>
    cases part with
    | literal char =>
      simpa [partKinds, Part.kind?, Part.piece, found?, List.filterMap_cons] using ih
    | slot kind name =>
      have told : (Token.ofOccurrence ⟨0, kind.sigil :: name⟩).kind = kind := by
        cases kind <;> rfl
      simpa [partKinds, Part.kind?, Part.piece, found?, List.filterMap_cons, told] using ih

/-- The outline has the slots of the pattern, in the same order. -/
theorem kind_slots (pattern : List Char) :
    (slots pattern).map Token.kind = kinds (outline pattern) := by
  have texts : (slots pattern).map Token.kind =
      ((locate 0 (pieces slotLength pattern)).map Occurrence.text).map fun text =>
        (Token.ofOccurrence ⟨0, text⟩).kind := by
    rw [slots, occurrences, List.map_map, List.map_map]
    rfl
  have same (segment : Segment) :
      segment.pieces.filterMap found? = (segment.parts.map Part.piece).filterMap found? := by
    cases segment <;> simp [Segment.pieces, Segment.parts, found?, List.filterMap_cons]
  have gathered : (((outline pattern).flatMap Segment.parts).map Part.piece).filterMap found? =
      (outline pattern).flatMap fun segment => (segment.parts.map Part.piece).filterMap found? := by
    rw [List.map_flatMap, List.filterMap_flatMap]
  rw [texts, map_text_locate, pieces_outline, kinds, partKinds_eq, gathered,
    List.filterMap_flatMap, funext same]

theorem text_parts (text : List Char) : (parts text).flatMap Part.text = text := by
  induction text using parts_induction with
  | nil => rfl
  | slot kind name rest present word ended ih =>
    rw [parts_slot kind present word ended, List.flatMap_cons, ih]
    rfl
  | literal char rest none ih =>
    rw [parts_literal none, List.flatMap_cons, ih]
    rfl

/-- Nothing of a pattern is lost or moved in its outline. -/
theorem text_outline (pattern : List Char) :
    (outline pattern).flatMap Segment.text = pattern := by
  induction pattern using outline_induction with
  | nil => rfl
  | group inner rest inside ih =>
    rw [outline_group inside, List.flatMap_cons, ih, Segment.text, text_parts]
    simp
  | slot kind name rest present word ended ih =>
    rw [outline_slot kind present word ended, List.flatMap_cons, ih]
    rfl
  | literal char rest outside none ih =>
    rw [outline_literal outside none, List.flatMap_cons, ih]
    rfl

/-- A literal character of an outline stands in the pattern. -/
theorem mem_of_literal_mem_outline {pattern : List Char} {char : Char}
    (member : .literal char ∈ (outline pattern).flatMap Segment.parts) : char ∈ pattern := by
  obtain ⟨segment, among, inside⟩ := List.mem_flatMap.mp member
  rw [← text_outline pattern, List.mem_flatMap]
  refine ⟨segment, among, ?_⟩
  cases segment with
  | single part =>
    rw [Segment.parts, List.mem_singleton] at inside
    subst inside
    exact List.mem_singleton_self char
  | group inner =>
    have text : char ∈ inner.flatMap Part.text :=
      List.mem_flatMap.mpr ⟨.literal char, inside, List.mem_singleton_self char⟩
    simp [Segment.text, text]

/-- Every character of this sort is immediately followed by a word character. -/
def followedByWord (sign : Char) : List Char → Bool
  | [] => true
  | char :: rest => (char != sign || !(word rest).isEmpty) && followedByWord sign rest

/-- Parentheses are balanced, none is opened within another, and no line ends in
between. `isOpen` tells whether one is open already. -/
def flat (isOpen : Bool) : List Char → Bool
  | [] => !isOpen
  | char :: rest =>
    if char == '(' then !isOpen && flat true rest
    else if char == ')' then isOpen && flat false rest
    else !(isOpen && char == '\n') && flat isOpen rest

/-- Patterns whose signs all mean something: each asterisk has a name, and the
parentheses are those of groups. -/
structure Grammatical (pattern : List Char) : Prop where
  named : followedByWord '*' pattern = true
  grouped : flat false pattern = true

instance (pattern : List Char) : Decidable (Grammatical pattern) :=
  decidable_of_iff (followedByWord '*' pattern = true ∧ flat false pattern = true)
    ⟨fun ⟨named, grouped⟩ => ⟨named, grouped⟩, fun ⟨named, grouped⟩ => ⟨named, grouped⟩⟩

/-- A part in which no sign is left over: slots have names, and what stands for itself
is neither an asterisk nor a parenthesis. -/
def Part.Clean : Part → Prop
  | .literal char => char ≠ '(' ∧ char ≠ ')' ∧ char ≠ '*'
  | .slot _ name => name ≠ [] ∧ ∀ char ∈ name, isWord char = true

/-- Both parts of a text keep to the rule, if no name reaches from one into the other. -/
theorem followedByWord_append (sign : Char) (ended : word second = [])
    (all : followedByWord sign (first ++ second) = true) :
    followedByWord sign first = true ∧ followedByWord sign second = true := by
  induction first with
  | nil => exact ⟨rfl, all⟩
  | cons char first ih =>
    simp only [List.cons_append, followedByWord, Bool.and_eq_true, Bool.or_eq_true,
      bne_iff_ne, ne_eq, Bool.not_eq_true', List.isEmpty_eq_false_iff] at all ⊢
    obtain ⟨here, later⟩ := all
    obtain ⟨inFirst, inSecond⟩ := ih later
    refine ⟨⟨here.imp_right fun named none => ?_, inFirst⟩, inSecond⟩
    exact named (word_append_of_ended ended none)

private theorem followedByWord_of_append (sign : Char) (first second : List Char)
    (all : followedByWord sign (first ++ second) = true) :
    followedByWord sign second = true := by
  induction first with
  | nil => exact all
  | cons char first ih =>
    simp only [List.cons_append, followedByWord, Bool.and_eq_true] at all
    exact ih all.2

/-- Where no slot begins although every asterisk has a name, there is no asterisk. -/
theorem ne_star_of_slotLength (all : followedByWord '*' (char :: rest) = true)
    (none : slotLength (char :: rest) = 0) : char ≠ '*' := by
  rintro rfl
  have ended : word rest = [] := (slotLength_sigil_eq_zero_iff .splat).mp none
  simp [followedByWord, ended] at all

/-- A text without parentheses and without bare asterisks has clean parts only. -/
theorem parts_clean (text : List Char) (named : followedByWord '*' text = true)
    (outside : ∀ char ∈ text, char ≠ '(' ∧ char ≠ ')') : ∀ part ∈ parts text, part.Clean := by
  induction text using parts_induction with
  | nil => simp
  | slot kind name rest present word ended ih =>
    rw [parts_slot kind present word ended]
    intro part member
    rcases List.mem_cons.mp member with rfl | member
    · exact ⟨present, word⟩
    · refine ih ?_ (fun char inside => outside char (by simp [inside])) part member
      exact followedByWord_of_append '*' (kind.sigil :: name) rest named
  | literal char rest none ih =>
    rw [parts_literal none]
    intro part member
    rcases List.mem_cons.mp member with rfl | member
    · have here := outside char (by simp)
      exact ⟨here.1, here.2, ne_star_of_slotLength named none⟩
    · refine ih ?_ (fun char inside => outside char (by simp [inside])) part member
      exact followedByWord_of_append '*' [char] rest named

/-- Within a group of a flat pattern no parenthesis is opened. -/
theorem flat_group {inner rest : List Char} (inside : ∀ char ∈ inner, inBody char = true)
    (balanced : flat true (inner ++ ')' :: rest) = true) :
    (∀ char ∈ inner, char ≠ '(' ∧ char ≠ ')') ∧ flat false rest = true := by
  induction inner with
  | nil => exact ⟨by simp, by simpa [flat] using balanced⟩
  | cons char inner ih =>
    have here := inside char (by simp)
    simp only [inBody, Bool.and_eq_true, bne_iff_ne, ne_eq] at here
    by_cases opened : char = '('
    · simp [flat, opened] at balanced
    · obtain ⟨clean, behind⟩ := ih (fun other member => inside other (by simp [member]))
        (by simpa [flat, opened, here.1, here.2] using balanced)
      refine ⟨fun other member => ?_, behind⟩
      rcases List.mem_cons.mp member with rfl | member
      · exact ⟨opened, here.1⟩
      · exact clean other member

/-- A parenthesis opened in a flat pattern opens a group. -/
theorem groupLength_of_flat (balanced : flat true rest = true) :
    groupLength ('(' :: rest) ≠ 0 := by
  have split : ∃ inner behind, rest = inner ++ ')' :: behind ∧
      ∀ char ∈ inner, inBody char = true := by
    induction rest with
    | nil => simp [flat] at balanced
    | cons char rest ih =>
      by_cases closed : char = ')'
      · exact ⟨[], rest, by rw [closed]; rfl, by simp⟩
      · by_cases opened : char = '('
        · simp [flat, opened] at balanced
        · simp only [flat, opened, closed, beq_iff_eq, ↓reduceIte, Bool.true_and,
            Bool.and_eq_true, Bool.not_eq_true', beq_eq_false_iff_ne, ne_eq] at balanced
          obtain ⟨inner, behind, rfl, inside⟩ := ih balanced.2
          refine ⟨char :: inner, behind, rfl, fun other member => ?_⟩
          rcases List.mem_cons.mp member with rfl | member
          · simp [inBody, closed, balanced.1]
          · exact inside other member
  obtain ⟨inner, behind, rfl, inside⟩ := split
  rw [groupLength_group inside]
  omega

private theorem flat_append_of_outside (plain : ∀ char ∈ text, char ≠ '(' ∧ char ≠ ')') :
    flat false (text ++ rest) = flat false rest := by
  induction text with
  | nil => rfl
  | cons char text ih =>
    have here := plain char (by simp)
    simp [flat, here.1, here.2, ih fun other member => plain other (by simp [member])]

theorem sigil_ne_parenthesis (kind : Kind) : kind.sigil ≠ '(' ∧ kind.sigil ≠ ')' := by
  cases kind <;> decide

theorem isWord_ne_parenthesis (accepted : isWord char = true) : char ≠ '(' ∧ char ≠ ')' := by
  constructor <;> rintro rfl <;> simp [isWord] at accepted

/-- A slot has no parentheses in its text. -/
theorem slot_ne_parenthesis (kind : Kind) (word : ∀ char ∈ name, isWord char = true) :
    ∀ char ∈ kind.sigil :: name, char ≠ '(' ∧ char ≠ ')' := by
  intro char member
  rcases List.mem_cons.mp member with rfl | member
  · exact sigil_ne_parenthesis kind
  · exact isWord_ne_parenthesis (word char member)

/-- A character of a flat pattern that does not open a group is no parenthesis. -/
theorem ne_parenthesis_of_flat (outside : groupLength (char :: rest) = 0)
    (grouped : flat false (char :: rest) = true) :
    char ≠ '(' ∧ char ≠ ')' ∧ flat false rest = true := by
  have notOpen : char ≠ '(' := by
    rintro rfl
    have balanced : flat true rest = true := by simpa [flat] using grouped
    exact groupLength_of_flat balanced outside
  have notClose : char ≠ ')' := by
    rintro rfl
    simp [flat] at grouped
  exact ⟨notOpen, notClose, by simpa [flat, notOpen, notClose] using grouped⟩

theorem flat_of_slot (kind : Kind) (word : ∀ char ∈ name, isWord char = true)
    (grouped : flat false (kind.sigil :: (name ++ rest)) = true) : flat false rest = true := by
  rw [← flat_append_of_outside (slot_ne_parenthesis kind word)]
  exact grouped

/-- The outline of a grammatical pattern has clean parts only. -/
theorem outline_clean (pattern : List Char) (grammatical : Grammatical pattern) :
    ∀ segment ∈ outline pattern, ∀ part ∈ segment.parts, part.Clean := by
  obtain ⟨named, grouped⟩ := grammatical
  induction pattern using outline_induction with
  | nil => simp
  | group inner rest inside ih =>
    rw [outline_group inside]
    intro segment member part within
    have balanced : flat true (inner ++ ')' :: rest) = true := by simpa [flat] using grouped
    obtain ⟨outside, later⟩ := flat_group inside balanced
    obtain ⟨namedInner, namedRest⟩ := followedByWord_append '*'
      (word_cons_of_not (by decide)) (followedByWord_of_append '*' ['('] _ named)
    rcases List.mem_cons.mp member with rfl | member
    · exact parts_clean inner namedInner outside part within
    · exact ih (followedByWord_of_append '*' [')'] rest namedRest) later segment member part within
  | slot kind name rest present word ended ih =>
    rw [outline_slot kind present word ended]
    intro segment member part within
    rcases List.mem_cons.mp member with rfl | member
    · rw [Segment.parts, List.mem_singleton] at within
      subst within
      exact ⟨present, word⟩
    · have later := followedByWord_of_append '*' (kind.sigil :: name) rest named
      exact ih later (flat_of_slot kind word grouped) segment member part within
  | literal char rest outside none ih =>
    rw [outline_literal outside none]
    intro segment member part within
    obtain ⟨notOpen, notClose, flatRest⟩ := ne_parenthesis_of_flat outside grouped
    rcases List.mem_cons.mp member with rfl | member
    · rw [Segment.parts, List.mem_singleton] at within
      subst within
      exact ⟨notOpen, notClose, ne_star_of_slotLength named none⟩
    · have later := followedByWord_of_append '*' [char] rest named
      exact ih later flatRest segment member part within

end RoutePattern.Pattern
