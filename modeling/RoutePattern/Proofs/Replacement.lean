import Mathlib
import RoutePattern.Pattern.Group
import RoutePattern.Pattern.Token

/-! How a replacement goes through a text from its head on: a character that no
occurrence begins with stays, an occurrence is exchanged, and both times the rest is
treated as a text of its own. Finders are described by what they find at a head. -/
namespace RoutePattern.Text

/-- Reading a text stretch by stretch: every text that is not empty begins with a stretch that is
not empty either, behind which the reading goes on. -/
@[elab_as_elim]
theorem stretch_induction {motive : List Char → Prop} (nil : motive [])
    (step : ∀ char rest, ∃ front behind, char :: rest = front ++ behind ∧ front ≠ [] ∧
      (motive behind → motive (char :: rest))) (text : List Char) : motive text := by
  induction length : text.length using Nat.strongRecOn generalizing text with
  | ind size ih =>
    subst length
    cases text with
    | nil => exact nil
    | cons char rest =>
      obtain ⟨front, behind, same, present, goesOn⟩ := step char rest
      have positive : 0 < front.length := List.length_pos_iff.mpr present
      have shorter := congrArg List.length same
      rw [List.length_append] at shorter
      exact goesOn (ih behind.length (by omega) behind rfl)

theorem word_append (named : ∀ char ∈ name, isWord char = true) (ended : word rest = []) :
    word (name ++ rest) = name := by
  rw [word, List.takeWhile_append_of_pos named]
  rw [word] at ended
  rw [ended, List.append_nil]

theorem word_cons_of_not (other : isWord char = false) : word (char :: rest) = [] := by
  simp [word, other]

/-- Behind the longest run of word characters there is no further one. -/
theorem word_dropWhile (text : List Char) : word (text.dropWhile isWord) = [] := by
  induction text with
  | nil => rfl
  | cons char rest ih =>
    by_cases accepted : isWord char = true
    · simpa [accepted] using ih
    · simp [word, accepted]

/-- Letters and digits are characters of ASCII. -/
theorem lt_of_isAlphanum {char : Char} (accepted : char.isAlphanum = true) :
    char.toNat < 128 := by
  simp only [Char.isAlphanum, Char.isAlpha, Char.isUpper, Char.isLower, Char.isDigit,
    Bool.or_eq_true, Bool.and_eq_true, decide_eq_true_eq] at accepted
  rcases accepted with (upper | lower) | digit
  · exact Nat.lt_of_le_of_lt upper.2 (by decide)
  · exact Nat.lt_of_le_of_lt lower.2 (by decide)
  · exact Nat.lt_of_le_of_lt digit.2 (by decide)

theorem lt_of_isWord {char : Char} (accepted : isWord char = true) : char.toNat < 128 := by
  simp only [isWord, Bool.or_eq_true, beq_iff_eq] at accepted
  rcases accepted with alphanumeric | rfl
  · exact lt_of_isAlphanum alphanumeric
  · decide

/-- What holds of the characters of ASCII, one by one, holds of each of them. -/
@[elab_as_elim]
theorem of_ascii {motive : Char → Prop} (char : Char) (small : char.toNat < 128)
    (all : ∀ n < 128, motive (Char.ofNat n)) : motive char :=
  Char.ofNat_toNat char ▸ all char.toNat small

/-- A sigil and a name are found with their whole length. -/
theorem lengthWithName_append (sigil : Nat) (present : name ≠ [])
    (named : ∀ char ∈ name, isWord char = true) (ended : word rest = []) :
    lengthWithName sigil (name ++ rest) = sigil + name.length := by
  rw [lengthWithName, word_append named ended]
  cases name with
  | nil => exact absurd rfl present
  | cons first more => rfl

theorem lengthWithName_eq_zero_iff (positive : 0 < sigil) :
    lengthWithName sigil rest = 0 ↔ word rest = [] := by
  unfold lengthWithName
  split
  · rename_i ended
    simp [ended]
  · rename_i ended
    constructor
    · intro none
      omega
    · intro none
      exact absurd none ended

@[simp] theorem replace_nil (finder : Finder) (change : List Char → List Char) :
    replace finder change [] = [] := rfl

theorem replace_cons_plain (none : finder (char :: rest) = 0) :
    replace finder change (char :: rest) = char :: replace finder change rest := by
  simp [replace, pieces_cons_plain none]

/-- An occurrence at the head of a text is a piece of its own. -/
theorem pieces_found (present : found ≠ []) (exact : finder (found ++ rest) = found.length) :
    pieces finder (found ++ rest) = .found found :: pieces finder rest := by
  cases found with
  | nil => exact absurd rfl present
  | cons first more =>
    have length : finder (first :: (more ++ rest)) = more.length + 1 := exact
    simp [pieces_cons_found length]

/-- An occurrence at the head of a text is exchanged whole. -/
theorem replace_found (present : found ≠ []) (exact : finder (found ++ rest) = found.length) :
    replace finder change (found ++ rest) = change found ++ replace finder change rest := by
  rw [replace, pieces_found present exact]
  rfl

/-- Characters that no occurrence begins with stay by themselves, whatever follows them. -/
theorem pieces_append_of_plain
    (none : ∀ char ∈ text, ∀ behind, finder (char :: behind) = 0) :
    pieces finder (text ++ rest) = text.map Piece.plain ++ pieces finder rest := by
  induction text with
  | nil => rfl
  | cons char text ih =>
    rw [List.cons_append, pieces_cons_plain (none char (by simp) _),
      ih fun other member => none other (by simp [member]), List.map_cons, List.cons_append]

/-- A text that is cut into its characters stays. -/
theorem replace_of_pieces
    (cut : pieces finder (text ++ rest) = text.map Piece.plain ++ pieces finder rest) :
    replace finder change (text ++ rest) = text ++ replace finder change rest := by
  rw [replace, cut, List.flatMap_append, List.flatMap_map, List.flatMap_singleton', replace]

theorem replace_append_of_plain
    (none : ∀ char ∈ text, ∀ behind, finder (char :: behind) = 0) :
    replace finder change (text ++ rest) = text ++ replace finder change rest :=
  replace_of_pieces (pieces_append_of_plain none)

end RoutePattern.Text

namespace RoutePattern.Pattern
open Text

variable {inner rest : List Char}

private theorem takeWhile_body (inside : ∀ char ∈ inner, inBody char = true) :
    (inner ++ ')' :: rest).takeWhile inBody = inner := by
  rw [List.takeWhile_append_of_pos inside]
  simp [inBody]

private theorem dropWhile_body (inside : ∀ char ∈ inner, inBody char = true) :
    (inner ++ ')' :: rest).dropWhile inBody = ')' :: rest := by
  rw [List.dropWhile_append_of_pos inside]
  simp [inBody]

/-- A group is found with its whole length. -/
theorem groupLength_group (inside : ∀ char ∈ inner, inBody char = true) :
    groupLength ('(' :: (inner ++ ')' :: rest)) = inner.length + 2 := by
  simp only [groupLength, dropWhile_body inside, takeWhile_body inside]

theorem groupLength_of_ne (other : char ≠ '(') : groupLength (char :: rest) = 0 := by
  unfold groupLength
  split
  · rename_i same
    cases same
    exact absurd rfl other
  · rfl

/-- Where a group is found, its body and what is behind it can be told apart. -/
theorem eq_group_of_groupLength (found : groupLength text ≠ 0) :
    ∃ inner rest, text = '(' :: (inner ++ ')' :: rest) ∧ ∀ char ∈ inner, inBody char = true := by
  unfold groupLength at found
  split at found
  · rename_i behind
    split at found
    · rename_i rest ended
      refine ⟨behind.takeWhile inBody, rest, ?_, ?_⟩
      · rw [← ended, List.takeWhile_append_dropWhile]
      · intro char member
        exact List.all_eq_true.mp (List.all_takeWhile) char member
    · exact absurd rfl found
  · exact absurd rfl found

theorem namedLength_of_ne (notColon : char ≠ ':') (notOpen : char ≠ '(') :
    namedLength (char :: rest) = 0 := by
  unfold namedLength
  split
  · rename_i same
    cases same
    exact absurd rfl notColon
  · rename_i same
    cases same
    exact absurd rfl notOpen
  · rfl

theorem splatLength_of_ne (other : char ≠ '*') : splatLength (char :: rest) = 0 := by
  unfold splatLength
  split
  · rename_i same
    cases same
    exact absurd rfl other
  · rfl

/-- An opening parenthesis begins a marked token only if `?` stands right behind it. -/
theorem namedLength_open (other : rest.head? ≠ some '?') : namedLength ('(' :: rest) = 0 := by
  unfold namedLength
  split
  · rename_i same
    cases same
  · rename_i same
    cases same
    exact absurd rfl other
  · rfl

end RoutePattern.Pattern
