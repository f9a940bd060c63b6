import RoutePattern.Proofs.Outline

/-! The blocks of a pattern: its optional groups, and the tokens and single characters
between them. A token lies within one group or outside of all of them, whatever the
pattern looks like, so that cutting into blocks and then each block into tokens is the
same as cutting the whole pattern into tokens. -/
namespace RoutePattern.Pattern
open Text

/-- What may stand in front of the name of a token. -/
def sigils : List (List Char) := [":".toList, "*".toList, "(?:".toList]

/-- A stretch of a pattern, cut into its tokens and the characters between them. An
optional one vanishes as a whole. -/
structure Block where
  optional : Bool
  pieces : List Piece
deriving DecidableEq, Repr

/-- The length of the group or token at the head of a text. Where both begin there the
token lies within the group. -/
def blockLength : Finder := fun text =>
  match groupLength text with
  | 0 => tokenLength text
  | length => length

/-- Only a group ends with a parenthesis. -/
def Block.ofPiece : Piece → Block
  | .plain char => ⟨false, [.plain char]⟩
  | .found found =>
    if found.getLast? == some ')' then ⟨true, Text.pieces tokenLength found⟩
    else ⟨false, [.found found]⟩

/-- The blocks of a pattern. -/
def blocks (pattern : List Char) : List Block :=
  (pieces blockLength pattern).map Block.ofPiece

/-- The stretch of text that pieces were cut from. -/
def textOf (cut : List Piece) : List Char := cut.flatMap Piece.text

/-- A block as a piece or pieces of a text that only its groups are cut from. -/
def Block.outer (block : Block) : List Piece :=
  if block.optional then [.found (textOf block.pieces)]
  else (textOf block.pieces).map Piece.plain

section Tokens
variable {sigil name rest text : List Char} {char : Char}

theorem tokenLength_token (known : sigil ∈ sigils) (present : name ≠ [])
    (word : ∀ char ∈ name, isWord char = true) (ended : Text.word rest = []) :
    tokenLength (sigil ++ (name ++ rest)) = sigil.length + name.length := by
  have length (before : Nat) := lengthWithName_append before present word ended
  have positive : 0 < name.length := List.length_pos_iff.mpr present
  simp only [sigils, List.mem_cons, List.not_mem_nil, or_false] at known
  rcases known with rfl | rfl | rfl
  · show (match lengthWithName 1 (name ++ rest) with
      | 0 => splatLength (':' :: (name ++ rest))
      | length => length) = 1 + name.length
    rw [length 1, Nat.add_comm]
    rfl
  · show lengthWithName 1 (name ++ rest) = 1 + name.length
    exact length 1
  · show (match lengthWithName 3 (name ++ rest) with
      | 0 => splatLength ('(' :: '?' :: ':' :: (name ++ rest))
      | length => length) = 3 + name.length
    rw [length 3, Nat.add_comm]
    rfl

private theorem tokenLength_of_ne (notColon : char ≠ ':') (notStar : char ≠ '*')
    (notOpen : char ≠ '(') :
    tokenLength (char :: rest) = 0 := by
  have named : namedLength (char :: rest) = 0 := namedLength_of_ne notColon notOpen
  have splat : splatLength (char :: rest) = 0 := splatLength_of_ne notStar
  simp only [tokenLength, named, splat]

/-- Where a token is found, its sigil, its name and what is behind can be told apart. -/
theorem eq_token_of_tokenLength (found : tokenLength text ≠ 0) :
    ∃ sigil name rest, sigil ∈ sigils ∧ text = sigil ++ (name ++ rest) ∧ name ≠ [] ∧
      (∀ char ∈ name, isWord char = true) ∧ word rest = [] := by
  have told (sigil behind : List Char) (known : sigil ∈ sigils) (named : word behind ≠ []) :
      ∃ first name rest, first ∈ sigils ∧ sigil ++ behind = first ++ (name ++ rest) ∧ name ≠ [] ∧
        (∀ char ∈ name, isWord char = true) ∧ word rest = [] := by
    refine ⟨sigil, word behind, behind.dropWhile isWord, known, ?_, named, ?_, ?_⟩
    · rw [word, List.takeWhile_append_dropWhile]
    · exact fun char member => isWord_of_mem_word member
    · exact word_dropWhile behind
  have named (size : Nat) (behind : List Char) (positive : 0 < size)
      (found : lengthWithName size behind ≠ 0) : word behind ≠ [] :=
    fun ended => found ((lengthWithName_eq_zero_iff positive).mpr ended)
  by_cases none : namedLength text = 0
  · simp only [tokenLength, none] at found
    unfold splatLength at found
    split at found
    · rename_i behind
      exact told ['*'] behind (by decide) (named 1 behind (by omega) found)
    · exact absurd rfl found
  · unfold namedLength at none
    split at none
    · rename_i behind
      exact told [':'] behind (by decide) (named 1 behind (by omega) none)
    · rename_i behind
      exact told ['(', '?', ':'] behind (by decide) (named 3 behind (by omega) none)
    · exact absurd rfl none

/-- Within a token there are no parentheses, but a marked one begins with one. -/
theorem exists_tail_of_token (known : sigil ∈ sigils) (word : ∀ char ∈ name, isWord char = true) :
    ∃ first tail, sigil ++ name = first :: tail ∧ first ≠ ')' ∧
      ∀ char ∈ tail, char ≠ '(' ∧ char ≠ ')' := by
  have within : ∀ char ∈ name, char ≠ '(' ∧ char ≠ ')' :=
    fun char member => isWord_ne_parenthesis (word char member)
  simp only [sigils, List.mem_cons, List.not_mem_nil, or_false] at known
  rcases known with rfl | rfl | rfl
  · exact ⟨':', name, rfl, by decide, within⟩
  · exact ⟨'*', name, rfl, by decide, within⟩
  · refine ⟨'(', '?' :: ':' :: name, rfl, by decide, ?_⟩
    intro char member
    rcases List.mem_cons.mp member with rfl | member
    · decide
    · rcases List.mem_cons.mp member with rfl | member
      · decide
      · exact within char member

private theorem sigil_ne_nil (known : sigil ∈ sigils) : sigil ≠ [] := by
  rintro rfl
  exact absurd known (by decide)

/-- A closing parenthesis ends whatever token stands in front of it. -/
theorem tokenLength_append_close (char : Char) (text rest : List Char) :
    tokenLength (char :: (text ++ ')' :: rest)) = tokenLength (char :: text) := by
  have word_close (behind : List Char) : word (behind ++ ')' :: rest) = word behind := by
    induction behind with
    | nil => exact word_cons_of_not (by decide)
    | cons first behind ih =>
      rw [word] at ih
      simp [word, List.takeWhile_cons, ih]
  have length (size : Nat) (behind : List Char) :
      lengthWithName size (behind ++ ')' :: rest) = lengthWithName size behind := by
    rw [lengthWithName, word_close, lengthWithName]
  by_cases colon : char = ':'
  · subst colon
    have splat (behind : List Char) : splatLength (':' :: behind) = 0 :=
      splatLength_of_ne (by decide)
    simp only [tokenLength, namedLength, splat, length]
  · by_cases star : char = '*'
    · subst star
      have none (behind : List Char) : namedLength ('*' :: behind) = 0 :=
        namedLength_of_ne (by decide) (by decide)
      simp only [tokenLength, splatLength, none, length]
    · by_cases opened : char = '('
      · subst opened
        have splat (behind : List Char) : splatLength ('(' :: behind) = 0 :=
          splatLength_of_ne (by decide)
        rcases text with _ | ⟨first, _ | ⟨second, behind⟩⟩
        · rfl
        · by_cases mark : first = '?'
          · subst mark
            rfl
          · have none (behind : List Char) : namedLength ('(' :: first :: behind) = 0 :=
              namedLength_open (by simpa using mark)
            simp only [tokenLength, List.cons_append, none, splat]
        · by_cases mark : first = '?' ∧ second = ':'
          · obtain ⟨rfl, rfl⟩ := mark
            simp only [tokenLength, namedLength, splat, List.cons_append, length]
          · have none (behind : List Char) :
                namedLength ('(' :: first :: second :: behind) = 0 := by
              unfold namedLength
              split
              · rename_i same
                cases same
              · rename_i same
                cases same
                exact absurd ⟨rfl, rfl⟩ mark
              · rfl
            simp only [tokenLength, List.cons_append, none, splat]
      · rw [tokenLength_of_ne colon star opened, tokenLength_of_ne colon star opened]

end Tokens

/-- Reading a text token by token: every text is empty, or begins with a token, or with a
character where no token begins. -/
@[elab_as_elim]
theorem tokens_induction {motive : List Char → Prop} (nil : motive [])
    (token : ∀ sigil name rest, sigil ∈ sigils → name ≠ [] →
      (∀ char ∈ name, isWord char = true) → word rest = [] → motive rest →
      motive (sigil ++ (name ++ rest)))
    (plain : ∀ char rest, tokenLength (char :: rest) = 0 → motive rest → motive (char :: rest))
    (text : List Char) : motive text := by
  refine stretch_induction nil (fun char rest => ?_) text
  by_cases none : tokenLength (char :: rest) = 0
  · exact ⟨[char], rest, rfl, List.cons_ne_nil _ _, plain char rest none⟩
  · obtain ⟨sigil, name, behind, known, same, present, word, ended⟩ := eq_token_of_tokenLength none
    rw [same]
    exact ⟨sigil ++ name, behind, (List.append_assoc ..).symm,
      List.append_ne_nil_of_right_ne_nil sigil present,
      token sigil name behind known present word ended⟩

/-- Reading a pattern block by block: every pattern is empty, or begins with a group, or
with a token, or with a character where neither begins. -/
@[elab_as_elim]
theorem blocks_induction {motive : List Char → Prop} (nil : motive [])
    (group : ∀ inner rest, (∀ char ∈ inner, inBody char = true) → motive rest →
      motive ('(' :: (inner ++ ')' :: rest)))
    (token : ∀ sigil name rest, sigil ∈ sigils → name ≠ [] →
      (∀ char ∈ name, isWord char = true) → word rest = [] →
      groupLength (sigil ++ (name ++ rest)) = 0 → motive rest → motive (sigil ++ (name ++ rest)))
    (plain : ∀ char rest, groupLength (char :: rest) = 0 → tokenLength (char :: rest) = 0 →
      motive rest → motive (char :: rest)) (text : List Char) : motive text := by
  refine stretch_induction nil (fun char rest => ?_) text
  by_cases outside : groupLength (char :: rest) = 0
  · by_cases none : tokenLength (char :: rest) = 0
    · exact ⟨[char], rest, rfl, List.cons_ne_nil _ _, plain char rest outside none⟩
    · obtain ⟨sigil, name, behind, known, same, present, word, ended⟩ :=
        eq_token_of_tokenLength none
      rw [same] at outside ⊢
      exact ⟨sigil ++ name, behind, (List.append_assoc ..).symm,
        List.append_ne_nil_of_right_ne_nil sigil present,
        token sigil name behind known present word ended outside⟩
  · obtain ⟨inner, behind, same, inside⟩ := eq_group_of_groupLength outside
    rw [same]
    exact ⟨'(' :: (inner ++ [')']), behind, by simp, List.cons_ne_nil _ _,
      group inner behind inside⟩

section Cutting
variable {sigil name inner rest : List Char} {char : Char}

theorem pieces_token (known : sigil ∈ sigils) (present : name ≠ [])
    (word : ∀ char ∈ name, isWord char = true) (ended : Text.word rest = []) :
    pieces tokenLength (sigil ++ (name ++ rest)) =
      .found (sigil ++ name) :: pieces tokenLength rest := by
  have exact := tokenLength_token known present word ended
  rw [← List.length_append, ← List.append_assoc] at exact
  rw [← List.append_assoc]
  exact pieces_found (List.append_ne_nil_of_left_ne_nil (sigil_ne_nil known) _) exact

/-- A closing parenthesis is never part of a token, so what stands in front of it can be
cut by itself. -/
theorem pieces_append_close (text rest : List Char) :
    pieces tokenLength (text ++ ')' :: rest) =
      pieces tokenLength text ++ .plain ')' :: pieces tokenLength rest := by
  induction text using tokens_induction with
  | nil =>
    have none : tokenLength (')' :: rest) = 0 :=
      tokenLength_of_ne (by decide) (by decide) (by decide)
    exact pieces_cons_plain none
  | token sigil name behind known present word ended ih =>
    have closed : Text.word (behind ++ ')' :: rest) = [] :=
      word_append_of_ended (word_cons_of_not (by decide)) ended
    rw [pieces_token known present word ended, List.append_assoc, List.append_assoc,
      pieces_token known present word closed, ih]
    rfl
  | plain char behind none ih =>
    have still : tokenLength (char :: (behind ++ ')' :: rest)) = 0 := by
      rw [tokenLength_append_close]
      exact none
    rw [pieces_cons_plain none, List.cons_append, pieces_cons_plain still, ih]
    rfl

theorem pieces_group (inside : ∀ char ∈ inner, inBody char = true) :
    pieces groupLength ('(' :: (inner ++ ')' :: rest)) =
      .found ('(' :: (inner ++ [')'])) :: pieces groupLength rest := by
  have whole : '(' :: (inner ++ ')' :: rest) = ('(' :: (inner ++ [')'])) ++ rest := by simp
  have exact : groupLength (('(' :: (inner ++ [')'])) ++ rest) =
      ('(' :: (inner ++ [')'])).length := by
    rw [← whole, groupLength_group inside]
    simp
  rw [whole, pieces_found (List.cons_ne_nil _ _) exact]

theorem blocks_group (inside : ∀ char ∈ inner, inBody char = true) :
    blocks ('(' :: (inner ++ ')' :: rest)) =
      ⟨true, pieces tokenLength ('(' :: (inner ++ [')']))⟩ :: blocks rest := by
  have exact : blockLength (('(' :: (inner ++ [')'])) ++ rest) =
      ('(' :: (inner ++ [')'])).length := by
    have whole : ('(' :: (inner ++ [')'])) ++ rest = '(' :: (inner ++ ')' :: rest) := by simp
    rw [whole, blockLength, groupLength_group inside]
    simp
  have cut := pieces_found (List.cons_ne_nil _ _) exact
  simp only [List.cons_append, List.append_assoc, List.nil_append] at cut
  have last : ('(' :: (inner ++ [')'])).getLast? = some ')' := by
    rw [← List.cons_append, List.getLast?_append]
    rfl
  rw [blocks, cut, List.map_cons, Block.ofPiece, last]
  rfl

theorem blocks_token (known : sigil ∈ sigils) (present : name ≠ [])
    (word : ∀ char ∈ name, isWord char = true) (ended : Text.word rest = [])
    (outside : groupLength (sigil ++ (name ++ rest)) = 0) :
    blocks (sigil ++ (name ++ rest)) = ⟨false, [.found (sigil ++ name)]⟩ :: blocks rest := by
  have exact : blockLength (sigil ++ (name ++ rest)) = (sigil ++ name).length := by
    simp only [blockLength, outside, tokenLength_token known present word ended,
      List.length_append]
  rw [← List.append_assoc] at exact
  have cut := pieces_found (List.append_ne_nil_of_left_ne_nil (sigil_ne_nil known) _) exact
  have unclosed : ((sigil ++ name).getLast? == some ')') = false := by
    rw [beq_eq_false_iff_ne]
    intro last
    have member : ')' ∈ name := by
      rw [List.getLast?_append_of_ne_nil sigil present] at last
      exact List.mem_of_getLast? last
    exact (isWord_ne_parenthesis (word _ member)).2 rfl
  rw [← List.append_assoc, blocks, cut, List.map_cons, Block.ofPiece, unclosed]
  rfl

theorem blocks_plain (outside : groupLength (char :: rest) = 0)
    (none : tokenLength (char :: rest) = 0) :
    blocks (char :: rest) = ⟨false, [.plain char]⟩ :: blocks rest := by
  have nothing : blockLength (char :: rest) = 0 := by simp only [blockLength, outside, none]
  rw [blocks, pieces_cons_plain nothing]
  rfl

end Cutting

/-- Cutting a pattern into tokens is cutting its blocks into tokens. -/
theorem pieces_blocks (pattern : List Char) :
    pieces tokenLength pattern = (blocks pattern).flatMap Block.pieces := by
  induction pattern using blocks_induction with
  | nil => rfl
  | group inner rest inside ih =>
    have whole := pieces_append_close ('(' :: inner) rest
    have alone := pieces_append_close ('(' :: inner) []
    simp only [List.cons_append] at whole alone
    rw [blocks_group inside, whole, List.flatMap_cons, alone, ih]
    simp [pieces, piecesAfter]
  | token sigil name rest known present word ended outside ih =>
    rw [blocks_token known present word ended outside, pieces_token known present word ended, ih]
    rfl
  | plain char rest outside none ih =>
    rw [blocks_plain outside none, pieces_cons_plain none, ih]
    rfl

/-- Cutting a pattern into groups only is taking its optional blocks for one piece each. -/
theorem pieces_groupLength (pattern : List Char) :
    pieces groupLength pattern = (blocks pattern).flatMap Block.outer := by
  induction pattern using blocks_induction with
  | nil => rfl
  | group inner rest inside ih =>
    have text : textOf (pieces tokenLength ('(' :: (inner ++ [')']))) = '(' :: (inner ++ [')']) :=
      flatMap_text_pieces tokenLength _
    rw [blocks_group inside, pieces_group inside, List.flatMap_cons, Block.outer, text, ih]
    rfl
  | token sigil name rest known present word ended outside ih =>
    obtain ⟨first, tail, same, _, plain⟩ := exists_tail_of_token known word
    have cut : pieces groupLength (tail ++ rest) =
        tail.map Piece.plain ++ pieces groupLength rest :=
      pieces_append_of_plain fun char member _ => groupLength_of_ne (plain char member).1
    rw [blocks_token known present word ended outside, ← List.append_assoc, same,
      List.cons_append, List.flatMap_cons, Block.outer, ← ih]
    rw [← List.append_assoc, same, List.cons_append] at outside
    rw [pieces_cons_plain outside, cut]
    simp [textOf, Piece.text]
  | plain char rest outside none ih =>
    rw [blocks_plain outside none, pieces_cons_plain outside, ih]
    rfl

end RoutePattern.Pattern
