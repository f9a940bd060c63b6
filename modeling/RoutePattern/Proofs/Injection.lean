import RoutePattern.Proofs.Encoding
import RoutePattern.Proofs.Meaning
import RoutePattern.Proofs.Rendering

/-! What a filled pattern spells. Filling works on places in the pattern, and the meaning
of a pattern on its outline; unless `(?:` stands in front of a word somewhere, both agree
on what the slots and the groups are. A slot that has been filled then spells its text, one
that has not spells its own name, and the groups that are gone are left out. -/
namespace RoutePattern.Pattern
open Text

/-- Does `(?:` never stand in front of a word? -/
def unmarked : List Char → Bool
  | [] => true
  | char :: rest =>
    !((char :: rest).take 3 == "(?:".toList && !(word (rest.drop 2)).isEmpty) && unmarked rest

/-- A segment as a block. -/
def Segment.block : Segment → Block
  | .single part => ⟨false, (Segment.single part).pieces⟩
  | .group inner => ⟨true, (Segment.group inner).pieces⟩

section Unmarked
variable {first second text rest : List Char} {char : Char}

private theorem unmarked_of_append (first : List Char) (free : unmarked (first ++ second) = true) :
    unmarked second = true := by
  induction first with
  | nil => exact free
  | cons char first ih =>
    simp only [List.cons_append, unmarked, Bool.and_eq_true] at free
    exact ih free.2

private theorem unmarked_of_cons (free : unmarked (char :: rest) = true) : unmarked rest = true :=
  unmarked_of_append [char] free

/-- Without marked tokens, tokens begin where slots do and are as long. -/
theorem tokenLength_of_unmarked (free : unmarked text = true) :
    tokenLength text = slotLength text := by
  cases text with
  | nil => rfl
  | cons char rest =>
    by_cases colon : char = ':'
    · subst colon
      have splat : splatLength (':' :: rest) = 0 := splatLength_of_ne (by decide)
      simp only [tokenLength, namedLength, splat, slotLength]
      split
      · rename_i none
        exact none.symm
      · rfl
    · by_cases opened : char = '('
      · subst opened
        have slot : slotLength ('(' :: rest) = 0 := slotLength_of_ne (by decide) (by decide)
        have splat : splatLength ('(' :: rest) = 0 := splatLength_of_ne (by decide)
        have named : namedLength ('(' :: rest) = 0 := by
          unfold namedLength
          split
          · rename_i same
            cases same
          · rename_i behind same
            cases same
            rw [unmarked, Bool.and_eq_true] at free
            have ended : word behind = [] := by simpa using free.1
            exact (lengthWithName_eq_zero_iff (by omega)).mpr ended
          · rfl
        simp only [tokenLength, named, splat, slot]
      · have named : namedLength (char :: rest) = 0 := namedLength_of_ne colon opened
        by_cases star : char = '*'
        · subst star
          simp only [tokenLength, named, splatLength, slotLength]
        · simp only [tokenLength, named, splatLength_of_ne star, slotLength_of_ne colon star]

private theorem pieces_of_unmarked (free : unmarked text = true) :
    pieces tokenLength text = pieces slotLength text := by
  induction text using parts_induction with
  | nil => rfl
  | slot kind name rest present word ended ih =>
    have slot := slotLength_slot kind present word ended
    have token : tokenLength (kind.sigil :: (name ++ rest)) = name.length + 1 := by
      rw [tokenLength_of_unmarked free, slot]
    have later := ih (unmarked_of_append (kind.sigil :: name) free)
    have cut (finder : Finder) (exact : finder (kind.sigil :: (name ++ rest)) = name.length + 1) :
        pieces finder (kind.sigil :: (name ++ rest)) =
          .found (kind.sigil :: name) :: pieces finder rest :=
      pieces_found (List.cons_ne_nil _ _) exact
    rw [cut _ token, cut _ slot, later]
  | literal char rest none ih =>
    have still : tokenLength (char :: rest) = 0 := by
      rw [tokenLength_of_unmarked free]
      exact none
    rw [pieces_cons_plain none, pieces_cons_plain still, ih (unmarked_of_cons free)]

theorem tokens_of_unmarked (free : unmarked text = true) : tokens text = slots text := by
  rw [tokens, slots, occurrences, occurrences, pieces_of_unmarked free]

/-- Without marked tokens the blocks are the segments of the outline. -/
theorem blocks_of_unmarked (free : unmarked text = true) :
    blocks text = (outline text).map Segment.block := by
  induction text using outline_induction with
  | nil => rfl
  | group inner rest inside ih =>
    have later : unmarked rest = true :=
      unmarked_of_append ('(' :: inner ++ [')']) (by simpa using free)
    have whole := pieces_of_unmarked free
    rw [pieces_outline, outline_group inside, List.flatMap_cons, ← pieces_outline,
      ← pieces_of_unmarked later, ← List.cons_append, pieces_append_close] at whole
    have alone := pieces_append_close ('(' :: inner) []
    have mine : pieces tokenLength ('(' :: inner) ++ [.plain ')'] =
        (Segment.group (parts inner)).pieces := by
      rw [← List.append_left_inj (pieces tokenLength rest)]
      simpa using whole
    rw [blocks_group inside, outline_group inside, ih later, List.map_cons, Segment.block, ← mine]
    rw [List.cons_append] at alone
    rw [alone]
    rfl
  | slot kind name rest present word ended ih =>
    have outside : groupLength (kind.sigil :: (name ++ rest)) = 0 :=
      groupLength_of_ne (sigil_ne_parenthesis kind).1
    have known : [kind.sigil] ∈ sigils := by cases kind <;> decide
    have cut := blocks_token known present word ended outside
    rw [List.singleton_append, List.singleton_append] at cut
    have later := ih (unmarked_of_append (kind.sigil :: name) free)
    rw [cut, outline_slot kind present word ended, later]
    rfl
  | literal char rest outside none ih =>
    have still : tokenLength (char :: rest) = 0 := by
      rw [tokenLength_of_unmarked free]
      exact none
    rw [blocks_plain outside still, outline_literal outside none, ih (unmarked_of_cons free)]
    rfl

end Unmarked

/-- A text that can be put into any slot: something is left of it without parentheses,
and neither a path nor a query is divided by it. -/
structure Fit (text : List Char) : Prop where
  visible : Visible text
  slash : '/' ∉ text
  mark : '?' ∉ text

theorem fit_encode {text : List Char} (visible : Visible (encode text)) : Fit (encode text) :=
  ⟨visible, not_mem_encode (by decide) (by decide), not_mem_encode (by decide) (by decide)⟩

section Spelling
variable {text name : List Char} {fillings : List (Option (List Char))}

theorem admits_eraseParentheses (kind : Kind) (fit : Fit text) :
    kind.Admits (eraseParentheses text) := by
  have slash : '/' ∉ eraseParentheses text :=
    fun member => fit.slash (mem_eraseParentheses member).1
  have mark : '?' ∉ eraseParentheses text :=
    fun member => fit.mark (mem_eraseParentheses member).1
  cases kind with
  | named => exact ⟨eraseParentheses_ne_nil fit.visible, slash, mark⟩
  | splat => exact mark

/-- A slot may spell its own sigil and name. -/
theorem admits_self (kind : Kind) (named : ∀ char ∈ name, isWord char = true) :
    kind.Admits (kind.sigil :: name) := by
  have absent (char : Char) (other : isWord char = false) (sigil : char ≠ kind.sigil) :
      char ∉ kind.sigil :: name := by
    intro member
    rcases List.mem_cons.mp member with same | member
    · exact sigil same
    · rw [named char member] at other
      cases other
  have slash := absent '/' (by decide) (by cases kind <;> decide)
  have mark := absent '?' (by decide) (by cases kind <;> decide)
  cases kind with
  | named => exact ⟨List.cons_ne_nil _ _, slash, mark⟩
  | splat => exact mark

theorem eraseParentheses_self (kind : Kind) (named : ∀ char ∈ name, isWord char = true) :
    eraseParentheses (kind.sigil :: name) = kind.sigil :: name :=
  eraseParentheses_of_plain (slot_ne_parenthesis kind named)

theorem weave_append (first second : List Piece) (fillings : List (Option (List Char))) :
    weave (first ++ second) fillings =
      weave first (fillings.take (foundCount first)) ++
        weave second (fillings.drop (foundCount first)) := by
  induction first generalizing fillings with
  | nil => rfl
  | cons piece first ih =>
    cases piece with
    | plain char => simp [weave, ih]
    | found text => cases fillings <;> simp [weave, ih]

theorem foundCount_append (first second : List Piece) :
    foundCount (first ++ second) = foundCount first + foundCount second := by
  simp [foundCount, List.filterMap_append]

theorem foundCount_parts (others : List Part) :
    foundCount (others.map Part.piece) = slotCount others := by
  rw [foundCount, slotCount, partKinds_eq, List.length_map]

theorem foundCount_segment (segment : Segment) :
    foundCount segment.pieces = slotCount segment.parts := by
  cases segment with
  | single part => exact foundCount_parts [part]
  | group inner =>
    rw [Segment.pieces, foundCount_plain, foundCount_append, foundCount_parts]
    rfl

/-- Parts spell what has been filled into their slots, without parentheses. -/
theorem partsSpell_weave (others : List Part) (clean : ∀ part ∈ others, part.Clean)
    (length : fillings.length = slotCount others)
    (fit : ∀ text, some text ∈ fillings → Fit text) :
    ∃ texts, PartsSpell others texts
        (eraseParentheses (weave (others.map Part.piece) fillings)) ∧
      ∀ given : List (List Char), fillings = given.map some →
        texts = given.map eraseParentheses := by
  induction others generalizing fillings with
  | nil =>
    have none : fillings = [] := List.eq_nil_of_length_eq_zero length
    subst none
    refine ⟨[], .nil, fun given same => ?_⟩
    have empty : given = [] := by simpa using same.symm
    rw [empty]
    rfl
  | cons part others ih =>
    have here := clean part (by simp)
    have later (other : Part) (member : other ∈ others) : other.Clean :=
      clean other (by simp [member])
    cases part with
    | literal char =>
      obtain ⟨texts, spelled, filled⟩ := ih later length fit
      have kept : eraseParentheses (char :: weave (others.map Part.piece) fillings) =
          char :: eraseParentheses (weave (others.map Part.piece) fillings) := by
        simp [eraseParentheses, here.1, here.2.1]
      refine ⟨texts, ?_, filled⟩
      rw [List.map_cons, Part.piece, weave, kept]
      exact .literal spelled
    | slot kind name =>
      cases fillings with
      | nil => simp [slotCount] at length
      | cons filling fillings =>
        obtain ⟨texts, spelled, filled⟩ := ih later (by simpa [slotCount] using length)
          fun text member => fit text (by simp [member])
        rw [List.map_cons, Part.piece, weave, List.headD_cons, List.tail_cons,
          eraseParentheses_append]
        cases filling with
        | none =>
          refine ⟨(kind.sigil :: name) :: texts, ?_, fun given same => ?_⟩
          · rw [Option.getD_none, eraseParentheses_self kind here.2]
            exact .slot (admits_self kind here.2) spelled
          · cases given <;> simp at same
        | some text =>
          refine ⟨eraseParentheses text :: texts, ?_, fun given same => ?_⟩
          · exact .slot (admits_eraseParentheses kind (fit text (by simp))) spelled
          · cases given with
            | nil => cases same
            | cons first given =>
              simp only [List.map_cons, List.cons.injEq, Option.some.injEq] at same
              rw [filled given same.2, same.1, List.map_cons]

/-- The parentheses of a group that is kept are erased with all others. -/
theorem eraseParentheses_weave_segment (segment : Segment)
    (length : fillings.length = slotCount segment.parts) :
    eraseParentheses (weave segment.pieces fillings) =
      eraseParentheses (weave (segment.parts.map Part.piece) fillings) := by
  cases segment with
  | single part => rfl
  | group inner =>
    rw [Segment.parts] at length ⊢
    have woven : weave (Segment.group inner).pieces fillings =
        '(' :: (weave (inner.map Part.piece) fillings ++ [')']) := by
      rw [Segment.pieces, weave, weave_append, foundCount_parts, ← length, List.take_length,
        List.drop_length]
      rfl
    rw [woven]
    simp [eraseParentheses]

/-- A segment spells what has been filled into it, or is left out where a slot is open. -/
theorem segmentSpells_filled (segment : Segment) (fillings : List (Option (List Char)))
    (clean : ∀ part ∈ segment.parts, part.Clean)
    (length : fillings.length = slotCount segment.parts)
    (fit : ∀ text, some text ∈ fillings → Fit text) :
    ∃ texts, SegmentSpells segment texts (eraseParentheses (segment.block.filled fillings)) := by
  obtain ⟨texts, spelled, _⟩ := partsSpell_weave segment.parts clean length fit
  rw [← eraseParentheses_weave_segment segment length] at spelled
  cases segment with
  | single part => exact ⟨_, texts, spelled, rfl⟩
  | group inner =>
    by_cases goes : fillings.any Option.isNone = true
    · refine ⟨_, .inr ⟨rfl, ?_⟩⟩
      simp [Block.filled, Segment.block, goes, eraseParentheses]
    · refine ⟨_, .inl ⟨texts, ?_, rfl⟩⟩
      simp only [Block.filled, Segment.block, goes, Bool.and_false]
      exact spelled

/-- Filled blocks spell a path, whichever of their slots have been filled. -/
theorem spells_weaveBlocks (segments : List Segment) (fillings : List (Option (List Char)))
    (clean : ∀ segment ∈ segments, ∀ part ∈ segment.parts, part.Clean)
    (length : fillings.length = (kinds segments).length)
    (fit : ∀ text, some text ∈ fillings → Fit text) :
    ∃ texts, Spells segments texts
      (eraseParentheses (weaveBlocks (segments.map Segment.block) fillings)) := by
  induction segments generalizing fillings with
  | nil => exact ⟨[], .nil⟩
  | cons segment segments ih =>
    have count : foundCount segment.block.pieces = slotCount segment.parts := by
      rw [← foundCount_segment segment]
      cases segment <;> rfl
    have total : (kinds (segment :: segments)).length =
        slotCount segment.parts + (kinds segments).length := by
      rw [kinds_cons, List.length_append, slotCount]
    obtain ⟨before, here⟩ := segmentSpells_filled segment
      (fillings.take (slotCount segment.parts)) (clean segment (by simp))
      (by rw [List.length_take]; omega) fun text member => fit text (List.mem_of_mem_take member)
    obtain ⟨after, later⟩ := ih (fillings.drop (slotCount segment.parts))
      (fun other member => clean other (by simp [member]))
      (by rw [List.length_drop]; omega) fun text member => fit text (List.mem_of_mem_drop member)
    refine ⟨before ++ after, ?_⟩
    rw [List.map_cons, weaveBlocks, count, eraseParentheses_append]
    exact spells_cons_iff.mpr ⟨before, after, _, _, here, later, rfl, rfl⟩

end Spelling

section Patterns
variable {pattern : List Char} {slot : Slot} {text : List Char}

/-- A slot holds the text that it was given last, or what it held before. -/
theorem filling_place (kind : Kind) (given : List Char) (slots : List Slot)
    (member : slot ∈ place kind given slots) (filled : slot.filling = some text) :
    text = given ∨ ∃ other ∈ slots, other.filling = some text := by
  induction slots with
  | nil => cases member
  | cons first slots ih =>
    rw [place] at member
    split at member
    · rcases List.mem_cons.mp member with rfl | member
      · simp only [Option.some.injEq] at filled
        exact .inl filled.symm
      · exact .inr ⟨slot, by simp [member], filled⟩
    · rcases List.mem_cons.mp member with rfl | member
      · exact .inr ⟨slot, by simp, filled⟩
      · rcases ih member with same | ⟨other, among, before⟩
        · exact .inl same
        · exact .inr ⟨other, by simp [among], before⟩

private theorem filling_foldl (pattern : List Char) (texts : List (List Char)) (slots : List Slot)
    (member : slot ∈ texts.foldl
      (fun slots text => place (nextKind pattern slots) text slots) slots)
    (filled : slot.filling = some text) :
    text ∈ texts ∨ ∃ other ∈ slots, other.filling = some text := by
  induction texts generalizing slots with
  | nil => exact .inr ⟨slot, member, filled⟩
  | cons given texts ih =>
    rcases ih _ member with inside | ⟨other, among, before⟩
    · exact .inl (by simp [inside])
    · rcases filling_place _ _ _ among before with rfl | earlier
      · exact .inl (by simp)
      · exact .inr earlier

/-- Slots hold nothing but texts that were given out. -/
theorem filling_fillSlots (pattern : List Char) (texts : List (List Char))
    (member : slot ∈ fillSlots pattern texts) (filled : slot.filling = some text) :
    text ∈ texts := by
  rcases filling_foldl pattern texts _ member filled with inside | ⟨other, among, before⟩
  · exact inside
  · obtain ⟨token, _, rfl⟩ := List.mem_map.mp among
    cases before

theorem length_fillSlots (texts : List (List Char)) (free : unmarked pattern = true) :
    ((fillSlots pattern texts).map Slot.filling).length = (kinds (outline pattern)).length := by
  rw [List.length_map, ← List.length_map Slot.token, map_token_fillSlots,
    tokens_of_unmarked free, ← kind_slots, List.length_map]

theorem fill_of_unmarked (texts : List (List Char)) (free : unmarked pattern = true) :
    fill pattern texts = weaveBlocks ((outline pattern).map Segment.block)
      ((fillSlots pattern texts).map Slot.filling) := by
  rw [fill_eq_weaveBlocks, blocks_of_unmarked free]

/-- A filled pattern spells a path, if the texts in its slots are fit for it. -/
theorem spells_fill (pattern : List Char) (texts : List (List Char))
    (grammatical : Grammatical pattern) (free : unmarked pattern = true)
    (fit : ∀ slot ∈ fillSlots pattern texts, ∀ text ∈ slot.filling, Fit text) :
    ∃ given, Spells (outline pattern) given (eraseParentheses (fill pattern texts)) := by
  rw [fill_of_unmarked texts free]
  apply spells_weaveBlocks
  · exact outline_clean pattern grammatical
  · exact length_fillSlots texts free
  · intro text member
    obtain ⟨slot, among, filled⟩ := List.mem_map.mp member
    exact fit slot among text filled

/-- A pattern without its groups spells a path, in which every slot stands for itself. -/
theorem spells_dropGroups (pattern : List Char) :
    ∃ given, Spells (outline pattern) given (dropGroups pattern) := by
  induction pattern using outline_induction with
  | nil => exact ⟨[], .nil⟩
  | group inner rest inside ih =>
    obtain ⟨given, spelled⟩ := ih
    have dropped : dropGroups ('(' :: (inner ++ ')' :: rest)) = dropGroups rest := by
      rw [dropGroups, replace, pieces_group inside]
      rfl
    rw [outline_group inside, dropped]
    exact ⟨_, .left spelled⟩
  | slot kind name rest present word ended ih =>
    obtain ⟨given, spelled⟩ := ih
    have plain := slot_ne_parenthesis kind word
    have kept : dropGroups (kind.sigil :: name ++ rest) = kind.sigil :: name ++ dropGroups rest :=
      replace_append_of_plain fun char member _ => groupLength_of_ne (plain char member).1
    have self : PartsSpell [.slot kind name] [kind.sigil :: name] (kind.sigil :: name ++ []) :=
      .slot (admits_self kind word) .nil
    rw [List.append_nil] at self
    rw [List.cons_append] at kept
    rw [outline_slot kind present word ended, kept]
    exact ⟨_, .single self spelled⟩
  | literal char rest outside none ih =>
    obtain ⟨given, spelled⟩ := ih
    have kept : dropGroups (char :: rest) = [char] ++ dropGroups rest :=
      replace_cons_plain outside
    rw [outline_literal outside none, kept]
    exact ⟨_, .single (.literal .nil) spelled⟩

end Patterns

end RoutePattern.Pattern
