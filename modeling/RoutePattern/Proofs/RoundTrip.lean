import RoutePattern.Proofs.Acceptance
import RoutePattern.Proofs.Allotment
import RoutePattern.Proofs.Shape

/-! Building and matching undo each other. Captures come in reading order and values are
given out kind by kind, so that one way dealing and the other way collecting leads from one
order to the other. What is between them is the address that the parts of the pattern spell
with the texts of all their slots: a path is built by weaving it, and what is captured is
one way of taking it apart, where the pattern leaves a choice the first one. -/
namespace RoutePattern.Pattern
open Text

section Parts
variable {others : List Part} {texts : List (List Char)} {url : List Char} {char : Char}

/-- Parts spell their characters with the texts of their slots in between. -/
theorem weave_of_partsSpell (spelled : PartsSpell others texts url) :
    weave (others.map Part.piece) (texts.map some) = url := by
  induction spelled with
  | nil => rfl
  | literal later ih => exact congrArg _ ih
  | slot admitted later ih => exact congrArg _ ih

/-- What parts spell consists of their characters and of the texts. -/
theorem mem_of_partsSpell (spelled : PartsSpell others texts url) (member : char ∈ url) :
    .literal char ∈ others ∨ ∃ text ∈ texts, char ∈ text := by
  induction spelled with
  | nil => cases member
  | literal later ih =>
    rcases List.mem_cons.mp member with rfl | member
    · exact .inl (by simp)
    · exact (ih member).imp_left fun inside => by simp [inside]
  | slot admitted later ih =>
    rcases List.mem_append.mp member with member | member
    · exact .inr ⟨_, by simp, member⟩
    · rcases ih member with inside | ⟨text, among, inside⟩
      · exact .inl (by simp [inside])
      · exact .inr ⟨text, by simp [among], inside⟩

/-- Where no text is empty, only no parts at all spell nothing. -/
theorem eq_nil_of_partsSpell (spelled : PartsSpell others texts [])
    (present : ∀ text ∈ texts, text ≠ []) : others = [] := by
  generalize same : ([] : List Char) = empty at spelled
  cases spelled with
  | nil => rfl
  | literal later => cases same
  | slot admitted later =>
    have both := List.append_eq_nil_iff.mp same.symm
    exact absurd both.1 (present _ (by simp))

/-- A slash at the end of what is spelled stands in the pattern. -/
theorem getLast?_of_partsSpell (spelled : PartsSpell others texts url)
    (present : ∀ text ∈ texts, text ≠ []) (clear : ∀ text ∈ texts, '/' ∉ text)
    (final : url.getLast? = some '/') : (others.flatMap Part.text).getLast? = some '/' := by
  induction spelled with
  | nil => cases final
  | literal later ih =>
    rename_i rest _ behind char
    rw [List.flatMap_cons, List.getLast?_append]
    cases behind with
    | nil =>
      rw [eq_nil_of_partsSpell later present]
      exact final
    | cons next behind =>
      rw [List.getLast?_cons_cons] at final
      rw [ih present clear final]
      rfl
  | slot admitted later ih =>
    rename_i kind text rest _ behind name
    rw [List.flatMap_cons, List.getLast?_append]
    rw [List.getLast?_append] at final
    cases ended : behind.getLast? with
    | none =>
      rw [ended, Option.none_or] at final
      exact absurd (List.mem_of_getLast? final) (clear text (by simp))
    | some last =>
      rw [ended, Option.some_or] at final
      rw [ih (fun other member => present other (by simp [member]))
        (fun other member => clear other (by simp [member])) (ended.trans final)]
      rfl

end Parts

section Segments
variable {segments : List Segment} {pattern path : List Char}

/-- Where all slots are filled every group is kept, and its parentheses are erased. -/
theorem eraseParentheses_weaveBlocks (segments : List Segment) (given : List (List Char))
    (length : given.length = (kinds segments).length) :
    eraseParentheses (weaveBlocks (segments.map Segment.block) (given.map some)) =
      eraseParentheses
        (weave ((segments.flatMap Segment.parts).map Part.piece) (given.map some)) := by
  induction segments generalizing given with
  | nil => rfl
  | cons segment segments ih =>
    have own : segment.block.pieces = segment.pieces := by cases segment <;> rfl
    have count : foundCount segment.block.pieces = slotCount segment.parts := by
      rw [own, foundCount_segment]
    have total : (kinds (segment :: segments)).length =
        slotCount segment.parts + (kinds segments).length := by
      rw [kinds_cons, List.length_append, slotCount]
    have taken : ((given.take (slotCount segment.parts)).map some).length =
        slotCount segment.parts := by
      rw [List.length_map, List.length_take]
      omega
    have here := eraseParentheses_weave_segment segment taken
    have later := ih (given.drop (slotCount segment.parts)) (by rw [List.length_drop]; omega)
    have kept : segment.block.filled ((given.take (slotCount segment.parts)).map some) =
        weave segment.pieces ((given.take (slotCount segment.parts)).map some) := by
      have full : ((given.take (slotCount segment.parts)).map some).any Option.isNone = false := by
        rw [List.any_map, List.any_eq_false]
        intro text _
        simp
      rw [Block.filled, own, full, Bool.and_false]
      rfl
    rw [List.map_cons, weaveBlocks, count, ← List.map_take, ← List.map_drop, kept,
      eraseParentheses_append, here, later, List.flatMap_cons, List.map_append, weave_append,
      foundCount_parts, eraseParentheses_append, List.map_take, List.map_drop]

/-- A path for which no slot is left open is spelled by all parts, if no group is without
a slot. -/
theorem partsSpell_of_spells {fillings : List (Option (List Char))}
    (spelled : Spells segments fillings path) (full : none ∉ fillings)
    (held : ∀ inner, .group inner ∈ segments → slotCount inner ≠ 0) :
    ∃ texts, fillings = texts.map some ∧
      PartsSpell (segments.flatMap Segment.parts) texts path := by
  induction spelled with
  | nil => exact ⟨[], rfl, .nil⟩
  | single here later ih =>
    obtain ⟨texts, same, further⟩ := ih (fun member => full (by simp [member]))
      fun inner member => held inner (by simp [member])
    refine ⟨_ ++ texts, by rw [same, List.map_append], ?_⟩
    exact (partsSpell_append_iff _ _).mpr ⟨_, _, _, _, here, further, rfl, rfl⟩
  | kept here later ih =>
    obtain ⟨texts, same, further⟩ := ih (fun member => full (by simp [member]))
      fun inner member => held inner (by simp [member])
    refine ⟨_ ++ texts, by rw [same, List.map_append], ?_⟩
    exact (partsSpell_append_iff _ _).mpr ⟨_, _, _, _, here, further, rfl, rfl⟩
  | left later ih =>
    rename_i inner
    have slotted := held inner (by simp)
    exact absurd (by simp [slotted]) full

/-- A group of an outline is one of the pattern. -/
theorem mem_groups_of_outline (pattern : List Char) {others : List Part}
    (member : .group others ∈ outline pattern) :
    ∃ group ∈ groups pattern, ∃ inner, group.text = '(' :: (inner ++ [')']) ∧
      others = parts inner := by
  have found : ∃ inner, .found ('(' :: (inner ++ [')'])) ∈ pieces groupLength pattern ∧
      others = parts inner := by
    induction pattern using outline_induction with
    | nil => cases member
    | group inner rest inside ih =>
      rw [outline_group inside] at member
      rw [pieces_group inside]
      rcases List.mem_cons.mp member with same | member
      · cases same
        exact ⟨inner, by simp, rfl⟩
      · obtain ⟨other, among, same⟩ := ih member
        exact ⟨other, by simp [among], same⟩
    | slot kind name rest present word ended ih =>
      have cut : pieces groupLength (kind.sigil :: name ++ rest) =
          (kind.sigil :: name).map Piece.plain ++ pieces groupLength rest :=
        pieces_append_of_plain fun char member _ =>
          groupLength_of_ne (slot_ne_parenthesis kind word char member).1
      rw [outline_slot kind present word ended] at member
      rw [← List.cons_append, cut]
      rcases List.mem_cons.mp member with same | member
      · cases same
      · obtain ⟨other, among, same⟩ := ih member
        exact ⟨other, List.mem_append_right _ among, same⟩
    | literal char rest outside none ih =>
      rw [outline_literal outside none] at member
      rw [pieces_cons_plain outside]
      rcases List.mem_cons.mp member with same | member
      · cases same
      · obtain ⟨other, among, same⟩ := ih member
        exact ⟨other, by simp [among], same⟩
  obtain ⟨inner, among, same⟩ := found
  have text : '(' :: (inner ++ [')']) ∈ (groups pattern).map Occurrence.text := by
    rw [groups, occurrences, map_text_locate, List.mem_filterMap]
    exact ⟨_, among, rfl⟩
  obtain ⟨group, listed, exact⟩ := List.mem_map.mp text
  exact ⟨group, listed, inner, exact, same⟩

/-- The text of a group stands in the pattern. -/
theorem mem_of_mem_group {group : Occurrence} {char : Char} (listed : group ∈ groups pattern)
    (member : char ∈ group.text) : char ∈ pattern := by
  have text : group.text ∈ (groups pattern).map Occurrence.text := List.mem_map_of_mem listed
  rw [groups, occurrences, map_text_locate] at text
  obtain ⟨piece, among, same⟩ := List.mem_filterMap.mp text
  rw [← flatMap_text_pieces groupLength pattern, List.mem_flatMap]
  refine ⟨piece, among, ?_⟩
  cases piece with
  | plain char => cases same
  | found found =>
    cases same
    exact member

/-- Where each group holds a token, each group of the outline has a slot. -/
theorem slotCount_of_tokens (mark : '?' ∉ pattern)
    (held : ∀ group ∈ groups pattern, tokens group.text ≠ []) :
    ∀ others, .group others ∈ outline pattern → slotCount others ≠ 0 := by
  intro others member
  obtain ⟨group, listed, inner, text, rfl⟩ := mem_groups_of_outline pattern member
  have free := unmarked_of_not_mem fun inside => mark (mem_of_mem_group listed inside)
  have closed : word [')'] = [] := by decide
  have opening : slotLength ('(' :: (inner ++ [')'])) = 0 :=
    slotLength_of_ne (by decide) (by decide)
  have count : (tokens group.text).length = slotCount (parts inner) := by
    rw [length_tokens_of_unmarked free, text, parts_literal opening, parts_append inner closed]
    show slotCount (parts inner ++ [.literal ')']) = slotCount (parts inner)
    simp [slotCount, partKinds, Part.kind?, List.filterMap_cons]
  rw [← count]
  exact fun none => held group listed (List.eq_nil_of_length_eq_zero none)

end Segments

section Filling
variable {pattern : List Char}

private theorem parts_outline_clean (grammatical : Grammatical pattern) :
    ∀ part ∈ (outline pattern).flatMap Segment.parts, part.Clean := by
  intro part member
  obtain ⟨segment, among, inside⟩ := List.mem_flatMap.mp member
  exact outline_clean pattern grammatical segment among part inside

/-- The tokens of a pattern without marked ones are the slots of its outline. -/
theorem tokenKinds_of_unmarked (free : unmarked pattern = true) :
    tokenKinds pattern = kinds (outline pattern) := by
  rw [tokenKinds, tokens_of_unmarked free, kind_slots]

/-- A pattern whose slots are all filled is spelled by its parts with these texts. -/
theorem partsSpell_fill (texts given : List (List Char)) (grammatical : Grammatical pattern)
    (free : unmarked pattern = true)
    (filled : (fillSlots pattern texts).map Slot.filling = given.map some)
    (fit : ∀ text ∈ given, Fit text) :
    PartsSpell ((outline pattern).flatMap Segment.parts) (given.map eraseParentheses)
      (eraseParentheses (fill pattern texts)) := by
  have length : given.length = (kinds (outline pattern)).length := by
    rw [← length_fillSlots texts free, filled, List.length_map]
  have fits : ∀ text, some text ∈ given.map some → Fit text := by
    intro text member
    exact fit text (by simpa using member)
  obtain ⟨spelling, spelled, same⟩ := partsSpell_weave ((outline pattern).flatMap Segment.parts)
    (parts_outline_clean grammatical) ((List.length_map some).trans length) fits
  rw [fill_of_unmarked texts free, filled, eraseParentheses_weaveBlocks _ _ length,
    ← same given rfl]
  exact spelled

/-- As many texts as there are tokens are dealt to all of them. -/
theorem map_filling_of_length (texts : List (List Char))
    (length : texts.length = (tokens pattern).length)
    (colons : hasLooseColon pattern = false) (free : ∀ text ∈ texts, ':' ∉ text) :
    (fillSlots pattern texts).map Slot.filling =
      allot (tokenKinds pattern) (texts.take (namedCount pattern))
        (texts.drop (namedCount pattern)) := by
  have total := namedCount_add_count_splat pattern
  have enough : namedCount pattern ≤ (texts.take (namedCount pattern)).length := by
    rw [List.length_take]
    omega
  have dealt := map_filling_fillSlots pattern texts free
  rw [surplus, if_neg (by simp [colons])] at dealt
  rw [dealt, ← allot_append_of_full _ _ _ (texts.drop (namedCount pattern)) enough,
    List.take_append_drop]

/-- Texts that are given out kind by kind come into the slots they were read from. -/
theorem map_filling_byKind (texts : List (List Char))
    (length : texts.length = (tokens pattern).length)
    (colons : hasLooseColon pattern = false) (free : ∀ text ∈ texts, ':' ∉ text) :
    (fillSlots pattern (byKind (tokenKinds pattern) texts)).map Slot.filling =
      texts.map some := by
  have kinds : texts.length = (tokenKinds pattern).length := by
    rw [length_tokenKinds, length]
  have same := length_byKind (tokenKinds pattern) texts kinds
  have clear : ∀ text ∈ byKind (tokenKinds pattern) texts, ':' ∉ text :=
    fun text member => free text (mem_of_mem_byKind _ _ member)
  rw [map_filling_of_length _ (same.trans length) colons clear, byKind, namedCount,
    ← length_collect .named _ texts kinds, List.take_left, List.drop_left,
    allot_collect _ _ kinds]

/-- With a fit text for each token, a filled pattern is spelled with what is left of these
texts, in the order in which they are dealt. -/
theorem exists_partsSpell_fill (texts : List (List Char)) (grammatical : Grammatical pattern)
    (mark : '?' ∉ pattern) (colons : hasLooseColon pattern = false)
    (length : texts.length = (tokens pattern).length)
    (fit : ∀ text ∈ texts, Fit text) (free : ∀ text ∈ texts, ':' ∉ text) :
    ∃ given : List (List Char),
      allot (tokenKinds pattern) ((texts.map eraseParentheses).take (namedCount pattern))
        ((texts.map eraseParentheses).drop (namedCount pattern)) = given.map some ∧
      PartsSpell ((outline pattern).flatMap Segment.parts) given
        (eraseParentheses (fill pattern texts)) ∧
      ∀ text ∈ given, Kind.named.Admits text := by
  have total := namedCount_add_count_splat pattern
  have named : namedCount pattern ≤ (texts.take (namedCount pattern)).length := by
    rw [List.length_take]
    omega
  have splat : (tokenKinds pattern).count .splat ≤
      (texts.drop (namedCount pattern)).length := by
    rw [List.length_drop]
    omega
  have dealt := map_filling_of_length texts length colons free
  obtain ⟨given, full⟩ := exists_allot_eq (tokenKinds pattern) _ _ named splat
  have fits : ∀ text ∈ given, Fit text := by
    intro text member
    have among : some text ∈ given.map some := List.mem_map_of_mem member
    rw [← full] at among
    have origin := mem_of_some_mem_allot _ _ _ among
    rw [List.take_append_drop] at origin
    exact fit text origin
  refine ⟨given.map eraseParentheses, ?_, ?_, ?_⟩
  · rw [← List.map_take, ← List.map_drop, allot_map, full, List.map_map, List.map_map]
    rfl
  · exact partsSpell_fill texts given grammatical (unmarked_of_not_mem mark)
      (dealt.trans full) fits
  · intro text member
    obtain ⟨whole, among, rfl⟩ := List.mem_map.mp member
    exact admits_eraseParentheses .named (fits whole among)

end Filling

section Paths
variable {pattern path : List Char} {texts : List (List Char)}

/-- An address in which every slot has captured a text is spelled by all parts, with the
query behind them. -/
theorem partsSpell_of_captures? {url : List Char} {query : Option (List Char)}
    (matched : (route pattern).captures? url = some (texts.map some ++ [query]))
    (mark : '?' ∉ pattern) (held : ∀ group ∈ groups pattern, tokens group.text ≠ []) :
    ∃ path, PartsSpell ((outline pattern).flatMap Segment.parts) texts path ∧
      url = path ++ querySuffix query := by
  obtain ⟨fillings, path, suffix, spelling, whole, captured⟩ := Route.spells_of_captures? matched
  obtain ⟨filled, behind⟩ := List.append_inj' captured rfl
  rw [← filled] at spelling
  obtain ⟨given, exact, spelled⟩ := partsSpell_of_spells spelling (by simp)
    (slotCount_of_tokens mark held)
  have same : texts = given := List.map_injective_iff.mpr (Option.some_injective _) exact
  rw [List.singleton_inj] at behind
  exact ⟨path, same ▸ spelled, behind ▸ whole⟩

/-- A character that is neither in the pattern nor in a text is not in the path. -/
theorem not_mem_of_partsSpell {char : Char}
    (spelled : PartsSpell ((outline pattern).flatMap Segment.parts) texts path)
    (absent : char ∉ pattern) (clear : ∀ text ∈ texts, char ∉ text) : char ∉ path := by
  intro member
  rcases mem_of_partsSpell spelled member with literal | ⟨text, among, inside⟩
  · exact absent (mem_of_literal_mem_outline literal)
  · exact clear text among inside

/-- A path that all parts of a pattern spell is built again from its texts, if these are
given out kind by kind. -/
theorem eraseParentheses_fill_byKind
    (spelled : PartsSpell ((outline pattern).flatMap Segment.parts) texts path)
    (grammatical : Grammatical pattern) (mark : '?' ∉ pattern)
    (colons : hasLooseColon pattern = false)
    (plain : ∀ text ∈ texts, ∀ char ∈ text, char ≠ '(' ∧ char ≠ ')' ∧ char ≠ ':') :
    eraseParentheses (fill pattern (byKind (tokenKinds pattern) texts)) = path := by
  have free := unmarked_of_not_mem mark
  have length : texts.length = (kinds (outline pattern)).length := length_of_partsSpell spelled
  have counted : texts.length = (tokens pattern).length := by
    rw [length, ← tokenKinds_of_unmarked free, length_tokenKinds]
  have filled := map_filling_byKind texts counted colons fun text among member =>
    (plain text among ':' member).2.2 rfl
  have clean : ∀ char ∈ path, char ≠ '(' ∧ char ≠ ')' := by
    intro char member
    rcases mem_of_partsSpell spelled member with literal | ⟨text, among, inside⟩
    · have part := parts_outline_clean grammatical _ literal
      exact ⟨part.1, part.2.1⟩
    · have parts := plain text among char inside
      exact ⟨parts.1, parts.2.1⟩
  rw [fill_of_unmarked _ free, filled, eraseParentheses_weaveBlocks _ _ length,
    weave_of_partsSpell spelled, eraseParentheses_of_plain clean]

/-- Where the pattern without its parentheses does not end in a slash, no path does. -/
theorem dropFinalSlash_of_partsSpell
    (spelled : PartsSpell ((outline pattern).flatMap Segment.parts) texts path)
    (grouped : flat false pattern = true) (whole : wholeSegments pattern = true)
    (final : (eraseParentheses pattern).getLast? ≠ some '/')
    (admitted : ∀ text ∈ texts, Kind.named.Admits text) : dropFinalSlash path = path := by
  have kept : path.getLast? ≠ some '/' := by
    intro last
    have ends := getLast?_of_partsSpell spelled (fun text member => (admitted text member).1)
      (fun text member => (admitted text member).2.1) last
    rw [← parts_eraseParentheses pattern grouped whole, text_parts] at ends
    exact final ends
  exact dropFinalSlash_of_ne kept

/-- Behind a path without a question mark the query can be cut off. -/
theorem takeWhile_querySuffix (mark : '?' ∉ path) (query : Option (List Char)) :
    (path ++ querySuffix query).takeWhile (· != '?') = path := by
  apply takeWhile_append_of_head mark
  cases query with
  | none => exact .inl rfl
  | some text => exact .inr rfl

end Paths

end RoutePattern.Pattern

namespace RoutePattern
open Pattern Text

/-- What is left of a value in a path. -/
def shown (value : Value) : List Char := eraseParentheses (component value)

private theorem path_of_list (pattern : List Char) {values : List Value} (present : values ≠ []) :
    (Arguments.ofValue (.list values)).path pattern =
      .ok (dropFinalSlash (eraseParentheses (fill pattern (values.map component)))) := by
  cases values with
  | nil => exact absurd rfl present
  | cons value values => exact path_of_sequence rfl rfl

/-- A text of unreserved characters is its own component. -/
theorem component_text {text : List Char}
    (unreserved : ∀ char ∈ text, isUnreserved char = true) :
    component (.text (String.ofList text)) = text := by
  have spoken : (Value.text (String.ofList text)).spoken = text := String.toList_ofList
  rw [component, spoken, encode_of_unreserved unreserved]

private theorem map_component_text {texts : List (List Char)}
    (unreserved : ∀ text ∈ texts, ∀ char ∈ text, isUnreserved char = true) :
    (texts.map fun text => Value.text (String.ofList text)).map component = texts := by
  induction texts with
  | nil => rfl
  | cons text texts ih =>
    rw [List.map_cons, List.map_cons, component_text (unreserved text (by simp)),
      ih fun other member => unreserved other (by simp [member])]

/-- A path that was built with one value for each token captures these values again. They
stand in reading order: the first values are dealt to the named tokens, and those behind
them to the splat tokens. -/
theorem captures_of_built_path (pattern : String) (values : List Value)
    (mark : '?' ∉ pattern.toList) (grammatical : Grammatical pattern.toList)
    (colons : hasLooseColon pattern.toList = false)
    (whole : wholeSegments pattern.toList = true)
    (apart : ∀ piece ∈ (eraseParentheses pattern.toList).splitOn '/', (tokens piece).length ≤ 1)
    (final : (eraseParentheses pattern.toList).getLast? ≠ some '/')
    (present : values ≠ []) (length : values.length = (tokens pattern.toList).length)
    (visible : ∀ value ∈ values, Visible (component value)) :
    ∃ (url : String) (route : Route) (given : List (List Char)),
      fillPath (.text pattern) (.list values) = .ok url ∧
      Route.compile pattern.toList = .ok route ∧
      allot (tokenKinds pattern.toList)
        ((values.map shown).take (namedCount pattern.toList))
        ((values.map shown).drop (namedCount pattern.toList)) = given.map some ∧
      route.captures? url.toList = some (given.map some ++ [none]) := by
  have counted : (values.map component).length = (tokens pattern.toList).length := by
    rw [List.length_map, length]
  have fit : ∀ text ∈ values.map component, Fit text := by
    intro text member
    obtain ⟨value, among, rfl⟩ := List.mem_map.mp member
    exact fit_encode (visible value among)
  have free : ∀ text ∈ values.map component, ':' ∉ text := by
    intro text member
    obtain ⟨value, _, rfl⟩ := List.mem_map.mp member
    exact not_mem_encode (by decide) (by decide)
  obtain ⟨given, dealt, spelled, admitted⟩ :=
    exists_partsSpell_fill _ grammatical mark colons counted fit free
  have spaces := spaced_parts_of_tokens (eraseParentheses pattern.toList)
    (fun inside => mark (mem_eraseParentheses inside).1) apart
  rw [parts_eraseParentheses pattern.toList grammatical.grouped whole] at spaces
  have unmarked := not_mem_of_partsSpell spelled mark fun text member => (admitted text member).2.2
  have path := path_of_list pattern.toList present
  rw [dropFinalSlash_of_partsSpell spelled grammatical.grouped whole final admitted] at path
  rw [List.map_map] at dealt
  refine ⟨_, _, given, fillPath_text path, compile_grammatical _ grammatical, dealt, ?_⟩
  rw [String.toList_ofList]
  exact Route.captures?_of_partsSpell spelled spaces
    (wholeGroups_outline pattern.toList grammatical.grouped whole)
    (fun text member => (admitted text member).2.1) unmarked

/-- The named slot stands last and gets the first value; of the other one a parenthesis is
lost, but not the slash, which is encoded. -/
theorem captures_of_built_path_splat_first :
    '?' ∉ "/*rest(/x-:id)/e".toList ∧ Grammatical "/*rest(/x-:id)/e".toList ∧
      ∃ (url : String) (route : Route) (given : List (List Char)),
        fillPath (.text "/*rest(/x-:id)/e") (.list [.int 5, .text "a/(b"]) = .ok url ∧
        Route.compile "/*rest(/x-:id)/e".toList = .ok route ∧
        allot (tokenKinds "/*rest(/x-:id)/e".toList)
          (([.int 5, .text "a/(b"].map shown).take (namedCount "/*rest(/x-:id)/e".toList))
          (([.int 5, .text "a/(b"].map shown).drop (namedCount "/*rest(/x-:id)/e".toList)) =
            given.map some ∧
        route.captures? url.toList = some (given.map some ++ [none]) := by
  refine ⟨by decide, by decide, ?_⟩
  apply captures_of_built_path "/*rest(/x-:id)/e" [.int 5, .text "a/(b"]
  · decide
  · decide
  · decide
  · decide
  · decide
  · decide
  · exact List.cons_ne_nil _ _
  · decide
  · decide

/-- A path is built again from the texts that were captured in it, if these stand for
themselves in a path. -/
theorem built_path_of_captures (pattern url : String) (route : Route)
    (texts : List (List Char)) (query : Option (List Char))
    (present : tokens pattern.toList ≠ []) (mark : '?' ∉ pattern.toList)
    (grammatical : Grammatical pattern.toList)
    (held : ∀ group ∈ groups pattern.toList, tokens group.text ≠ [])
    (colons : hasLooseColon pattern.toList = false)
    (compiled : Route.compile pattern.toList = .ok route)
    (matched : route.captures? url.toList = some (texts.map some ++ [query]))
    (plain : ∀ text ∈ texts, ∀ char ∈ text,
      isUnreserved char = true ∧ char ≠ '(' ∧ char ≠ ')') :
    fillPath (.text pattern) (.list ((byKind (tokenKinds pattern.toList) texts).map
        fun text => .text (String.ofList text))) =
      .ok (String.ofList (dropFinalSlash (url.toList.takeWhile (· != '?')))) := by
  have same := compile_grammatical pattern.toList grammatical
  rw [compiled, Except.ok.injEq] at same
  rw [same] at matched
  obtain ⟨path, spelled, whole⟩ := partsSpell_of_captures? matched mark held
  have clear (char : Char) (reserved : isUnreserved char = false) :
      ∀ text ∈ texts, char ∉ text := by
    intro text among member
    rw [(plain text among char member).1] at reserved
    cases reserved
  have rebuilt := eraseParentheses_fill_byKind spelled grammatical mark colons
    fun text among char member => ⟨(plain text among char member).2.1,
      (plain text among char member).2.2, fun colon =>
        clear ':' (by decide) text among (colon ▸ member)⟩
  have unreserved : ∀ text ∈ byKind (tokenKinds pattern.toList) texts, ∀ char ∈ text,
      isUnreserved char = true :=
    fun text member char inside => (plain text (mem_of_mem_byKind _ _ member) char inside).1
  have some : (byKind (tokenKinds pattern.toList) texts).map
      (fun text => Value.text (String.ofList text)) ≠ [] := by
    have kinds : texts.length = (tokenKinds pattern.toList).length := by
      rw [tokenKinds_of_unmarked (unmarked_of_not_mem mark)]
      exact length_of_partsSpell spelled
    have positive : 0 < (tokens pattern.toList).length := List.length_pos_iff.mpr present
    rw [← List.length_pos_iff, List.length_map, length_byKind _ _ kinds, kinds,
      length_tokenKinds]
    exact positive
  have unmarked := not_mem_of_partsSpell spelled mark (clear '?' (by decide))
  have path := path_of_list pattern.toList some
  rw [map_component_text unreserved, rebuilt] at path
  rw [fillPath_text path, whole, takeWhile_querySuffix unmarked]

/-- The texts change places on their way to the slots, and the slash in front of the query
is lost. -/
theorem built_path_of_captures_splat_first :
    Grammatical "/*rest(/x-:id)/".toList ∧
      (Pattern.route "/*rest(/x-:id)/".toList).captures? "/a.b/x-5/?q".toList =
        some (["a.b".toList, "5".toList].map some ++ [some "q".toList]) ∧
      fillPath (.text "/*rest(/x-:id)/") (.list ((byKind
          (tokenKinds "/*rest(/x-:id)/".toList) ["a.b".toList, "5".toList]).map
            fun text => .text (String.ofList text))) =
        .ok (String.ofList (dropFinalSlash ("/a.b/x-5/?q".toList.takeWhile (· != '?')))) := by
  have grammatical : Grammatical "/*rest(/x-:id)/".toList := by decide
  have matched : (Pattern.route "/*rest(/x-:id)/".toList).captures? "/a.b/x-5/?q".toList =
      some (["a.b".toList, "5".toList].map some ++ [some "q".toList]) := by rfl
  refine ⟨grammatical, matched, ?_⟩
  apply built_path_of_captures "/*rest(/x-:id)/" "/a.b/x-5/?q" (Pattern.route _) _
    (some "q".toList)
  · decide
  · decide
  · exact grammatical
  · decide
  · decide
  · exact compile_grammatical _ grammatical
  · exact matched
  · simp [isUnreserved, Char.isAlphanum, Char.isAlpha, Char.isUpper, Char.isLower, Char.isDigit]

end RoutePattern
