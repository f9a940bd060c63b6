import RoutePattern.Proofs.Injection
import RoutePattern.Proofs.Priority

/-! The shape of a pattern as its text shows it: that groups hold whole path segments can be
seen from the characters behind the parentheses, and that slots are apart from each other
by splitting at the slashes. Both carry over to the outline. -/
namespace RoutePattern.Pattern
open Text

/-- Is there a slash behind every opening parenthesis, and a slash, an opening parenthesis
or nothing behind every closing one? -/
def wholeSegments : List Char → Bool
  | [] => true
  | char :: rest =>
    (char != '(' || rest.head? == some '/') &&
      (char != ')' || rest.head?.all fun next => next == '/' || next == '(') &&
      wholeSegments rest

section Parentheses
variable {rest : List Char}

private theorem wholeSegments_of_append (first : List Char) {second : List Char}
    (whole : wholeSegments (first ++ second) = true) : wholeSegments second = true := by
  induction first with
  | nil => exact whole
  | cons char first ih =>
    rw [List.cons_append, wholeSegments, Bool.and_eq_true] at whole
    exact ih whole.2

private theorem wholeSegments_open (whole : wholeSegments ('(' :: rest) = true) :
    ∃ more, rest = '/' :: more := by
  have head : rest.head? = some '/' := by
    have facts : rest.head? = some '/' ∧ wholeSegments rest = true := by
      simpa [wholeSegments] using whole
    exact facts.1
  exact List.head?_eq_some_iff.mp head

private theorem wholeSegments_close (whole : wholeSegments (')' :: rest) = true) :
    rest = [] ∨ (∃ more, rest = '/' :: more) ∨ ∃ more, rest = '(' :: more := by
  cases rest with
  | nil => exact .inl rfl
  | cons next rest =>
    have facts : (next = '/' ∨ next = '(') ∧ wholeSegments (next :: rest) = true := by
      simpa [wholeSegments] using whole
    rcases facts.1 with rfl | rfl
    · exact .inr (.inl ⟨rest, rfl⟩)
    · exact .inr (.inr ⟨rest, rfl⟩)

/-- Where a group may end, a path segment does in the outline. -/
theorem opening_outline (grouped : flat false rest = true)
    (whole : wholeSegments (')' :: rest) = true) : Opening (outline rest) := by
  rcases wholeSegments_close whole with rfl | ⟨more, rfl⟩ | ⟨more, rfl⟩
  · trivial
  · have outside : groupLength ('/' :: more) = 0 := groupLength_of_ne (by decide)
    have none : slotLength ('/' :: more) = 0 := slotLength_of_ne (by decide) (by decide)
    rw [outline_literal outside none]
    rfl
  · have balanced : flat true more = true := by simpa [flat] using grouped
    obtain ⟨inner, behind, same, inside⟩ :=
      eq_group_of_groupLength (groupLength_of_flat balanced)
    rw [same, outline_group inside]
    trivial

/-- Groups that hold whole segments in the text of a pattern do so in its outline. -/
theorem wholeGroups_outline (pattern : List Char) (grouped : flat false pattern = true)
    (whole : wholeSegments pattern = true) : WholeGroups (outline pattern) := by
  induction pattern using outline_induction with
  | nil => trivial
  | group inner rest inside ih =>
    have balanced : flat true (inner ++ ')' :: rest) = true := by simpa [flat] using grouped
    obtain ⟨_, later⟩ := flat_group inside balanced
    have close : wholeSegments (')' :: rest) = true :=
      wholeSegments_of_append ('(' :: inner) whole
    obtain ⟨more, begins⟩ := wholeSegments_open whole
    rw [outline_group inside]
    refine ⟨?_, opening_outline later close, ih later (wholeSegments_of_append [')'] close)⟩
    cases inner with
    | nil => cases begins
    | cons first inner =>
      cases begins
      rw [parts_literal (slotLength_of_ne (by decide) (by decide))]
      rfl
  | slot kind name rest present word ended ih =>
    rw [outline_slot kind present word ended]
    exact ih (flat_of_slot kind word grouped)
      (wholeSegments_of_append (kind.sigil :: name) whole)
  | literal char rest outside none ih =>
    rw [outline_literal outside none]
    exact ih (ne_parenthesis_of_flat outside grouped).2.2 (wholeSegments_of_append [char] whole)

end Parentheses

section Erasing
variable {char : Char} {name rest second : List Char}

theorem parts_append (text : List Char) (ended : word rest = []) :
    parts (text ++ rest) = parts text ++ parts rest := by
  have back : Part.ofPiece ∘ Part.piece = id := by
    funext part
    cases part with
    | literal char => rfl
    | slot kind name => cases kind <;> rfl
  rw [parts, pieces_append_parts text ended, List.map_append, List.map_map, back, List.map_id]
  rfl

/-- Where groups hold whole segments, erasing parentheses does not lengthen a name. -/
theorem word_eraseParentheses (whole : wholeSegments rest = true) (ended : word rest = []) :
    word (eraseParentheses rest) = [] := by
  have slash (more : List Char) : word (eraseParentheses ('/' :: more)) = [] := by
    have kept : eraseParentheses ('/' :: more) = '/' :: eraseParentheses more := rfl
    rw [kept]
    exact word_cons_of_not (by decide)
  cases rest with
  | nil => rfl
  | cons char rest =>
    have behind := wholeSegments_of_append [char] whole
    by_cases opened : char = '('
    · subst opened
      obtain ⟨more, rfl⟩ := wholeSegments_open whole
      exact slash more
    · by_cases closed : char = ')'
      · subst closed
        rcases wholeSegments_close whole with rfl | ⟨more, rfl⟩ | ⟨more, rfl⟩
        · rfl
        · exact slash more
        · obtain ⟨further, rfl⟩ := wholeSegments_open behind
          exact slash further
      · have kept : eraseParentheses (char :: rest) = char :: eraseParentheses rest := by
          simp [eraseParentheses, opened, closed]
        rw [kept]
        by_cases accepted : isWord char = true
        · simp [word, accepted] at ended
        · exact word_cons_of_not (by simpa using accepted)

/-- Without its parentheses a pattern has the parts of its outline, one after the other. -/
theorem parts_eraseParentheses (pattern : List Char) (grouped : flat false pattern = true)
    (whole : wholeSegments pattern = true) :
    parts (eraseParentheses pattern) = (outline pattern).flatMap Segment.parts := by
  induction pattern using outline_induction with
  | nil => rfl
  | group inner rest inside ih =>
    have balanced : flat true (inner ++ ')' :: rest) = true := by simpa [flat] using grouped
    obtain ⟨plain, later⟩ := flat_group inside balanced
    have close : wholeSegments (')' :: rest) = true :=
      wholeSegments_of_append ('(' :: inner) whole
    have further := ih later (wholeSegments_of_append [')'] close)
    have closed : word (')' :: rest) = [] := word_cons_of_not (by decide)
    have ended := word_eraseParentheses close closed
    have dropped : eraseParentheses (')' :: rest) = eraseParentheses rest := rfl
    rw [dropped] at ended
    have erased : eraseParentheses ('(' :: (inner ++ ')' :: rest)) =
        inner ++ eraseParentheses rest := by
      simpa [eraseParentheses] using plain
    rw [outline_group inside, List.flatMap_cons, erased, parts_append inner ended, further]
    rfl
  | slot kind name rest present word ended ih =>
    have behind := wholeSegments_of_append (kind.sigil :: name) whole
    have further := ih (flat_of_slot kind word grouped) behind
    have erased : eraseParentheses (kind.sigil :: name ++ rest) =
        kind.sigil :: name ++ eraseParentheses rest := by
      rw [eraseParentheses_append, eraseParentheses_self kind word]
    rw [List.cons_append] at erased
    rw [outline_slot kind present word ended, List.flatMap_cons, erased, List.cons_append,
      parts_slot kind present word (word_eraseParentheses behind ended), further]
    rfl
  | literal char rest outside none ih =>
    obtain ⟨notOpen, notClose, later⟩ := ne_parenthesis_of_flat outside grouped
    have behind := wholeSegments_of_append [char] whole
    have erased : eraseParentheses (char :: rest) = char :: eraseParentheses rest := by
      simp [eraseParentheses, notOpen, notClose]
    have still : slotLength (char :: eraseParentheses rest) = 0 := by
      by_cases sigil : ∃ kind, char = Kind.sigil kind
      · obtain ⟨kind, rfl⟩ := sigil
        rw [slotLength_sigil_eq_zero_iff] at none ⊢
        exact word_eraseParentheses behind none
      · exact slotLength_of_ne (fun colon => sigil ⟨.named, colon⟩)
          fun star => sigil ⟨.splat, star⟩
    rw [outline_literal outside none, List.flatMap_cons, erased, parts_literal still,
      ih later behind]
    rfl

end Erasing

section Distances
variable {text rest : List Char}

theorem unmarked_of_not_mem (mark : '?' ∉ text) : unmarked text = true := by
  induction text with
  | nil => rfl
  | cons char text ih =>
    have later := ih fun member => mark (List.mem_cons_of_mem _ member)
    have other : ((char :: text).take 3 == "(?:".toList) = false := by
      rw [beq_eq_false_iff_ne]
      intro same
      have member : '?' ∈ (char :: text).take 3 := by
        rw [same]
        decide
      exact mark (List.mem_of_mem_take member)
    rw [unmarked, other, later]
    rfl

theorem length_tokens_of_unmarked (free : unmarked text = true) :
    (tokens text).length = slotCount (parts text) := by
  have nothing : word [] = [] := rfl
  have cut := pieces_append_parts text nothing
  rw [List.append_nil] at cut
  rw [tokens_of_unmarked free, slots, List.length_map, occurrences, length_locate, cut,
    foundCount_append, foundCount_parts]
  rfl

/-- At most one slot in front of what begins a segment is not too much. -/
theorem spaced_append_of_few {taken : Bool} (others behind : List Part)
    (few : slotCount others + taken.toNat ≤ 1) (later : ∀ taken, spaced taken behind = true) :
    spaced taken (others ++ behind) = true := by
  induction others generalizing taken with
  | nil => exact later taken
  | cons part others ih =>
    cases part with
    | literal char =>
      have kept : (taken && char != '/').toNat ≤ taken.toNat := by
        cases taken <;> simp [Bool.toNat_le]
      have fewer : slotCount others + taken.toNat ≤ 1 := few
      exact ih (by omega)
    | slot kind name =>
      have count : slotCount (.slot kind name :: others) = slotCount others + 1 := rfl
      rw [count] at few
      cases taken with
      | true => simp at few
      | false =>
        have rest : slotCount others + (true : Bool).toNat ≤ 1 := by simpa using few
        exact ih rest

/-- Slots are apart if no piece between slashes has more than one. -/
theorem spaced_parts_of_splitOn (text : List Char)
    (few : ∀ piece ∈ text.splitOn '/', slotCount (parts piece) ≤ 1) :
    spaced false (parts text) = true := by
  have joined : ['/'].intercalate (text.splitOn '/') = text := List.intercalate_splitOn '/'
  generalize text.splitOn '/' = split at few joined
  subst joined
  induction split with
  | nil => rfl
  | cons piece split ih =>
    have first := few piece (by simp)
    have later := ih fun other member => few other (by simp [member])
    cases split with
    | nil =>
      rw [List.intercalate_singleton, ← List.append_nil (parts piece)]
      exact spaced_append_of_few (parts piece) [] first fun _ => rfl
    | cons next split =>
      have slash : word ('/' :: ['/'].intercalate (next :: split)) = [] :=
        word_cons_of_not (by decide)
      have none : slotLength ('/' :: ['/'].intercalate (next :: split)) = 0 :=
        slotLength_of_ne (by decide) (by decide)
      rw [List.intercalate_cons_cons, List.append_assoc, List.singleton_append,
        parts_append piece slash, parts_literal none]
      refine spaced_append_of_few (parts piece) _ (by simpa using first) fun taken => ?_
      simpa [spaced] using later

/-- The pieces of a split text have no characters of their own. -/
theorem mem_of_mem_splitOn {char sign : Char} {piece : List Char}
    (among : piece ∈ text.splitOn sign) (member : char ∈ piece) : char ∈ text := by
  have joined : [sign].intercalate (text.splitOn sign) = text := List.intercalate_splitOn sign
  generalize text.splitOn sign = split at among joined
  subst joined
  induction split with
  | nil => cases among
  | cons first split ih =>
    cases split with
    | nil =>
      rw [List.mem_singleton.mp among] at member
      rw [List.intercalate_singleton]
      exact member
    | cons next split =>
      rw [List.intercalate_cons_cons, List.append_assoc, List.mem_append]
      rcases List.mem_cons.mp among with rfl | among
      · exact .inl member
      · exact .inr (List.mem_append_right [sign] (ih among))

/-- Tokens are slots that are apart if no piece between slashes has more than one. -/
theorem spaced_parts_of_tokens (text : List Char) (mark : '?' ∉ text)
    (few : ∀ piece ∈ text.splitOn '/', (tokens piece).length ≤ 1) :
    spaced false (parts text) = true := by
  apply spaced_parts_of_splitOn
  intro piece among
  have free := unmarked_of_not_mem fun member => mark (mem_of_mem_splitOn among member)
  rw [← length_tokens_of_unmarked free]
  exact few piece among

end Distances

end RoutePattern.Pattern
