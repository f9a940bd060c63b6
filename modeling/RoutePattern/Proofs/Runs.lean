import RoutePattern.Proofs.Rewriting

/-! The tokens of a pattern, told from its places and not by a scan. A scan misses nothing: a place
belongs to an occurrence, or none begins there. So the slots of a pattern are exactly the sigils
with the longest names behind them, and its tokens are these slots again, of which the named ones
take in a `(?` that stands directly in front of them. -/
namespace RoutePattern.Text

/-- Scanning a text: every text is empty, or begins with a character where nothing is found, or
with an occurrence, behind which the scan goes on. -/
@[elab_as_elim]
theorem scan_induction (finder : Finder) {motive : List Char → Prop} (nil : motive [])
    (plain : ∀ char rest, finder (char :: rest) = 0 → motive rest → motive (char :: rest))
    (found : ∀ char rest more, finder (char :: rest) = more + 1 → motive (rest.drop more) →
      motive (char :: rest)) (text : List Char) : motive text := by
  refine stretch_induction nil (fun char rest => ?_) text
  cases here : finder (char :: rest) with
  | zero => exact ⟨[char], rest, rfl, List.cons_ne_nil _ _, plain char rest here⟩
  | succ more =>
    refine ⟨char :: rest.take more, rest.drop more, ?_, List.cons_ne_nil _ _,
      found char rest more here⟩
    rw [List.cons_append, List.take_append_drop]

section Scan
variable {finder : Finder} {text : List Char} {found : Occurrence} {place : Nat}

/-- What was found is what the finder finds at its place. -/
theorem finder_of_mem_locate (member : found ∈ locate place (pieces finder text)) :
    ∃ more, finder (text.drop (found.start - place)) = more + 1 ∧
      found.text = (text.drop (found.start - place)).take (more + 1) := by
  induction text using scan_induction finder generalizing place with
  | nil => cases member
  | plain char rest none ih =>
    rw [pieces_cons_plain none, locate] at member
    have bounds := Pattern.locate_bounds (Pattern.proper_pieces finder rest) member
    have split : found.start - place = found.start - (place + 1) + 1 := by omega
    rw [split, List.drop_succ_cons]
    exact ih member
  | found char rest more here ih =>
    rw [pieces_cons_found here, locate] at member
    rcases List.mem_cons.mp member with rfl | member
    · refine ⟨more, ?_, ?_⟩ <;> simp [here]
    · have bounds := Pattern.locate_bounds (Pattern.proper_pieces finder (rest.drop more)) member
      have further := ih member
      have long : more < rest.length := by
        by_contra beyond
        rw [List.drop_eq_nil_of_le (by omega)] at member
        cases member
      rw [List.length_cons, List.length_take, Nat.min_eq_left (by omega)] at bounds further
      have split : found.start - place = more + (found.start - (place + (more + 1))) + 1 := by
        omega
      rwa [split, List.drop_succ_cons, ← List.drop_drop]

/-- A place belongs to an occurrence, or none begins there. -/
theorem covered_or_zero_locate {here : Nat} (after : place ≤ here)
    (before : here < place + text.length) :
    (∃ found ∈ locate place (pieces finder text), found.start ≤ here ∧ here < found.stop) ∨
      finder (text.drop (here - place)) = 0 := by
  induction text using scan_induction finder generalizing place with
  | nil =>
    rw [List.length_nil] at before
    omega
  | plain char rest none ih =>
    rw [List.length_cons] at before
    by_cases same : here = place
    · right
      rw [same, Nat.sub_self, List.drop_zero, none]
    · have split : here - place = here - (place + 1) + 1 := by omega
      rw [pieces_cons_plain none, locate, split, List.drop_succ_cons]
      exact ih (by omega) (by omega)
  | found char rest more first ih =>
    rw [List.length_cons] at before
    rw [pieces_cons_found first, locate]
    by_cases within : here < place + (char :: rest.take more).length
    · exact .inl ⟨_, List.mem_cons_self, after, within⟩
    · rw [List.length_cons, List.length_take] at within ⊢
      have long : more ≤ rest.length := by omega
      rw [Nat.min_eq_left long] at within ⊢
      have after : place + (more + 1) ≤ here := by omega
      have further := ih after (by rw [List.length_drop]; omega)
      have split : here - place = more + (here - (place + (more + 1))) + 1 := by omega
      rw [split, List.drop_succ_cons, ← List.drop_drop]
      rcases further with ⟨found, member, covered⟩ | none
      · exact .inl ⟨found, List.mem_cons_of_mem _ member, covered⟩
      · exact .inr none

theorem finder_of_mem_occurrences (member : found ∈ occurrences finder text) :
    ∃ more, finder (text.drop found.start) = more + 1 ∧
      found.text = (text.drop found.start).take (more + 1) :=
  finder_of_mem_locate member

private theorem covered_or_zero (finder : Finder) (inside : place < text.length) :
    (∃ found ∈ occurrences finder text, found.start ≤ place ∧ place < found.stop) ∨
      finder (text.drop place) = 0 :=
  covered_or_zero_locate (Nat.zero_le place) (by omega)

/-- A character of an occurrence stands in the text. -/
theorem getElem?_of_covered (member : found ∈ occurrences finder text)
    (after : found.start ≤ place) (before : place < found.stop) :
    found.text[place - found.start]? = text[place]? := by
  obtain ⟨more, _, same⟩ := finder_of_mem_occurrences member
  have short : found.text.length ≤ more + 1 := by
    rw [same]
    exact List.length_take_le _ _
  rw [Occurrence.stop] at before
  rw [same, List.getElem?_take_of_lt (by omega), List.getElem?_drop, Nat.add_sub_cancel' after]

end Scan

end RoutePattern.Text

namespace RoutePattern.Pattern
open Text

/-- ASCII letters, digits and low lines, at least one of them. -/
structure IsName (name : List Char) : Prop where
  present : name ≠ []
  word : ∀ char ∈ name, isWord char = true

/-- A sigil at its place in a pattern, with the longest name behind it. -/
structure IsRun (pattern : List Char) (run : Token) : Prop where
  written : ∃ name, run.text = run.kind.sigil :: name ∧ IsName name
  stands : (pattern.drop run.start).take run.text.length = run.text
  longest : ∀ char, pattern[run.stop]? = some char → isWord char = false

/-- What may stand directly in front of a named token as a part of it. -/
def mark : List Char := "(?".toList

/-- Does the mark stand directly in front of a place? -/
def markedAt (pattern : List Char) (place : Nat) : Bool := mark.isSuffixOf (pattern.take place)

/-- A token without the mark. -/
def Token.unmarked (token : Token) : Token :=
  if isMarked token.text then ⟨token.kind, token.start + 2, token.text.drop 2⟩ else token

section Marks
variable {token : Token} {kind : Kind} {name text : List Char}

theorem isMarked_of_bare (bare : text = kind.sigil :: name) : isMarked text = false := by
  rw [bare]
  cases kind <;> rfl

theorem isMarked_of_marked (marked : text = mark ++ ':' :: name) : isMarked text = true := by
  rw [marked]
  rfl

theorem Token.unmarked_of_bare (bare : token.text = kind.sigil :: name) :
    token.unmarked = token := by
  rw [unmarked, isMarked_of_bare bare, if_neg Bool.false_ne_true]

theorem Token.unmarked_of_marked (marked : token.text = mark ++ ':' :: name) :
    token.unmarked = ⟨token.kind, token.start + 2, ':' :: name⟩ := by
  rw [unmarked, isMarked_of_marked marked, if_pos rfl, marked]
  rfl

theorem Token.kind_unmarked (token : Token) : token.unmarked.kind = token.kind := by
  rw [unmarked]
  split <;> rfl

end Marks

section Slots
variable {pattern rest : List Char} {run : Token}

private theorem lt_length_of_drop {place : Nat} {char : Char}
    (split : pattern.drop place = char :: rest) : place < pattern.length := by
  by_contra beyond
  rw [List.drop_eq_nil_of_le (by omega)] at split
  cases split

private theorem word_eq_nil_iff {text : List Char} :
    word text = [] ↔ ∀ char, text[0]? = some char → isWord char = false := by
  cases text with
  | nil => simp [word]
  | cons char text => cases accepted : isWord char <;> simp [word, accepted]

/-- A run stands with its sigil and its name in front of what is behind it. -/
theorem IsRun.drop_eq (isRun : IsRun pattern run) :
    ∃ name rest, run.text = run.kind.sigil :: name ∧ IsName name ∧
      pattern.drop run.start = run.kind.sigil :: (name ++ rest) ∧ word rest = [] := by
  obtain ⟨name, text, isName⟩ := isRun.written
  refine ⟨name, pattern.drop run.stop, text, isName, ?_, ?_⟩
  · have split := (List.take_append_drop run.text.length (pattern.drop run.start)).symm
    rw [isRun.stands, List.drop_drop, ← Token.stop] at split
    rw [← List.cons_append, ← text, split]
  · rw [word_eq_nil_iff]
    intro char first
    rw [List.getElem?_drop] at first
    exact isRun.longest char first

private theorem isRun_of_drop_eq {kind : Kind} {start : Nat} {name : List Char}
    (isName : IsName name)
    (split : pattern.drop start = kind.sigil :: (name ++ rest)) (ended : word rest = []) :
    IsRun pattern ⟨kind, start, kind.sigil :: name⟩ := by
  refine ⟨⟨name, rfl, isName⟩, ?_, ?_⟩
  · rw [split, ← List.cons_append]
    exact List.take_left' rfl
  · intro char behind
    have here : (pattern.drop start)[name.length + 1]? = rest[0]? := by
      rw [split, List.getElem?_cons_succ, List.getElem?_append_right (Nat.le_refl _), Nat.sub_self]
    rw [List.getElem?_drop] at here
    exact word_eq_nil_iff.mp ended char (here ▸ behind)

/-- Where a run begins its kind and its name are settled. -/
theorem IsRun.eq_of_start {other : Token} (isRun : IsRun pattern run)
    (isOther : IsRun pattern other) (same : run.start = other.start) : run = other := by
  obtain ⟨name, rest, text, isName, split, ended⟩ := isRun.drop_eq
  obtain ⟨name', rest', text', isName', split', ended'⟩ := isOther.drop_eq
  rw [same, split', List.cons.injEq] at split
  have kind : run.kind = other.kind := by
    revert split
    cases run.kind <;> cases other.kind <;> simp [Kind.sigil]
  have names : name = name' := by
    rw [← word_append isName.word ended, ← word_append isName'.word ended', split.2]
  rw [Token.mk.injEq]
  exact ⟨kind, same, by rw [text, text', kind, names]⟩

/-- A sigil is not part of a name, so no run begins within another one. -/
theorem IsRun.start_eq_of_covers {other : Token} (isRun : IsRun pattern run)
    (isOther : IsRun pattern other) (after : other.start ≤ run.start)
    (before : run.start < other.stop) : other.start = run.start := by
  obtain ⟨name, rest, text, isName, split, _⟩ := isRun.drop_eq
  obtain ⟨name', rest', text', isName', split', _⟩ := isOther.drop_eq
  by_contra apart
  have bound : run.start - other.start - 1 < name'.length := by
    rw [Token.stop, text', List.length_cons] at before
    omega
  have first : pattern[run.start]? = some run.kind.sigil := by
    rw [← Nat.add_zero run.start, ← List.getElem?_drop, split, List.getElem?_cons_zero]
  have within : pattern[run.start]? = some name'[run.start - other.start - 1] := by
    have place : run.start = other.start + (run.start - other.start - 1 + 1) := by omega
    conv_lhs => rw [place]
    rw [← List.getElem?_drop, split', List.getElem?_cons_succ, List.getElem?_append_left bound,
      List.getElem?_eq_getElem bound]
  rw [first, Option.some_inj] at within
  have accepted := isName'.word _ (List.getElem_mem bound)
  rw [← within] at accepted
  revert accepted
  cases run.kind <;> decide

theorem isRun_of_mem_slots (member : run ∈ slots pattern) : IsRun pattern run := by
  obtain ⟨found, listed, rfl⟩ := List.mem_map.mp member
  obtain ⟨more, length, text⟩ := finder_of_mem_occurrences listed
  have present : slotLength (pattern.drop found.start) ≠ 0 := by omega
  obtain ⟨kind, name, rest, split, present, word, ended⟩ := eq_slot_of_slotLength present
  rw [split] at length text
  rw [slotLength_slot kind present word ended] at length
  have written : found.text = kind.sigil :: name := by
    rw [text, ← length, ← List.cons_append]
    exact List.take_left' rfl
  have told : Token.ofOccurrence found = ⟨kind, found.start, kind.sigil :: name⟩ := by
    rw [Token.ofOccurrence, written]
    cases kind <;> rfl
  rw [told]
  exact isRun_of_drop_eq ⟨present, word⟩ split ended

/-- The slots of a pattern are the sigils with the longest names behind them. -/
theorem mem_slots_iff : run ∈ slots pattern ↔ IsRun pattern run := by
  refine ⟨isRun_of_mem_slots, fun isRun => ?_⟩
  obtain ⟨name, rest, text, isName, split, ended⟩ := isRun.drop_eq
  rcases covered_or_zero slotLength (lt_length_of_drop split) with
    ⟨found, listed, after, before⟩ | none
  · have member : Token.ofOccurrence found ∈ slots pattern := List.mem_map_of_mem listed
    have isOther := isRun_of_mem_slots member
    rwa [isRun.eq_of_start isOther (isRun.start_eq_of_covers isOther after before).symm]
  · rw [split, slotLength_slot run.kind isName.present isName.word ended] at none
    cases none

theorem slots_pairwise_places (pattern : List Char) :
    (slots pattern).Pairwise fun one other => one.stop ≤ other.start := by
  rw [slots, List.pairwise_map]
  exact locate_pairwise (proper_pieces slotLength pattern)

end Slots

section Tokens
variable {pattern : List Char} {token : Token} {found : Occurrence}

private theorem token_of_mem_occurrences (listed : found ∈ occurrences tokenLength pattern) :
    ∃ sigil name rest, sigil ∈ sigils ∧ IsName name ∧ found.text = sigil ++ name ∧
      pattern.drop found.start = sigil ++ (name ++ rest) ∧ word rest = [] := by
  obtain ⟨more, length, text⟩ := finder_of_mem_occurrences listed
  have present : tokenLength (pattern.drop found.start) ≠ 0 := by omega
  obtain ⟨sigil, name, rest, known, split, present, word, ended⟩ := eq_token_of_tokenLength present
  refine ⟨sigil, name, rest, known, ⟨present, word⟩, ?_, split, ended⟩
  rw [split] at length text
  rw [tokenLength_token known present word ended] at length
  rw [text, ← length, ← List.append_assoc]
  exact List.take_left' List.length_append

/-- Without the mark the tokens among pieces are the slots among them. -/
theorem map_unmarked_locate (place : Nat) (text : List Char) :
    ((locate place (pieces tokenLength text)).map Token.ofOccurrence).map Token.unmarked =
      (locate place (pieces slotLength text)).map Token.ofOccurrence := by
  induction text using tokens_induction generalizing place with
  | nil => rfl
  | token sigil name rest known present word ended ih =>
    have cut (kind : Kind) : pieces slotLength (kind.sigil :: (name ++ rest)) =
        .found (kind.sigil :: name) :: pieces slotLength rest :=
      pieces_found (List.cons_ne_nil _ _) (slotLength_slot kind present word ended)
    rw [pieces_token known present word ended, locate, List.map_cons, List.map_cons, ih]
    simp only [sigils, List.mem_cons, List.not_mem_nil, or_false] at known
    rcases known with rfl | rfl | rfl
    · exact congrArg (List.map Token.ofOccurrence) (congrArg (locate place) (cut .named)).symm
    · exact congrArg (List.map Token.ofOccurrence) (congrArg (locate place) (cut .splat)).symm
    · have opening : slotLength ('(' :: '?' :: ':' :: (name ++ rest)) = 0 :=
        slotLength_of_ne (by decide) (by decide)
      have question : slotLength ('?' :: ':' :: (name ++ rest)) = 0 :=
        slotLength_of_ne (by decide) (by decide)
      have marked : pieces slotLength ("(?:".toList ++ (name ++ rest)) =
          .plain '(' :: .plain '?' :: .found (':' :: name) :: pieces slotLength rest :=
        (pieces_cons_plain opening).trans
          (congrArg _ ((pieces_cons_plain question).trans (congrArg _ (cut .named))))
      have behind : place + ("(?:".toList ++ name).length =
          place + 1 + 1 + (':' :: name).length := by
        rw [List.length_append, List.length_cons]
        show place + (3 + name.length) = _
        omega
      rw [marked, locate, locate, locate, List.map_cons, behind]
      rfl
  | plain char rest none ih =>
    have still : slotLength (char :: rest) = 0 := by
      by_contra found
      obtain ⟨kind, name, behind, same, present, word, ended⟩ := eq_slot_of_slotLength found
      rw [same, show kind.sigil :: (name ++ behind) = [kind.sigil] ++ (name ++ behind) from rfl,
        tokenLength_token (by cases kind <;> decide) present word ended] at none
      simp at none
    rw [pieces_cons_plain none, pieces_cons_plain still]
    exact ih (place + 1)

/-- Without the mark the tokens of a pattern are its slots. -/
theorem map_unmarked_tokens (pattern : List Char) :
    (tokens pattern).map Token.unmarked = slots pattern :=
  map_unmarked_locate 0 pattern

/-- Where the longest possible token would begin with its mark, the token that is found does. -/
theorem exists_marked_occurrence {name : List Char} {place : Nat} (isName : IsName name)
    (split : pattern.drop place = mark ++ ':' :: (name ++ rest)) (ended : word rest = []) :
    ∃ found ∈ occurrences tokenLength pattern,
      found.start = place ∧ found.text = mark ++ ':' :: name := by
  have known : "(?:".toList ∈ sigils := by decide
  have length : tokenLength (pattern.drop place) = "(?:".toList.length + name.length := by
    rw [split]
    exact tokenLength_token known isName.present isName.word ended
  rcases covered_or_zero tokenLength (lt_length_of_drop split) with
    ⟨found, listed, after, before⟩ | none
  · by_cases start : found.start = place
    · obtain ⟨more, exact, text⟩ := finder_of_mem_occurrences listed
      refine ⟨found, listed, start, ?_⟩
      rw [start, length] at exact
      rw [text, start, ← exact, split]
      show ("(?:".toList ++ name ++ rest).take ("(?:".toList.length + name.length) = _
      rw [← List.length_append, List.take_left]
      rfl
    · -- a token that has begun before would have the parenthesis behind its first character
      obtain ⟨sigil, other, _, among, isOther, text, _⟩ := token_of_mem_occurrences listed
      obtain ⟨first, tail, same, _, outside⟩ := exists_tail_of_token among isOther.word
      have opening : pattern[place]? = some '(' := by
        rw [← Nat.add_zero place, ← List.getElem?_drop, split]
        rfl
      have later : place - found.start = place - found.start - 1 + 1 := by omega
      rw [← getElem?_of_covered listed after before, text, same, later,
        List.getElem?_cons_succ] at opening
      exact absurd rfl (outside '(' (List.mem_of_getElem? opening)).1
  · rw [none] at length
    exact absurd length.symm (Nat.ne_of_gt (Nat.add_pos_left (by decide) _))

/-- The mark in front of a place ends what stands in front of it. -/
theorem drop_of_markedAt {place : Nat} (marked : markedAt pattern place = true)
    (inside : place ≤ pattern.length) :
    ∃ front, place = front + 2 ∧ pattern.drop front = mark ++ pattern.drop place := by
  obtain ⟨front, same⟩ := List.isSuffixOf_iff_suffix.mp marked
  have length := congrArg List.length same
  rw [List.length_append, List.length_take, Nat.min_eq_left inside] at length
  refine ⟨front.length, length.symm, ?_⟩
  have split := List.take_append_drop place pattern
  rw [← same, List.append_assoc] at split
  conv_lhs => rw [← split]
  exact List.drop_left

private theorem markedAt_of_drop {place : Nat} (split : pattern.drop place = mark ++ rest) :
    markedAt pattern (place + 2) = true := by
  refine List.isSuffixOf_iff_suffix.mpr ⟨pattern.take place, ?_⟩
  rw [List.take_add, split]
  rfl

/-- A token is a sigil and a name, or the mark and a named one, and nothing goes on behind it. -/
theorem token_cases (member : token ∈ tokens pattern) :
    ∃ name rest, IsName name ∧ pattern.drop token.start = token.text ++ rest ∧ word rest = [] ∧
      (token.text = token.kind.sigil :: name ∨
        token.kind = .named ∧ token.text = mark ++ ':' :: name) := by
  obtain ⟨found, listed, rfl⟩ := List.mem_map.mp member
  obtain ⟨sigil, name, rest, known, isName, text, stands, ended⟩ := token_of_mem_occurrences listed
  refine ⟨name, rest, isName, ?_, ended, ?_⟩
  · show pattern.drop found.start = found.text ++ rest
    rw [stands, text, List.append_assoc]
  · simp only [sigils, List.mem_cons, List.not_mem_nil, or_false] at known
    rw [Token.ofOccurrence, text]
    rcases known with rfl | rfl | rfl
    · exact .inl rfl
    · exact .inl rfl
    · exact .inr ⟨rfl, rfl⟩

/-- Where a token begins without the mark, the mark does not stand in front of it. -/
theorem markedAt_eq_false {name : List Char} (member : token ∈ tokens pattern)
    (isName : IsName name) (split : pattern.drop token.start = ':' :: (name ++ rest))
    (ended : word rest = []) : markedAt pattern token.start = false := by
  rw [Bool.eq_false_iff]
  intro marked
  obtain ⟨found, listed, rfl⟩ := List.mem_map.mp member
  have bounds := locate_bounds (proper_pieces tokenLength pattern) listed
  obtain ⟨front, place, before⟩ := drop_of_markedAt marked (lt_length_of_drop split).le
  have place : found.start = front + 2 := place
  rw [split] at before
  obtain ⟨other, among, start, long⟩ := exists_marked_occurrence isName before ended
  have width : other.stop = front + (2 + (name.length + 1)) := by
    rw [Occurrence.stop, start, long, List.length_append, List.length_cons]
    rfl
  have one := eq_of_pairwise (locate_pairwise (proper_pieces tokenLength pattern)) listed among
    ⟨Nat.le_refl _, bounds.2.1⟩ ⟨by omega, by omega⟩
  rw [one] at place
  omega

/-- A named token is marked where the mark stands in front of its slot. -/
theorem isMarked_eq_markedAt (member : token ∈ tokens pattern) (named : token.kind = .named) :
    isMarked token.text = markedAt pattern token.unmarked.start := by
  obtain ⟨name, rest, isName, split, ended, bare | ⟨_, marked⟩⟩ := token_cases member
  · rw [isMarked_of_bare bare, Token.unmarked_of_bare bare]
    rw [bare, named] at split
    exact (markedAt_eq_false member isName split ended).symm
  · rw [isMarked_of_marked marked, Token.unmarked_of_marked marked]
    rw [marked] at split
    exact (markedAt_of_drop (split.trans (List.append_assoc ..))).symm

end Tokens

end RoutePattern.Pattern
