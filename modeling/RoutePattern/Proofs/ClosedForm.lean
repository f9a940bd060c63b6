import RoutePattern.Arguments
import RoutePattern.Proofs.Allotment
import RoutePattern.Proofs.SlotEdits

/-! What positional arguments make of a pattern, said without the order of events. Values are
given out one by one, each time after a look at the half filled pattern, and then groups are
removed and tokens exchanged together; the outcome is a pattern rewritten once. Which tokens
are filled depends on the pattern and the number of values alone, and so does which groups
are removed. All of this holds of malformed patterns too. -/
namespace RoutePattern.Pattern
open Text

/-- The tokens of one kind, in reading order. -/
def tokensOf (pattern : List Char) (kind : Kind) : List Token :=
  (tokens pattern).filter (·.kind == kind)

/-- Does a place belong to a token? -/
def Token.covers (token : Token) (place : Nat) : Bool := token.start ≤ place && place < token.stop

/-- Does a colon stand outside the named tokens? -/
def looseColon (pattern : List Char) : Bool :=
  pattern.zipIdx.any fun entry =>
    entry.1 == ':' && (tokensOf pattern .named).all fun token => !token.covers entry.2

/-- Tokens with the texts they are filled with. The first texts go to the named tokens in
reading order, and those that are left to the splat tokens, unless a colon stands outside
the named tokens. Texts for which there is no token are lost. -/
def dealt (pattern : List Char) (texts : List (List Char)) : List (Token × List Char) :=
  (tokensOf pattern .named).zip texts ++
    if looseColon pattern then []
    else (tokensOf pattern .splat).zip (texts.drop (tokensOf pattern .named).length)

/-- The tokens that are filled when so many texts are given out. -/
def filledTokens (pattern : List Char) (count : Nat) : List Token :=
  (tokensOf pattern .named).take count ++
    if looseColon pattern then []
    else (tokensOf pattern .splat).take (count - (tokensOf pattern .named).length)

/-- The groups with a token that is not filled when so many texts are given out. -/
def incompleteGroups (pattern : List Char) (count : Nat) : List Occurrence :=
  (groups pattern).filter fun group =>
    (tokens pattern).any fun token =>
      !(filledTokens pattern count).contains token && within token group

/-- The dealt tokens outside of the incomplete groups. -/
def standing (pattern : List Char) (texts : List (List Char)) : List (Token × List Char) :=
  (dealt pattern texts).filter fun entry =>
    !(incompleteGroups pattern texts.length).any (within entry.1)

/-- The texts that stand in a filled pattern. -/
def standingTexts (pattern : List Char) (texts : List (List Char)) : List (List Char) :=
  (standing pattern texts).map Prod.snd

/-- What is done to a pattern when texts are given out: incomplete groups are removed, and
the filled tokens outside of them exchanged. -/
def positionalEdits (pattern : List Char) (texts : List (List Char)) : List Edit :=
  (incompleteGroups pattern texts.length).map removal ++
    (standing pattern texts).map fun entry => exchange entry.1 entry.2

theorem Token.covers_iff {token : Token} {place : Nat} :
    token.covers place = true ↔ token.start ≤ place ∧ place < token.stop := by
  simp [Token.covers]

section Colons
variable {pattern : List Char} {cut : List Piece} {char : Char}

/-- A colon among pieces stands for itself if no named token has its place. -/
theorem plain_colon_mem_iff (place : Nat) (proper : Proper cut)
    (named : ∀ text, .found text ∈ cut → (':' ∈ text ↔ kindOf text = .named)) :
    .plain ':' ∈ cut ↔ ∃ entry ∈ (textOf cut).zipIdx place, entry.1 = ':' ∧
      ∀ found ∈ locate place cut, kindOf found.text = .named →
        ¬ (found.start ≤ entry.2 ∧ entry.2 < found.stop) := by
  induction cut generalizing place with
  | nil => simp [textOf]
  | cons piece cut ih =>
    have later := proper.tail
    have rest := fun place => ih place later fun text inside =>
      named text (List.mem_cons_of_mem _ inside)
    cases piece with
    | plain char =>
      have first : ∀ found ∈ locate (place + 1) cut, kindOf found.text = .named →
          ¬ (found.start ≤ place ∧ place < found.stop) := by
        intro found member _ covered
        have bounds := locate_bounds later member
        omega
      rw [textOf_cons, Piece.text, List.singleton_append, List.zipIdx_cons, locate]
      simp only [List.mem_cons, exists_eq_or_imp, Piece.plain.injEq]
      rw [← rest (place + 1)]
      exact or_congr_left ⟨fun same => ⟨same.symm, first⟩, fun both => both.1.symm⟩
    | found text =>
      have here := named text (by simp)
      rw [textOf_cons, Piece.text, List.zipIdx_append, List.mem_cons, locate]
      simp only [reduceCtorEq, false_or, List.mem_append, List.forall_mem_cons]
      rw [rest (place + text.length)]
      constructor
      · rintro ⟨entry, member, colon, outside⟩
        refine ⟨entry, .inr member, colon, fun _ covered => ?_, outside⟩
        have after := List.le_snd_of_mem_zipIdx member
        simp only [Occurrence.stop] at covered
        omega
      · rintro ⟨entry, member | member, colon, own, outside⟩
        · -- a colon within a token makes it a named one
          have inside : ':' ∈ text := colon ▸ List.fst_mem_of_mem_zipIdx member
          have after := List.le_snd_of_mem_zipIdx member
          have before := List.snd_lt_of_mem_zipIdx member
          refine absurd ⟨after, ?_⟩ (own (here.mp inside))
          simp only [Occurrence.stop]
          omega
        · exact ⟨entry, member, colon, outside⟩

/-- Cutting a pattern into tokens shows the colons that stand outside the named ones. -/
theorem hasLooseColon_eq (pattern : List Char) : hasLooseColon pattern = looseColon pattern := by
  have whole : textOf (pieces tokenLength pattern) = pattern := flatMap_text_pieces _ _
  have colon := plain_colon_mem_iff 0 (proper_pieces tokenLength pattern)
    (colon_mem_token_iff pattern)
  rw [whole] at colon
  rw [Bool.eq_iff_iff, hasLooseColon, List.contains_iff_mem, colon, looseColon, List.any_eq_true]
  apply exists_congr
  intro entry
  apply and_congr_right
  intro _
  rw [Bool.and_eq_true, beq_iff_eq, List.all_eq_true]
  apply and_congr_right
  intro _
  simp only [tokensOf, tokens, occurrences, List.mem_filter, List.mem_map, Bool.not_eq_true',
    ← Bool.not_eq_true, Token.covers_iff]
  constructor
  · rintro outside token ⟨⟨found, member, rfl⟩, named⟩
    exact outside found member (beq_iff_eq.mp named)
  · intro outside found member named
    exact outside (Token.ofOccurrence found) ⟨⟨found, member, rfl⟩, beq_iff_eq.mpr named⟩

end Colons

section Dealing
variable {pattern : List Char} {texts : List (List Char)} {token : Token} {text : List Char}
  {slot : Slot}

private theorem namedCount_eq (pattern : List Char) :
    namedCount pattern = (tokensOf pattern .named).length := by
  rw [namedCount, tokenKinds, tokensOf, List.count, List.countP_map, List.countP_eq_length_filter]
  rfl

/-- Dealing goes through the tokens of each kind in reading order. -/
theorem mem_zip_allot (tokens : List Token) (forNamed forSplat : List (List Char)) :
    (token, some text) ∈ tokens.zip (allot (tokens.map Token.kind) forNamed forSplat) ↔
      (token, text) ∈ (tokens.filter (·.kind == .named)).zip forNamed ++
        (tokens.filter (·.kind == .splat)).zip forSplat := by
  induction tokens generalizing forNamed forSplat with
  | nil => simp
  | cons first tokens ih =>
    rw [List.map_cons]
    cases kind : first.kind with
    | named => cases forNamed <;> simp [allot, kind, ih]
    | splat => cases forSplat <;> simp [allot, kind, ih, or_left_comm]

/-- A slot holds the text that its token is dealt. -/
theorem mem_fillSlots_iff (free : ∀ text ∈ texts, ':' ∉ text) :
    (⟨token, some text⟩ : Slot) ∈ fillSlots pattern texts ↔ (token, text) ∈ dealt pattern texts := by
  have zipped := List.zip_map' (f := Slot.token) (g := Slot.filling)
    (l := fillSlots pattern texts)
  rw [map_token_fillSlots, map_filling_fillSlots pattern texts free] at zipped
  have listed : (⟨token, some text⟩ : Slot) ∈ fillSlots pattern texts ↔
      (token, some text) ∈ (fillSlots pattern texts).map fun slot => (slot.token, slot.filling) := by
    rw [List.mem_map]
    constructor
    · exact fun member => ⟨_, member, rfl⟩
    · rintro ⟨⟨_, _⟩, member, ⟨⟩⟩
      exact member
  rw [listed, ← zipped, tokenKinds, mem_zip_allot, surplus, hasLooseColon_eq, namedCount_eq, dealt]
  cases looseColon pattern <;> simp [tokensOf]

theorem token_mem_of_slot (member : slot ∈ fillSlots pattern texts) :
    slot.token ∈ tokens pattern := token_mem_of_on (map_token_fillSlots pattern texts) member

/-- There is one slot only on a token. -/
theorem slot_unique {other : Slot} (first : slot ∈ fillSlots pattern texts)
    (second : other ∈ fillSlots pattern texts) (same : slot.token = other.token) :
    slot = other := by
  have bounds := token_start_lt_stop (token_mem_of_slot first)
  exact slot_eq_of_shared (map_token_fillSlots pattern texts) first second
    ⟨Nat.le_refl _, bounds⟩ (same ▸ ⟨Nat.le_refl _, bounds⟩)

theorem map_fst_zip_take {α β : Type} (first : List α) (second : List β) :
    (first.zip second).map Prod.fst = first.take second.length := by
  induction first generalizing second with
  | nil => simp
  | cons item first ih => cases second <;> simp [ih]

/-- Which tokens are filled depends on how many texts there are, and on nothing else. -/
theorem map_fst_dealt (pattern : List Char) (texts : List (List Char)) :
    (dealt pattern texts).map Prod.fst = filledTokens pattern texts.length := by
  rw [dealt, filledTokens, List.map_append, map_fst_zip_take]
  cases looseColon pattern <;> simp [map_fst_zip_take]

/-- Equally many texts stand at the same tokens. -/
theorem map_fst_standing (pattern : List Char) (texts : List (List Char)) :
    (standing pattern texts).map Prod.fst =
      (filledTokens pattern texts.length).filter fun token =>
        !(incompleteGroups pattern texts.length).any (within token) := by
  rw [← map_fst_dealt, List.filter_map, standing]
  rfl

private theorem dealt_map (pattern : List Char) (texts : List (List Char))
    (change : List Char → List Char) :
    dealt pattern (texts.map change) = (dealt pattern texts).map (Prod.map id change) := by
  rw [dealt, dealt, List.map_append, List.zip_map_right, ← List.map_drop]
  congr 1
  split
  · rfl
  · rw [List.zip_map_right]

/-- Texts that do not stand in the outcome may be changed. -/
theorem standing_map {change : List Char → List Char}
    (kept : ∀ text ∈ standingTexts pattern texts, change text = text) :
    standing pattern (texts.map change) = standing pattern texts := by
  have changed : standing pattern (texts.map change) =
      (standing pattern texts).map (Prod.map id change) := by
    rw [standing, standing, dealt_map, List.length_map, List.filter_map]
    rfl
  rw [changed]
  refine (List.map_congr_left fun entry member => ?_).trans (List.map_id _)
  exact Prod.ext rfl (kept _ (List.mem_map_of_mem member))

theorem token_mem_of_dealt (member : (token, text) ∈ dealt pattern texts) :
    token ∈ tokens pattern := by
  have zipped (kind : Kind) {given : List (List Char)}
      (member : (token, text) ∈ (tokensOf pattern kind).zip given) : token ∈ tokens pattern :=
    (List.mem_filter.mp (List.of_mem_zip member).1).1
  rcases List.mem_append.mp member with member | member
  · exact zipped .named member
  · split at member
    · cases member
    · exact zipped .splat member

private theorem text_mem_of_dealt (member : (token, text) ∈ dealt pattern texts) :
    text ∈ texts := by
  rcases List.mem_append.mp member with member | member
  · exact (List.of_mem_zip member).2
  · split at member
    · cases member
    · exact List.mem_of_mem_drop (List.of_mem_zip member).2

theorem mem_of_mem_standingTexts (member : text ∈ standingTexts pattern texts) : text ∈ texts := by
  obtain ⟨⟨token, _⟩, stands, rfl⟩ := List.mem_map.mp member
  exact text_mem_of_dealt (List.mem_filter.mp stands).1

/-- A slot is open exactly if its token is not among the filled ones. -/
theorem isNone_filling_iff (free : ∀ text ∈ texts, ':' ∉ text)
    (member : slot ∈ fillSlots pattern texts) :
    slot.filling.isNone = !(filledTokens pattern texts.length).contains slot.token := by
  rw [← map_fst_dealt]
  cases filled : slot.filling with
  | some text =>
    have listed : (slot.token, text) ∈ dealt pattern texts := by
      rw [← mem_fillSlots_iff free, ← filled]
      exact member
    have among : slot.token ∈ (dealt pattern texts).map Prod.fst := List.mem_map_of_mem listed
    simp [among]
  | none =>
    have absent : slot.token ∉ (dealt pattern texts).map Prod.fst := by
      intro among
      obtain ⟨⟨token, text⟩, listed, same⟩ := List.mem_map.mp among
      have other := slot_unique ((mem_fillSlots_iff free).mpr listed) member same
      rw [← other] at filled
      cases filled
    simp [absent]

/-- For each token there is a slot. -/
theorem exists_filling (texts : List (List Char)) (member : token ∈ tokens pattern) :
    ∃ filling, (⟨token, filling⟩ : Slot) ∈ fillSlots pattern texts := by
  rw [← map_token_fillSlots pattern texts] at member
  obtain ⟨⟨_, filling⟩, listed, rfl⟩ := List.mem_map.mp member
  exact ⟨filling, listed⟩

/-- A slot is open exactly if its token is dealt nothing. -/
theorem open_iff (free : ∀ text ∈ texts, ':' ∉ text) (member : token ∈ tokens pattern) :
    (⟨token, none⟩ : Slot) ∈ fillSlots pattern texts ↔
      ∀ text, (token, text) ∉ dealt pattern texts := by
  constructor
  · intro empty text listed
    have same := slot_unique empty ((mem_fillSlots_iff free).mpr listed) rfl
    cases same
  · intro nothing
    obtain ⟨filling, listed⟩ := exists_filling texts member
    cases filling with
    | none => exact listed
    | some text => exact absurd ((mem_fillSlots_iff free).mp listed) (nothing text)

/-- Which groups are removed depends on how many texts there are, and on nothing else. -/
theorem droppedGroups_fillSlots (free : ∀ text ∈ texts, ':' ∉ text) :
    droppedGroups pattern (fillSlots pattern texts) = incompleteGroups pattern texts.length := by
  apply List.filter_congr
  intro group listed
  rw [← map_token_fillSlots pattern texts, List.any_map, Bool.eq_iff_iff, List.any_eq_true,
    List.any_eq_true]
  apply exists_congr
  intro slot
  apply and_congr_right
  intro member
  rw [isNone_filling_iff free member, overlaps_eq_within (token_mem_of_slot member) listed]
  rfl

end Dealing

section Edits
variable {pattern : List Char} {texts : List (List Char)} {edits : List Edit} {edit : Edit}

theorem mem_incompleteGroups {count : Nat} {group : Occurrence}
    (member : group ∈ incompleteGroups pattern count) : group ∈ groups pattern :=
  (List.mem_filter.mp member).1

theorem mem_positionalEdits_iff :
    edit ∈ positionalEdits pattern texts ↔
      (∃ group ∈ incompleteGroups pattern texts.length, removal group = edit) ∨
        ∃ entry ∈ dealt pattern texts, exchange entry.1 entry.2 = edit ∧
          ∀ group ∈ incompleteGroups pattern texts.length, within entry.1 group = false := by
  simp only [positionalEdits, standing, List.mem_append, List.mem_map, List.mem_filter, Bool.not_eq_true',
    List.any_eq_false, Bool.not_eq_true]
  apply or_congr_right
  apply exists_congr
  intro entry
  rw [and_assoc, and_congr_right_iff]
  exact fun _ => and_comm

/-- The edits of positional arguments are those that count when the slots hold the texts. -/
theorem mem_positionalEdits_iff_counting (free : ∀ text ∈ texts, ':' ∉ text) :
    edit ∈ positionalEdits pattern texts ↔
      edit ∈ countingEdits (fillSlots pattern texts) (incompleteGroups pattern texts.length) := by
  rw [mem_positionalEdits_iff, mem_countingEdits_iff]
  apply or_congr_right
  constructor
  · rintro ⟨⟨token, text⟩, given, rfl, outside⟩
    refine ⟨⟨token, some text⟩, (mem_fillSlots_iff free).mpr given, ?_, rfl⟩
    simpa [Slot.goesWith] using outside
  · rintro ⟨⟨token, filling⟩, member, stays, filled⟩
    obtain ⟨text, rfl, rfl⟩ := Slot.edit?_eq_some_iff.mp filled
    refine ⟨(token, text), (mem_fillSlots_iff free).mp member, rfl, ?_⟩
    simpa [Slot.goesWith] using stays

theorem separate_positionalEdits (free : ∀ text ∈ texts, ':' ∉ text) :
    Separate (positionalEdits pattern texts) :=
  (separate_countingEdits (map_token_fillSlots pattern texts) fun _ => mem_incompleteGroups).subset
    fun _ => (mem_positionalEdits_iff_counting free).mp

/-- A filled pattern is the pattern rewritten once. -/
theorem fill_eq_rewrite (pattern : List Char) (texts : List (List Char))
    (free : ∀ text ∈ texts, ':' ∉ text) :
    fill pattern texts = rewrite (positionalEdits pattern texts) pattern := by
  have rendered : render pattern (fillSlots pattern texts) (incompleteGroups pattern texts.length) =
      rewrite (countingEdits (fillSlots pattern texts) (incompleteGroups pattern texts.length))
        pattern :=
    render_eq_rewrite (map_token_fillSlots pattern texts) fun _ => mem_incompleteGroups
  rw [fill, droppedGroups_fillSlots free, rendered]
  exact (rewrite_congr (separate_positionalEdits free)
    (fun _ => mem_positionalEdits_iff_counting free) pattern).symm

/-- A filled pattern holds what the pattern and the texts hold. -/
theorem mem_fill {char : Char} (free : ∀ text ∈ texts, ':' ∉ text)
    (member : char ∈ fill pattern texts) :
    char ∈ pattern ∨ ∃ text ∈ texts, char ∈ text := by
  rw [fill_eq_rewrite pattern texts free] at member
  refine (mem_rewrite member).imp_right fun ⟨edit, listed, inside⟩ => ?_
  rcases mem_positionalEdits_iff.mp listed with ⟨group, _, rfl⟩ | ⟨entry, given, rfl, _⟩
  · cases inside
  · exact ⟨entry.2, text_mem_of_dealt given, inside⟩

/-- A filled pattern depends on the texts that stand in it and on how many others there are. -/
theorem fill_map {change : List Char → List Char} (free : ∀ text ∈ texts, ':' ∉ text)
    (changedFree : ∀ text ∈ texts, ':' ∉ change text)
    (kept : ∀ text ∈ standingTexts pattern texts, change text = text) :
    fill pattern (texts.map change) = fill pattern texts := by
  have alsoFree : ∀ text ∈ texts.map change, ':' ∉ text := List.forall_mem_map.mpr changedFree
  rw [fill_eq_rewrite pattern _ alsoFree, fill_eq_rewrite pattern _ free, positionalEdits,
    positionalEdits, standing_map kept, List.length_map]

end Edits

end RoutePattern.Pattern

namespace RoutePattern
open Pattern Text

/-- No value brings a reserved character into an address. -/
theorem not_mem_component {char : Char} {values : List Value} (reserved : isUnreserved char = false)
    (other : char ≠ '%') : ∀ text ∈ values.map component, char ∉ text := by
  intro text member
  obtain ⟨value, _, rfl⟩ := List.mem_map.mp member
  exact not_mem_encode reserved other

theorem colon_not_mem_component {values : List Value} :
    ∀ text ∈ values.map component, ':' ∉ text := not_mem_component (by decide) (by decide)

/-- Positional arguments in closed form. The pattern is rewritten once: groups with an open
token are removed, the filled tokens outside of them exchanged for the encoded values, and all
other characters stay. The first values fill the named tokens, and those that are left the
splat tokens if no colon stands outside the named ones. The slots that values are put into one
by one hold just this in the end, and neither they nor the groups that go depend on more than
the number of values. -/
theorem inject_positional_eq_rewrite (pattern : List Char) (values : List Value)
    (present : values ≠ []) :
    ∃ arguments, Arguments.positional (.list values) = .ok arguments ∧
      arguments.inject pattern =
        .ok (rewrite (positionalEdits pattern (values.map component)) pattern) ∧
      (∀ token text, (⟨token, some text⟩ : Slot) ∈ fillSlots pattern (values.map component) ↔
        (token, text) ∈ dealt pattern (values.map component)) ∧
      (dealt pattern (values.map component)).map Prod.fst =
        filledTokens pattern values.length ∧
      droppedGroups pattern (fillSlots pattern (values.map component)) =
        incompleteGroups pattern values.length := by
  have free : ∀ text ∈ values.map component, ':' ∉ text := colon_not_mem_component
  have count : (values.map component).length = values.length := List.length_map _
  refine ⟨{ kind := .positional, values := values }, ?_, ?_, ?_, ?_, ?_⟩
  · cases values with
    | nil => exact absurd rfl present
    | cons value values => rfl
  · rw [← fill_eq_rewrite pattern _ free]
    rfl
  · exact fun token text => mem_fillSlots_iff free
  · rw [map_fst_dealt, count]
  · rw [droppedGroups_fillSlots free, count]

/-- A group is nested in another one, a value looks like tokens, and a splat token with a
name of its own stands in front. -/
theorem inject_positional_eq_rewrite_nested :
    [Value.text ":c*b", .int 7] ≠ [] ∧
      ∃ arguments, Arguments.positional (.list [.text ":c*b", .int 7]) = .ok arguments ∧
        arguments.inject "/*b/:a((/:c)/*d)".toList =
          .ok (rewrite (positionalEdits "/*b/:a((/:c)/*d)".toList
            ([.text ":c*b", .int 7].map component)) "/*b/:a((/:c)/*d)".toList) ∧
        (∀ token text, (⟨token, some text⟩ : Slot) ∈
            fillSlots "/*b/:a((/:c)/*d)".toList ([.text ":c*b", .int 7].map component) ↔
          (token, text) ∈ dealt "/*b/:a((/:c)/*d)".toList
            ([.text ":c*b", .int 7].map component)) ∧
        (dealt "/*b/:a((/:c)/*d)".toList ([.text ":c*b", .int 7].map component)).map Prod.fst =
          filledTokens "/*b/:a((/:c)/*d)".toList [Value.text ":c*b", .int 7].length ∧
        droppedGroups "/*b/:a((/:c)/*d)".toList (fillSlots "/*b/:a((/:c)/*d)".toList
            ([.text ":c*b", .int 7].map component)) =
          incompleteGroups "/*b/:a((/:c)/*d)".toList [Value.text ":c*b", .int 7].length :=
  ⟨List.cons_ne_nil _ _, inject_positional_eq_rewrite _ _ (List.cons_ne_nil _ _)⟩

/-- One value for two tokens: the group of the second one goes, and what looks like a token in
the value stays as it is. -/
example : rewrite (positionalEdits "/:a(/*b)/c".toList ["*b".toList]) "/:a(/*b)/c".toList =
    "/*b/c".toList := by decide

end RoutePattern
