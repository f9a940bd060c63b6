import RoutePattern.Proofs.Encoding
import RoutePattern.Proofs.Rendering

/-! Which slot gets which text. Slots are filled one by one, and each time the half filled
pattern is looked at for a colon; but as no text that is put in has one, the outcome is that
of dealing: the first texts go to the named slots, and those behind them to the splat slots,
unless a colon stands somewhere for itself. This holds of every pattern. -/
namespace RoutePattern.Pattern
open Text

/-- Texts for slots of these kinds in reading order, taken from one list for the named and
from another for the splat slots as long as there are any. -/
def allot : List Kind → List (List Char) → List (List Char) → List (Option (List Char))
  | [], _, _ => []
  | .named :: kinds, forNamed, forSplat => forNamed.head? :: allot kinds forNamed.tail forSplat
  | .splat :: kinds, forNamed, forSplat => forSplat.head? :: allot kinds forNamed forSplat.tail

/-- The texts of the slots of one kind, in reading order. -/
def collect (kind : Kind) (kinds : List Kind) (texts : List (List Char)) : List (List Char) :=
  ((kinds.zip texts).filter fun entry => entry.1 == kind).map Prod.snd

/-- Texts in reading order, put in the order in which they are given out. -/
def byKind (kinds : List Kind) (texts : List (List Char)) : List (List Char) :=
  collect .named kinds texts ++ collect .splat kinds texts

/-- The kind of the token with this text. -/
def kindOf (token : List Char) : Kind := (Token.ofOccurrence ⟨0, token⟩).kind

/-- The kinds of the tokens of a pattern, in reading order. -/
def tokenKinds (pattern : List Char) : List Kind := (tokens pattern).map Token.kind

/-- How many named tokens a pattern has. -/
def namedCount (pattern : List Char) : Nat := (tokenKinds pattern).count .named

/-- Does a colon stand outside the tokens? -/
def hasLooseColon (pattern : List Char) : Bool :=
  (pieces tokenLength pattern).contains (.plain ':')

/-- The texts that are left for the splat slots. -/
def surplus (pattern : List Char) (texts : List (List Char)) : List (List Char) :=
  if hasLooseColon pattern then [] else texts.drop (namedCount pattern)

section Dealing
variable {kinds : List Kind} {forNamed forSplat : List (List Char)} {text : List Char}
  {slots : List Slot}

private theorem allot_nil (kinds : List Kind) : allot kinds [] [] = kinds.map fun _ => none := by
  induction kinds with
  | nil => rfl
  | cons kind kinds ih => cases kind <;> simp [allot, ih]

/-- The next text for a named slot lengthens the list for the named slots. -/
theorem map_filling_place_named (text : List Char) (slots : List Slot)
    (before : slots.map Slot.filling =
      allot (slots.map fun slot => slot.token.kind) forNamed forSplat) :
    (place .named text slots).map Slot.filling =
      allot (slots.map fun slot => slot.token.kind) (forNamed ++ [text]) forSplat := by
  induction slots generalizing forNamed forSplat with
  | nil => rfl
  | cons slot slots ih =>
    simp only [List.map_cons] at before ⊢
    cases kind : slot.token.kind with
    | named =>
      simp only [kind, allot, List.cons.injEq] at before ⊢
      obtain ⟨here, later⟩ := before
      cases forNamed with
      | nil =>
        have empty : slot.filling = none := here
        simpa [place, kind, empty] using later
      | cons first forNamed =>
        have full : slot.filling = some first := here
        simpa [place, kind, full] using ih later
    | splat =>
      simp only [kind, allot, List.cons.injEq] at before ⊢
      obtain ⟨here, later⟩ := before
      simpa [place, kind, here] using ih later

/-- The next text for a splat slot lengthens the list for the splat slots. -/
theorem map_filling_place_splat (text : List Char) (slots : List Slot)
    (before : slots.map Slot.filling =
      allot (slots.map fun slot => slot.token.kind) forNamed forSplat) :
    (place .splat text slots).map Slot.filling =
      allot (slots.map fun slot => slot.token.kind) forNamed (forSplat ++ [text]) := by
  induction slots generalizing forNamed forSplat with
  | nil => rfl
  | cons slot slots ih =>
    simp only [List.map_cons] at before ⊢
    cases kind : slot.token.kind with
    | named =>
      simp only [kind, allot, List.cons.injEq] at before ⊢
      obtain ⟨here, later⟩ := before
      simpa [place, kind, here] using ih later
    | splat =>
      simp only [kind, allot, List.cons.injEq] at before ⊢
      obtain ⟨here, later⟩ := before
      cases forSplat with
      | nil =>
        have empty : slot.filling = none := here
        simpa [place, kind, empty] using later
      | cons first forSplat =>
        have full : slot.filling = some first := here
        simpa [place, kind, full] using ih later

/-- Once all named slots are filled, further texts for them are lost. -/
theorem allot_append_of_full (kinds : List Kind) (forNamed forSplat more : List (List Char))
    (full : kinds.count .named ≤ forNamed.length) :
    allot kinds (forNamed ++ more) forSplat = allot kinds forNamed forSplat := by
  induction kinds generalizing forNamed forSplat with
  | nil => rfl
  | cons kind kinds ih =>
    cases kind with
    | named =>
      cases forNamed with
      | nil => simp at full
      | cons first forNamed =>
        have rest := ih forNamed forSplat (by simpa using full)
        simp [allot, rest]
    | splat =>
      have rest := ih forNamed forSplat.tail (by simpa using full)
      simp [allot, rest]

/-- What is dealt comes from one of the lists. -/
theorem mem_of_some_mem_allot (kinds : List Kind) (forNamed forSplat : List (List Char))
    (member : some text ∈ allot kinds forNamed forSplat) : text ∈ forNamed ++ forSplat := by
  induction kinds generalizing forNamed forSplat with
  | nil => cases member
  | cons kind kinds ih =>
    cases kind with
    | named =>
      rcases List.mem_cons.mp member with same | member
      · have first : text ∈ forNamed := List.mem_of_head? same.symm
        simp [first]
      · rcases List.mem_append.mp (ih _ _ member) with inside | inside
        · simp [List.mem_of_mem_tail inside]
        · simp [inside]
    | splat =>
      rcases List.mem_cons.mp member with same | member
      · have first : text ∈ forSplat := List.mem_of_head? same.symm
        simp [first]
      · rcases List.mem_append.mp (ih _ _ member) with inside | inside
        · simp [inside]
        · simp [List.mem_of_mem_tail inside]

/-- With enough texts in both lists no slot stays empty. -/
theorem exists_allot_eq (kinds : List Kind) (forNamed forSplat : List (List Char))
    (enoughNamed : kinds.count .named ≤ forNamed.length)
    (enoughSplat : kinds.count .splat ≤ forSplat.length) :
    ∃ given : List (List Char), allot kinds forNamed forSplat = given.map some := by
  induction kinds generalizing forNamed forSplat with
  | nil => exact ⟨[], rfl⟩
  | cons kind kinds ih =>
    cases kind with
    | named =>
      cases forNamed with
      | nil => simp at enoughNamed
      | cons first forNamed =>
        obtain ⟨given, same⟩ := ih forNamed forSplat (by simpa using enoughNamed)
          (by simpa using enoughSplat)
        exact ⟨first :: given, by simp [allot, same]⟩
    | splat =>
      cases forSplat with
      | nil => simp at enoughSplat
      | cons first forSplat =>
        obtain ⟨given, same⟩ := ih forNamed forSplat (by simpa using enoughNamed)
          (by simpa using enoughSplat)
        exact ⟨first :: given, by simp [allot, same]⟩

/-- Texts may be changed before they are dealt or afterwards. -/
theorem allot_map (kinds : List Kind) (forNamed forSplat : List (List Char))
    (change : List Char → List Char) :
    allot kinds (forNamed.map change) (forSplat.map change) =
      (allot kinds forNamed forSplat).map (Option.map change) := by
  induction kinds generalizing forNamed forSplat with
  | nil => rfl
  | cons kind kinds ih => cases kind <;> simp [allot, ← ih, List.map_tail]

/-- A slot has one of the two kinds. -/
theorem count_named_add_count_splat (kinds : List Kind) :
    kinds.count .named + kinds.count .splat = kinds.length := by
  induction kinds with
  | nil => rfl
  | cons kind kinds ih => cases kind <;> simp <;> omega

theorem length_collect (kind : Kind) (kinds : List Kind) (texts : List (List Char))
    (length : texts.length = kinds.length) :
    (collect kind kinds texts).length = kinds.count kind := by
  induction kinds generalizing texts with
  | nil => rfl
  | cons first kinds ih =>
    cases texts with
    | nil => cases length
    | cons text texts =>
      have later := ih texts (by simpa using length)
      rw [collect, List.length_map] at later
      rw [collect, List.zip_cons_cons, List.filter_cons, List.count_cons, ← later]
      cases first == kind <;> simp

theorem length_byKind (kinds : List Kind) (texts : List (List Char))
    (length : texts.length = kinds.length) : (byKind kinds texts).length = texts.length := by
  rw [byKind, List.length_append, length_collect .named kinds texts length,
    length_collect .splat kinds texts length, count_named_add_count_splat, length]

theorem mem_of_mem_byKind (kinds : List Kind) (texts : List (List Char))
    (member : text ∈ byKind kinds texts) : text ∈ texts := by
  have collected (kind : Kind) (member : text ∈ collect kind kinds texts) : text ∈ texts := by
    obtain ⟨⟨other, same⟩, among, rfl⟩ := List.mem_map.mp member
    exact (List.of_mem_zip (List.mem_filter.mp among).1).2
  rcases List.mem_append.mp member with member | member
  · exact collected .named member
  · exact collected .splat member

/-- Texts that have been put in order kind by kind are dealt to the slots they came from. -/
theorem allot_collect (kinds : List Kind) (texts : List (List Char))
    (length : texts.length = kinds.length) :
    allot kinds (collect .named kinds texts) (collect .splat kinds texts) = texts.map some := by
  induction kinds generalizing texts with
  | nil =>
    have none : texts = [] := List.eq_nil_of_length_eq_zero length
    rw [none]
    rfl
  | cons kind kinds ih =>
    cases texts with
    | nil => cases length
    | cons text texts =>
      have later := ih texts (by simpa using length)
      cases kind with
      | named => exact congrArg (some text :: ·) later
      | splat => exact congrArg (some text :: ·) later

theorem length_tokenKinds (pattern : List Char) :
    (tokenKinds pattern).length = (tokens pattern).length :=
  List.length_map _

/-- The tokens of a pattern are the named ones and the splat ones. -/
theorem namedCount_add_count_splat (pattern : List Char) :
    namedCount pattern + (tokenKinds pattern).count .splat = (tokens pattern).length := by
  rw [namedCount, count_named_add_count_splat, length_tokenKinds]

end Dealing

section Colons
variable {pattern : List Char}

/-- Among the tokens the named ones are those with a colon. -/
theorem colon_mem_token_iff (pattern : List Char) :
    ∀ text, .found text ∈ pieces tokenLength pattern → (':' ∈ text ↔ kindOf text = .named) := by
  induction pattern using tokens_induction with
  | nil => simp [pieces, piecesAfter]
  | token sigil name rest known present word ended ih =>
    rw [pieces_token known present word ended]
    intro text member
    rcases List.mem_cons.mp member with same | member
    · cases same
      have absent : ':' ∉ name := fun inside => absurd (word _ inside) (by decide)
      simp only [sigils, List.mem_cons, List.not_mem_nil, or_false] at known
      rcases known with rfl | rfl | rfl
      · simp [kindOf, Token.ofOccurrence]
      · simp [kindOf, Token.ofOccurrence, absent]
      · simp [kindOf, Token.ofOccurrence]
    · exact ih text member
  | plain char rest none ih =>
    rw [pieces_cons_plain none]
    intro text member
    rcases List.mem_cons.mp member with same | member
    · cases same
    · exact ih text member

/-- In a half filled pattern a colon is left if one stands for itself, or if there are named
slots that no text was dealt to. -/
theorem colon_mem_weave_iff (cut : List Piece) (forNamed forSplat : List (List Char))
    (named : ∀ text, .found text ∈ cut → (':' ∈ text ↔ kindOf text = .named))
    (free : ∀ text ∈ forNamed ++ forSplat, ':' ∉ text) :
    ':' ∈ weave cut (allot ((cut.filterMap found?).map kindOf) forNamed forSplat) ↔
      .plain ':' ∈ cut ∨
        forNamed.length < ((cut.filterMap found?).map kindOf).count .named := by
  induction cut generalizing forNamed forSplat with
  | nil => simp [weave]
  | cons piece cut ih =>
    have later (text : List Char) (member : .found text ∈ cut) :=
      named text (List.mem_cons_of_mem _ member)
    cases piece with
    | plain char =>
      have rest := ih forNamed forSplat later free
      simp only [List.filterMap_cons, found?, weave, List.mem_cons, Piece.plain.injEq, rest,
        or_assoc]
    | found text =>
      have here := named text (by simp)
      simp only [List.filterMap_cons, found?, List.map_cons, List.mem_cons, reduceCtorEq, false_or]
      cases kind : kindOf text with
      | named =>
        cases forNamed with
        | nil => simp [weave, allot, here.mpr kind]
        | cons first forNamed =>
          have rest := ih forNamed forSplat later fun other member => free other (by
            rcases List.mem_append.mp member with member | member <;> simp [member])
          have absent : ':' ∉ first := free first (by simp)
          simp [weave, allot, absent, rest]
      | splat =>
        have absent : ':' ∉ text := fun member => by
          rw [here.mp member] at kind
          cases kind
        have rest := ih forNamed forSplat.tail later fun other member => free other (by
          rcases List.mem_append.mp member with member | member
          · simp [member]
          · simp [List.mem_of_mem_tail member])
        cases forSplat with
        | nil =>
          simp only [List.tail_nil] at rest
          simp [weave, allot, absent, rest]
        | cons first forSplat =>
          have clear : ':' ∉ first := free first (by simp)
          simp only [List.tail_cons] at rest
          simp [weave, allot, clear, rest]

private theorem kindOf_pieces (pattern : List Char) :
    ((pieces tokenLength pattern).filterMap found?).map kindOf = tokenKinds pattern := by
  rw [tokenKinds, tokens, List.map_map, occurrences, ← map_text_locate 0, List.map_map]
  rfl

/-- While a colon stands for itself or a named slot is open, the next text is for the named
slots. -/
theorem nextKind_of_allot (slots : List Slot) (forNamed forSplat : List (List Char))
    (on : slots.map Slot.token = tokens pattern)
    (dealt : slots.map Slot.filling = allot (tokenKinds pattern) forNamed forSplat)
    (free : ∀ text ∈ forNamed ++ forSplat, ':' ∉ text) :
    nextKind pattern slots =
      if hasLooseColon pattern = true ∨ forNamed.length < namedCount pattern then .named
      else .splat := by
  have colon := colon_mem_weave_iff (pieces tokenLength pattern) forNamed forSplat
    (colon_mem_token_iff pattern) free
  rw [kindOf_pieces, ← dealt, ← render_tokens on] at colon
  simp only [nextKind, hasLooseColon, namedCount, List.contains_iff_mem, colon]

private theorem tokenKinds_of_tokens {slots : List Slot}
    (on : slots.map Slot.token = tokens pattern) :
    slots.map (fun slot => slot.token.kind) = tokenKinds pattern := by
  rw [tokenKinds, ← on, List.map_map]
  rfl

private theorem mem_of_mem_surplus {text : List Char} {texts : List (List Char)}
    (member : text ∈ surplus pattern texts) : text ∈ texts := by
  unfold surplus at member
  split at member
  · cases member
  · exact List.mem_of_mem_drop member

/-- While named slots are open nothing is left for the splat slots. -/
theorem surplus_of_short {texts : List (List Char)}
    (short : texts.length ≤ namedCount pattern) : surplus pattern texts = [] := by
  unfold surplus
  split
  · rfl
  · exact List.drop_eq_nil_of_le short

/-- One more text is dealt to the first open slot of the kind that is next. -/
theorem map_filling_place_next (slots : List Slot) (texts : List (List Char)) (text : List Char)
    (on : slots.map Slot.token = tokens pattern)
    (before : slots.map Slot.filling =
      allot (tokenKinds pattern) texts (surplus pattern texts))
    (free : ∀ other ∈ texts, ':' ∉ other) :
    (place (nextKind pattern slots) text slots).map Slot.filling =
      allot (tokenKinds pattern) (texts ++ [text]) (surplus pattern (texts ++ [text])) := by
  have next := nextKind_of_allot slots texts _ on before fun other member => by
    rcases List.mem_append.mp member with member | member
    · exact free other member
    · exact free other (mem_of_mem_surplus member)
  have kinds := tokenKinds_of_tokens on
  rw [← kinds] at before
  rw [next, ← kinds]
  by_cases loose : hasLooseColon pattern = true
  · have none (given : List (List Char)) : surplus pattern given = [] := if_pos loose
    rw [none] at before ⊢
    rw [if_pos (.inl loose)]
    exact map_filling_place_named text slots before
  · by_cases short : texts.length < namedCount pattern
    · rw [surplus_of_short (by omega)] at before
      rw [if_pos (.inr short), surplus_of_short (by simpa using short)]
      exact map_filling_place_named text slots before
    · have more (given : List (List Char)) :
          surplus pattern given = given.drop (namedCount pattern) := if_neg loose
      have full : (tokenKinds pattern).count .named ≤ texts.length := Nat.le_of_not_lt short
      rw [← kinds] at full
      rw [more] at before ⊢
      rw [if_neg (fun either => either.elim loose short),
        List.drop_append_of_le_length (by omega), allot_append_of_full _ texts _ [text] full]
      exact map_filling_place_splat text slots before

/-- What the slots hold when texts without colons have been given out one by one. -/
theorem map_filling_fillSlots (pattern : List Char) (texts : List (List Char))
    (free : ∀ text ∈ texts, ':' ∉ text) :
    (fillSlots pattern texts).map Slot.filling =
      allot (tokenKinds pattern) texts (surplus pattern texts) := by
  induction texts using List.reverseRecOn with
  | nil =>
    rw [surplus_of_short (Nat.zero_le _), allot_nil, tokenKinds, List.map_map]
    simp [fillSlots, emptySlots]
  | append_singleton texts text ih =>
    have earlier : ∀ text ∈ texts, ':' ∉ text :=
      fun other member => free other (by simp [member])
    have step : fillSlots pattern (texts ++ [text]) =
        place (nextKind pattern (fillSlots pattern texts)) text (fillSlots pattern texts) := by
      rw [fillSlots, List.foldl_append]
      rfl
    rw [step]
    exact map_filling_place_next _ texts text (map_token_fillSlots pattern texts) (ih earlier)
      earlier

end Colons

end RoutePattern.Pattern
