import RoutePattern.Proofs.ClosedForm

/-! What becomes of a stretch of a pattern when texts are given out. A filled pattern is the
pattern rewritten once, so every stretch that no edit reaches across comes out by itself: an
open token outside of the groups that go as it is written, a group with an open token as
nothing, and what stands in front of it and behind it does not depend on it. -/
namespace RoutePattern.Pattern
open Text

/-- In the filled pattern this text stands for the characters between two places. In front of
it and behind it stands what becomes of the rest of the pattern. -/
def ComesOutAs (pattern : List Char) (texts : List (List Char)) (start stop : Nat)
    (outcome : List Char) : Prop :=
  fill pattern texts =
    rewriteFrom (positionalEdits pattern texts) 0 (pattern.take start) ++ outcome ++
      rewriteFrom (positionalEdits pattern texts) stop (pattern.drop stop)

/-- A token that gets no text and does not go with a group. -/
def Remains (pattern : List Char) (texts : List (List Char)) (token : Token) : Prop :=
  (⟨token, none⟩ : Slot) ∈ fillSlots pattern texts ∧
    ∀ group ∈ droppedGroups pattern (fillSlots pattern texts), within token group = false

/-- A token gets a text, which stands for it if the token does not go with a group. -/
def FilledWith (pattern : List Char) (texts : List (List Char)) (token : Token)
    (text : List Char) : Prop :=
  (⟨token, some text⟩ : Slot) ∈ fillSlots pattern texts ∧
    ((∀ group ∈ droppedGroups pattern (fillSlots pattern texts), within token group = false) →
      ComesOutAs pattern texts token.start token.stop text)

section Places
variable {pattern : List Char} {texts : List (List Char)} {token : Token} {group : Occurrence}
  {start stop : Nat} {outcome text : List Char}

/-- A stretch comes out as what becomes of its characters. -/
theorem comesOutAs_of_rewriteFrom (free : ∀ text ∈ texts, ':' ∉ text) (order : start ≤ stop)
    (bound : stop ≤ pattern.length)
    (becomes : rewriteFrom (positionalEdits pattern texts) start
      ((pattern.drop start).take (stop - start)) = outcome) :
    ComesOutAs pattern texts start stop outcome := by
  rw [ComesOutAs, fill_eq_rewrite pattern texts free, rewrite_split _ pattern order bound, becomes]

/-- A group with an open token goes. -/
theorem mem_droppedGroups (listed : group ∈ groups pattern)
    (empty : (⟨token, none⟩ : Slot) ∈ fillSlots pattern texts)
    (inside : within token group = true) :
    group ∈ droppedGroups pattern (fillSlots pattern texts) := by
  rw [droppedGroups, List.mem_filter]
  refine ⟨listed, List.any_eq_true.mpr ⟨_, empty, ?_⟩⟩
  rw [overlaps_eq_within (token_mem_of_slot empty) listed, inside]
  rfl

/-- An open token remains exactly if no group has it. -/
theorem remains_iff : Remains pattern texts token ↔
    (⟨token, none⟩ : Slot) ∈ fillSlots pattern texts ∧
      ∀ group ∈ groups pattern, within token group = false := by
  apply and_congr_right
  intro empty
  constructor
  · intro outside group listed
    by_contra inside
    rw [Bool.not_eq_false] at inside
    have dropped := mem_droppedGroups listed empty inside
    rw [outside group dropped] at inside
    cases inside
  · exact fun outside group dropped => outside group (List.mem_filter.mp dropped).1

/-- A token that remains comes out as it is written. -/
theorem comesOutAs_of_remains (free : ∀ text ∈ texts, ':' ∉ text)
    (remains : Remains pattern texts token) :
    ComesOutAs pattern texts token.start token.stop token.text := by
  obtain ⟨empty, outside⟩ := remains
  have member : token ∈ tokens pattern := token_mem_of_slot empty
  have bounds := token_start_lt_stop member
  obtain ⟨stretch, bound⟩ := stretch_of_token member
  apply comesOutAs_of_rewriteFrom free (Nat.le_of_lt bounds) bound
  rw [Token.stop, Nat.add_sub_cancel_left, stretch]
  apply rewriteFrom_of_apart
  intro edit listed place after before
  by_contra touched
  rw [Bool.not_eq_false, Edit.covers_iff] at touched
  rcases mem_positionalEdits_iff.mp listed with ⟨group, incomplete, rfl⟩ | ⟨entry, given, rfl, _⟩
  · have inside := within_of_shared member (mem_incompleteGroups incomplete) ⟨after, before⟩ touched
    rw [← droppedGroups_fillSlots free] at incomplete
    rw [outside group incomplete] at inside
    cases inside
  · have same : entry.1 = token := eq_of_pairwise (tokens_pairwise pattern)
      (token_mem_of_dealt given) member touched ⟨after, before⟩
    exact (open_iff free member).mp empty entry.2 (same ▸ given)

/-- A token that is dealt a text is filled with it. -/
theorem filledWith_of_dealt (free : ∀ text ∈ texts, ':' ∉ text)
    (given : (token, text) ∈ dealt pattern texts) : FilledWith pattern texts token text := by
  refine ⟨(mem_fillSlots_iff free).mpr given, fun outside => ?_⟩
  have member := token_mem_of_dealt given
  obtain ⟨stretch, bound⟩ := stretch_of_token member
  rw [droppedGroups_fillSlots free] at outside
  have counts : exchange token text ∈ positionalEdits pattern texts :=
    mem_positionalEdits_iff.mpr (.inr ⟨(token, text), given, rfl, outside⟩)
  apply comesOutAs_of_rewriteFrom free (Nat.le_of_lt (token_start_lt_stop member)) bound
  rw [Token.stop, Nat.add_sub_cancel_left, stretch]
  exact rewriteFrom_edit (separate_positionalEdits free) counts rfl

/-- A group with an open token comes out as nothing. -/
theorem comesOutAs_of_open (free : ∀ text ∈ texts, ':' ∉ text) (listed : group ∈ groups pattern)
    (empty : (⟨token, none⟩ : Slot) ∈ fillSlots pattern texts)
    (inside : within token group = true) :
    group ∈ droppedGroups pattern (fillSlots pattern texts) ∧
      ComesOutAs pattern texts group.start group.stop [] := by
  have dropped := mem_droppedGroups listed empty inside
  refine ⟨dropped, ?_⟩
  rw [droppedGroups_fillSlots free] at dropped
  obtain ⟨stretch, bound⟩ := stretch_of_group listed
  have counts : removal group ∈ positionalEdits pattern texts :=
    mem_positionalEdits_iff.mpr (.inl ⟨group, dropped, rfl⟩)
  apply comesOutAs_of_rewriteFrom free (Nat.le_of_lt (group_start_lt_stop listed)) bound
  rw [Occurrence.stop, Nat.add_sub_cancel_left, stretch]
  exact rewriteFrom_edit (separate_positionalEdits free) counts rfl

end Places

end RoutePattern.Pattern
