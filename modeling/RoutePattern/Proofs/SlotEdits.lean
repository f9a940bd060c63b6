import RoutePattern.Proofs.Runs

/-! The edits that name tokens and groups of one pattern, whichever tokens are filled and whichever
groups are removed. A token that goes with a group lies within it and is shorter, and all other
edits are apart from each other. So the removals and the tokens filled outside of them are the
edits that count, and carrying out all of them rewrites the pattern by these. -/
namespace RoutePattern.Pattern
open Text

/-- A group is removed as a whole. -/
def removal (group : Occurrence) : Edit := ⟨group.start, group.text.length, []⟩

/-- A token is exchanged for a text. -/
def exchange (token : Token) (text : List Char) : Edit := ⟨token.start, token.text.length, text⟩

/-- Does the token of a slot lie within one of these groups? -/
def Slot.goesWith (dropped : List Occurrence) (slot : Slot) : Bool := dropped.any (within slot.token)

/-- The edits that count: groups are removed, and filled tokens outside of them exchanged. -/
def countingEdits (slots : List Slot) (dropped : List Occurrence) : List Edit :=
  dropped.map removal ++ (slots.filter fun slot => !slot.goesWith dropped).filterMap Slot.edit?

/-- The edits without effect: those of filled tokens that go with a group. -/
def idleEdits (slots : List Slot) (dropped : List Occurrence) : List Edit :=
  (slots.filter (Slot.goesWith dropped)).filterMap Slot.edit?

/-- An edit that lies within a longer one. -/
structure Edit.Inside (edit outer : Edit) : Prop where
  positive : 0 < edit.length
  start : outer.start ≤ edit.start
  stop : edit.stop ≤ outer.stop
  shorter : edit.length < outer.length

/-- Some edits count among all that are there: they are apart from each other, and each of the
others lies within one of them. -/
structure Governs (active edits : List Edit) : Prop where
  separate : Separate active
  listed : ∀ edit ∈ active, edit ∈ edits
  governed : ∀ edit ∈ edits, edit ∈ active ∨ ∃ outer ∈ active, edit.Inside outer

section Governing
variable {active edits : List Edit} {edit outer : Edit}

private theorem Edit.Inside.covers (inside : edit.Inside outer) :
    outer.covers edit.start = true := by
  have positive := inside.positive
  have start := inside.start
  have stop := inside.stop
  rw [Edit.stop] at stop
  exact Edit.covers_iff.mpr ⟨start, by omega⟩

/-- Where an edit begins one that counts has the place. -/
theorem Governs.exists_covers (governs : Governs active edits) (member : edit ∈ edits) :
    ∃ outer ∈ active, outer.covers edit.start = true := by
  rcases governs.governed edit member with counts | ⟨outer, counts, inside⟩
  · exact ⟨edit, counts, covers_start governs.separate counts⟩
  · exact ⟨outer, counts, inside.covers⟩

/-- An edit within another one does not count. -/
theorem not_mem_of_inside (separate : Separate active) (counts : outer ∈ active)
    (inside : edit.Inside outer) : edit ∉ active := by
  intro member
  have same := separate.unique edit member outer counts edit.start
    (covers_start separate member) inside.covers
  have shorter := inside.shorter
  rw [same] at shorter
  exact Nat.lt_irrefl _ shorter

/-- The edits that count have an effect if each of them is listed first for its place. -/
theorem Governs.effective (governs : Governs active edits)
    (first : ∀ edit ∈ active, editAt edits edit.start = some edit) : Effective edits active := by
  refine ⟨governs.separate, first, fun place outside => ?_⟩
  apply editAt_eq_none
  rintro edit member rfl
  obtain ⟨outer, counts, covered⟩ := governs.exists_covers member
  rw [outside outer counts] at covered
  cases covered

private theorem editAt_eq_some (member : edit ∈ edits)
    (unique : ∀ other ∈ edits, other.start = edit.start → other = edit) :
    editAt edits edit.start = some edit := by
  cases found : editAt edits edit.start with
  | none => exact absurd (beq_self_eq_true edit.start) (List.find?_eq_none.mp found edit member)
  | some other =>
    have same : other.start = edit.start := by simpa using List.find?_some found
    rw [unique other (List.mem_of_find?_eq_some found) same]

theorem Separate.editAt_eq_some (separate : Separate edits) (member : edit ∈ edits) :
    editAt edits edit.start = some edit := by
  refine Pattern.editAt_eq_some member fun other among same => ?_
  have covered := covers_start separate member
  have shared := covers_start separate among
  rw [same] at shared
  exact separate.unique other among edit member _ shared covered

end Governing

section Stretches
variable {pattern : List Char} {token : Token} {group : Occurrence} {dropped : List Occurrence}

/-- A token and a group that share a place: the token lies within the group. -/
theorem within_of_shared {place : Nat}
    (member : token ∈ tokens pattern) (listed : group ∈ groups pattern)
    (inToken : token.start ≤ place ∧ place < token.stop)
    (inGroup : group.start ≤ place ∧ place < group.stop) : within token group = true :=
  (within_or_apart member listed).resolve_right (by omega)

private theorem close_mem_of_group (listed : group ∈ groups pattern) : ')' ∈ group.text := by
  obtain ⟨more, length, text⟩ := finder_of_mem_occurrences listed
  have present : groupLength (pattern.drop group.start) ≠ 0 := by omega
  obtain ⟨inner, rest, split, inside⟩ := eq_group_of_groupLength present
  rw [split, groupLength_group inside] at length
  rw [text, split, ← length]
  simp [List.take_append]

private theorem close_not_mem_of_token (member : token ∈ tokens pattern) : ')' ∉ token.text := by
  obtain ⟨name, _, isName, _, _, bare | ⟨_, marked⟩⟩ := token_cases member
  · rw [bare]
    exact fun inside => (slot_ne_parenthesis token.kind isName.word ')' inside).2 rfl
  · rw [marked, List.mem_append, not_or]
    exact ⟨by decide, fun inside => (slot_ne_parenthesis .named isName.word ')' inside).2 rfl⟩

/-- A token within a group is shorter, as it has no closing parenthesis. -/
theorem length_lt_of_within (member : token ∈ tokens pattern) (listed : group ∈ groups pattern)
    (inside : within token group = true) : token.text.length < group.text.length := by
  have bounds := within_iff.mp inside
  rw [Token.stop, Occurrence.stop] at bounds
  by_contra long
  have start : token.start = group.start := by omega
  have length : token.text.length = group.text.length := by omega
  have same : token.text = group.text := by
    rw [← (stretch_of_token member).1, ← (stretch_of_group listed).1, start, length]
  exact close_not_mem_of_token member (same ▸ close_mem_of_group listed)

/-- No two groups touch the same place. -/
theorem separate_removals (known : ∀ group ∈ dropped, group ∈ groups pattern) :
    Separate (dropped.map removal) := by
  constructor
  · rw [List.forall_mem_map]
    intro group listed
    have bounds := group_start_lt_stop (known group listed)
    exact Nat.pos_of_lt_add_right bounds
  · simp only [List.forall_mem_map]
    intro group listed other others place inGroup inOther
    rw [Edit.covers_iff] at inGroup inOther
    exact congrArg removal (eq_of_pairwise (groups_pairwise pattern) (known group listed)
      (known other others) inGroup inOther)

end Stretches

section Slots
variable {pattern : List Char} {slots : List Slot} {slot : Slot} {dropped : List Occurrence}
  {edit : Edit}

theorem token_mem_of_on (on : slots.map Slot.token = tokens pattern) (member : slot ∈ slots) :
    slot.token ∈ tokens pattern := on ▸ List.mem_map_of_mem member

theorem pairwise_of_on (on : slots.map Slot.token = tokens pattern) :
    slots.Pairwise fun one other => one.token.stop ≤ other.token.start := by
  have ordered := tokens_pairwise pattern
  rwa [← on, List.pairwise_map] at ordered

/-- Of two slots only one can have a place. -/
theorem slot_eq_of_shared (on : slots.map Slot.token = tokens pattern) {other : Slot} {place : Nat}
    (first : slot ∈ slots) (second : other ∈ slots)
    (inFirst : slot.token.start ≤ place ∧ place < slot.token.stop)
    (inSecond : other.token.start ≤ place ∧ place < other.token.stop) : slot = other :=
  eq_of_pairwise (pairwise_of_on on) first second inFirst inSecond

theorem Slot.edit?_eq_some_iff :
    slot.edit? = some edit ↔ ∃ text, slot.filling = some text ∧ exchange slot.token text = edit :=
  Option.map_eq_some_iff

/-- The edit of a slot is about the stretch of its token. -/
theorem Slot.covers_edit? (filled : slot.edit? = some edit) (place : Nat) :
    edit.covers place = true ↔ slot.token.start ≤ place ∧ place < slot.token.stop := by
  obtain ⟨text, _, rfl⟩ := Slot.edit?_eq_some_iff.mp filled
  exact Edit.covers_iff

private theorem goesWith_iff : slot.goesWith dropped = true ↔
    ∃ group ∈ dropped, within slot.token group = true := List.any_eq_true

theorem mem_countingEdits_iff : edit ∈ countingEdits slots dropped ↔
    (∃ group ∈ dropped, removal group = edit) ∨
      ∃ slot ∈ slots, slot.goesWith dropped = false ∧ slot.edit? = some edit := by
  simp [countingEdits, and_assoc]

/-- A removal and the edit of a slot that share a place: the slot goes with the group. -/
theorem goesWith_of_shared (on : slots.map Slot.token = tokens pattern)
    (known : ∀ group ∈ dropped, group ∈ groups pattern) {group : Occurrence} {place : Nat}
    (member : slot ∈ slots) (filled : slot.edit? = some edit) (listed : group ∈ dropped)
    (inSlot : edit.covers place = true) (inGroup : (removal group).covers place = true) :
    slot.goesWith dropped = true :=
  goesWith_iff.mpr ⟨group, listed, within_of_shared (token_mem_of_on on member)
    (known group listed) ((Slot.covers_edit? filled place).mp inSlot) (Edit.covers_iff.mp inGroup)⟩

theorem separate_countingEdits (on : slots.map Slot.token = tokens pattern)
    (known : ∀ group ∈ dropped, group ∈ groups pattern) :
    Separate (countingEdits slots dropped) := by
  have removals := separate_removals known
  constructor
  · intro edit member
    rcases mem_countingEdits_iff.mp member with ⟨group, listed, rfl⟩ | ⟨slot, among, _, filled⟩
    · exact removals.positive _ (List.mem_map_of_mem listed)
    · obtain ⟨text, _, rfl⟩ := Slot.edit?_eq_some_iff.mp filled
      exact Nat.pos_of_lt_add_right (token_start_lt_stop (token_mem_of_on on among))
  · intro edit member other among place inEdit inOther
    rcases mem_countingEdits_iff.mp member with
        ⟨group, listed, rfl⟩ | ⟨slot, ofSlots, stays, filled⟩ <;>
      rcases mem_countingEdits_iff.mp among with
        ⟨second, others, rfl⟩ | ⟨second, others, alsoStays, alsoFilled⟩
    · exact removals.unique _ (List.mem_map_of_mem listed) _ (List.mem_map_of_mem others) place
        inEdit inOther
    · have goes := goesWith_of_shared on known others alsoFilled listed inOther inEdit
      rw [alsoStays] at goes
      cases goes
    · have goes := goesWith_of_shared on known ofSlots filled others inEdit inOther
      rw [stays] at goes
      cases goes
    · have same := slot_eq_of_shared on ofSlots others
        ((Slot.covers_edit? filled place).mp inEdit)
        ((Slot.covers_edit? alsoFilled place).mp inOther)
      rw [same, alsoFilled] at filled
      exact (Option.some.inj filled).symm

/-- The edit of a slot that goes with a group lies within the removal of the group. -/
theorem exists_inside_removal (on : slots.map Slot.token = tokens pattern)
    (known : ∀ group ∈ dropped, group ∈ groups pattern) (member : slot ∈ slots)
    (filled : slot.edit? = some edit) (goes : slot.goesWith dropped = true) :
    ∃ group ∈ dropped, edit.Inside (removal group) := by
  obtain ⟨group, listed, inside⟩ := goesWith_iff.mp goes
  obtain ⟨text, _, rfl⟩ := Slot.edit?_eq_some_iff.mp filled
  have among := token_mem_of_on on member
  have bounds := within_iff.mp inside
  exact ⟨group, listed, Nat.pos_of_lt_add_right (token_start_lt_stop among), bounds.1, bounds.2,
    length_lt_of_within among (known group listed) inside⟩

/-- Of the removals and the edits of all filled tokens, in whatever order, those that count
govern the others. -/
theorem governs_countingEdits (on : slots.map Slot.token = tokens pattern)
    (known : ∀ group ∈ dropped, group ∈ groups pattern) {edits : List Edit}
    (all : ∀ edit, edit ∈ edits ↔ edit ∈ slots.filterMap Slot.edit? ++ dropped.map removal) :
    Governs (countingEdits slots dropped) edits := by
  refine ⟨separate_countingEdits on known, fun edit member => ?_, fun edit member => ?_⟩
  · rw [all, List.mem_append, List.mem_filterMap, List.mem_map]
    rcases mem_countingEdits_iff.mp member with removed | ⟨slot, among, _, filled⟩
    · exact .inr removed
    · exact .inl ⟨slot, among, filled⟩
  · rw [all, List.mem_append, List.mem_filterMap, List.mem_map] at member
    rcases member with ⟨slot, among, filled⟩ | removed
    · cases goes : slot.goesWith dropped with
      | true =>
        obtain ⟨group, listed, inside⟩ := exists_inside_removal on known among filled goes
        exact .inr ⟨removal group, mem_countingEdits_iff.mpr (.inl ⟨group, listed, rfl⟩), inside⟩
      | false => exact .inl (mem_countingEdits_iff.mpr (.inr ⟨slot, among, goes, filled⟩))
    · exact .inl (mem_countingEdits_iff.mpr (.inl removed))

/-- The edits of slots are apart from each other, so each is the only one at its place. -/
theorem editAt_of_slot (on : slots.map Slot.token = tokens pattern) (member : slot ∈ slots)
    (filled : slot.edit? = some edit) :
    editAt (slots.filterMap Slot.edit?) edit.start = some edit := by
  have separate : Separate (countingEdits slots []) := separate_countingEdits on (by simp)
  have whole : countingEdits slots [] = slots.filterMap Slot.edit? := by
    simp [countingEdits, Slot.goesWith]
  rw [whole] at separate
  exact separate.editAt_eq_some (List.mem_filterMap.mpr ⟨slot, member, filled⟩)

private theorem effective_countingEdits (on : slots.map Slot.token = tokens pattern)
    (known : ∀ group ∈ dropped, group ∈ groups pattern) :
    Effective (dropped.map removal ++ slots.filterMap Slot.edit?) (countingEdits slots dropped) := by
  have governs : Governs (countingEdits slots dropped)
      (dropped.map removal ++ slots.filterMap Slot.edit?) :=
    governs_countingEdits on known fun edit => by rw [List.mem_append, or_comm, List.mem_append]
  apply governs.effective
  intro edit member
  rw [editAt_append]
  rcases mem_countingEdits_iff.mp member with ⟨group, listed, rfl⟩ | ⟨slot, among, stays, filled⟩
  · rw [(separate_removals known).editAt_eq_some (List.mem_map_of_mem listed), Option.some_or]
  · have untouched : editAt (dropped.map removal) edit.start = none := by
      apply editAt_eq_none
      intro other others same
      obtain ⟨group, listed, rfl⟩ := List.mem_map.mp others
      have shared := covers_start (separate_removals known) others
      rw [same] at shared
      have goes := goesWith_of_shared on known among filled listed
        (covers_start governs.separate member) shared
      rw [stays] at goes
      cases goes
    rw [untouched, Option.none_or, editAt_of_slot on among filled]

/-- Whichever tokens are filled and whichever groups are removed, a rendered pattern is the
pattern rewritten by the edits that count. -/
theorem render_eq_rewrite (on : slots.map Slot.token = tokens pattern)
    (known : ∀ group ∈ dropped, group ∈ groups pattern) :
    render pattern slots dropped = rewrite (countingEdits slots dropped) pattern :=
  applyEdits_eq_rewrite (effective_countingEdits on known) pattern

end Slots

end RoutePattern.Pattern
