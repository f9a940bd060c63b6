import RoutePattern.Proofs.Rendering

/-! A text rewritten place by place. Applying edits is a walk along the text that jumps over
what has been replaced; where the edits that count are apart from each other, the outcome can
be told of every place by itself: outside all of them the character stays, and a stretch that
is exchanged gives its new text once. Tokens are apart from each other, groups are, and a
token lies within a group or outside of it, whatever the pattern looks like. -/
namespace RoutePattern.Pattern
open Text

namespace Edit

/-- The place right behind the stretch that is exchanged. -/
def stop (edit : Edit) : Nat := edit.start + edit.length

/-- Does the place belong to the stretch that is exchanged? -/
def covers (edit : Edit) (place : Nat) : Bool := edit.start ≤ place && place < edit.stop

theorem covers_iff {edit : Edit} {place : Nat} :
    edit.covers place = true ↔ edit.start ≤ place ∧ place < edit.stop := by
  simp [covers]

end Edit

/-- What becomes of a character. A stretch that is exchanged gives its new text where it
begins, and nothing at its other places. -/
def standIn (edits : List Edit) (char : Char) (place : Nat) : List Char :=
  match edits.find? (·.covers place) with
  | none => [char]
  | some edit => if edit.start = place then edit.text else []

/-- The characters from `place` on, each with what becomes of it. -/
def rewriteFrom (edits : List Edit) (place : Nat) (text : List Char) : List Char :=
  (text.zipIdx place).flatMap fun entry => standIn edits entry.1 entry.2

/-- A text in which some stretches are exchanged, and every other character stays. -/
def rewrite (edits : List Edit) (text : List Char) : List Char := rewriteFrom edits 0 text

/-- Edits of which no two touch the same place, and none is empty. -/
structure Separate (edits : List Edit) : Prop where
  positive : ∀ edit ∈ edits, 0 < edit.length
  unique : ∀ edit ∈ edits, ∀ other ∈ edits, ∀ place,
    edit.covers place = true → other.covers place = true → edit = other

/-- The edits that count among all that are there: each of them is the first one listed for
the place where it begins, and no other edit begins outside of them. -/
structure Effective (edits active : List Edit) : Prop where
  separate : Separate active
  first : ∀ edit ∈ active, editAt edits edit.start = some edit
  none : ∀ place, (∀ edit ∈ active, edit.covers place = false) → editAt edits place = none

section Walk
variable {edits active : List Edit} {edit : Edit} {place skip : Nat}

/-- How far a walk has got: so many characters from this place on belong to an edit that
began before, and if there are none, no edit reaches beyond the place. -/
def Reached (active : List Edit) (place : Nat) : Nat → Prop
  | 0 => ∀ edit ∈ active, edit.start < place → edit.stop ≤ place
  | skip + 1 => ∃ edit ∈ active, edit.start < place ∧ edit.stop = place + (skip + 1)

theorem covers_start (separate : Separate active) (member : edit ∈ active) :
    edit.covers edit.start = true := by
  have positive := separate.positive edit member
  rw [Edit.covers_iff, Edit.stop]
  omega

private theorem standIn_of_covers (separate : Separate active) (member : edit ∈ active)
    (covered : edit.covers place = true) (char : Char) :
    standIn active char place = if edit.start = place then edit.text else [] := by
  have found : active.find? (·.covers place) = some edit := by
    cases same : active.find? (·.covers place) with
    | none => exact absurd covered (List.find?_eq_none.mp same edit member)
    | some other =>
      have shared : other.covers place = true := by simpa using List.find?_some same
      rw [separate.unique edit member other (List.mem_of_find?_eq_some same) place covered shared]
  rw [standIn, found]

private theorem standIn_of_not_covers (outside : ∀ edit ∈ active, edit.covers place = false)
    (char : Char) : standIn active char place = [char] := by
  have none : active.find? (·.covers place) = none := by
    rw [List.find?_eq_none]
    intro edit member covered
    rw [outside edit member] at covered
    cases covered
  rw [standIn, none]

/-- Within an edit the walk goes on to its end. -/
theorem reached_next (separate : Separate active) (member : edit ∈ active)
    (covered : edit.covers place = true) :
    Reached active (place + 1) (edit.stop - (place + 1)) := by
  have bounds := Edit.covers_iff.mp covered
  cases left : edit.stop - (place + 1) with
  | zero =>
    intro other among before
    by_contra beyond
    have same := separate.unique edit member other among place covered
      (Edit.covers_iff.mpr ⟨by omega, by omega⟩)
    subst same
    omega
  | succ less => exact ⟨edit, member, by omega, by omega⟩

/-- Where no edit is being passed over, one that covers the place begins there. -/
theorem start_eq_of_reached (reached : Reached active place 0) (member : edit ∈ active)
    (covered : edit.covers place = true) : edit.start = place := by
  have bounds := Edit.covers_iff.mp covered
  by_contra other
  have ended := reached edit member (by omega)
  omega

/-- A walk along the text and a look at each place give the same. -/
theorem applyEdits_eq_rewriteFrom (effective : Effective edits active) (text : List Char)
    (place skip : Nat) (reached : Reached active place skip) :
    applyEdits edits place skip text = rewriteFrom active place text := by
  have separate := effective.separate
  induction text generalizing place skip with
  | nil => cases skip <;> rfl
  | cons char text ih =>
    rw [rewriteFrom, List.zipIdx_cons, List.flatMap_cons]
    cases skip with
    | succ skip =>
      obtain ⟨edit, member, before, stop⟩ := reached
      have covered : edit.covers place = true := Edit.covers_iff.mpr ⟨by omega, by omega⟩
      have further := reached_next separate member covered
      have left : edit.stop - (place + 1) = skip := by omega
      rw [left] at further
      rw [applyEdits, ih _ _ further, standIn_of_covers separate member covered,
        if_neg (by omega)]
      rfl
    | zero =>
      by_cases outside : ∀ edit ∈ active, edit.covers place = false
      · have untouched := effective.none place outside
        have further : Reached active (place + 1) 0 := by
          intro edit member before
          by_contra beyond
          have covered : edit.covers place = true := Edit.covers_iff.mpr ⟨by omega, by omega⟩
          rw [outside edit member] at covered
          cases covered
        rw [editAt] at untouched
        simp only [applyEdits, untouched]
        rw [ih _ _ further, standIn_of_not_covers outside]
        rfl
      · simp only [not_forall, Bool.not_eq_false] at outside
        obtain ⟨edit, member, covered⟩ := outside
        have start := start_eq_of_reached reached member covered
        have here := effective.first edit member
        have further := reached_next separate member covered
        have left : edit.stop - (place + 1) = edit.length - 1 := by
          rw [Edit.stop]
          omega
        rw [left] at further
        rw [start, editAt] at here
        simp only [applyEdits, here]
        rw [ih _ _ further, standIn_of_covers separate member covered, if_pos start]
        rfl

theorem applyEdits_eq_rewrite (effective : Effective edits active) (text : List Char) :
    applyEdits edits 0 0 text = rewrite active text :=
  applyEdits_eq_rewriteFrom effective text 0 0 fun _ _ before => absurd before (Nat.not_lt_zero _)

end Walk

section Stretches
variable {edits : List Edit} {edit : Edit} {place : Nat}

theorem rewriteFrom_append (edits : List Edit) (place : Nat) (first second : List Char) :
    rewriteFrom edits place (first ++ second) =
      rewriteFrom edits place first ++ rewriteFrom edits (place + first.length) second := by
  rw [rewriteFrom, List.zipIdx_append, List.flatMap_append]
  rfl

/-- A text is rewritten stretch by stretch. -/
theorem rewrite_split (edits : List Edit) (text : List Char) {start stop : Nat}
    (order : start ≤ stop) (bound : stop ≤ text.length) :
    rewrite edits text =
      rewriteFrom edits 0 (text.take start) ++
        rewriteFrom edits start ((text.drop start).take (stop - start)) ++
        rewriteFrom edits stop (text.drop stop) := by
  have rest : text.drop stop = (text.drop start).drop (stop - start) := by
    rw [List.drop_drop, Nat.add_sub_cancel' order]
  have front : (text.take start).length = start := by
    rw [List.length_take]
    omega
  have middle : ((text.drop start).take (stop - start)).length = stop - start := by
    rw [List.length_take, List.length_drop]
    omega
  calc rewrite edits text
    _ = rewriteFrom edits 0 (text.take start ++ ((text.drop start).take (stop - start) ++
          text.drop stop)) := by
      rw [rest, List.take_append_drop, List.take_append_drop]
      rfl
    _ = _ := by
      rw [rewriteFrom_append, rewriteFrom_append, front, middle, Nat.zero_add,
        Nat.add_sub_cancel' order, List.append_assoc]

/-- A stretch that no edit touches stays. -/
theorem rewriteFrom_of_apart (text : List Char)
    (apart : ∀ edit ∈ edits, ∀ behind, place ≤ behind → behind < place + text.length →
      edit.covers behind = false) : rewriteFrom edits place text = text := by
  induction text generalizing place with
  | nil => rfl
  | cons char text ih =>
    have here := standIn_of_not_covers
      (fun edit member => apart edit member place (Nat.le_refl place) (by simp)) char
    have further : rewriteFrom edits (place + 1) text = text := by
      apply ih
      intro edit member behind after before
      exact apart edit member behind (by omega) (by rw [List.length_cons]; omega)
    rw [rewriteFrom] at further ⊢
    rw [List.zipIdx_cons, List.flatMap_cons, here, further]
    rfl

/-- Behind the place where an edit begins nothing comes out before its end. -/
theorem rewriteFrom_inside (separate : Separate edits) (member : edit ∈ edits)
    (text : List Char) (after : edit.start < place) (before : place + text.length ≤ edit.stop) :
    rewriteFrom edits place text = [] := by
  induction text generalizing place with
  | nil => rfl
  | cons char text ih =>
    rw [List.length_cons] at before
    have covered : edit.covers place = true := Edit.covers_iff.mpr ⟨by omega, by omega⟩
    have further : rewriteFrom edits (place + 1) text = [] := ih (by omega) (by omega)
    rw [rewriteFrom] at further ⊢
    rw [List.zipIdx_cons, List.flatMap_cons, further, standIn_of_covers separate member covered,
      if_neg (by omega)]
    rfl

/-- The stretch of an edit gives the new text. -/
theorem rewriteFrom_edit (separate : Separate edits) (member : edit ∈ edits) {text : List Char}
    (length : text.length = edit.length) : rewriteFrom edits edit.start text = edit.text := by
  have positive := separate.positive edit member
  cases text with
  | nil => simp at length; omega
  | cons char text =>
    have covered := covers_start separate member
    have further := rewriteFrom_inside separate member text (Nat.lt_succ_self edit.start)
      (by rw [Edit.stop, ← length, List.length_cons]; omega)
    rw [rewriteFrom] at further ⊢
    rw [List.zipIdx_cons, List.flatMap_cons, further, standIn_of_covers separate member covered,
      if_pos rfl, List.append_nil]

theorem Separate.subset {others : List Edit} (separate : Separate edits)
    (among : ∀ edit ∈ others, edit ∈ edits) : Separate others :=
  ⟨fun edit member => separate.positive edit (among edit member),
    fun edit member other present =>
      separate.unique edit (among edit member) other (among other present)⟩

/-- In which order the edits are listed makes no difference. -/
theorem rewrite_congr {others : List Edit} (separate : Separate edits)
    (same : ∀ edit, edit ∈ edits ↔ edit ∈ others) (text : List Char) :
    rewrite edits text = rewrite others text := by
  have alsoSeparate : Separate others := separate.subset fun edit => (same edit).mpr
  have alike : standIn edits = standIn others := by
    funext char place
    by_cases outside : ∀ edit ∈ edits, edit.covers place = false
    · rw [standIn_of_not_covers outside,
        standIn_of_not_covers fun edit member => outside edit ((same edit).mpr member)]
    · simp only [not_forall, Bool.not_eq_false] at outside
      obtain ⟨edit, member, covered⟩ := outside
      rw [standIn_of_covers separate member covered,
        standIn_of_covers alsoSeparate ((same edit).mp member) covered]
  rw [rewrite, rewriteFrom, rewrite, rewriteFrom, alike]

/-- What stands in a rewritten text has stood there before, or an edit has put it there. -/
theorem mem_rewrite {text : List Char} {char : Char} (member : char ∈ rewrite edits text) :
    char ∈ text ∨ ∃ edit ∈ edits, char ∈ edit.text := by
  obtain ⟨⟨origin, place⟩, listed, member⟩ := List.mem_flatMap.mp member
  rw [standIn] at member
  split at member
  · rw [List.mem_singleton] at member
    exact .inl (member ▸ List.fst_mem_of_mem_zipIdx listed)
  · rename_i edit found
    split at member
    · exact .inr ⟨edit, List.mem_of_find?_eq_some found, member⟩
    · cases member

end Stretches

/-- Does a token lie within a group? -/
def within (token : Token) (group : Occurrence) : Bool :=
  group.start ≤ token.start && token.stop ≤ group.stop

section Places
variable {cut : List Piece} {place : Nat} {found : Occurrence} {pattern : List Char}
  {token : Token} {group : Occurrence}

theorem within_iff : within token group = true ↔
    group.start ≤ token.start ∧ token.stop ≤ group.stop := by
  simp [within]

/-- What was found stands in reading order, one behind the other. -/
theorem locate_pairwise (proper : Proper cut) :
    (locate place cut).Pairwise fun one other => one.stop ≤ other.start := by
  induction cut generalizing place with
  | nil => exact .nil
  | cons piece cut ih =>
    have later := proper.tail
    cases piece with
    | plain char => exact ih later
    | found text =>
      exact .cons (fun other member => (locate_bounds later member).1) (ih later)

theorem tokens_pairwise (pattern : List Char) :
    (tokens pattern).Pairwise fun one other => one.stop ≤ other.start := by
  rw [tokens, List.pairwise_map]
  exact locate_pairwise (proper_pieces tokenLength pattern)

theorem groups_pairwise (pattern : List Char) :
    (groups pattern).Pairwise fun one other => one.stop ≤ other.start :=
  locate_pairwise (proper_pieces groupLength pattern)

theorem token_start_lt_stop (member : token ∈ tokens pattern) : token.start < token.stop := by
  obtain ⟨found, listed, rfl⟩ := List.mem_map.mp member
  exact (locate_bounds (proper_pieces tokenLength pattern) listed).2.1

theorem group_start_lt_stop (member : group ∈ groups pattern) : group.start < group.stop :=
  (locate_bounds (proper_pieces groupLength pattern) member).2.1

/-- Of stretches in a row only one can cover a place. -/
theorem eq_of_pairwise {α : Type} {start stop : α → Nat} {list : List α}
    (ordered : list.Pairwise fun one other => stop one ≤ start other) {one other : α}
    (first : one ∈ list) (second : other ∈ list) (inFirst : start one ≤ place ∧ place < stop one)
    (inSecond : start other ≤ place ∧ place < stop other) : one = other := by
  induction ordered with
  | nil => cases first
  | cons apart _ ih =>
    rcases List.mem_cons.mp first with rfl | firstBehind
    · rcases List.mem_cons.mp second with rfl | secondBehind
      · rfl
      · have order := apart _ secondBehind
        omega
    · rcases List.mem_cons.mp second with rfl | secondBehind
      · have order := apart _ firstBehind
        omega
      · exact ih firstBehind secondBehind

/-- What was found is what stands at its place. -/
theorem stretch_of_mem_locate (proper : Proper cut) (member : found ∈ locate place cut) :
    ((textOf cut).drop (found.start - place)).take found.text.length = found.text := by
  induction cut generalizing place with
  | nil => cases member
  | cons piece cut ih =>
    have later := proper.tail
    cases piece with
    | plain char =>
      have bounds := locate_bounds later member
      have further := ih later member
      have split : found.start - place = (found.start - (place + 1)) + 1 := by omega
      rwa [textOf_cons, Piece.text, List.singleton_append, split, List.drop_succ_cons]
    | found text =>
      rcases List.mem_cons.mp member with rfl | member
      · simp [textOf_cons, Piece.text]
      · have bounds := locate_bounds later member
        have further := ih later member
        have split : found.start - place = text.length + (found.start - (place + text.length)) := by
          omega
        rwa [textOf_cons, Piece.text, split, List.drop_append, List.drop_eq_nil_of_le (by omega),
          List.nil_append, Nat.add_sub_cancel_left]

private theorem length_textOf_outer (block : Block) :
    (textOf block.outer).length = (textOf block.pieces).length := by
  rw [Block.outer]
  split
  · simp [textOf, Piece.text]
  · rw [textOf_plains]

private theorem proper_outer {block : Block} (present : textOf block.pieces ≠ []) :
    Proper block.outer := by
  intro text inside
  rw [Block.outer] at inside
  split at inside
  · rw [List.mem_singleton, Piece.found.injEq] at inside
    exact inside ▸ present
  · simp at inside

/-- Tokens and groups of blocks of which the first one stands at `place`. -/
theorem within_or_apart_blocks (blocks : List Block)
    (proper : ∀ block ∈ blocks, Proper block.pieces ∧ textOf block.pieces ≠ [])
    (listed : found ∈ locate place (blocks.flatMap Block.pieces))
    (member : group ∈ locate place (blocks.flatMap Block.outer)) :
    (group.start ≤ found.start ∧ found.stop ≤ group.stop) ∨
      found.stop ≤ group.start ∨ group.stop ≤ found.start := by
  induction blocks generalizing place with
  | nil => cases listed
  | cons block blocks ih =>
    have here := proper block (by simp)
    have later := fun other inside => proper other (List.mem_cons_of_mem block inside)
    have outer : Proper (blocks.flatMap Block.outer) := by
      intro text inside
      obtain ⟨other, among, inside⟩ := List.mem_flatMap.mp inside
      exact proper_outer (later other among).2 text inside
    rw [List.flatMap_cons, locate_append, List.mem_append] at listed member
    rw [length_textOf_outer] at member
    rcases listed with mine | others
    · have bounds := locate_bounds here.1 mine
      rcases member with own | further
      · -- a block without a group has no group to be compared with
        rw [Block.outer] at own
        split at own
        · rw [locate, locate, List.mem_singleton] at own
          subst own
          exact .inl ⟨bounds.1, bounds.2.2⟩
        · rw [locate_plains] at own
          cases own
      · have apart := locate_bounds outer further
        omega
    · have bounds := locate_bounds (proper_flatMap blocks fun other inside =>
        (later other inside).1) others
      rcases member with own | further
      · have apart := locate_bounds (proper_outer here.2) own
        rw [length_textOf_outer] at apart
        omega
      · exact ih later others further

/-- A token lies within a group, or no place belongs to both. -/
theorem within_or_apart (member : token ∈ tokens pattern) (listed : group ∈ groups pattern) :
    within token group = true ∨ token.stop ≤ group.start ∨ group.stop ≤ token.start := by
  obtain ⟨found, inside, rfl⟩ := List.mem_map.mp member
  rw [occurrences, pieces_blocks] at inside
  rw [groups, occurrences, pieces_groupLength] at listed
  rw [within_iff]
  exact within_or_apart_blocks (blocks pattern) (blocks_proper pattern) inside listed

/-- A token shares a place with a group only if it lies within it. -/
theorem overlaps_eq_within (member : token ∈ tokens pattern) (listed : group ∈ groups pattern) :
    overlaps token group = within token group := by
  have first := token_start_lt_stop member
  have second := group_start_lt_stop listed
  rw [Bool.eq_iff_iff]
  constructor
  · intro shared
    simp only [overlaps, Bool.and_eq_true, decide_eq_true_eq] at shared
    exact (within_or_apart member listed).resolve_right (by omega)
  · intro inside
    have bounds := within_iff.mp inside
    simp only [overlaps, Bool.and_eq_true, decide_eq_true_eq]
    omega

private theorem stretch_of_occurrence {finder : Finder} {found : Occurrence}
    (member : found ∈ occurrences finder pattern) :
    (pattern.drop found.start).take found.text.length = found.text ∧
      found.stop ≤ pattern.length := by
  have proper := proper_pieces finder pattern
  have bounds := locate_bounds proper member
  have stretch := stretch_of_mem_locate proper member
  have whole : textOf (pieces finder pattern) = pattern := flatMap_text_pieces _ _
  rw [whole] at bounds stretch
  exact ⟨stretch, by omega⟩

theorem stretch_of_token (member : token ∈ tokens pattern) :
    (pattern.drop token.start).take token.text.length = token.text ∧
      token.stop ≤ pattern.length := by
  obtain ⟨found, listed, rfl⟩ := List.mem_map.mp member
  exact stretch_of_occurrence listed

theorem stretch_of_group (listed : group ∈ groups pattern) :
    (pattern.drop group.start).take group.text.length = group.text ∧
      group.stop ≤ pattern.length :=
  stretch_of_occurrence listed

end Places

end RoutePattern.Pattern
