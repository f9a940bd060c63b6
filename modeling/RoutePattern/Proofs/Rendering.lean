import RoutePattern.Pattern.Filling
import RoutePattern.Proofs.Blocks

/-! What becomes of a pattern whose slots have been given out. The edits, which name places
in the pattern, leave every block by itself: an optional one that keeps an unfilled slot
goes, and of the others each filled token is exchanged while all other characters stay.
This holds of every pattern and for all fillings. -/
namespace RoutePattern.Pattern
open Text

/-- How many tokens there are among pieces. -/
def foundCount (cut : List Piece) : Nat := (cut.filterMap found?).length

/-- Pieces put together again, with fillings in place of the tokens in reading order. A
token without a filling stands for itself. -/
def weave : List Piece → List (Option (List Char)) → List Char
  | [], _ => []
  | .plain char :: rest, fillings => char :: weave rest fillings
  | .found text :: rest, fillings => (fillings.headD none).getD text ++ weave rest fillings.tail

/-- A block with fillings for its tokens: an optional one goes unless all are there. -/
def Block.filled (block : Block) (fillings : List (Option (List Char))) : List Char :=
  if block.optional && fillings.any Option.isNone then [] else weave block.pieces fillings

/-- Blocks with fillings for their tokens in reading order. -/
def weaveBlocks : List Block → List (Option (List Char)) → List Char
  | [], _ => []
  | block :: rest, fillings =>
    block.filled (fillings.take (foundCount block.pieces)) ++
      weaveBlocks rest (fillings.drop (foundCount block.pieces))

/-- The edits that exchange tokens among pieces of which the first one stands at `place`. -/
def tokenEdits (place : Nat) : List Piece → List (Option (List Char)) → List Edit
  | [], _ => []
  | .plain _ :: rest, fillings => tokenEdits (place + 1) rest fillings
  | .found text :: rest, fillings =>
    ((fillings.headD none).map fun filling => ⟨place, text.length, filling⟩).toList ++
      tokenEdits (place + text.length) rest fillings.tail

/-- The edits that remove optional blocks, of which the first one stands at `place`. -/
def blockEdits (place : Nat) : List Block → List (Option (List Char)) → List Edit
  | [], _ => []
  | block :: rest, fillings =>
    let length := (textOf block.pieces).length
    let own := fillings.take (foundCount block.pieces)
    (if block.optional && own.any Option.isNone then [⟨place, length, []⟩] else []) ++
      blockEdits (place + length) rest (fillings.drop (foundCount block.pieces))

/-- Every token among these pieces has a text of its own. -/
def Proper (cut : List Piece) : Prop := ∀ text, .found text ∈ cut → text ≠ []

theorem Proper.tail {piece : Piece} {cut : List Piece} (proper : Proper (piece :: cut)) :
    Proper cut := fun text inside => proper text (List.mem_cons_of_mem _ inside)

/-- The edit that begins at a place. -/
def editAt (edits : List Edit) (place : Nat) : Option Edit := edits.find? (·.start == place)

section Edits
variable {edits others : List Edit} {place : Nat}

theorem editAt_append (edits others : List Edit) (place : Nat) :
    editAt (edits ++ others) place = (editAt edits place).or (editAt others place) := by
  simp [editAt, List.find?_append]

theorem editAt_eq_none (elsewhere : ∀ edit ∈ edits, edit.start ≠ place) :
    editAt edits place = none := by
  rw [editAt, List.find?_eq_none]
  intro edit member here
  exact elsewhere edit member (by simpa using here)

private theorem applyEdits_skip (edits : List Edit) (place : Nat) (text rest : List Char) :
    applyEdits edits place text.length (text ++ rest) =
      applyEdits edits (place + text.length) 0 rest := by
  induction text generalizing place with
  | nil => rfl
  | cons char text ih =>
    have further := ih (place + 1)
    rw [List.length_cons, List.cons_append, applyEdits, further]
    congr 1
    omega

/-- A stretch in which no edit begins stays. -/
theorem applyEdits_stretch (place : Nat) (text rest : List Char)
    (none : ∀ behind, place ≤ behind → behind < place + text.length → editAt edits behind = none) :
    applyEdits edits place 0 (text ++ rest) =
      text ++ applyEdits edits (place + text.length) 0 rest := by
  induction text generalizing place with
  | nil => rfl
  | cons char text ih =>
    have here := none place (Nat.le_refl place) (by simp)
    have further := ih (place + 1) fun behind after before =>
      none behind (by omega) (by simp only [List.length_cons]; omega)
    simp only [editAt] at here
    rw [List.cons_append, applyEdits, here]
    simp only [further, List.length_cons, List.cons_append]
    congr 3
    omega

/-- An edit exchanges the stretch that it is about. -/
theorem applyEdits_edit (edit : Edit) {text : List Char} (rest : List Char) (present : text ≠ [])
    (here : editAt edits place = some edit) (length : edit.length = text.length) :
    applyEdits edits place 0 (text ++ rest) =
      edit.text ++ applyEdits edits (place + text.length) 0 rest := by
  cases text with
  | nil => exact absurd rfl present
  | cons char text =>
    have less : edit.length - 1 = text.length := by simp [length]
    rw [editAt] at here
    simp only [List.cons_append, applyEdits, here, less]
    rw [applyEdits_skip, List.length_cons]
    congr 2
    omega

end Edits

section Bounds
variable {cut : List Piece} {fillings : List (Option (List Char))} {place : Nat} {edit : Edit}

theorem textOf_cons (piece : Piece) (cut : List Piece) :
    textOf (piece :: cut) = piece.text ++ textOf cut := rfl

@[simp] theorem foundCount_nil : foundCount [] = 0 := rfl

@[simp] theorem foundCount_plain (char : Char) (cut : List Piece) :
    foundCount (.plain char :: cut) = foundCount cut := rfl

@[simp] theorem foundCount_found (text : List Char) (cut : List Piece) :
    foundCount (.found text :: cut) = foundCount cut + 1 := rfl

/-- A token is exchanged where it stands. -/
theorem tokenEdits_bounds (proper : Proper cut) (member : edit ∈ tokenEdits place cut fillings) :
    place ≤ edit.start ∧ edit.start < place + (textOf cut).length := by
  induction cut generalizing place fillings with
  | nil => cases member
  | cons piece cut ih =>
    have later := proper.tail
    cases piece with
    | plain char =>
      obtain ⟨after, before⟩ := ih later member
      simp only [textOf_cons, Piece.text, List.length_append, List.length_singleton]
      omega
    | found text =>
      simp only [textOf_cons, Piece.text, List.length_append]
      rcases List.mem_append.mp member with here | member
      · have positive : 0 < text.length := List.length_pos_iff.mpr (proper text (by simp))
        rw [Option.mem_toList, Option.map_eq_some_iff] at here
        obtain ⟨filling, _, rfl⟩ := here
        simp only
        omega
      · obtain ⟨after, before⟩ := ih later member
        omega

private theorem blockEdits_bounds (blocks : List Block)
    (member : edit ∈ blockEdits place blocks fillings) : place ≤ edit.start := by
  induction blocks generalizing place fillings with
  | nil => cases member
  | cons block blocks ih =>
    rw [blockEdits] at member
    rcases List.mem_append.mp member with here | member
    · split at here
      · rw [List.mem_singleton] at here
        rw [here]
      · cases here
    · have after := ih member
      omega

/-- No token is exchanged outside the stretch that the pieces make up. -/
theorem editAt_tokenEdits_outside {behind : Nat} (proper : Proper cut)
    (outside : behind < place ∨ place + (textOf cut).length ≤ behind) :
    editAt (tokenEdits place cut fillings) behind = none := by
  apply editAt_eq_none
  intro edit member
  have bounds := tokenEdits_bounds proper member
  omega

private theorem editAt_blockEdits_before {behind : Nat} (blocks : List Block)
    (before : behind < place) :
    editAt (blockEdits place blocks fillings) behind = none := by
  apply editAt_eq_none
  intro edit member
  have bound := blockEdits_bounds blocks member
  omega

theorem proper_flatMap (blocks : List Block) (proper : ∀ block ∈ blocks, Proper block.pieces) :
    Proper (blocks.flatMap Block.pieces) := by
  intro text inside
  obtain ⟨block, among, within⟩ := List.mem_flatMap.mp inside
  exact proper block among text within

private theorem tokenEdits_append (first second : List Piece) :
    tokenEdits place (first ++ second) fillings =
      tokenEdits place first (fillings.take (foundCount first)) ++
        tokenEdits (place + (textOf first).length) second (fillings.drop (foundCount first)) := by
  induction first generalizing place fillings with
  | nil => simp [tokenEdits, textOf]
  | cons piece first ih =>
    cases piece with
    | plain char =>
      rw [List.cons_append, tokenEdits, ih]
      simp [tokenEdits, textOf_cons, Piece.text, Nat.add_assoc, Nat.add_comm 1]
    | found text =>
      rw [List.cons_append, tokenEdits, ih]
      cases fillings <;> simp [tokenEdits, textOf_cons, Piece.text, Nat.add_assoc]

end Bounds

section Weaving
variable {cut : List Piece} {edits : List Edit}

/-- Where the edits are those of its tokens, a stretch is woven with their fillings. -/
theorem applyEdits_pieces (place : Nat) (fillings : List (Option (List Char)))
    (rest : List Char) (proper : Proper cut)
    (same : ∀ behind, place ≤ behind → behind < place + (textOf cut).length →
      editAt edits behind = editAt (tokenEdits place cut fillings) behind) :
    applyEdits edits place 0 (textOf cut ++ rest) =
      weave cut fillings ++ applyEdits edits (place + (textOf cut).length) 0 rest := by
  induction cut generalizing place fillings with
  | nil => rfl
  | cons piece cut ih =>
    have later := proper.tail
    cases piece with
    | plain char =>
      simp only [textOf_cons, Piece.text, List.length_append, List.length_singleton] at same ⊢
      have here : editAt edits place = none := by
        rw [same place (Nat.le_refl place) (by omega), tokenEdits]
        exact editAt_tokenEdits_outside later (.inl (Nat.lt_succ_self place))
      have first : applyEdits edits place 0 (char :: (textOf cut ++ rest)) =
          char :: applyEdits edits (place + 1) 0 (textOf cut ++ rest) := by
        rw [editAt] at here
        simp only [applyEdits, here]
      have further := ih (place + 1) fillings later
        fun behind after before => same behind (by omega) (by omega)
      rw [List.append_assoc, List.singleton_append, first, further, weave, List.cons_append,
        Nat.add_assoc]
    | found text =>
      have present := proper text (by simp)
      have positive : 0 < text.length := List.length_pos_iff.mpr present
      simp only [textOf_cons, Piece.text, List.length_append] at same ⊢
      have passed (behind : Nat) (after : place + text.length ≤ behind) :
          editAt (tokenEdits place (.found text :: cut) fillings) behind =
            editAt (tokenEdits (place + text.length) cut fillings.tail) behind := by
        rw [tokenEdits, editAt_append]
        cases fillings.headD none with
        | none => rfl
        | some filling =>
          have elsewhere : place ≠ behind := by omega
          simp [editAt, elsewhere]
      have further := ih (place + text.length) fillings.tail later
        fun behind after before => by
          rw [same behind (by omega) (by omega), passed behind after]
      have first : applyEdits edits place 0 (text ++ (textOf cut ++ rest)) =
          (fillings.headD none).getD text ++
            applyEdits edits (place + text.length) 0 (textOf cut ++ rest) := by
        cases given : fillings.headD none with
        | none =>
          apply applyEdits_stretch
          intro behind after before
          rw [same behind after (by omega), tokenEdits, given]
          exact editAt_tokenEdits_outside later (.inl before)
        | some filling =>
          refine applyEdits_edit ⟨place, text.length, filling⟩ _ present ?_ rfl
          rw [same place (Nat.le_refl place) (by omega), tokenEdits, given]
          simp [editAt]
      rw [List.append_assoc, first, further, weave, List.append_assoc, Nat.add_assoc]

private theorem textOf_append (first second : List Piece) :
    textOf (first ++ second) = textOf first ++ textOf second := List.flatMap_append

/-- Where the edits are those of blocks and of the tokens within, a block whose tokens
are not all filled is removed if it may be, and the others are woven. -/
theorem applyEdits_blocks (place : Nat) (blocks : List Block)
    (fillings : List (Option (List Char)))
    (proper : ∀ block ∈ blocks, Proper block.pieces ∧ textOf block.pieces ≠ [])
    (same : ∀ behind, place ≤ behind → editAt edits behind =
      editAt (blockEdits place blocks fillings ++
        tokenEdits place (blocks.flatMap Block.pieces) fillings) behind) :
    applyEdits edits place 0 (textOf (blocks.flatMap Block.pieces)) =
      weaveBlocks blocks fillings := by
  induction blocks generalizing place fillings with
  | nil => rfl
  | cons block blocks ih =>
    have here := proper block (by simp)
    have positive : 0 < (textOf block.pieces).length := List.length_pos_iff.mpr here.2
    have all := proper_flatMap blocks fun other inside =>
      (proper other (List.mem_cons_of_mem _ inside)).1
    rw [List.flatMap_cons, textOf_append, weaveBlocks]
    simp only [List.flatMap_cons, blockEdits, tokenEdits_append] at same
    generalize fillings.take (foundCount block.pieces) = mine at same ⊢
    generalize fillings.drop (foundCount block.pieces) = others at same ⊢
    have further := ih (place + (textOf block.pieces).length) others
      (fun other member => proper other (List.mem_cons_of_mem _ member)) fun behind after => by
        have split := same behind (by omega)
        simp only [editAt_append, editAt_tokenEdits_outside here.1 (.inr after),
          Option.none_or] at split ⊢
        rw [split]
        by_cases goes : (block.optional && mine.any Option.isNone) = true
        · have elsewhere : place ≠ behind := by omega
          simp [goes, editAt, elsewhere]
        · simp [goes, editAt]
    have first : applyEdits edits place 0
          (textOf block.pieces ++ textOf (blocks.flatMap Block.pieces)) =
        block.filled mine ++ applyEdits edits (place + (textOf block.pieces).length) 0
          (textOf (blocks.flatMap Block.pieces)) := by
      by_cases goes : (block.optional && mine.any Option.isNone) = true
      · rw [Block.filled, if_pos goes]
        refine applyEdits_edit ⟨place, (textOf block.pieces).length, []⟩ _ here.2 ?_ rfl
        rw [same place (Nat.le_refl place), if_pos goes]
        simp [editAt]
      · rw [Block.filled, if_neg goes]
        apply applyEdits_pieces place mine _ here.1
        intro behind after before
        rw [same behind after, if_neg goes, List.nil_append]
        simp only [editAt_append, editAt_blockEdits_before blocks before,
          editAt_tokenEdits_outside all (.inl before), Option.none_or, Option.or_none]
    rw [first, further]

end Weaving

/-- Slots on the tokens among pieces of which the first one stands at `place`. -/
def SlotsOn (place : Nat) (cut : List Piece) (slots : List Slot) : Prop :=
  slots.map Slot.token = (locate place cut).map Token.ofOccurrence

section Slots
variable {place : Nat} {slots : List Slot}

theorem locate_append (place : Nat) (first second : List Piece) :
    locate place (first ++ second) =
      locate place first ++ locate (place + (textOf first).length) second := by
  induction first generalizing place with
  | nil => rfl
  | cons piece first ih =>
    cases piece with
    | plain char => simp [locate, ih, textOf_cons, Piece.text, Nat.add_assoc, Nat.add_comm 1]
    | found text => simp [locate, ih, textOf_cons, Piece.text, Nat.add_assoc]

theorem length_locate (place : Nat) (cut : List Piece) :
    (locate place cut).length = foundCount cut := by
  rw [foundCount, ← map_text_locate place cut, List.length_map]

/-- The filled slots name the edits of their tokens. -/
theorem filterMap_edit? (place : Nat) (cut : List Piece) (on : SlotsOn place cut slots) :
    slots.filterMap Slot.edit? = tokenEdits place cut (slots.map Slot.filling) := by
  induction cut generalizing place slots with
  | nil =>
    have none : slots = [] := by simpa [SlotsOn, locate] using on
    subst none
    rfl
  | cons piece cut ih =>
    cases piece with
    | plain char => exact ih _ on
    | found text =>
      cases slots with
      | nil => simp [SlotsOn, locate] at on
      | cons slot slots =>
        simp only [SlotsOn, locate, List.map_cons, List.cons.injEq] at on
        obtain ⟨here, later⟩ := on
        have start : slot.token.start = place := by rw [here]; rfl
        have length : slot.token.text = text := by rw [here]; rfl
        rw [List.map_cons, tokenEdits, List.headD_cons, List.tail_cons, ← ih _ later]
        cases given : slot.filling with
        | none => simp [Slot.edit?, given]
        | some filling => simp [Slot.edit?, given, start, length]

private theorem slotsOn_append {first second : List Piece}
    (on : SlotsOn place (first ++ second) slots) :
    ∃ own others, slots = own ++ others ∧ own.length = foundCount first ∧
      SlotsOn place first own ∧ SlotsOn (place + (textOf first).length) second others := by
  rw [SlotsOn, locate_append, List.map_append] at on
  obtain ⟨own, others, rfl, here, later⟩ := List.map_eq_append_iff.mp on
  refine ⟨own, others, rfl, ?_, here, later⟩
  rw [← List.length_map Slot.token, here, List.length_map, length_locate]

/-- What was found lies in the stretch that it was found in. -/
theorem locate_bounds {cut : List Piece} {found : Occurrence} (proper : Proper cut)
    (member : found ∈ locate place cut) :
    place ≤ found.start ∧ found.start < found.stop ∧
      found.stop ≤ place + (textOf cut).length := by
  induction cut generalizing place with
  | nil => cases member
  | cons piece cut ih =>
    have later := proper.tail
    cases piece with
    | plain char =>
      have bounds := ih later member
      simp only [textOf_cons, Piece.text, List.length_append, List.length_singleton]
      omega
    | found text =>
      have positive : 0 < text.length := List.length_pos_iff.mpr (proper text (by simp))
      simp only [textOf_cons, Piece.text, List.length_append]
      rcases List.mem_cons.mp member with rfl | member
      · simp only [Occurrence.stop]
        omega
      · have bounds := ih later member
        omega

/-- Slots lie on the stretch that they are found in. -/
theorem slotsOn_bounds {slot : Slot} (cut : List Piece) (proper : Proper cut)
    (on : SlotsOn place cut slots) (member : slot ∈ slots) :
    place ≤ slot.token.start ∧ slot.token.start < slot.token.stop ∧
      slot.token.stop ≤ place + (textOf cut).length := by
  have listed : slot.token ∈ slots.map Slot.token := List.mem_map_of_mem member
  rw [on] at listed
  obtain ⟨found, among, same⟩ := List.mem_map.mp listed
  rw [← same]
  exact locate_bounds proper among

theorem locate_plains (place : Nat) (text : List Char) :
    locate place (text.map Piece.plain) = [] := by
  induction text generalizing place with
  | nil => rfl
  | cons char text ih => exact ih (place + 1)

theorem textOf_plains (text : List Char) : textOf (text.map Piece.plain) = text := by
  induction text with
  | nil => rfl
  | cons char text ih => exact congrArg (char :: ·) ih

/-- A group that runs from one place to another is left incomplete by the slots between
these places only. -/
theorem any_overlaps (early own others : List Slot) (group : Occurrence)
    (before : ∀ slot ∈ early, slot.token.stop ≤ group.start)
    (within : ∀ slot ∈ own, group.start ≤ slot.token.start ∧
      slot.token.start < slot.token.stop ∧ slot.token.stop ≤ group.stop)
    (behind : ∀ slot ∈ others, group.stop ≤ slot.token.start) :
    ((early ++ (own ++ others)).any fun slot =>
        slot.filling.isNone && overlaps slot.token group) =
      (own.map Slot.filling).any Option.isNone := by
  have none (slots : List Slot) (apart : ∀ slot ∈ slots, overlaps slot.token group = false) :
      (slots.any fun slot => slot.filling.isNone && overlaps slot.token group) = false := by
    rw [List.any_eq_false]
    intro slot member
    simp [apart slot member]
  have first := none early fun slot member => by
    have bound := before slot member
    have apart : ¬ group.start < slot.token.stop := by omega
    simp [overlaps, apart]
  have last := none others fun slot member => by
    have bound := behind slot member
    have apart : ¬ slot.token.start < group.stop := by omega
    simp [overlaps, apart]
  rw [List.any_append, List.any_append, first, last, Bool.false_or, Bool.or_false, List.any_map]
  rw [Bool.eq_iff_iff, List.any_eq_true, List.any_eq_true]
  apply exists_congr
  intro slot
  apply and_congr_right
  intro member
  obtain ⟨start, proper, stop⟩ := within slot member
  have both : slot.token.start < group.stop ∧ group.start < slot.token.stop := by omega
  simp [overlaps, both]

/-- The groups that are left incomplete name the edits of their blocks. -/
theorem map_filter_overlaps (place : Nat) (blocks : List Block) (early later : List Slot)
    (proper : ∀ block ∈ blocks, Proper block.pieces)
    (before : ∀ slot ∈ early, slot.token.stop ≤ place)
    (on : SlotsOn place (blocks.flatMap Block.pieces) later) :
    ((locate place (blocks.flatMap Block.outer)).filter fun group =>
        (early ++ later).any fun slot => slot.filling.isNone && overlaps slot.token group).map
      (fun group => ⟨group.start, group.text.length, []⟩) =
      blockEdits place blocks (later.map Slot.filling) := by
  induction blocks generalizing place early later with
  | nil => rfl
  | cons block blocks ih =>
    have here := proper block (by simp)
    rw [List.flatMap_cons] at on
    obtain ⟨own, others, rfl, count, mine, rest⟩ := slotsOn_append on
    have bounds (slot : Slot) (member : slot ∈ own) := slotsOn_bounds _ here mine member
    have further := ih _ (early ++ own) others
      (fun other member => proper other (List.mem_cons_of_mem _ member))
      (by
        intro slot member
        rcases List.mem_append.mp member with member | member
        · have bound := before slot member
          omega
        · exact (bounds slot member).2.2) rest
    have taken : ((own ++ others).map Slot.filling).take (foundCount block.pieces) =
        own.map Slot.filling := by simp [← count]
    have left : ((own ++ others).map Slot.filling).drop (foundCount block.pieces) =
        others.map Slot.filling := by simp [← count]
    rw [blockEdits, taken, left, ← further, List.append_assoc early own others]
    cases single : block.optional with
    | false =>
      rw [List.flatMap_cons, Block.outer, single, locate_append]
      simp [locate_plains, textOf_plains]
    | true =>
      have around : ((early ++ (own ++ others)).any fun slot =>
          slot.filling.isNone && overlaps slot.token ⟨place, textOf block.pieces⟩) =
          (own.map Slot.filling).any Option.isNone := by
        apply any_overlaps early own others ⟨place, textOf block.pieces⟩ before bounds
        intro slot member
        have all := proper_flatMap blocks fun other inside =>
          proper other (List.mem_cons_of_mem _ inside)
        exact (slotsOn_bounds _ all rest member).1
      have width : textOf [.found (textOf block.pieces)] = textOf block.pieces := by
        simp [textOf, Piece.text]
      have cut : locate place [.found (textOf block.pieces)] = [⟨place, textOf block.pieces⟩] := rfl
      rw [List.flatMap_cons, Block.outer, single, if_pos rfl, locate_append, width, cut,
        List.singleton_append, List.filter_cons, around]
      cases (own.map Slot.filling).any Option.isNone <;> rfl

end Slots

theorem proper_pieces (finder : Finder) (text : List Char) : Proper (pieces finder text) := by
  suffices all : ∀ skip, Proper (piecesAfter finder skip text) from all 0
  induction text with
  | nil =>
    intro skip found member
    cases skip <;> cases member
  | cons char text ih =>
    intro skip
    cases skip with
    | succ skip => exact ih skip
    | zero =>
      intro found member
      rw [piecesAfter] at member
      split at member
      · rcases List.mem_cons.mp member with same | member
        · cases same
        · exact ih 0 found member
      · rename_i more _
        rcases List.mem_cons.mp member with same | member
        · cases same
          simp
        · exact ih more found member

theorem blocks_proper (pattern : List Char) :
    ∀ block ∈ blocks pattern, Proper block.pieces ∧ textOf block.pieces ≠ [] := by
  induction pattern using blocks_induction with
  | nil => simp [blocks, pieces, piecesAfter]
  | group inner rest inside ih =>
    rw [blocks_group inside]
    intro block member
    rcases List.mem_cons.mp member with rfl | member
    · refine ⟨proper_pieces _ _, ?_⟩
      rw [textOf, flatMap_text_pieces]
      exact List.cons_ne_nil _ _
    · exact ih block member
  | token sigil name rest known present word ended outside ih =>
    rw [blocks_token known present word ended outside]
    intro block member
    rcases List.mem_cons.mp member with rfl | member
    · refine ⟨?_, by simp [textOf, Piece.text, present]⟩
      intro text inside
      rw [List.mem_singleton] at inside
      cases inside
      exact List.append_ne_nil_of_right_ne_nil sigil present
    · exact ih block member
  | plain char rest outside none ih =>
    rw [blocks_plain outside none]
    intro block member
    rcases List.mem_cons.mp member with rfl | member
    · exact ⟨fun text inside => by simp at inside, by simp [textOf, Piece.text]⟩
    · exact ih block member

section Results
variable {pattern : List Char} {slots : List Slot}

/-- A pattern of which no group is removed is woven with the fillings of its slots. -/
theorem render_tokens (on : slots.map Slot.token = tokens pattern) :
    render pattern slots [] = weave (pieces tokenLength pattern) (slots.map Slot.filling) := by
  have whole : textOf (pieces tokenLength pattern) = pattern := flatMap_text_pieces _ _
  have edits := filterMap_edit? 0 (pieces tokenLength pattern) on
  have woven := applyEdits_pieces 0 (slots.map Slot.filling) []
    (proper_pieces tokenLength pattern) fun behind _ _ => congrArg (editAt · behind) edits
  rw [whole, List.append_nil] at woven
  rw [render, List.map_nil, List.nil_append, woven]
  simp [applyEdits]

/-- A pattern that loses its incomplete groups is woven block by block. -/
theorem render_blocks (on : slots.map Slot.token = tokens pattern) :
    render pattern slots (droppedGroups pattern slots) =
      weaveBlocks (blocks pattern) (slots.map Slot.filling) := by
  have cut := pieces_blocks pattern
  have whole : textOf (pieces tokenLength pattern) = pattern := flatMap_text_pieces _ _
  have edits := filterMap_edit? 0 (pieces tokenLength pattern) on
  have lost := map_filter_overlaps 0 (blocks pattern) [] slots
    (fun block member => (blocks_proper pattern block member).1) (by simp) (cut ▸ on)
  have woven := applyEdits_blocks 0 (blocks pattern) (slots.map Slot.filling)
    (blocks_proper pattern) fun behind _ => rfl
  rw [← cut] at woven
  rw [whole, ← lost, ← edits, ← pieces_groupLength] at woven
  exact woven

private theorem map_token_place (kind : Kind) (text : List Char) (slots : List Slot) :
    (place kind text slots).map Slot.token = slots.map Slot.token := by
  induction slots with
  | nil => rfl
  | cons slot slots ih =>
    rw [place]
    split
    · rfl
    · rw [List.map_cons, ih, List.map_cons]

/-- Giving out texts does not change where the slots are. -/
theorem map_token_fillSlots (pattern : List Char) (texts : List (List Char)) :
    (fillSlots pattern texts).map Slot.token = tokens pattern := by
  have kept (slots : List Slot) : (texts.foldl
      (fun slots text => place (nextKind pattern slots) text slots) slots).map Slot.token =
      slots.map Slot.token := by
    induction texts generalizing slots with
    | nil => rfl
    | cons text texts ih => rw [List.foldl_cons, ih, map_token_place]
  rw [fillSlots, kept, emptySlots, List.map_map]
  exact List.map_id _

/-- A filled pattern is the pattern woven block by block. -/
theorem fill_eq_weaveBlocks (pattern : List Char) (texts : List (List Char)) :
    fill pattern texts =
      weaveBlocks (blocks pattern) ((fillSlots pattern texts).map Slot.filling) :=
  render_blocks (map_token_fillSlots pattern texts)

end Results

end RoutePattern.Pattern
