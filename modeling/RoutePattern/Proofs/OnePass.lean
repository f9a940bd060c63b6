import RoutePattern.Proofs.ClosedForm
import RoutePattern.Proofs.Runs
import RoutePattern.Proofs.Translation

/-! The expression of a pattern in one pass. The four steps that write it go over the whole text
each, and each of them reads what the one before has put in; a single look at each place of the
pattern gives the same. What is written for a place depends on the slot that it belongs to, or
else on the group that begins or ends there, or else on its character alone. -/
namespace RoutePattern.Pattern
open Text

/-- What a single pass writes for a character at its place. A slot gives its capture where it
begins and nothing at its other places, the parentheses of a group become those of an optional
group, and every other character is escaped if it is special. -/
def emitted (slots : List Token) (groups : List Occurrence) (char : Char) (place : Nat) :
    List Char :=
  match slots.find? (·.covers place) with
  | some run => if run.start = place then run.kind.capture else []
  | none =>
    if groups.any (·.start == place) then "(?:".toList
    else if groups.any (·.stop == place + 1) then ")?".toList
    else escape [char]

/-- What a single pass writes for the characters from `place` on. -/
def emit (slots : List Token) (groups : List Occurrence) (place : Nat) (text : List Char) :
    List Char :=
  (text.zipIdx place).flatMap fun entry => emitted slots groups entry.1 entry.2

/-- A pattern as a single pass over it translates it. -/
def onePass (pattern : List Char) : List Char := emit (slots pattern) (groups pattern) 0 pattern

section Emission
variable {slots others : List Token} {groups : List Occurrence} {run : Token} {group : Occurrence}
  {place : Nat} {char : Char} {text : List Char}

private theorem emit_append (slots : List Token) (groups : List Occurrence) (place : Nat)
    (first second : List Char) :
    emit slots groups place (first ++ second) =
      emit slots groups place first ++ emit slots groups (place + first.length) second := by
  rw [emit, List.zipIdx_append, List.flatMap_append]
  rfl

private theorem emit_cons (slots : List Token) (groups : List Occurrence) (place : Nat)
    (char : Char)
    (text : List Char) :
    emit slots groups place (char :: text) =
      emitted slots groups char place ++ emit slots groups (place + 1) text := by
  rw [emit, List.zipIdx_cons, List.flatMap_cons]
  rfl

/-- A pass depends on nothing but the slots and groups of the places that it goes over. -/
theorem emit_congr {groups' : List Occurrence}
    (same : ∀ here, place ≤ here → here < place + text.length → ∀ char,
      emitted slots groups char here = emitted others groups' char here) :
    emit slots groups place text = emit others groups' place text := by
  induction text generalizing place with
  | nil => rfl
  | cons char text ih =>
    rw [List.length_cons] at same
    rw [emit_cons, emit_cons, same place (Nat.le_refl place) (by omega) char]
    exact congrArg _ (ih fun here after before => same here (by omega) (by omega))

private theorem find?_of_apart (apart : ∀ run ∈ slots, run.stop ≤ place ∨ place < run.start) :
    slots.find? (·.covers place) = none := by
  rw [List.find?_eq_none]
  intro run member covered
  have bounds := Token.covers_iff.mp covered
  have outside := apart run member
  omega

/-- Slots apart from a place make no difference for it, in front of others or behind them. -/
theorem emitted_append_front (apart : ∀ run ∈ slots, run.stop ≤ place ∨ place < run.start) :
    emitted (slots ++ others) groups char place = emitted others groups char place := by
  rw [emitted, emitted, List.find?_append, find?_of_apart apart, Option.none_or]

private theorem emitted_append_behind
    (apart : ∀ run ∈ others, run.stop ≤ place ∨ place < run.start) :
    emitted (slots ++ others) groups char place = emitted slots groups char place := by
  rw [emitted, emitted, List.find?_append, find?_of_apart apart, Option.or_none]

private theorem emitted_cons_group (start : group.start ≠ place) (stop : group.stop ≠ place + 1) :
    emitted slots (group :: groups) char place = emitted slots groups char place := by
  simp [emitted, start, stop]

/-- Groups that neither begin nor end at a place make no difference for it. -/
theorem emitted_of_groups_apart
    (apart : ∀ group ∈ groups, group.start ≠ place ∧ group.stop ≠ place + 1) :
    emitted slots groups char place = emitted slots [] char place := by
  induction groups with
  | nil => rfl
  | cons group groups ih =>
    obtain ⟨start, stop⟩ := apart group List.mem_cons_self
    rw [emitted_cons_group start stop]
    exact ih fun other member => apart other (List.mem_cons_of_mem _ member)

/-- Where no slot is and no group begins or ends, a character is escaped. -/
theorem emitted_of_apart (slotsApart : ∀ run ∈ slots, run.stop ≤ place ∨ place < run.start)
    (groupsApart : ∀ group ∈ groups, group.start ≠ place ∧ group.stop ≠ place + 1) :
    emitted slots groups char place = escape [char] := by
  rw [emitted_of_groups_apart groupsApart, emitted, find?_of_apart slotsApart]
  rfl

private theorem emitted_of_start (apart : ∀ run ∈ slots, run.stop ≤ place ∨ place < run.start)
    (start : group.start = place) :
    emitted slots (group :: groups) char place = "(?:".toList := by
  rw [emitted, find?_of_apart apart]
  simp [start]

private theorem emitted_of_stop (apart : ∀ run ∈ slots, run.stop ≤ place ∨ place < run.start)
    (starts : ∀ other ∈ group :: groups, other.start ≠ place) (stop : group.stop = place + 1) :
    emitted slots (group :: groups) char place = ")?".toList := by
  have none : (group :: groups).any (·.start == place) = false := by
    rw [List.any_eq_false]
    intro other member
    simp [starts other member]
  rw [emitted, find?_of_apart apart, none, if_neg Bool.false_ne_true]
  simp [stop]

end Emission

/-- The slots of a text of which the first character stands at `place`. -/
def slotsFrom (place : Nat) (text : List Char) : List Token :=
  (locate place (pieces slotLength text)).map Token.ofOccurrence

/-- The groups of a text of which the first character stands at `place`. -/
def groupsFrom (place : Nat) (text : List Char) : List Occurrence :=
  locate place (pieces groupLength text)

section Stretches
variable {run : Token} {group : Occurrence} {place : Nat} {char : Char}
  {text inner name rest : List Char}

private theorem slotsFrom_bounds (member : run ∈ slotsFrom place text) :
    place ≤ run.start ∧ run.start < run.stop ∧ run.stop ≤ place + text.length := by
  obtain ⟨found, listed, rfl⟩ := List.mem_map.mp member
  have bounds := locate_bounds (proper_pieces slotLength text) listed
  rwa [textOf, flatMap_text_pieces] at bounds

private theorem groupsFrom_bounds (member : group ∈ groupsFrom place text) :
    place ≤ group.start ∧ group.start < group.stop ∧ group.stop ≤ place + text.length := by
  have bounds := locate_bounds (proper_pieces groupLength text) member
  rwa [textOf, flatMap_text_pieces] at bounds

private theorem slotsFrom_literal (none : slotLength (char :: rest) = 0) :
    slotsFrom place (char :: rest) = slotsFrom (place + 1) rest := by
  rw [slotsFrom, pieces_cons_plain none]
  rfl

private theorem groupsFrom_literal (outside : groupLength (char :: rest) = 0) :
    groupsFrom place (char :: rest) = groupsFrom (place + 1) rest := by
  rw [groupsFrom, pieces_cons_plain outside]
  rfl

private theorem slotsFrom_slot (kind : Kind) (present : name ≠ [])
    (word : ∀ char ∈ name, isWord char = true) (ended : Text.word rest = []) :
    slotsFrom place (kind.sigil :: (name ++ rest)) =
      ⟨kind, place, kind.sigil :: name⟩ :: slotsFrom (place + (name.length + 1)) rest := by
  have cut : pieces slotLength (kind.sigil :: (name ++ rest)) =
      .found (kind.sigil :: name) :: pieces slotLength rest :=
    pieces_found (List.cons_ne_nil _ _) (slotLength_slot kind present word ended)
  rw [slotsFrom, cut]
  cases kind <;> rfl

private theorem groupsFrom_slot (kind : Kind) (word : ∀ char ∈ name, isWord char = true) :
    groupsFrom place (kind.sigil :: (name ++ rest)) =
      groupsFrom (place + (name.length + 1)) rest := by
  have outside := slot_ne_parenthesis kind word
  have cut : pieces groupLength ((kind.sigil :: name) ++ rest) = _ :=
    pieces_append_of_plain fun char member _ => groupLength_of_ne (outside char member).1
  rw [groupsFrom, ← List.cons_append, cut, locate_append, locate_plains, textOf_plains]
  rfl

/-- A text that is not continued by a name is cut by itself. -/
theorem pieces_append_of_ended (text : List Char) (ended : word rest = []) :
    pieces slotLength (text ++ rest) = pieces slotLength text ++ pieces slotLength rest := by
  have alone : pieces slotLength (text ++ []) = (parts text).map Part.piece ++ [] :=
    pieces_append_parts text rfl
  rw [List.append_nil, List.append_nil] at alone
  rw [alone, pieces_append_parts text ended]

/-- A group is cut into its two parentheses and the slots and characters of its body. -/
theorem pieces_slotLength_group (inner rest : List Char) :
    pieces slotLength ('(' :: (inner ++ ')' :: rest)) =
      .plain '(' :: (pieces slotLength inner ++ .plain ')' :: pieces slotLength rest) := by
  have opening : slotLength ('(' :: (inner ++ ')' :: rest)) = 0 :=
    slotLength_of_ne (by decide) (by decide)
  have closing : slotLength (')' :: rest) = 0 := slotLength_of_ne (by decide) (by decide)
  rw [pieces_cons_plain opening, pieces_append_of_ended inner (word_cons_of_not (by decide)),
    pieces_cons_plain closing]

private theorem slotsFrom_group (inner rest : List Char) :
    slotsFrom place ('(' :: (inner ++ ')' :: rest)) =
      slotsFrom (place + 1) inner ++ slotsFrom (place + (inner.length + 2)) rest := by
  have whole : textOf (pieces slotLength inner) = inner := flatMap_text_pieces _ _
  rw [slotsFrom, pieces_slotLength_group, locate, locate_append, whole, locate, List.map_append,
    Nat.add_right_comm place 1, Nat.add_assoc]
  rfl

private theorem groupsFrom_group (inside : ∀ char ∈ inner, inBody char = true) :
    groupsFrom place ('(' :: (inner ++ ')' :: rest)) =
      ⟨place, '(' :: (inner ++ [')'])⟩ :: groupsFrom (place + (inner.length + 2)) rest := by
  rw [groupsFrom, pieces_group inside, locate]
  simp [groupsFrom]

end Stretches

section Pass
variable {slots behind : List Token} {groups : List Occurrence} {run : Token} {place : Nat}
  {char : Char} {text inner name rest : List Char}

private theorem emitted_of_covers (covered : run.covers place = true) :
    emitted (run :: behind) groups char place =
      if run.start = place then run.kind.capture else [] := by
  have found : (run :: behind).find? (·.covers place) = some run := by simp [covered]
  rw [emitted, found]

/-- Behind the place where a slot begins nothing is written before its end. -/
theorem emit_within (text : List Char) (after : run.start < place)
    (before : place + text.length ≤ run.stop) :
    emit (run :: behind) groups place text = [] := by
  induction text generalizing place with
  | nil => rfl
  | cons char text ih =>
    rw [List.length_cons] at before
    have covered : run.covers place = true := Token.covers_iff.mpr ⟨by omega, by omega⟩
    rw [emit_cons, ih (by omega) (by omega), emitted_of_covers covered,
      if_neg (Nat.ne_of_lt after)]
    rfl

/-- A slot gives its capture once. -/
theorem emit_slot (kind : Kind) (name rest : List Char) :
    emit (⟨kind, place, kind.sigil :: name⟩ :: behind) groups place (kind.sigil :: (name ++ rest)) =
      kind.capture ++ emit behind groups (place + (name.length + 1)) rest := by
  let run : Token := ⟨kind, place, kind.sigil :: name⟩
  have stop : run.stop = place + (name.length + 1) := rfl
  have covered : run.covers place = true :=
    Token.covers_iff.mpr ⟨Nat.le_refl place, by omega⟩
  have passed : emit (run :: behind) groups (place + 1 + name.length) rest =
      emit behind groups (place + 1 + name.length) rest := by
    refine emit_congr fun here after _ char => ?_
    have uncovered : run.covers here = false := by
      rw [Bool.eq_false_iff]
      intro shared
      have bounds := Token.covers_iff.mp shared
      omega
    rw [emitted, emitted, List.find?_cons, uncovered]
  have head : emitted (run :: behind) groups kind.sigil place = kind.capture :=
    (emitted_of_covers covered).trans (if_pos rfl)
  have own : place + 1 + name.length ≤ run.stop := by omega
  rw [emit_cons, head, emit_append, emit_within name (Nat.lt_succ_self place) own, passed,
    Nat.add_assoc, Nat.add_comm 1]
  rfl

/-- Where everything lies further on, the first character is escaped. -/
theorem emit_literal (slotsBehind : ∀ run ∈ slots, place < run.start)
    (groupsBehind : ∀ group ∈ groups, place < group.start ∧ group.start < group.stop) :
    emit slots groups place (char :: rest) =
      escape [char] ++ emit slots groups (place + 1) rest := by
  rw [emit_cons, emitted_of_apart (fun run member => .inr (slotsBehind run member))
    fun group member => ?_]
  have bounds := groupsBehind group member
  omega

/-- A group gives its two parentheses and what is written for its body by itself. -/
theorem emit_group {within : List Token} {later : List Occurrence} {last : Nat}
    (width : last = place + 1 + inner.length)
    (inside : ∀ run ∈ within, place < run.start ∧ run.stop ≤ last)
    (outside : ∀ run ∈ behind, last < run.start)
    (further : ∀ group ∈ later, last < group.start ∧ group.start < group.stop) :
    emit (within ++ behind) (⟨place, '(' :: (inner ++ [')'])⟩ :: later) place
        ('(' :: (inner ++ ')' :: rest)) =
      "(?:".toList ++ emit within [] (place + 1) inner ++ ")?".toList ++
        emit behind later (last + 1) rest := by
  let group : Occurrence := ⟨place, '(' :: (inner ++ [')'])⟩
  have stop : group.stop = last + 1 := by
    rw [Occurrence.stop, List.length_cons, List.length_append, List.length_singleton, width]
    show place + _ = _
    omega
  have opening : emitted (within ++ behind) (group :: later) '(' place = "(?:".toList := by
    refine emitted_of_start (fun run member => ?_) rfl
    rcases List.mem_append.mp member with member | member
    · exact .inr (inside run member).1
    · have bounds := outside run member
      omega
  have closing : emitted (within ++ behind) (group :: later) ')' last = ")?".toList := by
    refine emitted_of_stop (fun run member => ?_) (fun other member => ?_) stop
    · rcases List.mem_append.mp member with member | member
      · exact .inl (inside run member).2
      · exact .inr (outside run member)
    · rcases List.mem_cons.mp member with rfl | member
      · show place ≠ last
        omega
      · exact Nat.ne_of_gt (further other member).1
  have body : emit (within ++ behind) (group :: later) (place + 1) inner =
      emit within [] (place + 1) inner := by
    refine emit_congr fun here after before char => ?_
    rw [emitted_append_behind fun run member => ?_, emitted_of_groups_apart fun other member => ?_]
    · rcases List.mem_cons.mp member with rfl | member
      · show place ≠ here ∧ group.stop ≠ here + 1
        omega
      · have bounds := further other member
        omega
    · have bounds := outside run member
      omega
  have remainder : emit (within ++ behind) (group :: later) (last + 1) rest =
      emit behind later (last + 1) rest := by
    refine emit_congr fun here after _ char => ?_
    rw [emitted_append_front fun run member => ?_, emitted_cons_group]
    · show place ≠ here
      omega
    · omega
    · have bounds := inside run member
      omega
  rw [emit_cons, emit_append, emit_cons, ← width, opening, closing, body, remainder]
  simp only [List.append_assoc]

/-- A text without groups is translated part by part. -/
theorem emit_parts (place : Nat) (text : List Char) :
    emit (slotsFrom place text) [] place text = (parts text).flatMap Part.source := by
  induction text using parts_induction generalizing place with
  | nil => rfl
  | slot kind name rest present word ended ih =>
    rw [slotsFrom_slot kind present word ended, emit_slot, ih, parts_slot kind present word ended]
    rfl
  | literal char rest none ih =>
    rw [slotsFrom_literal none, emit_literal (fun run member => (slotsFrom_bounds member).1)
      (by simp), ih, parts_literal none]
    rfl

/-- A single pass translates a pattern segment by segment. -/
theorem emit_outline (place : Nat) (pattern : List Char) :
    emit (slotsFrom place pattern) (groupsFrom place pattern) place pattern =
      (outline pattern).flatMap Segment.source := by
  induction pattern using outline_induction generalizing place with
  | nil => rfl
  | group inner rest inside ih =>
    have next : place + (inner.length + 2) = place + 1 + inner.length + 1 := by omega
    rw [slotsFrom_group, groupsFrom_group inside, next, emit_group rfl, emit_parts, ih,
      outline_group inside]
    · rfl
    · intro run member
      have bounds := slotsFrom_bounds member
      omega
    · exact fun run member => (slotsFrom_bounds member).1
    · intro group member
      have bounds := groupsFrom_bounds member
      omega
  | slot kind name rest present word ended ih =>
    rw [slotsFrom_slot kind present word ended, groupsFrom_slot kind word, emit_slot, ih,
      outline_slot kind present word ended]
    rfl
  | literal char rest outside none ih =>
    rw [slotsFrom_literal none, groupsFrom_literal outside,
      emit_literal (fun run member => (slotsFrom_bounds member).1) ?_, ih,
      outline_literal outside none]
    · rfl
    · intro group member
      have bounds := groupsFrom_bounds member
      omega

end Pass

/-- The texts of what is found in a text, in order. -/
def findings (finder : Finder) (text : List Char) : List (List Char) :=
  (occurrences finder text).map Occurrence.text

section Findings
variable {finder : Finder} {found text rest : List Char} {char : Char}

private theorem findings_eq (finder : Finder) (text : List Char) :
    findings finder text = (pieces finder text).filterMap found? :=
  map_text_locate 0 _

theorem findings_cons_plain (none : finder (char :: rest) = 0) :
    findings finder (char :: rest) = findings finder rest := by
  rw [findings_eq, pieces_cons_plain none, findings_eq]
  rfl

private theorem findings_found (present : found ≠ [])
    (exact : finder (found ++ rest) = found.length) :
    findings finder (found ++ rest) = found :: findings finder rest := by
  rw [findings_eq, pieces_found present exact, findings_eq]
  rfl

private theorem findings_of_pieces
    (cut : pieces finder (text ++ rest) = text.map Piece.plain ++ pieces finder rest) :
    findings finder (text ++ rest) = findings finder rest := by
  have nothing : (text.map Piece.plain).filterMap found? = [] := by
    rw [List.filterMap_eq_nil_iff]
    simp [found?]
  rw [findings_eq, cut, List.filterMap_append, nothing, findings_eq]
  rfl

private theorem findings_append_of_plain
    (none : ∀ char ∈ text, ∀ behind, finder (char :: behind) = 0) :
    findings finder (text ++ rest) = findings finder rest :=
  findings_of_pieces (pieces_append_of_plain none)

end Findings

/-- What the step for a kind takes for parameters in a text in which the groups have become
optional ones. The splat parameters are looked for when the named ones are captures already. -/
def taken : Kind → List Char → List (List Char)
  | .named, text => (findings namedLength text).filter fun token => !isMarked token
  | .splat, text => findings splatLength (captureNamed text)

/-- The slots of one kind as they are written in a pattern. -/
def slotTexts (kind : Kind) (pattern : List Char) : List (List Char) :=
  (findings slotLength pattern).filter fun text => text.head? == some kind.sigil

section Taken
variable {char : Char} {text inner name rest : List Char}

private theorem slotTexts_eq (kind : Kind) (pattern : List Char) :
    slotTexts kind pattern = ((slots pattern).filter (·.kind == kind)).map Token.text := by
  have told : ∀ found ∈ occurrences slotLength pattern,
      (found.text.head? == some kind.sigil) = ((Token.ofOccurrence found).kind == kind) := by
    intro found listed
    obtain ⟨name, text, _⟩ := (isRun_of_mem_slots (List.mem_map_of_mem listed)).written
    rw [show found.text = _ from text, List.head?_cons]
    cases (Token.ofOccurrence found).kind <;> cases kind <;> rfl
  rw [slotTexts, findings, slots, List.filter_map, List.filter_map, List.map_map]
  exact congrArg _ (List.filter_congr told)

private theorem slotTexts_literal (kind : Kind) (none : slotLength (char :: rest) = 0) :
    slotTexts kind (char :: rest) = slotTexts kind rest := by
  rw [slotTexts, findings_cons_plain none, slotTexts]

private theorem slotTexts_group (kind : Kind) (inner rest : List Char) :
    slotTexts kind ('(' :: (inner ++ ')' :: rest)) =
      slotTexts kind inner ++ slotTexts kind rest := by
  rw [slotTexts, findings_eq, pieces_slotLength_group, List.filterMap_cons_none rfl,
    List.filterMap_append, List.filterMap_cons_none rfl, List.filter_append, slotTexts, slotTexts,
    findings_eq, findings_eq]

private theorem slotTexts_slot (kind other : Kind) (present : name ≠ [])
    (word : ∀ char ∈ name, isWord char = true) (ended : Text.word rest = []) :
    slotTexts kind (other.sigil :: (name ++ rest)) =
      (if other = kind then [other.sigil :: name] else []) ++ slotTexts kind rest := by
  have cut : findings slotLength (other.sigil :: (name ++ rest)) =
      (other.sigil :: name) :: findings slotLength rest :=
    findings_found (List.cons_ne_nil _ _) (slotLength_slot other present word ended)
  rw [slotTexts, cut, slotTexts]
  cases kind <;> cases other <;> rfl

/-- Where neither a colon, an asterisk nor a parenthesis is, nothing is taken. -/
theorem taken_append (kind : Kind)
    (plain : ∀ char ∈ text, char ≠ ':' ∧ char ≠ '(' ∧ char ≠ '*') :
    taken kind (text ++ rest) = taken kind rest := by
  cases kind with
  | named =>
    rw [taken, taken, findings_append_of_plain fun char member _ =>
      namedLength_of_ne (plain char member).1 (plain char member).2.1]
  | splat =>
    rw [taken, taken, captureNamed_append rest fun char member =>
      ⟨(plain char member).1, (plain char member).2.1⟩,
      findings_append_of_plain fun char member _ => splatLength_of_ne (plain char member).2.2]

/-- A parameter is taken in the step for its kind, and passed over in the other one. -/
theorem taken_slot (kind other : Kind) (present : name ≠ [])
    (word : ∀ char ∈ name, isWord char = true) (ended : Text.word rest = []) :
    taken kind (other.sigil :: (name ++ rest)) =
      (if other = kind then [other.sigil :: name] else []) ++ taken kind rest := by
  have passed := splat_plain word
  cases kind <;> cases other
  case named.named =>
    have exact : namedLength ((':' :: name) ++ rest) = (':' :: name).length := by
      simp [namedLength, lengthWithName_append 1 present word ended, Nat.add_comm]
    have cut := findings_found (List.cons_ne_nil _ _) exact
    rw [List.cons_append] at cut
    rw [Kind.sigil, taken, cut, taken]
    rfl
  case named.splat =>
    have cut : findings namedLength (('*' :: name) ++ rest) = findings namedLength rest :=
      findings_append_of_plain fun char member _ =>
        namedLength_of_ne (passed char member).1 (passed char member).2
    rw [List.cons_append] at cut
    rw [Kind.sigil, taken, cut, taken]
    rfl
  case splat.named =>
    have none : '*' ∉ namedCapture := by decide
    rw [Kind.sigil, taken, captureNamed_slot present word ended, findings_append_of_plain
      fun char member _ => splatLength_of_ne fun same => none (same ▸ member), taken]
    rfl
  case splat.splat =>
    have kept := captureNamed_append rest passed
    have exact : splatLength (('*' :: name) ++ captureNamed rest) = ('*' :: name).length := by
      simp [splatLength, lengthWithName_append 1 present word (word_captureNamed ended),
        Nat.add_comm]
    have cut := findings_found (List.cons_ne_nil _ _) exact
    rw [List.cons_append] at kept
    rw [Kind.sigil, taken, kept, cut, taken]
    rfl

/-- The opening of a group, also with a word right behind it, is not taken for a parameter. -/
theorem taken_opening (kind : Kind) (rest : List Char) :
    taken kind ("(?:".toList ++ rest) = taken kind rest := by
  cases kind with
  | named =>
    by_cases ended : word rest = []
    · rw [taken, taken, findings_of_pieces (pieces_opening ended)]
    · have accepted : ∀ char ∈ word rest, isWord char = true :=
        fun char member => isWord_of_mem_word member
      have split : word rest ++ rest.dropWhile isWord = rest := List.takeWhile_append_dropWhile
      have behind := word_dropWhile rest
      have kept : taken .named (word rest ++ rest.dropWhile isWord) =
          taken .named (rest.dropWhile isWord) :=
        taken_append .named fun char member => isWord_plain (accepted char member)
      rw [← split, kept, taken, findings_eq, pieces_opening_word ended accepted behind, taken,
        findings_eq]
      rfl
  | splat =>
    have none : ∀ char ∈ "(?:".toList, char ≠ '*' := by simp
    rw [taken, captureNamed_opening, findings_append_of_plain fun char member _ =>
      splatLength_of_ne (none char member), taken]

/-- An escaped character is not taken for a parameter, if no slot begins there. -/
theorem taken_literal (kind : Kind) (ended : ∀ kind, char = Kind.sigil kind → word rest = [])
    (mark : rest.head? ≠ some '?') : taken kind (escape [char] ++ rest) = taken kind rest := by
  cases kind with
  | named => rw [taken, taken, findings_of_pieces (pieces_literal_named (ended .named) mark)]
  | splat =>
    have behind (star : char = '*') := word_captureNamed (ended .splat star)
    rw [taken, captureNamed_literal (ended .named) mark,
      findings_of_pieces (pieces_literal_splat behind), taken]

/-- From a text without groups exactly its slots are taken, whatever stands behind it. -/
theorem taken_parts (kind : Kind) (text rest : List Char) (ended : word rest = [])
    (mark : rest.head? ≠ some '?') :
    taken kind (escape text ++ rest) = slotTexts kind text ++ taken kind rest := by
  have word_behind {behind : List Char} (none : word behind = []) :
      word (escape behind ++ rest) = [] :=
    word_append_of_ended ended (word_escape none)
  induction text using parts_induction with
  | nil => rfl
  | slot other name behind present word none ih =>
    rw [escape_slot other word, List.cons_append, List.append_assoc,
      taken_slot kind other present word (word_behind none), ih,
      slotTexts_slot kind other present word none, List.append_assoc]
  | literal char behind none ih =>
    have ended (kind : Kind) (sigil : char = kind.sigil) : word (escape behind ++ rest) = [] :=
      word_behind (word_eq_nil_of_slotLength none kind sigil)
    rw [escape_cons, List.append_assoc, taken_literal kind ended (head?_escape_append behind mark),
      ih, slotTexts_literal kind none]

/-- From a pattern with opened groups exactly its slots are taken, one step for each kind. -/
theorem taken_openGroups (kind : Kind) (pattern : List Char) :
    taken kind (openGroups (escape pattern)) = slotTexts kind pattern := by
  induction pattern using outline_induction with
  | nil => cases kind <;> rfl
  | group inner rest inside ih =>
    have ended : word (")?".toList ++ openGroups (escape rest)) = [] := word_cons_of_not (by decide)
    rw [openGroups_escape_group inside, taken_opening, taken_parts kind inner _ ended (by simp),
      taken_append kind (by simp), ih, slotTexts_group]
  | slot other name rest present word ended ih =>
    rw [openGroups_slot other word,
      taken_slot kind other present word (word_openGroups (word_escape ended)), ih,
      slotTexts_slot kind other present word ended]
  | literal char rest outside none ih =>
    have ended (kind : Kind) (sigil : char = kind.sigil) :
        word (openGroups (escape rest)) = [] :=
      word_openGroups (word_escape (word_eq_nil_of_slotLength none kind sigil))
    rw [openGroups_literal outside,
      taken_literal kind ended (head?_openGroups (head?_escape rest)), ih,
      slotTexts_literal kind none]

theorem findings_group (inside : ∀ char ∈ inner, inBody char = true) :
    findings groupLength ('(' :: (inner ++ ')' :: rest)) =
      ('(' :: (inner ++ [')'])) :: findings groupLength rest := by
  rw [findings_eq, pieces_group inside, findings_eq]
  rfl

theorem findings_groupLength_slot (kind : Kind) (word : ∀ char ∈ name, isWord char = true) :
    findings groupLength (kind.sigil :: (name ++ rest)) = findings groupLength rest := by
  have outside := slot_ne_parenthesis kind word
  rw [← List.cons_append]
  exact findings_append_of_plain fun char member _ => groupLength_of_ne (outside char member).1

/-- The groups found in an escaped pattern are those of the pattern, each of them escaped. -/
theorem findings_groupLength_escape (pattern : List Char) :
    findings groupLength (escape pattern) = (findings groupLength pattern).map escape := by
  induction pattern using outline_induction with
  | nil => rfl
  | group inner rest inside ih =>
    rw [escape_group, findings_group (escape_body inside), ih, findings_group inside,
      List.map_cons, escape_group]
    rfl
  | slot kind name rest present word ended ih =>
    rw [escape_slot kind word, findings_groupLength_slot kind word, ih,
      findings_groupLength_slot kind word]
  | literal char rest outside none ih =>
    rw [escape_cons, findings_of_pieces (pieces_literal_group outside), ih,
      findings_cons_plain outside]

end Taken

/-- The expression of a pattern is what a single pass over the pattern writes, where the slots are
the longest runs of a sigil and a name. So the groups that are made optional are those of the
pattern, escaped, and the parameters that become captures are its slots; nothing that an earlier
step has put in is taken for either, and none is lost. -/
theorem source_eq_one_pass (pattern : List Char) :
    source pattern = '^' :: onePass pattern ++ queryCapture ++ "\\Z".toList ∧
    (∀ run, run ∈ slots pattern ↔ IsRun pattern run) ∧
    findings groupLength (escape pattern) =
      (groups pattern).map (fun group => escape group.text) ∧
    (findings namedLength (openGroups (escape pattern))).filter (fun token => !isMarked token) =
      ((slots pattern).filter (·.kind == .named)).map Token.text ∧
    findings splatLength (captureNamed (openGroups (escape pattern))) =
      ((slots pattern).filter (·.kind == .splat)).map Token.text := by
  refine ⟨?_, fun _ => mem_slots_iff, ?_, ?_, ?_⟩
  · rw [source_eq_outline, ← emit_outline 0]
    rfl
  · rw [findings_groupLength_escape, findings, List.map_map]
    rfl
  · exact (taken_openGroups .named pattern).trans (slotTexts_eq .named pattern)
  · exact (taken_openGroups .splat pattern).trans (slotTexts_eq .splat pattern)

example : onePass "(edit)(:id)*r?".toList =
    "(?:edit)?(?:([^/?]+))?([^?]*?)\\?".toList := by decide

end RoutePattern.Pattern
