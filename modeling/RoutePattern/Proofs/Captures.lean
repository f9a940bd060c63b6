import RoutePattern.Proofs.OnePass
import RoutePattern.Proofs.Tame

/-! The captures of a compiled pattern. Reading an expression numbers the groups that capture in
the order in which they begin, whatever is nested in what. In the expression of a pattern a group
that captures begins at each slot, at each opening parenthesis that opens no group of the pattern,
and at the query, which is the last of them. Where every parenthesis opens a group, the captures
are thus the parameters in reading order with the query behind them. -/
namespace RoutePattern

/-- The groups of an expression that capture, with their numbers, in the order in which they
begin. -/
def Expr.capturing : Expr → List (Nat × Expr)
  | .empty => []
  | .one _ => []
  | .start => []
  | .finish => []
  | .cat first second => first.capturing ++ second.capturing
  | .group none body => body.capturing
  | .group (some number) body => (number, body) :: body.capturing
  | .iterate _ body => body.capturing

namespace Expr

/-- The groups that capture among items, of which the last one stands first. -/
def capturingItems (items : List Expr) : List (Nat × Expr) := items.reverse.flatMap capturing

/-- The numbers of what has begun in front of an open group, and its own. -/
def Frame.numbers (frame : Frame) : List Nat :=
  (capturingItems frame.before).map Prod.fst ++ frame.capture.toList

namespace Reading

/-- The numbers of the captures that have begun, from the outermost open group inwards. -/
def numbers (reading : Reading) : List Nat :=
  reading.frames.reverse.flatMap Frame.numbers ++ (capturingItems reading.items).map Prod.fst

/-- The groups that capture and have been closed. -/
def closed (reading : Reading) : List (Nat × Expr) :=
  (reading.frames.flatMap fun frame => capturingItems frame.before) ++ capturingItems reading.items

/-- So many captures more have begun, with the next numbers; what was closed is still there. -/
structure Extends (reading next : Reading) (count : Nat) : Prop where
  captures : next.captures = reading.captures + count
  numbers : next.numbers = reading.numbers ++ List.range' reading.captures count
  closed : ∀ entry ∈ reading.closed, entry ∈ next.closed

end Reading

end Expr

section Readings
open RoutePattern.Expr
variable {items : List Expr} {item : Expr} {reading middle next : Reading} {place count more : Nat}
  {lexeme : Lexeme}

private theorem capturingItems_cons (item : Expr) (items : List Expr) :
    capturingItems (item :: items) = capturingItems items ++ item.capturing := by
  simp [capturingItems]

private theorem capturing_group (capture : Option Nat) (body : Expr) :
    (Expr.group capture body).capturing =
      capture.toList.map (fun number => (number, body)) ++ body.capturing := by
  cases capture <;> rfl

private theorem capturing_sequence (exprs : List Expr) :
    (Pattern.sequence exprs).capturing = exprs.flatMap capturing := by
  induction exprs with
  | nil => rfl
  | cons expr exprs ih =>
    rw [List.flatMap_cons, ← ih]
    rfl

private theorem capturing_ofItems (items : List Expr) :
    (ofItems items).capturing = capturingItems items := by
  rw [← List.reverse_reverse items, Pattern.ofItems_reverse, capturing_sequence, capturingItems,
    List.reverse_reverse]

private theorem Expr.Reading.Extends.refl (reading : Reading) : reading.Extends reading 0 :=
  ⟨rfl, by simp, fun _ member => member⟩

private theorem Expr.Reading.Extends.trans (first : reading.Extends middle count)
    (second : middle.Extends next more) : reading.Extends next (count + more) := by
  refine ⟨?_, ?_, fun entry member => second.closed entry (first.closed entry member)⟩
  · rw [second.captures, first.captures, Nat.add_assoc]
  · rw [second.numbers, first.numbers, first.captures, List.append_assoc, List.range'_append_1]

/-- What comes in place of the items of a reading begins no capture. -/
theorem extends_items {frames : List Frame} {before : List Expr}
    (same : capturingItems items = capturingItems before) :
    Reading.Extends ⟨before, frames, count⟩ ⟨items, frames, count⟩ 0 := by
  refine ⟨rfl, ?_, fun entry member => ?_⟩
  · rw [List.range'_zero, List.append_nil, Reading.numbers, Reading.numbers, same]
  · rw [Reading.closed, same]
    exact member

/-- One lexeme is taken in. -/
theorem extends_step (stepped : step reading place lexeme = .ok next) :
    reading.Extends next ([lexeme].count .openCapture) := by
  obtain ⟨items, frames, captures⟩ := reading
  have unchanged (item : Expr) (none : item.capturing = []) :
      Reading.Extends ⟨items, frames, captures⟩ ⟨item :: items, frames, captures⟩ 0 :=
    extends_items (by rw [capturingItems_cons, none, List.append_nil])
  cases lexeme with
  | one set =>
    cases stepped
    exact unchanged _ rfl
  | start =>
    cases stepped
    exact unchanged _ rfl
  | finish =>
    cases stepped
    exact unchanged _ rfl
  | openCapture =>
    cases stepped
    refine ⟨rfl, ?_, fun entry member => ?_⟩
    · simp [Reading.numbers, Frame.numbers, capturingItems]
    · simpa [Reading.closed, capturingItems, or_comm] using member
  | openPlain =>
    cases stepped
    refine ⟨rfl, ?_, fun entry member => ?_⟩
    · simp [Reading.numbers, Frame.numbers, capturingItems]
    · simpa [Reading.closed, capturingItems, or_comm] using member
  | close =>
    cases frames with
    | nil => cases stepped
    | cons frame frames =>
      cases stepped
      have group := capturing_group frame.capture (ofItems items)
      refine ⟨rfl, ?_, fun entry member => ?_⟩
      · simp [Reading.numbers, Frame.numbers, capturingItems_cons, group, capturing_ofItems,
          Function.comp_def]
      · simp only [Reading.closed, List.flatMap_cons, List.mem_append, capturingItems_cons, group,
          capturing_ofItems] at member ⊢
        tauto
  | times times =>
    cases again : repeatLast place times items with
    | error fault =>
      rw [step, again] at stepped
      cases stepped
    | ok repeated =>
      rw [step, again] at stepped
      cases stepped
      obtain ⟨item, before, rfl, _, rfl⟩ := repeatLast_cases again
      exact extends_items (by rw [capturingItems_cons, capturingItems_cons]; rfl)

/-- Lexemes are taken in one after the other. -/
theorem extends_steps {entries : List (Nat × Lexeme)} (stepped : steps reading entries = .ok next) :
    reading.Extends next ((entries.map Prod.snd).count .openCapture) := by
  induction entries generalizing reading with
  | nil =>
    cases stepped
    exact .refl _
  | cons entry entries ih =>
    obtain ⟨place, lexeme⟩ := entry
    rw [steps] at stepped
    cases taken : step reading place lexeme with
    | error fault =>
      rw [taken] at stepped
      cases stepped
    | ok middle =>
      rw [taken] at stepped
      rw [List.map_cons, ← List.singleton_append, List.count_append]
      exact (extends_step taken).trans (ih stepped)

private theorem steps_append {entries others : List (Nat × Lexeme)}
    (stepped : steps reading (entries ++ others) = .ok next) :
    ∃ middle, steps reading entries = .ok middle ∧ steps middle others = .ok next := by
  induction entries generalizing reading with
  | nil => exact ⟨reading, rfl, stepped⟩
  | cons entry entries ih =>
    obtain ⟨place, lexeme⟩ := entry
    rw [List.cons_append, steps] at stepped
    cases taken : step reading place lexeme with
    | error fault =>
      rw [taken] at stepped
      cases stepped
    | ok following =>
      rw [taken] at stepped
      obtain ⟨middle, first, second⟩ := ih stepped
      refine ⟨middle, ?_, second⟩
      rw [steps, taken]
      exact first

end Readings

namespace Pattern
open Text

/-- What the capture of a slot takes in. -/
def Kind.captured : Kind → Expr
  | .named => .cat (.iterate .atLeastOnce (.one (.noneOf ['/', '?']))) .empty
  | .splat => .cat (.iterate .reluctant (.one (.noneOf ['?']))) .empty

/-- The capture that a part begins, if it begins one: that of a slot, which is told by its kind, or
that of a parenthesis which opens no group. -/
def Part.opening? : Part → Option (Option Kind)
  | .literal char => if char = '(' then some none else none
  | .slot kind _ => some (some kind)

/-- The captures that a pattern begins, in reading order: each is for a slot, or for a parenthesis
that opens no group. -/
def openings (pattern : List Char) : List (Option Kind) :=
  ((outline pattern).flatMap Segment.parts).filterMap Part.opening?

/-- Lexemes that begin these captures and close those of slots, if they can be taken in. -/
structure Begins (lexemes : List Lexeme) (openings : List (Option Kind)) : Prop where
  count : lexemes.count .openCapture = openings.length
  slots : ∀ reading next entries, entries.map Prod.snd = lexemes →
    Expr.steps reading entries = .ok next → ∀ index kind, openings[index]? = some (some kind) →
      (reading.captures + index, kind.captured) ∈ next.closed

section Begins
variable {first second : List Lexeme} {lexeme : Lexeme} {own others : List (Option Kind)}

private theorem begins_nil : Begins [] [] := ⟨rfl, by simp⟩

private theorem Begins.append (front : Begins first own) (behind : Begins second others) :
    Begins (first ++ second) (own ++ others) := by
  refine ⟨by rw [List.count_append, List.length_append, front.count, behind.count], ?_⟩
  intro reading next entries lexemes stepped index kind opening
  obtain ⟨entries, more, rfl, rfl, rfl⟩ := List.map_eq_append_iff.mp lexemes
  obtain ⟨middle, here, later⟩ := steps_append stepped
  have grown := extends_steps here
  by_cases within : index < own.length
  · rw [List.getElem?_append_left within] at opening
    exact (extends_steps later).closed _ (front.slots _ _ _ rfl here index kind opening)
  · rw [List.getElem?_append_right (Nat.le_of_not_lt within)] at opening
    have found := behind.slots _ _ _ rfl later _ kind opening
    have place : middle.captures + (index - own.length) = reading.captures + index := by
      rw [grown.captures, front.count]
      omega
    rwa [place] at found

private theorem begins_flatMap {α : Type} {items : List α} {read : α → List Lexeme}
    {opened : α → List (Option Kind)} (each : ∀ item ∈ items, Begins (read item) (opened item)) :
    Begins (items.flatMap read) (items.flatMap opened) := by
  induction items with
  | nil => exact begins_nil
  | cons item items ih =>
    rw [List.flatMap_cons, List.flatMap_cons]
    exact (each item (by simp)).append (ih fun other member => each other (by simp [member]))

private theorem begins_lexeme (other : lexeme ≠ .openCapture) : Begins [lexeme] [] :=
  ⟨by simp [other], by simp⟩

private theorem begins_openCapture : Begins [.openCapture] [none] := by
  refine ⟨rfl, fun _ _ _ _ _ index kind opening => ?_⟩
  cases index <;> cases opening

/-- The lexemes of a slot are its capture as a whole. -/
theorem begins_slot (kind : Kind) : Begins kind.lexemes [some kind] := by
  refine ⟨by cases kind <;> decide, ?_⟩
  intro reading next entries lexemes stepped index other opening
  have read : next.items = kind.expr reading.captures :: reading.items := by
    cases kind <;>
    · simp only [Kind.lexemes, List.map_eq_cons_iff, List.map_eq_nil_iff] at lexemes
      obtain ⟨⟨_, _⟩, _, rfl, rfl, ⟨_, _⟩, _, rfl, rfl, ⟨_, _⟩, _, rfl, rfl, ⟨_, _⟩, _, rfl, rfl,
        rfl⟩ := lexemes
      cases stepped
      rfl
  cases index with
  | succ index => cases opening
  | zero =>
    cases opening
    have own : (reading.captures, kind.captured) ∈ (kind.expr reading.captures).capturing := by
      cases kind <;> exact List.mem_cons_self
    rw [Expr.Reading.closed, read, capturingItems_cons]
    exact List.mem_append_right _ (List.mem_append_right _ own)

private theorem begins_part (part : Part) : Begins part.lexemes part.opening?.toList := by
  cases part with
  | slot kind name => exact begins_slot kind
  | literal char =>
    by_cases opened : char = '('
    · subst opened
      exact begins_openCapture
    · rw [Part.opening?, if_neg opened]
      refine begins_lexeme ?_
      rw [literalLexeme, if_neg (by simpa using opened)]
      split
      · simp
      · split <;> simp

private theorem begins_parts (parts : List Part) :
    Begins (parts.flatMap Part.lexemes) (parts.filterMap Part.opening?) := by
  rw [List.filterMap_eq_flatMap_toList]
  exact begins_flatMap fun part _ => begins_part part

private theorem begins_segment (segment : Segment) :
    Begins segment.lexemes (segment.parts.filterMap Part.opening?) := by
  cases segment with
  | single part => simpa [Segment.lexemes, Segment.parts] using begins_parts [part]
  | group inner =>
    have opening : Begins [.openPlain] [] := begins_lexeme (by simp)
    have ending : Begins [.close, .times .atMostOnce] [] :=
      (begins_lexeme (by simp)).append (begins_lexeme (by simp))
    have whole := opening.append ((begins_parts inner).append ending)
    rwa [List.nil_append, List.append_nil] at whole

private theorem begins_outline (pattern : List Char) :
    Begins ((outline pattern).flatMap Segment.lexemes) (openings pattern) := by
  rw [openings, List.filterMap_flatMap]
  exact begins_flatMap fun segment _ => begins_segment segment

end Begins

section Openings
variable {pattern name rest : List Char}

/-- The slots among the openings are the tokens of the pattern. -/
theorem reduceOption_openings (pattern : List Char) :
    (openings pattern).reduceOption = (tokens pattern).map Token.kind := by
  have told (part : Part) : part.opening?.bind id = part.kind? := by
    cases part with
    | slot kind name => rfl
    | literal char =>
      rw [Part.opening?]
      split <;> rfl
  have kinds : (openings pattern).reduceOption = kinds (outline pattern) := by
    rw [List.reduceOption, openings, List.filterMap_filterMap, funext told]
    rfl
  rw [kinds, ← kind_slots, ← map_unmarked_tokens, List.map_map]
  exact List.map_congr_left fun token _ => token.kind_unmarked

private theorem length_parameters (pattern : List Char) :
    (parameters pattern).length = (tokens pattern).length := by
  have others : (tokens pattern).filter (·.kind == .splat) =
      (tokens pattern).filter fun token => !(token.kind == .named) :=
    List.filter_congr fun token _ => by cases token.kind <;> rfl
  rw [parameters, named, splats, others, List.length_append, List.length_map, List.length_map]
  exact (List.length_eq_length_filter_add _).symm

private theorem length_openings (pattern : List Char) :
    (openings pattern).length = (tokens pattern).length + (openings pattern).count none := by
  have split (list : List (Option Kind)) :
      list.length = list.reduceOption.length + list.count none := by
    induction list with
    | nil => rfl
    | cons opening list ih =>
      cases opening with
      | none =>
        rw [List.reduceOption_cons_of_none, List.count_cons_self, List.length_cons, ih,
          Nat.add_assoc]
      | some kind =>
        rw [List.reduceOption_cons_of_some, List.count_cons_of_ne (Option.some_ne_none kind),
          List.length_cons, List.length_cons, ih, Nat.add_right_comm]
  rw [split, reduceOption_openings, List.length_map]

/-- Where each opening parenthesis opens a group the openings are the tokens. -/
theorem openings_of_grouped (grouped : (openings pattern).count none = 0) :
    openings pattern = (tokens pattern).map fun token => some token.kind := by
  have full (list : List (Option Kind)) (free : none ∉ list) :
      list = list.reduceOption.map some := by
    induction list with
    | nil => rfl
    | cons opening list ih =>
      rw [List.mem_cons, not_or] at free
      obtain ⟨kind, rfl⟩ := Option.ne_none_iff_exists'.mp (Ne.symm free.1)
      rw [List.reduceOption_cons_of_some, List.map_cons, ← ih free.2]
  refine (full _ (List.count_eq_zero.mp grouped)).trans ?_
  rw [reduceOption_openings, List.map_map]
  rfl

private theorem openings_of_outline {segment : Segment}
    (split : outline pattern = segment :: outline rest) :
    openings pattern = segment.parts.filterMap Part.opening? ++ openings rest := by
  rw [openings, split, List.flatMap_cons, List.filterMap_append, openings]

private theorem count_slot (kind : Kind) (word : ∀ char ∈ name, isWord char = true) :
    (kind.sigil :: (name ++ rest)).count '(' = rest.count '(' := by
  have outside : '(' ∉ kind.sigil :: name :=
    fun member => (slot_ne_parenthesis kind word '(' member).1 rfl
  rw [← List.cons_append, List.count_append, List.count_eq_zero_of_not_mem outside, Nat.zero_add]

private theorem count_literal (char : Char) (rest : List Char) :
    (char :: rest).count '(' = (Part.literal char).opening?.toList.count none + rest.count '(' := by
  by_cases opened : char = '('
  · subst opened
    rw [List.count_cons_self, Nat.add_comm]
    rfl
  · rw [List.count_cons_of_ne opened, Part.opening?, if_neg opened]
    simp

private theorem count_parts (text : List Char) :
    text.count '(' = ((parts text).filterMap Part.opening?).count none := by
  induction text using parts_induction with
  | nil => rfl
  | slot kind name rest present word ended ih =>
    rw [count_slot kind word, ih, parts_slot kind present word ended]
    rfl
  | literal char rest none ih =>
    rw [count_literal, ih, parts_literal none, List.filterMap_eq_flatMap_toList,
      List.filterMap_eq_flatMap_toList, List.flatMap_cons, List.count_append]

/-- Each opening parenthesis of a pattern opens a group or begins a capture. -/
theorem count_parenthesis (pattern : List Char) :
    pattern.count '(' = (groups pattern).length + (openings pattern).count none := by
  have listed (text : List Char) : (groups text).length = (findings groupLength text).length :=
    (List.length_map _).symm
  rw [listed]
  induction pattern using outline_induction with
  | nil => rfl
  | group inner rest inside ih =>
    rw [List.count_cons_self, List.count_append, List.count_cons_of_ne (by decide), count_parts, ih,
      openings_of_outline (outline_group inside), findings_group inside, List.length_cons,
      List.count_append, Segment.parts]
    omega
  | slot kind name rest present word ended ih =>
    rw [count_slot kind word, ih, openings_of_outline (outline_slot kind present word ended),
      findings_groupLength_slot kind word]
    rfl
  | literal char rest outside none ih =>
    rw [count_literal, ih, openings_of_outline (outline_literal outside none),
      findings_cons_plain outside, List.count_append, Segment.parts,
      List.filterMap_eq_flatMap_toList, List.flatMap_singleton]
    omega

end Openings

/-- Reading the source of a pattern ends with the query, to which the last number is given. -/
theorem read_source_eq_ok {pattern : List Char} {expr : Expr} {count : Nat}
    (read : Expr.read (source pattern) = .ok (expr, count)) :
    ∃ middle entries, entries.map Prod.snd = (outline pattern).flatMap Segment.lexemes ∧
      Expr.steps { items := [.start] } entries = .ok middle ∧ middle.frames = [] ∧
      expr = sequence (middle.items.reverse ++ closing middle.captures) ∧
      count = middle.captures + 1 := by
  obtain ⟨behind, entries, lexed, lexemes⟩ :=
    (lexesTo_outline pattern).readFrom (0 + 1) (queryCapture ++ "\\Z".toList) (by decide)
  rw [Expr.read, steps_source, lexed] at read
  cases stepped : Expr.steps { items := [.start] }
      (entries ++ Lexeme.readFrom behind 0 (queryCapture ++ "\\Z".toList)) with
  | error fault =>
    rw [stepped] at read
    cases read
  | ok final =>
    obtain ⟨⟨items, frames, captures⟩, first, last⟩ := steps_append stepped
    rw [steps_closing, Except.ok.injEq] at last
    rw [stepped, ← last] at read
    cases frames with
    | cons frame frames => cases read
    | nil =>
      cases read
      refine ⟨_, entries, lexemes, first, rfl, ?_, rfl⟩
      rw [← ofItems_reverse, List.reverse_append, List.reverse_reverse]
      rfl

end Pattern

open Pattern RoutePattern.Expr

/-- The captures of a compiled pattern. Their numbers are those in the order of their openings: one
for each token and each parenthesis that opens no group, in reading order, and one for the query,
with which the expression ends. If each parenthesis opens a group, they are thus one more than
there are parameters, and those of the tokens come first. -/
theorem captures_of_compiled (pattern : String) (route : Route)
    (compiled : Route.compile pattern.toList = .ok route) :
    route.captures + (groups pattern.toList).length =
      (parameters pattern.toList).length + pattern.toList.count '(' + 1 ∧
    route.expr.capturing.map Prod.fst = List.range route.captures ∧
    (∃ own, route.expr = sequence (own ++ closing (route.captures - 1))) ∧
    route.captures = (openings pattern.toList).length + 1 ∧
    (openings pattern.toList).reduceOption = (tokens pattern.toList).map Token.kind ∧
    (∀ index kind, (openings pattern.toList)[index]? = some (some kind) →
      (index, kind.captured) ∈ route.expr.capturing) ∧
    (pattern.toList.count '(' = (groups pattern.toList).length →
      route.captures = (parameters pattern.toList).length + 1 ∧
        ∀ index token, (tokens pattern.toList)[index]? = some token →
          (index, token.kind.captured) ∈ route.expr.capturing) := by
  obtain ⟨_, read⟩ := Route.compile_eq_ok_iff.mp compiled
  obtain ⟨middle, entries, lexemes, stepped, outermost, expr, count⟩ := read_source_eq_ok read
  have begins := begins_outline pattern.toList
  have grown := extends_steps stepped
  rw [lexemes, begins.count] at grown
  have captures : route.captures = (openings pattern.toList).length + 1 := by
    rw [count, grown.captures, Nat.zero_add]
  have capturing : route.expr.capturing =
      capturingItems middle.items ++ (closing middle.captures).flatMap capturing := by
    rw [expr, capturing_sequence, List.flatMap_append]
    rfl
  have paired : ∀ index kind, (openings pattern.toList)[index]? = some (some kind) →
      (index, kind.captured) ∈ route.expr.capturing := by
    intro index kind opening
    have closed := begins.slots _ _ _ lexemes stepped index kind opening
    rw [Reading.closed, outermost, Nat.zero_add] at closed
    rw [capturing]
    exact List.mem_append_left _ closed
  have total := count_parenthesis pattern.toList
  have length := length_openings pattern.toList
  have parameters := length_parameters pattern.toList
  refine ⟨by omega, ?_, ⟨middle.items.reverse, ?_⟩, captures, reduceOption_openings _, paired,
    fun grouped => ⟨by omega, fun index token listed => ?_⟩⟩
  · have numbers : (capturingItems middle.items).map Prod.fst = List.range' 0 middle.captures := by
      have begun := grown.numbers
      rw [Reading.numbers, outermost, ← Nat.zero_add (openings pattern.toList).length,
        ← grown.captures] at begun
      exact begun
    rw [capturing, List.map_append, numbers, count, List.range_succ, List.range_eq_range']
    rfl
  · rw [count, Nat.add_sub_cancel, expr]
  · refine paired index token.kind ?_
    rw [openings_of_grouped (by omega), List.getElem?_map, listed]
    rfl

/-- A loose parenthesis has the capture between those of the two tokens, and without it they have
the first two. -/
theorem captures_of_compiled_loose :
    (∃ route, Route.compile "/:a((x))(/*b)".toList = .ok route ∧ route.captures = 4 ∧
      (0, Kind.captured .named) ∈ route.expr.capturing ∧
      (2, Kind.captured .splat) ∈ route.expr.capturing) ∧
    ∃ route, Route.compile "/:a(x)(/*b)".toList = .ok route ∧ route.captures = 3 ∧
      (0, Kind.captured .named) ∈ route.expr.capturing ∧
      (1, Kind.captured .splat) ∈ route.expr.capturing := by
  constructor
  · obtain ⟨route, compiled⟩ : ∃ route, Route.compile "/:a((x))(/*b)".toList = .ok route :=
      ⟨_, rfl⟩
    have begun : openings "/:a((x))(/*b)".toList = [some .named, none, some .splat] := by decide
    obtain ⟨_, _, _, captures, _, paired, _⟩ := captures_of_compiled "/:a((x))(/*b)" route compiled
    rw [begun] at captures paired
    exact ⟨route, compiled, captures, paired 0 .named rfl, paired 2 .splat rfl⟩
  · obtain ⟨route, compiled⟩ : ∃ route, Route.compile "/:a(x)(/*b)".toList = .ok route := ⟨_, rfl⟩
    have read : tokens "/:a(x)(/*b)".toList =
        [⟨.named, 1, ":a".toList⟩, ⟨.splat, 8, "*b".toList⟩] := by decide
    obtain ⟨captures, paired⟩ :=
      (captures_of_compiled "/:a(x)(/*b)" route compiled).2.2.2.2.2.2 (by decide)
    rw [length_parameters, read] at captures
    rw [read] at paired
    exact ⟨route, compiled, captures, paired 0 _ rfl, paired 1 _ rfl⟩

/-- Of two parentheses opened one behind the other the second one captures, though the pattern has
no parameters. -/
theorem nested_parenthesis_captures :
    parameters "((a))".toList = [] ∧
      ∃ route, Route.compile "((a))".toList = .ok route ∧ route.captures = 2 ∧
        route.captures ≠ (parameters "((a))".toList).length + 1 :=
  ⟨by decide, _, rfl, rfl, by decide⟩

end RoutePattern
