import RoutePattern.Proofs.KeyedFilling
import RoutePattern.Proofs.Runs

/-! The names of parameters. Tokens are the longest runs of a sigil and a name, kind by kind and
in reading order, and the key of a token is the name, whatever stands around it. The one thing
that may come before a name is the mark, which a named token takes in where it stands directly in
front of the colon; then the key has a question mark and a colon in front of the name. These keys
are those of the arguments by name, and no others are looked up. -/
namespace RoutePattern
namespace Pattern
open Text

/-- The text of the named token that a run ends: the mark in front of it is part of the token. -/
def Token.withMark (pattern : List Char) (run : Token) : List Char :=
  if markedAt pattern run.start then mark ++ run.text else run.text

section Names
variable {pattern text : List Char} {token : Token}

/-- The text of a named token is its run, with the mark if that stands in front. -/
theorem text_of_named (member : token ∈ tokens pattern) (named : token.kind = .named) :
    token.text = token.unmarked.withMark pattern := by
  have same := isMarked_eq_markedAt member named
  obtain ⟨name, _, _, _, _, bare | ⟨_, marked⟩⟩ := token_cases member
  · rw [Token.unmarked_of_bare bare] at same ⊢
    rw [Token.withMark, ← same, isMarked_of_bare bare, if_neg Bool.false_ne_true]
  · rw [Token.withMark, ← same, isMarked_of_marked marked, if_pos rfl,
      Token.unmarked_of_marked marked, marked]

/-- The text of a splat token is its run. -/
theorem text_of_splat (member : token ∈ tokens pattern) (splat : token.kind = .splat) :
    token.text = token.unmarked.text := by
  obtain ⟨name, _, _, _, _, bare | ⟨named, _⟩⟩ := token_cases member
  · rw [Token.unmarked_of_bare bare]
  · rw [splat] at named
    cases named

private theorem filter_slots (pattern : List Char) (kind : Kind) :
    (slots pattern).filter (·.kind == kind) =
      ((tokens pattern).filter (·.kind == kind)).map Token.unmarked := by
  rw [← map_unmarked_tokens, List.filter_map]
  simp only [Function.comp_def, Token.kind_unmarked]

private theorem named_eq_runs (pattern : List Char) :
    named pattern = ((slots pattern).filter (·.kind == .named)).map (Token.withMark pattern) := by
  rw [filter_slots, named, List.map_map]
  apply List.map_congr_left
  intro token member
  rw [List.mem_filter, beq_iff_eq] at member
  exact text_of_named member.1 member.2

private theorem splats_eq_runs (pattern : List Char) :
    splats pattern = ((slots pattern).filter (·.kind == .splat)).map Token.text := by
  rw [filter_slots, splats, List.map_map]
  apply List.map_congr_left
  intro token member
  rw [List.mem_filter, beq_iff_eq] at member
  exact text_of_splat member.1 member.2

/-- The key of a parameter is a name, or has the rest of the mark and a colon before the name. -/
theorem key_cases (member : text ∈ parameters pattern) :
    isMarked text = false ∧ IsName (key text) ∨
      isMarked text = true ∧ ∃ name, IsName name ∧ key text = "?:".toList ++ name := by
  have listed : ∃ token ∈ tokens pattern, token.text = text := by
    rw [parameters, List.mem_append, named, splats, List.mem_map, List.mem_map] at member
    rcases member with ⟨token, member, same⟩ | ⟨token, member, same⟩ <;>
      exact ⟨token, (List.mem_filter.mp member).1, same⟩
  obtain ⟨token, among, rfl⟩ := listed
  obtain ⟨name, _, isName, _, _, bare | ⟨_, marked⟩⟩ := token_cases among
  · refine .inl ⟨isMarked_of_bare bare, ?_⟩
    rw [bare]
    exact isName
  · refine .inr ⟨isMarked_of_marked marked, name, isName, ?_⟩
    rw [marked]
    rfl

end Names

end Pattern

open Pattern

section Keys
open Arguments
variable {entries : Entries} {key : Value}

/-- Writing under a name adds this name to the keys, if it is not among them. -/
theorem mem_keys_insert (name : String) (value : Value) :
    key ∈ (Entries.insert (.text name) value entries).map Prod.fst ↔
      key = .text name ∨ key ∈ entries.map Prod.fst := by
  induction entries with
  | nil => simp [Entries.insert]
  | cons entry entries ih =>
    rw [Entries.insert]
    split
    · rename_i same
      have equal : entry.1 = .text name := by simpa using same
      simp [equal]
    · rw [List.map_cons, List.mem_cons, ih, List.map_cons, List.mem_cons, or_left_comm]

private theorem mem_keys_insertAll (entries : Entries) (tokens : List (List Char))
    (values : List Value) :
    key ∈ (entries.insertAll (pairUp tokens values)).map Prod.fst ↔
      (∃ token ∈ tokens, key = keyOf token) ∨ key ∈ entries.map Prod.fst := by
  induction tokens generalizing entries values with
  | nil => simp [pairUp, Entries.insertAll]
  | cons first tokens ih =>
    rw [pairUp_cons, Entries.insertAll, List.foldl_cons]
    refine (ih _ _).trans ?_
    rw [show keyOf first = .text (String.ofList (Pattern.key first)) from rfl, mem_keys_insert,
      List.exists_mem_cons_iff, or_left_comm, or_assoc]
    rfl

/-- The keys of the arguments by name are those of the parameters. -/
theorem mem_keys_byName (pattern : List Char) (values : List Value) :
    key ∈ (byName pattern values).map Prod.fst ↔
      ∃ token ∈ parameters pattern, key = keyOf token := by
  rw [byName, Entries.ofPairs, mem_keys_insertAll]
  exact or_iff_left List.not_mem_nil

theorem argumentsByName_text {items : Value} {values : List Value}
    (listed : items.itemsOrNothing = .ok values) (pattern : String) :
    argumentsByName (.text pattern) items = .ok (byName pattern.toList values) := by
  rw [argumentsByName, listed, Value.textOrNothing_text]
  rfl

/-- A report depends on nothing but what is held for the parameters. -/
theorem reportOn_congr {pattern : String} {given other : Value}
    (kind : (ofValue given).kind = .keyed) (otherKind : (ofValue other).kind = .keyed)
    (agree : Agree (ofValue given).mapping (ofValue other).mapping (parameters pattern.toList)) :
    reportOn (.text pattern) given = reportOn (.text pattern) other := by
  have same : (parameters pattern.toList).map (Report.entry pattern.toList (ofValue given)) =
      (parameters pattern.toList).map (Report.entry pattern.toList (ofValue other)) := by
    refine List.map_congr_left fun token member => ?_
    rw [Report.entry, Report.entry, Report.valuesOf, Report.valuesOf, kind, otherKind,
      Report.parameterOf, Report.parameterOf, agree token member]
  rw [reportOn_text, reportOn_text, Except.ok.injEq, Report.mk.injEq]
  exact ⟨same, rfl⟩

end Keys

/-- What the tokens of a pattern are called. The slots are exactly the longest runs, in reading
order; the named tokens are the named ones of them, each with the mark if it stands in front, and
the splat tokens are the others. So the key of a token is a name, unless the token is marked; the
arguments by name have these keys and no others, and of a map nothing else is read. -/
theorem tokens_are_longest_runs (pattern : String) :
    (∀ run, run ∈ slots pattern.toList ↔ IsRun pattern.toList run) ∧
    ((slots pattern.toList).Pairwise fun one other => one.stop ≤ other.start) ∧
    named pattern.toList =
      ((slots pattern.toList).filter (·.kind == .named)).map (Token.withMark pattern.toList) ∧
    splats pattern.toList =
      ((slots pattern.toList).filter (·.kind == .splat)).map Token.text ∧
    (∀ token ∈ parameters pattern.toList,
      isMarked token = false ∧ IsName (key token) ∨
        isMarked token = true ∧ ∃ name, IsName name ∧ key token = "?:".toList ++ name) ∧
    (∀ items values, items.itemsOrNothing = .ok values →
      ∃ entries, argumentsByName (.text pattern) items = .ok entries ∧
        ∀ key, key ∈ entries.map Prod.fst ↔
          ∃ token ∈ parameters pattern.toList, key = Arguments.keyOf token) ∧
    ∀ given other, (Arguments.ofValue given).kind = .keyed →
      (Arguments.ofValue other).kind = .keyed →
      Arguments.Agree (Arguments.ofValue given).mapping (Arguments.ofValue other).mapping
        (parameters pattern.toList) →
      fillPath (.text pattern) given = fillPath (.text pattern) other ∧
        reportOn (.text pattern) given = reportOn (.text pattern) other := by
  refine ⟨fun _ => mem_slots_iff, slots_pairwise_places _, named_eq_runs _, splats_eq_runs _,
    fun _ => key_cases, fun items values listed => ?_, fun given other kind otherKind agree => ?_⟩
  · exact ⟨_, argumentsByName_text listed pattern, fun _ => mem_keys_byName _ _⟩
  · have onNamed : Arguments.Agree (Arguments.ofValue given).mapping
        (Arguments.ofValue other).mapping (named pattern.toList) :=
      fun token member => agree token (List.mem_append_left _ member)
    exact ⟨fillPath_congr kind otherKind onNamed, reportOn_congr kind otherKind agree⟩

/-- Marked and unmarked names, and a word behind the mark alone; what a map holds under other
names, or in which order, makes no difference. -/
theorem tokens_are_longest_runs_marked :
    (∃ entries,
      argumentsByName (.text "/(?:id)/:a*r(?x)") (.list [.int 1, .int 2]) = .ok entries ∧
      ∀ key, key ∈ entries.map Prod.fst ↔
        key = .text "?:id" ∨ key = .text "a" ∨ key = .text "r") ∧
    fillPath (.text "/(?:id)/:a*r(?x)") (.map [(.text "id", .int 3), (.text "?:id", .int 1),
        (.text "a", .int 2)]) =
      fillPath (.text "/(?:id)/:a*r(?x)") (.map [(.text "a", .int 2), (.text "?:id", .int 1)]) := by
  have names : parameters "/(?:id)/:a*r(?x)".toList =
      ["(?:id".toList, ":a".toList, "*r".toList] := by decide
  have all := (tokens_are_longest_runs "/(?:id)/:a*r(?x)").2.2.2.2.2
  rw [names] at all
  constructor
  · obtain ⟨entries, listed, keys⟩ := all.1 (.list [.int 1, .int 2]) [.int 1, .int 2] rfl
    refine ⟨entries, listed, fun key => (keys key).trans ?_⟩
    simp [Arguments.keyOf, Pattern.key]
  · refine (all.2 _ _ rfl rfl ?_).1
    simp [Arguments.Agree, Arguments.ofValue, Entries.get?, Arguments.keyOf, Pattern.key]

/-- The only run is a name behind its colon, but the token and its key begin with the mark. -/
theorem marked_token_is_no_run :
    (∀ run, IsRun "(?:id)".toList run ↔ run = ⟨.named, 2, ":id".toList⟩) ∧
      named "(?:id)".toList = ["(?:id".toList] ∧ ¬ IsName (key "(?:id".toList) ∧
      argumentsByName (.text "(?:id)") (.list [.int 1]) = .ok [(.text "?:id", .int 1)] := by
  have runs : slots "(?:id)".toList = [⟨.named, 2, ":id".toList⟩] := by decide
  refine ⟨fun run => ?_, by decide, fun isName => ?_, ?_⟩
  · rw [← mem_slots_iff, runs, List.mem_singleton]
  · exact absurd (isName.word '?' (by decide)) (by decide)
  · have names : parameters "(?:id)".toList = ["(?:id".toList] := by decide
    have listed : (Value.list [.int 1]).itemsOrNothing = .ok [.int 1] := rfl
    rw [argumentsByName_text listed, Arguments.byName, names]
    rfl

end RoutePattern
