import RoutePattern.Proofs.Injection
import RoutePattern.Proofs.NamedOptions
import RoutePattern.Proofs.Recall

/-! Paths are matched by the patterns that they were built from: filling and compiling agree
on what the slots and the groups of a pattern are. -/
namespace RoutePattern
open Pattern

/-- The test of an address against a pattern, both given by name. -/
def Session.testNamed (pattern url : String) : Action Bool := do
  let options ← lift (Options.ofCall MatchField "test" []
    { overrides := [(.text "path", .text pattern), (.text "url", .text url)] })
  test options

/-- Options with a pattern and an address. -/
def testOptions (pattern url : String) : Options MatchField
  | .path => .text pattern
  | .url => .text url

private theorem testOptions_toldBy (pattern url : String) :
    (testOptions pattern url).ToldBy [.path, .url] where
  rest field other := by cases field <;> simp at other
  absent field absent := by cases field <;> cases absent

theorem coerce_testNamed (pattern url : String) :
    Options.coerce MatchField "test" .null
        [(.text "path", .text pattern), (.text "url", .text url)] =
      .ok (testOptions pattern url) :=
  Options.coerce_byField "test" (testOptions_toldBy pattern url)

private theorem ofCall_testNamed (pattern url : String) :
    Options.ofCall MatchField "test" []
        { overrides := [(.text "path", .text pattern), (.text "url", .text url)] } =
      .ok (testOptions pattern url) :=
  Options.ofCall_byField "test" (testOptions_toldBy pattern url)

/-- Testing by name answers whether the compiled pattern accepts the address. -/
theorem answer_testNamed {pattern : String} {compiled : Route}
    (same : Route.compile pattern.toList = .ok compiled) (url : String) (session : Session)
    (sound : session.cache.Sound) :
    (outcome (Session.testNamed pattern url) session).1 = .ok (compiled.accepts url.toList) := by
  rw [Session.testNamed, ofCall_testNamed, outcome_bind]
  exact Session.outcome_test _ rfl rfl same session sound

/-- A path that a grammatical pattern spells passes the test. -/
theorem answer_testNamed_of_spells {pattern : String} {path : List Char}
    {texts : List (Option (List Char))} (grammatical : Grammatical pattern.toList)
    (spelled : Spells (outline pattern.toList) texts path) (session : Session)
    (sound : session.cache.Sound) :
    (outcome (Session.testNamed pattern (String.ofList path)) session).1 = .ok true := by
  have compiled := compile_grammatical pattern.toList grammatical
  have accepted := Route.captures?_isSome_of_spells spelled none
  rw [querySuffix, List.append_nil] at accepted
  rw [answer_testNamed compiled _ session sound, String.toList_ofList, Route.accepts, accepted]

namespace Arguments

/-- Looking at each item succeeds exactly if it does at every one. -/
theorem mapM_eq_ok_iff {α β ε : Type} {look : α → Except ε β} {items : List α} {results : List β} :
    items.mapM look = .ok results ↔
      List.Forall₂ (fun item result => look item = .ok result) items results := by
  induction items generalizing results with
  | nil =>
    rw [List.mapM_nil, List.forall₂_nil_left_iff]
    exact ⟨fun same => by cases same; rfl, fun same => by rw [same]; rfl⟩
  | cons item items ih =>
    rw [List.mapM_cons, List.forall₂_cons_left_iff]
    constructor
    · intro found
      cases first : look item with
      | error error =>
        rw [first] at found
        cases found
      | ok result =>
        rw [first] at found
        cases later : items.mapM look with
        | error error =>
          rw [later] at found
          cases found
        | ok rest =>
          rw [later] at found
          cases found
          exact ⟨result, rest, rfl, ih.mp later, rfl⟩
    · rintro ⟨result, rest, first, later, rfl⟩
      rw [first, ih.mpr later]
      rfl

section Order
variable {mapping : Entries} {pattern token : List Char} {value : Value} {values : List Value}

theorem valueFor_eq_ok_iff :
    valueFor mapping pattern token = .ok value ↔ mapping.get? (keyOf token) = some value := by
  rw [valueFor]
  cases mapping.get? (keyOf token) <;> simp

/-- Keyed arguments can be put in order if there are named tokens, and each has its value. -/
theorem inNamedOrder_eq_ok_iff :
    inNamedOrder mapping pattern = .ok values ↔ named pattern ≠ [] ∧
      List.Forall₂ (fun token value => mapping.get? (keyOf token) = some value)
        (named pattern) values := by
  have each : (fun token value => valueFor mapping pattern token = .ok value) =
      fun token value => mapping.get? (keyOf token) = some value := by
    funext token value
    exact propext valueFor_eq_ok_iff
  unfold inNamedOrder
  split
  · rename_i none
    simp [none]
  · rename_i tokens
    rw [mapM_eq_ok_iff, each]
    exact (and_iff_right tokens).symm

theorem sequence_keyed_eq_ok_iff {arguments : Arguments} (kind : arguments.kind = .keyed) :
    arguments.sequence pattern = .ok values ↔ named pattern ≠ [] ∧
      List.Forall₂ (fun token value => arguments.mapping.get? (keyOf token) = some value)
        (named pattern) values := by
  rw [sequence, kind]
  exact inNamedOrder_eq_ok_iff

/-- For each named token there is a value. -/
theorem length_of_keyed {arguments : Arguments} (kind : arguments.kind = .keyed)
    (listed : arguments.sequence pattern = .ok values) :
    values.length = (named pattern).length :=
  ((sequence_keyed_eq_ok_iff kind).mp listed).2.length_eq.symm

end Order

end Arguments

section Paths
variable {pattern : String} {given : Value}

theorem fillPath_eq (pattern : String) (given : Value) :
    fillPath (.text pattern) given =
      ((Arguments.ofValue given).path pattern.toList).map String.ofList := by
  rw [fillPath, Value.textOrNothing_text]
  show ((Arguments.ofValue given).path pattern.toList >>= fun path =>
    Except.ok (String.ofList path)) = _
  cases (Arguments.ofValue given).path pattern.toList <;> rfl

theorem fillPath_text {path : List Char}
    (filled : (Arguments.ofValue given).path pattern.toList = .ok path) :
    fillPath (.text pattern) given = .ok (String.ofList path) := by
  rw [fillPath_eq, filled]
  rfl

theorem inject_of_sequence {arguments : Arguments} {values : List Value} {pattern : List Char}
    (listed : arguments.sequence pattern = .ok values) :
    arguments.inject pattern = .ok (fill pattern (values.map component)) := by
  rw [Arguments.inject, listed]
  rfl

theorem dropFinalSlash_of_ne {text : List Char} (kept : text.getLast? ≠ some '/') :
    dropFinalSlash text = text := by
  rw [dropFinalSlash, if_neg (by simpa using kept)]

/-- What is built from arguments that are there and can be put in order. -/
theorem path_of_sequence {arguments : Arguments} {values : List Value} {pattern : List Char}
    (full : arguments.isEmpty = false) (listed : arguments.sequence pattern = .ok values) :
    arguments.path pattern =
      .ok (dropFinalSlash (eraseParentheses (fill pattern (values.map component)))) := by
  rw [Arguments.path, full, if_neg Bool.false_ne_true, inject_of_sequence listed]
  rfl

/-- Arguments that are not keyed can always be put in order. -/
theorem sequence_isOk {arguments : Arguments} (pattern : List Char)
    (order : arguments.kind ≠ .keyed) : ∃ values, arguments.sequence pattern = .ok values := by
  cases kind : arguments.kind with
  | empty => exact ⟨[], by rw [Arguments.sequence, kind]⟩
  | positional => exact ⟨arguments.values, by rw [Arguments.sequence, kind]⟩
  | keyed => exact absurd kind order

/-- What a path is built of: a pattern that loses its groups, or one that is filled. -/
theorem path_cases {arguments : Arguments} {pattern path : List Char}
    (built : arguments.path pattern = .ok path) :
    (arguments.isEmpty = true ∧ path = dropGroups pattern) ∨
      (arguments.isEmpty = false ∧ ∃ values, arguments.sequence pattern = .ok values ∧
        path = dropFinalSlash (eraseParentheses (fill pattern (values.map component)))) := by
  cases empty : arguments.isEmpty with
  | true =>
    rw [Arguments.path, if_pos empty, Except.ok.injEq] at built
    exact .inl ⟨rfl, built.symm⟩
  | false =>
    cases listed : arguments.sequence pattern with
    | ok values =>
      rw [path_of_sequence empty listed, Except.ok.injEq] at built
      exact .inr ⟨rfl, values, rfl, built.symm⟩
    | error error =>
      rw [Arguments.path, empty, if_neg Bool.false_ne_true, Arguments.inject, listed] at built
      cases built

theorem path_of_fillPath {url : String} (filled : fillPath (.text pattern) given = .ok url) :
    (Arguments.ofValue given).path pattern.toList = .ok url.toList := by
  rw [fillPath_eq] at filled
  cases built : (Arguments.ofValue given).path pattern.toList with
  | error error =>
    rw [built] at filled
    cases filled
  | ok path =>
    rw [built] at filled
    cases filled
    rw [String.toList_ofList]

theorem sequence_isOk_of_fillPath {url : String} (keyed : (Arguments.ofValue given).kind = .keyed)
    (filled : fillPath (.text pattern) given = .ok url) :
    ∃ values, (Arguments.ofValue given).sequence pattern.toList = .ok values := by
  rcases path_cases (path_of_fillPath filled) with ⟨empty, _⟩ | ⟨_, values, listed, _⟩
  · rw [Arguments.isEmpty, keyed] at empty
    cases empty
  · exact ⟨values, listed⟩

end Paths

/-- A path that has been built from a pattern matches it. The arguments may be too few, so
that groups vanish and slots stay as they are written, or too many; a value only has to
leave something in its slot, and the path must not lose a slash at its end. -/
theorem built_path_is_accepted (pattern : String) (given : Value) (session : Session)
    (sound : session.cache.Sound) (grammatical : Grammatical pattern.toList)
    (free : unmarked pattern.toList = true)
    (keyed : (Arguments.ofValue given).kind = .keyed →
      ∃ url, fillPath (.text pattern) given = .ok url)
    (visible : ∀ values, (Arguments.ofValue given).sequence pattern.toList = .ok values →
      ∀ slot ∈ fillSlots pattern.toList (values.map component),
        ∀ text ∈ slot.filling, Visible text)
    (final : (Arguments.ofValue given).isEmpty = true ∨
      ∀ filled, (Arguments.ofValue given).inject pattern.toList = .ok filled →
        (eraseParentheses filled).getLast? ≠ some '/') :
    ∃ url, fillPath (.text pattern) given = .ok url ∧
      (outcome (Session.testNamed pattern url) session).1 = .ok true := by
  by_cases empty : (Arguments.ofValue given).isEmpty = true
  · have path : (Arguments.ofValue given).path pattern.toList =
        .ok (dropGroups pattern.toList) := by
      rw [Arguments.path, if_pos empty]
    obtain ⟨texts, spelled⟩ := spells_dropGroups pattern.toList
    exact ⟨_, fillPath_text path, answer_testNamed_of_spells grammatical spelled session sound⟩
  · obtain ⟨values, listed⟩ :
        ∃ values, (Arguments.ofValue given).sequence pattern.toList = .ok values := by
      by_cases order : (Arguments.ofValue given).kind = .keyed
      · obtain ⟨url, filled⟩ := keyed order
        exact sequence_isOk_of_fillPath order filled
      · exact sequence_isOk pattern.toList order
    have kept := (final.resolve_left empty) _ (inject_of_sequence listed)
    have path := path_of_sequence (by simpa using empty) listed
    rw [dropFinalSlash_of_ne kept] at path
    have fit : ∀ slot ∈ fillSlots pattern.toList (values.map component),
        ∀ text ∈ slot.filling, Fit text := by
      intro slot member text filled
      have seen := visible values listed slot member text filled
      obtain ⟨value, _, rfl⟩ := List.mem_map.mp (filling_fillSlots _ _ member filled)
      exact fit_encode seen
    obtain ⟨texts, spelled⟩ := spells_fill pattern.toList _ grammatical free fit
    exact ⟨_, fillPath_text path, answer_testNamed_of_spells grammatical spelled session sound⟩

/-- A value with a parenthesis, and a splat slot that gets no value. -/
theorem built_path_is_accepted_partly_filled :
    Cache.Sound {} ∧ Grammatical "/a(/:b)/*c".toList ∧ unmarked "/a(/:b)/*c".toList = true ∧
      ∃ url, fillPath (.text "/a(/:b)/*c") (.list [.text "x(y"]) = .ok url ∧
        (outcome (Session.testNamed "/a(/:b)/*c" url) {}).1 = .ok true := by
  refine ⟨Cache.sound_empty, by decide, by decide, ?_⟩
  apply built_path_is_accepted "/a(/:b)/*c" (.list [.text "x(y"]) {} Cache.sound_empty
  · decide
  · decide
  · intro keyed
    cases keyed
  · intro values listed
    cases listed
    decide
  · refine .inr fun filled injected => ?_
    cases injected
    decide

end RoutePattern
