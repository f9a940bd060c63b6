import RoutePattern.Proofs.ParameterNames

/-! Positional arguments turned into a map. A report reads values by name in any case, so it is
the same for a list and for the map, where tokens behind the last value have the absent value and
those without a list have none. Filling gives the values of a list out one after the other, and
looks up those of a map; if only named tokens are there, all of them have a value, and no name is
repeated, both give each token the same one. -/
namespace RoutePattern
open Pattern Arguments

section Forms
variable {values : List Value} {entries : Entries}

private theorem ofValue_list (present : values ≠ []) :
    ofValue (.list values) = { kind := .positional, values := values } := by
  cases values with
  | nil => exact absurd rfl present
  | cons value values => rfl

private theorem ofValue_map (present : entries ≠ []) :
    ofValue (.map entries) = { kind := .keyed, mapping := entries } := by
  cases entries with
  | nil => exact absurd rfl present
  | cons entry entries => rfl

/-- A report reads a map as it is, also an empty one, which counts as no arguments. -/
theorem valuesOf_map (pattern : List Char) (entries : Entries) :
    Report.valuesOf pattern (ofValue (.map entries)) = entries := by
  cases entries <;> rfl

end Forms

section Reports
variable {tokens : List (List Char)} {token pattern : List Char} {entries : Entries}

/-- Without values every token has the absent one under its name, also where names repeat. -/
theorem get?_insertAll_nothing (member : token ∈ tokens ∨ entries.get? (keyOf token) = some .null) :
    (entries.insertAll (pairUp tokens [])).get? (keyOf token) = some .null := by
  induction tokens generalizing entries with
  | nil => exact member.resolve_left List.not_mem_nil
  | cons first tokens ih =>
    rw [pairUp_cons, Entries.insertAll, List.foldl_cons]
    apply ih
    rw [get?_insert_keyOf]
    by_cases same : key token = key first
    · -- Whatever stood under the name, it is written over with the absent value.
      exact .inr (if_pos same)
    · rw [if_neg same]
      refine member.imp_left fun listed => (List.mem_cons.mp listed).resolve_left ?_
      rintro rfl
      exact same rfl

/-- It makes no difference to a report whether a value is absent or there is none. -/
theorem parameterOf_null {groups : List (List Char)}
    (held : entries.get? (keyOf token) = some .null) :
    Report.parameterOf groups entries token = Report.parameterOf groups [] token := by
  simp only [Report.parameterOf, held, Entries.get?_nil]

/-- A report on a list is the report on the map that it is turned into. -/
theorem make_byName (pattern : List Char) (values : List Value) :
    Report.make pattern (ofValue (.map (byName pattern values))) =
      Report.make pattern (ofValue (.list values)) := by
  rw [Report.make, valuesOf_map]
  cases values with
  | cons value values => rfl
  | nil =>
    have same : ∀ token ∈ parameters pattern,
        Report.parameterOf ((groups pattern).map Text.Occurrence.text) (byName pattern []) token =
          Report.parameterOf ((groups pattern).map Text.Occurrence.text) [] token :=
      fun token member => parameterOf_null (get?_insertAll_nothing (.inl member))
    rw [List.map_congr_left same]
    rfl

end Reports

namespace Pattern

section Filling
variable {pattern : List Char} {texts : List (List Char)} {count : Nat}

private theorem length_named (pattern : List Char) :
    (named pattern).length = (tokensOf pattern .named).length := List.length_map _

private theorem tokensOf_splat_of_none (none : splats pattern = []) :
    tokensOf pattern .splat = [] :=
  List.map_eq_nil_iff.mp none

private theorem filledTokens_of_enough (none : splats pattern = [])
    (enough : (named pattern).length ≤ count) :
    filledTokens pattern count = tokensOf pattern .named := by
  rw [length_named] at enough
  rw [filledTokens, tokensOf_splat_of_none none, List.take_of_length_le enough, List.take_nil,
    ite_self, List.append_nil]

private theorem zip_take_length {α β : Type} (items : List α) (others : List β) :
    items.zip (others.take items.length) = items.zip others := by
  induction items generalizing others with
  | nil => rfl
  | cons item items ih =>
    cases others with
    | nil => rfl
    | cons other others =>
      rw [List.length_cons, List.take_succ_cons, List.zip_cons_cons, List.zip_cons_cons, ih]

private theorem dealt_take (none : splats pattern = []) (texts : List (List Char)) :
    dealt pattern (texts.take (named pattern).length) = dealt pattern texts := by
  rw [dealt, dealt, tokensOf_splat_of_none none, List.zip_nil_left, List.zip_nil_left,
    length_named, zip_take_length]

/-- If there are no splat tokens, what is left over when all named tokens have a text is lost. -/
theorem fill_take (none : splats pattern = []) (enough : (named pattern).length ≤ texts.length)
    (free : ∀ text ∈ texts, ':' ∉ text) :
    fill pattern (texts.take (named pattern).length) = fill pattern texts := by
  have alsoFree : ∀ text ∈ texts.take (named pattern).length, ':' ∉ text :=
    fun text member => free text (List.mem_of_mem_take member)
  have count : (texts.take (named pattern).length).length = (named pattern).length := by
    rw [List.length_take, Nat.min_eq_left enough]
  have incomplete : incompleteGroups pattern (named pattern).length =
      incompleteGroups pattern texts.length := by
    rw [incompleteGroups, incompleteGroups, filledTokens_of_enough none (Nat.le_refl _),
      filledTokens_of_enough none enough]
  rw [fill_eq_rewrite pattern _ alsoFree, fill_eq_rewrite pattern _ free, positionalEdits,
    positionalEdits, standing, standing, count, incomplete, dealt_take none texts]

end Filling

end Pattern

section Paths
variable {pattern : List Char} {values : List Value}

/-- Under distinct names each named token finds the value at its position. -/
theorem forall₂_byName (distinct : DistinctNames pattern)
    (enough : (named pattern).length ≤ values.length) :
    List.Forall₂ (fun token value => (byName pattern values).get? (keyOf token) = some value)
      (named pattern) (values.take (named pattern).length) := by
  rw [List.forall₂_iff_zip]
  refine ⟨by rw [List.length_take, Nat.min_eq_left enough], fun {text value} given => ?_⟩
  rw [zip_take_length, named, List.zip_map_left] at given
  obtain ⟨⟨token, own⟩, listed, same⟩ := List.mem_map.mp given
  cases same
  exact get?_byName_of_zip distinct (mem_zip_of_given (List.mem_append_left _ listed))

/-- A pattern with tokens gives the map that values are turned into some entries. -/
theorem byName_ne_nil (some : named pattern ≠ []) (values : List Value) :
    byName pattern values ≠ [] := by
  obtain ⟨token, tokens, first⟩ := List.exists_cons_of_ne_nil some
  have member : token ∈ parameters pattern := by
    rw [parameters, first]
    exact List.mem_cons_self
  have key := (mem_keys_byName pattern values).mpr ⟨token, member, rfl⟩
  exact fun nothing => by simp [nothing] at key

end Paths

/-- Positional arguments mean the same as the map they are turned into. A report on them is the
same, whatever the pattern looks like and however many values there are; and if the pattern has
named tokens only, with distinct names and a value for each of them, so is the path. -/
theorem arguments_by_name_mean_the_same (pattern : String) (values : List Value) :
    ∃ entries, argumentsByName (.text pattern) (.list values) = .ok entries ∧
      (∃ report, reportOn (.text pattern) (.list values) = .ok report ∧
        reportOn (.text pattern) (.map entries) = .ok report) ∧
      (splats pattern.toList = [] → named pattern.toList ≠ [] → DistinctNames pattern.toList →
        (named pattern.toList).length ≤ values.length →
          ∃ path, fillPath (.text pattern) (.list values) = .ok path ∧
            fillPath (.text pattern) (.map entries) = .ok path) := by
  have items : (Value.list values).itemsOrNothing = .ok values := by cases values <;> rfl
  refine ⟨_, argumentsByName_text items pattern, ⟨_, reportOn_text pattern _, ?_⟩,
    fun none some distinct enough => ?_⟩
  · rw [reportOn_text, make_byName]
  · have present : values ≠ [] := by
      rintro rfl
      exact some (List.eq_nil_of_length_eq_zero (Nat.le_zero.mp enough))
    have positional : (ofValue (.list values)).sequence pattern.toList = .ok values := by
      rw [ofValue_list present]
      rfl
    have keyed : (ofValue (.map (byName pattern.toList values))).sequence pattern.toList =
        .ok (values.take (named pattern.toList).length) := by
      rw [ofValue_map (byName_ne_nil some values)]
      exact (sequence_keyed_eq_ok_iff rfl).mpr ⟨some, forall₂_byName distinct enough⟩
    have full : (ofValue (.list values)).isEmpty = false := by
      rw [ofValue_list present]
      rfl
    have alsoFull : (ofValue (.map (byName pattern.toList values))).isEmpty = false := by
      rw [ofValue_map (byName_ne_nil some values)]
      rfl
    refine ⟨_, fillPath_text (path_of_sequence full positional), ?_⟩
    rw [fillPath_text (path_of_sequence alsoFull keyed), List.map_take,
      fill_take none (by rwa [List.length_map]) colon_not_mem_component]

/-- An absent value keeps its group, and a value behind those of the tokens is lost. -/
theorem arguments_by_name_mean_the_same_surplus :
    splats "/:a(/:b)".toList = [] ∧ named "/:a(/:b)".toList ≠ [] ∧
      DistinctNames "/:a(/:b)".toList ∧ (named "/:a(/:b)".toList).length ≤ 3 ∧
      argumentsByName (.text "/:a(/:b)") (.list [.text ":b", .null, .int 7]) =
        .ok [(.text "a", .text ":b"), (.text "b", .null)] ∧
      (∃ report,
        reportOn (.text "/:a(/:b)") (.list [.text ":b", .null, .int 7]) = .ok report ∧
          reportOn (.text "/:a(/:b)") (.map [(.text "a", .text ":b"), (.text "b", .null)]) =
            .ok report) ∧
      fillPath (.text "/:a(/:b)") (.list [.text ":b", .null, .int 7]) = .ok "/%3Ab" ∧
      fillPath (.text "/:a(/:b)") (.map [(.text "a", .text ":b"), (.text "b", .null)]) =
        .ok "/%3Ab" := by
  have none : splats "/:a(/:b)".toList = [] := by decide
  have some : named "/:a(/:b)".toList ≠ [] := by decide
  have distinct : DistinctNames "/:a(/:b)".toList := by decide
  have enough : (named "/:a(/:b)".toList).length ≤ 3 := by decide
  have entries : argumentsByName (.text "/:a(/:b)") (.list [.text ":b", .null, .int 7]) =
      .ok [(.text "a", .text ":b"), (.text "b", .null)] := by
    have names : parameters "/:a(/:b)".toList = [":a".toList, ":b".toList] := by decide
    rw [argumentsByName_text rfl, byName, names]
    simp [pairUp, Entries.ofPairs, Entries.insertAll, Entries.insert, keyOf, key]
  have filled : fillPath (.text "/:a(/:b)") (.list [.text ":b", .null, .int 7]) =
      .ok "/%3Ab" := by rfl
  obtain ⟨_, given, reports, paths⟩ :=
    arguments_by_name_mean_the_same "/:a(/:b)" [.text ":b", .null, .int 7]
  rw [entries, Except.ok.injEq] at given
  subst given
  obtain ⟨path, built, alsoBuilt⟩ := paths none some distinct enough
  rw [filled, Except.ok.injEq] at built
  subst built
  exact ⟨none, some, distinct, enough, entries, reports, filled, alsoBuilt⟩

end RoutePattern
