import RoutePattern.Proofs.ReportAgreement

/-! Keyed arguments. They are put into the order of the named tokens and then given out one by
one like positional ones; the outcome is that every named token is looked up by its name and all
of them are exchanged together. Splat tokens are never reached, so a group goes exactly if it has
one. If a name is absent, the first one in reading order is the error, and nothing but what the
map holds under the names of the named tokens has any influence. -/
namespace RoutePattern
open Pattern

/-- The first of some tokens under whose name a map holds nothing. -/
def Arguments.firstAbsent? (mapping : Entries) (tokens : List (List Char)) : Option (List Char) :=
  tokens.find? fun token => (mapping.get? (keyOf token)).isNone

/-- Two maps that hold the same under the names of these tokens. -/
def Arguments.Agree (mapping other : Entries) (tokens : List (List Char)) : Prop :=
  ∀ token ∈ tokens, mapping.get? (keyOf token) = other.get? (keyOf token)

namespace Pattern

/-- The groups with a splat token. -/
def splatGroups (pattern : List Char) : List Text.Occurrence :=
  (groups pattern).filter fun group =>
    (tokensOf pattern .splat).any fun token => within token group

/-- What a map does to a pattern: groups with a splat token are removed, and each named token
outside of them is exchanged for what the map holds under its name. -/
def keyedEdits (mapping : Entries) (pattern : List Char) : List Edit :=
  (splatGroups pattern).map removal ++
    ((tokensOf pattern .named).filter fun token =>
      !(splatGroups pattern).any (within token)).filterMap fun token =>
        (mapping.get? (Arguments.keyOf token.text)).map fun value =>
          exchange token (component value)

/-- A pattern filled by name. Every named token has the value under its name, also where a name
is repeated; no splat token has any; the groups with a splat token go, and no others; and the
whole is the pattern with all of this done at once. -/
structure FilledByName (mapping : Entries) (pattern : List Char) (texts : List (List Char)) :
    Prop where
  named : ∀ token ∈ tokens pattern, token.kind = .named →
    ∃ value, mapping.get? (Arguments.keyOf token.text) = some value ∧
      FilledWith pattern texts token (component value)
  splat : ∀ token ∈ tokens pattern, token.kind = .splat →
    (⟨token, none⟩ : Slot) ∈ fillSlots pattern texts
  dropped : ∀ group ∈ groups pattern,
    group ∈ droppedGroups pattern (fillSlots pattern texts) ↔
      ∃ token ∈ tokens pattern, token.kind = .splat ∧ within token group = true
  whole : fill pattern texts = rewrite (keyedEdits mapping pattern) pattern

end Pattern

section Order
open Arguments
variable {mapping other : Entries} {pattern token : List Char} {tokens : List (List Char)}

private theorem mem_of_get? {key value : Value} (held : mapping.get? key = some value) :
    ∃ entry ∈ mapping, entry.2 = value := by
  obtain ⟨entry, found, same⟩ := Option.map_eq_some_iff.mp held
  exact ⟨entry, List.mem_of_find?_eq_some found, same⟩

private theorem valueFor_of_none (absent : mapping.get? (keyOf token) = none) :
    valueFor mapping pattern token =
      .error (.missingParameter (String.ofList (key token)) (String.ofList pattern)) := by
  rw [valueFor, absent]

/-- Looking up tokens one after the other stops at the first one without a value. -/
theorem mapM_valueFor_of_absent (absent : firstAbsent? mapping tokens = some token) :
    tokens.mapM (valueFor mapping pattern) =
      .error (.missingParameter (String.ofList (key token)) (String.ofList pattern)) := by
  induction tokens with
  | nil => cases absent
  | cons first tokens ih =>
    rw [firstAbsent?, List.find?_cons] at absent
    rw [List.mapM_cons]
    cases held : mapping.get? (keyOf first) with
    | none =>
      rw [held] at absent
      cases absent
      rw [valueFor_of_none held]
      rfl
    | some value =>
      rw [held] at absent
      rw [valueFor_eq_ok_iff.mpr held]
      show (tokens.mapM (valueFor mapping pattern) >>= fun values =>
        pure (value :: values)) = _
      rw [ih absent]
      rfl

/-- Where no name is absent there is a value for each token. -/
theorem exists_values_of_present (present : firstAbsent? mapping tokens = none) :
    ∃ values, List.Forall₂ (fun token value => mapping.get? (keyOf token) = some value)
      tokens values := by
  rw [firstAbsent?, List.find?_eq_none] at present
  refine ⟨tokens.map fun token => (mapping.get? (keyOf token)).getD .null, ?_⟩
  rw [List.forall₂_map_right_iff, List.forall₂_same]
  intro token member
  have held := present token member
  cases found : mapping.get? (keyOf token) with
  | none => simp [found] at held
  | some value => rfl

private theorem inNamedOrder_of_nil (none : named pattern = []) :
    inNamedOrder mapping pattern = .error (.keyedWithoutNames (String.ofList pattern)) := by
  rw [inNamedOrder, none]

private theorem inNamedOrder_of_absent
    (absent : firstAbsent? mapping (named pattern) = some token) :
    inNamedOrder mapping pattern =
      .error (.missingParameter (String.ofList (key token)) (String.ofList pattern)) := by
  have looked : (named pattern).mapM (valueFor mapping pattern) = _ :=
    mapM_valueFor_of_absent absent
  unfold inNamedOrder
  split
  · rename_i none
    rw [none] at absent
    cases absent
  · exact looked

/-- The order depends on nothing but what is held for the named tokens. -/
theorem inNamedOrder_congr (agree : Agree mapping other (named pattern)) :
    inNamedOrder mapping pattern = inNamedOrder other pattern := by
  have same : firstAbsent? mapping (named pattern) = firstAbsent? other (named pattern) :=
    List.find?_congr fun token member => by rw [agree token member]
  by_cases none : named pattern = []
  · rw [inNamedOrder_of_nil none, inNamedOrder_of_nil none]
  · cases absent : firstAbsent? mapping (named pattern) with
    | some token => rw [inNamedOrder_of_absent absent, inNamedOrder_of_absent (same ▸ absent)]
    | none =>
      obtain ⟨values, held⟩ := exists_values_of_present absent
      have alike : List.Forall₂ (fun token value => other.get? (keyOf token) = some value)
          (named pattern) values := by
        rw [List.forall₂_iff_zip] at held ⊢
        exact ⟨held.1, fun given => (agree _ (List.of_mem_zip given).1).symm.trans (held.2 given)⟩
      rw [inNamedOrder_eq_ok_iff.mpr ⟨none, held⟩, inNamedOrder_eq_ok_iff.mpr ⟨none, alike⟩]

end Order

section Paths
open Arguments
variable {pattern : String} {given other : Value} {token : List Char}

private theorem path_of_sequence_error {arguments : Arguments} {text : List Char} {error : Error}
    (full : arguments.isEmpty = false) (failed : arguments.sequence text = .error error) :
    arguments.path text = .error error := by
  rw [Arguments.path, full, if_neg Bool.false_ne_true, Arguments.inject, failed]
  rfl

private theorem isEmpty_of_keyed {arguments : Arguments} (kind : arguments.kind = .keyed) :
    arguments.isEmpty = false := by
  rw [Arguments.isEmpty, kind]
  rfl

/-- What goes wrong with putting keyed arguments in order goes wrong with the path. -/
theorem fillPath_of_inNamedOrder {error : Error} (kind : (ofValue given).kind = .keyed)
    (failed : inNamedOrder (ofValue given).mapping pattern.toList = .error error) :
    fillPath (.text pattern) given = .error error := by
  have sequence : (ofValue given).sequence pattern.toList = .error error := by
    rw [Arguments.sequence, kind]
    exact failed
  rw [fillPath_eq, path_of_sequence_error (isEmpty_of_keyed kind) sequence]
  rfl

/-- A path depends on nothing but what is held for the named tokens. -/
theorem fillPath_congr (kind : (ofValue given).kind = .keyed)
    (otherKind : (ofValue other).kind = .keyed)
    (agree : Agree (ofValue given).mapping (ofValue other).mapping (named pattern.toList)) :
    fillPath (.text pattern) given = fillPath (.text pattern) other := by
  have same : (ofValue given).sequence pattern.toList =
      (ofValue other).sequence pattern.toList := by
    rw [Arguments.sequence, Arguments.sequence, kind, otherKind]
    exact inNamedOrder_congr agree
  rw [fillPath_eq, fillPath_eq, Arguments.path, Arguments.path, isEmpty_of_keyed kind,
    isEmpty_of_keyed otherKind, Arguments.inject, Arguments.inject, same]

/-- Where every value says something, the list of missing parameters begins with the first named
token whose name is absent. -/
theorem head?_missing {arguments : Arguments} {text : List Char} (kind : arguments.kind = .keyed)
    (absent : firstAbsent? arguments.mapping (named text) = some token)
    (telling : ∀ entry ∈ arguments.mapping, entry.2 ≠ .null ∧ entry.2 ≠ .text "") :
    ((Report.make text arguments).missing.map Parameter.token).head? = some token := by
  have missing (other : List Char) : (Report.entry text arguments other).isMissing =
      (arguments.mapping.get? (keyOf other)).isNone := by
    rw [Bool.eq_iff_iff, Report.isMissing_entry_iff, Report.valuesOf, kind,
      Option.isNone_iff_eq_none]
    constructor
    · rintro (nothing | blank | blank)
      · exact nothing
      · obtain ⟨entry, member, same⟩ := mem_of_get? blank
        exact absurd same (telling entry member).1
      · obtain ⟨entry, member, same⟩ := mem_of_get? blank
        exact absurd same (telling entry member).2
    · exact .inl
  have listed : (Report.make text arguments).missing.map Parameter.token =
      (parameters text).filter fun other => (arguments.mapping.get? (keyOf other)).isNone := by
    rw [Report.missing, Report.parameters_make, List.filter_map, List.map_map]
    simp only [Function.comp_def, missing]
    exact List.map_id _
  rw [firstAbsent?] at absent
  rw [listed, List.head?_filter, parameters, List.find?_append, absent]
  rfl

end Paths

namespace Pattern
open Arguments

section Edits
variable {mapping : Entries} {pattern : List Char} {values : List Value}

/-- As many texts as there are named tokens fill these and no others. -/
theorem filledTokens_named (pattern : List Char) :
    filledTokens pattern (tokensOf pattern .named).length = tokensOf pattern .named := by
  rw [filledTokens, List.take_length, Nat.sub_self, List.take_zero, ite_self, List.append_nil]

private theorem incompleteGroups_named (pattern : List Char) :
    incompleteGroups pattern (tokensOf pattern .named).length = splatGroups pattern := by
  rw [incompleteGroups, splatGroups, filledTokens_named]
  apply List.filter_congr
  intro group _
  rw [tokensOf, tokensOf, List.any_filter, Bool.eq_iff_iff, List.any_eq_true, List.any_eq_true]
  apply exists_congr
  intro token
  apply and_congr_right
  intro member
  have among : ((tokens pattern).filter (·.kind == .named)).contains token =
      (token.kind == .named) := by
    rw [Bool.eq_iff_iff, List.contains_iff_mem, List.mem_filter]
    exact and_iff_right member
  rw [among]
  cases token.kind <;> simp

/-- Exchanging tokens for the values beside them is looking each of them up. -/
theorem exchanges_zip {tokens : List Token}
    (held : List.Forall₂ (fun token value => mapping.get? (keyOf token.text) = some value)
      tokens values) (keep : Token → Bool) :
    (((tokens.zip values).map (Prod.map id component)).filter fun entry => keep entry.1).map
        (fun entry => exchange entry.1 entry.2) =
      (tokens.filter keep).filterMap fun token =>
        (mapping.get? (keyOf token.text)).map fun value => exchange token (component value) := by
  induction held with
  | nil => rfl
  | @cons token value tokens values here _ ih =>
    rw [List.zip_cons_cons, List.map_cons, List.filter_cons, List.filter_cons]
    by_cases kept : keep token = true
    · simpa [kept, here] using ih
    · simpa [kept] using ih

end Edits

section Filling
variable {arguments : Arguments} {pattern : List Char} {values : List Value}

private theorem positionalEdits_of_keyed (kind : arguments.kind = .keyed)
    (listed : arguments.sequence pattern = .ok values) :
    positionalEdits pattern (values.map component) = keyedEdits arguments.mapping pattern := by
  have held := ((sequence_keyed_eq_ok_iff kind).mp listed).2
  rw [named, List.forall₂_map_left_iff] at held
  rw [positionalEdits, keyedEdits, standing, dealt_component, givenValues_of_keyed kind listed,
    List.length_map, length_values_of_keyed kind listed, incompleteGroups_named]
  exact congrArg _ (exchanges_zip held fun token => !(splatGroups pattern).any (within token))

private theorem filledByName_of_keyed (kind : arguments.kind = .keyed)
    (listed : arguments.sequence pattern = .ok values) :
    FilledByName arguments.mapping pattern (values.map component) := by
  constructor
  case named =>
    intro token member named
    obtain ⟨value, given⟩ := exists_given_of_keyed kind listed member named
    refine ⟨value, ?_, filledWith_of_given given⟩
    rw [givenValues_of_keyed kind listed] at given
    exact get?_of_keyed kind listed given
  case splat =>
    intro token member splat
    exact (open_iff_of_keyed kind listed member).mpr splat
  case dropped =>
    intro group among
    rw [droppedGroups_fillSlots colon_not_mem_component, List.length_map,
      length_values_of_keyed kind listed, incompleteGroups_named, splatGroups, List.mem_filter,
      List.any_eq_true, and_iff_right among]
    simp only [tokensOf, List.mem_filter, beq_iff_eq, and_assoc]
  case whole =>
    rw [fill_eq_rewrite pattern _ colon_not_mem_component, positionalEdits_of_keyed kind listed]

end Filling

end Pattern

/-- Keyed arguments in closed form. Without named tokens there is an error, and if one of their
names is absent there is another one, which names the first such token; if every value says
something, the missing parameters of the report begin with the same token. Otherwise the path is
built: all named tokens are filled by name at once, no splat token is filled, and a group goes
exactly if it has one. Maps that agree on the names of the named tokens give the same path or the
same error. -/
theorem keyed_filling_is_simultaneous (pattern : String) (given : Value)
    (kind : (Arguments.ofValue given).kind = .keyed) :
    (named pattern.toList = [] →
      fillPath (.text pattern) given = .error (.keyedWithoutNames pattern) ∧
        (Error.keyedWithoutNames pattern).notice.kind = .invalidArgument) ∧
    (∀ token,
      Arguments.firstAbsent? (Arguments.ofValue given).mapping (named pattern.toList) =
          some token →
        fillPath (.text pattern) given =
            .error (.missingParameter (String.ofList (key token)) pattern) ∧
          (Error.missingParameter (String.ofList (key token)) pattern).notice.kind =
            .missingParameter ∧
          (Error.missingParameter (String.ofList (key token)) pattern).notice.name =
            some (String.ofList (key token)) ∧
          ((∀ entry ∈ (Arguments.ofValue given).mapping,
              entry.2 ≠ .null ∧ entry.2 ≠ .text "") →
            ∃ report, reportOn (.text pattern) given = .ok report ∧
              (report.missing.map Parameter.token).head? = some token)) ∧
    (named pattern.toList ≠ [] →
      Arguments.firstAbsent? (Arguments.ofValue given).mapping (named pattern.toList) = none →
        ∃ values, (Arguments.ofValue given).sequence pattern.toList = .ok values ∧
          fillPath (.text pattern) given = .ok (String.ofList (dropFinalSlash
            (eraseParentheses (fill pattern.toList (values.map component))))) ∧
          FilledByName (Arguments.ofValue given).mapping pattern.toList
            (values.map component)) ∧
    ∀ other, (Arguments.ofValue other).kind = .keyed →
      Arguments.Agree (Arguments.ofValue given).mapping (Arguments.ofValue other).mapping
          (named pattern.toList) →
        fillPath (.text pattern) given = fillPath (.text pattern) other := by
  refine ⟨fun none => ⟨?_, rfl⟩, fun token absent => ⟨?_, rfl, rfl, fun telling => ?_⟩,
    fun some present => ?_, fun other otherKind agree => ?_⟩
  · have failed : Arguments.inNamedOrder (Arguments.ofValue given).mapping pattern.toList = _ :=
      inNamedOrder_of_nil none
    rw [String.ofList_toList] at failed
    exact fillPath_of_inNamedOrder kind failed
  · have failed := inNamedOrder_of_absent absent
    rw [String.ofList_toList] at failed
    exact fillPath_of_inNamedOrder kind failed
  · exact ⟨_, reportOn_text pattern given, head?_missing kind absent telling⟩
  · obtain ⟨values, held⟩ := exists_values_of_present present
    have listed := (Arguments.sequence_keyed_eq_ok_iff kind).mpr ⟨some, held⟩
    exact ⟨values, listed, fillPath_text (path_of_sequence (isEmpty_of_keyed kind) listed),
      filledByName_of_keyed kind listed⟩
  · exact fillPath_congr kind otherKind agree

/-- A name is repeated, a colon stands for itself, values look like tokens, and of two groups one
has a splat token; without the second name nothing is built. -/
theorem keyed_filling_is_simultaneous_repeated :
    (Arguments.ofValue (.map [(.text "c", .int 5), (.text "b", .text "u v"),
        (.text "a", .text ":b*r")])).kind = .keyed ∧
      (∃ values, (Arguments.ofValue (.map [(.text "c", .int 5), (.text "b", .text "u v"),
          (.text "a", .text ":b*r")])).sequence "/*r/:a:/(/:b)(/*c)/:a".toList = .ok values ∧
        FilledByName [(.text "c", .int 5), (.text "b", .text "u v"), (.text "a", .text ":b*r")]
          "/*r/:a:/(/:b)(/*c)/:a".toList (values.map component) ∧
        fillPath (.text "/*r/:a:/(/:b)(/*c)/:a") (.map [(.text "c", .int 5),
          (.text "b", .text "u v"), (.text "a", .text ":b*r")]) =
            .ok "/*r/%3Ab*r://u%20v/%3Ab*r") ∧
      fillPath (.text "/*r/:a:/(/:b)(/*c)/:a") (.map [(.text "c", .int 5),
        (.text "a", .text ":b*r")]) =
          .error (.missingParameter "b" "/*r/:a:/(/:b)(/*c)/:a") := by
  have names : named "/*r/:a:/(/:b)(/*c)/:a".toList =
      [":a".toList, ":b".toList, ":a".toList] := by decide
  have filled := (keyed_filling_is_simultaneous "/*r/:a:/(/:b)(/*c)/:a" (.map [(.text "c", .int 5),
    (.text "b", .text "u v"), (.text "a", .text ":b*r")]) rfl).2.2.1
  have failed := (keyed_filling_is_simultaneous "/*r/:a:/(/:b)(/*c)/:a" (.map [(.text "c", .int 5),
    (.text "a", .text ":b*r")]) rfl).2.1 ":b".toList
  rw [names] at filled failed
  refine ⟨rfl, ?_, ?_⟩
  · obtain ⟨values, listed, path, byName⟩ := filled (by simp) (by
      simp [Arguments.firstAbsent?, Arguments.ofValue, Entries.get?, Arguments.keyOf, key])
    have order : (Arguments.ofValue (.map [(.text "c", .int 5), (.text "b", .text "u v"),
        (.text "a", .text ":b*r")])).sequence "/*r/:a:/(/:b)(/*c)/:a".toList =
        .ok [.text ":b*r", .text "u v", .text ":b*r"] := by
      refine (Arguments.sequence_keyed_eq_ok_iff rfl).mpr ⟨by decide, ?_⟩
      rw [names]
      refine .cons ?_ (.cons ?_ (.cons ?_ .nil)) <;>
        simp [Arguments.ofValue, Entries.get?, Arguments.keyOf, key]
    have known := listed
    rw [order, Except.ok.injEq] at known
    subst known
    exact ⟨_, listed, byName, path⟩
  · refine (failed ?_).1
    simp [Arguments.firstAbsent?, Arguments.ofValue, Entries.get?, Arguments.keyOf, key]

end RoutePattern
