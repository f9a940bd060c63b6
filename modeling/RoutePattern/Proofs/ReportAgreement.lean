import RoutePattern.Operations
import RoutePattern.Proofs.GivenValues

/-! Reports and filled patterns. A report says which parameters would be left without a value,
filling leaves slots open; they agree where a value says something. A value that says nothing
counts as missing in a report, but fills its token with the empty text all the same, and keyed
arguments never fill a splat token, though a report lists what they hold for it. -/
namespace RoutePattern.Report
open Pattern Arguments

/-- What a report says of a parameter. -/
def entry (pattern : List Char) (arguments : Arguments) (token : List Char) : Parameter :=
  parameterOf ((groups pattern).map Text.Occurrence.text) (valuesOf pattern arguments) token

section Entries
variable {pattern : List Char} {arguments : Arguments} {token : Token} {text : List Char}
  {group : Text.Occurrence}

theorem parameters_make (pattern : List Char) (arguments : Arguments) :
    (make pattern arguments).parameters =
      (Pattern.parameters pattern).map (entry pattern arguments) := rfl

/-- A report lists a parameter where its entry meets the condition of the list. -/
theorem mem_map_token_filter (condition : Parameter → Bool) :
    text ∈ (((make pattern arguments).parameters.filter condition).map Parameter.token) ↔
      text ∈ Pattern.parameters pattern ∧ condition (entry pattern arguments text) = true := by
  rw [parameters_make, List.filter_map, List.map_map, List.mem_map]
  constructor
  · rintro ⟨other, member, rfl⟩
    exact List.mem_filter.mp member
  · exact fun both => ⟨text, List.mem_filter.mpr both, rfl⟩

private theorem same_blank_iff {value : Value} :
    value.same (.text "") = true ↔ value = .text "" := by
  cases value <;> simp [Value.same, Value.isNull, Value.isInt, Value.isFloat]

/-- A parameter has no value if there is none under its name, or one that says nothing. -/
theorem isMissing_entry_iff : (entry pattern arguments text).isMissing = true ↔
    (valuesOf pattern arguments).get? (keyOf text) = none ∨
      (valuesOf pattern arguments).get? (keyOf text) = some .null ∨
      (valuesOf pattern arguments).get? (keyOf text) = some (.text "") := by
  rw [Parameter.isMissing, same_blank_iff, entry, parameterOf]
  split
  · rename_i none
    simp [none]
  · rename_i null
    simp [null]
  · rename_i value notNull held
    simp [held, show value ≠ .null from notNull]

/-- A parameter with a value has the one under its name. -/
theorem get?_of_entry (present : (entry pattern arguments text).isMissing = false) :
    (valuesOf pattern arguments).get? (keyOf text) = some (entry pattern arguments text).value := by
  have blank : (Value.text "").same (.text "") = true := Value.same_text_iff.mpr rfl
  rw [Parameter.isMissing, entry, parameterOf] at present
  rw [entry, parameterOf]
  split at present
  · rw [blank] at present
    cases present
  · rw [blank] at present
    cases present
  · rename_i value notNull held
    simp only [held]

private theorem occursIn_iff {part text : List Char} :
    occursIn part text = true ↔ part <:+: text := by
  induction text with
  | nil => simp [occursIn]
  | cons char text ih =>
    rw [occursIn, Bool.or_eq_true, List.isPrefixOf_iff_prefix, ih, List.infix_cons_iff]

/-- A token within a group is an optional one. -/
theorem optional_of_within (arguments : Arguments) (member : token ∈ tokens pattern)
    (listed : group ∈ groups pattern) (inside : within token group = true) :
    (entry pattern arguments token.text).optional = true :=
  List.any_eq_true.mpr ⟨group.text, List.mem_map_of_mem listed,
    occursIn_iff.mpr (infix_of_within member listed inside)⟩

/-- An open token that is required remains. -/
theorem remains_of_required {texts : List (List Char)}
    (empty : (⟨token, none⟩ : Slot) ∈ fillSlots pattern texts)
    (required : (entry pattern arguments token.text).required = true) :
    Remains pattern texts token := by
  refine remains_iff.mpr ⟨empty, fun group listed => ?_⟩
  by_contra inside
  rw [Bool.not_eq_false] at inside
  have optional := optional_of_within arguments (token_mem_of_slot empty) listed inside
  rw [Parameter.required, optional] at required
  cases required

private theorem mem_missing_iff (member : token ∈ tokens pattern) :
    token.text ∈ (make pattern arguments).missing.map Parameter.token ↔
      (entry pattern arguments token.text).isMissing = true := by
  rw [missing, mem_map_token_filter]
  exact and_iff_right (text_mem_parameters member)

end Entries

/-- A report agrees with what filling makes of a pattern. The missing parameters are the open
tokens; every other token is filled with the value that is reported; a missing token that is
required stays as it is written, and one within a group goes with the group. -/
structure Agrees (report : Report) (pattern : List Char) (texts : List (List Char)) : Prop where
  listed : report.parameters.map Parameter.token = Pattern.parameters pattern
  missing : ∀ token ∈ tokens pattern,
    token.text ∈ report.missing.map Parameter.token ↔
      (⟨token, none⟩ : Slot) ∈ fillSlots pattern texts
  filled : ∀ token ∈ tokens pattern, token.text ∉ report.missing.map Parameter.token →
    ∃ parameter ∈ report.parameters, parameter.token = token.text ∧
      FilledWith pattern texts token (component parameter.value)
  required : ∀ token ∈ tokens pattern, token.text ∈ report.missingRequired.map Parameter.token →
    ComesOutAs pattern texts token.start token.stop token.text
  optional : ∀ token ∈ tokens pattern, token.text ∈ report.missing.map Parameter.token →
    ∀ group ∈ groups pattern, within token group = true →
      group ∈ droppedGroups pattern (fillSlots pattern texts) ∧
        ComesOutAs pattern texts group.start group.stop []

section Positional
variable {pattern : List Char} {arguments : Arguments} {token : Token}

/-- A token is given one of the values, or it is open and has the absent value under its name. -/
theorem positional_cases (kind : arguments.kind = .positional) (distinct : DistinctNames pattern)
    (colons : looseColon pattern = false) (member : token ∈ tokens pattern) :
    (∃ value ∈ arguments.values, (token, value) ∈ givenValues pattern arguments.values ∧
      (valuesOf pattern arguments).get? (keyOf token.text) = some value) ∨
    ((⟨token, none⟩ : Slot) ∈ fillSlots pattern (arguments.values.map component) ∧
      (valuesOf pattern arguments).get? (keyOf token.text) = some .null) := by
  rw [valuesOf, kind]
  rcases mem_zip_or_mem_drop arguments.values (mem_reportOrder.mpr member) with
    ⟨value, given⟩ | behind
  · refine .inl ⟨value, (List.of_mem_zip given).2, ?_, get?_byName_of_zip distinct given⟩
    rwa [givenValues_eq_zip colons]
  · refine .inr ⟨open_of_not_given member ?_, get?_byName_of_drop distinct behind⟩
    intro value given
    rw [givenValues_eq_zip colons] at given
    exact not_mem_zip_of_mem_drop (nodup_reportOrder distinct) behind given

/-- Where every value says something, a token without a value is an open one. -/
theorem isMissing_iff_open (kind : arguments.kind = .positional) (distinct : DistinctNames pattern)
    (colons : looseColon pattern = false)
    (telling : ∀ value ∈ arguments.values, value ≠ .null ∧ value ≠ .text "")
    (member : token ∈ tokens pattern) :
    (entry pattern arguments token.text).isMissing = true ↔
      (⟨token, none⟩ : Slot) ∈ fillSlots pattern (arguments.values.map component) := by
  rw [isMissing_entry_iff]
  rcases positional_cases kind distinct colons member with
    ⟨value, listed, given, held⟩ | ⟨empty, held⟩
  · have full := (filledWith_of_given given).1
    constructor
    · simp [held, telling value listed]
    · intro empty
      cases slot_unique empty full rfl
  · simp [held, empty]

private theorem filledWith_entry (kind : arguments.kind = .positional)
    (distinct : DistinctNames pattern)
    (colons : looseColon pattern = false) (member : token ∈ tokens pattern)
    (present : (entry pattern arguments token.text).isMissing = false) :
    FilledWith pattern (arguments.values.map component) token
      (component (entry pattern arguments token.text).value) := by
  have reported := get?_of_entry present
  rcases positional_cases kind distinct colons member with ⟨value, _, given, held⟩ | ⟨_, held⟩
  · rw [held, Option.some_inj] at reported
    rw [← reported]
    exact filledWith_of_given given
  · rw [isMissing_entry_iff.mpr (.inr (.inl held))] at present
    cases present

end Positional

end RoutePattern.Report

namespace RoutePattern
open Pattern

theorem reportOn_text (pattern : String) (given : Value) :
    reportOn (.text pattern) given =
      .ok (Report.make pattern.toList (Arguments.ofValue given)) := by
  rw [reportOn, Value.textOrNothing_text]
  rfl

/-- A report agrees with the filled pattern under positional arguments, if all names are
distinct, every colon belongs to a named token, and every value says something. -/
theorem report_agrees_with_positional_filling (pattern : String) (given : Value)
    (kind : (Arguments.ofValue given).kind = .positional)
    (distinct : DistinctNames pattern.toList) (colons : looseColon pattern.toList = false)
    (telling : ∀ value ∈ (Arguments.ofValue given).values, value ≠ .null ∧ value ≠ .text "") :
    ∃ report, reportOn (.text pattern) given = .ok report ∧
      (Arguments.ofValue given).inject pattern.toList =
        .ok (fill pattern.toList ((Arguments.ofValue given).values.map component)) ∧
      report.Agrees pattern.toList ((Arguments.ofValue given).values.map component) := by
  have listed : (Arguments.ofValue given).sequence pattern.toList =
      .ok (Arguments.ofValue given).values := by
    rw [Arguments.sequence, kind]
  have empty (token : Token) (member : token ∈ tokens pattern.toList) :=
    Report.isMissing_iff_open kind distinct colons telling member
  refine ⟨_, reportOn_text pattern given, inject_of_sequence listed, ?_⟩
  constructor
  case listed =>
    rw [Report.parameters_make, List.map_map]
    exact List.map_id _
  case missing =>
    intro token member
    rw [Report.mem_missing_iff member, empty token member]
  case filled =>
    intro token member present
    rw [Report.mem_missing_iff member, Bool.not_eq_true] at present
    refine ⟨_, List.mem_map_of_mem (text_mem_parameters member), rfl, ?_⟩
    exact Report.filledWith_entry kind distinct colons member present
  case required =>
    intro token member required
    rw [Report.missingRequired, Report.mem_map_token_filter, Bool.and_eq_true] at required
    obtain ⟨_, required, absent⟩ := required
    exact comesOutAs_of_remains colon_not_mem_component
      (Report.remains_of_required ((empty token member).mp absent) required)
  case optional =>
    intro token member absent group among inside
    rw [Report.mem_missing_iff member, empty token member] at absent
    exact comesOutAs_of_open colon_not_mem_component among absent inside

/-- A splat token in front, a group that a value is there for, one without, and a token behind
that is left without a value as well. -/
theorem report_agrees_with_positional_filling_short :
    DistinctNames "/*r/:a(/x:b)(/*c)/*d".toList ∧
      ∃ report, reportOn (.text "/*r/:a(/x:b)(/*c)/*d") (.list [.text "*c", .int 0, .text "("]) =
          .ok report ∧
        (Arguments.ofValue (.list [.text "*c", .int 0, .text "("])).inject
            "/*r/:a(/x:b)(/*c)/*d".toList =
          .ok (fill "/*r/:a(/x:b)(/*c)/*d".toList
            ([.text "*c", .int 0, .text "("].map component)) ∧
        report.Agrees "/*r/:a(/x:b)(/*c)/*d".toList
          ([.text "*c", .int 0, .text "("].map component) := by
  have distinct : DistinctNames "/*r/:a(/x:b)(/*c)/*d".toList := by decide
  refine ⟨distinct, ?_⟩
  apply report_agrees_with_positional_filling "/*r/:a(/x:b)(/*c)/*d"
    (.list [.text "*c", .int 0, .text "("]) rfl distinct
  · decide
  · intro value listed
    simp only [Arguments.ofValue, List.mem_cons, List.not_mem_nil, or_false] at listed
    rcases listed with rfl | rfl | rfl <;> simp

/-- What keyed arguments leave of a pattern. The open tokens are just the splat tokens, and none
of these has a text. One within a group goes with the group. Those outside of all groups stay as
they are written, and they are the only tokens left. -/
structure Pattern.SplatsUnfilled (pattern : List Char) (texts : List (List Char)) : Prop where
  empty : ∀ token ∈ tokens pattern,
    (⟨token, none⟩ : Slot) ∈ fillSlots pattern texts ↔ token.kind = .splat
  unfilled : ∀ token ∈ tokens pattern, token.kind = .splat →
    ∀ text, (⟨token, some text⟩ : Slot) ∉ fillSlots pattern texts
  grouped : ∀ token ∈ tokens pattern, token.kind = .splat →
    ∀ group ∈ groups pattern, within token group = true →
      group ∈ droppedGroups pattern (fillSlots pattern texts) ∧
        ComesOutAs pattern texts group.start group.stop []
  remaining : ∀ token ∈ tokens pattern, Remains pattern texts token ↔
    token.kind = .splat ∧ ∀ group ∈ groups pattern, within token group = false
  verbatim : ∀ token ∈ tokens pattern, Remains pattern texts token →
    ComesOutAs pattern texts token.start token.stop token.text

section Paths
variable {pattern : List Char} {arguments : Arguments} {values : List Value} {token : Token}

/-- What a path is built of, where there are arguments. -/
theorem exists_values_of_fillPath {pattern path : String} {given : Value}
    (full : (Arguments.ofValue given).isEmpty = false)
    (built : fillPath (.text pattern) given = .ok path) :
    ∃ values, (Arguments.ofValue given).sequence pattern.toList = .ok values ∧
      path.toList =
        dropFinalSlash (eraseParentheses (fill pattern.toList (values.map component))) := by
  rcases path_cases (path_of_fillPath built) with ⟨empty, _⟩ | ⟨_, values, listed, path⟩
  · rw [full] at empty
    cases empty
  · exact ⟨values, listed, path⟩

/-- Each named token is given what keyed arguments hold for it. -/
theorem exists_given_of_keyed (kind : arguments.kind = .keyed)
    (listed : arguments.sequence pattern = .ok values) (member : token ∈ tokens pattern)
    (named : token.kind = .named) : ∃ value, (token, value) ∈ givenValues pattern values := by
  have among : token ∈ tokensOf pattern .named := List.mem_filter.mpr ⟨member, beq_iff_eq.mpr named⟩
  rw [Arguments.givenValues_of_keyed kind listed]
  refine (mem_zip_or_mem_drop values among).resolve_right fun behind => ?_
  rw [Arguments.length_values_of_keyed kind listed, List.drop_length] at behind
  cases behind

/-- A named token is filled with the value that is reported for it. -/
theorem filledWith_entry_of_keyed (kind : arguments.kind = .keyed)
    (listed : arguments.sequence pattern = .ok values) (member : token ∈ tokens pattern)
    (named : token.kind = .named)
    (present : (Report.entry pattern arguments token.text).isMissing = false) :
    FilledWith pattern (values.map component) token
      (component (Report.entry pattern arguments token.text).value) := by
  obtain ⟨value, given⟩ := exists_given_of_keyed kind listed member named
  have distinct (positional : arguments.kind = .positional) : DistinctNames pattern := by
    rw [kind] at positional
    cases positional
  have held := Arguments.get?_of_given distinct listed given
  rw [Report.get?_of_entry present, Option.some_inj] at held
  rw [held]
  exact filledWith_of_given given

/-- Keyed arguments leave every splat token open, and no other one. -/
theorem open_iff_of_keyed (kind : arguments.kind = .keyed)
    (listed : arguments.sequence pattern = .ok values) (member : token ∈ tokens pattern) :
    (⟨token, none⟩ : Slot) ∈ fillSlots pattern (values.map component) ↔ token.kind = .splat := by
  constructor
  · intro empty
    cases kinds : token.kind with
    | splat => rfl
    | named =>
      obtain ⟨value, given⟩ := exists_given_of_keyed kind listed member kinds
      cases slot_unique empty (filledWith_of_given given).1 rfl
  · intro splat
    refine open_of_not_given member fun value given => ?_
    rw [Arguments.givenValues_of_keyed kind listed] at given
    have named := (List.mem_filter.mp (List.of_mem_zip given).1).2
    rw [splat] at named
    cases named

private theorem splatsUnfilled_of_keyed (kind : arguments.kind = .keyed)
    (listed : arguments.sequence pattern = .ok values) :
    SplatsUnfilled pattern (values.map component) := by
  have empty (token : Token) (member : token ∈ tokens pattern) :=
    open_iff_of_keyed kind listed member
  constructor
  case empty => exact empty
  case unfilled =>
    intro token member splat text filled
    cases slot_unique ((empty token member).mpr splat) filled rfl
  case grouped =>
    intro token member splat group among inside
    exact comesOutAs_of_open colon_not_mem_component among ((empty token member).mpr splat) inside
  case remaining =>
    intro token member
    rw [remains_iff, empty token member]
  case verbatim => exact fun _ _ remains => comesOutAs_of_remains colon_not_mem_component remains

/-- A value that is given and reported as missing says nothing. -/
theorem blank_of_isMissing {value : Value}
    (distinct : arguments.kind = .positional → DistinctNames pattern)
    (listed : arguments.sequence pattern = .ok values)
    (given : (token, value) ∈ givenValues pattern values)
    (absent : (Report.entry pattern arguments token.text).isMissing = true) :
    value = .null ∨ value = .text "" := by
  rw [Report.isMissing_entry_iff, Arguments.get?_of_given distinct listed given] at absent
  simpa using absent

end Paths

/-- Keyed arguments fill the named tokens. If a path can be built, every named token for which
a value is reported is filled with it. No splat token is filled, whatever the arguments hold
for it and the report says of it: within a group it goes with the group, and elsewhere it stays
as it is written, so that these are the only tokens left in the path. -/
theorem keyed_values_fill_named_tokens (pattern path : String) (given : Value)
    (kind : (Arguments.ofValue given).kind = .keyed)
    (built : fillPath (.text pattern) given = .ok path) :
    ∃ report values, reportOn (.text pattern) given = .ok report ∧
      (Arguments.ofValue given).sequence pattern.toList = .ok values ∧
      path.toList =
        dropFinalSlash (eraseParentheses (fill pattern.toList (values.map component))) ∧
      (∀ token ∈ tokens pattern.toList, token.kind = .named →
        ∀ parameter ∈ report.parameters, parameter.token = token.text →
          parameter.isMissing = false →
            FilledWith pattern.toList (values.map component) token (component parameter.value)) ∧
      SplatsUnfilled pattern.toList (values.map component) := by
  have full : (Arguments.ofValue given).isEmpty = false := by
    rw [Arguments.isEmpty, kind]
    rfl
  obtain ⟨values, listed, whole⟩ := exists_values_of_fillPath full built
  refine ⟨_, values, reportOn_text pattern given, listed, whole, ?_,
    splatsUnfilled_of_keyed kind listed⟩
  intro token member named parameter reported same present
  rw [Report.parameters_make] at reported
  obtain ⟨text, _, rfl⟩ := List.mem_map.mp reported
  obtain rfl : text = token.text := same
  exact filledWith_entry_of_keyed kind listed member named present

/-- A value to encode, one that says nothing, and values for splat tokens within a group and
outside of it. -/
theorem keyed_values_fill_named_tokens_splats :
    fillPath (.text "/:a(/x:b)(/*c)/*d") (.map [(.text "c", .int 5), (.text "b", .null),
        (.text "a", .text "u v"), (.text "d", .int 6)]) = .ok "/u%20v/x/*d" ∧
    ∃ report values, reportOn (.text "/:a(/x:b)(/*c)/*d") (.map [(.text "c", .int 5),
          (.text "b", .null), (.text "a", .text "u v"), (.text "d", .int 6)]) = .ok report ∧
      (Arguments.ofValue (.map [(.text "c", .int 5), (.text "b", .null),
        (.text "a", .text "u v"), (.text "d", .int 6)])).sequence
          "/:a(/x:b)(/*c)/*d".toList = .ok values ∧
      "/u%20v/x/*d".toList = dropFinalSlash (eraseParentheses
        (fill "/:a(/x:b)(/*c)/*d".toList (values.map component))) ∧
      (∀ token ∈ tokens "/:a(/x:b)(/*c)/*d".toList, token.kind = .named →
        ∀ parameter ∈ report.parameters, parameter.token = token.text →
          parameter.isMissing = false →
            FilledWith "/:a(/x:b)(/*c)/*d".toList (values.map component) token
              (component parameter.value)) ∧
      SplatsUnfilled "/:a(/x:b)(/*c)/*d".toList (values.map component) := by
  have built : fillPath (.text "/:a(/x:b)(/*c)/*d") (.map [(.text "c", .int 5),
      (.text "b", .null), (.text "a", .text "u v"), (.text "d", .int 6)]) =
      .ok "/u%20v/x/*d" := by
    have listed : (Arguments.ofValue (.map [(.text "c", .int 5), (.text "b", .null),
        (.text "a", .text "u v"), (.text "d", .int 6)])).sequence "/:a(/x:b)(/*c)/*d".toList =
        .ok [.text "u v", .null] := by
      have names : named "/:a(/x:b)(/*c)/*d".toList = [":a".toList, ":b".toList] := by decide
      refine (Arguments.sequence_keyed_eq_ok_iff rfl).mpr ⟨by decide, ?_⟩
      rw [names]
      refine .cons ?_ (.cons ?_ .nil) <;>
        simp [Arguments.ofValue, Entries.get?, Arguments.keyOf, key]
    rw [fillPath_text (path_of_sequence rfl listed)]
    rfl
  exact ⟨built, keyed_values_fill_named_tokens _ _ _ rfl built⟩

/-- A map holds a value for a splat token, and the report has it, but the token is left. -/
theorem splat_token_ignores_keyed_value :
    DistinctNames "/:a/*b".toList ∧
      (∃ report parameter, reportOn (.text "/:a/*b")
          (.map [(.text "a", .int 1), (.text "b", .int 2)]) = .ok report ∧
        report.missing = [] ∧ parameter ∈ report.parameters ∧
        parameter.token = "*b".toList ∧ parameter.value = .int 2) ∧
      (Arguments.ofValue (.map [(.text "a", .int 1), (.text "b", .int 2)])).sequence
        "/:a/*b".toList = .ok [.int 1] ∧
      (⟨⟨.splat, 4, "*b".toList⟩, none⟩ : Slot) ∈
        fillSlots "/:a/*b".toList ([.int 1].map component) ∧
      fillPath (.text "/:a/*b") (.map [(.text "a", .int 1), (.text "b", .int 2)]) =
        .ok "/1/*b" := by
  have first : Entries.get? [(.text "a", .int 1), (.text "b", .int 2)]
      (Arguments.keyOf ":a".toList) = some (.int 1) := by
    simp [Entries.get?, Arguments.keyOf, key]
  have second : Entries.get? [(.text "a", .int 1), (.text "b", .int 2)]
      (Arguments.keyOf "*b".toList) = some (.int 2) := by
    simp [Entries.get?, Arguments.keyOf, key]
  have listed : (Arguments.ofValue (.map [(.text "a", .int 1), (.text "b", .int 2)])).sequence
      "/:a/*b".toList = .ok [.int 1] := by
    have names : named "/:a/*b".toList = [":a".toList] := by decide
    refine (Arguments.sequence_keyed_eq_ok_iff rfl).mpr ⟨by decide, ?_⟩
    rw [names]
    exact .cons first .nil
  refine ⟨by decide, ⟨_, _, reportOn_text _ _, ?_,
    List.mem_map_of_mem (a := "*b".toList) (by decide), rfl, ?_⟩, listed, by decide, ?_⟩
  · rw [Report.missing, List.filter_eq_nil_iff, Report.parameters_make, List.forall_mem_map]
    have names : parameters "/:a/*b".toList = [":a".toList, "*b".toList] := by decide
    intro text member
    rw [names, List.mem_cons, List.mem_singleton] at member
    rw [Report.isMissing_entry_iff]
    rcases member with rfl | rfl
    · simp only [Report.valuesOf, Arguments.ofValue, first]
      simp
    · simp only [Report.valuesOf, Arguments.ofValue, second]
      simp
  · simp only [Report.parameterOf, Report.valuesOf, Arguments.ofValue, second]
  · rw [fillPath_text (path_of_sequence rfl listed)]
    rfl

/-- A missing token within a group vanishes with the group, unless it was given a value that
says nothing: such a value fills the token with the empty text. -/
theorem missing_optional_token_vanishes (pattern path : String) (given : Value)
    (distinct : DistinctNames pattern.toList)
    (full : (Arguments.ofValue given).isEmpty = false)
    (built : fillPath (.text pattern) given = .ok path) :
    ∃ report values, reportOn (.text pattern) given = .ok report ∧
      (Arguments.ofValue given).sequence pattern.toList = .ok values ∧
      path.toList =
        dropFinalSlash (eraseParentheses (fill pattern.toList (values.map component))) ∧
      ∀ token ∈ tokens pattern.toList, token.text ∈ report.missingOptional.map Parameter.token →
        ∀ group ∈ groups pattern.toList, within token group = true →
          (∃ value, (token, value) ∈ givenValues pattern.toList values ∧
            (value = .null ∨ value = .text "") ∧
            FilledWith pattern.toList (values.map component) token []) ∨
          (group ∈ droppedGroups pattern.toList
              (fillSlots pattern.toList (values.map component)) ∧
            ComesOutAs pattern.toList (values.map component) group.start group.stop []) := by
  obtain ⟨values, listed, whole⟩ := exists_values_of_fillPath full built
  refine ⟨_, values, reportOn_text pattern given, listed, whole, ?_⟩
  intro token member missing group among inside
  rw [Report.missingOptional, Report.mem_map_token_filter, Bool.and_eq_true] at missing
  obtain ⟨_, _, absent⟩ := missing
  by_cases nothing : ∀ value, (token, value) ∉ givenValues pattern.toList values
  · exact .inr (comesOutAs_of_open colon_not_mem_component among (open_of_not_given member nothing)
      inside)
  · simp only [not_forall, not_not] at nothing
    obtain ⟨value, own⟩ := nothing
    have blank := blank_of_isMissing (fun _ => distinct) listed own absent
    refine .inl ⟨value, own, blank, ?_⟩
    have filled := filledWith_of_given own
    rcases blank with rfl | rfl
    · exact filled
    · exact filled

/-- One token within a group is given an empty text, and one is given nothing. -/
theorem missing_optional_token_vanishes_short :
    DistinctNames "/:a(/x:b)(/*c)".toList ∧
    fillPath (.text "/:a(/x:b)(/*c)") (.list [.int 1, .text ""]) = .ok "/1/x" ∧
    ∃ report values, reportOn (.text "/:a(/x:b)(/*c)") (.list [.int 1, .text ""]) = .ok report ∧
      (Arguments.ofValue (.list [.int 1, .text ""])).sequence "/:a(/x:b)(/*c)".toList =
        .ok values ∧
      "/1/x".toList = dropFinalSlash (eraseParentheses
        (fill "/:a(/x:b)(/*c)".toList (values.map component))) ∧
      ∀ token ∈ tokens "/:a(/x:b)(/*c)".toList,
        token.text ∈ report.missingOptional.map Parameter.token →
          ∀ group ∈ groups "/:a(/x:b)(/*c)".toList, within token group = true →
            (∃ value, (token, value) ∈ givenValues "/:a(/x:b)(/*c)".toList values ∧
              (value = .null ∨ value = .text "") ∧
              FilledWith "/:a(/x:b)(/*c)".toList (values.map component) token []) ∨
            (group ∈ droppedGroups "/:a(/x:b)(/*c)".toList
                (fillSlots "/:a(/x:b)(/*c)".toList (values.map component)) ∧
              ComesOutAs "/:a(/x:b)(/*c)".toList (values.map component) group.start
                group.stop []) := by
  have distinct : DistinctNames "/:a(/x:b)(/*c)".toList := by decide
  have built : fillPath (.text "/:a(/x:b)(/*c)") (.list [.int 1, .text ""]) = .ok "/1/x" := rfl
  exact ⟨distinct, built, missing_optional_token_vanishes _ _ _ distinct rfl built⟩

/-- The absent value is reported as missing, but the group with its token stays. -/
theorem group_of_blank_value_stays :
    DistinctNames "/shop(/page/:page)".toList ∧
      (∃ report, reportOn (.text "/shop(/page/:page)") (.map [(.text "page", .null)]) =
          .ok report ∧
        ":page".toList ∈ report.missingOptional.map Parameter.token) ∧
      (⟨.named, 12, ":page".toList⟩ : Token) ∈ tokens "/shop(/page/:page)".toList ∧
      (⟨5, "(/page/:page)".toList⟩ : Text.Occurrence) ∈ groups "/shop(/page/:page)".toList ∧
      within ⟨.named, 12, ":page".toList⟩ ⟨5, "(/page/:page)".toList⟩ = true ∧
      (Arguments.ofValue (.map [(.text "page", .null)])).inject "/shop(/page/:page)".toList =
        .ok "/shop(/page/)".toList ∧
      fillPath (.text "/shop(/page/:page)") (.map [(.text "page", .null)]) = .ok "/shop/page" := by
  have held : Entries.get? [(.text "page", .null)] (Arguments.keyOf ":page".toList) =
      some .null := by
    simp [Entries.get?, Arguments.keyOf, key]
  have listed : (Arguments.ofValue (.map [(.text "page", .null)])).sequence
      "/shop(/page/:page)".toList = .ok [.null] := by
    have names : named "/shop(/page/:page)".toList = [":page".toList] := by decide
    refine (Arguments.sequence_keyed_eq_ok_iff rfl).mpr ⟨by decide, ?_⟩
    rw [names]
    exact .cons held .nil
  refine ⟨by decide, ⟨_, reportOn_text _ _, ?_⟩, by decide, by decide, by decide, ?_, ?_⟩
  · rw [Report.missingOptional, Report.mem_map_token_filter, Bool.and_eq_true,
      Report.isMissing_entry_iff]
    exact ⟨by decide, rfl, .inr (.inl held)⟩
  · rw [inject_of_sequence listed]
    rfl
  · rw [fillPath_text (path_of_sequence rfl listed)]
    rfl

end RoutePattern
