import RoutePattern.Proofs.ClosedForm
import RoutePattern.Proofs.QueryIndependence
import RoutePattern.Proofs.RoundTrip

/-! Whole addresses and their queries. An address that is built without a host and a fragment
is a path with the rendered query behind it: the slashes that putting parts together takes
away from the path and gives back are those it had. The path holds no question mark, so the
first one of the address is the one in front of the query, whatever the keys of the query
look like, and as a query has no influence on matching it is captured as it is. -/
namespace RoutePattern.Pattern
open Text

section Standing
variable {pattern path : List Char} {texts : List (List Char)}

/-- A text that can be seen, in place of one that cannot. -/
def madeVisible (text : List Char) : List Char := if Visible text then text else ['-']

private theorem fit_madeVisible {text : List Char} (slash : '/' ∉ text) (mark : '?' ∉ text) :
    Fit (madeVisible text) := by
  unfold madeVisible
  split
  · rename_i visible
    exact ⟨visible, slash, mark⟩
  · exact ⟨by decide, by decide, by decide⟩

/-- A filled pattern spells a path, if the texts that stand in it can be seen; those that
went with their groups need not. -/
theorem spells_fill_of_standing (grammatical : Grammatical pattern)
    (free : unmarked pattern = true)
    (colon : ∀ text ∈ texts, ':' ∉ text) (slash : ∀ text ∈ texts, '/' ∉ text)
    (mark : ∀ text ∈ texts, '?' ∉ text)
    (visible : ∀ text ∈ standingTexts pattern texts, Visible text) :
    ∃ given, Spells (outline pattern) given (eraseParentheses (fill pattern texts)) := by
  have same : fill pattern (texts.map madeVisible) = fill pattern texts := by
    apply fill_map
    · exact colon
    · intro text member
      unfold madeVisible
      split
      · exact colon text member
      · decide
    · intro text member
      rw [madeVisible, if_pos (visible text member)]
  rw [← same]
  apply spells_fill pattern _ grammatical free
  intro slot member text filled
  obtain ⟨origin, given, rfl⟩ := List.mem_map.mp (filling_fillSlots _ _ member filled)
  exact fit_madeVisible (slash origin given) (mark origin given)

end Standing

section Marks
variable {segments : List Segment} {others : List Part} {texts : List (List Char)}
  {fillings : List (Option (List Char))} {path pattern : List Char}

private theorem mark_not_mem_of_admits {kind : Kind} {text : List Char}
    (admitted : kind.Admits text) :
    '?' ∉ text := by
  cases kind with
  | named => exact admitted.2.2
  | splat => exact admitted

private theorem admitted_of_partsSpell (spelled : PartsSpell others texts path) :
    ∀ text ∈ texts, '?' ∉ text := by
  induction spelled with
  | nil => simp
  | literal later ih => exact ih
  | slot admitted later ih => exact List.forall_mem_cons.mpr ⟨mark_not_mem_of_admits admitted, ih⟩

/-- No slot takes in a question mark. -/
theorem mark_not_mem_of_partsSpell (spelled : PartsSpell others texts path)
    (absent : .literal '?' ∉ others) : '?' ∉ path := by
  intro member
  rcases mem_of_partsSpell spelled member with literal | ⟨text, among, inside⟩
  · exact absent literal
  · exact admitted_of_partsSpell spelled text among inside

private theorem mark_not_mem_of_spells (spelled : Spells segments fillings path)
    (absent : .literal '?' ∉ segments.flatMap Segment.parts) : '?' ∉ path := by
  induction spelled with
  | nil => exact List.not_mem_nil
  | single here later ih =>
    rw [List.flatMap_cons, List.mem_append, not_or] at absent
    rw [List.mem_append, not_or]
    exact ⟨mark_not_mem_of_partsSpell here absent.1, ih absent.2⟩
  | kept here later ih =>
    rw [List.flatMap_cons, List.mem_append, not_or] at absent
    rw [List.mem_append, not_or]
    exact ⟨mark_not_mem_of_partsSpell here absent.1, ih absent.2⟩
  | left later ih =>
    rw [List.flatMap_cons, List.mem_append, not_or] at absent
    exact ih absent.2

end Marks

end RoutePattern.Pattern

namespace RoutePattern.Route
open Pattern

/-- A path that is spelled is matched with any query behind it, and the last group captures
the query. -/
theorem captures?_of_spells {pattern path : List Char} {texts : List (Option (List Char))}
    (grammatical : Grammatical pattern) (mark : '?' ∉ pattern)
    (spelled : Spells (outline pattern) texts path) (query : Option (List Char)) :
    ∃ own, (route pattern).captures? (path ++ querySuffix query) = some (own ++ [query]) := by
  have absent : .literal '?' ∉ (outline pattern).flatMap Segment.parts := fun literal =>
    mark (mem_of_literal_mem_outline literal)
  obtain ⟨found, all⟩ := captures?_query mark (compile_grammatical pattern grammatical)
    (mark_not_mem_of_spells spelled absent)
  have matched := captures?_isSome_of_spells spelled query
  rw [all query, Option.isSome_map] at matched
  obtain ⟨own, rfl⟩ := Option.isSome_iff_exists.mp matched
  exact ⟨own, all query⟩

end RoutePattern.Route

namespace RoutePattern.Address
open Pattern

theorem anyText_text (content : String) : anyText (.text content) = content.toList := by
  by_cases blank : content = ""
  · subst blank
    rfl
  · simp [anyText, Value.isNothing, Value.plain, blank]

/-- A path between two slashes, of which the one behind is missing, is put together again. -/
theorem join_path {path : List Char} (query : List Char) (starts : path.head? = some '/')
    (ends : path.getLast? ≠ some '/') : join [] path query [] = path ++ marked '?' query := by
  obtain ⟨rest, rfl⟩ := List.head?_eq_some_iff.mp starts
  cases rest with
  | nil => exact absurd rfl ends
  | cons char rest =>
    rw [List.getLast?_cons_cons] at ends
    rw [join, dropFirstSlash, dropFinalSlash_of_ne ends]
    simp [dropFinalSlash, marked]

/-- Entries are rendered with a sign between key and value, so something is always there. -/
theorem renderEntries_ne_nil (entry : Value × Value) (entries : Entries) :
    renderEntries (entry :: entries) ≠ [] := by
  have sign : '=' ∈ renderEntries (entry :: entries) := by
    cases entries <;> simp [renderEntries, queryEntry, List.intercalate]
  exact List.ne_nil_of_mem sign

/-- A query that is a map, or is missing. -/
def queryValue : Option Entries → Value
  | none => .null
  | some entries => .map entries

/-- A query is rendered to what stands behind the question mark, or to nothing. -/
theorem renderQuery_queryValue (query : Option Entries) :
    ∃ rendered, renderQuery (queryValue query) = .ok rendered ∧
      marked '?' rendered =
        querySuffix (if (queryValue query).isNothing then none else some rendered) := by
  cases query with
  | none => exact ⟨[], rfl, rfl⟩
  | some entries =>
    cases entries with
    | nil => exact ⟨[], rfl, rfl⟩
    | cons entry entries =>
      refine ⟨renderEntries (entry :: entries), rfl, ?_⟩
      have present := renderEntries_ne_nil entry entries
      rw [marked, if_neg (by simpa using present)]
      rfl

end RoutePattern.Address

namespace RoutePattern
open Pattern Text

/-- Options with a pattern, arguments and a query, and the rest as it is initially. -/
def namedOptions (pattern : String) (params query : Value) : Options BuildField
  | .host => .text ""
  | .path => .text pattern
  | .params => params
  | .query => query
  | .hash => .text ""

/-- An address is built from a pattern, arguments and a query, all given by name. -/
def Session.buildNamed (pattern : String) (params query : Value) : Action String := do
  let options ← lift (Options.ofCall BuildField "build" []
    { overrides := [(.text "path", .text pattern), (.text "params", params),
        (.text "query", query)] })
  build options

/-- The path for an argument set before a slash at its end would go. -/
def Arguments.openPath (arguments : Arguments) (pattern : List Char) : Except Error (List Char) :=
  if arguments.isEmpty then .ok (dropGroups pattern)
  else (arguments.inject pattern).map eraseParentheses

section Building
variable {pattern : String} {given params query : Value} {session : Session}

private theorem namedOptions_toldBy (pattern : String) (params query : Value) :
    (namedOptions pattern params query).ToldBy [.path, .params, .query] where
  rest field other := by
    cases field with
    | path | params | query => simp at other
    | host | hash => rfl
  absent field absent := by
    cases field with
    | params | query => rfl
    | host | path | hash => cases absent

private theorem ofCall_buildNamed (pattern : String) (params query : Value) :
    Options.ofCall BuildField "build" []
        { overrides := [(.text "path", .text pattern), (.text "params", params),
            (.text "query", query)] } =
      .ok (namedOptions pattern params query) :=
  Options.ofCall_byField "build" (namedOptions_toldBy pattern params query)

private theorem answer_buildNamed (pattern : String) (params query : Value) (session : Session) :
    (outcome (Session.buildNamed pattern params query) session).1 =
      buildAddress (namedOptions pattern params query) := by
  rw [Session.buildNamed, ofCall_buildNamed, outcome_bind]
  exact Session.answer_build _ session

/-- The address of a path and a query, without a host and a fragment. -/
theorem buildAddress_eq {path : String} {rendered : List Char}
    (filled : fillPath (.text pattern) params = .ok path)
    (shown : Address.renderQuery query = .ok rendered) :
    buildAddress (namedOptions pattern params query) =
      .ok (String.ofList (Address.join [] path.toList rendered [])) := by
  have host : (Value.text "").textOrNothing = .ok [] := Value.textOrNothing_text ""
  simp only [buildAddress, buildPath, buildQuery, namedOptions, filled, shown, Address.joinValues,
    host, Value.textOrNothing_text, Address.anyText_text, bind, Except.bind, String.toList_ofList]
  rfl

private theorem fillPath_of_buildAddress {url : String}
    (built : buildAddress (namedOptions pattern params query) = .ok url) :
    ∃ path, fillPath (.text pattern) params = .ok path := by
  cases filled : fillPath (.text pattern) params with
  | ok path => exact ⟨path, rfl⟩
  | error error =>
    rw [buildAddress, show buildPath (namedOptions pattern params query) = .error error from filled]
      at built
    cases built

end Building

section Paths
variable {arguments : Arguments} {pattern path : List Char}

private theorem exists_openPath (pattern : List Char) (ordered : arguments.kind = .keyed →
    ∃ values, arguments.sequence pattern = .ok values) :
    ∃ path, arguments.openPath pattern = .ok path := by
  obtain ⟨values, listed⟩ : ∃ values, arguments.sequence pattern = .ok values := by
    by_cases keyed : arguments.kind = .keyed
    · exact ordered keyed
    · exact sequence_isOk pattern keyed
  rw [Arguments.openPath, inject_of_sequence listed]
  cases arguments.isEmpty with
  | true => exact ⟨_, rfl⟩
  | false => exact ⟨_, rfl⟩

/-- A path without a slash at its end stays as it is. -/
theorem path_of_openPath (opened : arguments.openPath pattern = .ok path)
    (ends : path.getLast? ≠ some '/') : arguments.path pattern = .ok path := by
  unfold Arguments.openPath at opened
  split at opened
  · rename_i empty
    rw [Arguments.path, if_pos empty, opened]
  · rename_i full
    cases filled : arguments.inject pattern with
    | error error =>
      rw [filled] at opened
      cases opened
    | ok whole =>
      rw [filled] at opened
      cases opened
      rw [Arguments.path, if_neg full, filled]
      exact congrArg Except.ok (dropFinalSlash_of_ne ends)

/-- The path for an argument set is spelled by the pattern. -/
theorem spells_openPath (grammatical : Grammatical pattern) (mark : '?' ∉ pattern)
    (visible : ∀ values, arguments.sequence pattern = .ok values →
      ∀ text ∈ standingTexts pattern (values.map component), Visible text)
    (opened : arguments.openPath pattern = .ok path) :
    ∃ texts, Spells (outline pattern) texts path := by
  unfold Arguments.openPath at opened
  split at opened
  · cases opened
    exact spells_dropGroups pattern
  · cases listed : arguments.sequence pattern with
    | error error =>
      rw [Arguments.inject, listed] at opened
      cases opened
    | ok values =>
      rw [inject_of_sequence listed] at opened
      cases opened
      exact spells_fill_of_standing grammatical (unmarked_of_not_mem mark) colon_not_mem_component
        (not_mem_component (by decide) (by decide)) (not_mem_component (by decide) (by decide))
        (visible values listed)

end Paths

/-- A whole address is matched by the pattern it was built from, and the last group of the
match gives its query back. Keys of the query stand in it as they are and may hold anything;
a value that stands in the path has to leave something besides parentheses, and the path must
begin with a slash and not end in one. -/
theorem built_address_gives_query_back (pattern : String) (given : Value) (query : Option Entries)
    (session : Session) (grammatical : Grammatical pattern.toList) (mark : '?' ∉ pattern.toList)
    (keyed : (Arguments.ofValue given).kind = .keyed → ∃ url,
      (outcome (Session.buildNamed pattern given (Address.queryValue query)) session).1 = .ok url)
    (visible : ∀ values, (Arguments.ofValue given).sequence pattern.toList = .ok values →
      ∀ text ∈ standingTexts pattern.toList (values.map component), Visible text)
    (closed : ∀ path, (Arguments.ofValue given).openPath pattern.toList = .ok path →
      path.head? = some '/' ∧ path.getLast? ≠ some '/') :
    ∃ url rendered route own,
      (outcome (Session.buildNamed pattern given (Address.queryValue query)) session).1 =
        .ok url ∧
      Address.renderQuery (Address.queryValue query) = .ok rendered ∧
      Route.compile pattern.toList = .ok route ∧
      route.captures? url.toList = some (own ++
        [if (Address.queryValue query).isNothing then none else some rendered]) := by
  obtain ⟨path, opened⟩ : ∃ path, (Arguments.ofValue given).openPath pattern.toList = .ok path := by
    apply exists_openPath
    intro kind
    obtain ⟨url, built⟩ := keyed kind
    rw [answer_buildNamed] at built
    obtain ⟨path, filled⟩ := fillPath_of_buildAddress built
    exact sequence_isOk_of_fillPath kind filled
  obtain ⟨starts, ends⟩ := closed path opened
  obtain ⟨texts, spelled⟩ := spells_openPath grammatical mark visible opened
  obtain ⟨rendered, shown, suffix⟩ := Address.renderQuery_queryValue query
  have filled := fillPath_text (path_of_openPath opened ends)
  have built := buildAddress_eq filled shown
  rw [String.toList_ofList, Address.join_path rendered starts ends, suffix] at built
  obtain ⟨own, found⟩ := Route.captures?_of_spells grammatical mark spelled
    (if (Address.queryValue query).isNothing then none else some rendered)
  rw [← answer_buildNamed pattern given (Address.queryValue query) session] at built
  refine ⟨_, rendered, _, own, built, shown, compile_grammatical _ grammatical, ?_⟩
  rw [String.toList_ofList, found]

/-- A group without a value, a splat slot, and a query whose key looks like an address. -/
theorem built_address_gives_query_back_strange_key :
    Grammatical "/a(/:b/:c)*d".toList ∧ '?' ∉ "/a(/:b/:c)*d".toList ∧
      ∃ url rendered route own,
        (outcome (Session.buildNamed "/a(/:b/:c)*d" (.list [.text "x(y"])
            (Address.queryValue (some [(.text "k?/\n#", .text "a b")]))) {}).1 = .ok url ∧
        Address.renderQuery (Address.queryValue (some [(.text "k?/\n#", .text "a b")])) =
          .ok rendered ∧
        Route.compile "/a(/:b/:c)*d".toList = .ok route ∧
        route.captures? url.toList = some (own ++
          [if (Address.queryValue (some [(.text "k?/\n#", .text "a b")])).isNothing then none
            else some rendered]) := by
  have grammatical : Grammatical "/a(/:b/:c)*d".toList := by decide
  have mark : '?' ∉ "/a(/:b/:c)*d".toList := by decide
  refine ⟨grammatical, mark, ?_⟩
  apply built_address_gives_query_back _ _ _ _ grammatical mark
  · intro keyed
    cases keyed
  · intro values listed
    cases listed
    decide
  · intro path opened
    cases opened
    decide

end RoutePattern
