import RoutePattern.Proofs.FullAddress

/-! The parts of a whole address. Each part but the first stands behind a mark of its own, and
neither filling a pattern nor rendering a query brings such a mark along, as what stands there
for a value is encoded. So the first number sign of an address is the one in front of the
fragment, and the first question mark before it the one in front of the query, whatever the
values hold. -/
namespace RoutePattern.Pattern
open Text

private theorem mem_dropGroups {pattern : List Char} {char : Char}
    (member : char ∈ dropGroups pattern) :
    char ∈ pattern := by
  obtain ⟨piece, listed, member⟩ := List.mem_flatMap.mp member
  cases piece with
  | found text => cases member
  | plain other =>
    rw [← flatMap_text_pieces groupLength pattern]
    exact List.mem_flatMap.mpr ⟨_, listed, member⟩

private theorem mem_dropFinalSlash {text : List Char} {char : Char}
    (member : char ∈ dropFinalSlash text) :
    char ∈ text := by
  rw [dropFinalSlash] at member
  split at member
  · exact List.mem_of_mem_dropLast member
  · exact member

private theorem mem_dropFirstSlash {text : List Char} {char : Char}
    (member : char ∈ dropFirstSlash text) :
    char ∈ text := by
  unfold dropFirstSlash at member
  split at member
  · exact List.mem_cons_of_mem _ member
  · exact member

end RoutePattern.Pattern

namespace RoutePattern.Arguments
open Pattern Text

/-- A reserved character of a path stands in its pattern. -/
theorem not_mem_path {arguments : Arguments} {pattern path : List Char} {char : Char}
    (built : arguments.path pattern = .ok path) (reserved : isUnreserved char = false)
    (other : char ≠ '%') (absent : char ∉ pattern) : char ∉ path := by
  intro member
  rcases path_cases built with ⟨_, rfl⟩ | ⟨_, values, _, rfl⟩
  · exact absent (mem_dropGroups member)
  · have filled := (mem_eraseParentheses (mem_dropFinalSlash member)).1
    rcases mem_fill colon_not_mem_component filled with inside | ⟨text, given, inside⟩
    · exact absent inside
    · exact not_mem_component reserved other text given inside

end RoutePattern.Arguments

namespace RoutePattern.Address
open Pattern Text

section Marks
variable {mark : Char} {text part : List Char}

private theorem passed_of_not_mem (absent : mark ∉ text) :
    ∀ char ∈ text, (char != mark) = true := by
  intro char member
  rw [bne_iff_ne]
  rintro rfl
  exact absent member

private theorem before_append_marked (absent : mark ∉ text) (part : List Char) :
    before mark (text ++ marked mark part) = text := by
  rw [before, List.takeWhile_append_of_pos (passed_of_not_mem absent)]
  unfold marked
  split <;> simp

private theorem behind?_append_marked (absent : mark ∉ text) (part : List Char) :
    behind? mark (text ++ marked mark part) = if part.isEmpty then none else some part := by
  have passed : (text ++ marked mark part).dropWhile (· != mark) = marked mark part := by
    rw [List.dropWhile_append_of_pos (passed_of_not_mem absent)]
    unfold marked
    split <;> simp
  rw [behind?, passed]
  cases part <;> rfl

private theorem not_mem_marked {char : Char} (other : char ≠ mark) (absent : char ∉ part) :
    char ∉ marked mark part := by
  unfold marked
  split
  · exact List.not_mem_nil
  · exact List.not_mem_cons_of_ne_of_not_mem other absent

end Marks

/-- The host and the path of an address do not depend on what stands behind them. -/
theorem join_eq (host path query hash : List Char) :
    join host path query hash = join host path [] [] ++ marked '?' query ++ marked '#' hash := by
  simp [join, marked]

private theorem not_mem_join {char : Char} {host path : List Char} (slash : char ≠ '/')
    (inHost : char ∉ host) (inPath : char ∉ path) : char ∉ join host path [] [] := by
  have front : char ∉ dropFinalSlash host := fun member => inHost (mem_dropFinalSlash member)
  have own : char ∉ dropFinalSlash (dropFirstSlash path) := fun member =>
    inPath (mem_dropFirstSlash (mem_dropFinalSlash member))
  have behind := not_mem_marked slash own
  simp [join, front, behind, show ∀ mark, marked mark [] = [] from fun _ => rfl]

/-- Only a key can bring a reserved character into a query, apart from those between the entries
and within them. -/
theorem not_mem_renderEntries {char : Char} {entries : Entries} (between : char ≠ '&')
    (sign : char ≠ '=') (reserved : isUnreserved char = false) (other : char ≠ '%')
    (keys : ∀ entry ∈ entries, char ∉ entry.1.plain) : char ∉ renderEntries entries := by
  have entry (entry : Value × Value) (key : char ∉ entry.1.plain) : char ∉ queryEntry entry := by
    have encoded : char ∉ component entry.2 := not_mem_encode reserved other
    simp [queryEntry, key, sign, encoded]
  induction entries with
  | nil => exact List.not_mem_nil
  | cons first entries ih =>
    have here := entry first (keys first List.mem_cons_self)
    have later := ih fun entry member => keys entry (List.mem_cons_of_mem _ member)
    cases entries with
    | nil => simpa [renderEntries] using here
    | cons second entries =>
      rw [renderEntries, List.map_cons] at later
      rw [renderEntries, List.map_cons, List.map_cons, List.intercalate_cons_cons]
      simp [here, between, later]

section Queries
variable {query : Option Entries} {rendered : List Char}

/-- Only an empty query is rendered to nothing. -/
theorem isEmpty_of_renderQuery (shown : renderQuery (queryValue query) = .ok rendered) :
    rendered.isEmpty = (queryValue query).isNothing := by
  cases query with
  | none =>
    cases shown
    rfl
  | some entries =>
    cases entries with
    | nil =>
      cases shown
      rfl
    | cons entry entries =>
      cases shown
      exact List.isEmpty_eq_false_iff.mpr (renderEntries_ne_nil entry entries)

private theorem not_mem_renderQuery {char : Char} (between : char ≠ '&') (sign : char ≠ '=')
    (reserved : isUnreserved char = false) (other : char ≠ '%')
    (keys : ∀ entries ∈ query, ∀ entry ∈ entries, char ∉ entry.1.plain)
    (shown : renderQuery (queryValue query) = .ok rendered) : char ∉ rendered := by
  cases query with
  | none =>
    cases shown
    exact List.not_mem_nil
  | some entries =>
    have clear := not_mem_renderEntries between sign reserved other (keys entries rfl)
    cases entries with
    | nil =>
      cases shown
      exact List.not_mem_nil
    | cons entry entries =>
      cases shown
      exact clear

end Queries

end RoutePattern.Address

namespace RoutePattern
open Pattern Text

/-- Options for all parts of an address. -/
def wholeOptions (host pattern : String) (params query : Value) (hash : String) :
    Options BuildField
  | .host => .text host
  | .path => .text pattern
  | .params => params
  | .query => query
  | .hash => .text hash

/-- An address is built from all its parts, each given by name. -/
def Session.buildWhole (host pattern : String) (params query : Value) (hash : String) :
    Action String := do
  let options ← lift (Options.ofCall BuildField "build" []
    { overrides := [(.text "host", .text host), (.text "path", .text pattern),
        (.text "params", params), (.text "query", query), (.text "hash", .text hash)] })
  build options

section Whole
variable {host pattern hash : String} {given query : Value}

private theorem wholeOptions_toldBy (host pattern : String) (params query : Value) (hash : String) :
    (wholeOptions host pattern params query hash).ToldBy
      [.host, .path, .params, .query, .hash] where
  rest field other := by cases field <;> simp at other
  absent field absent := by
    cases field with
    | params | query => rfl
    | host | path | hash => cases absent

private theorem ofCall_buildWhole (host pattern : String) (params query : Value) (hash : String) :
    Options.ofCall BuildField "build" []
        { overrides := [(.text "host", .text host), (.text "path", .text pattern),
            (.text "params", params), (.text "query", query), (.text "hash", .text hash)] } =
      .ok (wholeOptions host pattern params query hash) :=
  Options.ofCall_byField "build" (wholeOptions_toldBy host pattern params query hash)

private theorem answer_buildWhole (host pattern : String) (params query : Value) (hash : String)
    (session : Session) :
    (outcome (Session.buildWhole host pattern params query hash) session).1 =
      buildAddress (wholeOptions host pattern params query hash) := by
  rw [Session.buildWhole, ofCall_buildWhole, outcome_bind]
  exact Session.answer_build _ session

/-- A whole address is the path and the rendered query put together with a host and a
fragment. -/
theorem buildAddress_whole {url : String}
    (built : buildAddress (wholeOptions host pattern given query hash) = .ok url) :
    ∃ path rendered, fillPath (.text pattern) given = .ok path ∧
      Address.renderQuery query = .ok rendered ∧
      url.toList = Address.join host.toList path.toList rendered hash.toList := by
  rw [buildAddress, buildPath, buildQuery] at built
  simp only [wholeOptions] at built
  cases filled : fillPath (.text pattern) given with
  | error error =>
    rw [filled] at built
    cases built
  | ok path =>
    cases shown : Address.renderQuery query with
    | error error =>
      rw [filled, shown] at built
      cases built
    | ok rendered =>
      simp only [filled, shown, Address.joinValues, Value.textOrNothing_text, Address.anyText_text,
        bind, Except.bind, String.toList_ofList] at built
      cases built
      exact ⟨path, rendered, rfl, rfl, String.toList_ofList⟩

end Whole

/-- The parts of a whole address can be told apart. Behind its first number sign stands the
fragment, behind the first question mark in front of that the rendered query, and what remains
is the host with the path, if neither the host nor the pattern nor a key of the query has such
a mark of its own. The values, and those of the query, may hold anything. -/
theorem built_address_comes_apart (host pattern : String) (given : Value)
    (query : Option Entries) (hash : String) (session : Session) (url : String)
    (hostClear : '?' ∉ host.toList ∧ '#' ∉ host.toList)
    (patternClear : '?' ∉ pattern.toList ∧ '#' ∉ pattern.toList)
    (keys : ∀ entries ∈ query, ∀ entry ∈ entries,
      ∃ name : String, entry.1 = .text name ∧ '#' ∉ name.toList)
    (built : (outcome (Session.buildWhole host pattern given (Address.queryValue query) hash)
      session).1 = .ok url) :
    ∃ path rendered front,
      fillPath (.text pattern) given = .ok path ∧
      Address.renderQuery (Address.queryValue query) = .ok rendered ∧
      Address.joinValues (.text host) (.text path) (.text "") (.text "") = .ok front ∧
      Address.behind? '#' url.toList = (if hash = "" then none else some hash.toList) ∧
      queryOf (Address.before '#' url.toList) =
        (if (Address.queryValue query).isNothing then none else some rendered) ∧
      beforeQuery (Address.before '#' url.toList) = front := by
  rw [answer_buildWhole] at built
  obtain ⟨path, rendered, filled, shown, whole⟩ := buildAddress_whole built
  have inPath {mark : Char} (reserved : isUnreserved mark = false) (other : mark ≠ '%')
      (absent : mark ∉ pattern.toList) : mark ∉ path.toList :=
    Arguments.not_mem_path (path_of_fillPath filled) reserved other absent
  have noMark : '?' ∉ Address.join host.toList path.toList [] [] :=
    Address.not_mem_join (by decide) hostClear.1 (inPath (by decide) (by decide) patternClear.1)
  have noSign : '#' ∉ Address.join host.toList path.toList [] [] :=
    Address.not_mem_join (by decide) hostClear.2 (inPath (by decide) (by decide) patternClear.2)
  have signFree : '#' ∉ rendered := by
    apply Address.not_mem_renderQuery (by decide) (by decide) (by decide) (by decide) _ shown
    intro entries present entry listed
    obtain ⟨name, key, absent⟩ := keys entries present entry listed
    rwa [key]
  have front : '#' ∉ Address.join host.toList path.toList [] [] ++ Address.marked '?' rendered := by
    rw [List.mem_append, not_or]
    exact ⟨noSign, Address.not_mem_marked (by decide) signFree⟩
  rw [Address.join_eq] at whole
  refine ⟨path, rendered, Address.join host.toList path.toList [] [], filled, shown, ?_, ?_, ?_, ?_⟩
  · simp only [Address.joinValues, Value.textOrNothing_text, Address.anyText_text, bind,
      Except.bind]
    rfl
  · rw [whole, Address.behind?_append_marked front]
    simp
  · rw [whole, Address.before_append_marked front, queryOf,
      Address.behind?_append_marked noMark, Address.isEmpty_of_renderQuery shown]
  · rw [whole, Address.before_append_marked front, beforeQuery,
      Address.before_append_marked noMark]

/-- Marks in the values, in the values of the query, in a key and in the fragment. -/
theorem built_address_comes_apart_marks :
    (outcome (Session.buildWhole "http://a.b/" "/u/:id(/*rest)/" (.list [.text "?a#b"])
        (Address.queryValue (some [(.text "k?", .text "x#y?&"), (.text "", .null)])) "top#?") {}).1 =
      .ok "http://a.b/u/%3Fa%23b?k?=x%23y%3F%26&=#top#?" ∧
    ∃ path rendered front,
      fillPath (.text "/u/:id(/*rest)/") (.list [.text "?a#b"]) = .ok path ∧
      Address.renderQuery (Address.queryValue
        (some [(.text "k?", .text "x#y?&"), (.text "", .null)])) = .ok rendered ∧
      Address.joinValues (.text "http://a.b/") (.text path) (.text "") (.text "") = .ok front ∧
      Address.behind? '#' "http://a.b/u/%3Fa%23b?k?=x%23y%3F%26&=#top#?".toList =
        (if "top#?" = "" then none else some "top#?".toList) ∧
      queryOf (Address.before '#' "http://a.b/u/%3Fa%23b?k?=x%23y%3F%26&=#top#?".toList) =
        (if (Address.queryValue
            (some [(.text "k?", .text "x#y?&"), (.text "", .null)])).isNothing then none
          else some rendered) ∧
      beforeQuery (Address.before '#' "http://a.b/u/%3Fa%23b?k?=x%23y%3F%26&=#top#?".toList) =
        front := by
  have built : (outcome (Session.buildWhole "http://a.b/" "/u/:id(/*rest)/" (.list [.text "?a#b"])
      (Address.queryValue (some [(.text "k?", .text "x#y?&"), (.text "", .null)])) "top#?") {}).1 =
      .ok "http://a.b/u/%3Fa%23b?k?=x%23y%3F%26&=#top#?" := by
    rw [answer_buildWhole]
    rfl
  refine ⟨built, ?_⟩
  apply built_address_comes_apart _ _ _ _ _ _ _ _ _ _ built
  · decide
  · decide
  · intro entries present entry listed
    cases present
    simp only [List.mem_cons, List.not_mem_nil, or_false] at listed
    rcases listed with rfl | rfl
    · exact ⟨"k?", rfl, by decide⟩
    · exact ⟨"", rfl, by decide⟩

end RoutePattern
