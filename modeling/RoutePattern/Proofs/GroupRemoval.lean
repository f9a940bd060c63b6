import RoutePattern.Proofs.ReportAgreement
import RoutePattern.Proofs.Runs

/-! Paths without arguments: all groups of the pattern go, and everything else stays. Removing
groups brings characters together that were apart, but never an opening parenthesis in front of a
closing one on the same line: an opening parenthesis stays only if no closing one stands behind
it on its line, and those behind it on the line then stay for the same reason. So nothing is left
to remove, whatever the parentheses of the pattern look like. -/
namespace RoutePattern.Pattern
open Text

/-- No opening parenthesis is followed by a closing one without a line feed between them. -/
def Ungrouped (text : List Char) : Prop :=
  ∀ front inner rest, text = front ++ '(' :: (inner ++ ')' :: rest) → '\n' ∈ inner

/-- A closing parenthesis stands on the first line of a text. -/
def Closes (text : List Char) : Prop := (text.dropWhile inBody).head? = some ')'

section Lines
variable {char : Char} {text inner rest : List Char}

private theorem closes_cons_iff :
    Closes (char :: rest) ↔ char = ')' ∨ (inBody char = true ∧ Closes rest) := by
  by_cases inside : inBody char = true
  · have other : char ≠ ')' := by
      rintro rfl
      cases inside
    simp [Closes, inside, other]
  · simp [Closes, inside]

/-- Nothing but a line feed keeps a closing parenthesis off the first line. -/
theorem closes_append (sameLine : '\n' ∉ inner) : Closes (inner ++ ')' :: rest) := by
  induction inner with
  | nil => rfl
  | cons char inner ih =>
    rw [List.mem_cons, not_or] at sameLine
    rw [List.cons_append, closes_cons_iff]
    by_cases closing : char = ')'
    · exact .inl closing
    · exact .inr ⟨by simp [inBody, closing, Ne.symm sameLine.1], ih sameLine.2⟩

/-- A group begins with an opening parenthesis if the line is closed behind it. -/
theorem groupLength_open_iff : groupLength ('(' :: rest) = 0 ↔ ¬ Closes rest :=
  groupLength_open_eq_zero_iff

end Lines

section Removal
variable {char : Char} {text rest : List Char}

private theorem ungrouped_nil : Ungrouped [] := by
  intro front inner rest same
  simp at same

/-- A text has no group if none begins at its head and there is none behind. -/
theorem ungrouped_cons (outside : groupLength (char :: rest) = 0) (later : Ungrouped rest) :
    Ungrouped (char :: rest) := by
  intro front inner behind same
  cases front with
  | nil =>
    cases same
    by_contra sameLine
    exact groupLength_open_iff.mp outside (closes_append sameLine)
  | cons first front =>
    cases same
    exact later front inner behind rfl

private theorem Ungrouped.tail (ungrouped : Ungrouped (char :: rest)) : Ungrouped rest :=
  fun front inner behind same => ungrouped (char :: front) inner behind (congrArg _ same)

private theorem Ungrouped.groupLength_eq_zero (ungrouped : Ungrouped text) :
    groupLength text = 0 := by
  by_contra found
  obtain ⟨inner, rest, same, inside⟩ := eq_group_of_groupLength found
  have body := inside '\n' (ungrouped [] inner rest same)
  cases body

private theorem dropGroups_cons_plain (outside : groupLength (char :: rest) = 0) :
    dropGroups (char :: rest) = char :: dropGroups rest := replace_cons_plain outside

private theorem dropGroups_cons_found {more : Nat} (found : groupLength (char :: rest) = more + 1) :
    dropGroups (char :: rest) = dropGroups (rest.drop more) := by
  rw [dropGroups, replace, pieces_cons_found found]
  rfl

/-- On a line that nothing closes no group is removed, so nothing closes it afterwards. -/
theorem not_closes_dropGroups (still : ¬ Closes text) : ¬ Closes (dropGroups text) := by
  induction text with
  | nil => exact still
  | cons char rest ih =>
    rw [closes_cons_iff, not_or, not_and] at still
    obtain ⟨other, later⟩ := still
    have outside : groupLength (char :: rest) = 0 := by
      by_cases opening : char = '('
      · -- It begins no group, as nothing behind it closes the line either.
        subst opening
        exact groupLength_open_iff.mpr (later rfl)
      · exact groupLength_of_ne opening
    rw [dropGroups_cons_plain outside, closes_cons_iff, not_or, not_and]
    exact ⟨other, fun inside => ih (later inside)⟩

private theorem ungrouped_dropGroups (text : List Char) : Ungrouped (dropGroups text) := by
  induction text using scan_induction groupLength with
  | nil => exact ungrouped_nil
  | plain char rest outside ih =>
    rw [dropGroups_cons_plain outside]
    refine ungrouped_cons ?_ ih
    by_cases opening : char = '('
    · subst opening
      rw [groupLength_open_iff] at outside ⊢
      exact not_closes_dropGroups outside
    · exact groupLength_of_ne opening
  | found char rest more found ih =>
    rw [dropGroups_cons_found found]
    exact ih

/-- Where there is no group, a scan for groups passes every character by itself. -/
theorem pieces_of_ungrouped (ungrouped : Ungrouped text) :
    pieces groupLength text = text.map Piece.plain := by
  induction text with
  | nil => rfl
  | cons char rest ih =>
    rw [pieces_cons_plain ungrouped.groupLength_eq_zero, ih ungrouped.tail, List.map_cons]

private theorem groups_of_ungrouped (ungrouped : Ungrouped text) : groups text = [] := by
  rw [groups, occurrences, pieces_of_ungrouped ungrouped, locate_plains]

private theorem dropGroups_of_ungrouped (ungrouped : Ungrouped text) : dropGroups text = text := by
  rw [dropGroups, replace, pieces_of_ungrouped ungrouped, List.flatMap_map,
    List.flatMap_singleton']

end Removal

section Places
variable {edits : List Edit} {cut : List Piece}

/-- Edits that are apart from each other all count. -/
theorem effective_of_separate (separate : Separate edits) : Effective edits edits :=
  Governs.effective ⟨separate, fun _ => id, fun _ => .inl⟩ fun _ => separate.editAt_eq_some

private theorem tokenEdits_nothing (place : Nat) (cut : List Piece) :
    tokenEdits place cut (List.replicate (foundCount cut) (some [])) =
      (locate place cut).map removal := by
  induction cut generalizing place with
  | nil => rfl
  | cons piece cut ih =>
    cases piece with
    | plain char => exact ih (place + 1)
    | found text => exact congrArg (removal ⟨place, text⟩ :: ·) (ih (place + text.length))

private theorem weave_nothing (cut : List Piece) :
    weave cut (List.replicate (foundCount cut) (some [])) = cut.flatMap fun
      | .plain char => [char]
      | .found _ => [] := by
  induction cut with
  | nil => rfl
  | cons piece cut ih =>
    cases piece with
    | plain char => exact congrArg (char :: ·) ih
    | found text => exact ih

/-- The stretches of the groups go and every other character stays at its place. -/
theorem dropGroups_eq_rewrite (pattern : List Char) :
    dropGroups pattern = rewrite ((groups pattern).map removal) pattern := by
  have whole : textOf (pieces groupLength pattern) = pattern := flatMap_text_pieces _ _
  have removals : (groups pattern).map removal = tokenEdits 0 (pieces groupLength pattern)
      (List.replicate (foundCount (pieces groupLength pattern)) (some [])) := by
    rw [tokenEdits_nothing]
    rfl
  have walk := applyEdits_pieces 0
    (List.replicate (foundCount (pieces groupLength pattern)) (some [])) []
    (proper_pieces groupLength pattern) fun behind _ _ => congrArg (editAt · behind) removals
  rw [whole, List.append_nil, weave_nothing, applyEdits, List.append_nil,
    applyEdits_eq_rewrite (effective_of_separate (separate_removals fun _ => id))] at walk
  exact walk.symm

end Places

end RoutePattern.Pattern

namespace RoutePattern
open Pattern

private theorem fillPath_of_isEmpty {pattern : String} {given : Value}
    (empty : (Arguments.ofValue given).isEmpty = true) :
    fillPath (.text pattern) given = .ok (String.ofList (dropGroups pattern.toList)) :=
  fillPath_text (by rw [Arguments.path, if_pos empty])

/-- Without arguments a path has no group left: on no line does a closing parenthesis follow an
opening one. It is the pattern without the stretches of its groups, it stays as it is when it is
filled without arguments again, and a report on it has no groups. -/
theorem path_without_arguments_is_stable (pattern : String) (given : Value)
    (empty : (Arguments.ofValue given).isEmpty = true) :
    ∃ path, fillPath (.text pattern) given = .ok path ∧
      Ungrouped path.toList ∧ groups path.toList = [] ∧
      path.toList = rewrite ((groups pattern.toList).map removal) pattern.toList ∧
      (∀ again, (Arguments.ofValue again).isEmpty = true →
        fillPath (.text path) again = .ok path) ∧
      ∀ other, ∃ report, reportOn (.text path) other = .ok report ∧ report.hasGroups = false := by
  have ungrouped := ungrouped_dropGroups pattern.toList
  refine ⟨_, fillPath_of_isEmpty empty, ?_⟩
  rw [String.toList_ofList]
  refine ⟨ungrouped, groups_of_ungrouped ungrouped, dropGroups_eq_rewrite pattern.toList,
    fun again none => ?_, fun other => ?_⟩
  · rw [fillPath_of_isEmpty none, String.toList_ofList, dropGroups_of_ungrouped ungrouped]
  · refine ⟨_, reportOn_text _ other, ?_⟩
    rw [Report.make, String.toList_ofList, groups_of_ungrouped ungrouped]
    rfl

/-- A group with another opening in it, parentheses that are left over, and two of them with a
group and a line feed between them. -/
theorem path_without_arguments_is_stable_lines :
    (Arguments.ofValue (.list [])).isEmpty = true ∧
      fillPath (.text "/a(b(c)d)(\n(:g))(h") (.list []) = .ok "/ad)(\n)(h" ∧
      Ungrouped "/ad)(\n)(h".toList ∧ groups "/ad)(\n)(h".toList = [] ∧
      "/ad)(\n)(h".toList =
        rewrite ((groups "/a(b(c)d)(\n(:g))(h".toList).map removal)
          "/a(b(c)d)(\n(:g))(h".toList ∧
      fillPath (.text "/ad)(\n)(h") (.text "x") = .ok "/ad)(\n)(h" ∧
      ∃ report, reportOn (.text "/ad)(\n)(h") (.list [.int 1]) = .ok report ∧
        report.hasGroups = false := by
  have empty : (Arguments.ofValue (.list [])).isEmpty = true := rfl
  have filled : fillPath (.text "/a(b(c)d)(\n(:g))(h") (.list []) = .ok "/ad)(\n)(h" := rfl
  obtain ⟨path, built, ungrouped, none, whole, again, reports⟩ :=
    path_without_arguments_is_stable "/a(b(c)d)(\n(:g))(h" (.list []) empty
  rw [filled, Except.ok.injEq] at built
  subst built
  exact ⟨empty, filled, ungrouped, none, whole, again (.text "x") rfl, reports _⟩

end RoutePattern
