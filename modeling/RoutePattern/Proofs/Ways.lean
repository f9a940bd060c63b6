import Mathlib
import RoutePattern.Expr.Matching

/-! The cursors that an expression can reach, listed in the order in which backtracking
tries them. Running an expression is searching this list for the first cursor at which
everything behind it succeeds, so that what is accepted is a matter of membership, and
what is captured one of order. -/
namespace RoutePattern

namespace Cursor

/-- The cursor so many characters further on. -/
def past (cursor : Cursor) (count : Nat) : Cursor :=
  { cursor with consumed := cursor.consumed + count, rest := cursor.rest.drop count }

/-- How many characters ahead belong to a set. -/
def reach (set : CharSet) (cursor : Cursor) : Nat := (cursor.rest.takeWhile set.has).length

@[simp] theorem past_zero (cursor : Cursor) : cursor.past 0 = cursor := by
  simp [past]

private theorem past_one_past (cursor : Cursor) :
    (cursor.past 1).past = fun count => cursor.past (count + 1) := by
  funext count
  simp [past, Nat.add_assoc, Nat.add_comm 1]

private theorem past_one_consumed (cursor : Cursor) :
    (cursor.past 1).consumed ≠ cursor.consumed := by
  simp [past]

/-- A cursor at which the first capturing groups have been settled, while the others have
not taken part. -/
def settled (total place : Nat) (rest : List Char) (done : List (Option (List Char))) : Cursor :=
  ⟨place, rest, done ++ List.replicate (total - done.length) none⟩

/-- The next group takes in what has been passed since it was opened. -/
theorem settled_capture (place : Nat) (text behind : List Char)
    {done : List (Option (List Char))} (begun : done.length < total) :
    ((settled total place (text ++ behind) done).past text.length).capture done.length
        (settled total place (text ++ behind) done) =
      settled total (place + text.length) behind (done ++ [some text]) := by
  obtain ⟨more, rfl⟩ : ∃ more, total = done.length + (more + 1) :=
    ⟨total - done.length - 1, by omega⟩
  have left : done.length + (more + 1) - (done.length + 1) = more := by omega
  simp [settled, past, capture, List.replicate_succ, left]

end Cursor

namespace Expr

/-- The cursors behind repetitions, those behind more repetitions first. -/
def waysGreedy (body : Cursor → List Cursor) : Nat → Cursor → List Cursor
  | 0, cursor => [cursor]
  | fuel + 1, cursor =>
    (body cursor).flatMap (fun reached =>
      if reached.consumed == cursor.consumed then [reached]
      else waysGreedy body fuel reached) ++ [cursor]

/-- The cursors behind repetitions, those behind fewer repetitions first. -/
def waysReluctant (body : Cursor → List Cursor) : Nat → Cursor → List Cursor
  | 0, cursor => [cursor]
  | fuel + 1, cursor =>
    cursor :: (body cursor).flatMap (fun reached =>
      if reached.consumed == cursor.consumed then [reached]
      else waysReluctant body fuel reached)

/-- The cursors behind an expression, in the order in which they are tried. -/
def ways : Expr → Cursor → List Cursor
  | .empty, cursor => [cursor]
  | .one set, cursor => (cursor.advance set).toList
  | .start, cursor => if cursor.consumed == 0 then [cursor] else []
  | .finish, cursor => if cursor.rest.isEmpty then [cursor] else []
  | .cat first second, cursor => (ways first cursor).flatMap (ways second)
  | .group none body, cursor => ways body cursor
  | .group (some number) body, cursor =>
    (ways body cursor).map fun reached => reached.capture number cursor
  | .iterate .atMostOnce body, cursor => ways body cursor ++ [cursor]
  | .iterate .greedy body, cursor => waysGreedy (ways body) (cursor.rest.length + 1) cursor
  | .iterate .reluctant body, cursor =>
    waysReluctant (ways body) (cursor.rest.length + 1) cursor
  | .iterate .atLeastOnce body, cursor =>
    (ways body cursor).flatMap fun reached =>
      waysGreedy (ways body) (reached.rest.length + 1) reached

section Search
variable {body : Continuation → Continuation} {list : Cursor → List Cursor}

theorem findSome?_flatMap {α β γ : Type} (list : List α) (change : α → List β)
    (test : β → Option γ) :
    (list.flatMap change).findSome? test =
      list.findSome? fun item => (change item).findSome? test := by
  induction list with
  | nil => rfl
  | cons item list ih =>
    rw [List.flatMap_cons, List.findSome?_append, ih, List.findSome?_cons]
    cases (change item).findSome? test <;> rfl

private theorem runGreedy_eq_findSome? (lists : ∀ next cursor,
      body next cursor = (list cursor).findSome? next) (next : Continuation) (fuel : Nat)
    (cursor : Cursor) :
    runGreedy body next fuel cursor = (waysGreedy list fuel cursor).findSome? next := by
  induction fuel generalizing cursor with
  | zero => simp [runGreedy, waysGreedy]
  | succ fuel ih =>
    have same (reached : Cursor) :
        (if reached.consumed == cursor.consumed then next reached
          else runGreedy body next fuel reached) =
        (if reached.consumed == cursor.consumed then [reached]
          else waysGreedy list fuel reached).findSome? next := by
      split
      · simp
      · exact ih reached
    rw [runGreedy, waysGreedy, List.findSome?_append, findSome?_flatMap, lists, funext same]
    simp

private theorem runReluctant_eq_findSome? (lists : ∀ next cursor,
      body next cursor = (list cursor).findSome? next) (next : Continuation) (fuel : Nat)
    (cursor : Cursor) :
    runReluctant body next fuel cursor = (waysReluctant list fuel cursor).findSome? next := by
  induction fuel generalizing cursor with
  | zero => simp [runReluctant, waysReluctant]
  | succ fuel ih =>
    have same (reached : Cursor) :
        (if reached.consumed == cursor.consumed then next reached
          else runReluctant body next fuel reached) =
        (if reached.consumed == cursor.consumed then [reached]
          else waysReluctant list fuel reached).findSome? next := by
      split
      · simp
      · exact ih reached
    rw [runReluctant, waysReluctant, List.findSome?_cons, findSome?_flatMap, lists, funext same]
    cases next cursor <;> rfl

end Search

/-- Backtracking takes the first reachable cursor at which all that follows succeeds. -/
theorem run_eq_findSome? (expr : Expr) (next : Continuation) (cursor : Cursor) :
    expr.run next cursor = (expr.ways cursor).findSome? next := by
  induction expr generalizing next cursor with
  | empty => simp [run, ways]
  | one set =>
    rw [run, ways]
    cases cursor.advance set <;> simp
  | start =>
    rw [run, ways]
    split <;> simp
  | finish =>
    rw [run, ways]
    split <;> simp
  | cat first second ihFirst ihSecond =>
    rw [run, ways, ihFirst, findSome?_flatMap, funext (ihSecond next)]
  | group number body ih =>
    cases number with
    | none => rw [run, ways, ih]
    | some number =>
      rw [run, ways, ih, List.findSome?_map]
      rfl
  | iterate times body ih =>
    cases times with
    | atMostOnce =>
      rw [run, ways, List.findSome?_append, ih]
      simp
    | greedy => rw [run, ways, runGreedy_eq_findSome? ih]
    | reluctant => rw [run, ways, runReluctant_eq_findSome? ih]
    | atLeastOnce =>
      rw [run, ways, ih, findSome?_flatMap]
      exact congrArg (List.findSome? · (body.ways cursor))
        (funext fun reached => runGreedy_eq_findSome? ih next _ reached)

section Runs
variable {set : CharSet} {cursor : Cursor}

private theorem ways_one_cases (set : CharSet) (cursor : Cursor) :
    (ways (.one set) cursor = [] ∧ cursor.reach set = 0) ∨
      (ways (.one set) cursor = [cursor.past 1] ∧
        cursor.reach set = (cursor.past 1).reach set + 1 ∧
        cursor.rest.length = (cursor.past 1).rest.length + 1) := by
  obtain ⟨consumed, rest, captures⟩ := cursor
  cases rest with
  | nil => exact .inl ⟨rfl, rfl⟩
  | cons char rest =>
    by_cases member : set.has char = true
    · exact .inr ⟨by simp [ways, Cursor.advance, Cursor.past, member],
        by simp [Cursor.reach, Cursor.past, member], by simp [Cursor.past]⟩
    · exact .inl ⟨by simp [ways, Cursor.advance, member], by simp [Cursor.reach, member]⟩

/-- As many characters of a set as there are, then one less, down to none. -/
theorem waysGreedy_one (fuel : Nat) (cursor : Cursor) (enough : cursor.rest.length < fuel) :
    waysGreedy (ways (.one set)) fuel cursor =
      ((List.range (cursor.reach set + 1)).map cursor.past).reverse := by
  induction fuel generalizing cursor with
  | zero => omega
  | succ fuel ih =>
    rcases ways_one_cases set cursor with ⟨stuck, ended⟩ | ⟨moved, further, shorter⟩
    · simp [waysGreedy, stuck, ended]
    · rw [waysGreedy, moved, further, List.range_succ_eq_map]
      simp [Cursor.past_one_consumed, ih (cursor.past 1) (by omega), Function.comp_def,
        Cursor.past_one_past]

/-- No character, then one character of a set, up to as many as there are. -/
theorem waysReluctant_one (fuel : Nat) (cursor : Cursor) (enough : cursor.rest.length < fuel) :
    waysReluctant (ways (.one set)) fuel cursor =
      (List.range (cursor.reach set + 1)).map cursor.past := by
  induction fuel generalizing cursor with
  | zero => omega
  | succ fuel ih =>
    rcases ways_one_cases set cursor with ⟨stuck, ended⟩ | ⟨moved, further, shorter⟩
    · simp [waysReluctant, stuck, ended]
    · rw [waysReluctant, moved, further, List.range_succ_eq_map]
      simp [Cursor.past_one_consumed, ih (cursor.past 1) (by omega), Function.comp_def,
        Cursor.past_one_past]

/-- As many characters of a set as there are, then one less, down to a single one. -/
theorem ways_atLeastOnce_one (set : CharSet) (cursor : Cursor) :
    ways (.iterate .atLeastOnce (.one set)) cursor =
      ((List.range (cursor.reach set)).map fun count => cursor.past (count + 1)).reverse := by
  rw [ways]
  rcases ways_one_cases set cursor with ⟨stuck, ended⟩ | ⟨moved, further, _⟩
  · simp [stuck, ended]
  · rw [moved, further, List.flatMap_singleton, waysGreedy_one _ _ (Nat.lt_succ_self _)]
    simp [Cursor.past_one_past]

theorem ways_reluctant_one (set : CharSet) (cursor : Cursor) :
    ways (.iterate .reluctant (.one set)) cursor =
      (List.range (cursor.reach set + 1)).map cursor.past := by
  rw [ways, waysReluctant_one _ _ (Nat.lt_succ_self _)]

/-- A capture of a single item records what each way through the item takes in. -/
theorem ways_capture (number : Nat) (body : Expr) (cursor : Cursor) :
    ways (.group (some number) (.cat body .empty)) cursor =
      (ways body cursor).map fun reached => reached.capture number cursor := by
  rw [ways, ways]
  exact congrArg (List.map _) (List.flatMap_singleton' _)

end Runs

end Expr
end RoutePattern
