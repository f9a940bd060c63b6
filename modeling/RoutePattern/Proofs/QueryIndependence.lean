import RoutePattern.Proofs.Acceptance
import RoutePattern.Proofs.Priority
import RoutePattern.Proofs.Tame
import RoutePattern.Request

/-! A query never has any influence on how the path in front of it is matched. Two addresses
that differ in their queries are matched side by side: a tame expression cannot take in the
question mark, so it reaches the same cursors on both in the same order, each with the query
still ahead of it, and what follows the path then succeeds on both or on neither. This holds
of every pattern that compiles and has no question mark itself, however unusual it is. -/
namespace RoutePattern
open Pattern

namespace Cursor
variable {bound number : Nat} {cursor middle reached : Cursor} {query : Option (List Char)}

/-- The cursor at the same place of a text with a query behind it. -/
def ahead (query : Option (List Char)) (cursor : Cursor) : Cursor :=
  { cursor with rest := cursor.rest ++ querySuffix query }

/-- A cursor behind another one: it has taken in a stretch of the text, and the groups from
a number on are as they were. -/
structure Follows (bound : Nat) (cursor reached : Cursor) : Prop where
  text : ∃ text, cursor.rest = text ++ reached.rest ∧
    reached.consumed = cursor.consumed + text.length
  length : reached.captures.length = cursor.captures.length
  kept : reached.captures.drop bound = cursor.captures.drop bound

private theorem Follows.refl (bound : Nat) (cursor : Cursor) : Follows bound cursor cursor :=
  ⟨⟨[], rfl, rfl⟩, rfl, rfl⟩

private theorem Follows.trans (first : Follows bound cursor middle)
    (later : Follows bound middle reached) :
    Follows bound cursor reached := by
  obtain ⟨front, begun, moved⟩ := first.text
  obtain ⟨behind, more, further⟩ := later.text
  refine ⟨⟨front ++ behind, ?_, ?_⟩, later.length.trans first.length, later.kept.trans first.kept⟩
  · rw [begun, more, List.append_assoc]
  · rw [further, moved, List.length_append, Nat.add_assoc]

private theorem Follows.capture (follows : Follows bound cursor reached) (below : number < bound) :
    Follows bound cursor (reached.capture number cursor) := by
  refine ⟨follows.text, ?_, ?_⟩
  · rw [← follows.length, Cursor.capture, List.length_set]
  · rw [← follows.kept, Cursor.capture, List.drop_set_of_lt below]

/-- What has taken in something has less ahead. -/
theorem Follows.shorter (follows : Follows bound cursor reached)
    (moved : reached.consumed ≠ cursor.consumed) : reached.rest.length < cursor.rest.length := by
  obtain ⟨text, begun, further⟩ := follows.text
  rw [begun, List.length_append]
  omega

/-- A group takes in the same text, with a query behind it or without. -/
theorem Follows.capture_ahead (follows : Follows bound cursor reached) (number : Nat) :
    (reached.ahead query).capture number (cursor.ahead query) =
      (reached.capture number cursor).ahead query := by
  obtain ⟨text, begun, further⟩ := follows.text
  have passed : reached.consumed - cursor.consumed = text.length := by omega
  simp only [Cursor.capture, ahead, passed, begun, List.append_assoc, List.take_left]

end Cursor

namespace Expr
open Cursor

section Repetitions
variable {bound : Nat} {body again more : Cursor → List Cursor} {query : Option (List Char)}

/-- One repetition and those behind it. One that takes in nothing is the last. -/
theorem follows_repeated {cursor : Cursor} (each : ∀ reached ∈ body cursor, Follows bound cursor reached)
    (later : ∀ middle, ∀ reached ∈ again middle, Follows bound middle reached) :
    ∀ reached ∈ (body cursor).flatMap (fun middle =>
        if middle.consumed == cursor.consumed then [middle] else again middle),
      Follows bound cursor reached := by
  intro reached member
  obtain ⟨middle, first, member⟩ := List.mem_flatMap.mp member
  split at member
  · rw [List.mem_singleton] at member
    exact member ▸ each middle first
  · exact (each middle first).trans (later middle reached member)

private theorem follows_waysGreedy
    (each : ∀ cursor, ∀ reached ∈ body cursor, Follows bound cursor reached)
    (fuel : Nat) (cursor : Cursor) :
    ∀ reached ∈ waysGreedy body fuel cursor, Follows bound cursor reached := by
  induction fuel generalizing cursor with
  | zero =>
    intro reached member
    rw [waysGreedy, List.mem_singleton] at member
    exact member ▸ .refl bound cursor
  | succ fuel ih =>
    rw [waysGreedy, List.forall_mem_append, List.forall_mem_singleton]
    exact ⟨follows_repeated (each cursor) ih, .refl bound cursor⟩

private theorem follows_waysReluctant
    (each : ∀ cursor, ∀ reached ∈ body cursor, Follows bound cursor reached)
    (fuel : Nat) (cursor : Cursor) :
    ∀ reached ∈ waysReluctant body fuel cursor, Follows bound cursor reached := by
  induction fuel generalizing cursor with
  | zero =>
    intro reached member
    rw [waysReluctant, List.mem_singleton] at member
    exact member ▸ .refl bound cursor
  | succ fuel ih =>
    rw [waysReluctant, List.forall_mem_cons]
    exact ⟨.refl bound cursor, follows_repeated (each cursor) ih⟩

/-- One repetition and those behind it, on both texts. -/
theorem repeated_ahead {cursor : Cursor}
    (same : body (cursor.ahead query) = (body cursor).map (ahead query))
    (later : ∀ reached ∈ body cursor, reached.consumed ≠ cursor.consumed →
      more (reached.ahead query) = (again reached).map (ahead query)) :
    (body (cursor.ahead query)).flatMap (fun reached =>
        if reached.consumed == cursor.consumed then [reached] else more reached) =
      ((body cursor).flatMap fun reached =>
        if reached.consumed == cursor.consumed then [reached] else again reached).map
          (ahead query) := by
  rw [same, List.flatMap_map, List.map_flatMap]
  apply List.flatMap_congr
  intro reached member
  by_cases moved : reached.consumed = cursor.consumed
  · simp [ahead, moved]
  · have further := later reached member moved
    simpa [ahead, moved] using further

/-- With a query behind it a text needs more fuel, of which nothing is used up. -/
theorem waysGreedy_ahead
    (each : ∀ cursor, ∀ reached ∈ body cursor, Follows bound cursor reached)
    (same : ∀ cursor, body (cursor.ahead query) = (body cursor).map (ahead query))
    (fuel most : Nat) (cursor : Cursor) (enough : cursor.rest.length < fuel)
    (plenty : cursor.rest.length < most) :
    waysGreedy body most (cursor.ahead query) =
      (waysGreedy body fuel cursor).map (ahead query) := by
  induction fuel generalizing most cursor with
  | zero => omega
  | succ fuel ih =>
    obtain ⟨most, rfl⟩ : ∃ less, most = less + 1 := ⟨most - 1, by omega⟩
    rw [waysGreedy, waysGreedy, List.map_append]
    congr 1
    apply repeated_ahead (same cursor)
    intro reached member moved
    have shorter := (each cursor reached member).shorter moved
    exact ih most reached (by omega) (by omega)

private theorem waysReluctant_ahead
    (each : ∀ cursor, ∀ reached ∈ body cursor, Follows bound cursor reached)
    (same : ∀ cursor, body (cursor.ahead query) = (body cursor).map (ahead query))
    (fuel most : Nat) (cursor : Cursor) (enough : cursor.rest.length < fuel)
    (plenty : cursor.rest.length < most) :
    waysReluctant body most (cursor.ahead query) =
      (waysReluctant body fuel cursor).map (ahead query) := by
  induction fuel generalizing most cursor with
  | zero => omega
  | succ fuel ih =>
    obtain ⟨most, rfl⟩ : ∃ less, most = less + 1 := ⟨most - 1, by omega⟩
    rw [waysReluctant, waysReluctant, List.map_cons]
    congr 1
    apply repeated_ahead (same cursor)
    intro reached member moved
    have shorter := (each cursor reached member).shorter moved
    exact ih most reached (by omega) (by omega)

end Repetitions

section Ways
variable {bound : Nat} {expr : Expr} {query : Option (List Char)}

private theorem follows_advance (bound : Nat) (set : CharSet) (cursor : Cursor) :
    ∀ reached ∈ ways (.one set) cursor, Follows bound cursor reached := by
  obtain ⟨consumed, rest, captures⟩ := cursor
  cases rest with
  | nil => simp [ways, Cursor.advance]
  | cons char rest =>
    intro reached member
    cases held : set.has char with
    | false => simp [ways, Cursor.advance, held] at member
    | true =>
      simp only [ways, Cursor.advance, held, if_true, Option.toList_some, List.mem_singleton]
        at member
      subst member
      exact ⟨⟨[char], rfl, rfl⟩, rfl, rfl⟩

/-- Whatever a tame expression reaches is behind the cursor it is run from. -/
theorem follows_ways (tame : expr.Tame bound) (cursor : Cursor) :
    ∀ reached ∈ expr.ways cursor, Follows bound cursor reached := by
  induction expr generalizing cursor with
  | empty =>
    rw [ways, List.forall_mem_singleton]
    exact .refl bound cursor
  | one set => exact follows_advance bound set cursor
  | start => exact tame.elim
  | finish => exact tame.elim
  | cat first second ihFirst ihSecond =>
    intro reached member
    obtain ⟨middle, begun, ended⟩ := List.mem_flatMap.mp member
    exact (ihFirst tame.1 cursor middle begun).trans (ihSecond tame.2 middle reached ended)
  | group capture body ih =>
    cases capture with
    | none => exact ih tame.2 cursor
    | some number =>
      rw [ways, List.forall_mem_map]
      exact fun reached member => (ih tame.2 cursor reached member).capture (tame.1 number rfl)
  | iterate times body ih =>
    cases times with
    | atMostOnce =>
      rw [ways, List.forall_mem_append, List.forall_mem_singleton]
      exact ⟨ih tame cursor, .refl bound cursor⟩
    | greedy => exact follows_waysGreedy (ih tame) _ cursor
    | reluctant => exact follows_waysReluctant (ih tame) _ cursor
    | atLeastOnce =>
      intro reached member
      obtain ⟨middle, begun, ended⟩ := List.mem_flatMap.mp member
      exact (ih tame cursor middle begun).trans
        (follows_waysGreedy (ih tame) _ middle reached ended)

private theorem advance_ahead {set : CharSet} (clear : set.has '?' = false) (cursor : Cursor) :
    ways (.one set) (cursor.ahead query) = (ways (.one set) cursor).map (ahead query) := by
  obtain ⟨consumed, rest, captures⟩ := cursor
  cases rest with
  | nil => cases query <;> simp [ways, Cursor.advance, ahead, querySuffix, clear]
  | cons char rest =>
    cases held : set.has char <;> simp [ways, Cursor.advance, ahead, held]

/-- A tame expression reaches the same cursors, in the same order, whatever query there is
behind the text. -/
theorem ways_ahead (tame : expr.Tame bound) (cursor : Cursor) :
    expr.ways (cursor.ahead query) = (expr.ways cursor).map (ahead query) := by
  have longer (cursor : Cursor) : cursor.rest.length < (cursor.ahead query).rest.length + 1 := by
    simp only [ahead, List.length_append]
    omega
  induction expr generalizing cursor with
  | empty => rfl
  | one set => exact advance_ahead tame cursor
  | start => exact tame.elim
  | finish => exact tame.elim
  | cat first second ihFirst ihSecond =>
    rw [ways, ways, ihFirst tame.1, List.flatMap_map, List.map_flatMap]
    exact List.flatMap_congr fun reached _ => ihSecond tame.2 reached
  | group capture body ih =>
    cases capture with
    | none => exact ih tame.2 cursor
    | some number =>
      rw [ways, ways, ih tame.2, List.map_map, List.map_map]
      apply List.map_congr_left
      intro reached member
      exact (follows_ways tame.2 cursor reached member).capture_ahead number
  | iterate times body ih =>
    have inner : body.Tame bound := tame
    have behind := follows_ways inner
    cases times with
    | atMostOnce => rw [ways, ways, ih inner, List.map_append, List.map_singleton]
    | greedy =>
      exact waysGreedy_ahead behind (ih inner) _ _ cursor (Nat.lt_succ_self _) (longer cursor)
    | reluctant =>
      exact waysReluctant_ahead behind (ih inner) _ _ cursor (Nat.lt_succ_self _) (longer cursor)
    | atLeastOnce =>
      rw [ways, ways, ih inner, List.flatMap_map, List.map_flatMap]
      exact List.flatMap_congr fun reached _ => waysGreedy_ahead behind (ih inner) _ _ reached
        (Nat.lt_succ_self _) (longer reached)

private theorem tame_sequence {exprs : List Expr} (tame : ∀ expr ∈ exprs, expr.Tame bound) :
    (sequence exprs).Tame bound := by
  induction exprs with
  | nil => trivial
  | cons expr exprs ih =>
    exact ⟨tame expr (by simp), ih fun other member => tame other (by simp [member])⟩

end Ways

end Expr

section Closing
variable {bound : Nat} {rest path : List Char} {own : List Expr} {compiled : Route}

private theorem querySuffix_injective {query other : Option (List Char)}
    (same : querySuffix query = querySuffix other) : query = other := by
  cases query <;> cases other <;> simp_all [querySuffix]

/-- Behind a path nothing may be left but the query, which is captured. -/
theorem findSome?_ways_closing (place : Nat) (query : Option (List Char))
    (done : List (Option (List Char))) (mark : '?' ∉ rest) :
    ((sequence (closing done.length)).ways
        (Cursor.settled (done.length + 1) place (rest ++ querySuffix query) done)).findSome? some =
      if rest = [] then
        some (Cursor.settled (done.length + 1) (place + (querySuffix query).length) []
          (done ++ [query]))
      else none := by
  have reaches (reached : Cursor) :=
    mem_ways_closing_iff place (rest ++ querySuffix query) done reached
  cases rest with
  | nil =>
    rw [if_pos rfl]
    refine findSome?_of_unique _ ((reaches _).mpr ⟨query, rfl, rfl⟩) rfl fun other member _ => ?_
    obtain ⟨suffix, same, rfl⟩ := (reaches other).mp member
    rw [querySuffix_injective same, List.nil_append]
  | cons char rest =>
    rw [if_neg (List.cons_ne_nil _ _), List.findSome?_eq_none_iff]
    intro reached member
    obtain ⟨suffix, same, _⟩ := (reaches reached).mp member
    cases suffix with
    | none => cases same
    | some text =>
      have first : char = '?' := (List.cons.inj same).1
      exact absurd (first ▸ List.mem_cons_self) mark

/-- A cursor behind which only the last group is open. -/
theorem eq_settled {cursor : Cursor} (length : cursor.captures.length = bound + 1)
    (last : cursor.captures.drop bound = [none]) :
    (cursor.captures.take bound).length = bound ∧
      cursor = Cursor.settled (bound + 1) cursor.consumed cursor.rest
        (cursor.captures.take bound) := by
  have taken : (cursor.captures.take bound).length = bound := by
    rw [List.length_take]
    omega
  have whole := List.take_append_drop bound cursor.captures
  refine ⟨taken, ?_⟩
  rw [Cursor.settled, taken, Nat.add_sub_cancel_left, List.replicate_one, ← last, whole]

/-- What tame items find on a path is what they find in front of any query; the query is
captured behind it. -/
theorem captures?_of_tame (whole : compiled.expr = .cat .start (sequence (own ++ closing bound)))
    (count : compiled.captures = bound + 1) (tame : ∀ item ∈ own, item.Tame bound)
    (mark : '?' ∉ path) :
    ∃ found : Option (List (Option (List Char))), ∀ query,
      compiled.captures? (path ++ querySuffix query) = found.map (· ++ [query]) := by
  have items := Expr.tame_sequence tame
  have behind := Expr.follows_ways items (Cursor.settled (bound + 1) 0 path [])
  refine ⟨((sequence own).ways (Cursor.settled (bound + 1) 0 path [])).findSome? fun reached =>
    if reached.rest = [] then some (reached.captures.take bound) else none, fun query => ?_⟩
  have begun : Cursor.settled (bound + 1) 0 (path ++ querySuffix query) [] =
      (Cursor.settled (bound + 1) 0 path []).ahead query := rfl
  have split : compiled.expr.ways ((Cursor.settled (bound + 1) 0 path []).ahead query) =
      ((sequence own).ways (Cursor.settled (bound + 1) 0 path [])).flatMap fun reached =>
        (sequence (closing bound)).ways (reached.ahead query) := by
    rw [whole, ← List.flatMap_map, ← Expr.ways_ahead items, ← ways_sequence_append]
    exact List.flatMap_singleton _ _
  rw [Route.captures?_eq, count, begun, split, Expr.findSome?_flatMap, List.map_findSome?,
    List.map_findSome?, ← List.head?_filterMap, ← List.head?_filterMap]
  congr 1
  apply List.filterMap_congr
  intro reached member
  have follows := behind reached member
  obtain ⟨text, passed, _⟩ := follows.text
  have clear : '?' ∉ reached.rest := fun inside =>
    mark ((show path = _ from passed) ▸ List.mem_append_right text inside)
  have length : reached.captures.length = bound + 1 := by
    simpa [Cursor.settled] using follows.length
  have last : reached.captures.drop bound = [none] := by
    simpa [Cursor.settled] using follows.kept
  obtain ⟨taken, settled⟩ := eq_settled length last
  have closed := findSome?_ways_closing reached.consumed query (reached.captures.take bound) clear
  have placed : reached.ahead query = Cursor.settled (bound + 1) reached.consumed
      (reached.rest ++ querySuffix query) (reached.captures.take bound) :=
    congrArg (Cursor.ahead query) settled
  rw [taken, ← placed] at closed
  rw [Function.comp_apply, Function.comp_apply, closed]
  split
  · simp [Cursor.settled, taken]
  · rfl

/-- The route of a pattern without a question mark finds the same on a path, whatever query
there is behind it, and captures the query as it is. -/
theorem captures?_query {pattern : List Char} (mark : '?' ∉ pattern)
    (compiles : Route.compile pattern = .ok compiled) (clear : '?' ∉ path) :
    ∃ found : Option (List (Option (List Char))), ∀ query,
      compiled.captures? (path ++ querySuffix query) = found.map (· ++ [query]) := by
  obtain ⟨_, read⟩ := Route.compile_eq_ok_iff.mp compiles
  obtain ⟨own, bound, expr, count, tame⟩ := read_source_cases mark read
  exact captures?_of_tame expr count tame clear

end Closing

namespace Address

/-- A text up to the first place of a mark. -/
def before (mark : Char) (text : List Char) : List Char := text.takeWhile (· != mark)

/-- What stands behind the first place of a mark, if it has one. -/
def behind? (mark : Char) (text : List Char) : Option (List Char) :=
  match text.dropWhile (· != mark) with
  | [] => none
  | _ :: rest => some rest

private theorem not_mem_before (mark : Char) (text : List Char) : mark ∉ before mark text := by
  intro member
  have other := List.mem_takeWhile_imp member
  simp at other

/-- A text goes on with the mark exactly if there is something behind it. -/
theorem before_append_behind? (mark : Char) (text : List Char) :
    before mark text ++ ((behind? mark text).elim [] fun rest => mark :: rest) = text := by
  have whole : before mark text ++ text.dropWhile (· != mark) = text :=
    List.takeWhile_append_dropWhile
  unfold behind?
  cases left : text.dropWhile (· != mark) with
  | nil => rwa [left] at whole
  | cons first rest =>
    have same : first = mark := by
      have stopped := List.head_dropWhile_not (· != mark) (l := text) (by simp [left])
      simpa [left] using stopped
    rw [left, same] at whole
    exact whole

/-- Behind a mark it does not matter how a text goes on. -/
theorem before_append_mark (mark : Char) (text rest : List Char) :
    before mark (text ++ mark :: rest) = before mark text := by
  induction text with
  | nil => simp [before]
  | cons char text ih =>
    unfold before at ih ⊢
    rw [List.cons_append, List.takeWhile_cons, List.takeWhile_cons, ih]

end Address

section Addresses
variable {compiled : Route} {pattern : String} {session : Session}

/-- An address up to its first question mark. -/
def beforeQuery (url : List Char) : List Char := Address.before '?' url

/-- What stands behind the first question mark of an address, if it has one. -/
def queryOf (url : List Char) : Option (List Char) := Address.behind? '?' url

private theorem mark_not_mem_beforeQuery (url : List Char) : '?' ∉ beforeQuery url :=
  Address.not_mem_before '?' url

private theorem beforeQuery_append_querySuffix (url : List Char) :
    beforeQuery url ++ querySuffix (queryOf url) = url := by
  have whole := Address.before_append_behind? '?' url
  rw [beforeQuery, queryOf]
  cases found : Address.behind? '?' url with
  | none => rwa [found] at whole
  | some query => rwa [found] at whole

private theorem beforeQuery_target (request : Request) :
    beforeQuery request.target.toList = beforeQuery request.path.toList := by
  unfold Request.target
  split
  · rfl
  · rw [String.toList_append, String.toList_append, List.append_assoc]
    exact Address.before_append_mark '?' request.path.toList request.query.toList

private theorem accepts_beforeQuery (mark : '?' ∉ pattern.toList)
    (compiles : Route.compile pattern.toList = .ok compiled) (url : List Char) :
    compiled.accepts url = compiled.accepts (beforeQuery url) := by
  obtain ⟨found, all⟩ := captures?_query mark compiles (mark_not_mem_beforeQuery url)
  have here := all (queryOf url)
  have alone := all none
  rw [beforeQuery_append_querySuffix] at here
  rw [querySuffix, List.append_nil] at alone
  rw [Route.accepts, Route.accepts, here, alone, Option.isSome_map, Option.isSome_map]

private theorem answer_matchesPattern (compiles : Route.compile pattern.toList = .ok compiled)
    (request : Request) (session : Session) (sound : session.cache.Sound) :
    (outcome (request.matchesPattern (.text pattern)) session).1 =
      .ok (compiled.accepts request.target.toList) := by
  rw [Request.matchesPattern, coerce_testNamed, outcome_bind]
  exact Session.outcome_test _ rfl rfl compiles session sound

/-- A request that does not match is rejected, in whatever way the status is. -/
theorem answer_require (compiles : Route.compile pattern.toList = .ok compiled)
    (request : Request) (status : Int) (rejection : Int → Error) (session : Session)
    (sound : session.cache.Sound) :
    (outcome (request.require (.text pattern) status rejection) session).1 =
      if compiled.accepts request.target.toList then .ok () else .error (rejection status) := by
  have answer := answer_matchesPattern compiles request session sound
  rw [Request.require, outcome_bind]
  cases both : outcome (request.matchesPattern (.text pattern)) session with
  | mk found later =>
    rw [both] at answer
    rw [show found = _ from answer]
    cases compiled.accepts request.target.toList with
    | true => rfl
    | false => rfl

end Addresses

/-- A query has no influence on matching. For every pattern without a question mark that
compiles, an address matches exactly if it does without its query; all groups but the last
capture the same, and the last one captures the query, or nothing where there is none. So two
requests for one path get the same answer, and are rejected or let through alike. -/
theorem query_has_no_influence (pattern : String) (compiled : Route)
    (mark : '?' ∉ pattern.toList) (compiles : Route.compile pattern.toList = .ok compiled) :
    (∀ url, ((compiled.captures? url).isSome ↔ (compiled.captures? (beforeQuery url)).isSome) ∧
      ∀ captures, compiled.captures? url = some captures →
        ∃ own, captures = own ++ [queryOf url] ∧
          compiled.captures? (beforeQuery url) = some (own ++ [none])) ∧
    ∀ request other : Request, request.path = other.path →
      ∀ session later : Session, session.cache.Sound → later.cache.Sound →
        (outcome (request.matchesPattern (.text pattern)) session).1 =
          (outcome (other.matchesPattern (.text pattern)) later).1 ∧
        ∀ status rejection,
          (outcome (request.require (.text pattern) status rejection) session).1 =
            (outcome (other.require (.text pattern) status rejection) later).1 := by
  refine ⟨fun url => ⟨?_, fun captures matched => ?_⟩, ?_⟩
  · exact Eq.to_iff (congrArg (· = true) (accepts_beforeQuery mark compiles url))
  · obtain ⟨found, all⟩ := captures?_query mark compiles (mark_not_mem_beforeQuery url)
    have here := all (queryOf url)
    have alone := all none
    rw [beforeQuery_append_querySuffix, matched] at here
    rw [querySuffix, List.append_nil] at alone
    obtain ⟨own, rfl, same⟩ := Option.map_eq_some_iff.mp here.symm
    exact ⟨own, same.symm, alone⟩
  · intro request other path session later sound alsoSound
    have accepted : compiled.accepts request.target.toList =
        compiled.accepts other.target.toList := by
      rw [accepts_beforeQuery mark compiles, accepts_beforeQuery mark compiles other.target.toList,
        beforeQuery_target, beforeQuery_target, path]
    refine ⟨?_, fun status rejection => ?_⟩
    · rw [answer_matchesPattern compiles request session sound,
        answer_matchesPattern compiles other later alsoSound, accepted]
    · rw [answer_require compiles request status rejection session sound,
        answer_require compiles other status rejection later alsoSound, accepted]

/-- A group around a group, an asterisk without a name, and a query with a question mark. -/
theorem query_has_no_influence_nested :
    '?' ∉ "/a(b(:c)d*)".toList ∧
      ∃ compiled, Route.compile "/a(b(:c)d*)".toList = .ok compiled ∧
        (∃ own, compiled.captures? "/ab5dd?x?y".toList = some (own ++ [some "x?y".toList]) ∧
          compiled.captures? "/ab5dd".toList = some (own ++ [none])) ∧
        (outcome (Request.matchesPattern { path := "/ab5dd", query := "x?y" }
            (.text "/a(b(:c)d*)")) {}).1 =
          (outcome (Request.matchesPattern { path := "/ab5dd" } (.text "/a(b(:c)d*)")) {}).1 ∧
        (outcome (Request.require { path := "/ab5dd", query := "x?y" }
            (.text "/a(b(:c)d*)") 404 .rejected) {}).1 =
          (outcome (Request.require { path := "/ab5dd" } (.text "/a(b(:c)d*)") 404
            .rejected) {}).1 := by
  have mark : '?' ∉ "/a(b(:c)d*)".toList := by decide
  obtain ⟨compiled, compiles, matched⟩ :
      ∃ compiled, Route.compile "/a(b(:c)d*)".toList = .ok compiled ∧
        (compiled.captures? "/ab5dd?x?y".toList).isSome = true := ⟨_, rfl, rfl⟩
  obtain ⟨captures, found⟩ := Option.isSome_iff_exists.mp matched
  obtain ⟨addresses, requests⟩ := query_has_no_influence "/a(b(:c)d*)" compiled mark compiles
  obtain ⟨own, rfl, alone⟩ := (addresses "/ab5dd?x?y".toList).2 captures found
  obtain ⟨answers, rejections⟩ := requests { path := "/ab5dd", query := "x?y" }
    { path := "/ab5dd" } rfl {} {} Cache.sound_empty Cache.sound_empty
  exact ⟨mark, compiled, compiles, ⟨own, found, alone⟩, answers, rejections 404 .rejected⟩

end RoutePattern
