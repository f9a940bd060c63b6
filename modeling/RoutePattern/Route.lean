import RoutePattern.Expr.Matching
import RoutePattern.Expr.Reader
import RoutePattern.Pattern.Source

/-! Routes: patterns compiled to expressions. -/
namespace RoutePattern

/-- The expression of a pattern as text, as an expression, and the number of its
capturing groups. -/
structure Route where
  source : List Char
  expr : Expr
  captures : Nat
deriving DecidableEq, Repr

namespace Route

/-- The route of a pattern, or what is wrong with its expression. -/
def compile (pattern : List Char) : Except Fault Route := do
  let (expr, captures) ← Expr.read (Pattern.source pattern)
  .ok ⟨Pattern.source pattern, expr, captures⟩

/-- A pattern compiles to the route that the reading of its expression gives. -/
theorem compile_eq_ok_iff {pattern : List Char} {route : Route} :
    compile pattern = .ok route ↔
      route.source = Pattern.source pattern ∧
        Expr.read (Pattern.source pattern) = .ok (route.expr, route.captures) := by
  unfold compile
  cases Expr.read (Pattern.source pattern) with
  | error fault =>
    constructor
    · rintro ⟨⟩
    · rintro ⟨_, ⟨⟩⟩
  | ok result =>
    constructor
    · rintro ⟨⟩
      exact ⟨rfl, rfl⟩
    · obtain ⟨source, expr, captures⟩ := route
      rintro ⟨rfl, ⟨⟩⟩
      rfl

/-- What the capturing groups take in when the route matches the whole of a text: one
for each parameter in reading order, and the query at the end. -/
def captures? (route : Route) (url : List Char) : Option (List (Option (List Char))) :=
  route.expr.captures? route.captures url

/-- Does the route match the whole of a text? -/
def accepts (route : Route) (url : List Char) : Bool := (route.captures? url).isSome

example : (compile "/u/:id(/*rest)".toList).map (·.captures? "/u/5/a/b?q".toList) =
    .ok (some [some "5".toList, some "a/b".toList, some "q".toList]) := by rfl

example : compile "(a)*".toList = .error ⟨.multipleRepeat, 7⟩ := by rfl

end Route
end RoutePattern
