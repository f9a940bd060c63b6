import Mathlib
import RoutePattern.Request

/-! What sessions remember. The cache only ever holds routes under the patterns that they
were compiled from, so that an operation answers as if every pattern were compiled anew. -/
namespace RoutePattern

/-- Every route that is kept was compiled from its pattern. -/
def Cache.Sound (cache : Cache) : Prop :=
  ∀ entry ∈ cache.entries, Route.compile entry.1.toList = .ok entry.2

/-- The answer of an operation, and the session behind it. -/
def outcome {α : Type} (action : Action α) (session : Session) : Except Error α × Session :=
  action.run.run session

section Caches
variable {cache : Cache} {pattern : String} {route : Route}

theorem Cache.sound_empty : Cache.Sound {} := by
  intro entry member
  cases member

/-- What is found in a sound cache is the compiled pattern. -/
theorem Cache.Sound.compile_eq (sound : cache.Sound) (found : cache.find? pattern = some route) :
    Route.compile pattern.toList = .ok route := by
  rw [Cache.find?, Option.map_eq_some_iff] at found
  obtain ⟨entry, first, rfl⟩ := found
  have same : entry.1 = pattern := by simpa using List.find?_some first
  rw [← same]
  exact sound entry (List.mem_of_find?_eq_some first)

theorem Cache.Sound.touch (sound : cache.Sound)
    (compiled : Route.compile pattern.toList = .ok route) : (cache.touch pattern route).Sound := by
  intro entry member
  rcases List.mem_cons.mp member with rfl | member
  · exact compiled
  · exact sound entry (List.mem_filter.mp member).1

theorem Cache.Sound.store (sound : cache.Sound)
    (compiled : Route.compile pattern.toList = .ok route) : (cache.store pattern route).Sound := by
  intro entry member
  rcases List.mem_cons.mp (List.mem_of_mem_take member) with rfl | member
  · exact compiled
  · exact sound entry member

end Caches

section Steps
variable {α β : Type}

theorem outcome_bind (action : Action α) (next : α → Action β) (session : Session) :
    outcome (action >>= next) session =
      match outcome action session with
      | (.ok answer, later) => outcome (next answer) later
      | (.error error, later) => (.error error, later) := by
  simp only [outcome, ExceptT.run_bind, StateT.run_bind]
  rcases (ExceptT.run action).run session with ⟨answer, later⟩
  cases answer <;> rfl

theorem outcome_pure (answer : α) (session : Session) :
    outcome (pure answer : Action α) session = (.ok answer, session) := rfl

theorem outcome_throw (error : Error) (session : Session) :
    outcome (throw error : Action α) session = (.error error, session) := rfl

private theorem outcome_get (session : Session) :
    outcome (get : Action Session) session = (.ok session, session) := rfl

theorem outcome_record (event : Event) (session : Session) :
    outcome (Session.record event) session =
      (.ok (), { session with events := session.events ++ [event] }) := rfl

theorem outcome_updateCache (change : Cache → Cache) (session : Session) :
    outcome (Session.updateCache change) session =
      (.ok (), { session with cache := change session.cache }) := rfl

end Steps

namespace Session

theorem outcome_routeOf (pattern : String) (session : Session) :
    outcome (routeOf pattern) session =
      match session.cache.find? pattern, Route.compile pattern.toList with
      | some kept, _ =>
        (.ok kept, { session with cache := session.cache.touch pattern kept })
      | none, .error fault =>
        (.error (.uncompilable pattern fault), { session with cache := session.cache.miss })
      | none, .ok made =>
        (.ok made,
          { cache := session.cache.miss.store pattern made
            events := session.events ++
              [.compiled pattern (String.ofList made.source) made.captures] }) := by
  rw [routeOf, outcome_bind, outcome_get]
  dsimp only
  cases session.cache.find? pattern with
  | some kept => simp only [outcome_bind, outcome_updateCache, outcome_pure]
  | none =>
    cases Route.compile pattern.toList with
    | error fault => simp only [outcome_bind, outcome_updateCache, outcome_throw]
    | ok made => simp only [outcome_bind, outcome_updateCache, outcome_record, outcome_pure]

/-- Found in the cache or not, a pattern answers with its compilation. -/
theorem answer_routeOf {pattern : String} {compiled : Route}
    (same : Route.compile pattern.toList = .ok compiled) (session : Session)
    (sound : session.cache.Sound) : (outcome (routeOf pattern) session).1 = .ok compiled := by
  rw [outcome_routeOf]
  cases found : session.cache.find? pattern with
  | some kept =>
    have given := sound.compile_eq found
    rw [same] at given
    cases given
    rfl
  | none =>
    rw [same]

/-- A pattern that does not compile is an error each time. -/
theorem answer_routeOf_error {pattern : String} {fault : Fault}
    (same : Route.compile pattern.toList = .error fault) (session : Session)
    (sound : session.cache.Sound) :
    (outcome (routeOf pattern) session).1 = .error (.uncompilable pattern fault) := by
  rw [outcome_routeOf, same]
  cases found : session.cache.find? pattern with
  | some kept =>
    rw [sound.compile_eq found] at same
    cases same
  | none => rfl

theorem route_text (pattern : String) : route (.text pattern) = routeOf pattern := by
  rw [route]
  by_cases empty : pattern = ""
  · subst empty
    rfl
  · rw [if_neg (by simpa [Value.isNothing] using empty)]

/-- What goes on from a computation outside the session answers as that computation lets it. -/
theorem answer_lift_bind {α β : Type} (result : Except Error α) (next : α → Action β)
    (session : Session) :
    (outcome (lift result >>= next) session).1 =
      result.bind fun answer => (outcome (next answer) session).1 := by
  cases result with
  | ok answer => rfl
  | error error => cases error <;> rfl

/-- Building answers with the address that the options describe. -/
theorem answer_build (options : Options BuildField) (session : Session) :
    (outcome (build options) session).1 = buildAddress options := by
  rw [build, answer_lift_bind]
  cases buildAddress options <;> rfl

/-- A test looks up the route first, and only then at the address. -/
theorem answer_test (options : Options MatchField) (session : Session) :
    (outcome (test options) session).1 =
      (outcome (route (options .path)) session).1.bind fun found =>
        match options .url with
        | .text url => .ok (found.accepts url.toList)
        | _ => .error .wrongType := by
  rw [test, outcome_bind]
  rcases outcome (route (options .path)) session with ⟨answer, later⟩
  cases answer with
  | error error => rfl
  | ok found => cases options .url <;> rfl

/-- Whatever is cached, testing an address compares it with the compiled pattern. -/
theorem outcome_test (options : Options MatchField) {pattern url : String} {compiled : Route}
    (path : options .path = .text pattern) (address : options .url = .text url)
    (same : Route.compile pattern.toList = .ok compiled) (session : Session)
    (sound : session.cache.Sound) :
    (outcome (test options) session).1 = .ok (compiled.accepts url.toList) := by
  rw [answer_test, path, route_text, answer_routeOf same session sound, address]
  rfl

end Session

end RoutePattern
