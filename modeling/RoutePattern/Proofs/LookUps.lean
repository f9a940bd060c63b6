import RoutePattern.Proofs.OptionForms

/-! What operations look up. An operation looks up at most one key, and it does so through the
cache; nothing else that it does changes the cache or records a compilation. So what becomes of
both depends on the key alone, whether the operation succeeds or not. -/
namespace RoutePattern

namespace Cache
variable {cache later : Cache} {key? : Option Value} {added : List Event}

/-- What becomes of a cache when a key is looked up, if there is one, and what is recorded of a
compilation then. A key that is no pattern is foreign; it counts if it could be a key at all. -/
inductive LookUp (cache : Cache) : Option Value → Cache → List Event → Prop
  | nothing : LookUp cache none cache []
  | found {pattern : String} {kept : Route} (held : cache.find? pattern = some kept) :
      LookUp cache (some (.text pattern)) (cache.touch pattern kept) []
  | made {pattern : String} {route : Route} (absent : cache.find? pattern = none)
      (compiled : Route.compile pattern.toList = .ok route) :
      LookUp cache (some (.text pattern)) (cache.miss.store pattern route)
        [.compiled pattern (String.ofList route.source) route.captures]
  | failed {pattern : String} {fault : Fault} (absent : cache.find? pattern = none)
      (uncompilable : Route.compile pattern.toList = .error fault) :
      LookUp cache (some (.text pattern)) cache.miss []
  | foreign {key : Value} (other : ∀ content, key ≠ .text content) (able : key.isKey = true) :
      LookUp cache (some key) cache.miss []
  | refused {key : Value} (other : ∀ content, key ≠ .text content) (unable : key.isKey = false) :
      LookUp cache (some key) cache []

/-- Looking up a key puts no wrong route into the cache. -/
theorem LookUp.sound (looked : cache.LookUp key? later added) (sound : cache.Sound) :
    later.Sound := by
  cases looked with
  | found held => exact sound.touch (sound.compile_eq held)
  | made absent compiled => exact Cache.Sound.store sound compiled
  | nothing | failed | foreign | refused => exact sound

end Cache

/-- The records of compilations. -/
def Session.compilations (session : Session) : List Event :=
  session.events.filter fun event => event.message == "Compiled path pattern"

/-- From one session to the next a key was looked up, if there is one, and nothing else became of
the cache and the records of compilations. -/
def Session.Effect (key? : Option Value) (before after : Session) : Prop :=
  ∃ added, before.cache.LookUp key? after.cache added ∧
    after.compilations = before.compilations ++ added

/-- Does an operation look up this key, or none at all? -/
def LooksUp {α : Type} (action : Action α) (key? : Option Value) : Prop :=
  ∀ session : Session, session.Effect key? (outcome action session).2

section Steps
variable {α β : Type} {action : Action α} {next : α → Action β} {key? : Option Value}

private theorem Session.effect_none (session : Session) : session.Effect none session :=
  ⟨[], .nothing, (List.append_nil _).symm⟩

private theorem Session.Effect.trans {before middle after : Session}
    (first : before.Effect key? middle)
    (second : middle.Effect none after) : before.Effect key? after := by
  obtain ⟨added, looked, recorded⟩ := first
  obtain ⟨more, unlooked, unrecorded⟩ := second
  generalize same : after.cache = later at unlooked
  cases unlooked
  rw [List.append_nil] at unrecorded
  exact ⟨added, same ▸ looked, unrecorded.trans recorded⟩

/-- The key is looked up first, and whatever comes then looks up nothing. -/
theorem LooksUp.bind (first : LooksUp action key?) (second : ∀ answer, LooksUp (next answer) none) :
    LooksUp (action >>= next) key? := by
  intro session
  have looked := first session
  rw [outcome_bind]
  cases both : outcome action session with
  | mk answer later =>
    rw [both] at looked
    cases answer with
    | error error => exact looked
    | ok answer => exact looked.trans (second answer later)

private theorem looksUp_pure (answer : α) : LooksUp (pure answer : Action α) none :=
  fun session => session.effect_none

private theorem looksUp_throw (error : Error) : LooksUp (throw error : Action α) none :=
  fun session => session.effect_none

private theorem looksUp_record {event : Event} (other : event.message ≠ "Compiled path pattern") :
    LooksUp (Session.record event) none := by
  intro session
  rw [outcome_record]
  exact ⟨[], .nothing, by simp [Session.compilations, other]⟩

private theorem looksUp_lift (result : Except Error α) : LooksUp (Session.lift result) none := by
  cases result with
  | ok answer => exact looksUp_pure answer
  | error error =>
    cases error with
    | missingParameter name pattern =>
      exact (looksUp_record (by simp [Event.message])).bind fun _ => looksUp_throw _
    | _ => exact looksUp_throw _

/-- What would go on from a computation that fails is not looked at. -/
theorem looksUp_lift_error (error : Error) (next : α → Action β) :
    LooksUp (Session.lift (.error error) >>= next) none := by
  intro session
  have failed := looksUp_lift (α := α) (.error error) session
  cases error <;> exact failed

end Steps

namespace Session

/-- The key that a pattern is looked up under: nothing stands for the empty pattern. -/
def keyOf (pattern : Value) : Value := if pattern.isNothing then .text "" else pattern

private theorem looksUp_routeOf (pattern : String) :
    LooksUp (routeOf pattern) (some (.text pattern)) := by
  intro session
  rw [outcome_routeOf]
  cases held : session.cache.find? pattern with
  | some kept => exact ⟨[], .found held, (List.append_nil _).symm⟩
  | none =>
    cases compiled : Route.compile pattern.toList with
    | error fault => exact ⟨[], .failed held compiled, (List.append_nil _).symm⟩
    | ok route =>
      refine ⟨_, .made held compiled, ?_⟩
      simp [compilations, Event.message]

private theorem looksUp_route (pattern : Value) :
    LooksUp (route pattern) (some (keyOf pattern)) := by
  unfold route keyOf
  split
  · exact looksUp_routeOf ""
  · split
    · exact looksUp_routeOf _
    · rename_i other
      intro session
      cases able : pattern.isKey with
      | true => exact ⟨[], .foreign other able, (List.append_nil _).symm⟩
      | false => exact ⟨[], .refused other able, (List.append_nil _).symm⟩

private theorem looksUp_build (options : Options BuildField) : LooksUp (build options) none :=
  (looksUp_lift _).bind fun _ => (looksUp_record (by simp [Event.message])).bind fun _ =>
    looksUp_pure _

private theorem looksUp_test (options : Options MatchField) :
    LooksUp (test options) (some (keyOf (options .path))) := by
  refine (looksUp_route _).bind fun route => ?_
  split
  · exact (looksUp_record (by simp [Event.message])).bind fun _ => looksUp_pure _
  · exact looksUp_throw _

end Session

/-- Whatever the address of a request is, the pattern is looked up. -/
theorem Request.looksUp_matchesPattern (request : Request) (pattern : Value) :
    LooksUp (request.matchesPattern pattern) (some (Session.keyOf pattern)) := by
  let values := testValues pattern (.text request.target)
  have same : request.matchesPattern pattern =
      Session.test (Options.settled [.path, .url] values) := by
    change Session.lift (Options.coerce MatchField "test" .null
      (Options.byField [.path, .url] values)) >>= Session.test = _
    rw [Options.coerce_named]
    rfl
  have key : Session.keyOf (Options.settled [.path, .url] values .path) = Session.keyOf pattern :=
    (Options.apply_recordOf MatchField.path Session.keyOf rfl).symm
  rw [same, ← key]
  exact Session.looksUp_test _

private theorem Request.looksUp_require (request : Request) (pattern : Value) (status : Int)
    (rejection : Int → Error) :
    LooksUp (request.require pattern status rejection) (some (Session.keyOf pattern)) := by
  refine (request.looksUp_matchesPattern pattern).bind fun answer => ?_
  split
  · exact looksUp_pure _
  · exact (looksUp_record (by simp [Event.message])).bind fun _ => looksUp_throw _

namespace Operation

/-- The key that an operation looks up, unless it fails before or needs no route. -/
def key? : Operation → Option Value
  | .route pattern | .matchesPattern _ pattern | .require _ pattern _ _ =>
    some (Session.keyOf pattern)
  | .test call =>
    match Options.ofCall MatchField "test" [] call with
    | .ok options => some (Session.keyOf (options .path))
    | .error _ => none
  | .build _ | .url _ _ | .outside _ => none

theorem looksUp_action (operation : Operation) : LooksUp operation.action operation.key? := by
  cases operation with
  | route pattern => exact (Session.looksUp_route pattern).bind fun _ => looksUp_pure _
  | test call =>
    refine LooksUp.bind ?_ fun _ => looksUp_pure _
    simp only [Session.testWith, key?]
    cases Options.ofCall MatchField "test" [] call with
    | ok options => exact Session.looksUp_test options
    | error error => exact looksUp_lift_error error Session.test
  | matchesPattern request pattern =>
    exact (request.looksUp_matchesPattern pattern).bind fun _ => looksUp_pure _
  | require request pattern status rejection =>
    exact request.looksUp_require pattern status rejection
  | build call =>
    exact ((looksUp_lift _).bind fun options => Session.looksUp_build options).bind fun _ =>
      looksUp_pure _
  | url request call =>
    exact ((looksUp_lift _).bind fun _ => Session.looksUp_build _).bind fun _ => looksUp_pure _
  | outside result => exact (looksUp_lift result).bind fun _ => looksUp_pure _

end Operation

/-- The keys that operations look up, in order. -/
def lookedUp (operations : List Operation) : List Value := operations.filterMap Operation.key?

end RoutePattern
