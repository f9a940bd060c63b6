import RoutePattern.Proofs.LookUps

/-! Which routes a session remembers. The patterns that the cache keeps are those that were looked
up last of all that compile, each one once, the last one in front; what was looked up without a
route to it changes nothing about them. A pattern stands behind the others that were looked up
since, so it is found again as long as these are fewer than the cache can keep. -/
namespace RoutePattern

section Lists
variable {α : Type} {items : List α} {item : α} {number : Nat}

/-- An item of a list has a last place in it. -/
theorem exists_last (member : item ∈ items) :
    ∃ earlier later, items = earlier ++ item :: later ∧ item ∉ later := by
  obtain ⟨later, earlier, split, last⟩ :=
    List.eq_append_cons_of_mem (List.mem_reverse.mpr member)
  refine ⟨earlier.reverse, later.reverse, ?_, by simpa using last⟩
  rw [← List.reverse_reverse items, split]
  simp

private theorem take_cons_congr {others : List α} (same : items.take number = others.take number) :
    (item :: items).take number = (item :: others).take number := by
  cases number with
  | zero => rfl
  | succ number =>
    have fewer := congrArg (List.take number) same
    rw [List.take_take, List.take_take, Nat.min_eq_left (Nat.le_succ number)] at fewer
    rw [List.take_succ_cons, List.take_succ_cons, fewer]

variable [DecidableEq α]

/-- Of the items from the last one back, each one once, a new one comes first. -/
theorem reverse_dedup_append (items : List α) (item : α) :
    (items ++ [item]).dedup.reverse = item :: items.dedup.reverse.filter (· ≠ item) := by
  have forward : (items ++ [item]).dedup = items.dedup.filter (· ≠ item) ++ [item] := by
    induction items with
    | nil => simp
    | cons first items ih =>
      rw [List.cons_append]
      by_cases again : first ∈ items
      · rw [List.dedup_cons_of_mem (List.mem_append_left _ again), ih,
          List.dedup_cons_of_mem again]
      · rw [List.dedup_cons_of_notMem again]
        by_cases same : first = item
        · subst same
          rw [List.dedup_cons_of_mem (List.mem_append_right _ (List.mem_singleton_self _)), ih]
          simp
        · rw [List.dedup_cons_of_notMem (by simp [again, same]), ih]
          simp [same]
  rw [forward, List.reverse_append, List.filter_reverse]
  rfl

private theorem filter_ne_of_not_mem (none : item ∉ items) : items.filter (· ≠ item) = items :=
  List.filter_eq_self.mpr fun other listed => by
    simpa using fun same : other = item => none (same ▸ listed)

/-- Without an item there is room for one more. -/
theorem take_filter_of_mem (distinct : items.Nodup) (member : item ∈ items.take (number + 1)) :
    (items.filter (· ≠ item)).take number = (items.take (number + 1)).filter (· ≠ item) := by
  induction items generalizing number with
  | nil => simp
  | cons first items ih =>
    obtain ⟨new, distinct⟩ := List.nodup_cons.mp distinct
    by_cases same : first = item
    · subst same
      have newer : first ∉ items.take number := fun listed => new (List.mem_of_mem_take listed)
      rw [List.take_succ_cons, List.filter_cons_of_neg (by simp),
        List.filter_cons_of_neg (by simp), filter_ne_of_not_mem new, filter_ne_of_not_mem newer]
    · rw [List.take_succ_cons, List.mem_cons] at member
      have later := member.resolve_left (Ne.symm same)
      cases number with
      | zero => simp at later
      | succ number => simpa [same] using ih distinct later

private theorem take_filter_of_not_mem (none : item ∉ items.take number) :
    (items.filter (· ≠ item)).take number = items.take number := by
  induction items generalizing number with
  | nil => rfl
  | cons first items ih =>
    cases number with
    | zero => rfl
    | succ number =>
      rw [List.take_succ_cons, List.mem_cons, not_or] at none
      simpa [Ne.symm none.1] using ih none.2

/-- An item stands behind those that come after its last place. -/
theorem mem_take_iff_of_last {earlier later : List α} (last : item ∉ later) :
    item ∈ (earlier ++ item :: later).dedup.reverse.take number ↔
      later.dedup.length < number := by
  have ending : item :: later.dedup <:+ (earlier ++ item :: later).dedup := by
    rw [List.dedup_append, List.dedup_cons_of_notMem last]
    exact List.suffix_union_right _ _
  obtain ⟨front, whole⟩ := ending
  rw [← whole, List.reverse_append, List.reverse_cons, List.append_assoc]
  constructor
  · intro member
    by_contra few
    rw [List.take_append_of_le_length (by simpa using few)] at member
    exact last (by simpa using List.mem_of_mem_take member)
  · intro many
    obtain ⟨further, rfl⟩ := Nat.exists_eq_add_of_lt many
    rw [List.take_append, List.length_reverse]
    refine List.mem_append_right _ ?_
    rw [Nat.add_assoc, Nat.add_sub_cancel_left, List.singleton_append, List.take_succ_cons]
    exact List.mem_cons_self

end Lists

/-- The pattern that a key is, if it compiles. -/
def compilable? : Value → Option String
  | .text pattern =>
    match Route.compile pattern.toList with
    | .ok _ => some pattern
    | .error _ => none
  | _ => none

/-- The patterns among keys that compile. -/
def compilables (keys : List Value) : List String := keys.filterMap compilable?

/-- Was the pattern looked up before, does it compile, and were fewer other patterns that compile
looked up since the last time than are kept? -/
def Recent (history : List Value) (pattern : String) : Prop :=
  ∃ earlier later, history = earlier ++ .text pattern :: later ∧ .text pattern ∉ later ∧
    (∃ route, Route.compile pattern.toList = .ok route) ∧
    (compilables later).dedup.length < Cache.capacity

section Patterns
variable {keys history : List Value} {key : Value} {pattern : String} {route : Route}

private theorem compilable?_text (compiled : Route.compile pattern.toList = .ok route) :
    compilable? (.text pattern) = some pattern := by
  simp only [compilable?, compiled]

private theorem compilable?_other (other : ∀ content, key ≠ .text content) :
    compilable? key = none := by
  cases key with
  | text content => exact absurd rfl (other content)
  | _ => rfl

private theorem compilable?_eq_some_iff :
    compilable? key = some pattern ↔
      key = .text pattern ∧ ∃ route, Route.compile pattern.toList = .ok route := by
  constructor
  · intro same
    cases key with
    | text content =>
      cases compiled : Route.compile content.toList with
      | error fault => simp [compilable?, compiled] at same
      | ok route =>
        rw [compilable?_text compiled, Option.some_inj] at same
        exact ⟨congrArg Value.text same, route, same ▸ compiled⟩
    | _ => cases same
  · rintro ⟨rfl, route, compiled⟩
    exact compilable?_text compiled

private theorem mem_compilables_iff :
    pattern ∈ compilables keys ↔
      .text pattern ∈ keys ∧ ∃ route, Route.compile pattern.toList = .ok route := by
  rw [compilables, List.mem_filterMap]
  constructor
  · rintro ⟨key, listed, same⟩
    obtain ⟨rfl, made⟩ := compilable?_eq_some_iff.mp same
    exact ⟨listed, made⟩
  · rintro ⟨listed, made⟩
    exact ⟨_, listed, compilable?_eq_some_iff.mpr ⟨rfl, made⟩⟩

private theorem compilables_append_some (same : compilable? key = some pattern) :
    compilables (keys ++ [key]) = compilables keys ++ [pattern] := by
  simp [compilables, same]

private theorem compilables_append_none (same : compilable? key = none) :
    compilables (keys ++ [key]) = compilables keys := by
  simp [compilables, same]

/-- The recent patterns are the first ones counted from the last that was looked up. -/
theorem recent_iff :
    Recent history pattern ↔
      pattern ∈ (compilables history).dedup.reverse.take Cache.capacity := by
  have placed {earlier later : List Value} (last : .text pattern ∉ later)
      (made : ∃ route, Route.compile pattern.toList = .ok route) :
      pattern ∈ (compilables (earlier ++ .text pattern :: later)).dedup.reverse.take
          Cache.capacity ↔
        (compilables later).dedup.length < Cache.capacity := by
    have split : compilables (earlier ++ .text pattern :: later) =
        compilables earlier ++ pattern :: compilables later := by
      simp [compilables, compilable?_eq_some_iff.mpr ⟨rfl, made⟩]
    rw [split]
    exact mem_take_iff_of_last fun listed => last (mem_compilables_iff.mp listed).1
  constructor
  · rintro ⟨earlier, later, rfl, last, made, few⟩
    exact (placed last made).mpr few
  · intro kept
    have listed : pattern ∈ compilables history := by
      simpa using List.mem_of_mem_take kept
    obtain ⟨looked, made⟩ := mem_compilables_iff.mp listed
    obtain ⟨earlier, later, rfl, last⟩ := exists_last looked
    exact ⟨earlier, later, rfl, last, made, (placed last made).mp kept⟩

end Patterns

namespace Cache
variable {cache later : Cache} {history : List Value} {key? : Option Value} {pattern : String}
  {kept made : Route} {added : List Event}

/-- The patterns that are kept. -/
def patterns (cache : Cache) : List String := cache.entries.map Prod.fst

private theorem find?_eq_none_iff : cache.find? pattern = none ↔ pattern ∉ cache.patterns := by
  rw [find?, Option.map_eq_none_iff, List.find?_eq_none, patterns, List.mem_map]
  constructor
  · rintro none ⟨entry, listed, same⟩
    exact none entry listed (by simpa using same)
  · intro none entry listed same
    exact none ⟨entry, listed, by simpa using same⟩

private theorem mem_patterns_of_find? (held : cache.find? pattern = some kept) :
    pattern ∈ cache.patterns := by
  by_contra absent
  rw [find?_eq_none_iff.mpr absent] at held
  cases held

private theorem patterns_touch :
    (cache.touch pattern kept).patterns = pattern :: cache.patterns.filter (· ≠ pattern) := by
  simp only [patterns, touch, List.map_cons, List.filter_map]
  congr 2
  refine List.filter_congr fun entry _ => ?_
  simp [bne, Bool.beq_eq_decide_eq]

private theorem patterns_store :
    (cache.store pattern made).patterns = (pattern :: cache.patterns).take capacity := by
  rw [patterns, store, List.map_take]
  rfl

/-- One look-up more, and it was a hit. -/
def Hit (cache later : Cache) : Prop :=
  later.hits = cache.hits + 1 ∧ later.misses = cache.misses

/-- One look-up more, and it was a miss. -/
def Miss (cache later : Cache) : Prop :=
  later.hits = cache.hits ∧ later.misses = cache.misses + 1

/-- How a cache stands after keys were looked up, if it was empty before. -/
structure Tracks (cache : Cache) (history : List Value) : Prop where
  sound : cache.Sound
  patterns : cache.patterns = (compilables history).dedup.reverse.take capacity
  counted : cache.hits + cache.misses = (history.filter Value.isKey).length

private theorem tracks_empty : Tracks {} [] := ⟨sound_empty, rfl, rfl⟩

private theorem Tracks.mem_patterns_iff (tracks : cache.Tracks history) :
    pattern ∈ cache.patterns ↔ Recent history pattern := by
  rw [recent_iff, tracks.patterns]

/-- Each key that could be one counts once, as a hit or as a miss. -/
theorem LookUp.counted (looked : cache.LookUp key? later added) :
    later.hits + later.misses =
      cache.hits + cache.misses + (key?.toList.filter Value.isKey).length := by
  cases looked with
  | nothing => rfl
  | found held => exact Nat.add_right_comm _ _ _
  | made absent compiled => rfl
  | failed absent uncompilable => rfl
  | foreign other able => simp [able, miss, Nat.add_assoc]
  | refused other unable => simp [unable]

/-- A pattern that is used comes to the front, where it was already or not; one that does not
compile changes nothing. -/
theorem LookUp.patterns (looked : cache.LookUp key? later added) (tracks : cache.Tracks history) :
    later.patterns = (compilables (history ++ key?.toList)).dedup.reverse.take capacity := by
  have listed := tracks.patterns
  cases looked with
  | nothing => rw [Option.toList_none, List.append_nil, listed]
  | @found pattern kept held =>
    have compiled := tracks.sound.compile_eq held
    have member := mem_patterns_of_find? held
    rw [listed] at member
    rw [Option.toList_some, compilables_append_some (compilable?_text compiled),
      reverse_dedup_append, patterns_touch, listed]
    exact congrArg (pattern :: ·)
      (take_filter_of_mem (List.nodup_reverse.mpr (List.nodup_dedup _)) member).symm
  | @made pattern route absent compiled =>
    have new := find?_eq_none_iff.mp absent
    rw [listed] at new
    rw [Option.toList_some, compilables_append_some (compilable?_text compiled),
      reverse_dedup_append, patterns_store]
    change (pattern :: cache.patterns).take capacity = _
    apply take_cons_congr
    rw [listed, List.take_take, Nat.min_self, take_filter_of_not_mem new]
  | failed absent uncompilable =>
    rw [Option.toList_some, compilables_append_none]
    · exact listed
    · simp only [compilable?, uncompilable]
  | foreign other able =>
    rw [Option.toList_some, compilables_append_none (compilable?_other other)]
    exact listed
  | refused other unable =>
    rw [Option.toList_some, compilables_append_none (compilable?_other other), listed]

private theorem Tracks.lookUp (tracks : cache.Tracks history)
    (looked : cache.LookUp key? later added) :
    later.Tracks (history ++ key?.toList) where
  sound := looked.sound tracks.sound
  patterns := looked.patterns tracks
  counted := by
    rw [looked.counted, tracks.counted, List.filter_append, List.length_append]

private theorem Hit.not_miss (hit : cache.Hit later) : ¬ cache.Miss later :=
  fun miss => absurd (hit.1.symm.trans miss.1) (Nat.succ_ne_self _)

private theorem LookUp.hit_or_miss (looked : cache.LookUp (some (.text pattern)) later added) :
    pattern ∈ cache.patterns ∧ cache.Hit later ∨ pattern ∉ cache.patterns ∧ cache.Miss later := by
  cases looked with
  | found held => exact .inl ⟨mem_patterns_of_find? held, rfl, rfl⟩
  | made absent compiled => exact .inr ⟨find?_eq_none_iff.mp absent, rfl, rfl⟩
  | failed absent uncompilable => exact .inr ⟨find?_eq_none_iff.mp absent, rfl, rfl⟩
  | foreign other able => exact absurd rfl (other pattern)
  | refused other unable => exact absurd rfl (other pattern)

/-- Without a route to be had, the look-up counts and nothing else happens. -/
theorem LookUp.failing {key : Value} (looked : cache.LookUp (some key) later added)
    (sound : cache.Sound) (able : key.isKey = true) (none : compilable? key = none) :
    later = cache.miss := by
  cases looked with
  | found held =>
    rw [compilable?_text (sound.compile_eq held)] at none
    cases none
  | made absent compiled =>
    rw [compilable?_text compiled] at none
    cases none
  | failed | foreign => rfl
  | refused other unable =>
    rw [able] at unable
    cases unable

private theorem LookUp.untouched (looked : cache.LookUp key? later added)
    (unable : ∀ key, key? = some key → key.isKey = false) : later = cache := by
  cases looked with
  | nothing | refused => rfl
  | found | made | failed => cases unable _ rfl
  | foreign other able =>
    rw [unable _ rfl] at able
    cases able

/-- A pattern that is not kept is recorded when it is compiled. -/
theorem LookUp.recorded (looked : cache.LookUp (some (.text pattern)) later added)
    (compiled : Route.compile pattern.toList = .ok made) (miss : cache.Miss later) :
    added = [.compiled pattern (String.ofList made.source) made.captures] := by
  cases looked with
  | found held => exact absurd miss (Hit.not_miss ⟨rfl, rfl⟩)
  | made absent again =>
    rw [compiled] at again
    cases again
    rfl
  | failed absent uncompilable =>
    rw [compiled] at uncompilable
    cases uncompilable
  | foreign other able => exact absurd rfl (other pattern)
  | refused other unable => exact absurd rfl (other pattern)

private theorem LookUp.silent (looked : cache.LookUp key? later added)
    (none : ∀ pattern route, key? = some (.text pattern) →
      Route.compile pattern.toList = .ok route → ¬ cache.Miss later) : added = [] := by
  cases looked with
  | made absent compiled => exact absurd ⟨rfl, rfl⟩ (none _ _ rfl compiled)
  | nothing | found | failed | foreign | refused => rfl

/-- What is promised of a cache after keys were looked up: it keeps no more patterns than it can,
each one once and with the route that its expression gives, and it has counted the keys. -/
structure Exact (history : List Value) (cache : Cache) : Prop where
  bounded : cache.size ≤ capacity
  distinct : cache.patterns.Nodup
  compiled : ∀ entry ∈ cache.entries, entry.2.source = Pattern.source entry.1.toList ∧
    Expr.read (Pattern.source entry.1.toList) = .ok (entry.2.expr, entry.2.captures)
  counted : cache.hits + cache.misses = (history.filter Value.isKey).length

private theorem Tracks.exact (tracks : cache.Tracks history) : cache.Exact history where
  bounded := by
    have length := congrArg List.length tracks.patterns
    rw [Cache.patterns, List.length_map, List.length_take] at length
    rw [size, length]
    exact Nat.min_le_left _ _
  distinct := by
    rw [tracks.patterns]
    exact (List.nodup_reverse.mpr (List.nodup_dedup _)).take
  compiled entry listed := Route.compile_eq_ok_iff.mp (tracks.sound entry listed)
  counted := tracks.counted

end Cache

namespace Session
variable {before after : Session} {history : List Value} {key? : Option Value}

/-- What is promised of an operation that looks up a key, if any, after others. A pattern is a hit
just if it is recent. A key without a route to it is a miss, and changes neither the routes that
are kept nor their order; a key that could be none is not counted. A compilation is recorded
exactly for each miss that compiles. -/
structure Recalls (history : List Value) (key? : Option Value) (before after : Session) :
    Prop where
  hit_iff : ∀ pattern, key? = some (.text pattern) →
    (before.cache.Hit after.cache ↔ Recent history pattern)
  miss_iff : ∀ pattern, key? = some (.text pattern) →
    (before.cache.Miss after.cache ↔ ¬ Recent history pattern)
  failing : ∀ key error, key? = some key → key.isKey = true →
    (outcome (route key) before).1 = .error error →
      before.cache.Miss after.cache ∧ after.cache.entries = before.cache.entries
  untouched : (∀ key, key? = some key → key.isKey = false) → after.cache = before.cache
  recorded : ∀ pattern route, key? = some (.text pattern) →
    Route.compile pattern.toList = .ok route → before.cache.Miss after.cache →
      after.compilations = before.compilations ++
        [.compiled pattern (String.ofList route.source) route.captures]
  silent : (∀ pattern route, key? = some (.text pattern) →
      Route.compile pattern.toList = .ok route → ¬ before.cache.Miss after.cache) →
    after.compilations = before.compilations

/-- Looking up a key fails only where there is no route to it. -/
theorem compilable?_of_error {key : Value} {error : Error} (sound : before.cache.Sound)
    (failed : (outcome (route key) before).1 = .error error) : compilable? key = none := by
  cases made : compilable? key with
  | none => rfl
  | some pattern =>
    obtain ⟨rfl, route, compiled⟩ := compilable?_eq_some_iff.mp made
    rw [route_text, answer_routeOf compiled before sound] at failed
    cases failed

private theorem Effect.recalls (effect : before.Effect key? after)
    (tracks : before.cache.Tracks history) : Recalls history key? before after := by
  obtain ⟨added, looked, recorded⟩ := effect
  have told {pattern : String} (same : key? = some (.text pattern)) :
      Recent history pattern ∧ before.cache.Hit after.cache ∨
        ¬ Recent history pattern ∧ before.cache.Miss after.cache := by
    subst same
    rw [← tracks.mem_patterns_iff]
    exact looked.hit_or_miss
  refine ⟨fun pattern same => ?_, fun pattern same => ?_, ?_, looked.untouched, ?_, ?_⟩
  · rcases told same with ⟨recent, hit⟩ | ⟨other, miss⟩
    · exact iff_of_true hit recent
    · exact iff_of_false (fun hit => hit.not_miss miss) other
  · rcases told same with ⟨recent, hit⟩ | ⟨other, miss⟩
    · exact iff_of_false hit.not_miss (not_not_intro recent)
    · exact iff_of_true miss other
  · rintro key error rfl able failed
    rw [looked.failing tracks.sound able (compilable?_of_error tracks.sound failed)]
    exact ⟨⟨rfl, rfl⟩, rfl⟩
  · rintro pattern route rfl compiled miss
    rw [recorded, looked.recorded compiled miss]
  · intro none
    rw [recorded, looked.silent none, List.append_nil]

private theorem effect_after (operations : List Operation) (next : Operation) :
    (Session.after operations).Effect next.key? (Session.after (operations ++ [next])) := by
  have same : Session.after (operations ++ [next]) =
      (outcome next.action (Session.after operations)).2 := by
    rw [Session.after, List.foldl_append]
    rfl
  rw [same]
  exact next.looksUp_action _

/-- Operation by operation, the cache keeps the patterns that were looked up last. -/
theorem tracks_after (operations : List Operation) :
    (Session.after operations).cache.Tracks (lookedUp operations) := by
  induction operations using List.reverseRecOn with
  | nil => exact Cache.tracks_empty
  | append_singleton operations next ih =>
    obtain ⟨added, looked, _⟩ := effect_after operations next
    have keys : lookedUp (operations ++ [next]) = lookedUp operations ++ next.key?.toList := by
      rw [lookedUp, List.filterMap_append, ← lookedUp]
      cases same : next.key? <;> simp [same]
    rw [keys]
    exact ih.lookUp looked

/-- After any operations that began with an empty cache, failing ones among them, the cache is
exact, and the next operation recalls exactly the recent patterns. -/
theorem operations_recall_recent (operations : List Operation) :
    (Session.after operations).cache.Exact (lookedUp operations) ∧
      ∀ next : Operation,
        Recalls (lookedUp operations) next.key? (Session.after operations)
          (Session.after (operations ++ [next])) :=
  ⟨(tracks_after operations).exact,
    fun next => (effect_after operations next).recalls (tracks_after operations)⟩

/-- Nothing is looked up as the empty pattern, and a failing pattern leaves the order as it is. -/
example :
    let cache := (Session.after [.route (.text ""), .route (.text "/a"), .route .null,
      .route (.text "*")]).cache
    cache.patterns = ["", "/a"] ∧ cache.hits = 1 ∧ cache.misses = 3 := ⟨rfl, rfl, rfl⟩

end Session

end RoutePattern
