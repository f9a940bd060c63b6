import RoutePattern.Route

/-! The cache of compiled routes. It holds a bounded number of patterns with their
routes, the one used last in front; when it is full the one at the end gives way. It
also counts how often a pattern was found and how often it was not. -/
namespace RoutePattern

/-- Compiled routes under their patterns, and the counts of look-ups. -/
structure Cache where
  entries : List (String × Route) := []
  hits : Nat := 0
  misses : Nat := 0
deriving Repr

namespace Cache

/-- So many routes are kept. -/
def capacity : Nat := 256

/-- The route kept for a pattern. -/
def find? (cache : Cache) (pattern : String) : Option Route :=
  (cache.entries.find? fun entry => entry.1 == pattern).map Prod.snd

/-- A pattern that is kept was used: it moves to the front. -/
def touch (cache : Cache) (pattern : String) (route : Route) : Cache :=
  { cache with
    entries := (pattern, route) :: cache.entries.filter fun entry => entry.1 != pattern
    hits := cache.hits + 1 }

/-- A look-up found nothing. -/
def miss (cache : Cache) : Cache := { cache with misses := cache.misses + 1 }

/-- A new route goes to the front. -/
def store (cache : Cache) (pattern : String) (route : Route) : Cache :=
  { cache with entries := ((pattern, route) :: cache.entries).take capacity }

/-- How many routes are kept. -/
def size (cache : Cache) : Nat := cache.entries.length

/-- However many routes are stored, no more than the capacity are kept. -/
theorem size_store_le (cache : Cache) (pattern : String) (route : Route) :
    (cache.store pattern route).size ≤ capacity := by
  simp only [store, size, List.length_take]
  exact Nat.min_le_left _ _

/-- What was just stored is found. -/
theorem find?_store (cache : Cache) (pattern : String) (route : Route) :
    (cache.store pattern route).find? pattern = some route := by
  simp [store, find?, capacity]

theorem find?_touch (cache : Cache) (pattern : String) (route : Route) :
    (cache.touch pattern route).find? pattern = some route := by
  simp [touch, find?]

end Cache
end RoutePattern
