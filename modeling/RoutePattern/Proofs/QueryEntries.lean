import RoutePattern.Proofs.AddressParts
import RoutePattern.Proofs.Decoding

/-! A query and the map it was rendered from. Values are encoded, so the signs that stand between
the entries and within them are the only ones of their sort if the keys have none, and splitting
at these signs gives the entries back. As encoding loses nothing, the query tells the entries in
order, each with its key and its value as text, and only the empty map gives an empty query. -/
namespace RoutePattern.Address
open Text

/-- Keys that are texts without the signs that entries of a query are divided by. -/
def PlainNames (entries : Entries) : Prop :=
  ∀ entry ∈ entries, ∃ name : String, entry.1 = .text name ∧ '&' ∉ name.toList ∧ '=' ∉ name.toList

/-- Entries as a query tells them: each key with its value as text. -/
def told (entries : Entries) : List (List Char × List Char) :=
  entries.map fun entry => (entry.1.plain, entry.2.spoken)

/-- What an entry of a query is put together from. -/
def sides (entry : List Char × List Char) : List (List Char) := [entry.1, encode entry.2]

/-- A query split into its entries, and these into their sides. -/
def readEntries (query : List Char) : List (List (List Char)) :=
  (query.splitOn '&').map (List.splitOn '=')

/-- A map whose keys are given as texts. -/
theorem plainNames_map (pairs : List (String × Value))
    (clear : ∀ pair ∈ pairs, '&' ∉ pair.1.toList ∧ '=' ∉ pair.1.toList) :
    PlainNames (pairs.map fun pair => (.text pair.1, pair.2)) :=
  List.forall_mem_map.mpr fun pair member => ⟨pair.1, rfl, clear pair member⟩

section Splitting
variable {entry : Value × Value} {entries : Entries}

private theorem PlainNames.clear (names : PlainNames entries) (member : entry ∈ entries) :
    '&' ∉ entry.1.plain ∧ '=' ∉ entry.1.plain := by
  obtain ⟨name, key, clear⟩ := names entry member
  rw [key]
  exact clear

private theorem not_mem_queryEntry (clear : '&' ∉ entry.1.plain) : '&' ∉ queryEntry entry := by
  have encoded : '&' ∉ component entry.2 := not_mem_encode (by decide) (by decide)
  simp [queryEntry, clear, encoded]

/-- An entry has one equals sign, the one behind its key. -/
theorem splitOn_queryEntry (clear : '=' ∉ entry.1.plain) :
    (queryEntry entry).splitOn '=' = [entry.1.plain, component entry.2] := by
  have encoded : '=' ∉ component entry.2 := not_mem_encode (by decide) (by decide)
  have joined : queryEntry entry = ['='].intercalate [entry.1.plain, component entry.2] := by
    simp [queryEntry, List.intercalate_cons_cons]
  rw [joined]
  apply List.splitOn_intercalate
  · simp [clear, encoded]
  · exact List.cons_ne_nil _ _

/-- The entries of a query that is not empty are read off it in order. -/
theorem readEntries_renderEntries (names : PlainNames entries) (present : entries ≠ []) :
    readEntries (renderEntries entries) = (told entries).map sides := by
  have split : (renderEntries entries).splitOn '&' = entries.map queryEntry := by
    apply List.splitOn_intercalate
    · rw [List.forall_mem_map]
      exact fun entry member => not_mem_queryEntry (names.clear member).1
    · simpa using present
  rw [readEntries, split, told, List.map_map, List.map_map]
  exact List.map_congr_left fun entry member => splitOn_queryEntry (names.clear member).2

end Splitting

section Telling
variable {entries others : Entries}

private theorem sides_injective : Function.Injective sides := by
  rintro ⟨key, value⟩ ⟨other, content⟩ same
  simp only [sides, List.cons.injEq, and_true] at same
  rw [same.1, encode_injective same.2]

/-- A rendered query is made from nothing but the keys and the values as texts. -/
theorem renderEntries_of_told (entries : Entries) :
    renderEntries entries = ['&'].intercalate
      ((told entries).map fun entry => entry.1 ++ '=' :: encode entry.2) := by
  rw [told, List.map_map]
  rfl

private theorem renderEntries_eq_nil_iff : renderEntries entries = [] ↔ entries = [] := by
  cases entries with
  | nil => exact ⟨fun _ => rfl, fun _ => rfl⟩
  | cons entry entries => simp [renderEntries_ne_nil]

private theorem renderEntries_eq_iff (names : PlainNames entries) (otherNames : PlainNames others) :
    renderEntries entries = renderEntries others ↔ told entries = told others := by
  constructor
  · intro same
    by_cases none : entries = []
    · rw [none] at same ⊢
      rw [renderEntries_eq_nil_iff.mp same.symm]
    · have present : others ≠ [] := by
        rintro rfl
        exact none (renderEntries_eq_nil_iff.mp same)
      have read := readEntries_renderEntries names none
      rw [same, readEntries_renderEntries otherNames present] at read
      exact (List.map_injective_iff.mpr sides_injective read).symm
  · intro same
    rw [renderEntries_of_told, renderEntries_of_told, same]

private theorem renderQuery_map (entries : Entries) :
    renderQuery (.map entries) = .ok (renderEntries entries) := by
  cases entries <;> rfl

end Telling

/-- A query determines its map. Maps with plain names give the same query exactly if they have
the same keys in the same order with the same texts for their values; and a query that is not
empty, split into entries and these into sides, gives back the keys and the encoded values. -/
theorem query_determines_entries (entries others : Entries) (names : PlainNames entries)
    (otherNames : PlainNames others) :
    ∃ query other, renderQuery (.map entries) = .ok query ∧
      renderQuery (.map others) = .ok other ∧
      (query = other ↔ told entries = told others) ∧
      (query ≠ [] → readEntries query =
        entries.map fun entry => [entry.1.plain, component entry.2]) := by
  refine ⟨_, _, renderQuery_map entries, renderQuery_map others,
    renderEntries_eq_iff names otherNames, fun present => ?_⟩
  have some : entries ≠ [] := by
    rintro rfl
    exact present rfl
  rw [readEntries_renderEntries names some, told, List.map_map]
  rfl

/-- An empty key without a value, signs in a value, and a number: another map with the same texts
gives the same query. -/
theorem query_determines_entries_signs :
    PlainNames [(.text "", .null), (.text "a?", .text "x&y=é"), (.text "n", .int 1)] ∧
      PlainNames [(.text "", .text ""), (.text "a?", .text "x&y=é"), (.text "n", .text "1")] ∧
      ∃ query,
        renderQuery (.map [(.text "", .null), (.text "a?", .text "x&y=é"), (.text "n", .int 1)]) =
          .ok query ∧
        renderQuery (.map
            [(.text "", .text ""), (.text "a?", .text "x&y=é"), (.text "n", .text "1")]) =
          .ok query ∧
        query = "=&a?=x%26y%3D%C3%A9&n=1".toList ∧
        readEntries query =
          [["".toList, "".toList], ["a?".toList, "x%26y%3D%C3%A9".toList],
            ["n".toList, "1".toList]] := by
  have names :=
    plainNames_map [("", .null), ("a?", .text "x&y=é"), ("n", .int 1)] (by decide)
  have otherNames :=
    plainNames_map [("", .text ""), ("a?", .text "x&y=é"), ("n", .text "1")] (by decide)
  obtain ⟨query, other, shown, alsoShown, same, read⟩ :=
    query_determines_entries _ _ names otherNames
  have equal : query = other := same.mpr (by decide)
  subst equal
  have whole : query = "=&a?=x%26y%3D%C3%A9&n=1".toList := by
    rw [renderQuery_map, Except.ok.injEq] at shown
    rw [← shown]
    decide
  refine ⟨names, otherNames, query, shown, alsoShown, whole, ?_⟩
  rw [read (by rw [whole]; decide)]
  decide

end RoutePattern.Address
