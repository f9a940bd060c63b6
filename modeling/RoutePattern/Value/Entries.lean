import RoutePattern.Value.Equality

/-! Maps as lists of entries in order. A key that is written again keeps its place
and its first form, and takes the new value. -/
namespace RoutePattern.Entries

/-- The value under a key. -/
def get? (entries : Entries) (key : Value) : Option Value :=
  (entries.find? fun entry => key.same entry.1).map Prod.snd

/-- A value is written under a key. -/
def insert (key value : Value) : Entries → Entries
  | [] => [(key, value)]
  | entry :: rest =>
    if key.same entry.1 then (entry.1, value) :: rest else entry :: insert key value rest

/-- All pairs are written one after the other. -/
def insertAll (entries : Entries) (pairs : List (Value × Value)) : Entries :=
  pairs.foldl (fun entries pair => insert pair.1 pair.2 entries) entries

/-- The map that arises when pairs are written in order. -/
def ofPairs (pairs : List (Value × Value)) : Entries := insertAll [] pairs

@[simp] theorem get?_nil (key : Value) : get? [] key = none := rfl

/-- A value is found under the name it was written under; what other names hold stays. -/
theorem get?_insert_text (entries : Entries) (name other : String) (value : Value) :
    (insert (.text name) value entries).get? (.text other) =
      if other = name then some value else entries.get? (.text other) := by
  induction entries with
  | nil =>
    by_cases equal : other = name
    · simp [insert, get?, equal]
    · simp [insert, get?, equal, Ne.symm equal]
  | cons entry rest ih =>
    obtain ⟨key, old⟩ := entry
    simp only [get?] at ih
    by_cases here : key = .text name
    · subst here
      by_cases equal : other = name
      · simp [insert, get?, equal]
      · simp [insert, get?, equal, Ne.symm equal]
    · by_cases there : key = .text other
      · subst there
        have distinct : other ≠ name := fun equal => here (by rw [equal])
        simp [insert, get?, here, distinct]
      · simp [insert, get?, here, there, ih]

end RoutePattern.Entries

namespace RoutePattern.Value

/-- A set holds one of several equal items, the first. -/
def setOf (items : List Value) : Value :=
  .set (items.foldl (fun kept item => if kept.any item.same then kept else kept ++ [item]) [])

end RoutePattern.Value
