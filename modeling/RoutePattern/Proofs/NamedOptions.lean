import RoutePattern.Options

/-! Options given by name. The fields of options have names of their own, so where every
override is a field under its name, the operation gets each of these as it is given unless it
is absent, and what the field is initially for every other one. -/
namespace RoutePattern

/-- A sort of options that lists all its fields, under names that tell them apart from each
other and from the options as a whole, and whose records stand for themselves. -/
class LawfulOptionSort (φ : Type) [OptionSort φ] : Prop where
  complete (field : φ) : field ∈ OptionSort.fields (φ := φ)
  injective {field other : φ} : OptionSort.fieldName field = OptionSort.fieldName other →
    field = other
  plain (field : φ) : OptionSort.fieldName field ≠ "options"
  taken (options : Options φ) :
    Options.split? φ (OptionSort.toValue options) = some (options, [])

instance : LawfulOptionSort BuildField where
  complete field := by cases field <;> decide
  injective {field other} same := by
    cases field <;> cases other <;> first | rfl | exact absurd same (by decide)
  plain field := by cases field <;> decide
  taken options := congrArg (Option.map fun record => (record, []))
    (OptionSort.ofValue?_toValue options)

instance : LawfulOptionSort MatchField where
  complete field := by cases field <;> decide
  injective {field other} same := by
    cases field <;> cases other <;> first | rfl | exact absurd same (by decide)
  plain field := by cases field <;> decide
  taken options := congrArg (Option.map fun record => (record, []))
    (OptionSort.ofValue?_toValue options)

namespace Options
variable {φ : Type} [OptionSort φ]

/-- Fields of options as overrides, each under its name. -/
def byField (fields : List φ) (options : Options φ) : Entries :=
  fields.map fun field => (fieldKey field, options field)

/-- Options that are told by these fields. Every other field is as it is initially, and an
absent value, which does not count as given, stands only where there is none initially. -/
structure ToldBy (options : Options φ) (fields : List φ) : Prop where
  rest : ∀ field, field ∉ fields → OptionSort.initial field = options field
  absent : ∀ field, options field = .null → OptionSort.initial field = .null

/-- The record with the values of these fields; every other field is as it is initially. -/
def recordOf [DecidableEq φ] (fields : List φ) (values : Options φ) : Options φ :=
  fun field => if field ∈ fields then values field else OptionSort.initial field

/-- The fields whose values are not absent. -/
def present (fields : List φ) (values : Options φ) : List φ :=
  fields.filter fun field => !(values field).isNull

/-- What the values of these fields amount to, as an absent one does not count as given. -/
def settled [DecidableEq φ] (fields : List φ) (values : Options φ) : Options φ :=
  recordOf (present fields values) values

omit [OptionSort φ] in
theorem mem_present_iff {fields : List φ} {values : Options φ} {field : φ} :
    field ∈ present fields values ↔ field ∈ fields ∧ values field ≠ .null := by
  rw [present, List.mem_filter]
  cases values field <;> simp [Value.isNull]

private theorem ToldBy.settled_eq [DecidableEq φ] {fields : List φ} {options : Options φ}
    (told : options.ToldBy fields) : settled fields options = options := by
  funext field
  rw [settled, recordOf]
  by_cases member : field ∈ fields
  · by_cases null : options field = .null
    · rw [if_neg fun listed => (mem_present_iff.mp listed).2 null, null]
      exact told.absent field null
    · rw [if_pos (mem_present_iff.mpr ⟨member, null⟩)]
  · rw [if_neg fun listed => member (mem_present_iff.mp listed).1]
    exact told.rest field member

private theorem get?_byField_none {fields : List φ} {options : Options φ} {key : Value}
    (absent : ∀ field ∈ fields, key.same (fieldKey field) = false) :
    (byField fields options).get? key = none := by
  rw [Entries.get?, Option.map_eq_none_iff, List.find?_eq_none, byField, List.forall_mem_map]
  intro field member same
  rw [absent field member] at same
  cases same

section Fields
variable [LawfulOptionSort φ] {fields : List φ} {field other : φ} {options : Options φ}

theorem fieldKey_same_iff : (fieldKey field).same (fieldKey other) = true ↔ field = other := by
  rw [fieldKey, Value.same_text_iff, fieldKey, Value.text.injEq]
  exact ⟨fun same => (LawfulOptionSort.injective same).symm, fun same => same ▸ rfl⟩

private theorem isField_fieldKey (field : φ) : isField φ (fieldKey field) = true :=
  List.any_eq_true.mpr ⟨field, LawfulOptionSort.complete field, fieldKey_same_iff.mpr rfl⟩

/-- No name of a field is an unknown one. -/
theorem unknownNames_byField (fields : List φ) (options : Options φ) :
    unknownNames φ (byField fields options) = [] := by
  have known : ((byField fields options).map Prod.fst).filter (fun key => !isField φ key) = [] := by
    rw [List.filter_eq_nil_iff, byField, List.map_map, List.forall_mem_map]
    intro field _
    simp [isField_fieldKey]
  rw [unknownNames, known]
  rfl

private theorem get?_byField (member : field ∈ fields) :
    (byField fields options).get? (fieldKey field) = some (options field) := by
  induction fields with
  | nil => cases member
  | cons first fields ih =>
    rw [byField, List.map_cons, Entries.get?, List.find?_cons]
    by_cases here : field = first
    · subst here
      rw [fieldKey_same_iff.mpr rfl]
      rfl
    · rw [Bool.eq_false_iff.mpr fun same => here (fieldKey_same_iff.mp same)]
      exact ih ((List.mem_cons.mp member).resolve_left here)

/-- Of the fields that are named, those count as given whose values are not absent. -/
theorem given?_byField [DecidableEq φ] (fields : List φ) (values : Options φ) (field : φ) :
    given? (byField fields values) (fieldKey field) =
      if field ∈ present fields values then some (values field) else none := by
  unfold given?
  by_cases member : field ∈ fields
  · rw [get?_byField member]
    cases value : values field <;> simp [mem_present_iff, member, value]
  · have missing : (byField fields values).get? (fieldKey field) = none := by
      apply get?_byField_none
      intro other listed
      rw [Bool.eq_false_iff]
      exact fun same => member (fieldKey_same_iff.mp same ▸ listed)
    rw [missing, if_neg fun listed => member (mem_present_iff.mp listed).1]

private theorem resolve_byField (fields : List φ) (values : Options φ) :
    Call.resolve { overrides := byField fields values } [] = .ok (.null, byField fields values) := by
  have plain : (byField fields values).get? (.text "options") = none := by
    apply get?_byField_none
    intro field _
    rw [Bool.eq_false_iff, ne_eq, Value.same_text_iff, fieldKey, Value.text.injEq]
    exact LawfulOptionSort.plain field
  simp [Call.resolve, plain]

section Settled
variable [DecidableEq φ]

/-- Fields that are given by name lie over the initial ones. -/
theorem layered_byField (fields : List φ) (values : Options φ) :
    layered OptionSort.initial [] (byField fields values) = settled fields values := by
  funext field
  rw [layered, given?_byField, settled, recordOf]
  by_cases member : field ∈ present fields values
  · rw [if_pos member, if_pos member]
  · rw [if_neg member, if_neg member]
    rfl

theorem coerce_named (operation : String) (fields : List φ) (values : Options φ) :
    coerce φ operation .null (byField fields values) = .ok (settled fields values) := by
  simp only [coerce, split?, List.nil_append, unknownNames_byField]
  rw [layered_byField]

/-- An operation gets the options that it is called with by name. -/
theorem ofCall_named (operation : String) (fields : List φ) (values : Options φ) :
    ofCall φ operation [] { overrides := byField fields values } = .ok (settled fields values) := by
  rw [ofCall, resolve_byField]
  exact coerce_named operation fields values

theorem coerce_byField (operation : String) (told : options.ToldBy fields) :
    coerce φ operation .null (byField fields options) = .ok options := by
  rw [coerce_named, told.settled_eq]

theorem ofCall_byField (operation : String) (told : options.ToldBy fields) :
    ofCall φ operation [] { overrides := byField fields options } = .ok options := by
  rw [ofCall_named, told.settled_eq]

end Settled

end Fields

end Options

end RoutePattern
