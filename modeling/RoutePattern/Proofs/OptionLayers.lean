import RoutePattern.Proofs.NamedOptions

/-! Layers of options. Below lies a record, over it a map, and over both the overrides; a field
has the value that the uppermost layer gives it, and an absent value does not count as given. A
name that is none of a field is noticed in each layer, whatever its value. So options that are
made of options and further overrides are those that are made at once, where the upper overrides
are written over the lower ones, apart from absent values that would hide one. -/
namespace RoutePattern

/-- A text is the same as itself only, also seen from the other value. -/
theorem Value.same_text_right {value : Value} {content : String} :
    value.same (.text content) = true ↔ value = .text content := by
  constructor
  · intro equal
    cases value <;>
      simp only [same, isNull, isInt, isFloat, beq_iff_eq, Bool.false_eq_true] at equal
    rw [equal]
  · rintro rfl
    exact same_text_iff.mpr rfl

namespace Entries

/-- No key of a map stands there twice. -/
def KeysApart (entries : Entries) : Prop :=
  entries.Pairwise fun one other => one.1.same other.1 = false

/-- Overrides written over others. An absent value is written only where there is none yet. -/
def overlay (lower upper : Entries) : Entries :=
  lower.insertAll (upper.filter fun entry => !entry.2.isNull || (lower.get? entry.1).isNone)

section Lookups
variable {entries pairs : Entries} {name : String} {entry : Value × Value} {key value : Value}

private theorem get?_cons_of_eq (here : entry.1 = .text name) (entries : Entries) :
    get? (entry :: entries) (.text name) = some entry.2 := by
  rw [get?, List.find?_cons, Value.same_text_iff.mpr here]
  rfl

private theorem get?_cons_of_ne (there : entry.1 ≠ .text name) (entries : Entries) :
    get? (entry :: entries) (.text name) = get? entries (.text name) := by
  rw [get?, List.find?_cons,
    Bool.eq_false_iff.mpr fun same => there (Value.same_text_iff.mp same)]
  rfl

private theorem exists_same_of_get?_ne_none (found : entries.get? key ≠ none) :
    ∃ entry ∈ entries, key.same entry.1 = true := by
  rw [get?, ne_eq, Option.map_eq_none_iff, List.find?_eq_none] at found
  simpa using found

private theorem KeysApart.tail (apart : KeysApart (entry :: entries)) : KeysApart entries :=
  (List.pairwise_cons.mp apart).2

private theorem KeysApart.filter (apart : KeysApart entries) (keep : Value × Value → Bool) :
    KeysApart (entries.filter keep) := List.Pairwise.filter keep apart

/-- The key of the first entry is not found behind it. -/
theorem KeysApart.get?_tail (apart : KeysApart (entry :: entries)) (here : entry.1 = .text name) :
    entries.get? (.text name) = none := by
  rw [get?, Option.map_eq_none_iff, List.find?_eq_none]
  intro other member same
  have differ := (List.pairwise_cons.mp apart).1 other member
  rw [here, same] at differ
  cases differ

/-- If no key stands there twice, a name is looked up exactly by the entry that has it. -/
theorem get?_text_iff (apart : KeysApart entries) :
    entries.get? (.text name) = some value ↔ (.text name, value) ∈ entries := by
  induction entries with
  | nil => simp
  | cons entry entries ih =>
    obtain ⟨key, own⟩ := entry
    rw [List.mem_cons, ← ih apart.tail, Prod.mk.injEq]
    by_cases here : key = .text name
    · rw [get?_cons_of_eq here, apart.get?_tail here]
      simp [here, eq_comm]
    · rw [get?_cons_of_ne here, or_iff_right fun same => here same.1.symm]

private theorem get?_filter (apart : KeysApart entries) (keep : Value × Value → Bool) :
    Entries.get? (entries.filter keep) (.text name) =
      (entries.get? (.text name)).filter fun value => keep (.text name, value) := by
  ext value
  rw [get?_text_iff (apart.filter keep), List.mem_filter, ← get?_text_iff apart,
    Option.filter_eq_some_iff]

/-- Pairs that are written under names win over what stood there. -/
theorem get?_insertAll (apart : KeysApart pairs)
    (names : ∀ pair ∈ pairs, ∃ name, pair.1 = .text name) :
    (entries.insertAll pairs).get? (.text name) =
      (pairs.get? (.text name)).or (entries.get? (.text name)) := by
  induction pairs generalizing entries with
  | nil => rfl
  | cons pair pairs ih =>
    obtain ⟨own, here⟩ := names pair List.mem_cons_self
    rw [insertAll, List.foldl_cons]
    refine (ih apart.tail fun other member => names other (List.mem_cons_of_mem _ member)).trans ?_
    rw [here, get?_insert_text]
    by_cases same : name = own
    · -- The name does not come again, so the value that is written here stays.
      subst same
      rw [apart.get?_tail here, get?_cons_of_eq here, if_pos rfl]
      rfl
    · have there : pair.1 ≠ .text name := by
        rw [here, ne_eq, Value.text.injEq]
        exact Ne.symm same
      rw [get?_cons_of_ne there, if_neg same]

end Lookups

end Entries

open Entries

/-- A lawful sort of options whose records are no other values than those made from them. -/
class ExactOptionSort (φ : Type) [OptionSort φ] : Prop extends LawfulOptionSort φ where
  eq_toValue {value : Value} {options : Options φ} :
    OptionSort.ofValue? value = some options → value = OptionSort.toValue options

instance : ExactOptionSort BuildField where
  eq_toValue {value options} taken := by
    cases value <;> cases taken
    rfl

instance : ExactOptionSort MatchField where
  eq_toValue {value options} taken := by
    cases value <;> cases taken
    rfl

namespace Options
variable {φ : Type} [OptionSort φ]

/-- What options consist of: the record that lies below, and the entries over it. -/
inductive Consists (φ : Type) [OptionSort φ] : Value → Options φ → Entries → Prop
  | nothing : Consists φ .null OptionSort.initial []
  | map (entries : Entries) : Consists φ (.map entries) OptionSort.initial entries
  | record (options : Options φ) : Consists φ (OptionSort.toValue options) options []

/-- All keys are names of fields. -/
def Known (φ : Type) [OptionSort φ] (entries : Entries) : Prop :=
  ∀ entry ∈ entries, ∃ field : φ, entry.1 = fieldKey field

/-- Entries give a field a value that is not absent. -/
def Gives (entries : Entries) (field : φ) (value : Value) : Prop :=
  (fieldKey field, value) ∈ entries ∧ value ≠ .null

/-- The value of a field in two layers over a record: that of the upper layer, else that of the
lower one, else that of the record. -/
inductive Prevails (base : Options φ) (lower upper : Entries) (field : φ) : Value → Prop
  | upper {value : Value} : Gives upper field value → Prevails base lower upper field value
  | lower {value : Value} : (∀ other, ¬Gives upper field other) → Gives lower field value →
      Prevails base lower upper field value
  | base : (∀ other, ¬Gives upper field other) → (∀ other, ¬Gives lower field other) →
      Prevails base lower upper field (base field)

/-- Options are of another sort, or some layer has a key that is none of a field. -/
inductive Invalid (φ : Type) [OptionSort φ] (options : Value) (overrides : Entries) : Prop
  | sort : (∀ base supplied, ¬Consists φ options base supplied) → Invalid φ options overrides
  | key {base : Options φ} {supplied : Entries} : Consists φ options base supplied →
      ¬Known φ (supplied ++ overrides) → Invalid φ options overrides

/-- Both give the same, or both notice that options are invalid, be it in other words. -/
inductive SameOutcome {α : Type} : Except Error α → Except Error α → Prop
  | ok (result : α) : SameOutcome (.ok result) (.ok result)
  | invalid {error other : Error} : error.notice.kind = .invalidOptions →
      other.notice.kind = .invalidOptions → SameOutcome (.error error) (.error other)

section Keys
variable {entries pairs lower upper : Entries} {key value : Value} {base : Options φ} {field : φ}

private theorem known_nil : Known φ [] := fun _ member => absurd member List.not_mem_nil

private theorem known_cons {entry : Value × Value} :
    Known φ (entry :: entries) ↔ (∃ field : φ, entry.1 = fieldKey field) ∧ Known φ entries :=
  List.forall_mem_cons

private theorem known_append : Known φ (lower ++ upper) ↔ Known φ lower ∧ Known φ upper :=
  List.forall_mem_append

private theorem Known.name (known : Known φ entries) :
    ∀ entry ∈ entries, ∃ name, entry.1 = .text name :=
  fun entry member => (known entry member).imp' OptionSort.fieldName fun _ named => named

private theorem insertName_ne_nil (name : String) (names : List String) :
    insertName name names ≠ [] := by
  cases names with
  | nil => exact List.cons_ne_nil _ _
  | cons other rest =>
    rw [insertName]
    split
    · exact List.cons_ne_nil _ _
    · split <;> exact List.cons_ne_nil _ _

private theorem isField_iff [LawfulOptionSort φ] :
    isField φ key = true ↔ ∃ field : φ, key = fieldKey field := by
  rw [isField, List.any_eq_true]
  constructor
  · rintro ⟨field, _, same⟩
    exact ⟨field, Value.same_text_right.mp same⟩
  · rintro ⟨field, rfl⟩
    exact ⟨field, LawfulOptionSort.complete field, fieldKey_same_iff.mpr rfl⟩

/-- Of keys that are the same, either both are names of a field or neither is. -/
theorem exists_fieldKey_congr (same : key.same value = true) :
    (∃ field : φ, key = fieldKey field) ↔ ∃ field : φ, value = fieldKey field := by
  constructor
  · rintro ⟨field, rfl⟩
    exact ⟨field, Value.same_text_iff.mp same⟩
  · rintro ⟨field, rfl⟩
    exact ⟨field, Value.same_text_right.mp same⟩

private theorem unknownNames_eq_nil_iff [LawfulOptionSort φ] :
    unknownNames φ entries = [] ↔ Known φ entries := by
  rw [unknownNames]
  have none : ∀ keys : List Value,
      keys.foldr (fun key names => insertName (String.ofList key.plain) names) [] = [] ↔
        keys = [] := fun keys => by
    cases keys with
    | nil => exact iff_of_true rfl rfl
    | cons key keys => exact iff_of_false (insertName_ne_nil _ _) (List.cons_ne_nil _ _)
  rw [none, List.filter_eq_nil_iff, List.forall_mem_map]
  simp only [Bool.not_eq_true', Bool.not_eq_false, isField_iff]
  rfl

private theorem known_insert : Known φ (Entries.insert key value entries) ↔
    (∃ field : φ, key = fieldKey field) ∧ Known φ entries := by
  induction entries with
  | nil => exact known_cons
  | cons entry entries ih =>
    rw [Entries.insert]
    split
    · rename_i same
      rw [known_cons, known_cons, exists_fieldKey_congr same, ← and_assoc, and_self]
    · rw [known_cons, known_cons, ih, and_left_comm]

private theorem known_insertAll :
    Known φ (entries.insertAll pairs) ↔ Known φ entries ∧ Known φ pairs := by
  induction pairs generalizing entries with
  | nil => exact (and_iff_left known_nil).symm
  | cons pair pairs ih =>
    rw [insertAll, List.foldl_cons]
    refine ih.trans ?_
    rw [known_insert, known_cons, and_assoc, and_left_comm]

/-- An absent value that is left out does not hide its name: the same name is in the lower layer. -/
theorem known_overlay : Known φ (overlay lower upper) ↔ Known φ lower ∧ Known φ upper := by
  rw [overlay, known_insertAll]
  refine and_congr_right fun knownLower => ⟨fun kept entry member => ?_, fun known entry member =>
    known entry (List.mem_filter.mp member).1⟩
  by_cases hidden : lower.get? entry.1 = none
  · exact kept entry (List.mem_filter.mpr ⟨member, by simp [hidden]⟩)
  · -- The entry may be left out, but then its key is one of the lower layer, which are known.
    obtain ⟨other, listed, same⟩ := exists_same_of_get?_ne_none hidden
    exact (exists_fieldKey_congr same).mpr (knownLower other listed)

private theorem given?_eq_filter (entries : Entries) (key : Value) :
    given? entries key = (entries.get? key).filter fun value => !value.isNull := by
  unfold given?
  rcases entries.get? key with _ | value
  · rfl
  · cases value <;> rfl

private theorem given?_eq_some_iff (apart : KeysApart entries) :
    given? entries (fieldKey field) = some value ↔ Gives entries field value := by
  rw [given?_eq_filter, Option.filter_eq_some_iff, fieldKey, get?_text_iff apart]
  refine and_congr_right fun _ => ?_
  cases value <;> simp [Value.isNull]

private theorem given?_eq_none_iff (apart : KeysApart entries) :
    given? entries (fieldKey field) = none ↔ ∀ value, ¬Gives entries field value := by
  simp only [Option.eq_none_iff_forall_ne_some, ne_eq, given?_eq_some_iff apart]

/-- Where absent values are not written over others, what is given in the upper layer is found
first, and else what is given in the lower one. -/
theorem given?_overlay (apart : KeysApart upper) (known : Known φ upper) (field : φ) :
    given? (overlay lower upper) (fieldKey field) =
      (given? upper (fieldKey field)).or (given? lower (fieldKey field)) := by
  have names : ∀ entry ∈ upper.filter fun entry =>
      !entry.2.isNull || (lower.get? entry.1).isNone, ∃ name, entry.1 = .text name :=
    fun entry member => known.name entry (List.mem_filter.mp member).1
  simp only [given?_eq_filter]
  rw [overlay, fieldKey, get?_insertAll (apart.filter _) names, get?_filter apart]
  rcases upper.get? (.text (OptionSort.fieldName field)) with _ | value
  · rfl
  · cases below : lower.get? (.text (OptionSort.fieldName field)) <;>
      cases null : value.isNull <;> simp [Option.filter, below, null]

end Keys

section Layers
variable {options : Value} {supplied lower upper overrides : Entries} {base : Options φ} {field : φ}
  {value : Value} {operation : String}

private theorem Prevails.layered_eq (lowerApart : KeysApart lower) (upperApart : KeysApart upper)
    (prevails : Prevails base lower upper field value) :
    layered base lower upper field = value := by
  cases prevails with
  | upper given => simp only [layered, (given?_eq_some_iff upperApart).mpr given]
  | lower silent given =>
    simp only [layered, (given?_eq_none_iff upperApart).mpr silent,
      (given?_eq_some_iff lowerApart).mpr given, Option.getD_some]
  | base silent alsoSilent =>
    simp only [layered, (given?_eq_none_iff upperApart).mpr silent,
      (given?_eq_none_iff lowerApart).mpr alsoSilent, Option.getD_none]

private theorem prevails_layered (lowerApart : KeysApart lower) (upperApart : KeysApart upper) :
    Prevails base lower upper field (layered base lower upper field) := by
  cases above : given? upper (fieldKey field) with
  | some value =>
    simp only [layered, above]
    exact .upper ((given?_eq_some_iff upperApart).mp above)
  | none =>
    have silent := (given?_eq_none_iff upperApart).mp above
    cases below : given? lower (fieldKey field) with
    | some value =>
      simp only [layered, above, below, Option.getD_some]
      exact .lower silent ((given?_eq_some_iff lowerApart).mp below)
    | none =>
      simp only [layered, above, below, Option.getD_none]
      exact .base silent ((given?_eq_none_iff lowerApart).mp below)

private theorem prevails_iff (lowerApart : KeysApart lower) (upperApart : KeysApart upper) :
    Prevails base lower upper field value ↔ layered base lower upper field = value :=
  ⟨Prevails.layered_eq lowerApart upperApart,
    fun same => same ▸ prevails_layered lowerApart upperApart⟩

/-- Overrides over options that had overrides already lie over these. -/
theorem layered_layered (apart : KeysApart upper) (known : Known φ upper) :
    layered (layered base supplied lower) [] upper =
      layered base supplied (overlay lower upper) := by
  funext field
  have nothing : given? [] (fieldKey field) = none := rfl
  simp only [layered, given?_overlay apart known, nothing, Option.getD_none]
  cases given? upper (fieldKey field) <;> rfl

private theorem known_or_invalid (φ : Type) [OptionSort φ] (options : Value) (overrides : Entries) :
    (∃ base supplied, Consists φ options base supplied ∧ Known φ (supplied ++ overrides)) ∨
      Invalid φ options overrides := by
  by_cases sort : ∃ base supplied, Consists φ options base supplied
  · obtain ⟨base, supplied, consists⟩ := sort
    by_cases known : Known φ (supplied ++ overrides)
    · exact .inl ⟨base, supplied, consists, known⟩
    · exact .inr (.key consists known)
  · exact .inr (.sort fun base supplied consists => sort ⟨base, supplied, consists⟩)

/-- An invalid lower layer stays invalid under an upper one. -/
theorem Invalid.overlay (invalid : Invalid φ options lower) (upper : Entries) :
    Invalid φ options (lower.overlay upper) := by
  cases invalid with
  | sort other => exact .sort other
  | key consists unknown =>
    refine .key consists fun known => unknown ?_
    rw [known_append] at known ⊢
    exact known.imp_right fun both => (known_overlay.mp both).1

variable [ExactOptionSort φ]

private theorem split?_eq_some_iff : split? φ options = some (base, supplied) ↔
    Consists φ options base supplied := by
  constructor
  · intro parts
    unfold split? at parts
    split at parts
    · cases parts
      exact .nothing
    · cases parts
      exact .map _
    · obtain ⟨record, taken, same⟩ := Option.map_eq_some_iff.mp parts
      cases same
      exact ExactOptionSort.eq_toValue taken ▸ .record _
  · rintro (_ | _ | _)
    · rfl
    · rfl
    · exact LawfulOptionSort.taken base

private theorem coerce_of_known (consists : Consists φ options base supplied)
    (known : Known φ (supplied ++ overrides)) :
    coerce φ operation options overrides = .ok (layered base supplied overrides) := by
  simp only [coerce, split?_eq_some_iff.mpr consists, unknownNames_eq_nil_iff.mpr known]

private theorem coerce_of_invalid (operation : String) (invalid : Invalid φ options overrides) :
    ∃ error, coerce φ operation options overrides = .error error ∧
      error.notice.kind = .invalidOptions := by
  cases invalid with
  | sort other =>
    have none : split? φ options = none :=
      Option.eq_none_iff_forall_ne_some.mpr fun parts same =>
        other parts.1 parts.2 (split?_eq_some_iff.mp same)
    exact ⟨.unsupportedOptions operation (OptionSort.name φ) options.typeName,
      by simp only [coerce, none], rfl⟩
  | key consists unknown =>
    obtain ⟨name, names, listed⟩ :=
      List.exists_cons_of_ne_nil (mt unknownNames_eq_nil_iff.mp unknown)
    exact ⟨.unknownOptions operation (name :: names),
      by simp only [coerce, split?_eq_some_iff.mpr consists, listed], rfl⟩

private theorem coerce_eq_error_iff :
    (∃ error, coerce φ operation options overrides = .error error ∧
    error.notice.kind = .invalidOptions) ↔ Invalid φ options overrides := by
  refine ⟨fun ⟨error, failed, _⟩ => ?_, coerce_of_invalid operation⟩
  refine (known_or_invalid φ options overrides).resolve_left fun ⟨_, _, consists, known⟩ => ?_
  rw [coerce_of_known consists known] at failed
  cases failed

private theorem sameOutcome_of_invalid {one other : Value} (operation outer : String)
    (invalid : Invalid φ one lower) (alsoInvalid : Invalid φ other upper) :
    SameOutcome (coerce φ operation one lower) (coerce φ outer other upper) := by
  obtain ⟨error, failed, kind⟩ := coerce_of_invalid operation invalid
  obtain ⟨another, alsoFailed, alsoKind⟩ := coerce_of_invalid outer alsoInvalid
  rw [failed, alsoFailed]
  exact .invalid kind alsoKind

private theorem sameOutcome_layers (operation outer single : String) (apart : KeysApart upper) :
    SameOutcome
      ((coerce φ operation options lower).bind fun result =>
        coerce φ outer (OptionSort.toValue result) upper)
      (coerce φ single options (overlay lower upper)) := by
  rcases known_or_invalid φ options lower with ⟨base, supplied, consists, known⟩ | invalid
  · rw [coerce_of_known consists known]
    by_cases knownUpper : Known φ upper
    · have whole : Known φ (supplied ++ overlay lower upper) := by
        rw [known_append, known_overlay] at *
        exact ⟨known.1, known.2, knownUpper⟩
      have again : coerce φ outer (OptionSort.toValue (layered base supplied lower)) upper = _ :=
        coerce_of_known (.record _) knownUpper
      rw [coerce_of_known consists whole, Except.bind, again, layered_layered apart knownUpper]
      exact .ok _
    · -- The inner call succeeds, and the outer one notices what a single call notices.
      refine sameOutcome_of_invalid outer single (.key (.record _) knownUpper)
        (.key consists fun known => knownUpper ?_)
      exact (known_overlay.mp (known_append.mp known).2).2
  · obtain ⟨error, failed, kind⟩ := coerce_of_invalid operation invalid
    obtain ⟨other, alsoFailed, alsoKind⟩ := coerce_of_invalid single (invalid.overlay upper)
    rw [failed, alsoFailed]
    exact .invalid kind alsoKind

end Layers

/-- Options are merged layer by layer; each layer is a map, so no key stands twice in it. They
are invalid exactly if they are of another sort or have a key in some layer that is none of a
field, whatever its value; otherwise each field has the value that prevails in the layers. And
what comes of further overrides over options that are made like this is what comes of both
overrides at once. -/
theorem option_layers_merge (φ : Type) [OptionSort φ] [ExactOptionSort φ]
    (operation outer single : String) (options : Value) (lower upper : Entries)
    (apart : ∀ entries, options = .map entries → KeysApart entries)
    (lowerApart : KeysApart lower) (upperApart : KeysApart upper) :
    ((∃ error, coerce φ operation options lower = .error error ∧
        error.notice.kind = .invalidOptions) ↔ Invalid φ options lower) ∧
      (∀ base supplied, Consists φ options base supplied → Known φ (supplied ++ lower) →
        ∃ result, coerce φ operation options lower = .ok result ∧
          ∀ field value, Prevails base supplied lower field value ↔ result field = value) ∧
      SameOutcome
        ((coerce φ operation options lower).bind fun result =>
          coerce φ outer (OptionSort.toValue result) upper)
        (coerce φ single options (overlay lower upper)) := by
  refine ⟨coerce_eq_error_iff, fun base supplied consists known => ?_,
    sameOutcome_layers operation outer single upperApart⟩
  refine ⟨_, coerce_of_known consists known, fun field value => prevails_iff ?_ lowerApart⟩
  cases consists with
  | nothing => exact .nil
  | map => exact apart _ rfl
  | record => exact .nil

/-- A field is given by the map, another one by an override, and an absent value hides neither;
but it does not excuse a name that is none of a field. -/
theorem option_layers_merge_absent :
    KeysApart [(.text "host", .text "h"), (.text "path", .null)] ∧
      KeysApart [(.text "path", .text "/a"), (.text "hash", .null)] ∧
      KeysApart [(.text "path", .null), (.text "hash", .text "t")] ∧
      (∃ result, coerce BuildField "build_url"
          (.map [(.text "host", .text "h"), (.text "path", .null)])
          [(.text "path", .text "/a"), (.text "hash", .null)] = .ok result ∧
        result .host = .text "h" ∧ result .path = .text "/a" ∧ result .hash = .text "") ∧
      SameOutcome
        ((coerce BuildField "build_url" (.map [(.text "host", .text "h"), (.text "path", .null)])
            [(.text "path", .text "/a"), (.text "hash", .null)]).bind fun result =>
          coerce BuildField "build_url" (OptionSort.toValue result)
            [(.text "path", .null), (.text "hash", .text "t")])
        (coerce BuildField "build_url" (.map [(.text "host", .text "h"), (.text "path", .null)])
          [(.text "path", .text "/a"), (.text "hash", .text "t")]) ∧
      ∃ error, coerce BuildField "build_url" .null [(.text "port", .null)] = .error error ∧
        error.notice.kind = .invalidOptions := by
  have mapApart : KeysApart [(.text "host", .text "h"), (.text "path", .null)] := by
    simp [KeysApart, Value.same]
  have lowerApart : KeysApart [(.text "path", .text "/a"), (.text "hash", .null)] := by
    simp [KeysApart, Value.same]
  have upperApart : KeysApart [(.text "path", .null), (.text "hash", .text "t")] := by
    simp [KeysApart, Value.same]
  have known : Known BuildField [(.text "host", .text "h"), (.text "path", .null),
      (.text "path", .text "/a"), (.text "hash", .null)] :=
    known_cons.mpr ⟨⟨.host, rfl⟩, known_cons.mpr ⟨⟨.path, rfl⟩, known_cons.mpr ⟨⟨.path, rfl⟩,
      known_cons.mpr ⟨⟨.hash, rfl⟩, known_nil⟩⟩⟩⟩
  obtain ⟨_, fit, layers⟩ := option_layers_merge BuildField "build_url" "build_url" "build_url"
    (.map [(.text "host", .text "h"), (.text "path", .null)])
    [(.text "path", .text "/a"), (.text "hash", .null)]
    [(.text "path", .null), (.text "hash", .text "t")]
    (fun _ same => Value.map.inj same ▸ mapApart) lowerApart upperApart
  obtain ⟨result, merged, prevail⟩ := fit _ _ (.map _) known
  have hidden : overlay [(.text "path", .text "/a"), (.text "hash", .null)]
      [(.text "path", .null), (.text "hash", .text "t")] =
        [(.text "path", .text "/a"), (.text "hash", .text "t")] := by
    simp [overlay, Entries.get?, insertAll, Entries.insert, Value.isNull]
  rw [hidden] at layers
  have strange : Invalid BuildField .null [(.text "port", .null)] := by
    refine .key .nothing fun allKnown => ?_
    obtain ⟨field, same⟩ := allKnown (.text "port", .null) List.mem_cons_self
    cases field <;> simp [fieldKey, OptionSort.fieldName] at same
  have fails := (option_layers_merge BuildField "build_url" "build_url" "build_url" .null
    [(.text "port", .null)] [] (fun _ same => absurd same (by simp)) (by simp [KeysApart])
    .nil).1.mpr strange
  refine ⟨mapApart, lowerApart, upperApart, ⟨result, merged, (prevail .host _).mp (.lower ?_ ?_),
    (prevail .path _).mp (.upper ?_), (prevail .hash _).mp (.base ?_ ?_)⟩, layers, fails⟩
  all_goals simp [Gives, fieldKey, OptionSort.fieldName]

end Options

end RoutePattern
