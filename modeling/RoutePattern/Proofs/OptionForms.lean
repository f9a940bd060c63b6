import RoutePattern.Proofs.NamedOptions
import RoutePattern.Proofs.Recall
import RoutePattern.Session.Operation

/-! The forms in which options can be given: a record, a map, or each field by its name. A map and
names come to the same record, where an absent value does not count as given. A record is taken
as it is, with its absent values, so here it is up to each operation to take an absent value for
the initial one. Building does so for every field; testing does so for the pattern, but not for
the address. -/
namespace RoutePattern

/-- The forms in which options can be given. -/
inductive OptionForm where
  | record
  | map
  | names
deriving DecidableEq, Repr

section Forms
variable {φ : Type} [OptionSort φ] [DecidableEq φ]

/-- The call that gives the values of these fields in a form. -/
def OptionForm.call (fields : List φ) (values : Options φ) : OptionForm → Options.Call
  | .record => { options := some (OptionSort.toValue (Options.recordOf fields values)) }
  | .map => { options := some (.map (Options.byField fields values)) }
  | .names => { overrides := Options.byField fields values }

/-- What an operation makes of the values of these fields in a form. -/
def OptionForm.options (fields : List φ) (values : Options φ) : OptionForm → Options φ
  | .record => Options.recordOf fields values
  | .map | .names => Options.settled fields values

/-- Does an operation answer alike in whichever form its options are given, and also when absent
values are not given at all? Only forms that are fit for the values are considered. -/
structure Interchangeable {β : Type} (fit : OptionForm → List φ → Options φ → Prop)
    (answer : Options.Call → β) : Prop where
  forms : ∀ {form other : OptionForm} {fields : List φ} {values : Options φ},
    fit form fields values → fit other fields values →
      answer (form.call fields values) = answer (other.call fields values)
  absent : ∀ {form : OptionForm} {fields : List φ} {values : Options φ},
    fit form fields values →
      answer (form.call fields values) = answer (form.call (Options.present fields values) values)

end Forms

namespace Options
variable {φ : Type} {fields : List φ} {values : Options φ}

private theorem present_present (fields : List φ) (values : Options φ) :
    present (present fields values) values = present fields values := by
  simp [present, List.filter_filter]

variable [OptionSort φ]

/-- It makes no difference in which of two layers entries stand if there are no others. -/
theorem layered_lower (base : Options φ) (entries : Entries) :
    layered base entries [] = layered base [] entries := by
  funext field
  unfold layered
  cases given? entries (fieldKey field) <;> simp [given?]

variable [DecidableEq φ]

/-- In whichever form options are given, an operation is called with the options of this form. -/
theorem ofCall_call [LawfulOptionSort φ] (operation : String) (form : OptionForm)
    (fields : List φ) (values : Options φ) :
    ofCall φ operation [] (form.call fields values) = .ok (form.options fields values) := by
  cases form with
  | record =>
    change coerce φ operation (OptionSort.toValue (recordOf fields values)) [] = _
    simp only [coerce, LawfulOptionSort.taken]
    rfl
  | map =>
    change coerce φ operation (.map (byField fields values)) [] = _
    simp only [coerce, split?, List.append_nil, unknownNames_byField]
    rw [layered_lower, layered_byField]
    rfl
  | names => exact ofCall_named operation fields values

private theorem recordOf_of_absent {field : φ} (listed : field ∈ fields)
    (null : values field = .null) :
    recordOf fields values field = .null ∧
      settled fields values field = OptionSort.initial field := by
  have dropped : field ∉ present fields values := fun member => (mem_present_iff.mp member).2 null
  exact ⟨by rw [recordOf, if_pos listed, null], if_neg dropped⟩

private theorem recordOf_of_stated {field : φ} (stated : field ∈ fields → values field ≠ .null) :
    recordOf fields values field = settled fields values field := by
  unfold settled recordOf
  by_cases listed : field ∈ fields
  · rw [if_pos listed, if_pos (mem_present_iff.mpr ⟨listed, stated listed⟩)]
  · rw [if_neg listed, if_neg fun member => listed (mem_present_iff.mp member).1]

/-- What makes no difference between an absent value and the initial one of a field makes none
between a record and the values that count as given. -/
theorem apply_recordOf {β : Type} (field : φ) (use : Value → β)
    (same : use .null = use (OptionSort.initial field)) :
    use (recordOf fields values field) = use (settled fields values field) := by
  by_cases absent : field ∈ fields ∧ values field = .null
  · obtain ⟨null, initial⟩ := recordOf_of_absent absent.1 absent.2
    rw [null, initial, same]
  · rw [recordOf_of_stated fun listed null => absent ⟨listed, null⟩]

end Options

/-- An operation on options answers alike for all forms that are fit if it takes a record for the
values in it that count as given. -/
theorem Interchangeable.of_options {φ β : Type} [OptionSort φ] [DecidableEq φ]
    [LawfulOptionSort φ] {fit : OptionForm → List φ → Options φ → Prop} {operation : String}
    {answer : Options.Call → Except Error β} {use : Options φ → Except Error β}
    (told : ∀ call, answer call = (Options.ofCall φ operation [] call).bind use)
    (kept : ∀ {form : OptionForm} {fields : List φ} {values : Options φ},
      fit form fields values → fit form (Options.present fields values) values)
    (blind : ∀ {fields : List φ} {values : Options φ}, fit .record fields values →
      use (Options.recordOf fields values) = use (Options.settled fields values)) :
    Interchangeable fit answer := by
  have settle {form : OptionForm} {fields : List φ} {values : Options φ}
      (apt : fit form fields values) :
      answer (form.call fields values) = use (Options.settled fields values) := by
    rw [told, Options.ofCall_call]
    cases form with
    | record => exact blind apt
    | map | names => rfl
  refine ⟨fun apt other => (settle apt).trans (settle other).symm, fun apt => ?_⟩
  rw [settle apt, settle (kept apt), Options.settled, Options.settled, Options.present_present]

/-- No condition on forms and values. -/
def AnyForm (_ : OptionForm) (_ : List BuildField) (_ : Options BuildField) : Prop := True

section Building
variable (fields : List BuildField) (values : Options BuildField)

private theorem buildPath_recordOf :
    buildPath (Options.recordOf fields values) = buildPath (Options.settled fields values) := by
  have params : Options.recordOf fields values .params = Options.settled fields values .params :=
    Options.apply_recordOf BuildField.params (fun value => value) rfl
  unfold buildPath
  rw [params]
  exact Options.apply_recordOf BuildField.path (fun pattern => fillPath pattern _) rfl

private theorem buildQuery_recordOf :
    buildQuery (Options.recordOf fields values) = buildQuery (Options.settled fields values) := by
  have query : Options.recordOf fields values .query = Options.settled fields values .query :=
    Options.apply_recordOf BuildField.query (fun value => value) rfl
  unfold buildQuery
  rw [query]

/-- Each part of an address takes an absent value for the initial one. -/
theorem buildAddress_recordOf :
    buildAddress (Options.recordOf fields values) =
      buildAddress (Options.settled fields values) := by
  have host : (Options.recordOf fields values .host).textOrNothing =
      (Options.settled fields values .host).textOrNothing :=
    Options.apply_recordOf BuildField.host Value.textOrNothing rfl
  have hash : Address.anyText (Options.recordOf fields values .hash) =
      Address.anyText (Options.settled fields values .hash) :=
    Options.apply_recordOf BuildField.hash Address.anyText rfl
  simp only [buildAddress, buildPath_recordOf, buildQuery_recordOf, Address.joinValues, host, hash]

end Building

section Testing
variable {fields : List MatchField} {values : Options MatchField} {session : Session}

/-- A pattern and an address as values of their fields. -/
def testValues (path url : Value) : Options MatchField
  | .path => path
  | .url => url

/-- No record with an absent address in it. -/
def AddressStated (form : OptionForm) (fields : List MatchField) (values : Options MatchField) :
    Prop :=
  form = .record → .url ∈ fields → values .url ≠ .null

private theorem answer_testWith (call : Options.Call) (session : Session) :
    (outcome (Session.testWith call) session).1 =
      (Options.ofCall MatchField "test" [] call).bind fun options =>
        (outcome (Session.test options) session).1 :=
  Session.answer_lift_bind _ Session.test session

/-- Looking up a route takes an absent pattern for the empty one. -/
theorem route_recordOf :
    Session.route (Options.recordOf fields values .path) =
      Session.route (Options.settled fields values .path) :=
  Options.apply_recordOf MatchField.path Session.route rfl

private theorem answer_test_recordOf (stated : .url ∈ fields → values .url ≠ .null) :
    (outcome (Session.test (Options.recordOf fields values)) session).1 =
      (outcome (Session.test (Options.settled fields values)) session).1 := by
  rw [Session.answer_test, Session.answer_test, route_recordOf, Options.recordOf_of_stated stated]

end Testing

/-- Building an address, its path or its query answers alike in whichever form the options are
given, and so does testing an address, unless it is absent in a record. Then, where the test
would have an answer in any other form, the absent address is of the wrong type. -/
theorem forms_of_options_agree (session : Session) :
    Interchangeable AnyForm (fun call => (outcome (Session.buildWith call) session).1) ∧
      Interchangeable AnyForm pathWith ∧
      Interchangeable AnyForm queryWith ∧
      Interchangeable AddressStated (fun call => (outcome (Session.testWith call) session).1) ∧
      ∀ fields values, ¬ AddressStated .record fields values →
        (outcome (Session.testWith (OptionForm.record.call fields values)) session).1 =
          (outcome (Session.testWith (OptionForm.map.call fields values)) session).1.bind
            fun _ => .error .wrongType := by
  refine ⟨?_, ?_, ?_, ?_, fun fields values unstated => ?_⟩
  · have told (call : Options.Call) : (outcome (Session.buildWith call) session).1 =
        (Options.ofCall BuildField "build" [] call).bind buildAddress := by
      rw [Session.buildWith, Session.answer_lift_bind]
      simp only [Session.answer_build]
    exact .of_options told (fun _ => trivial) fun _ => buildAddress_recordOf _ _
  · exact .of_options (fun _ => rfl) (fun _ => trivial) fun _ => buildPath_recordOf _ _
  · exact .of_options (fun _ => rfl) (fun _ => trivial) fun _ => buildQuery_recordOf _ _
  · refine .of_options (answer_testWith · session) (fun apt record listed => ?_) fun apt =>
      answer_test_recordOf (apt rfl)
    exact (Options.mem_present_iff.mp listed).2
  · simp only [AddressStated, true_imp_iff, not_forall, not_not] at unstated
    obtain ⟨listed, null⟩ := unstated
    obtain ⟨absent, empty⟩ := Options.recordOf_of_absent listed null
    rw [answer_testWith, answer_testWith, Options.ofCall_call, Options.ofCall_call]
    change (outcome (Session.test (Options.recordOf fields values)) session).1 =
      (outcome (Session.test (Options.settled fields values)) session).1.bind _
    rw [Session.answer_test, Session.answer_test, route_recordOf, absent, empty]
    cases (outcome (Session.route (Options.settled fields values .path)) session).1 <;> rfl

/-- An absent address is of the wrong type in a record, and the empty one in a map. -/
theorem absent_address_in_record_fails :
    (outcome (Session.testWith
        (OptionForm.record.call [.path, .url] (testValues (.text "") .null))) {}).1 =
        .error .wrongType ∧
      (outcome (Session.testWith
        (OptionForm.map.call [.path, .url] (testValues (.text "") .null))) {}).1 = .ok true := by
  rw [answer_testWith, answer_testWith, Options.ofCall_call, Options.ofCall_call]
  exact ⟨rfl, rfl⟩

end RoutePattern
