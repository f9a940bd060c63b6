import RoutePattern.Proofs.Acceptance
import RoutePattern.Proofs.Outcome
import RoutePattern.Report

/-! Values by place and by name. Filling gives values out one after the other, a report looks
them up under the names of the parameters. If names are distinct, a token that is given a value
finds the same one under its name: in the map that positional arguments are turned into, which
has an absent value for each token behind the last value, and in the map of keyed arguments,
which is put into the order of the named tokens before it is given out. -/
namespace RoutePattern.Pattern
open Text

/-- The tokens of a pattern in the order in which a report lists them. -/
def reportOrder (pattern : List Char) : List Token :=
  tokensOf pattern .named ++ tokensOf pattern .splat

/-- No two parameters of a pattern have the same name. -/
def DistinctNames (pattern : List Char) : Prop := ((parameters pattern).map key).Nodup

instance (pattern : List Char) : Decidable (DistinctNames pattern) :=
  inferInstanceAs (Decidable (List.Nodup _))

/-- Tokens with the values that they are given when values are given out in this order. -/
def givenValues (pattern : List Char) (values : List Value) : List (Token × Value) :=
  (tokensOf pattern .named).zip values ++
    if looseColon pattern then []
    else (tokensOf pattern .splat).zip (values.drop (tokensOf pattern .named).length)

section Order
variable {pattern : List Char} {values : List Value} {token : Token} {value : Value}
  {text : List Char} {group : Occurrence}

private theorem parameters_eq (pattern : List Char) :
    parameters pattern = (reportOrder pattern).map Token.text :=
  List.map_append.symm

theorem mem_reportOrder : token ∈ reportOrder pattern ↔ token ∈ tokens pattern := by
  simp only [reportOrder, tokensOf, List.mem_append, List.mem_filter, beq_iff_eq, ← and_or_left]
  cases token.kind <;> simp

theorem text_mem_parameters (member : token ∈ tokens pattern) :
    token.text ∈ parameters pattern := by
  rw [parameters_eq]
  exact List.mem_map_of_mem (mem_reportOrder.mpr member)

private theorem zip_append_left {α β : Type} (first second : List α) (items : List β) :
    (first ++ second).zip items = first.zip items ++ second.zip (items.drop first.length) := by
  induction first generalizing items with
  | nil => simp
  | cons item first ih => cases items <;> simp [ih]

/-- An item has a partner, or stands behind those that have one. -/
theorem mem_zip_or_mem_drop {α β : Type} {item : α} {items : List α} (others : List β)
    (member : item ∈ items) :
    (∃ other, (item, other) ∈ items.zip others) ∨ item ∈ items.drop others.length := by
  induction items generalizing others with
  | nil => cases member
  | cons first items ih =>
    cases others with
    | nil => exact .inr member
    | cons other others =>
      rcases List.mem_cons.mp member with rfl | member
      · exact .inl ⟨other, by simp⟩
      · refine (ih others member).imp (fun ⟨other, listed⟩ => ⟨other, ?_⟩) id
        exact List.mem_cons_of_mem _ listed

/-- Of distinct items none that stands behind those with a partner has one. -/
theorem not_mem_zip_of_mem_drop {α β : Type} {item : α} {items : List α} {other : β}
    {others : List β} (distinct : items.Nodup) (behind : item ∈ items.drop others.length) :
    (item, other) ∉ items.zip others := by
  intro listed
  have among : item ∈ (items.zip others).map Prod.fst := List.mem_map_of_mem listed
  rw [map_fst_zip_take] at among
  exact List.disjoint_take_drop distinct (Nat.le_refl _) among behind

theorem nodup_reportOrder (distinct : DistinctNames pattern) : (reportOrder pattern).Nodup := by
  rw [DistinctNames, parameters_eq, List.map_map] at distinct
  exact distinct.of_map

/-- Where every colon belongs to a named token, values are given out in the order of a report. -/
theorem givenValues_eq_zip (colons : looseColon pattern = false) (values : List Value) :
    givenValues pattern values = (reportOrder pattern).zip values := by
  rw [reportOrder, zip_append_left, givenValues, colons]
  rfl

theorem mem_zip_of_given (given : (token, value) ∈ givenValues pattern values) :
    (token, value) ∈ (reportOrder pattern).zip values := by
  rw [reportOrder, zip_append_left, List.mem_append]
  rcases List.mem_append.mp given with named | splat
  · exact .inl named
  · split at splat
    · cases splat
    · exact .inr splat

/-- Values are encoded before they are given out or afterwards. -/
theorem dealt_component (pattern : List Char) (values : List Value) :
    dealt pattern (values.map component) =
      (givenValues pattern values).map (Prod.map id component) := by
  rw [dealt, givenValues, List.map_append, List.zip_map_right, ← List.map_drop]
  congr 1
  split
  · rfl
  · rw [List.zip_map_right]

private theorem mem_dealt_component_iff : (token, text) ∈ dealt pattern (values.map component) ↔
    ∃ value, (token, value) ∈ givenValues pattern values ∧ component value = text := by
  rw [dealt_component, List.mem_map]
  constructor
  · rintro ⟨⟨_, value⟩, given, same⟩
    cases same
    exact ⟨value, given, rfl⟩
  · rintro ⟨value, given, rfl⟩
    exact ⟨(token, value), given, rfl⟩

/-- A token that is given no value is open. -/
theorem open_of_not_given (member : token ∈ tokens pattern)
    (nothing : ∀ value, (token, value) ∉ givenValues pattern values) :
    (⟨token, none⟩ : Slot) ∈ fillSlots pattern (values.map component) := by
  rw [open_iff colon_not_mem_component member]
  intro text listed
  obtain ⟨value, given, _⟩ := mem_dealt_component_iff.mp listed
  exact nothing value given

theorem filledWith_of_given (given : (token, value) ∈ givenValues pattern values) :
    FilledWith pattern (values.map component) token (component value) :=
  filledWith_of_dealt colon_not_mem_component (mem_dealt_component_iff.mpr ⟨value, given, rfl⟩)

/-- The text of a token within a group occurs in the text of the group. -/
theorem infix_of_within (member : token ∈ tokens pattern) (listed : group ∈ groups pattern)
    (inside : within token group = true) : token.text <:+: group.text := by
  have bounds := within_iff.mp inside
  obtain ⟨own, _⟩ := stretch_of_token member
  obtain ⟨around, _⟩ := stretch_of_group listed
  simp only [Token.stop, Occurrence.stop] at bounds
  have part : (group.text.drop (token.start - group.start)).take token.text.length =
      token.text := by
    rw [← around, List.drop_take, List.drop_drop, List.take_take]
    have place : group.start + (token.start - group.start) = token.start := by omega
    have length : min token.text.length (group.text.length - (token.start - group.start)) =
        token.text.length := by omega
    rw [place, length, own]
  rw [← part]
  exact (List.take_prefix _ _).isInfix.trans (List.drop_suffix _ _).isInfix

end Order

end RoutePattern.Pattern

namespace RoutePattern.Arguments
open Pattern

section Names
variable {tokens : List (List Char)} {values : List Value} {token : List Char} {value : Value}

theorem pairUp_cons (first : List Char) (tokens : List (List Char)) (values : List Value) :
    pairUp (first :: tokens) values =
      (keyOf first, values.headD .null) :: pairUp tokens values.tail := by
  cases values <;> rfl

theorem get?_insert_keyOf (entries : Entries) (first token : List Char) (value : Value) :
    (Entries.insert (keyOf first) value entries).get? (keyOf token) =
      if key token = key first then some value else entries.get? (keyOf token) := by
  rw [keyOf, keyOf, Entries.get?_insert_text]
  simp only [String.ofList_inj]

/-- Writing under other names leaves what stands under a name. -/
theorem get?_insertAll_of_absent (entries : Entries) (values : List Value)
    (absent : key token ∉ tokens.map key) :
    (entries.insertAll (pairUp tokens values)).get? (keyOf token) = entries.get? (keyOf token) := by
  induction tokens generalizing entries values with
  | nil => rfl
  | cons first tokens ih =>
    rw [List.map_cons, List.mem_cons, not_or] at absent
    rw [pairUp_cons, Entries.insertAll, List.foldl_cons]
    refine (ih _ _ absent.2).trans ?_
    rw [get?_insert_keyOf, if_neg absent.1]

/-- Under distinct names every value stays that is written. -/
theorem get?_insertAll_of_mem (entries : Entries) (values : List Value)
    (distinct : (tokens.map key).Nodup) (member : (keyOf token, value) ∈ pairUp tokens values) :
    (entries.insertAll (pairUp tokens values)).get? (keyOf token) = some value := by
  induction tokens generalizing entries values with
  | nil => cases member
  | cons first tokens ih =>
    rw [List.map_cons, List.nodup_cons] at distinct
    rw [pairUp_cons] at member ⊢
    rw [Entries.insertAll, List.foldl_cons]
    rcases List.mem_cons.mp member with same | member
    · simp only [Prod.mk.injEq, keyOf, Value.text.injEq, String.ofList_inj] at same
      refine (get?_insertAll_of_absent _ _ (same.1 ▸ distinct.1)).trans ?_
      rw [get?_insert_keyOf, if_pos same.1, same.2]
    · exact ih _ _ distinct.2 member

private theorem mem_pairUp_of_zip (given : (token, value) ∈ tokens.zip values) :
    (keyOf token, value) ∈ pairUp tokens values := by
  induction tokens generalizing values with
  | nil => cases given
  | cons first tokens ih =>
    cases values with
    | nil => cases given
    | cons other values =>
      rcases List.mem_cons.mp given with same | given
      · cases same
        exact List.mem_cons_self
      · exact List.mem_cons_of_mem _ (ih given)

/-- Behind the last value there is the absent one. -/
theorem mem_pairUp_of_drop (behind : token ∈ tokens.drop values.length) :
    (keyOf token, .null) ∈ pairUp tokens values := by
  induction tokens generalizing values with
  | nil => simp at behind
  | cons first tokens ih =>
    cases values with
    | nil =>
      rcases List.mem_cons.mp behind with rfl | behind
      · exact List.mem_cons_self
      · exact List.mem_cons_of_mem _ (ih behind)
    | cons other values => exact List.mem_cons_of_mem _ (ih behind)

end Names

section Lookup
variable {pattern : List Char} {values : List Value} {token : Token} {value : Value}
  {arguments : Arguments}

theorem get?_byName_of_zip (distinct : DistinctNames pattern)
    (given : (token, value) ∈ (reportOrder pattern).zip values) :
    (byName pattern values).get? (keyOf token.text) = some value := by
  apply get?_insertAll_of_mem [] values distinct
  apply mem_pairUp_of_zip
  rw [parameters_eq, List.zip_map_left]
  exact List.mem_map_of_mem given

theorem get?_byName_of_drop (distinct : DistinctNames pattern)
    (behind : token ∈ (reportOrder pattern).drop values.length) :
    (byName pattern values).get? (keyOf token.text) = some .null := by
  apply get?_insertAll_of_mem [] values distinct
  apply mem_pairUp_of_drop
  rw [parameters_eq, ← List.map_drop]
  exact List.mem_map_of_mem behind

/-- Keyed arguments give each named token what the map holds for it. -/
theorem get?_of_keyed (keyed : arguments.kind = .keyed)
    (listed : arguments.sequence pattern = .ok values)
    (given : (token, value) ∈ (tokensOf pattern .named).zip values) :
    arguments.mapping.get? (keyOf token.text) = some value := by
  apply List.forall₂_zip ((sequence_keyed_eq_ok_iff keyed).mp listed).2
  rw [named, List.zip_map_left]
  exact List.mem_map_of_mem given

theorem length_values_of_keyed (keyed : arguments.kind = .keyed)
    (listed : arguments.sequence pattern = .ok values) :
    values.length = (tokensOf pattern .named).length := by
  rw [length_of_keyed keyed listed, named, List.length_map]
  rfl

/-- Keyed arguments are given to named tokens only. -/
theorem givenValues_of_keyed (keyed : arguments.kind = .keyed)
    (listed : arguments.sequence pattern = .ok values) :
    givenValues pattern values = (tokensOf pattern .named).zip values := by
  have length := length_values_of_keyed keyed listed
  rw [givenValues, List.drop_eq_nil_of_le (Nat.le_of_eq length), List.zip_nil_right]
  simp

/-- What a token is given is what the arguments hold under its name. -/
theorem get?_of_given (distinct : arguments.kind = .positional → DistinctNames pattern)
    (listed : arguments.sequence pattern = .ok values)
    (given : (token, value) ∈ givenValues pattern values) :
    (Report.valuesOf pattern arguments).get? (keyOf token.text) = some value := by
  cases kind : arguments.kind with
  | empty =>
    rw [sequence, kind] at listed
    cases listed
    simp [givenValues] at given
  | positional =>
    rw [sequence, kind] at listed
    cases listed
    rw [Report.valuesOf, kind]
    exact get?_byName_of_zip (distinct kind) (mem_zip_of_given given)
  | keyed =>
    rw [givenValues_of_keyed kind listed] at given
    rw [Report.valuesOf, kind]
    exact get?_of_keyed kind listed given

end Lookup

end RoutePattern.Arguments
