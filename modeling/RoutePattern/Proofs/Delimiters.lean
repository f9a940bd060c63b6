import RoutePattern.Proofs.Acceptance
import RoutePattern.Proofs.ClosedForm

/-! Values cannot change how an address is divided. Two runs over one pattern fill the same
tokens and remove the same groups, so the outcomes differ in the texts that stand for tokens
and nowhere else. Such a text holds no delimiter, and what is left of it without parentheses
does not end in a slash, so it has no influence on whether a slash at the end goes. -/
namespace RoutePattern.Pattern
open Text

/-- Is an address divided at this character? -/
def isDelimiter (char : Char) : Bool := "/?#&=:".toList.contains char

/-- What divides a text, in order, without the parts. -/
def delimiters (text : List Char) : List Char := text.filter isDelimiter

/-- How a text ends once its parentheses are erased: not at all, with a slash, or with
another character. -/
def ending (text : List Char) : Option Bool := (eraseParentheses text).getLast?.map (· == '/')

/-- Texts that agree in their delimiters and in how they end. -/
structure Alike (one other : List Char) : Prop where
  delimiters : delimiters one = delimiters other
  ending : ending one = ending other

/-- A text that stands for a token and divides nothing. -/
structure Harmless (text : List Char) : Prop where
  visible : Visible text
  undivided : ∀ char ∈ text, isDelimiter char = false

/-- Edits of one stretch whose new texts are alike. -/
structure SameStretch (one other : Edit) : Prop where
  start : one.start = other.start
  length : one.length = other.length
  text : Alike one.text other.text

section Texts
variable {one other first second text : List Char}

private theorem delimiters_append (first second : List Char) :
    delimiters (first ++ second) = delimiters first ++ delimiters second :=
  List.filter_append ..

private theorem ending_append (first second : List Char) :
    ending (first ++ second) = (ending second).or (ending first) := by
  rw [ending, eraseParentheses_append, List.getLast?_append, Option.map_or]
  rfl

private theorem Alike.refl (text : List Char) : Alike text text := ⟨rfl, rfl⟩

private theorem Alike.append (front : Alike one other) (behind : Alike first second) :
    Alike (one ++ first) (other ++ second) := by
  constructor
  · rw [delimiters_append, delimiters_append, front.delimiters, behind.delimiters]
  · rw [ending_append, ending_append, front.ending, behind.ending]

private theorem Harmless.delimiters_eq_nil (harmless : Harmless text) : delimiters text = [] := by
  rw [delimiters, List.filter_eq_nil_iff]
  intro char member
  rw [harmless.undivided char member]
  exact Bool.false_ne_true

private theorem Harmless.ending_eq (harmless : Harmless text) : ending text = some false := by
  have present := eraseParentheses_ne_nil harmless.visible
  have inside := (mem_eraseParentheses (List.getLast_mem present)).1
  rw [ending, List.getLast?_eq_some_getLast present, Option.map_some, Option.some_inj,
    beq_eq_false_iff_ne]
  intro slash
  have divided := harmless.undivided _ inside
  rw [slash] at divided
  cases divided

private theorem alike_of_harmless (first : Harmless one) (second : Harmless other) :
    Alike one other := by
  constructor
  · rw [first.delimiters_eq_nil, second.delimiters_eq_nil]
  · rw [first.ending_eq, second.ending_eq]

/-- Encoding leaves no delimiter as it is. -/
theorem harmless_encode (visible : Visible (encode text)) : Harmless (encode text) := by
  refine ⟨visible, fun char member => ?_⟩
  by_contra divided
  rw [Bool.not_eq_false, isDelimiter, List.contains_iff_mem] at divided
  simp only [String.reduceToList, List.mem_cons, List.not_mem_nil, or_false] at divided
  rcases divided with rfl | rfl | rfl | rfl | rfl | rfl <;>
    exact not_mem_encode (by decide) (by decide) member

/-- Parentheses divide nothing. -/
theorem delimiters_eraseParentheses (text : List Char) :
    delimiters (eraseParentheses text) = delimiters text := by
  rw [delimiters, eraseParentheses, List.filter_filter]
  apply List.filter_congr
  intro char _
  by_cases parenthesis : char = '(' ∨ char = ')'
  · rcases parenthesis with rfl | rfl <;> rfl
  · simp only [not_or] at parenthesis
    simp [parenthesis]

private theorem delimiters_dropFinalSlash (text : List Char) :
    delimiters (dropFinalSlash text) =
      if text.getLast? = some '/' then (delimiters text).dropLast else delimiters text := by
  by_cases slash : text.getLast? = some '/'
  · obtain ⟨front, rfl⟩ := List.getLast?_eq_some_iff.mp slash
    have whole : delimiters (front ++ ['/']) = delimiters front ++ ['/'] :=
      delimiters_append front ['/']
    rw [dropFinalSlash, if_pos (by simp), if_pos slash, whole, List.dropLast_concat,
      List.dropLast_concat]
  · rw [if_neg slash, dropFinalSlash_of_ne slash]

private theorem ending_eq_slash_iff :
    ending text = some true ↔ (eraseParentheses text).getLast? = some '/' := by
  simp [ending]

/-- What is taken away at the end of a path is taken away from both. -/
theorem delimiters_path (alike : Alike one other) :
    delimiters (dropFinalSlash (eraseParentheses one)) =
      delimiters (dropFinalSlash (eraseParentheses other)) := by
  simp only [delimiters_dropFinalSlash, delimiters_eraseParentheses, ← ending_eq_slash_iff,
    alike.delimiters, alike.ending]

end Texts

section Runs
variable {edits others : List Edit} {pattern : List Char} {one other : List (List Char)}

private theorem covers_of_sameStretch {first second : Edit} (same : SameStretch first second)
    (place : Nat) :
    first.covers place = second.covers place := by
  rw [Edit.covers, Edit.covers, Edit.stop, Edit.stop, same.start, same.length]

/-- One place in two runs. -/
theorem alike_standIn (same : List.Forall₂ SameStretch edits others) (char : Char) (place : Nat) :
    Alike (standIn edits char place) (standIn others char place) := by
  unfold standIn
  induction same with
  | nil => exact .refl [char]
  | @cons first second _ _ here _ ih =>
    simp only [List.find?_cons, covers_of_sameStretch here place]
    cases second.covers place with
    | false => exact ih
    | true =>
      simp only [here.start]
      split
      · exact here.text
      · exact .refl []

private theorem alike_rewrite (same : List.Forall₂ SameStretch edits others) (text : List Char) :
    Alike (rewrite edits text) (rewrite others text) := by
  unfold rewrite rewriteFrom
  induction text.zipIdx 0 with
  | nil => exact .refl []
  | cons entry entries ih => exact (alike_standIn same entry.1 entry.2).append ih

private theorem sameStretch_exchange {entries listed : List (Token × List Char)}
    (same : entries.map Prod.fst = listed.map Prod.fst)
    (here : ∀ text ∈ entries.map Prod.snd, Harmless text)
    (there : ∀ text ∈ listed.map Prod.snd, Harmless text) :
    List.Forall₂ SameStretch (entries.map fun entry => exchange entry.1 entry.2)
      (listed.map fun entry => exchange entry.1 entry.2) := by
  induction entries generalizing listed with
  | nil =>
    have none : listed = [] := by simpa using same.symm
    rw [none]
    exact .nil
  | cons entry entries ih =>
    cases listed with
    | nil => cases same
    | cons second listed =>
      simp only [List.map_cons, List.cons.injEq, List.forall_mem_cons] at same here there
      refine .cons ⟨?_, ?_, alike_of_harmless here.1 there.1⟩ (ih same.2 here.2 there.2)
      · exact congrArg Token.start same.1
      · exact congrArg (List.length ∘ Token.text) same.1

/-- Two runs over one pattern with equally many texts. -/
theorem alike_fill (count : one.length = other.length)
    (free : ∀ text ∈ one, ':' ∉ text) (alsoFree : ∀ text ∈ other, ':' ∉ text)
    (harmless : ∀ text ∈ standingTexts pattern one, Harmless text)
    (alsoHarmless : ∀ text ∈ standingTexts pattern other, Harmless text) :
    Alike (fill pattern one) (fill pattern other) := by
  rw [fill_eq_rewrite pattern one free, fill_eq_rewrite pattern other alsoFree]
  apply alike_rewrite
  rw [positionalEdits, positionalEdits, count]
  apply List.rel_append
  · exact List.forall₂_same.mpr fun _ _ => ⟨rfl, rfl, .refl _⟩
  · apply sameStretch_exchange _ harmless alsoHarmless
    rw [map_fst_standing, map_fst_standing, count]

end Runs

end RoutePattern.Pattern

namespace RoutePattern
open Pattern Text

/-- Argument sets of one form: of the same kind, and if they are positional of one length. A
map without entries and a list without items count as no arguments, not as keyed ones or as
positional ones. -/
structure SameForm (arguments others : Arguments) : Prop where
  kind : arguments.kind = others.kind
  count : arguments.kind = .positional → arguments.values.length = others.values.length

section Forms
variable {arguments others : Arguments} {pattern : List Char} {values given : List Value}

/-- Argument sets of one form give out equally many values. -/
theorem SameForm.length_eq (same : SameForm arguments others)
    (listed : arguments.sequence pattern = .ok values)
    (alsoListed : others.sequence pattern = .ok given) : values.length = given.length := by
  have kind := same.kind
  cases order : arguments.kind with
  | empty =>
    rw [order] at kind
    rw [Arguments.sequence, order] at listed
    rw [Arguments.sequence, ← kind] at alsoListed
    cases listed
    cases alsoListed
    rfl
  | positional =>
    rw [order] at kind
    rw [Arguments.sequence, order] at listed
    rw [Arguments.sequence, ← kind] at alsoListed
    cases listed
    cases alsoListed
    exact same.count order
  | keyed =>
    rw [order] at kind
    rw [Arguments.length_of_keyed order listed, Arguments.length_of_keyed kind.symm alsoListed]

private theorem harmless_of_standing
    (visible : ∀ text ∈ standingTexts pattern (values.map component),
    Visible text) : ∀ text ∈ standingTexts pattern (values.map component), Harmless text := by
  intro text member
  have seen := visible text member
  obtain ⟨value, _, rfl⟩ := List.mem_map.mp (mem_of_mem_standingTexts member)
  exact harmless_encode seen

end Forms

/-- Values do not change how a path is divided. Whatever the pattern looks like, paths that
are built from argument sets of one form have the same delimiters in the same order, if each
value that stands in them leaves something besides parentheses. -/
theorem built_paths_divided_alike (pattern : String) (given other : Value) (url url' : String)
    (same : SameForm (Arguments.ofValue given) (Arguments.ofValue other))
    (built : fillPath (.text pattern) given = .ok url)
    (alsoBuilt : fillPath (.text pattern) other = .ok url')
    (visible : ∀ values, (Arguments.ofValue given).sequence pattern.toList = .ok values →
      ∀ text ∈ standingTexts pattern.toList (values.map component), Visible text)
    (alsoVisible : ∀ values, (Arguments.ofValue other).sequence pattern.toList = .ok values →
      ∀ text ∈ standingTexts pattern.toList (values.map component), Visible text) :
    delimiters url.toList = delimiters url'.toList := by
  have kinds : (Arguments.ofValue given).isEmpty = (Arguments.ofValue other).isEmpty := by
    rw [Arguments.isEmpty, Arguments.isEmpty, same.kind]
  rcases path_cases (path_of_fillPath built) with ⟨empty, path⟩ | ⟨full, values, listed, path⟩ <;>
    rcases path_cases (path_of_fillPath alsoBuilt) with
      ⟨alsoEmpty, alsoPath⟩ | ⟨alsoFull, values', alsoListed, alsoPath⟩
  · rw [path, alsoPath]
  · rw [kinds, alsoFull] at empty
    cases empty
  · rw [kinds, alsoEmpty] at full
    cases full
  · have count := same.length_eq listed alsoListed
    rw [path, alsoPath]
    apply delimiters_path
    apply alike_fill
    · rw [List.length_map, List.length_map, count]
    · exact colon_not_mem_component
    · exact colon_not_mem_component
    · exact harmless_of_standing (visible values listed)
    · exact harmless_of_standing (alsoVisible values' alsoListed)

/-- Values with a slash, with delimiters of a query, and with the look of a token. -/
theorem built_paths_divided_alike_final :
    SameForm (Arguments.ofValue (.list [.text "x/y", .text "a=b&c"]))
        (Arguments.ofValue (.tuple [.int 7, .text "?:q#"])) ∧
      fillPath (.text "/a(/:b)?k=*c") (.list [.text "x/y", .text "a=b&c"]) =
        .ok "/a/x%2Fy?k=a%3Db%26c" ∧
      fillPath (.text "/a(/:b)?k=*c") (.tuple [.int 7, .text "?:q#"]) =
        .ok "/a/7?k=%3F%3Aq%23" ∧
      delimiters "/a/x%2Fy?k=a%3Db%26c".toList = delimiters "/a/7?k=%3F%3Aq%23".toList := by
  have same : SameForm (Arguments.ofValue (.list [.text "x/y", .text "a=b&c"]))
      (Arguments.ofValue (.tuple [.int 7, .text "?:q#"])) := ⟨rfl, fun _ => rfl⟩
  have built : fillPath (.text "/a(/:b)?k=*c") (.list [.text "x/y", .text "a=b&c"]) =
      .ok "/a/x%2Fy?k=a%3Db%26c" := by rfl
  have alsoBuilt : fillPath (.text "/a(/:b)?k=*c") (.tuple [.int 7, .text "?:q#"]) =
      .ok "/a/7?k=%3F%3Aq%23" := by rfl
  refine ⟨same, built, alsoBuilt, ?_⟩
  apply built_paths_divided_alike _ _ _ _ _ same built alsoBuilt
  · intro values listed
    cases listed
    decide
  · intro values listed
    cases listed
    decide

end RoutePattern
