import RoutePattern.Proofs.ClosedForm
import RoutePattern.Proofs.Translation

/-! Tokens searched for kind by kind. One scan looks for named tokens only and another one for
splat tokens only, and neither knows what the other one takes. Still they never take the same
place: no character of a token can begin one of the other kind, so each scan finds just those
tokens that a scan for both kinds finds, and put into reading order they are the tokens of the
pattern. -/
namespace RoutePattern.Pattern
open Text

/-- The length of the token of one kind at the head of a text. -/
def Kind.lengthAt : Kind → Finder
  | .named => namedLength
  | .splat => splatLength

/-- The tokens that a scan for one kind finds. -/
def scanned (kind : Kind) (pattern : List Char) : List Token :=
  (occurrences kind.lengthAt pattern).map fun found => ⟨kind, found.start, found.text⟩

namespace Token

/-- A token comes before those that begin behind it. -/
def Before (one other : Token) : Prop := one.start ≤ other.start

instance : DecidableRel Before := fun _ _ => inferInstanceAs (Decidable (_ ≤ _))

instance : Std.Total Before := ⟨fun one other => Nat.le_total one.start other.start⟩

instance : IsTrans Token Before := ⟨fun _ _ _ => Nat.le_trans⟩

end Token

/-- Tokens by the places where they begin. -/
def byStart (list : List Token) : List Token := list.insertionSort Token.Before

section OneKind
variable {kind : Kind} {sigil name rest text : List Char} {char : Char}

private theorem lengthAt_eq_zero (none : tokenLength text = 0) (kind : Kind) :
    kind.lengthAt text = 0 := by
  have named : namedLength text = 0 := by
    by_contra found
    rw [tokenLength] at none
    split at none <;> contradiction
  cases kind with
  | named => exact named
  | splat =>
    simp only [tokenLength, named] at none
    exact none

/-- A token is found by the scan for its kind. -/
theorem lengthAt_token (known : sigil ∈ sigils) (present : name ≠ [])
    (word : ∀ char ∈ name, isWord char = true) (ended : Text.word rest = []) :
    (kindOf (sigil ++ name)).lengthAt (sigil ++ name ++ rest) = (sigil ++ name).length := by
  have length (before : Nat) := lengthWithName_append before present word ended
  rw [List.length_append]
  simp only [sigils, List.mem_cons, List.not_mem_nil, or_false] at known
  rcases known with rfl | rfl | rfl
  · exact length 1
  · exact length 1
  · exact length 3

/-- No character of a token can begin one of the other kind. -/
theorem lengthAt_of_other (known : sigil ∈ sigils) (word : ∀ char ∈ name, isWord char = true)
    (other : kindOf (sigil ++ name) ≠ kind) (member : char ∈ sigil ++ name)
    (behind : List Char) : kind.lengthAt (char :: behind) = 0 := by
  simp only [sigils, List.mem_cons, List.not_mem_nil, or_false] at known
  cases kind with
  | named =>
    have plain : char ≠ ':' ∧ char ≠ '(' := by
      rcases known with rfl | rfl | rfl
      · exact absurd rfl other
      · exact splat_plain word char member
      · exact absurd rfl other
    exact namedLength_of_ne plain.1 plain.2
  | splat =>
    have outside : '*' ∉ sigil := by
      rcases known with rfl | rfl | rfl
      · decide
      · exact absurd rfl other
      · decide
    apply splatLength_of_ne
    rcases List.mem_append.mp member with inside | inside
    · exact fun same => outside (same ▸ inside)
    · exact (isWord_plain (word char inside)).2.2

/-- What a scan for one kind finds are the tokens of this kind. -/
theorem map_locate_lengthAt (kind : Kind) (place : Nat) (text : List Char) :
    (locate place (pieces kind.lengthAt text)).map
        (fun found => (⟨kind, found.start, found.text⟩ : Token)) =
      ((locate place (pieces tokenLength text)).map Token.ofOccurrence).filter
        (·.kind == kind) := by
  induction text using tokens_induction generalizing place with
  | nil => rfl
  | token sigil name rest known present word ended ih =>
    have told : (Token.ofOccurrence ⟨place, sigil ++ name⟩).kind = kindOf (sigil ++ name) := rfl
    rw [pieces_token known present word ended, locate, List.map_cons, ← List.append_assoc,
      List.filter_cons, told]
    by_cases own : kindOf (sigil ++ name) = kind
    · have exact := lengthAt_token known present word ended
      rw [own] at exact
      rw [pieces_found (List.append_ne_nil_of_right_ne_nil sigil present) exact, locate,
        List.map_cons, ih, if_pos (beq_iff_eq.mpr own), ← own]
      rfl
    · have none : ∀ char ∈ sigil ++ name, ∀ behind, kind.lengthAt (char :: behind) = 0 :=
        fun _ => lengthAt_of_other known word own
      rw [pieces_append_of_plain none, locate_append, locate_plains, textOf_plains,
        List.nil_append, ih, if_neg (mt beq_iff_eq.mp own)]
  | plain char rest none ih =>
    rw [pieces_cons_plain none, pieces_cons_plain (lengthAt_eq_zero none kind)]
    exact ih (place + 1)

private theorem scanned_eq_tokensOf (kind : Kind) (pattern : List Char) :
    scanned kind pattern = tokensOf pattern kind :=
  map_locate_lengthAt kind 0 pattern

end OneKind

/-- Both scans together find the tokens of a pattern. -/
theorem scanned_perm (pattern : List Char) :
    (scanned .named pattern ++ scanned .splat pattern).Perm (tokens pattern) := by
  have other : (fun token : Token => token.kind == .splat) = fun token => !(token.kind == .named) := by
    funext ⟨kind, _, _⟩
    cases kind <;> rfl
  rw [scanned_eq_tokensOf, scanned_eq_tokensOf, tokensOf, tokensOf, other]
  exact List.filter_append_perm _ _

/-- Put into reading order, what both scans find are the tokens of a pattern. -/
theorem byStart_scanned (pattern : List Char) :
    byStart (scanned .named pattern ++ scanned .splat pattern) = tokens pattern := by
  have same : (byStart (scanned .named pattern ++ scanned .splat pattern)).Perm (tokens pattern) :=
    (List.perm_insertionSort _ _).trans (scanned_perm pattern)
  refine same.eq_of_pairwise ?_ (List.pairwise_insertionSort _ _) ?_
  · intro one other first second before after
    have member := same.mem_iff.mp first
    exact eq_of_pairwise (tokens_pairwise pattern) member second
      ⟨Nat.le_refl _, token_start_lt_stop member⟩
      ⟨after, Nat.lt_of_le_of_lt before (token_start_lt_stop second)⟩
  · refine (tokens_pairwise pattern).imp_of_mem fun member _ apart => ?_
    exact (token_start_lt_stop member).le.trans apart

end RoutePattern.Pattern
