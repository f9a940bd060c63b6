import Mathlib
import RoutePattern.Text.Percent
import RoutePattern.Pattern.Filling

/-! What an encoded text looks like. It holds none of the characters that a pattern, a
path or a query is divided by, parentheses aside, and these can be erased. -/
namespace RoutePattern.Text

section Encoding
variable {char : Char} {text : List Char} {n : Nat}

private theorem isAlphanum_upperHexDigit (small : n < 16) :
    (upperHexDigit n).isAlphanum = true := by
  have all : ∀ digit < 16, (upperHexDigit digit).isAlphanum = true := by decide
  exact all n small

private theorem mem_escapeByte (byte : UInt8) (member : char ∈ escapeByte byte) :
    isUnreserved char = true ∨ char = '%' := by
  have bound := byte.toNat_lt
  have high : byte.toNat / 16 < 16 := by omega
  have low : byte.toNat % 16 < 16 := by omega
  simp only [escapeByte, List.mem_cons, List.not_mem_nil, or_false] at member
  rcases member with rfl | rfl | rfl
  · exact .inr rfl
  · exact .inl (by simp [isUnreserved, isAlphanum_upperHexDigit high])
  · exact .inl (by simp [isUnreserved, isAlphanum_upperHexDigit low])

/-- An encoded text consists of unreserved characters and percent signs. -/
theorem mem_encode (member : char ∈ encode text) : isUnreserved char = true ∨ char = '%' := by
  rw [encode, List.mem_flatMap] at member
  obtain ⟨origin, _, member⟩ := member
  rw [encodeChar] at member
  split at member
  · rename_i unreserved
    rw [List.mem_singleton] at member
    exact .inl (member ▸ unreserved)
  · rw [List.mem_flatMap] at member
    obtain ⟨byte, _, member⟩ := member
    exact mem_escapeByte byte member

/-- A character that is neither unreserved nor a percent sign does not come out of encoding. -/
theorem not_mem_encode (reserved : isUnreserved char = false) (other : char ≠ '%') :
    char ∉ encode text := by
  intro member
  rcases mem_encode member with unreserved | percent
  · rw [reserved] at unreserved
    cases unreserved
  · exact other percent

theorem encode_of_unreserved (unreserved : ∀ char ∈ text, isUnreserved char = true) :
    encode text = text := by
  induction text with
  | nil => rfl
  | cons char text ih =>
    have here := unreserved char (by simp)
    have rest := ih fun other member => unreserved other (by simp [member])
    rw [encode] at rest ⊢
    rw [List.flatMap_cons, rest, encodeChar, if_pos here]
    rfl

end Encoding

end RoutePattern.Text

namespace RoutePattern.Pattern

@[simp] theorem eraseParentheses_append (first second : List Char) :
    eraseParentheses (first ++ second) = eraseParentheses first ++ eraseParentheses second :=
  List.filter_append ..

theorem mem_eraseParentheses {char : Char} {text : List Char}
    (member : char ∈ eraseParentheses text) : char ∈ text ∧ char ≠ '(' ∧ char ≠ ')' := by
  rw [eraseParentheses, List.mem_filter] at member
  simpa using member

theorem eraseParentheses_of_plain {text : List Char}
    (plain : ∀ char ∈ text, char ≠ '(' ∧ char ≠ ')') : eraseParentheses text = text := by
  rw [eraseParentheses, List.filter_eq_self]
  intro char member
  simp [plain char member]

/-- Something is left of a visible text when its parentheses are erased. -/
def Visible (text : List Char) : Prop := ∃ char ∈ text, char ≠ '(' ∧ char ≠ ')'

instance (text : List Char) : Decidable (Visible text) :=
  decidable_of_iff (text.any (fun char => char != '(' && char != ')') = true)
    (by simp [Visible])

theorem eraseParentheses_ne_nil {text : List Char} (visible : Visible text) :
    eraseParentheses text ≠ [] := by
  obtain ⟨char, member, notOpen, notClose⟩ := visible
  have kept : char ∈ eraseParentheses text := by
    rw [eraseParentheses, List.mem_filter]
    simp [member, notOpen, notClose]
  exact List.ne_nil_of_mem kept

end RoutePattern.Pattern
