/-! Names of parameters are runs of ASCII word characters. -/
namespace RoutePattern.Text

/-- ASCII letters, digits and the low line. -/
def isWord (char : Char) : Bool := char.isAlphanum || char == '_'

/-- The longest run of word characters at the head of a text. -/
def word (text : List Char) : List Char := text.takeWhile isWord

/-- The length of a sigil of `sigil` characters together with the name behind it,
zero if no name follows the sigil. -/
def lengthWithName (sigil : Nat) (behind : List Char) : Nat :=
  match word behind with
  | [] => 0
  | name => sigil + name.length

theorem isWord_of_mem_word {char : Char} {text : List Char} (member : char ∈ word text) :
    isWord char = true := by
  induction text with
  | nil => cases member
  | cons first rest ih =>
    simp only [word, List.takeWhile_cons] at member
    split at member
    · rename_i accepted
      rcases List.mem_cons.mp member with rfl | inside
      · exact accepted
      · exact ih inside
    · cases member

end RoutePattern.Text
