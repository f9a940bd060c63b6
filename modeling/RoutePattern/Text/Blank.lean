/-! White space of Unicode: the separators of class Zs, the line and paragraph
separators, and the control characters with a bidirectional class of white space
or of a separator. -/
namespace RoutePattern.Text

/-- The ranges of code points that count as white space. -/
def blankRanges : List (Nat × Nat) :=
  [(0x09, 0x0D), (0x1C, 0x20), (0x85, 0x85), (0xA0, 0xA0), (0x1680, 0x1680), (0x2000, 0x200A),
    (0x2028, 0x2029), (0x202F, 0x202F), (0x205F, 0x205F), (0x3000, 0x3000)]

/-- Is this character white space? -/
def isBlank (char : Char) : Bool :=
  blankRanges.any fun (first, last) => first ≤ char.toNat && char.toNat ≤ last

/-- White space in the narrow sense of ASCII is white space. -/
theorem isBlank_of_isWhitespace {char : Char} (narrow : char.isWhitespace = true) :
    isBlank char = true := by
  simp only [Char.isWhitespace, Bool.or_eq_true, decide_eq_true_eq] at narrow
  rcases narrow with ((rfl | rfl) | rfl) | rfl <;> decide

end RoutePattern.Text
