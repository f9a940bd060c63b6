/-! Occurrences in a text. A finder tells how long the occurrence is that
begins at the head of a text. A scan takes occurrences from left to right, each
beginning at the first possible place behind the one before it, and so cuts the
text into pieces that put together give the text back. -/
namespace RoutePattern.Text

/-- The length of the occurrence at the head of a text, zero if none begins there. -/
abbrev Finder := List Char → Nat

/-- A text is cut into its occurrences and the single characters between them. -/
inductive Piece where
  | plain (char : Char)
  | found (text : List Char)
deriving DecidableEq, Repr

/-- The stretch of the text that a piece stands for. -/
def Piece.text : Piece → List Char
  | .plain char => [char]
  | .found text => text

/-- The pieces of a text whose first `skip` characters belong to the occurrence
already taken. -/
def piecesAfter (finder : Finder) : Nat → List Char → List Piece
  | _, [] => []
  | skip + 1, _ :: rest => piecesAfter finder skip rest
  | 0, char :: rest =>
    match finder (char :: rest) with
    | 0 => .plain char :: piecesAfter finder 0 rest
    | more + 1 => .found ((char :: rest).take (more + 1)) :: piecesAfter finder more rest

/-- The pieces of a text, in order. -/
def pieces (finder : Finder) (text : List Char) : List Piece := piecesAfter finder 0 text

/-- Every occurrence is exchanged for what `change` makes of it; the characters
between them stay. -/
def replace (finder : Finder) (change : List Char → List Char) (text : List Char) : List Char :=
  (pieces finder text).flatMap fun
    | .plain char => [char]
    | .found text => change text

/-- A stretch of a text together with the place where it begins. -/
structure Occurrence where
  start : Nat
  text : List Char
deriving DecidableEq, Repr

/-- The place right behind the last character. -/
def Occurrence.stop (occurrence : Occurrence) : Nat := occurrence.start + occurrence.text.length

/-- The occurrences among pieces of which the first one stands at `place`. -/
def locate (place : Nat) : List Piece → List Occurrence
  | [] => []
  | .plain _ :: rest => locate (place + 1) rest
  | .found text :: rest => ⟨place, text⟩ :: locate (place + text.length) rest

/-- The occurrences in a text, in order. -/
def occurrences (finder : Finder) (text : List Char) : List Occurrence :=
  locate 0 (pieces finder text)

/-- Passing over characters is the same as scanning what lies behind them. -/
theorem piecesAfter_eq_pieces_drop (finder : Finder) (skip : Nat) (text : List Char) :
    piecesAfter finder skip text = pieces finder (text.drop skip) := by
  induction text generalizing skip with
  | nil => cases skip <;> rfl
  | cons char rest ih =>
    cases skip with
    | zero => rfl
    | succ skip => simpa [piecesAfter] using ih skip

theorem pieces_cons_plain {finder : Finder} {char : Char} {rest : List Char}
    (none : finder (char :: rest) = 0) :
    pieces finder (char :: rest) = .plain char :: pieces finder rest := by
  simp [pieces, piecesAfter, none]

/-- Behind an occurrence the scan goes on as if the text began there. -/
theorem pieces_cons_found {finder : Finder} {char : Char} {rest : List Char} {more : Nat}
    (found : finder (char :: rest) = more + 1) :
    pieces finder (char :: rest) =
      .found (char :: rest.take more) :: pieces finder (rest.drop more) := by
  simp only [pieces, piecesAfter, found, List.take_succ_cons]
  exact congrArg _ (piecesAfter_eq_pieces_drop finder more rest)

/-- Nothing is lost and nothing is moved by cutting a text into pieces. -/
theorem flatMap_text_pieces (finder : Finder) (text : List Char) :
    (pieces finder text).flatMap Piece.text = text := by
  suffices all : ∀ skip, (piecesAfter finder skip text).flatMap Piece.text = text.drop skip from
    all 0
  induction text with
  | nil => intro skip; cases skip <;> rfl
  | cons char rest ih =>
    intro skip
    cases skip with
    | succ skip => simpa [piecesAfter] using ih skip
    | zero =>
      simp only [piecesAfter]
      cases finder (char :: rest) with
      | zero => simp [Piece.text, ih 0]
      | succ more => simp [Piece.text, ih more, List.take_append_drop]

end RoutePattern.Text
