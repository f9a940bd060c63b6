import RoutePattern.Proofs.Lexemes

/-! What the source of a pattern without a question mark is read as, whatever else is unusual
about the pattern. Its lexemes up to the query do not look at the ends of the text, and no
character that they admit is a question mark. Reading may nest their groups in any way, or
fail; if it succeeds, then behind the beginning of the text there are items of this sort, and
behind these the query and the end of the text. -/
namespace RoutePattern

/-- Does a lexeme stay away from question marks and from both ends of the text? -/
def Lexeme.Tame : Lexeme → Prop
  | .one set => set.has '?' = false
  | .start | .finish => False
  | .openCapture | .openPlain | .close | .times _ => True

/-- Does an expression stay away from question marks and from both ends of the text, and
capture under numbers below a bound? -/
def Expr.Tame (bound : Nat) : Expr → Prop
  | .empty => True
  | .one set => set.has '?' = false
  | .start | .finish => False
  | .cat first second => first.Tame bound ∧ second.Tame bound
  | .group capture body => (∀ number ∈ capture, number < bound) ∧ body.Tame bound
  | .iterate _ body => body.Tame bound

/-- A text that is read as tame lexemes wherever it stands, unless a question mark follows. -/
structure TameText (text : List Char) : Prop where
  head : text.head? ≠ some '?'
  readFrom : ∀ place rest, rest.head? ≠ some '?' → ∃ behind lexemes,
    Lexeme.readFrom place 0 (text ++ rest) = lexemes ++ Lexeme.readFrom behind 0 rest ∧
      ∀ entry ∈ lexemes, entry.2.Tame

/-- The items of all groups that are open, from the innermost one outwards. They are tame,
but for the beginning of the text, which stands in front of the outermost ones. -/
def Layers (bound : Nat) : List Expr → List Expr.Frame → Prop
  | items, [] => ∃ own, items = own ++ [.start] ∧ ∀ item ∈ own, item.Tame bound
  | items, frame :: frames =>
    (∀ item ∈ items, item.Tame bound) ∧ (∀ number ∈ frame.capture, number < bound) ∧
      Layers bound frame.before frames

/-- A reading in which nothing but tame lexemes has been taken in since the beginning. -/
def Expr.Reading.Sound (reading : Expr.Reading) : Prop :=
  Layers reading.captures reading.items reading.frames

section Texts
open Pattern
variable {text : List Char} {lexemes : List Lexeme} {char : Char} {lexeme : Lexeme}

private theorem Pattern.LexesTo.tame (lexed : LexesTo text lexemes)
    (tame : ∀ lexeme ∈ lexemes, lexeme.Tame) : TameText text := by
  refine ⟨lexed.head, fun place rest mark => ?_⟩
  obtain ⟨behind, entries, read, rfl⟩ := lexed.readFrom place rest mark
  exact ⟨behind, entries, read, fun entry member => tame entry.2 (List.mem_map_of_mem member)⟩

private theorem tame_literalLexeme (other : char ≠ '?') : (literalLexeme char).Tame := by
  unfold literalLexeme
  split
  · trivial
  · split
    · trivial
    · split
      · trivial
      · simp [Lexeme.Tame, CharSet.has, Ne.symm other]

private theorem tame_capture (kind : Kind) (member : lexeme ∈ kind.lexemes) : lexeme.Tame := by
  suffices all : ∀ lexeme ∈ kind.lexemes, lexeme.Tame from all lexeme member
  cases kind <;> simp [Kind.lexemes, Lexeme.Tame, CharSet.has]

private theorem tame_part (part : Part) (other : part ≠ .literal '?')
    (member : lexeme ∈ part.lexemes) :
    lexeme.Tame := by
  cases part with
  | literal char =>
    rw [Part.lexemes, List.mem_singleton] at member
    exact member ▸ tame_literalLexeme fun same => other (congrArg Part.literal same)
  | slot kind name => exact tame_capture kind member

private theorem tame_segment (segment : Segment) (clear : .literal '?' ∉ segment.parts)
    (member : lexeme ∈ segment.lexemes) : lexeme.Tame := by
  have within (part : Part) (among : part ∈ segment.parts) (member : lexeme ∈ part.lexemes) :
      lexeme.Tame := tame_part part (fun same => clear (same ▸ among)) member
  cases segment with
  | single part => exact within part (List.mem_singleton_self part) member
  | group inner =>
    simp only [Segment.lexemes, List.mem_cons, List.mem_append, List.mem_flatMap,
      List.not_mem_nil, or_false] at member
    rcases member with rfl | ⟨part, among, member⟩ | rfl | rfl
    · trivial
    · exact within part among member
    · trivial
    · trivial

end Texts

section Readings
variable {bound more : Nat} {items before : List Expr} {frames : List Expr.Frame} {item expr : Expr}
  {reading next final : Expr.Reading} {place : Nat} {lexeme : Lexeme}

private theorem Expr.Tame.mono (tame : expr.Tame bound) (higher : bound ≤ more) :
    expr.Tame more := by
  induction expr with
  | empty => trivial
  | one set => exact tame
  | start => exact tame
  | finish => exact tame
  | cat first second ihFirst ihSecond => exact ⟨ihFirst tame.1, ihSecond tame.2⟩
  | group capture body ih =>
    exact ⟨fun number member => Nat.lt_of_lt_of_le (tame.1 number member) higher, ih tame.2⟩
  | iterate times body ih => exact ih tame

private theorem tame_ofItems (tame : ∀ item ∈ items, item.Tame bound) :
    (Expr.ofItems items).Tame bound := by
  suffices general : ∀ behind : Expr, behind.Tame bound →
      (items.foldl (fun behind item => .cat item behind) behind).Tame bound from
    general .empty trivial
  induction items with
  | nil => exact fun behind given => given
  | cons item items ih =>
    exact fun behind given => ih (fun other member => tame other (by simp [member])) _
      ⟨tame item (by simp), given⟩

private theorem Layers.mono (layers : Layers bound items frames) (higher : bound ≤ more) :
    Layers more items frames := by
  induction frames generalizing items with
  | nil =>
    obtain ⟨own, same, tame⟩ := layers
    exact ⟨own, same, fun item member => (tame item member).mono higher⟩
  | cons frame frames ih =>
    exact ⟨fun item member => (layers.1 item member).mono higher,
      fun number member => Nat.lt_of_lt_of_le (layers.2.1 number member) higher, ih layers.2.2⟩

private theorem Layers.push (layers : Layers bound items frames) (tame : item.Tame bound) :
    Layers bound (item :: items) frames := by
  cases frames with
  | nil =>
    obtain ⟨own, rfl, others⟩ := layers
    exact ⟨item :: own, rfl, List.forall_mem_cons.mpr ⟨tame, others⟩⟩
  | cons frame frames => exact ⟨List.forall_mem_cons.mpr ⟨tame, layers.1⟩, layers.2⟩

private theorem Layers.pop (layers : Layers bound (item :: before) frames) (other : item ≠ .start) :
    item.Tame bound ∧ Layers bound before frames := by
  cases frames with
  | nil =>
    obtain ⟨own, same, tame⟩ := layers
    cases own with
    | nil =>
      cases same
      exact absurd rfl other
    | cons first own =>
      cases same
      exact ⟨tame item (by simp), own, rfl, fun other member => tame other (by simp [member])⟩
  | cons frame frames =>
    exact ⟨layers.1 item (by simp), fun other member => layers.1 other (by simp [member]),
      layers.2⟩

/-- What is repeated is an item that there is, and not the beginning of the text. -/
theorem repeatLast_cases {times : Iteration} {repeated : List Expr}
    (done : Expr.repeatLast place times items = .ok repeated) :
    ∃ item before, items = item :: before ∧ item ≠ .start ∧
      repeated = .iterate times item :: before := by
  unfold Expr.repeatLast at done
  split at done
  · cases done
  · cases done
  · cases done
  · cases done
  · rename_i item before notStart _ _
    cases done
    exact ⟨item, before, rfl, notStart, rfl⟩

/-- One tame lexeme is taken in. -/
theorem sound_step (sound : reading.Sound) (tame : lexeme.Tame)
    (stepped : Expr.step reading place lexeme = .ok next) : next.Sound := by
  cases lexeme with
  | one set =>
    cases stepped
    exact Layers.push sound tame
  | start => exact tame.elim
  | finish => exact tame.elim
  | openCapture =>
    cases stepped
    refine ⟨by simp, ?_, Layers.mono sound (Nat.le_succ _)⟩
    simp
  | openPlain =>
    cases stepped
    exact ⟨by simp, by simp, sound⟩
  | close =>
    obtain ⟨items, frames, captures⟩ := reading
    cases frames with
    | nil => cases stepped
    | cons frame frames =>
      cases stepped
      exact Layers.push sound.2.2 ⟨sound.2.1, tame_ofItems sound.1⟩
  | times times =>
    cases again : Expr.repeatLast place times reading.items with
    | error fault =>
      rw [Expr.step, again] at stepped
      cases stepped
    | ok repeated =>
      rw [Expr.step, again] at stepped
      cases stepped
      obtain ⟨item, before, same, other, rfl⟩ := repeatLast_cases again
      have popped : Layers reading.captures (item :: before) reading.frames := same ▸ sound
      exact Layers.push (popped.pop other).2 (popped.pop other).1

/-- Tame lexemes are taken in one after the other, and then those behind them. -/
theorem sound_steps {lexemes others : List (Nat × Lexeme)} (sound : reading.Sound)
    (tame : ∀ entry ∈ lexemes, entry.2.Tame)
    (stepped : Expr.steps reading (lexemes ++ others) = .ok final) :
    ∃ middle, middle.Sound ∧ Expr.steps middle others = .ok final := by
  induction lexemes generalizing reading with
  | nil => exact ⟨reading, sound, stepped⟩
  | cons entry lexemes ih =>
    obtain ⟨place, lexeme⟩ := entry
    rw [List.cons_append, Expr.steps] at stepped
    cases taken : Expr.step reading place lexeme with
    | error fault =>
      rw [taken] at stepped
      cases stepped
    | ok next =>
      rw [taken] at stepped
      exact ih (sound_step sound (tame (place, lexeme) (by simp)) taken)
        (fun other member => tame other (by simp [member])) stepped

end Readings

namespace Pattern

/-- The source of a pattern without a question mark is read as tame items between the
beginning of the text and the query. -/
theorem read_source_cases {pattern : List Char} {expr : Expr} {count : Nat} (mark : '?' ∉ pattern)
    (read : Expr.read (source pattern) = .ok (expr, count)) :
    ∃ own bound, expr = .cat .start (sequence (own ++ closing bound)) ∧ count = bound + 1 ∧
      ∀ item ∈ own, item.Tame bound := by
  have text : TameText ((outline pattern).flatMap Segment.source) := by
    refine (lexesTo_outline pattern).tame fun lexeme member => ?_
    obtain ⟨segment, among, member⟩ := List.mem_flatMap.mp member
    refine tame_segment segment (fun literal => mark ?_) member
    exact mem_of_literal_mem_outline (List.mem_flatMap.mpr ⟨segment, among, literal⟩)
  obtain ⟨behind, lexemes, lexed, tame⟩ :=
    text.readFrom (0 + 1) (queryCapture ++ "\\Z".toList) (by decide)
  rw [Expr.read, steps_source, lexed] at read
  cases stepped : Expr.steps { items := [.start] }
      (lexemes ++ Lexeme.readFrom behind 0 (queryCapture ++ "\\Z".toList)) with
  | error fault =>
    rw [stepped] at read
    cases read
  | ok final =>
    have initial : Expr.Reading.Sound { items := [.start] } := ⟨[], rfl, by simp⟩
    obtain ⟨⟨items, frames, captures⟩, sound, last⟩ := sound_steps initial tame stepped
    rw [steps_closing, Except.ok.injEq] at last
    rw [stepped, ← last] at read
    cases frames with
    | cons frame frames => cases read
    | nil =>
      obtain ⟨own, rfl, items⟩ := sound
      cases read
      exact ⟨own.reverse, captures, ofItems_closing own captures, rfl,
        fun item member => items item (List.mem_reverse.mp member)⟩

end Pattern

end RoutePattern
