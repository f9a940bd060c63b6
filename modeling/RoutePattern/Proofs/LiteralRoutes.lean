import RoutePattern.Proofs.Acceptance
import RoutePattern.Proofs.Compilation

/-! Routes of patterns without tokens and parentheses. Every character of such a pattern is matched
as it is written, but for the asterisk: as there is no name behind it, it stays in the expression,
where it lets the character in front of it occur any number of times. -/
namespace RoutePattern.Pattern
open Text

/-- A pattern without tokens and without parentheses. -/
structure Literal (pattern : List Char) : Prop where
  tokens : tokens pattern = []
  opening : '(' ∉ pattern
  closing : ')' ∉ pattern

/-- A character of a literal pattern, and whether an asterisk stands behind it. -/
structure Letter where
  char : Char
  starred : Bool
deriving DecidableEq, Repr

/-- The letters of a pattern. -/
def letters : List Char → List Letter
  | [] => []
  | char :: '*' :: rest => ⟨char, true⟩ :: letters rest
  | char :: rest => ⟨char, false⟩ :: letters rest

/-- A letter with an asterisk occurs any number of times, every other one once. -/
inductive Repeats : List Letter → List Char → Prop where
  | nil : Repeats [] []
  | once (later : Repeats rest text) : Repeats (⟨char, false⟩ :: rest) (char :: text)
  | often (count : Nat) (later : Repeats rest text) :
      Repeats (⟨char, true⟩ :: rest) (List.replicate count char ++ text)

/-- The expression of a letter. -/
def Letter.expr (letter : Letter) : Expr :=
  if letter.starred then .iterate .greedy (.one (.only letter.char)) else .one (.only letter.char)

section Reading
variable {pattern : List Char}

/-- A literal pattern consists of literal characters. -/
theorem outline_of_literal (literal : Literal pattern) :
    outline pattern = pattern.map fun char => .single (.literal char) := by
  obtain ⟨none, opening, closing⟩ := literal
  have count : foundCount (pieces tokenLength pattern) = 0 := by
    rw [← length_locate 0, List.length_eq_zero_iff]
    exact List.map_eq_nil_iff.mp none
  clear none closing
  induction pattern using outline_induction with
  | nil => rfl
  | group inner rest inside ih => exact absurd (List.mem_cons_self ..) opening
  | slot kind name rest present word ended ih =>
    have known : [kind.sigil] ∈ sigils := by cases kind <;> decide
    have cut := pieces_token known present word ended
    rw [List.singleton_append] at cut
    rw [cut, foundCount_found] at count
    omega
  | literal char rest outside none ih =>
    have still : tokenLength (char :: rest) = 0 := by
      cases length : tokenLength (char :: rest) with
      | zero => rfl
      | succ more =>
        rw [pieces_cons_found length, foundCount_found] at count
        omega
    rw [pieces_cons_plain still, foundCount_plain] at count
    rw [outline_literal outside none,
      ih (fun member => opening (List.mem_cons_of_mem _ member)) count, List.map_cons]

/-- Where every asterisk has something to repeat, none of them is a letter itself. -/
theorem char_ne_star_of_placed {text : List Char}
    (placed : Placed false (text.flatMap fun char => (Part.literal char).marks)) :
    ∀ letter ∈ letters text, letter.char ≠ '*' := by
  have plain {char : Char} {ready : Bool} {row : List Mark} (other : char ≠ '*') :
      Placed ready ((Part.literal char).marks ++ row) ↔ Placed (Mark.plain char).repeatable row := by
    simp [Part.marks, Placed, other]
  have star {ready : Bool} {row : List Mark} :
      Placed ready ((Part.literal '*').marks ++ row) ↔ ready = true ∧ Placed false row := by
    simp [Part.marks, Placed, Mark.repeatable]
  have front {char : Char} {row : List Mark}
      (placed : Placed false ((Part.literal char).marks ++ row)) : char ≠ '*' := by
    rintro rfl
    cases (star.mp placed).1
  induction text using letters.induct with
  | case1 => simp [letters]
  | case2 char rest ih =>
    rw [List.flatMap_cons, List.flatMap_cons] at placed
    have other := front placed
    have behind := (star.mp ((plain other).mp placed)).2
    exact List.forall_mem_cons.mpr ⟨other, ih behind⟩
  | case3 char rest unstarred ih =>
    rw [List.flatMap_cons] at placed
    have other := front placed
    have behind := (plain other).mp placed
    have later : Placed false (rest.flatMap fun char => (Part.literal char).marks) := by
      cases rest with
      | nil => trivial
      | cons next rest =>
        have different : next ≠ '*' := fun same => unstarred rest (same ▸ rfl)
        rw [List.flatMap_cons] at behind ⊢
        exact (plain different).mpr ((plain different).mp behind)
    rw [letters.eq_3 char rest unstarred]
    exact List.forall_mem_cons.mpr ⟨other, ih later⟩

/-- The letters of a literal pattern are read one after the other. -/
theorem steps_letters {text : List Char} {entries others : List (Nat × Lexeme)}
    (opening : '(' ∉ text) (closing : ')' ∉ text)
    (lexemes : entries.map Prod.snd = text.map literalLexeme)
    (other : ∀ letter ∈ letters text, letter.char ≠ '*') (reading : Expr.Reading) :
    Expr.steps reading (entries ++ others) =
      Expr.steps { reading with items := ((letters text).map Letter.expr).reverse ++ reading.items }
        others := by
  have plain {char : Char} (notOpen : char ≠ '(') (notClose : char ≠ ')') (notStar : char ≠ '*') :
      literalLexeme char = .one (.only char) := by
    simp [literalLexeme, notOpen, notClose, notStar]
  induction text using letters.induct generalizing entries reading with
  | case1 =>
    rw [List.map_eq_nil_iff.mp lexemes]
    rfl
  | case2 char rest ih =>
    obtain ⟨⟨place, first⟩, more, rfl, same, behind⟩ := List.map_eq_cons_iff.mp lexemes
    obtain ⟨⟨next, second⟩, last, rfl, star, left⟩ := List.map_eq_cons_iff.mp behind
    rw [letters, List.forall_mem_cons] at other
    simp only [List.mem_cons, not_or, eq_comm (b := char)] at opening closing
    rw [plain opening.1 closing.1 other.1] at same
    subst same star
    have later := ih opening.2.2 closing.2.2 left other.2
      { reading with items := .iterate .greedy (.one (.only char)) :: reading.items }
    rw [letters, List.map_cons, List.reverse_cons, List.append_assoc]
    exact later
  | case3 char rest unstarred ih =>
    obtain ⟨⟨place, first⟩, more, rfl, same, behind⟩ := List.map_eq_cons_iff.mp lexemes
    rw [letters.eq_3 char rest unstarred, List.forall_mem_cons] at other
    simp only [List.mem_cons, not_or, eq_comm (b := char)] at opening closing
    rw [plain opening.1 closing.1 other.1] at same
    subst same
    have later := ih opening.2 closing.2 behind other.2
      { reading with items := .one (.only char) :: reading.items }
    rw [letters.eq_3 char rest unstarred, List.map_cons, List.reverse_cons, List.append_assoc]
    exact later

/-- The expression of a literal pattern that compiles. -/
theorem compile_of_literal {pattern : List Char} (literal : Literal pattern)
    (compilable : Compilable pattern) :
    (∀ letter ∈ letters pattern, letter.char ≠ '*') ∧ Route.compile pattern =
      .ok ⟨source pattern,
        .cat .start (sequence ((letters pattern).map Letter.expr ++ closing 0)), 1⟩ := by
  have outlined := outline_of_literal literal
  have placed := placed_marks_iff.mpr compilable.placed
  rw [marks, outlined, List.flatMap_map] at placed
  have other := char_ne_star_of_placed placed
  obtain ⟨behind, entries, read, lexemes⟩ :=
    (lexesTo_outline pattern).readFrom (0 + 1) (queryCapture ++ "\\Z".toList) (by decide)
  have literals : entries.map Prod.snd = pattern.map literalLexeme := by
    rw [lexemes, outlined, List.flatMap_map, List.map_eq_flatMap]
    rfl
  refine ⟨other, ?_⟩
  rw [Route.compile, Expr.read, steps_source, read,
    steps_letters literal.opening literal.closing literals other, steps_closing]
  show Except.ok (Route.mk _ (Expr.ofItems _) _) = _
  rw [ofItems_closing, List.reverse_reverse]

end Reading

section Matching
variable {char : Char} {text path : List Char}

/-- A character that may be repeated takes in any number of its kind. -/
theorem takes_repeated (char : Char) (number : Nat) :
    Takes (.iterate .greedy (.one (.only char))) number 0 fun texts text =>
      texts = [] ∧ ∃ count, text = List.replicate count char := by
  refine ⟨fun texts text spelled => by simp [spelled.1], ?_⟩
  intro total place rest done reached _ _
  rw [Expr.ways, Expr.waysGreedy_one _ _ (Nat.lt_succ_self _), List.mem_reverse, List.mem_map]
  have moved (text behind : List Char) :
      (Cursor.settled total place (text ++ behind) done).past text.length =
        Cursor.settled total (place + text.length) behind done := by
    simp [Cursor.settled, Cursor.past]
  have within (text behind : List Char) :
      text.length < (Cursor.settled total place (text ++ behind) done).reach (.only char) + 1 ↔
        ∀ other ∈ text, other = char := by
    rw [Nat.lt_succ_iff]
    exact (length_le_reach_iff (.only char) text behind).trans (by simp [CharSet.has])
  constructor
  · rintro ⟨count, below, rfl⟩
    have below := List.mem_range.mp below
    have short : count ≤ rest.length :=
      Nat.le_trans (Nat.le_of_lt_succ below) (List.takeWhile_prefix _).length_le
    obtain ⟨text, behind, rfl, rfl⟩ :
        ∃ text behind, rest = text ++ behind ∧ text.length = count :=
      ⟨rest.take count, rest.drop count, (List.take_append_drop count rest).symm,
        List.length_take_of_le short⟩
    refine ⟨[], text, behind, ⟨rfl, text.length, ?_⟩, rfl, by rw [moved, List.append_nil]⟩
    exact List.eq_replicate_iff.mpr ⟨rfl, (within text behind).mp below⟩
  · rintro ⟨_, _, behind, ⟨rfl, count, rfl⟩, rfl, rfl⟩
    refine ⟨(List.replicate count char).length, ?_, by rw [moved, List.append_nil]⟩
    exact List.mem_range.mpr ((within _ behind).mpr fun other => List.eq_of_mem_replicate)

private theorem takes_letters (list : List Letter) (number : Nat) :
    Takes (sequence (list.map Letter.expr)) number 0 fun texts text =>
      texts = [] ∧ Repeats list text := by
  induction list with
  | nil =>
    refine takes_congr (takes_empty number) fun texts text => and_congr_right fun _ => ?_
    constructor
    · rintro ⟨⟩
      rfl
    · rintro rfl
      exact .nil
  | cons letter list ih =>
    obtain ⟨char, starred⟩ := letter
    cases starred with
    | false =>
      refine takes_congr (takes_then (sequence _) (takes_literal char number) ih fun _ => rfl)
        fun texts text => ?_
      constructor
      · rintro ⟨rfl, spelled⟩
        cases spelled with
        | once later => exact ⟨[], [], [char], _, ⟨rfl, rfl⟩, ⟨rfl, later⟩, rfl, rfl⟩
      · rintro ⟨_, _, _, rest, ⟨rfl, rfl⟩, ⟨rfl, later⟩, rfl, rfl⟩
        exact ⟨rfl, .once later⟩
    | true =>
      refine takes_congr (takes_then (sequence _) (takes_repeated char number) ih fun _ => rfl)
        fun texts text => ?_
      constructor
      · rintro ⟨rfl, spelled⟩
        cases spelled with
        | often count later => exact ⟨[], [], _, _, ⟨rfl, count, rfl⟩, ⟨rfl, later⟩, rfl, rfl⟩
      · rintro ⟨_, _, _, rest, ⟨rfl, count, rfl⟩, ⟨rfl, later⟩, rfl, rfl⟩
        exact ⟨rfl, .often count later⟩

/-- Without asterisks only the pattern itself is spelled. -/
theorem repeats_letters_iff {pattern : List Char} (none : '*' ∉ pattern) :
    Repeats (letters pattern) path ↔ path = pattern := by
  induction pattern using letters.induct generalizing path with
  | case1 =>
    constructor
    · rintro ⟨⟩
      rfl
    · rintro rfl
      exact .nil
  | case2 char rest ih => exact absurd (by simp) none
  | case3 char rest unstarred ih =>
    have unstarredRest : '*' ∉ rest := fun member => none (List.mem_cons_of_mem _ member)
    have same {text : List Char} : Repeats (letters rest) text ↔ text = rest := ih unstarredRest
    rw [letters.eq_3 char rest unstarred]
    constructor
    · rintro ⟨⟩
      rename_i text later
      rw [same.mp later]
    · rintro rfl
      exact .once (same.mpr rfl)

/-- An asterisk and the letter in front of it can both be left out. -/
theorem exists_repeats_shorter {pattern : List Char}
    (other : ∀ letter ∈ letters pattern, letter.char ≠ '*') :
    ∃ path, Repeats (letters pattern) path ∧ path.length ≤ pattern.length ∧
      ('*' ∈ pattern → path.length < pattern.length) := by
  induction pattern using letters.induct with
  | case1 => exact ⟨[], .nil, Nat.le_refl _, by simp⟩
  | case2 char rest ih =>
    rw [letters, List.forall_mem_cons] at other
    obtain ⟨path, spelled, short, _⟩ := ih other.2
    rw [letters]
    refine ⟨path, .often 0 spelled, ?_, fun _ => ?_⟩ <;> simp only [List.length_cons] <;> omega
  | case3 char rest unstarred ih =>
    rw [letters.eq_3 char rest unstarred, List.forall_mem_cons] at other
    obtain ⟨path, spelled, short, shorter⟩ := ih other.2
    rw [letters.eq_3 char rest unstarred]
    refine ⟨char :: path, .once spelled, ?_, fun member => ?_⟩
    · simpa using short
    · have behind := (List.mem_cons.mp member).resolve_left (Ne.symm other.1)
      simpa using shorter behind

/-- A literal pattern matches what its letters spell, a query behind it or not. -/
theorem accepts_literal_iff {pattern : List Char} {compiled : Route} (literal : Literal pattern)
    (compiles : Route.compile pattern = .ok compiled) (url : List Char) :
    compiled.accepts url = true ↔
      ∃ path query, Repeats (letters pattern) path ∧ url = path ++ querySuffix query := by
  have compilable := (Route.compile_isOk_iff pattern).mp ⟨compiled, compiles⟩
  rw [(compile_of_literal literal compilable).2, Except.ok.injEq] at compiles
  subst compiles
  rw [Route.accepts, Route.captures?_isSome_iff rfl rfl (takes_letters (letters pattern) 0)]
  constructor
  · rintro ⟨_, path, query, ⟨_, spelled⟩, same⟩
    exact ⟨path, query, spelled, same⟩
  · rintro ⟨path, query, spelled, same⟩
    exact ⟨[], path, query, ⟨rfl, spelled⟩, same⟩

end Matching
end RoutePattern.Pattern

namespace RoutePattern
open Pattern

/-- Is the address the pattern as it is written, a query behind it or not? -/
def Verbatim (pattern url : List Char) : Prop :=
  url = pattern ∨ pattern ++ ['?'] <+: url

private theorem verbatim_iff {pattern url : List Char} :
    Verbatim pattern url ↔ ∃ query, url = pattern ++ querySuffix query := by
  constructor
  · rintro (rfl | ⟨query, rfl⟩)
    · exact ⟨none, (List.append_nil _).symm⟩
    · exact ⟨some query, by simp [querySuffix]⟩
  · rintro ⟨query, rfl⟩
    cases query with
    | none => exact .inl (List.append_nil _)
    | some query => exact .inr ⟨query, by simp [querySuffix]⟩

/-- A literal pattern fails to compile, or testing an address answers whether it consists of the
letters of the pattern, those with an asterisk any number of times, and maybe a query. So it is
matched as it is written just if no asterisk stands in it. -/
theorem literal_route_repeats_starred (pattern : String) (session : Session)
    (literal : Literal pattern.toList) (sound : session.cache.Sound) :
    (∃ fault, (outcome (Session.route (.text pattern)) session).1 =
      .error (.uncompilable pattern fault)) ∨
    ((∀ url, ∃ matched, (outcome (Session.testNamed pattern url) session).1 = .ok matched ∧
        (matched = true ↔ ∃ path query, Repeats (letters pattern.toList) path ∧
          url.toList = path ++ querySuffix query)) ∧
      ((∀ url, (outcome (Session.testNamed pattern url) session).1 = .ok true ↔
        Verbatim pattern.toList url.toList) ↔ '*' ∉ pattern.toList)) := by
  cases compiles : Route.compile pattern.toList with
  | error fault =>
    rw [Session.route_text]
    exact .inl ⟨fault, Session.answer_routeOf_error compiles session sound⟩
  | ok compiled =>
    have accepts (url : String) := accepts_literal_iff literal compiles url.toList
    have answer (url : String) := answer_testNamed compiles url session sound
    refine .inr ⟨fun url => ⟨_, answer url, accepts url⟩, ?_⟩
    simp only [answer, Except.ok.injEq, accepts, verbatim_iff]
    constructor
    · intro verbatim star
      have compilable := (Route.compile_isOk_iff pattern.toList).mp ⟨compiled, compiles⟩
      obtain ⟨path, spelled, _, shorter⟩ :=
        exists_repeats_shorter (compile_of_literal literal compilable).1
      obtain ⟨query, same⟩ := (verbatim (String.ofList path)).mp
        ⟨path, none, spelled, by simp [querySuffix]⟩
      have longer := congrArg List.length same
      rw [String.toList_ofList, List.length_append] at longer
      have short := shorter star
      omega
    · intro none url
      simp only [repeats_letters_iff none, exists_and_left, exists_eq_left]

/-- A pattern with an asterisk in the middle, tested with an address that lacks its letter. -/
theorem literal_route_repeats_starred_inside :
    Literal "/v1.0*/x".toList ∧ Cache.Sound {} ∧
      (∃ matched, (outcome (Session.testNamed "/v1.0*/x" "/v1./x?q") {}).1 = .ok matched ∧
        (matched = true ↔ ∃ path query, Repeats (letters "/v1.0*/x".toList) path ∧
          "/v1./x?q".toList = path ++ querySuffix query)) ∧
      ¬ ∀ url, (outcome (Session.testNamed "/v1.0*/x" url) {}).1 = .ok true ↔
        Verbatim "/v1.0*/x".toList url.toList := by
  have literal : Literal "/v1.0*/x".toList := ⟨by decide, by decide, by decide⟩
  refine ⟨literal, Cache.sound_empty, ?_⟩
  rcases literal_route_repeats_starred "/v1.0*/x" {} literal Cache.sound_empty with
    ⟨fault, answer⟩ | ⟨meaning, verbatim⟩
  · cases answer
  · exact ⟨meaning "/v1./x?q", fun all => verbatim.mp all (by decide)⟩

/-- A literal pattern that compiles, and accepts an address that is not the pattern. -/
theorem star_repeats_slash :
    Literal "/a/*".toList ∧ (∃ found, (outcome (Session.route (.text "/a/*")) {}).1 = .ok found) ∧
      (outcome (Session.testNamed "/a/*" "/a") {}).1 = .ok true ∧
      ¬ Verbatim "/a/*".toList "/a".toList := by
  obtain ⟨compiled, compiles, accepted⟩ : ∃ compiled,
      Route.compile "/a/*".toList = .ok compiled ∧ compiled.accepts "/a".toList = true :=
    ⟨_, rfl, rfl⟩
  refine ⟨⟨by decide, by decide, by decide⟩, ⟨_, rfl⟩, ?_, by unfold Verbatim; decide⟩
  rw [answer_testNamed compiles "/a" {} Cache.sound_empty, accepted]

end RoutePattern
