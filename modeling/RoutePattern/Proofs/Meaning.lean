import RoutePattern.Proofs.Reading
import RoutePattern.Proofs.Ways

/-! What a pattern means: the addresses that arise from it when some of its groups are
left out, the parentheses of the others are erased, and every slot that remains is
given a text. The meaning knows nothing of expressions or of an order of attempts. The
route of a grammatical pattern matches exactly these addresses, and what it captures
is one way of arriving at the address. -/
namespace RoutePattern.Pattern
open Text

/-- What may not stand in the text of a slot. -/
def Kind.excluded : Kind → List Char
  | .named => ['/', '?']
  | .splat => ['?']

/-- The texts that a slot may be given: those of one segment, or any without a query. -/
def Kind.Admits : Kind → List Char → Prop
  | .named, text => text ≠ [] ∧ '/' ∉ text ∧ '?' ∉ text
  | .splat, text => '?' ∉ text

/-- The address that parts spell when their slots are given these texts. -/
inductive PartsSpell : List Part → List (List Char) → List Char → Prop where
  | nil : PartsSpell [] [] []
  | literal (later : PartsSpell rest texts url) :
      PartsSpell (.literal char :: rest) texts (char :: url)
  | slot (admitted : Kind.Admits kind text) (later : PartsSpell rest texts url) :
      PartsSpell (.slot kind name :: rest) (text :: texts) (text ++ url)

/-- The address that an outline spells. A group is kept, and then its slots are given
texts, or it is left out, and none of its slots has one. -/
inductive Spells : List Segment → List (Option (List Char)) → List Char → Prop where
  | nil : Spells [] [] []
  | single (here : PartsSpell [part] texts text) (later : Spells rest others url) :
      Spells (.single part :: rest) (texts.map some ++ others) (text ++ url)
  | kept {inner : List Part} (here : PartsSpell inner texts text) (later : Spells rest others url) :
      Spells (.group inner :: rest) (texts.map some ++ others) (text ++ url)
  | left {inner : List Part} (later : Spells rest others url) :
      Spells (.group inner :: rest) (List.replicate (slotCount inner) none ++ others) url

theorem length_of_partsSpell (spelled : PartsSpell others texts url) :
    texts.length = slotCount others := by
  induction spelled with
  | nil => rfl
  | literal later ih => exact ih
  | slot admitted later ih => simpa [slotCount] using ih

/-- An outline is spelled with one entry for each of its slots. -/
theorem length_of_spells (spelled : Spells segments texts url) :
    texts.length = (kinds segments).length := by
  induction spelled with
  | nil => rfl
  | single here later ih =>
    simp [ih, length_of_partsSpell here, slotCount, Segment.parts]
  | kept here later ih =>
    simp [ih, length_of_partsSpell here, slotCount, Segment.parts]
  | left later ih => simp [ih, slotCount, Segment.parts]

/-- What stands behind a path: nothing, or a question mark and a query. -/
def querySuffix : Option (List Char) → List Char
  | none => []
  | some query => '?' :: query

/-- The first relation followed by the second one. -/
def Then (first second : List (Option (List Char)) → List Char → Prop)
    (texts : List (Option (List Char))) (url : List Char) : Prop :=
  ∃ before after path rest, first before path ∧ second after rest ∧
    texts = before ++ after ∧ url = path ++ rest

/-- An expression whose captures begin with this number takes in exactly the texts of a
relation, and captures what the relation says, wherever in an address it is run. -/
structure Takes (expr : Expr) (number count : Nat)
    (spelled : List (Option (List Char)) → List Char → Prop) : Prop where
  length : ∀ texts text, spelled texts text → texts.length = count
  mem_ways : ∀ total place rest done reached, done.length = number → number + count ≤ total →
    (reached ∈ expr.ways (Cursor.settled total place rest done) ↔
      ∃ texts text behind, spelled texts text ∧ rest = text ++ behind ∧
        reached = Cursor.settled total (place + text.length) behind (done ++ texts))

theorem takes_congr (takes : Takes expr number count spelled)
    (same : ∀ texts text, other texts text ↔ spelled texts text) :
    Takes expr number count other := by
  have equal : other = spelled := by
    funext texts text
    exact propext (same texts text)
  exact equal ▸ takes

theorem takes_empty (number : Nat) :
    Takes .empty number 0 fun texts text => texts = [] ∧ text = [] := by
  refine ⟨fun texts text spelled => by simp [spelled.1], ?_⟩
  intro total place rest done reached _ _
  simp only [Expr.ways, List.mem_singleton]
  constructor
  · rintro rfl
    exact ⟨[], [], rest, ⟨rfl, rfl⟩, rfl, by simp⟩
  · rintro ⟨_, _, behind, ⟨rfl, rfl⟩, rfl, rfl⟩
    simp

theorem takes_literal (char : Char) (number : Nat) :
    Takes (.one (.only char)) number 0 fun texts text => texts = [] ∧ text = [char] := by
  refine ⟨fun texts text spelled => by simp [spelled.1], ?_⟩
  intro total place rest done reached _ _
  constructor
  · intro member
    cases rest with
    | nil => simp [Expr.ways, Cursor.advance, Cursor.settled] at member
    | cons first rest =>
      by_cases same : first = char
      · subst same
        simp only [Expr.ways, Cursor.advance, Cursor.settled, CharSet.has, beq_self_eq_true,
          ↓reduceIte, Option.toList_some, List.mem_singleton] at member
        subst member
        exact ⟨[], [first], rest, ⟨rfl, rfl⟩, rfl, by simp [Cursor.settled]⟩
      · simp [Expr.ways, Cursor.advance, Cursor.settled, CharSet.has, same] at member
  · rintro ⟨_, _, behind, ⟨rfl, rfl⟩, rfl, rfl⟩
    simp [Expr.ways, Cursor.advance, Cursor.settled, CharSet.has]

/-- Behind an expression another one is run. -/
theorem takes_then (expr : Expr) (first : Takes one number count spelled)
    (second : Takes two (number + count) more others)
    (both : ∀ cursor, Expr.ways expr cursor = (one.ways cursor).flatMap two.ways) :
    Takes expr number (count + more) (Then spelled others) := by
  refine ⟨?_, ?_⟩
  · rintro _ _ ⟨before, after, path, rest, here, later, rfl, rfl⟩
    rw [List.length_append, first.length before path here, second.length after rest later]
  · intro total place rest done reached begun enough
    simp only [both, List.mem_flatMap,
      first.mem_ways total place rest done _ begun (by omega)]
    constructor
    · rintro ⟨_, ⟨before, path, behind, here, rfl, rfl⟩, member⟩
      have length := first.length before path here
      rw [second.mem_ways total _ behind _ _ (by simp [begun, length]) (by omega)] at member
      obtain ⟨after, suffix, finish, later, rfl, rfl⟩ := member
      exact ⟨before ++ after, path ++ suffix, finish,
        ⟨before, after, path, suffix, here, later, rfl, rfl⟩, by simp, by simp [Nat.add_assoc]⟩
    · rintro ⟨_, _, finish, ⟨before, after, path, suffix, here, later, rfl, rfl⟩, rfl, rfl⟩
      have length := first.length before path here
      refine ⟨_, ⟨before, path, suffix ++ finish, here, by simp, rfl⟩, ?_⟩
      rw [second.mem_ways total _ _ _ _ (by simp [begun, length]) (by omega)]
      exact ⟨after, suffix, finish, later, rfl, by simp [Nat.add_assoc]⟩

/-- Characters can be taken in from the head of a text exactly if all are of the set. -/
theorem length_le_reach_iff (set : CharSet) (text behind : List Char) :
    text.length ≤ ((text ++ behind).takeWhile set.has).length ↔
      ∀ char ∈ text, set.has char = true := by
  induction text with
  | nil => simp
  | cons char text ih =>
    by_cases member : set.has char = true
    · simp [member, ih]
    · simp [member]

theorem admits_iff (kind : Kind) (text : List Char) :
    kind.Admits text ↔
      (kind = .named → text ≠ []) ∧
        ∀ char ∈ text, (CharSet.noneOf kind.excluded).has char = true := by
  cases kind with
  | named =>
    simp only [Kind.Admits, Kind.excluded, CharSet.has, List.contains_eq_mem, Bool.not_eq_true',
      decide_eq_false_iff_not, List.mem_cons, List.not_mem_nil, or_false, not_or, forall_const]
    refine and_congr Iff.rfl ⟨fun ⟨slash, mark⟩ char member => ?_, fun all => ?_⟩
    · exact ⟨fun same => slash (same ▸ member), fun same => mark (same ▸ member)⟩
    · exact ⟨fun member => (all _ member).1 rfl, fun member => (all _ member).2 rfl⟩
  | splat =>
    simp only [Kind.Admits, Kind.excluded, CharSet.has, List.contains_eq_mem, Bool.not_eq_true',
      decide_eq_false_iff_not, List.mem_cons, List.not_mem_nil, or_false, reduceCtorEq,
      false_implies, true_and]
    exact ⟨fun mark char member same => mark (same ▸ member), fun all member => all _ member rfl⟩

/-- A slot takes in a run of its characters, and captures it. -/
theorem mem_ways_slot_iff (kind : Kind) (number : Nat) (cursor reached : Cursor) :
    reached ∈ (kind.expr number).ways cursor ↔
      ∃ count ≤ cursor.reach (.noneOf kind.excluded), (kind = .named → 0 < count) ∧
        reached = (cursor.past count).capture number cursor := by
  cases kind with
  | named =>
    rw [Kind.expr, Expr.ways_capture, Expr.ways_atLeastOnce_one, List.mem_map]
    constructor
    · rintro ⟨_, member, rfl⟩
      rw [List.mem_reverse, List.mem_map] at member
      obtain ⟨count, below, rfl⟩ := member
      exact ⟨count + 1, List.mem_range.mp below, fun _ => Nat.succ_pos count, rfl⟩
    · rintro ⟨count, below, positive, rfl⟩
      obtain ⟨less, rfl⟩ := Nat.exists_eq_succ_of_ne_zero (Nat.pos_iff_ne_zero.mp (positive rfl))
      refine ⟨_, ?_, rfl⟩
      rw [List.mem_reverse, List.mem_map]
      exact ⟨less, List.mem_range.mpr below, rfl⟩
  | splat =>
    rw [Kind.expr, Expr.ways_capture, Expr.ways_reluctant_one, List.mem_map]
    constructor
    · rintro ⟨_, member, rfl⟩
      obtain ⟨count, below, rfl⟩ := List.mem_map.mp member
      exact ⟨count, Nat.le_of_lt_succ (List.mem_range.mp below), fun named => (by cases named), rfl⟩
    · rintro ⟨count, below, _, rfl⟩
      exact ⟨_, List.mem_map.mpr ⟨count, List.mem_range.mpr (Nat.lt_succ_of_le below), rfl⟩, rfl⟩

private theorem takes_slot (kind : Kind) (number : Nat) :
    Takes (kind.expr number) number 1 fun texts text =>
      texts = [some text] ∧ kind.Admits text := by
  refine ⟨fun texts text spelled => by simp [spelled.1], ?_⟩
  rintro total place rest done reached rfl enough
  rw [mem_ways_slot_iff]
  constructor
  · rintro ⟨count, below, positive, rfl⟩
    have short : count ≤ rest.length :=
      Nat.le_trans below (List.takeWhile_prefix _).length_le
    obtain ⟨text, behind, rfl, rfl⟩ : ∃ text behind, rest = text ++ behind ∧ text.length = count :=
      ⟨rest.take count, rest.drop count, (List.take_append_drop count rest).symm,
        List.length_take_of_le short⟩
    have admitted : kind.Admits text := (admits_iff kind text).mpr
      ⟨fun named empty => by simpa [empty] using positive named,
        (length_le_reach_iff _ text behind).mp below⟩
    exact ⟨_, text, behind, ⟨rfl, admitted⟩, rfl, Cursor.settled_capture place text behind enough⟩
  · rintro ⟨_, text, behind, ⟨rfl, admitted⟩, rfl, rfl⟩
    obtain ⟨present, members⟩ := (admits_iff kind text).mp admitted
    exact ⟨text.length, (length_le_reach_iff _ text behind).mpr members,
      fun named => List.length_pos_iff.mpr (present named),
      (Cursor.settled_capture place text behind enough).symm⟩

private theorem takes_part (part : Part) (number : Nat) :
    Takes (part.expr number) number (slotCount [part]) fun texts text =>
      ∃ given, PartsSpell [part] given text ∧ texts = given.map some := by
  cases part with
  | literal char =>
    refine takes_congr (takes_literal char number) fun texts text => ?_
    constructor
    · rintro ⟨_, spelled, rfl⟩
      cases spelled with
      | literal later => cases later; exact ⟨rfl, rfl⟩
    · rintro ⟨rfl, rfl⟩
      exact ⟨[], .literal .nil, rfl⟩
  | slot kind name =>
    refine takes_congr (takes_slot kind number) fun texts text => ?_
    constructor
    · rintro ⟨_, spelled, rfl⟩
      cases spelled with
      | slot admitted later => cases later; exact ⟨by simp, by simpa using admitted⟩
    · rintro ⟨rfl, admitted⟩
      have spelled : PartsSpell [.slot kind name] [text] (text ++ []) := .slot admitted .nil
      exact ⟨[text], by simpa using spelled, rfl⟩

/-- Parts in a row spell what they spell one after the other. -/
theorem partsSpell_append_iff (first second : List Part) :
    PartsSpell (first ++ second) texts url ↔
      ∃ before after path rest, PartsSpell first before path ∧ PartsSpell second after rest ∧
        texts = before ++ after ∧ url = path ++ rest := by
  induction first generalizing texts url with
  | nil =>
    constructor
    · exact fun spelled => ⟨[], texts, [], url, .nil, spelled, rfl, rfl⟩
    · rintro ⟨before, after, path, rest, here, later, rfl, rfl⟩
      cases here
      exact later
  | cons part first ih =>
    rw [List.cons_append]
    constructor
    · intro spelled
      cases spelled with
      | literal behind =>
        obtain ⟨before, after, path, rest, here, later, rfl, rfl⟩ := ih.mp behind
        exact ⟨before, after, _, rest, .literal here, later, rfl, rfl⟩
      | slot admitted behind =>
        obtain ⟨before, after, path, rest, here, later, rfl, rfl⟩ := ih.mp behind
        exact ⟨_, after, _, rest, .slot admitted here, later, rfl, (List.append_assoc ..).symm⟩
    · rintro ⟨before, after, path, rest, here, later, rfl, rfl⟩
      cases here with
      | literal here =>
        exact .literal (ih.mpr ⟨before, after, _, rest, here, later, rfl, rfl⟩)
      | slot admitted here =>
        rw [List.append_assoc]
        exact .slot admitted (ih.mpr ⟨_, after, _, rest, here, later, rfl, rfl⟩)

private theorem takes_parts (others : List Part) (number : Nat) :
    Takes (sequence (partExprs number others)) number (slotCount others) fun texts text =>
      ∃ given, PartsSpell others given text ∧ texts = given.map some := by
  induction others generalizing number with
  | nil =>
    refine takes_congr (takes_empty number) fun texts text => ?_
    constructor
    · rintro ⟨_, spelled, rfl⟩
      cases spelled
      exact ⟨rfl, rfl⟩
    · rintro ⟨rfl, rfl⟩
      exact ⟨[], .nil, rfl⟩
  | cons part others ih =>
    rw [slotCount_cons part others]
    refine takes_congr (takes_then (sequence (partExprs number (part :: others)))
      (takes_part part number) (ih _) fun _ => rfl) fun texts text => ?_
    constructor
    · rintro ⟨given, spelled, rfl⟩
      obtain ⟨before, after, path, rest, here, later, rfl, rfl⟩ :=
        (partsSpell_append_iff [part] others).mp spelled
      exact ⟨_, _, path, rest, ⟨before, here, rfl⟩, ⟨after, later, rfl⟩, List.map_append, rfl⟩
    · rintro ⟨_, _, path, rest, ⟨before, here, rfl⟩, ⟨after, later, rfl⟩, rfl, rfl⟩
      exact ⟨before ++ after, (partsSpell_append_iff [part] others).mpr
        ⟨before, after, path, rest, here, later, rfl, rfl⟩, List.map_append.symm⟩

/-- A group that may be left out captures nothing when it is. -/
theorem takes_optional (body : Takes expr number count spelled) :
    Takes (.iterate .atMostOnce (.group none expr)) number count fun texts text =>
      spelled texts text ∨ (texts = List.replicate count none ∧ text = []) := by
  refine ⟨?_, ?_⟩
  · rintro texts text (here | ⟨rfl, _⟩)
    · exact body.length texts text here
    · exact List.length_replicate
  · intro total place rest done reached begun enough
    have unset : Cursor.settled total place rest done =
        Cursor.settled total place rest (done ++ List.replicate count none) := by
      have left : total - done.length = count + (total - (done.length + count)) := by omega
      simp [Cursor.settled, left, ← List.replicate_append_replicate]
    simp only [Expr.ways, List.mem_append, List.mem_singleton,
      body.mem_ways total place rest done reached begun enough]
    constructor
    · rintro (⟨texts, text, behind, here, rfl, rfl⟩ | rfl)
      · exact ⟨texts, text, behind, .inl here, rfl, rfl⟩
      · exact ⟨_, [], rest, .inr ⟨rfl, rfl⟩, rfl, unset⟩
    · rintro ⟨texts, text, behind, here | ⟨rfl, rfl⟩, rfl, rfl⟩
      · exact .inl ⟨texts, text, behind, here, rfl, rfl⟩
      · exact .inr unset.symm

/-- What a segment spells: its parts, or nothing at all where it is a group. -/
def SegmentSpells : Segment → List (Option (List Char)) → List Char → Prop
  | .single part, texts, url => ∃ given, PartsSpell [part] given url ∧ texts = given.map some
  | .group inner, texts, url =>
    (∃ given, PartsSpell inner given url ∧ texts = given.map some) ∨
      (texts = List.replicate (slotCount inner) none ∧ url = [])

theorem spells_cons_iff {segment : Segment} :
    Spells (segment :: segments) texts url ↔
      Then (SegmentSpells segment) (Spells segments) texts url := by
  constructor
  · intro spelled
    cases spelled with
    | single here later => exact ⟨_, _, _, _, ⟨_, here, rfl⟩, later, rfl, rfl⟩
    | kept here later => exact ⟨_, _, _, _, .inl ⟨_, here, rfl⟩, later, rfl, rfl⟩
    | left later => exact ⟨_, _, [], _, .inr ⟨rfl, rfl⟩, later, rfl, rfl⟩
  · rintro ⟨before, after, path, rest, here, later, rfl, rfl⟩
    cases segment with
    | single part =>
      obtain ⟨given, spelled, rfl⟩ := here
      exact .single spelled later
    | group inner =>
      rcases here with ⟨given, spelled, rfl⟩ | ⟨rfl, rfl⟩
      · exact .kept spelled later
      · exact .left later

private theorem takes_segment (segment : Segment) (number : Nat) :
    Takes (segment.expr number) number (slotCount segment.parts) (SegmentSpells segment) := by
  cases segment with
  | single part => exact takes_part part number
  | group inner => exact takes_optional (takes_parts inner number)

/-- The expressions of segments take in what the segments spell. -/
theorem takes_segments (segments : List Segment) (number : Nat) :
    Takes (sequence (segmentExprs number segments)) number (kinds segments).length
      (Spells segments) := by
  induction segments generalizing number with
  | nil =>
    refine takes_congr (takes_empty number) fun texts text => ?_
    constructor
    · rintro ⟨⟩
      exact ⟨rfl, rfl⟩
    · rintro ⟨rfl, rfl⟩
      exact .nil
  | cons segment segments ih =>
    have length : (kinds (segment :: segments)).length =
        slotCount segment.parts + (kinds segments).length := by
      simp [slotCount]
    rw [length]
    exact takes_congr (takes_then (sequence (segmentExprs number (segment :: segments)))
      (takes_segment segment number) (ih _) fun _ => rfl) fun _ _ => spells_cons_iff

private theorem takes_query (number : Nat) :
    Takes (queryExpr number) number 1 fun texts text =>
      ∃ query, texts = [query] ∧ text = querySuffix query := by
  have all : Takes (.group (some number) (.cat (.iterate .greedy (.one .all)) .empty)) number 1
      fun texts text => texts = [some text] := by
    refine ⟨fun texts text spelled => by simp [spelled], ?_⟩
    rintro total place rest done reached rfl enough
    rw [Expr.ways_capture, Expr.ways, Expr.waysGreedy_one _ _ (Nat.lt_succ_self _), List.mem_map]
    constructor
    · rintro ⟨_, member, rfl⟩
      rw [List.mem_reverse, List.mem_map] at member
      obtain ⟨count, below, rfl⟩ := member
      have short : count ≤ rest.length :=
        Nat.le_trans (Nat.le_of_lt_succ (List.mem_range.mp below))
          (List.takeWhile_prefix _).length_le
      obtain ⟨text, behind, rfl, rfl⟩ :
          ∃ text behind, rest = text ++ behind ∧ text.length = count :=
        ⟨rest.take count, rest.drop count, (List.take_append_drop count rest).symm,
          List.length_take_of_le short⟩
      exact ⟨_, text, behind, rfl, rfl, Cursor.settled_capture place text behind enough⟩
    · rintro ⟨_, text, behind, rfl, rfl, rfl⟩
      refine ⟨_, ?_, Cursor.settled_capture place text behind enough⟩
      rw [List.mem_reverse, List.mem_map]
      exact ⟨text.length, List.mem_range.mpr (Nat.lt_succ_of_le
        ((length_le_reach_iff .all text behind).mpr fun _ _ => rfl)), rfl⟩
  have marked := takes_then (.cat (.one (.only '?'))
      (.cat (.group (some number) (.cat (.iterate .greedy (.one .all)) .empty)) .empty))
    (takes_literal '?' number)
    (takes_then (.cat _ .empty) all (takes_empty _) fun _ => rfl) fun _ => rfl
  refine takes_congr (takes_optional marked) fun texts text => ?_
  constructor
  · rintro ⟨query, rfl, rfl⟩
    cases query with
    | none => exact .inr ⟨rfl, rfl⟩
    | some query =>
      exact .inl ⟨[], [some query], ['?'], query, ⟨rfl, rfl⟩,
        ⟨[some query], [], query, [], rfl, ⟨rfl, rfl⟩, by simp, by simp⟩, rfl, rfl⟩
  · rintro (⟨_, _, _, _, ⟨rfl, rfl⟩, ⟨_, _, query, _, rfl, ⟨rfl, rfl⟩, rfl, rfl⟩, rfl, rfl⟩ |
      ⟨rfl, rfl⟩)
    · exact ⟨some query, by simp, by simp [querySuffix]⟩
    · exact ⟨none, rfl, rfl⟩

theorem ways_sequence_append (first second : List Expr) (cursor : Cursor) :
    (sequence (first ++ second)).ways cursor =
      ((sequence first).ways cursor).flatMap (sequence second).ways := by
  induction first generalizing cursor with
  | nil => exact (List.flatMap_singleton _ _).symm
  | cons expr first ih =>
    show (expr.ways cursor).flatMap (sequence (first ++ second)).ways = _
    rw [funext ih]
    exact List.flatMap_assoc.symm

/-- What follows a pattern reaches the end of the text in one way at most: there is nothing
left, or a query to be captured. -/
theorem mem_ways_closing_iff (place : Nat) (rest : List Char) (done : List (Option (List Char)))
    (reached : Cursor) :
    reached ∈ (sequence (closing done.length)).ways
        (Cursor.settled (done.length + 1) place rest done) ↔
      ∃ query, rest = querySuffix query ∧ reached =
        Cursor.settled (done.length + 1) (place + rest.length) [] (done ++ [query]) := by
  have asked (reached : Cursor) := (takes_query done.length).mem_ways (done.length + 1) place rest
    done reached rfl (Nat.le_refl _)
  have ended (cursor reached : Cursor) :
      reached ∈ (sequence [.finish]).ways cursor ↔ cursor.rest = [] ∧ reached = cursor := by
    show reached ∈ (if cursor.rest.isEmpty then [cursor] else []).flatMap (Expr.ways .empty) ↔ _
    cases cursor.rest <;> simp [Expr.ways]
  show reached ∈ ((queryExpr done.length).ways _).flatMap (sequence [.finish]).ways ↔ _
  simp only [List.mem_flatMap, asked, ended]
  constructor
  · rintro ⟨_, ⟨_, _, behind, ⟨query, rfl, rfl⟩, rfl, rfl⟩, rfl, rfl⟩
    exact ⟨query, by simp, by simp⟩
  · rintro ⟨query, rfl, rfl⟩
    exact ⟨_, ⟨[query], querySuffix query, [], ⟨query, rfl, rfl⟩, by simp, rfl⟩, rfl, rfl⟩

/-- What stands between the beginning of the text and the query reaches the end of an address in
one way for every way in which it spells the address, a query behind it or not. -/
theorem mem_ways_whole_iff {own : List Expr} (takes : Takes (sequence own) 0 count spelled)
    (url : List Char) (reached : Cursor) :
    reached ∈ (Expr.cat .start (sequence (own ++ closing count))).ways
        (Cursor.settled (count + 1) 0 url []) ↔
      ∃ texts path query, spelled texts path ∧ url = path ++ querySuffix query ∧
        reached = Cursor.settled (count + 1) url.length [] (texts ++ [query]) := by
  have begun (reached : Cursor) := takes.mem_ways (count + 1) 0 url [] reached rfl (by omega)
  have split : (Expr.cat .start (sequence (own ++ closing count))).ways
        (Cursor.settled (count + 1) 0 url []) =
      ((sequence own).ways (Cursor.settled (count + 1) 0 url [])).flatMap
          (sequence (closing count)).ways := by
    rw [← ways_sequence_append]
    exact List.flatMap_singleton _ _
  simp only [split, List.mem_flatMap, begun, List.nil_append, Nat.zero_add]
  constructor
  · rintro ⟨_, ⟨texts, path, behind, here, rfl, rfl⟩, closed⟩
    rw [← takes.length texts path here, mem_ways_closing_iff] at closed
    obtain ⟨query, rfl, rfl⟩ := closed
    exact ⟨texts, path, query, here, rfl, by simp [takes.length texts path here]⟩
  · rintro ⟨texts, path, query, here, rfl, rfl⟩
    refine ⟨_, ⟨texts, path, querySuffix query, here, rfl, rfl⟩, ?_⟩
    rw [← takes.length texts path here, mem_ways_closing_iff]
    exact ⟨query, rfl, by simp⟩

/-- The whole expression of a pattern reaches the end of an address in one way for every
way in which the pattern, and a query behind it, spells the address. -/
theorem mem_ways_patternExpr_iff (segments : List Segment) (url : List Char) (reached : Cursor) :
    reached ∈ (patternExpr segments).ways
        (Cursor.settled ((kinds segments).length + 1) 0 url []) ↔
      ∃ texts path query, Spells segments texts path ∧ url = path ++ querySuffix query ∧
        reached = Cursor.settled ((kinds segments).length + 1) url.length []
          (texts ++ [query]) :=
  mem_ways_whole_iff (takes_segments segments 0) url reached

end RoutePattern.Pattern

namespace RoutePattern.Route
open Pattern

/-- The captures of a match are those of the first way through the whole expression. -/
theorem captures?_eq (route : Route) (url : List Char) :
    route.captures? url =
      ((route.expr.ways (Cursor.settled route.captures 0 url [])).findSome? some).map
        Cursor.captures := by
  rw [captures?, Expr.captures?, Expr.run_eq_findSome?]
  simp [Cursor.settled]

/-- What a route captures spells the address. -/
theorem spells_of_captures? {captures : List (Option (List Char))}
    (found : (route pattern).captures? url = some captures) :
    ∃ texts path query, Spells (outline pattern) texts path ∧ url = path ++ querySuffix query ∧
      captures = texts ++ [query] := by
  rw [captures?_eq] at found
  obtain ⟨reached, first, rfl⟩ := Option.map_eq_some_iff.mp found
  obtain ⟨reached, member, same⟩ := List.exists_of_findSome?_eq_some first
  cases same
  obtain ⟨texts, path, query, spelled, whole, rfl⟩ :=
    (mem_ways_patternExpr_iff (outline pattern) url _).mp member
  refine ⟨texts, path, query, spelled, whole, ?_⟩
  simp [Cursor.settled, length_of_spells spelled]

/-- A route matches the addresses that its own items spell, a query behind them or not. -/
theorem captures?_isSome_iff {compiled : Route} {own : List Expr}
    (whole : compiled.expr = .cat .start (sequence (own ++ closing count)))
    (numbered : compiled.captures = count + 1) (takes : Takes (sequence own) 0 count spelled)
    (url : List Char) :
    (compiled.captures? url).isSome ↔
      ∃ texts path query, spelled texts path ∧ url = path ++ querySuffix query := by
  rw [captures?_eq, whole, numbered, Option.isSome_map, List.findSome?_isSome_iff]
  simp only [mem_ways_whole_iff takes, Option.isSome_some, and_true]
  constructor
  · rintro ⟨_, texts, path, query, here, same, _⟩
    exact ⟨texts, path, query, here, same⟩
  · rintro ⟨texts, path, query, here, same⟩
    exact ⟨_, texts, path, query, here, same, rfl⟩

/-- An address that a pattern spells is matched. -/
theorem captures?_isSome_of_spells (spelled : Spells (outline pattern) texts path)
    (query : Option (List Char)) :
    ((route pattern).captures? (path ++ querySuffix query)).isSome :=
  (captures?_isSome_iff rfl rfl (takes_segments (outline pattern) 0) _).mpr
    ⟨texts, path, query, spelled, rfl⟩

/-- The route of a grammatical pattern has one capture for each slot and one for the query;
it matches the addresses that the pattern spells, a query behind them or not; and what it
captures is always one way of spelling the address, with nothing for the slots of the
groups that this way leaves out. -/
theorem grammatical_route_matches_meaning (pattern : List Char)
    (grammatical : Grammatical pattern) :
    ∃ route, compile pattern = .ok route ∧ route.captures = (slots pattern).length + 1 ∧
      ∀ url,
        ((route.captures? url).isSome ↔
          ∃ texts path query, Spells (outline pattern) texts path ∧
            url = path ++ querySuffix query) ∧
        ∀ captures, route.captures? url = some captures →
          ∃ texts path query, Spells (outline pattern) texts path ∧
            url = path ++ querySuffix query ∧ captures = texts ++ [query] := by
  refine ⟨route pattern, compile_grammatical pattern grammatical, ?_, fun url => ⟨⟨?_, ?_⟩, ?_⟩⟩
  · rw [← List.length_map Token.kind, kind_slots]
    rfl
  · intro matched
    obtain ⟨captures, found⟩ := Option.isSome_iff_exists.mp matched
    obtain ⟨texts, path, query, spelled, whole, _⟩ := spells_of_captures? found
    exact ⟨texts, path, query, spelled, whole⟩
  · rintro ⟨texts, path, query, spelled, rfl⟩
    exact captures?_isSome_of_spells spelled query
  · exact fun captures found => spells_of_captures? found

/-- A pattern with a group that opens with literal text, and slots of both kinds. -/
theorem grammatical_route_matches_meaning_group :
    Grammatical "/u(s/:id)*rest".toList ∧
      ∃ route, compile "/u(s/:id)*rest".toList = .ok route ∧
        route.captures = (slots "/u(s/:id)*rest".toList).length + 1 ∧
        ∀ url,
          ((route.captures? url).isSome ↔
            ∃ texts path query, Spells (outline "/u(s/:id)*rest".toList) texts path ∧
              url = path ++ querySuffix query) ∧
          ∀ captures, route.captures? url = some captures →
            ∃ texts path query, Spells (outline "/u(s/:id)*rest".toList) texts path ∧
              url = path ++ querySuffix query ∧ captures = texts ++ [query] :=
  ⟨by decide, grammatical_route_matches_meaning _ (by decide)⟩

end RoutePattern.Route
