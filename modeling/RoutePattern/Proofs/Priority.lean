import RoutePattern.Proofs.Meaning

/-! Which of several ways of matching comes first. Where the slots of a pattern are kept
apart by slashes and its groups hold whole path segments, and where no text has a slash of
its own, the attempts that are made before the intended one all fail: behind a slot they
come upon the wrong characters before the segment is over. -/
namespace RoutePattern.Pattern

/-- The end of a path segment: a slash, or nothing more. -/
def AtBoundary (text : List Char) : Prop := text = [] ∨ text.head? = some '/'

/-- What follows succeeds only where the path goes on with `lead` to the end of a segment. -/
def Awaits (next : Expr.Continuation) (lead : List Char) : Prop :=
  ∀ cursor, '?' ∉ cursor.rest → (next cursor).isSome = true →
    ∃ behind, cursor.rest = lead ++ behind ∧ AtBoundary behind

/-- Is there a slash between any two slots? `taken` says that there has been a slot since
the last one. -/
def spaced (taken : Bool) : List Part → Bool
  | [] => true
  | .literal char :: rest => spaced (taken && char != '/') rest
  | .slot _ _ :: rest => !taken && spaced true rest

/-- The literal characters up to the next slash, if these stand before what follows. -/
def Part.lead (behind : List Char) : Part → List Char
  | .literal char => if char == '/' then [] else char :: behind
  | .slot _ _ => []

/-- The characters that parts begin with, up to a slash or slot. -/
def partsLead : List Part → List Char
  | [] => []
  | part :: rest => part.lead (partsLead rest)

/-- The characters that segments begin with, up to a slash, slot or group. -/
def segmentsLead : List Segment → List Char
  | .single part :: rest => part.lead (segmentsLead rest)
  | _ => []

/-- Do segments begin with a slash, a group or not at all? -/
def Opening : List Segment → Prop
  | [] => True
  | .single part :: _ => part = .literal '/'
  | .group _ :: _ => True

/-- Groups hold whole path segments: each begins with a slash, and so does what follows. -/
def WholeGroups : List Segment → Prop
  | [] => True
  | .single _ :: rest => WholeGroups rest
  | .group inner :: rest =>
    inner.head? = some (.literal '/') ∧ Opening rest ∧ WholeGroups rest

section Boundaries
variable {front lead first second : List Char}

/-- A text without a sign is what stands in front of the first such sign. -/
theorem takeWhile_append_of_head {sign : Char} (clear : sign ∉ front)
    (behind : first = [] ∨ first.head? = some sign) :
    (front ++ first).takeWhile (· != sign) = front := by
  have inside : ∀ char ∈ front, (char != sign) = true := by
    intro char member
    rw [bne_iff_ne]
    exact fun same => clear (same ▸ member)
  rw [List.takeWhile_append_of_pos inside]
  rcases behind with rfl | head
  · simp
  · obtain ⟨more, rfl⟩ := List.head?_eq_some_iff.mp head
    simp

/-- Up to the end of a segment a text can be divided in one way only. -/
theorem eq_of_append_boundary (clearFront : '/' ∉ front) (clearLead : '/' ∉ lead)
    (boundaryFirst : AtBoundary first) (boundarySecond : AtBoundary second)
    (same : front ++ first = lead ++ second) : front = lead := by
  have taken := congrArg (List.takeWhile (· != '/')) same
  rw [takeWhile_append_of_head clearFront boundaryFirst,
    takeWhile_append_of_head clearLead boundarySecond] at taken
  exact taken

private theorem not_mem_partLead (part : Part) (clear : '/' ∉ lead) : '/' ∉ part.lead lead := by
  cases part with
  | literal char =>
    by_cases slash : char = '/'
    · simp [Part.lead, slash]
    · simp [Part.lead, slash, Ne.symm slash, clear]
  | slot kind name => simp [Part.lead]

private theorem not_mem_partsLead (others : List Part) : '/' ∉ partsLead others := by
  induction others with
  | nil => simp [partsLead]
  | cons part others ih => exact not_mem_partLead part ih

private theorem not_mem_segmentsLead (segments : List Segment) : '/' ∉ segmentsLead segments := by
  induction segments with
  | nil => simp [segmentsLead]
  | cons segment segments ih =>
    cases segment with
    | single part => exact not_mem_partLead part ih
    | group inner => simp [segmentsLead]

private theorem spaced_literal {taken : Bool} {char : Char} {others : List Part}
    (other : char ≠ '/') :
    spaced taken (.literal char :: others) = spaced taken others := by
  have plain : (char != '/') = true := by simpa using other
  rw [spaced, plain, Bool.and_true]

end Boundaries

section Awaiting
variable {next : Expr.Continuation} {lead : List Char} {others : List Part}
  {segments : List Segment}

/-- Behind a slash whatever may follow. -/
theorem awaits_slash (next : Expr.Continuation) :
    Awaits ((Expr.one (.only '/')).run next) [] := by
  intro cursor _ success
  obtain ⟨consumed, rest, captures⟩ := cursor
  refine ⟨rest, rfl, ?_⟩
  cases rest with
  | nil => simp [Expr.run, Cursor.advance] at success
  | cons first rest =>
    by_cases same : first = '/'
    · exact .inr (by rw [same]; rfl)
    · simp [Expr.run, Cursor.advance, CharSet.has, same] at success

/-- Another literal character is awaited in front of what follows it. -/
theorem awaits_literal (char : Char) (awaits : Awaits next lead) :
    Awaits ((Expr.one (.only char)).run next) (char :: lead) := by
  intro cursor mark success
  obtain ⟨consumed, rest, captures⟩ := cursor
  cases rest with
  | nil => simp [Expr.run, Cursor.advance] at success
  | cons first rest =>
    by_cases same : first = char
    · subst same
      have reached : (next ⟨consumed + 1, rest, captures⟩).isSome = true := by
        simpa [Expr.run, Cursor.advance, CharSet.has] using success
      obtain ⟨behind, split, boundary⟩ := awaits _ (fun member => mark (by simp [member])) reached
      exact ⟨behind, congrArg (first :: ·) split, boundary⟩
    · simp [Expr.run, Cursor.advance, CharSet.has, same] at success

/-- Parts without a slot before their first slash await the characters up to it. -/
theorem awaits_parts (others : List Part) (number : Nat) (apart : spaced true others = true)
    (awaits : Awaits next []) :
    Awaits ((sequence (partExprs number others)).run next) (partsLead others) := by
  induction others generalizing number with
  | nil => exact awaits
  | cons part others ih =>
    cases part with
    | literal char =>
      by_cases slash : char = '/'
      · subst slash
        exact awaits_slash _
      · rw [spaced_literal slash] at apart
        have lead : partsLead (.literal char :: others) = char :: partsLead others := by
          simp [partsLead, Part.lead, slash]
        rw [lead]
        exact awaits_literal char (ih (number + slotCount [.literal char]) apart)
    | slot kind name => simp [spaced] at apart

/-- A group is kept where its slash is, or left out before what begins a segment too. -/
theorem awaits_group (inner : List Part) (number : Nat)
    (begins : inner.head? = some (.literal '/')) (awaits : Awaits next []) :
    Awaits (((Segment.group inner).expr number).run next) [] := by
  intro cursor mark success
  obtain ⟨more, rfl⟩ := List.head?_eq_some_iff.mp begins
  have either : ((Expr.one (.only '/')).run
        ((sequence (partExprs (number + slotCount [.literal '/']) more)).run next) cursor <|>
      next cursor).isSome = true := success
  cases kept : (Expr.one (.only '/')).run
      ((sequence (partExprs (number + slotCount [.literal '/']) more)).run next) cursor with
  | some reached => exact awaits_slash _ cursor mark (by rw [kept]; rfl)
  | none =>
    rw [kept] at either
    exact awaits cursor mark either

/-- The query, and the end of the address. -/
theorem awaits_closing (number : Nat) : Awaits ((sequence (closing number)).run some) [] := by
  intro cursor mark success
  obtain ⟨consumed, rest, captures⟩ := cursor
  refine ⟨rest, rfl, .inl ?_⟩
  cases rest with
  | nil => rfl
  | cons first rest =>
    have other : first ≠ '?' := fun same => mark (by simp [same])
    have failed : (sequence (closing number)).run some ⟨consumed, first :: rest, captures⟩ =
        none := by
      simp [sequence, closing, queryExpr, Expr.run, Cursor.advance, CharSet.has, other]
    rw [failed] at success
    cases success

private theorem awaits_opening (segments : List Segment) (number total : Nat)
    (opens : Opening segments)
    (whole : WholeGroups segments) :
    Awaits ((sequence (segmentExprs number segments ++ closing total)).run some) [] := by
  induction segments generalizing number with
  | nil => exact awaits_closing total
  | cons segment segments ih =>
    cases segment with
    | single part =>
      have slash : part = .literal '/' := opens
      subst slash
      exact awaits_slash _
    | group inner =>
      obtain ⟨begins, follows, rest⟩ := whole
      exact awaits_group inner number begins (ih _ follows rest)

/-- Segments without a slot before their first slash await the characters up to it. -/
theorem awaits_segments (segments : List Segment) (number total : Nat)
    (apart : spaced true (segments.flatMap Segment.parts) = true)
    (whole : WholeGroups segments) :
    Awaits ((sequence (segmentExprs number segments ++ closing total)).run some)
      (segmentsLead segments) := by
  induction segments generalizing number with
  | nil => exact awaits_closing total
  | cons segment segments ih =>
    cases segment with
    | single part =>
      cases part with
      | literal char =>
        by_cases slash : char = '/'
        · subst slash
          exact awaits_slash _
        · rw [List.flatMap_cons, Segment.parts, List.singleton_append, spaced_literal slash]
            at apart
          have lead : segmentsLead (.single (.literal char) :: segments) =
              char :: segmentsLead segments := by
            simp [segmentsLead, Part.lead, slash]
          rw [lead]
          exact awaits_literal char (ih _ apart whole)
      | slot kind name => simp [spaced, Segment.parts] at apart
    | group inner => exact awaits_opening _ number total trivial whole

end Awaiting

section Slots
variable {next : Expr.Continuation} {lead text behind : List Char}

theorem findSome?_of_unique {α β : Type} {list : List α} {test : α → Option β} (item : α)
    (member : item ∈ list) (success : (test item).isSome = true)
    (unique : ∀ other ∈ list, (test other).isSome = true → other = item) :
    list.findSome? test = test item := by
  induction list with
  | nil => cases member
  | cons first list ih =>
    rw [List.findSome?_cons]
    cases found : test first with
    | some answer =>
      have same := unique first (by simp) (by rw [found]; rfl)
      rw [← same, found]
    | none =>
      rcases List.mem_cons.mp member with rfl | member
      · rw [found] at success
        cases success
      · exact ih member fun other among => unique other (by simp [among])

private theorem findSome?_range {β : Type} {test : Nat → Option β} {count bound : Nat}
    (below : count < bound) (success : (test count).isSome = true)
    (failed : ∀ less < count, test less = none) :
    (List.range bound).findSome? test = test count := by
  induction bound with
  | zero => omega
  | succ bound ih =>
    rw [List.range_succ, List.findSome?_append]
    by_cases earlier : count < bound
    · rw [ih earlier, Option.or_of_isSome success]
    · have same : count = bound := by omega
      subst same
      have none : (List.range count).findSome? test = none := by
        rw [List.findSome?_eq_none_iff]
        intro less member
        exact failed less (List.mem_range.mp member)
      rw [none, Option.none_or]
      simp

/-- Among the ways to take in some characters of a segment, only the intended one is
followed by what is awaited. -/
theorem count_eq_of_awaits (awaits : Awaits next lead) (clearText : '/' ∉ text)
    (clearLead : '/' ∉ lead) (mark : '?' ∉ text ++ behind) {count : Nat} {cursor : Cursor}
    (intended : ∃ left, behind = lead ++ left ∧ AtBoundary left)
    (short : count ≤ (text ++ lead).length) (rest : cursor.rest = (text ++ behind).drop count)
    (success : (next cursor).isSome = true) : count = text.length := by
  obtain ⟨left, rfl, boundary⟩ := intended
  have clear : '?' ∉ cursor.rest := by
    rw [rest]
    exact fun member => mark (List.mem_of_mem_drop member)
  obtain ⟨other, split, ended⟩ := awaits cursor clear success
  rw [rest, ← List.append_assoc, List.drop_append_of_le_length short] at split
  have front : '/' ∉ (text ++ lead).drop count := by
    intro member
    rcases List.mem_append.mp (List.mem_of_mem_drop member) with member | member
    · exact clearText member
    · exact clearLead member
  have same := congrArg List.length
    (eq_of_append_boundary front clearLead boundary ended split)
  rw [List.length_drop] at same
  rw [List.length_append] at same short
  omega

private theorem reach_named_le (clearBehind : AtBoundary behind) (front : List Char) :
    ((front ++ behind).takeWhile (CharSet.noneOf Kind.named.excluded).has).length ≤
      front.length := by
  rw [List.takeWhile_append]
  split
  · have none : behind.takeWhile (CharSet.noneOf Kind.named.excluded).has = [] := by
      rcases clearBehind with rfl | head
      · rfl
      · obtain ⟨more, rfl⟩ := List.head?_eq_some_iff.mp head
        rfl
    rw [none, List.append_nil]
  · exact (List.takeWhile_prefix _).length_le

/-- A slot takes in the text that is meant for it: a named slot has tried longer ones, and a
splat slot shorter ones, without success. -/
theorem run_slot (kind : Kind) {total place : Nat} {done : List (Option (List Char))}
    (begun : done.length < total) (admitted : kind.Admits text) (clearText : '/' ∉ text)
    (clearLead : '/' ∉ lead) (mark : '?' ∉ text ++ behind) (awaits : Awaits next lead)
    (success : (next (Cursor.settled total (place + text.length) behind
      (done ++ [some text]))).isSome = true) :
    (kind.expr done.length).run next (Cursor.settled total place (text ++ behind) done) =
      next (Cursor.settled total (place + text.length) behind (done ++ [some text])) := by
  have intended : ∃ left, behind = lead ++ left ∧ AtBoundary left :=
    awaits _ (fun member => mark (List.mem_append_right _ member)) success
  generalize start : Cursor.settled total place (text ++ behind) done = cursor
  have ahead : cursor.rest = text ++ behind := by rw [← start]; rfl
  have here : (cursor.past text.length).capture done.length cursor =
      Cursor.settled total (place + text.length) behind (done ++ [some text]) := by
    rw [← start]
    exact Cursor.settled_capture place text behind begun
  have reached : text.length ≤ cursor.reach (.noneOf kind.excluded) := by
    rw [Cursor.reach, ahead]
    exact (length_le_reach_iff _ text behind).mpr ((admits_iff kind text).mp admitted).2
  have only (count : Nat) (short : count ≤ (text ++ lead).length)
      (found : (next ((cursor.past count).capture done.length cursor)).isSome = true) :
      count = text.length :=
    count_eq_of_awaits awaits clearText clearLead mark intended short
      (by rw [← ahead]; rfl) found
  rw [Expr.run_eq_findSome?, ← here]
  cases kind with
  | named =>
    have present : text ≠ [] := admitted.1
    have positive : 0 < text.length := List.length_pos_iff.mpr present
    have enough : text.length ≤ cursor.reach (.noneOf ['/', '?']) := reached
    have bound : cursor.reach (.noneOf ['/', '?']) ≤ (text ++ lead).length := by
      obtain ⟨left, split, boundary⟩ := intended
      rw [Cursor.reach, ahead, split, ← List.append_assoc]
      exact reach_named_le boundary (text ++ lead)
    have less : text.length - 1 + 1 = text.length := by omega
    rw [Kind.expr, Expr.ways_capture, Expr.ways_atLeastOnce_one, ← List.map_reverse,
      List.findSome?_map, List.findSome?_map,
      findSome?_of_unique (text.length - 1)]
    · simp only [Function.comp_apply, less]
    · rw [List.mem_reverse, List.mem_range]
      omega
    · simp only [Function.comp_apply, less, here]
      exact success
    · intro count member found
      rw [List.mem_reverse, List.mem_range] at member
      have same := only (count + 1) (by omega) found
      omega
  | splat =>
    rw [Kind.expr, Expr.ways_capture, Expr.ways_reluctant_one, List.findSome?_map,
      List.findSome?_map]
    apply findSome?_range (Nat.lt_succ_of_le reached)
    · simp only [Function.comp_apply, here]
      exact success
    · intro count below
      rw [← Option.not_isSome_iff_eq_none]
      intro found
      have same := only count (by rw [List.length_append]; omega) found
      omega

end Slots

section Runs
variable {next : Expr.Continuation} {others : List Part} {texts : List (List Char)}
  {url behind : List Char}

private theorem spaced_append {taken : Bool} (first second : List Part)
    (apart : spaced taken (first ++ second) = true) :
    spaced taken first = true ∧ ∃ after, spaced after second = true := by
  induction first generalizing taken with
  | nil => exact ⟨rfl, taken, apart⟩
  | cons part first ih =>
    cases part with
    | literal char => exact ih apart
    | slot kind name =>
      rw [List.cons_append, spaced, Bool.and_eq_true] at apart
      obtain ⟨inFirst, inSecond⟩ := ih apart.2
      rw [spaced, Bool.and_eq_true]
      exact ⟨⟨apart.1, inFirst⟩, inSecond⟩

private theorem run_literal (char : Char) (total place : Nat) (rest : List Char)
    (done : List (Option (List Char))) :
    (Expr.one (.only char)).run next (Cursor.settled total place (char :: rest) done) =
      next (Cursor.settled total (place + 1) rest done) := by
  simp [Expr.run, Cursor.advance, Cursor.settled, CharSet.has]

/-- Parts take in the texts that are meant for their slots, if what follows succeeds behind
them. -/
theorem run_parts {taken : Bool} {total place : Nat} {done : List (Option (List Char))}
    (spelled : PartsSpell others texts url) (apart : spaced taken others = true)
    (clear : ∀ text ∈ texts, '/' ∉ text) (mark : '?' ∉ url ++ behind)
    (enough : done.length + texts.length ≤ total) (awaits : Awaits next [])
    (success : (next (Cursor.settled total (place + url.length) behind
      (done ++ texts.map some))).isSome = true) :
    (sequence (partExprs done.length others)).run next
        (Cursor.settled total place (url ++ behind) done) =
      next (Cursor.settled total (place + url.length) behind (done ++ texts.map some)) := by
  induction spelled generalizing taken place done with
  | nil => simp [partExprs, sequence, Expr.run]
  | @literal rest texts url char later ih =>
    have length : place + (char :: url).length = place + 1 + url.length := by
      rw [List.length_cons]
      omega
    rw [length] at success ⊢
    have further := ih apart clear (fun member => mark (List.mem_cons_of_mem _ member)) enough
      success
    rw [← further]
    exact run_literal char total place (url ++ behind) done
  | @slot kind text rest texts url name admitted later ih =>
    rw [spaced, Bool.and_eq_true] at apart
    have length : place + (text ++ url).length = place + text.length + url.length := by
      rw [List.length_append]
      omega
    have given : done ++ (text :: texts).map some = (done ++ [some text]) ++ texts.map some := by
      simp
    rw [length, given] at success ⊢
    rw [List.append_assoc] at mark ⊢
    rw [List.length_cons] at enough
    have further := ih apart.2 (fun other member => clear other (by simp [member]))
      (fun member => mark (List.mem_append_right _ member))
      (by rw [List.length_append, List.length_singleton]; omega) success
    rw [← further] at success ⊢
    rw [List.length_append, List.length_singleton] at success ⊢
    exact run_slot kind (by omega) admitted (clear text (by simp)) (not_mem_partsLead rest) mark
      (awaits_parts rest _ apart.2 awaits) success

/-- Nothing is left for the query, and it captures nothing. -/
theorem run_closing (number place : Nat) (done : List (Option (List Char))) :
    (sequence (closing number)).run some (Cursor.settled (done.length + 1) place [] done) =
      some (Cursor.settled (done.length + 1) place [] (done ++ [none])) := by
  have left : done.length + 1 - done.length = 1 := by omega
  simp [sequence, closing, queryExpr, Expr.run, Cursor.advance, Cursor.settled, left]

/-- A segment takes in what is meant for it. A slot by itself has to know how the path goes on
after it, and a group that another segment begins behind it. -/
theorem run_segment (segment : Segment) (lead : List Char) {taken : Bool} {total place : Nat}
    {done : List (Option (List Char))}
    (spelled : PartsSpell segment.parts texts url) (apart : spaced taken segment.parts = true)
    (clear : ∀ text ∈ texts, '/' ∉ text) (mark : '?' ∉ url ++ behind)
    (enough : done.length + texts.length ≤ total) (clearLead : '/' ∉ lead)
    (awaitsLead : ∀ kind name, segment = .single (.slot kind name) → Awaits next lead)
    (awaits : ∀ inner, segment = .group inner → Awaits next [])
    (success : (next (Cursor.settled total (place + url.length) behind
      (done ++ texts.map some))).isSome = true) :
    (segment.expr done.length).run next (Cursor.settled total place (url ++ behind) done) =
      next (Cursor.settled total (place + url.length) behind (done ++ texts.map some)) := by
  cases segment with
  | single part =>
    cases spelled with
    | @literal _ _ _ char later =>
      cases later
      rw [List.map_nil, List.append_nil]
      exact run_literal char total place behind done
    | @slot kind text _ _ _ name admitted later =>
      cases later
      rw [List.append_nil] at mark success ⊢
      rw [List.length_singleton] at enough
      exact run_slot kind (by omega) admitted (clear text (by simp)) clearLead mark
        (awaitsLead kind name rfl) success
  | group inner =>
    have kept := run_parts spelled apart clear mark enough (awaits inner rfl) success
    have choice : ((Segment.group inner).expr done.length).run next
          (Cursor.settled total place (url ++ behind) done) =
        ((sequence (partExprs done.length (Segment.group inner).parts)).run next
            (Cursor.settled total place (url ++ behind) done) <|>
          next (Cursor.settled total place (url ++ behind) done)) := rfl
    rw [choice, kept]
    cases reached : next (Cursor.settled total (place + url.length) behind
      (done ++ texts.map some)) with
    | some final => rfl
    | none =>
      rw [reached] at success
      cases success

/-- Whole segments take in the texts that are meant for their slots, every group its part. -/
theorem run_segments (segments : List Segment) (number place : Nat)
    (done : List (Option (List Char))) {taken : Bool} {total : Nat}
    (spelled : PartsSpell (segments.flatMap Segment.parts) texts url)
    (apart : spaced taken (segments.flatMap Segment.parts) = true)
    (whole : WholeGroups segments) (clear : ∀ text ∈ texts, '/' ∉ text) (mark : '?' ∉ url)
    (all : total = done.length + texts.length + 1) :
    (sequence (segmentExprs done.length segments ++ closing number)).run some
        (Cursor.settled total place url done) =
      some (Cursor.settled total (place + url.length) [] (done ++ texts.map some ++ [none])) := by
  induction segments generalizing taken place done texts url with
  | nil =>
    cases spelled
    subst all
    simpa [segmentExprs] using run_closing number place done
  | cons segment segments ih =>
    rw [List.flatMap_cons] at spelled apart
    obtain ⟨before, after, path, rest, here, later, rfl, rfl⟩ :=
      (partsSpell_append_iff segment.parts _).mp spelled
    obtain ⟨mine, left, others⟩ := spaced_append segment.parts _ apart
    have count := length_of_partsSpell here
    have wholeRest : WholeGroups segments := by
      cases segment with
      | single part => exact whole
      | group inner => exact whole.2.2
    rw [List.length_append] at all
    have begun : (done ++ before.map some).length = done.length + slotCount segment.parts := by
      rw [List.length_append, List.length_map, count]
    have further := ih (place + path.length) (done ++ before.map some) later others
      wholeRest (fun text member => clear text (by simp [member]))
      (fun member => mark (List.mem_append_right _ member)) (by rw [begun]; omega)
    have success : ((sequence (segmentExprs (done ++ before.map some).length segments ++
        closing number)).run some (Cursor.settled total (place + path.length) rest
          (done ++ before.map some))).isSome = true := by
      rw [further]
      rfl
    rw [begun] at further success
    have awaitsLead (kind : Kind) (name : List Char) (same : segment = .single (.slot kind name)) :
        Awaits ((sequence (segmentExprs (done.length + slotCount segment.parts) segments ++
          closing number)).run some) (segmentsLead segments) := by
      subst same
      rw [Segment.parts, List.singleton_append, spaced, Bool.and_eq_true] at apart
      exact awaits_segments segments _ number apart.2 wholeRest
    have awaits (inner : List Part) (same : segment = .group inner) :
        Awaits ((sequence (segmentExprs (done.length + slotCount segment.parts) segments ++
          closing number)).run some) [] := by
      subst same
      exact awaits_opening segments _ number whole.2.1 wholeRest
    have step := run_segment segment (segmentsLead segments) here mine
      (fun text member => clear text (by simp [member])) mark (by omega)
      (not_mem_segmentsLead segments) awaitsLead awaits success
    have shape : (sequence (segmentExprs done.length (segment :: segments) ++ closing number)).run
          some (Cursor.settled total place (path ++ rest) done) =
        (segment.expr done.length).run
          ((sequence (segmentExprs (done.length + slotCount segment.parts) segments ++
            closing number)).run some) (Cursor.settled total place (path ++ rest) done) := rfl
    rw [shape, step, further]
    simp [Nat.add_assoc]

end Runs

end RoutePattern.Pattern

namespace RoutePattern.Route
open Pattern

/-- An address that all parts of a pattern spell is divided in the way that is meant. -/
theorem captures?_of_partsSpell {pattern url : List Char} {texts : List (List Char)}
    (spelled : PartsSpell ((outline pattern).flatMap Segment.parts) texts url)
    (apart : spaced false ((outline pattern).flatMap Segment.parts) = true)
    (whole : WholeGroups (outline pattern)) (clear : ∀ text ∈ texts, '/' ∉ text)
    (mark : '?' ∉ url) :
    (route pattern).captures? url = some (texts.map some ++ [none]) := by
  have count : texts.length = (kinds (outline pattern)).length := length_of_partsSpell spelled
  have ran := run_segments (outline pattern) (kinds (outline pattern)).length 0 [] spelled apart
    whole clear mark rfl
  have begun : (route pattern).captures? url =
      ((sequence (segmentExprs 0 (outline pattern) ++
          closing (kinds (outline pattern)).length)).run some
        (Cursor.settled ((kinds (outline pattern)).length + 1) 0 url [])).map Cursor.captures := by
    rw [captures?, Expr.captures?]
    rfl
  rw [List.length_nil, Nat.zero_add, count] at ran
  rw [begun, ran]
  simp [Cursor.settled, count]

end RoutePattern.Route
