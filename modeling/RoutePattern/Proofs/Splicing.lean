import RoutePattern.Proofs.Scans
import RoutePattern.Proofs.SlotEdits

/-! Edits carried out one after the other. They are put into the order in which they begin, the
widest first, and on the way along the text one that begins in front of the place that has been
reached is passed over. Nothing is lost by that: as a token that shares a place with a group lies
within it, only what goes with a removed group is passed over, and the walk gives the same as a
look at each place by itself. -/
namespace RoutePattern.Text

/-- The stretch of an occurrence: its first place and the one behind its last. -/
def Occurrence.span (found : Occurrence) : Nat × Nat := (found.start, found.stop)

end RoutePattern.Text

namespace RoutePattern.Pattern
open Text

/-- The stretch of a token. -/
def Token.span (token : Token) : Nat × Nat := (token.start, token.stop)

/-- Two stretches share no place. -/
def Apart (one other : Nat × Nat) : Prop := one.2 ≤ other.1 ∨ other.2 ≤ one.1

namespace Edit

/-- Edits come in the order in which they begin, and the widest first of those that begin
together. -/
def Before (edit other : Edit) : Prop :=
  edit.start < other.start ∨ edit.start = other.start ∧ other.stop ≤ edit.stop

instance : DecidableRel Before := fun _ _ => inferInstanceAs (Decidable (_ ∨ _))

instance : Std.Total Before := ⟨fun _ _ => by unfold Before; omega⟩

instance : IsTrans Edit Before := ⟨fun _ _ _ => by unfold Before; omega⟩

private theorem start_le_stop (edit : Edit) : edit.start ≤ edit.stop := Nat.le_add_right _ _

end Edit

/-- Edits in the order in which they are carried out. -/
def inOrder (edits : List Edit) : List Edit := edits.insertionSort Edit.Before

/-- The characters between two places. -/
def between (text : List Char) (start stop : Nat) : List Char := (text.drop start).take (stop - start)

/-- The text from `place` on, with edits carried out one after the other. One that begins in
front of the place that has been reached is passed over. -/
def splice (text : List Char) : Nat → List Edit → List Char
  | place, [] => text.drop place
  | place, edit :: rest =>
    if edit.start < place then splice text place rest
    else between text place edit.start ++ edit.text ++ splice text edit.stop rest

/-- The edits that are passed over on the way. -/
def passedOver : Nat → List Edit → List Edit
  | _, [] => []
  | place, edit :: rest =>
    if edit.start < place then edit :: passedOver place rest else passedOver edit.stop rest

/-- What is left to do from a place on. Of the edits that count those that are still to come
begin there or behind, and those that have been carried out end there or in front. -/
structure Pending (active : List Edit) (place : Nat) (rest : List Edit) : Prop where
  ordered : rest.Pairwise Edit.Before
  once : rest.Nodup
  governed : ∀ edit ∈ rest, edit ∈ active ∨ ∃ outer ∈ active, edit.Inside outer
  parted : ∀ edit ∈ active,
    edit ∈ rest ∧ place ≤ edit.start ∨ edit ∉ rest ∧ edit.stop ≤ place

section Run
variable {active rest : List Edit} {edit : Edit} {place : Nat} {text : List Char}

/-- An edit that begins in front of the place that has been reached does not count. -/
theorem Pending.skip (pending : Pending active place (edit :: rest)) (behind : edit.start < place) :
    edit ∉ active ∧ Pending active place rest := by
  have idle : edit ∉ active := by
    intro member
    rcases pending.parted edit member with ⟨_, after⟩ | ⟨absent, _⟩
    · omega
    · exact absent List.mem_cons_self
  refine ⟨idle, pending.ordered.of_cons, (List.nodup_cons.mp pending.once).2,
    fun other member => pending.governed other (List.mem_cons_of_mem _ member),
    fun other member => ?_⟩
  have different : other ≠ edit := fun same => idle (same ▸ member)
  simpa [different] using pending.parted other member

/-- An edit that begins at the place that has been reached or behind it counts: the removal that
it may lie within would have come first. -/
theorem Pending.counts (pending : Pending active place (edit :: rest)) (ahead : place ≤ edit.start) :
    edit ∈ active := by
  refine (pending.governed edit List.mem_cons_self).resolve_right ?_
  rintro ⟨outer, member, inside⟩
  have positive := inside.positive
  have start := inside.start
  have stop := inside.stop
  have shorter := inside.shorter
  simp only [Edit.stop] at stop
  rcases pending.parted outer member with ⟨listed, after⟩ | ⟨_, done⟩
  · rcases List.mem_cons.mp listed with rfl | later
    · exact Nat.lt_irrefl _ shorter
    · have order := List.rel_of_pairwise_cons pending.ordered later
      simp only [Edit.Before, Edit.stop] at order
      omega
  · simp only [Edit.stop] at done
    omega

/-- Behind an edit that has been carried out the others are still to come. -/
theorem Pending.next (separate : Separate active) (pending : Pending active place (edit :: rest))
    (ahead : place ≤ edit.start) : Pending active edit.stop rest := by
  have member := pending.counts ahead
  obtain ⟨absent, once⟩ := List.nodup_cons.mp pending.once
  refine ⟨pending.ordered.of_cons, once,
    fun other listed => pending.governed other (List.mem_cons_of_mem _ listed),
    fun other counts => ?_⟩
  rcases pending.parted other counts with ⟨listed, _⟩ | ⟨gone, done⟩
  · rcases List.mem_cons.mp listed with rfl | later
    · exact .inr ⟨absent, Nat.le_refl _⟩
    · refine .inl ⟨later, ?_⟩
      -- otherwise both would have the place where the later one begins
      by_contra early
      have order := List.rel_of_pairwise_cons pending.ordered later
      have shared : edit.covers other.start = true := by
        rw [Edit.Before] at order
        exact Edit.covers_iff.mpr ⟨by omega, by omega⟩
      have same := separate.unique edit member other counts _ shared (covers_start separate counts)
      exact absent (same ▸ later)
  · exact .inr ⟨fun later => gone (List.mem_cons_of_mem _ later),
      done.trans (ahead.trans edit.start_le_stop)⟩

/-- The edits that are passed over are those that do not count. -/
theorem passedOver_eq_filter (separate : Separate active) (pending : Pending active place rest) :
    passedOver place rest = rest.filter fun edit => !active.contains edit := by
  induction rest generalizing place with
  | nil => rfl
  | cons edit rest ih =>
    rw [passedOver]
    by_cases behind : edit.start < place
    · obtain ⟨idle, later⟩ := pending.skip behind
      rw [if_pos behind, ih later, List.filter_cons_of_pos (by simpa using idle)]
    · have ahead := Nat.le_of_not_lt behind
      rw [if_neg behind, ih (pending.next separate ahead),
        List.filter_cons_of_neg (by simpa using pending.counts ahead)]

private theorem length_between {start stop : Nat} (bound : stop ≤ text.length) :
    (between text start stop).length = stop - start := by
  rw [between, List.length_take, List.length_drop]
  omega

/-- What is left of a text is rewritten up to a place and from there on. -/
theorem rewriteFrom_drop (edits : List Edit) {start stop : Nat} (order : start ≤ stop)
    (bound : stop ≤ text.length) :
    rewriteFrom edits start (text.drop start) =
      rewriteFrom edits start (between text start stop) ++
        rewriteFrom edits stop (text.drop stop) := by
  have rest : text.drop stop = (text.drop start).drop (stop - start) := by
    rw [List.drop_drop, Nat.add_sub_cancel' order]
  have whole : between text start stop ++ text.drop stop = text.drop start := by
    rw [rest, between, List.take_append_drop]
  rw [← whole, rewriteFrom_append, length_between bound, Nat.add_sub_cancel' order]

/-- Up to the edit that is carried out next no edit that counts has a place. -/
theorem Pending.apart (pending : Pending active place (edit :: rest)) {other : Edit}
    (counts : other ∈ active) {behind : Nat} (after : place ≤ behind)
    (before : behind < edit.start) : other.covers behind = false := by
  rw [Bool.eq_false_iff, ne_eq, Edit.covers_iff]
  rcases pending.parted other counts with ⟨listed, _⟩ | ⟨_, done⟩
  · rcases List.mem_cons.mp listed with rfl | later
    · omega
    · have order := List.rel_of_pairwise_cons pending.ordered later
      rw [Edit.Before] at order
      omega
  · omega

/-- Carrying out edits one after the other rewrites the text by those that count. -/
theorem splice_eq_rewriteFrom (separate : Separate active)
    (bounds : ∀ edit ∈ active, edit.stop ≤ text.length) (pending : Pending active place rest) :
    splice text place rest = rewriteFrom active place (text.drop place) := by
  induction rest generalizing place with
  | nil =>
    have apart : ∀ edit ∈ active, ∀ behind, place ≤ behind →
        behind < place + (text.drop place).length → edit.covers behind = false := by
      intro edit member behind after _
      rcases pending.parted edit member with ⟨listed, _⟩ | ⟨_, done⟩
      · cases listed
      · rw [Bool.eq_false_iff, ne_eq, Edit.covers_iff]
        omega
    rw [splice, rewriteFrom_of_apart _ apart]
  | cons edit rest ih =>
    rw [splice]
    by_cases behind : edit.start < place
    · rw [if_pos behind, ih (pending.skip behind).2]
    · have ahead := Nat.le_of_not_lt behind
      have member := pending.counts ahead
      have bound := bounds edit member
      have start := edit.start_le_stop.trans bound
      have front : rewriteFrom active place (between text place edit.start) =
          between text place edit.start := by
        apply rewriteFrom_of_apart
        intro other counts here after before
        rw [length_between start] at before
        exact pending.apart counts after (by omega)
      have own : rewriteFrom active edit.start (between text edit.start edit.stop) = edit.text := by
        apply rewriteFrom_edit separate member
        rw [length_between bound, Edit.stop, Nat.add_sub_cancel_left]
      rw [if_neg behind, ih (pending.next separate ahead), rewriteFrom_drop active ahead start,
        rewriteFrom_drop active edit.start_le_stop bound, front, own, List.append_assoc]

end Run

section Order
variable {active edits : List Edit} {pattern : List Char} {slots : List Slot} {slot : Slot}
  {dropped : List Occurrence}

private theorem inOrder_perm (edits : List Edit) :
    (inOrder edits).Perm edits := List.perm_insertionSort _ _

private theorem inOrder_pairwise (edits : List Edit) : (inOrder edits).Pairwise Edit.Before :=
  List.pairwise_insertionSort _ _

private theorem pending_inOrder (governs : Governs active edits) (once : edits.Nodup) :
    Pending active 0 (inOrder edits) := by
  have same := inOrder_perm edits
  exact ⟨inOrder_pairwise edits, same.nodup_iff.mpr once,
    fun edit member => governs.governed edit (same.mem_iff.mp member),
    fun edit member => .inl ⟨same.mem_iff.mpr (governs.listed edit member), Nat.zero_le _⟩⟩

/-- The edits of slots come in reading order. -/
theorem slotEdits_pairwise (on : slots.map Slot.token = tokens pattern) :
    (slots.filterMap Slot.edit?).Pairwise fun one other => one.start < other.start := by
  rw [List.pairwise_filterMap]
  refine (pairwise_of_on on).imp_of_mem fun first _ apart one filled other alsoFilled => ?_
  obtain ⟨_, _, rfl⟩ := Slot.edit?_eq_some_iff.mp filled
  obtain ⟨_, _, rfl⟩ := Slot.edit?_eq_some_iff.mp alsoFilled
  exact (token_start_lt_stop (token_mem_of_on on first)).trans_le apart

/-- No edit is there twice. -/
theorem nodup_slotEdits_append (on : slots.map Slot.token = tokens pattern)
    (known : ∀ group ∈ dropped, group ∈ groups pattern) (once : dropped.Nodup) :
    (slots.filterMap Slot.edit? ++ dropped.map removal).Nodup := by
  have ofSlots : (slots.filterMap Slot.edit?).Nodup :=
    (slotEdits_pairwise on).imp fun before same => by
      rw [same] at before
      exact Nat.lt_irrefl _ before
  have ofGroups : (dropped.map removal).Nodup := by
    refine once.map_on fun group listed other others same => ?_
    have start : group.start = other.start := congrArg Edit.start same
    exact eq_of_pairwise (groups_pairwise pattern) (known group listed) (known other others)
      ⟨Nat.le_refl _, group_start_lt_stop (known group listed)⟩
      ⟨start.ge, start.trans_lt (group_start_lt_stop (known other others))⟩
  refine ofSlots.append ofGroups fun edit first second => ?_
  obtain ⟨slot, member, filled⟩ := List.mem_filterMap.mp first
  obtain ⟨group, listed, rfl⟩ := List.mem_map.mp second
  have here := covers_start (separate_removals known) second
  have goes := goesWith_of_shared on known member filled listed here here
  obtain ⟨other, others, inside⟩ := exists_inside_removal on known member filled goes
  exact not_mem_of_inside (separate_removals known) (List.mem_map_of_mem others) inside second

/-- The edits of slots that do not count are those of the slots that go with a group. -/
theorem filter_slotEdits (on : slots.map Slot.token = tokens pattern)
    (known : ∀ group ∈ dropped, group ∈ groups pattern) :
    (slots.filterMap Slot.edit?).filter (fun edit => !(countingEdits slots dropped).contains edit) =
      idleEdits slots dropped := by
  rw [idleEdits, List.filter_filterMap, List.filterMap_filter]
  refine List.filterMap_congr fun slot member => ?_
  cases filled : slot.edit? with
  | none => simp
  | some edit =>
    cases goes : slot.goesWith dropped with
    | true =>
      obtain ⟨group, listed, inside⟩ := exists_inside_removal on known member filled goes
      have counts : removal group ∈ countingEdits slots dropped :=
        mem_countingEdits_iff.mpr (.inl ⟨group, listed, rfl⟩)
      have idle := not_mem_of_inside (separate_countingEdits on known) counts inside
      simp [idle]
    | false =>
      have counts : edit ∈ countingEdits slots dropped :=
        mem_countingEdits_iff.mpr (.inr ⟨slot, member, goes, filled⟩)
      simp [counts]

/-- All removals count. -/
theorem filter_removals (slots : List Slot) (dropped : List Occurrence) :
    (dropped.map removal).filter (fun edit => !(countingEdits slots dropped).contains edit) = [] := by
  rw [List.filter_eq_nil_iff]
  intro edit member
  obtain ⟨group, listed, rfl⟩ := List.mem_map.mp member
  have counts : removal group ∈ countingEdits slots dropped :=
    mem_countingEdits_iff.mpr (.inl ⟨group, listed, rfl⟩)
  simp [counts]

/-- In whatever order the edits are listed, all of them are still to be done at the beginning. -/
theorem pending_of_listed (on : slots.map Slot.token = tokens pattern)
    (known : ∀ group ∈ dropped, group ∈ groups pattern) (once : dropped.Nodup)
    (listed : edits.Perm (slots.filterMap Slot.edit? ++ dropped.map removal)) :
    Pending (countingEdits slots dropped) 0 (inOrder edits) :=
  pending_inOrder (governs_countingEdits on known fun _ => listed.mem_iff)
    (listed.nodup_iff.mpr (nodup_slotEdits_append on known once))

private theorem idleEdits_pairwise (on : slots.map Slot.token = tokens pattern) :
    (idleEdits slots dropped).Pairwise fun one other => one.start < other.start :=
  (slotEdits_pairwise on).sublist (List.filter_sublist.filterMap Slot.edit?)

/-- Those of the filled tokens that go with a group are passed over, in reading order, and no
others. -/
theorem passedOver_inOrder (on : slots.map Slot.token = tokens pattern)
    (known : ∀ group ∈ dropped, group ∈ groups pattern) (once : dropped.Nodup)
    (listed : edits.Perm (slots.filterMap Slot.edit? ++ dropped.map removal)) :
    passedOver 0 (inOrder edits) = idleEdits slots dropped := by
  have same : ((inOrder edits).filter fun edit => !(countingEdits slots dropped).contains edit).Perm
      (idleEdits slots dropped) := by
    have whole := ((inOrder_perm edits).trans listed).filter fun edit =>
      !(countingEdits slots dropped).contains edit
    rwa [List.filter_append, filter_slotEdits on known, filter_removals, List.append_nil] at whole
  have ordered : (idleEdits slots dropped).Pairwise fun one other => one.start < other.start :=
    idleEdits_pairwise on
  have distinct : ((idleEdits slots dropped).map Edit.start).Nodup := by
    rw [List.Nodup, List.pairwise_map]
    exact ordered.imp Nat.ne_of_lt
  rw [passedOver_eq_filter (separate_countingEdits on known)
    (pending_of_listed on known once listed)]
  refine same.eq_of_pairwise ?_ ((inOrder_pairwise edits).filter _) (ordered.imp .inl)
  -- of two edits that begin together each would come before the other
  intro edit other first second before after
  rw [Edit.Before] at before after
  exact List.inj_on_of_nodup_map distinct (same.mem_iff.mp first) second (by omega)

/-- Carrying out the edits one after the other rewrites the pattern by those that count. -/
theorem splice_inOrder (on : slots.map Slot.token = tokens pattern)
    (known : ∀ group ∈ dropped, group ∈ groups pattern) (once : dropped.Nodup)
    (listed : edits.Perm (slots.filterMap Slot.edit? ++ dropped.map removal)) :
    splice pattern 0 (inOrder edits) = rewrite (countingEdits slots dropped) pattern := by
  refine splice_eq_rewriteFrom (separate_countingEdits on known) (fun edit member => ?_)
    (pending_of_listed on known once listed)
  rcases mem_countingEdits_iff.mp member with ⟨group, among, rfl⟩ | ⟨slot, among, _, filled⟩
  · exact (stretch_of_group (known group among)).2
  · obtain ⟨text, _, rfl⟩ := Slot.edit?_eq_some_iff.mp filled
    exact (stretch_of_token (token_mem_of_on on among)).2

end Order

/-- No two tokens share a place, although each kind is searched for by itself. -/
theorem scanned_apart (pattern : List Char) :
    ((scanned .named pattern ++ scanned .splat pattern).map Token.span).Pairwise Apart := by
  have ordered : (tokens pattern).Pairwise fun one other => Apart one.span other.span :=
    (tokens_pairwise pattern).imp .inl
  rw [List.pairwise_map]
  exact ordered.perm (scanned_perm pattern).symm Or.symm

private theorem groups_apart (pattern : List Char) :
    ((groups pattern).map Occurrence.span).Pairwise Apart := by
  rw [List.pairwise_map]
  exact (groups_pairwise pattern).imp .inl

/-- Edits never cut each other. Tokens share no place, whichever of the two scans finds them,
groups share none, and a token that shares a place with a group lies within it. So whichever
tokens are filled and whichever groups are removed, and in whatever order this is listed: when
the edits are carried out one after the other, just the filled tokens that lie within a removed
group are passed over. All others are apart, and the outcome is the pattern rewritten by them:
every character outside of the removed groups and the filled tokens stays, in order, and each
filled token outside of the removed groups gives its text once, at its place. -/
theorem edits_never_cut_each_other (pattern : List Char) (slots : List Slot)
    (dropped : List Occurrence) (edits : List Edit)
    (on : slots.map Slot.token = byStart (scanned .named pattern ++ scanned .splat pattern))
    (known : ∀ group ∈ dropped, group ∈ groups pattern) (once : dropped.Nodup)
    (listed : edits.Perm (slots.filterMap Slot.edit? ++ dropped.map removal)) :
    ((scanned .named pattern ++ scanned .splat pattern).map Token.span).Pairwise Apart ∧
    ((groups pattern).map Occurrence.span).Pairwise Apart ∧
    (∀ token ∈ scanned .named pattern ++ scanned .splat pattern, ∀ group ∈ groups pattern,
      within token group = true ∨ Apart token.span group.span) ∧
    passedOver 0 (inOrder edits) = idleEdits slots dropped ∧
    Separate (countingEdits slots dropped) ∧
    splice pattern 0 (inOrder edits) = rewrite (countingEdits slots dropped) pattern ∧
    render pattern slots dropped = splice pattern 0 (inOrder edits) := by
  rw [byStart_scanned] at on
  have spliced := splice_inOrder on known once listed
  refine ⟨scanned_apart pattern, groups_apart pattern, fun token member group among => ?_,
    passedOver_inOrder on known once listed, separate_countingEdits on known, spliced, ?_⟩
  · exact within_or_apart ((scanned_perm pattern).mem_iff.mp member) among
  · rw [spliced, render_eq_rewrite on known]

/-- A marked token begins with its group, which is removed; a parenthesis stays open, and the edits
are not listed in reading order. -/
theorem edits_never_cut_each_other_marked :
    [⟨⟨.named, 1, "(?:a".toList⟩, some "x".toList⟩, ⟨⟨.splat, 6, "*b".toList⟩, some "(y".toList⟩,
        ⟨⟨.named, 10, ":c".toList⟩, none⟩].map Slot.token =
      byStart (scanned .named "/(?:a)*b((:c)(".toList ++ scanned .splat "/(?:a)*b((:c)(".toList) ∧
    (∀ group ∈ [⟨1, "(?:a)".toList⟩], group ∈ groups "/(?:a)*b((:c)(".toList) ∧
    [(⟨1, "(?:a)".toList⟩ : Occurrence)].Nodup ∧
    [⟨6, 2, "(y".toList⟩, ⟨1, 5, []⟩, ⟨1, 4, "x".toList⟩].Perm
      ([⟨⟨.named, 1, "(?:a".toList⟩, some "x".toList⟩, ⟨⟨.splat, 6, "*b".toList⟩, some "(y".toList⟩,
        ⟨⟨.named, 10, ":c".toList⟩, none⟩].filterMap Slot.edit? ++
        [⟨1, "(?:a)".toList⟩].map removal) ∧
    passedOver 0 (inOrder [⟨6, 2, "(y".toList⟩, ⟨1, 5, []⟩, ⟨1, 4, "x".toList⟩]) =
      [⟨1, 4, "x".toList⟩] ∧
    splice "/(?:a)*b((:c)(".toList 0
        (inOrder [⟨6, 2, "(y".toList⟩, ⟨1, 5, []⟩, ⟨1, 4, "x".toList⟩]) =
      "/(y((:c)(".toList ∧
    render "/(?:a)*b((:c)(".toList
        [⟨⟨.named, 1, "(?:a".toList⟩, some "x".toList⟩, ⟨⟨.splat, 6, "*b".toList⟩, some "(y".toList⟩,
          ⟨⟨.named, 10, ":c".toList⟩, none⟩]
        [⟨1, "(?:a)".toList⟩] =
      "/(y((:c)(".toList := by
  obtain ⟨_, _, _, passed, _, spliced, rendered⟩ := edits_never_cut_each_other
    "/(?:a)*b((:c)(".toList
    [⟨⟨.named, 1, "(?:a".toList⟩, some "x".toList⟩, ⟨⟨.splat, 6, "*b".toList⟩, some "(y".toList⟩,
      ⟨⟨.named, 10, ":c".toList⟩, none⟩]
    [⟨1, "(?:a)".toList⟩]
    [⟨6, 2, "(y".toList⟩, ⟨1, 5, []⟩, ⟨1, 4, "x".toList⟩]
    (by decide) (by decide) (by decide) (by decide)
  refine ⟨by decide, by decide, by decide, by decide, ?_, ?_, ?_⟩
  · rw [passed]
    decide
  · rw [spliced]
    decide
  · rw [rendered, spliced]
    decide

end RoutePattern.Pattern
