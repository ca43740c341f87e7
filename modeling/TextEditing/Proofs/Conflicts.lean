/-
Module: TextEditing.Proofs.Conflicts
Purpose: Which two changes the search for conflicts names, and when a batch is rejected.
Main exports: Numbered.Blocks, Numbered.Leads, Batch.FirstConflict, Batch.conflict?_eq_some_iff,
  Batch.rejectConflict_decides
-/
import TextEditing.Proofs.EntryPoints

namespace TextEditing

/-!
The search remembers one change of all that it has passed: the first one of those that reach
furthest.  As long as no conflict is found, nothing else of what has been passed matters, and the
change at which the search ends is the first in order that any change in front of it blocks.
-/

namespace Span

theorem reach_eq_min (span : Span) : span.reach = min (span.start + span.length) maxOffset := by
  unfold reach stop?
  split
  · rename_i hle
    exact (Nat.min_eq_left hle).symm
  · rename_i hlt
    exact (Nat.min_eq_right (Nat.le_of_lt (Nat.lt_of_not_le hlt))).symm

/-- Of two spans that are not empty, the one that starts later overlaps the other one as soon as it
starts before its end. -/
theorem overlaps_iff_of_start_le {a b : Span} (ha : a.isEmpty = false) (hb : b.isEmpty = false)
    (hle : a.start ≤ b.start) : a.Overlaps b ↔ b.start < a.reach := by
  have hlength : 0 < b.length := Nat.pos_of_ne_zero (by simpa [isEmpty] using hb)
  have hreach := a.reach_eq_min
  have hreach' := b.reach_eq_min
  constructor
  · rintro ⟨_, _, _, hlt⟩
    exact hlt
  · intro hlt
    exact ⟨ha, hb, by omega, hlt⟩

theorem overlaps_comm {a b : Span} : a.Overlaps b ↔ b.Overlaps a := by
  constructor <;> exact fun ⟨ha, hb, hlt, hlt'⟩ => ⟨hb, ha, hlt', hlt⟩

end Span

namespace Numbered

/-- The change comes first, and the other one begins before it ends. -/
def Blocks (a b : Numbered) : Prop := a.Before b ∧ b.start < a.reach

theorem Before.trans {a b c : Numbered} (hab : a.Before b) (hbc : b.Before c) : a.Before c := by
  simp only [Before] at *
  omega

theorem before_or_before {a b : Numbered} (h : a.index ≠ b.index) : a.Before b ∨ b.Before a := by
  simp only [Before]
  omega

/-- Of these changes, none reaches further than this one, and those in front of it not as far. -/
def Leads (furthest : Numbered) (passed : List Numbered) : Prop :=
  ∃ front back, passed = front ++ furthest :: back ∧
    (∀ edit ∈ front, edit.reach < furthest.reach) ∧ ∀ edit ∈ back, edit.reach ≤ furthest.reach

namespace Leads

variable {furthest edit : Numbered} {passed : List Numbered}

theorem singleton (edit : Numbered) : edit.Leads [edit] :=
  ⟨[], [], rfl, fun _ h => absurd h List.not_mem_nil, fun _ h => absurd h List.not_mem_nil⟩

theorem mem (h : furthest.Leads passed) : furthest ∈ passed := by
  obtain ⟨front, back, rfl, _⟩ := h
  exact List.mem_append_right _ List.mem_cons_self

theorem reach_le (h : furthest.Leads passed) (hedit : edit ∈ passed) :
    edit.reach ≤ furthest.reach := by
  obtain ⟨front, back, rfl, hfront, hback⟩ := h
  rcases List.mem_append.1 hedit with hmem | hmem
  · exact Nat.le_of_lt (hfront edit hmem)
  · rcases List.mem_cons.1 hmem with rfl | hmem
    · exact Nat.le_refl _
    · exact hback edit hmem

/-- Others that reach as far come behind. -/
theorem eq_or_before (h : furthest.Leads passed) (hsorted : passed.Pairwise Before)
    (hedit : edit ∈ passed) (hreach : edit.reach = furthest.reach) :
    edit = furthest ∨ furthest.Before edit := by
  obtain ⟨front, back, rfl, hfront, _⟩ := h
  rcases List.mem_append.1 hedit with hmem | hmem
  · exact absurd hreach (Nat.ne_of_lt (hfront edit hmem))
  · rcases List.mem_cons.1 hmem with rfl | hmem
    · exact .inl rfl
    · exact .inr ((List.pairwise_cons.1 (List.pairwise_append.1 hsorted).2.1).1 edit hmem)

/-- Behind one more change the first that reaches furthest is the one that the search remembers. -/
theorem append (h : furthest.Leads passed) (edit : Numbered) :
    (if furthest.reach < edit.reach then edit else furthest).Leads (passed ++ [edit]) := by
  split
  · rename_i hfurther
    refine ⟨passed, [], rfl, fun other hother => ?_, fun _ hother => absurd hother List.not_mem_nil⟩
    exact Nat.lt_of_le_of_lt (h.reach_le hother) hfurther
  · rename_i hnear
    obtain ⟨front, back, rfl, hfront, hback⟩ := h
    refine ⟨front, back ++ [edit], by simp, hfront, fun other hother => ?_⟩
    rcases List.mem_append.1 hother with hmem | hmem
    · exact hback other hmem
    · rw [List.mem_singleton.1 hmem]
      exact Nat.le_of_not_lt hnear

end Leads

end Numbered

namespace Batch

variable {edits : Batch} {conflict : Conflict}

/-- The first change in order that another one in front of it blocks, and of all in front of it the
first one that reaches furthest. -/
structure FirstConflict (edits : Batch) (conflict : Conflict) : Prop where
  later_mem : conflict.later ∈ numbered edits
  earlier_mem : conflict.earlier ∈ numbered edits
  blocks : conflict.earlier.Blocks conflict.later
  least : ∀ edit ∈ numbered edits, (∃ other ∈ numbered edits, other.Blocks edit) →
    edit = conflict.later ∨ conflict.later.Before edit
  furthest : ∀ edit ∈ numbered edits, edit.Before conflict.later →
    edit.reach ≤ conflict.earlier.reach
  first : ∀ edit ∈ numbered edits, edit.Before conflict.later →
    edit.reach = conflict.earlier.reach → edit = conflict.earlier ∨ conflict.earlier.Before edit

/-- A batch has one first conflict at most. -/
theorem FirstConflict.eq {other : Conflict} (h : edits.FirstConflict conflict)
    (h' : edits.FirstConflict other) : conflict = other := by
  obtain ⟨later, earlier⟩ := conflict
  obtain ⟨later', earlier'⟩ := other
  have hlater : later = later' := by
    rcases h.least later' h'.later_mem ⟨earlier', h'.earlier_mem, h'.blocks⟩ with heq | hbefore
    · exact heq.symm
    · rcases h'.least later h.later_mem ⟨earlier, h.earlier_mem, h.blocks⟩ with heq | hback
      · exact heq
      · exact absurd hback hbefore.asymm
  subst hlater
  have hreach : earlier.reach = earlier'.reach :=
    Nat.le_antisymm (h'.furthest earlier h.earlier_mem h.blocks.1)
      (h.furthest earlier' h'.earlier_mem h'.blocks.1)
  have hearlier : earlier = earlier' := by
    rcases h.first earlier' h'.earlier_mem h'.blocks.1 hreach.symm with heq | hbefore
    · exact heq.symm
    · rcases h'.first earlier h.earlier_mem h.blocks.1 hreach with heq | hback
      · exact heq
      · exact absurd hback hbefore.asymm
  rw [hearlier]

/-- The search ends at a change that begins before the end of the one that leads all those passed,
none of which are in conflict with one another. -/
theorem exists_split_of_conflictAfter? {furthest : Numbered} {passed rest : List Numbered}
    (hleads : furthest.Leads passed)
    (hclear : passed.Pairwise fun a b => a.reach ≤ b.start)
    (h : conflictAfter? furthest rest = some conflict) :
    ∃ middle behind, rest = middle ++ conflict.later :: behind ∧
      conflict.earlier.Leads (passed ++ middle) ∧
      ((passed ++ middle).Pairwise fun a b => a.reach ≤ b.start) ∧
      conflict.later.start < conflict.earlier.reach := by
  induction rest generalizing furthest passed with
  | nil => cases h
  | cons edit rest ih =>
      rw [conflictAfter?] at h
      split at h
      · rename_i hlt
        cases h
        exact ⟨[], rest, rfl, by rwa [List.append_nil], by rwa [List.append_nil], hlt⟩
      · rename_i hle
        have hnext : (passed ++ [edit]).Pairwise fun a b => a.reach ≤ b.start := by
          refine List.pairwise_append.2 ⟨hclear, List.pairwise_singleton _ _, ?_⟩
          intro other hother last hlast
          rw [List.mem_singleton.1 hlast]
          exact Nat.le_trans (hleads.reach_le hother) (Nat.le_of_not_lt hle)
        obtain ⟨middle, behind, rfl, hlead, hmiddle, hlt⟩ := ih (hleads.append edit) hnext h
        rw [List.append_assoc, List.singleton_append] at hlead hmiddle
        exact ⟨edit :: middle, behind, rfl, hlead, hmiddle, hlt⟩

theorem exists_split_of_conflict? (h : conflict? edits = some conflict) :
    ∃ front behind, scanOrder edits = front ++ conflict.later :: behind ∧
      conflict.earlier.Leads front ∧ (front.Pairwise fun a b => a.reach ≤ b.start) ∧
      conflict.later.start < conflict.earlier.reach := by
  unfold conflict? at h
  split at h
  · cases h
  · rename_i first rest hscan
    obtain ⟨middle, behind, rfl, hlead, hclear, hlt⟩ :=
      exists_split_of_conflictAfter? (.singleton first) (List.pairwise_singleton _ _) h
    exact ⟨first :: middle, behind, hscan, hlead, hclear, hlt⟩

/-- What the search finds is the first conflict. -/
theorem firstConflict_of_conflict? (h : conflict? edits = some conflict) :
    edits.FirstConflict conflict := by
  obtain ⟨front, behind, hscan, hlead, hclear, hlt⟩ := exists_split_of_conflict? h
  have hsorted := (ascending_scanOrder edits).sorted
  rw [hscan] at hsorted
  obtain ⟨hfront, htail, hinner⟩ := List.pairwise_append.1 hsorted
  have hbehind := (List.pairwise_cons.1 htail).1
  have hplace : ∀ edit ∈ numbered edits,
      edit ∈ front ∨ edit = conflict.later ∨ conflict.later.Before edit := by
    intro edit hedit
    rw [← mem_scanOrder, hscan] at hedit
    rcases List.mem_append.1 hedit with hmem | hmem
    · exact .inl hmem
    · exact .inr ((List.mem_cons.1 hmem).imp_right (hbehind edit))
  have hpassed : ∀ edit ∈ numbered edits, edit.Before conflict.later → edit ∈ front := by
    intro edit hedit hbefore
    rcases hplace edit hedit with hmem | rfl | hback
    · exact hmem
    · exact absurd hbefore hbefore.asymm
    · exact absurd hback hbefore.asymm
  have hnumbered : ∀ edit ∈ front ++ conflict.later :: behind, edit ∈ numbered edits :=
    fun edit hedit => mem_scanOrder.1 (hscan ▸ hedit)
  refine ⟨hnumbered _ (List.mem_append_right _ List.mem_cons_self),
    hnumbered _ (List.mem_append_left _ hlead.mem),
    ⟨hinner _ hlead.mem _ List.mem_cons_self, hlt⟩, ?_,
    fun edit hedit hbefore => hlead.reach_le (hpassed edit hedit hbefore),
    fun edit hedit hbefore => hlead.eq_or_before hfront (hpassed edit hedit hbefore)⟩
  -- A change that is blocked does not stand among those that were passed without a conflict.
  rintro edit hedit ⟨other, hother, hbefore, hblocked⟩
  rcases hplace edit hedit with hmem | hplace
  · have hfirst : other ∈ front := by
      refine hpassed other hother ?_
      exact hbefore.trans (hinner edit hmem _ List.mem_cons_self)
    have hle := rel_of_before hfront hclear hfirst hmem hbefore
    exact absurd hblocked (Nat.not_lt_of_le hle)
  · exact hplace

/-- The search finds the first conflict, if there is any. -/
theorem conflict?_eq_some_iff :
    conflict? edits = some conflict ↔ edits.FirstConflict conflict := by
  constructor
  · exact firstConflict_of_conflict?
  · intro h
    cases hfound : conflict? edits with
    | none =>
        have hle := (conflict?_eq_none_iff edits).1 hfound _ h.earlier_mem _ h.later_mem h.blocks.1
        exact absurd h.blocks.2 (Nat.not_lt_of_le hle)
    | some found => rw [(firstConflict_of_conflict? hfound).eq h]

theorem compatible_iff_forall_not_blocks :
    edits.Compatible ↔ ∀ a ∈ numbered edits, ∀ b ∈ numbered edits, ¬ a.Blocks b := by
  simp only [Compatible, Numbered.Blocks, not_and, Nat.not_lt]

/-- There is one change at each position. -/
theorem eq_of_index_eq {a b : Numbered} (ha : a ∈ numbered edits) (hb : b ∈ numbered edits)
    (h : a.index = b.index) : a = b := by
  rw [mem_numbered] at ha hb
  obtain ⟨index, change⟩ := a
  obtain ⟨_, _⟩ := b
  cases h
  cases ha.symm.trans hb
  rfl

/-- Changes of which none is a mere insertion are compatible exactly if no two spans overlap. -/
theorem compatible_iff_forall_not_overlaps (h : ∀ change ∈ edits, change.span.isEmpty = false) :
    edits.Compatible ↔ ∀ a ∈ numbered edits, ∀ b ∈ numbered edits, a.index ≠ b.index →
      ¬ a.change.span.Overlaps b.change.span := by
  have hoverlaps : ∀ a ∈ numbered edits, ∀ b ∈ numbered edits, a.Before b →
      (a.change.span.Overlaps b.change.span ↔ b.start < a.reach) := by
    intro a ha b hb hbefore
    refine Span.overlaps_iff_of_start_le (h _ (numbered_change_mem ha))
      (h _ (numbered_change_mem hb)) ?_
    rcases hbefore with hlt | ⟨heq, _⟩
    · exact Nat.le_of_lt hlt
    · exact Nat.le_of_eq heq
  constructor
  · intro hcompatible a ha b hb hindex hoverlap
    rcases Numbered.before_or_before hindex with hbefore | hbefore
    · have hlt := (hoverlaps a ha b hb hbefore).1 hoverlap
      exact absurd hlt (Nat.not_lt_of_le (hcompatible a ha b hb hbefore))
    · have hlt := (hoverlaps b hb a ha hbefore).1 (Span.overlaps_comm.1 hoverlap)
      exact absurd hlt (Nat.not_lt_of_le (hcompatible b hb a ha hbefore))
  · intro hapart a ha b hb hbefore
    have hindex : a.index ≠ b.index := by
      intro hsame
      cases eq_of_index_eq ha hb hsame
      exact hbefore.asymm hbefore
    refine Nat.le_of_not_lt fun hlt => hapart a ha b hb hindex ?_
    exact (hoverlaps a ha b hb hbefore).2 hlt

theorem rejectConflict_eq_error_iff {cause : ApplyError} :
    edits.rejectConflict = .error cause ↔ ∃ conflict, conflict? edits = some conflict ∧
      cause = .overlap conflict.later.index conflict.later.change.span conflict.earlier.index
        conflict.earlier.change.span := by
  unfold rejectConflict
  cases conflict? edits with
  | none => simp
  | some conflict => simp [eq_comm]

/-- A batch is accepted exactly if no change begins before the end of one in front of it, in the
order of starts and positions.  A rejection names the first change that does, and of those in front
of it the first one that reaches furthest, with their spans.  Where every change replaces something,
accepted batches are those whose spans do not overlap. -/
theorem rejectConflict_decides (edits : Batch) :
    (edits.rejectConflict = .ok () ↔
        ∀ a ∈ numbered edits, ∀ b ∈ numbered edits, ¬ a.Blocks b) ∧
      (∀ cause, edits.rejectConflict = .error cause ↔ ∃ conflict, edits.FirstConflict conflict ∧
        cause = .overlap conflict.later.index conflict.later.change.span conflict.earlier.index
          conflict.earlier.change.span) ∧
      ((∀ change ∈ edits, change.span.isEmpty = false) →
        (edits.rejectConflict = .ok () ↔ ∀ a ∈ numbered edits, ∀ b ∈ numbered edits,
          a.index ≠ b.index → ¬ a.change.span.Overlaps b.change.span)) := by
  have hverdict : edits.rejectConflict = .ok () ↔ edits.Compatible :=
    rejectConflict_eq_ok_iff.trans (conflict?_eq_none_iff edits)
  refine ⟨hverdict.trans compatible_iff_forall_not_blocks, fun cause => ?_, fun hnonempty =>
    hverdict.trans (compatible_iff_forall_not_overlaps hnonempty)⟩
  rw [rejectConflict_eq_error_iff]
  simp only [conflict?_eq_some_iff]

/-- A short span inside a long one, behind another one that the long one only touches. -/
def nested : Batch :=
  [.delete 7 1, .replace 2 7 "long", .delete 9 maxOffset, .delete 0 2, .replace 3 6 "as far"]

theorem rejectConflict_decides_nested :
    (∀ change ∈ nested, change.span.isEmpty = false) ∧
      nested.rejectConflict = .error (.overlap 4 ⟨3, 6⟩ 1 ⟨2, 7⟩) ∧
      (∃ conflict, nested.FirstConflict conflict ∧ conflict.later.index = 4 ∧
        conflict.earlier.index = 1) ∧
      ¬ ∀ a ∈ numbered nested, ∀ b ∈ numbered nested, a.index ≠ b.index →
        ¬ a.change.span.Overlaps b.change.span := by
  obtain ⟨_, herror, hspans⟩ := rejectConflict_decides nested
  have hnonempty : ∀ change ∈ nested, change.span.isEmpty = false := by decide
  have hresult : nested.rejectConflict = .error (.overlap 4 ⟨3, 6⟩ 1 ⟨2, 7⟩) := by cbv
  refine ⟨hnonempty, hresult, ?_, fun hapart => ?_⟩
  · obtain ⟨conflict, hfirst, hcause⟩ := (herror _).1 hresult
    simp only [ApplyError.overlap.injEq] at hcause
    exact ⟨conflict, hfirst, hcause.1.symm, hcause.2.2.1.symm⟩
  · have haccepted := (hspans hnonempty).2 hapart
    rw [hresult] at haccepted
    cases haccepted

end Batch

end TextEditing
