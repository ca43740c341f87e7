/-
Module: TextEditing.Proofs.Renumbering
Purpose: The positions of changes are names: a run over renumbered changes is the same run, and a
  part of a batch is ordered as it is ordered within the batch.
Main exports: Numbered.renumber, Run.renumber, runAll_renumber, Batch.keep, Batch.scanOrder_keep,
  Batch.applicationOrder_keep, Batch.compatible_keep
-/
import TextEditing.Proofs.Restatement

namespace TextEditing

/-!
A run reads the position of a change only to write it down, in the record of an edit or in an error.
So changes that are listed under other positions do the same to the buffer.

Some changes of a batch, kept in batch order, form a batch of their own in which they stand at new
positions.  These are in the order of the old ones, so the changes kept are searched and applied in
the order in which they come in the whole batch.
-/

/-- The change at another position. -/
def Numbered.renumber (f : Nat → Nat) (edit : Numbered) : Numbered :=
  { edit with index := f edit.index }

/-- The record with another position. -/
def AppliedEdit.renumber (f : Nat → Nat) (edit : AppliedEdit) : AppliedEdit :=
  { edit with index := f edit.index }

/-- The error with other positions. -/
def ApplyError.renumber (f : Nat → Nat) : ApplyError → ApplyError
  | outOfBounds index span length => outOfBounds (f index) span length
  | overlap index span otherIndex otherSpan => overlap (f index) span (f otherIndex) otherSpan
  | misaligned index offset => misaligned (f index) offset
  | refused index cause => refused (f index) cause

/-- The run with other positions. -/
def Run.renumber {β : Type} (f : Nat → Nat) (run : Run β) : Run β where
  buffer := run.buffer
  applied := run.applied.map (AppliedEdit.renumber f)
  failure := run.failure.map (ApplyError.renumber f)

section Run

variable {β : Type} [TextBuffer β] (f : Nat → Nat)

theorem Numbered.applyTo_renumber (edit : Numbered) (buffer : β) :
    (edit.renumber f).applyTo buffer =
      ((edit.applyTo buffer).map fun (changed, done) => (changed, done.renumber f)).mapError
        (ApplyError.renumber f) := by
  by_cases hstop : ∃ stop ∈ edit.change.span.stop?, stop ≤ TextBuffer.length buffer
  · have hmoved : ∃ stop ∈ (edit.renumber f).change.span.stop?, stop ≤ TextBuffer.length buffer :=
      hstop
    simp only [applyTo, if_pos hstop, if_pos hmoved]
    have hchange : (edit.renumber f).change = edit.change := rfl
    rw [hchange]
    cases TextBuffer.replace buffer edit.change.span.start edit.change.span.length
        edit.change.newText with
    | error cause => rfl
    | ok changed => rfl
  · have hmoved : ¬ ∃ stop ∈ (edit.renumber f).change.span.stop?, stop ≤ TextBuffer.length buffer :=
      hstop
    simp only [applyTo, if_neg hstop, if_neg hmoved]
    rfl

/-- A run over renumbered changes is the renumbered run. -/
theorem runAll_renumber (edits : List Numbered) (buffer : β) :
    runAll buffer (edits.map (Numbered.renumber f)) = (runAll buffer edits).renumber f := by
  induction edits generalizing buffer with
  | nil => rfl
  | cons edit rest ih =>
      have hstep := edit.applyTo_renumber f buffer
      cases hplain : edit.applyTo buffer with
      | error cause =>
          rw [hplain] at hstep
          rw [List.map_cons, runAll_cons_of_error _ hstep, runAll_cons_of_error rest hplain]
          rfl
      | ok made =>
          obtain ⟨changed, done⟩ := made
          rw [hplain] at hstep
          rw [List.map_cons, runAll_cons_of_ok _ hstep, runAll_cons_of_ok rest hplain, ih]
          rfl

end Run

/-- In an ascending list a smaller number stands further in front. -/
theorem idxOf_lt_idxOf {positions : List Nat} (h : positions.Pairwise (· < ·)) {a b : Nat}
    (ha : a ∈ positions) (hb : b ∈ positions) (hab : a < b) :
    positions.idxOf a < positions.idxOf b := by
  have hdistinct : positions.Nodup := h.imp Nat.ne_of_lt
  obtain ⟨i, hi, rfl⟩ := List.mem_iff_getElem.1 ha
  obtain ⟨j, hj, rfl⟩ := List.mem_iff_getElem.1 hb
  rw [hdistinct.idxOf_getElem, hdistinct.idxOf_getElem]
  rcases Nat.lt_trichotomy i j with hij | rfl | hji
  · exact hij
  · exact absurd hab (Nat.lt_irrefl _)
  · have hba := List.pairwise_iff_getElem.1 h j i hj hi hji
    exact absurd hab (Nat.lt_asymm hba)

namespace Batch

variable {edits : Batch} {positions : List Nat}

/-- The changes at the given positions, in batch order. -/
def kept (edits : Batch) (positions : List Nat) : List Numbered :=
  (numbered edits).filter (·.index ∈ positions)

/-- The part of the batch at the given positions. -/
def keep (edits : Batch) (positions : List Nat) : Batch :=
  (kept edits positions).map Numbered.change

/-- Where the change at a position of the batch stands in the part. -/
def rank (edits : Batch) (positions : List Nat) (index : Nat) : Nat :=
  ((kept edits positions).map Numbered.index).idxOf index

theorem pairwise_lt_kept (edits : Batch) (positions : List Nat) :
    ((kept edits positions).map Numbered.index).Pairwise (· < ·) :=
  List.pairwise_map.2 ((pairwise_lt_numbered edits).filter _)

theorem mem_of_mem_keep {change : Change} (h : change ∈ edits.keep positions) :
    change ∈ edits := by
  obtain ⟨edit, hedit, rfl⟩ := List.mem_map.1 h
  exact numbered_change_mem (List.mem_of_mem_filter hedit)

theorem numbered_keep (edits : Batch) (positions : List Nat) :
    numbered (edits.keep positions) =
      (kept edits positions).map (Numbered.renumber (rank edits positions)) := by
  have hdistinct := (pairwise_lt_kept edits positions).imp Nat.ne_of_lt
  apply List.ext_getElem
  · rw [numbered, List.length_mapIdx, keep, List.length_map, List.length_map]
  · intro i hi hkept
    rw [List.length_map] at hkept
    have hrank := List.Nodup.idxOf_getElem hdistinct i (by rw [List.length_map]; exact hkept)
    rw [List.getElem_map] at hrank
    simp only [numbered, keep, List.getElem_mapIdx, List.getElem_map, Numbered.renumber, rank,
      hrank]

/-- Among the changes kept, new positions are in the order of the old ones. -/
theorem before_renumber_rank {a b : Numbered} (ha : a ∈ kept edits positions)
    (hb : b ∈ kept edits positions) (h : a.Before b) :
    (a.renumber (rank edits positions)).Before (b.renumber (rank edits positions)) := by
  rcases h with hstart | ⟨hstart, hindex⟩
  · exact Or.inl hstart
  · exact Or.inr ⟨hstart, idxOf_lt_idxOf (pairwise_lt_kept edits positions)
      (List.mem_map_of_mem ha) (List.mem_map_of_mem hb) hindex⟩

/-- A part of a batch is scanned in the order of the whole batch. -/
theorem scanOrder_keep (edits : Batch) (positions : List Nat) :
    scanOrder (edits.keep positions) =
      ((scanOrder edits).filter (·.index ∈ positions)).map
        (Numbered.renumber (rank edits positions)) := by
  have hascending := ascending_scanOrder edits
  have hperm : ((scanOrder edits).filter (·.index ∈ positions)).Perm (kept edits positions) :=
    hascending.perm.filter _
  refine (ascending_scanOrder _).eq ⟨?_, ?_⟩
  · rw [numbered_keep]
    exact hperm.map _
  · rw [List.pairwise_map]
    refine (hascending.sorted.filter _).imp_of_mem ?_
    intro a b ha hb hbefore
    exact before_renumber_rank (hperm.mem_iff.1 ha) (hperm.mem_iff.1 hb) hbefore

theorem applicationOrder_keep (edits : Batch) (positions : List Nat) :
    applicationOrder (edits.keep positions) =
      ((applicationOrder edits).filter (·.index ∈ positions)).map
        (Numbered.renumber (rank edits positions)) := by
  rw [applicationOrder_eq_reverse, applicationOrder_eq_reverse, scanOrder_keep,
    List.filter_reverse, List.map_reverse]

/-- A part of a compatible batch is compatible. -/
theorem compatible_keep (h : Compatible edits) (positions : List Nat) :
    Compatible (edits.keep positions) := by
  apply compatible_of_pairwise (ascending_scanOrder _)
  rw [scanOrder_keep, List.pairwise_map]
  exact (pairwise_of_compatible (ascending_scanOrder edits) h).filter _

/-- Restating in characters and taking a part may change places. -/
theorem keep_map_restate (edits : Batch) (positions : List Nat) (unit : OffsetUnit)
    (text : String) :
    keep (edits.map (Change.restate unit text)) positions =
      (edits.keep positions).map (Change.restate unit text) := by
  rw [keep, kept, numbered_map_restate, List.filter_map, List.map_map, keep, kept, List.map_map]
  rfl

theorem toCharacters_keep {resolved : Batch} {unit : OffsetUnit} {text : String}
    (h : edits.toCharacters unit text = .ok resolved) (positions : List Nat) :
    (edits.keep positions).toCharacters unit text = .ok (resolved.keep positions) := by
  obtain ⟨hunit, rfl⟩ := toCharacters_eq_ok_iff.1 h
  rw [toCharacters_eq_ok_iff]
  refine ⟨?_, keep_map_restate edits positions unit text⟩
  rcases hunit with hcharacter | haligned
  · exact Or.inl hcharacter
  · exact Or.inr fun change hchange => haligned change (mem_of_mem_keep hchange)

/-- The changes applied first are those at the first positions of the order of application. -/
theorem filter_applicationOrder_take (edits : Batch) (count : Nat) :
    (applicationOrder edits).filter
        (·.index ∈ ((applicationOrder edits).map Numbered.index).take count) =
      (applicationOrder edits).take count := by
  have hdistinct : (applicationOrder edits).Pairwise fun a b => a.index ≠ b.index :=
    (pairwise_index_numbered edits).perm (List.mergeSort_perm _ _).symm Ne.symm
  rw [← List.take_append_drop count (applicationOrder edits), List.pairwise_append] at hdistinct
  rw [← List.map_take]
  generalize hfirst : (applicationOrder edits).take count = first at hdistinct ⊢
  rw [← List.take_append_drop count (applicationOrder edits), hfirst, List.filter_append,
    List.filter_eq_self.2, List.filter_eq_nil_iff.2, List.append_nil]
  · intro edit hedit
    rw [decide_eq_true_eq, List.mem_map]
    intro hindex
    obtain ⟨other, hother, heq⟩ := hindex
    exact hdistinct.2.2 other hother edit hedit heq
  · intro edit hedit
    exact decide_eq_true (List.mem_map_of_mem hedit)

end Batch

end TextEditing
