/-
Module: TextEditing.Proofs.Runs
Purpose: What one change does to a faithful buffer, and what a run over many changes does.
Main exports: Numbered.patch, Numbered.record, Numbered.applyTo_of_fits,
  Numbered.applyTo_of_not_fits, Numbered.record_of_applyTo, runAll_append, runAll_reverse, validateAll_eq
-/
import TextEditing.Edit.Apply
import TextEditing.Proofs.FaithfulBuffer

namespace TextEditing

open FaithfulBuffer (chars Writable)

/-- The change as a patch of the characters of a text. -/
def Change.patch (change : Change) : Patch Char where
  start := change.span.start
  stop := change.span.start + change.span.length
  put := change.newText.toList

namespace Numbered

/-- A change is the same patch wherever it stands in its batch. -/
def patch (edit : Numbered) : Patch Char := edit.change.patch

theorem patch_start_le (edit : Numbered) : edit.patch.start ≤ edit.patch.stop :=
  Nat.le_add_right _ _

theorem patch_width (edit : Numbered) :
    edit.patch.stop - edit.patch.start = edit.change.span.length :=
  Nat.add_sub_cancel_left _ _

theorem length_put (edit : Numbered) : edit.patch.put.length = edit.change.insertedLength :=
  String.length_toList

/-- What is written down about the change when it is made on a text. -/
def record (text : List Char) (edit : Numbered) : AppliedEdit where
  index := edit.index
  start := edit.start
  deletedText := String.ofList (excerpt text edit.patch.start edit.patch.stop)
  insertedText := edit.change.newText

end Numbered

section AnyBuffer

variable {β : Type} [TextBuffer β] {buffer : β} {edit : Numbered}

theorem Numbered.applyTo_of_not_fits
    (h : ¬ edit.change.span.FitsIn (TextBuffer.length buffer)) :
    edit.applyTo buffer =
      .error (.outOfBounds edit.index edit.change.span (TextBuffer.length buffer)) :=
  if_neg (mt Span.exists_stop_le_iff.1 h)

theorem Numbered.fits_of_applyTo {changed : β} {done : AppliedEdit}
    (h : edit.applyTo buffer = .ok (changed, done)) :
    edit.change.span.FitsIn (TextBuffer.length buffer) := by
  by_cases hfits : edit.change.span.FitsIn (TextBuffer.length buffer)
  · exact hfits
  · rw [Numbered.applyTo_of_not_fits hfits] at h
    cases h

/-- A change that is made has been accepted as a replacement, and the record tells of it. -/
theorem Numbered.replaced_of_applyTo {changed : β} {done : AppliedEdit}
    (h : edit.applyTo buffer = .ok (changed, done)) :
    TextBuffer.replace buffer edit.change.span.start edit.change.span.length
        edit.change.newText = .ok changed ∧
      done.index = edit.index ∧ done.insertedText = edit.change.newText := by
  have hstop := Span.exists_stop_le_iff.2 (Numbered.fits_of_applyTo h)
  simp only [applyTo, if_pos hstop] at h
  split at h
  · rename_i next hreplace
    cases h
    exact ⟨hreplace, rfl, rfl⟩
  · cases h

theorem runAll_cons_of_error {cause : ApplyError} (rest : List Numbered)
    (h : edit.applyTo buffer = .error cause) :
    runAll buffer (edit :: rest) = ⟨buffer, [], some cause⟩ := by
  rw [runAll, h]

theorem runAll_cons_of_ok {changed : β} {done : AppliedEdit} (rest : List Numbered)
    (h : edit.applyTo buffer = .ok (changed, done)) :
    runAll buffer (edit :: rest) =
      ⟨(runAll changed rest).buffer, done :: (runAll changed rest).applied,
        (runAll changed rest).failure⟩ := by
  rw [runAll, h]

theorem runAll_eq_of_no_failure {edits : List Numbered} (h : (runAll buffer edits).failure = none) :
    runAll buffer edits = ⟨(runAll buffer edits).buffer, (runAll buffer edits).applied, none⟩ := by
  rw [← h]

/-- A run that reached its end made the first change, and reached its end over the others. -/
theorem exists_step_of_runAll_cons {changed : β} {applied : List AppliedEdit}
    {rest : List Numbered} (h : runAll buffer (edit :: rest) = ⟨changed, applied, none⟩) :
    ∃ next done others, edit.applyTo buffer = .ok (next, done) ∧
      runAll next rest = ⟨changed, others, none⟩ ∧ applied = done :: others := by
  cases hstep : edit.applyTo buffer with
  | error cause =>
      rw [runAll_cons_of_error rest hstep] at h
      cases h
  | ok made =>
      obtain ⟨next, done⟩ := made
      rw [runAll_cons_of_ok rest hstep] at h
      injection h with hbuffer happlied hfailure
      refine ⟨next, done, (runAll next rest).applied, rfl, ?_, happlied.symm⟩
      rw [← hbuffer, ← hfailure]

/-- After a run that reached its end, a run over further changes goes on from where it came. -/
theorem runAll_append {changed : β} {applied : List AppliedEdit} {first : List Numbered}
    (second : List Numbered) (h : runAll buffer first = ⟨changed, applied, none⟩) :
    runAll buffer (first ++ second) =
      ⟨(runAll changed second).buffer, applied ++ (runAll changed second).applied,
        (runAll changed second).failure⟩ := by
  induction first generalizing buffer applied with
  | nil =>
      cases h
      rfl
  | cons edit rest ih =>
      obtain ⟨next, done, others, hstep, hrest, rfl⟩ := exists_step_of_runAll_cons h
      rw [List.cons_append, runAll_cons_of_ok _ hstep, ih hrest]
      rfl

/-- No change of a run that reached its end ends past the largest offset. -/
theorem stop_le_of_runAll {edits : List Numbered} (h : (runAll buffer edits).failure = none) :
    ∀ edit ∈ edits, edit.patch.stop ≤ maxOffset := by
  induction edits generalizing buffer with
  | nil => simp
  | cons first rest ih =>
      cases hstep : first.applyTo buffer with
      | error cause =>
          rw [runAll_cons_of_error rest hstep] at h
          cases h
      | ok made =>
          obtain ⟨next, done⟩ := made
          rw [runAll_cons_of_ok rest hstep] at h
          intro edit hedit
          rcases List.mem_cons.1 hedit with rfl | hmem
          · exact (Numbered.fits_of_applyTo hstep).1
          · exact ih h edit hmem

end AnyBuffer

section Faithful

variable {β : Type} [TextBuffer β] [FaithfulBuffer β] {buffer : β} {edit : Numbered}

theorem Numbered.applyTo_of_fits (hwritable : Writable buffer)
    (h : edit.change.span.FitsIn (chars buffer).length) :
    ∃ changed, edit.applyTo buffer = .ok (changed, edit.record (chars buffer)) ∧
      Writable changed ∧
      chars changed =
        splice (chars buffer) edit.patch.start edit.patch.stop edit.patch.put := by
  obtain ⟨changed, hreplace, hopen, hchars⟩ :=
    FaithfulBuffer.replace_of_fits hwritable edit.change.newText h
  have hstop : ∃ stop ∈ edit.change.span.stop?, stop ≤ TextBuffer.length buffer := by
    rw [FaithfulBuffer.length_eq]
    exact Span.exists_stop_le_iff.2 h
  have hslice := FaithfulBuffer.slice?_of_fits h
  refine ⟨changed, ?_, hopen, hchars⟩
  simp only [Numbered.applyTo, if_pos hstop, hreplace, hslice, Option.getD_some]
  rfl

theorem Numbered.applyTo_of_guarded (hguarded : ¬ Writable buffer)
    (h : edit.change.span.FitsIn (chars buffer).length) :
    edit.applyTo buffer = .error (.refused edit.index .readOnly) := by
  have hstop : ∃ stop ∈ edit.change.span.stop?, stop ≤ TextBuffer.length buffer := by
    rw [FaithfulBuffer.length_eq]
    exact Span.exists_stop_le_iff.2 h
  simp only [Numbered.applyTo, if_pos hstop, FaithfulBuffer.replace_of_guarded _ _ _ hguarded]

/-- A change that is made splices its text in, and what is written down about it is its record. -/
theorem Numbered.record_of_applyTo {changed : β} {done : AppliedEdit}
    (h : edit.applyTo buffer = .ok (changed, done)) :
    done = edit.record (chars buffer) ∧
      edit.patch.stop ≤ (chars buffer).length ∧
      chars changed =
        splice (chars buffer) edit.patch.start edit.patch.stop edit.patch.put := by
  have hfits := Numbered.fits_of_applyTo h
  rw [FaithfulBuffer.length_eq] at hfits
  by_cases hwritable : Writable buffer
  · obtain ⟨made, hmade, _, hchars⟩ := Numbered.applyTo_of_fits hwritable hfits
    rw [h] at hmade
    cases hmade
    exact ⟨rfl, hfits.2, hchars⟩
  · rw [Numbered.applyTo_of_guarded hwritable hfits] at h
    cases h

/-- A run from the last patch to the first carries them all out at once.  When a change is made,
those behind it have left everything up to its end as it was, so it still finds the characters
that it refers to. -/
theorem runAll_reverse {edits : List Numbered} (hwritable : Writable buffer)
    (hmax : ∀ edit ∈ edits, edit.patch.stop ≤ maxOffset)
    (hchain : Range.Chain 0 (chars buffer).length
      ((edits.map Numbered.patch).map Patch.toRange)) :
    ∃ changed, runAll buffer edits.reverse =
        ⟨changed, (edits.map (Numbered.record (chars buffer))).reverse, none⟩ ∧
      Writable changed ∧
      chars changed = substitute (chars buffer) (edits.map Numbered.patch) := by
  induction edits with
  | nil => exact ⟨buffer, rfl, hwritable, rfl⟩
  | cons edit rest ih =>
      have hrest := hchain.2.2
      obtain ⟨live, hrun, hopen, hlive⟩ :=
        ih (fun other hother => hmax other (List.mem_cons_of_mem _ hother))
          (hrest.mono (Nat.zero_le _))
      have hfits : edit.change.span.FitsIn (chars live).length := by
        rw [hlive]
        exact ⟨hmax edit List.mem_cons_self, le_length_substitute hrest⟩
      obtain ⟨changed, hstep, hdone, hchanged⟩ := Numbered.applyTo_of_fits hopen hfits
      -- The deleted characters are those of the original text: the live one agrees so far.
      have hrecord : edit.record (chars live) = edit.record (chars buffer) := by
        rw [Numbered.record, hlive, excerpt_substitute (Nat.le_refl _) hrest]
        rfl
      refine ⟨changed, ?_, hdone, ?_⟩
      · rw [List.reverse_cons, runAll_append [edit] hrun, runAll_cons_of_ok [] hstep, hrecord]
        simp [runAll]
      · rw [hchanged, hlive, List.map_cons, substitute_cons hchain]

/-- The check over lengths goes as a run over a writable buffer does, and such a run never fails
for a reason of the buffer. -/
theorem validateAll_eq (hwritable : Writable buffer) (edits : List Numbered) :
    (validateAll (TextBuffer.length buffer) edits = .ok () ∧
        (runAll buffer edits).failure = none) ∨
      ∃ index span length,
        validateAll (TextBuffer.length buffer) edits = .error (.outOfBounds index span length) ∧
        (runAll buffer edits).failure = some (.outOfBounds index span length) := by
  induction edits generalizing buffer with
  | nil => exact Or.inl ⟨rfl, rfl⟩
  | cons edit rest ih =>
      by_cases hfits : edit.change.span.FitsIn (chars buffer).length
      · obtain ⟨changed, hstep, hopen, hchanged⟩ := Numbered.applyTo_of_fits hwritable hfits
        have hlength : TextBuffer.length changed =
            TextBuffer.length buffer - edit.change.span.length + edit.change.insertedLength := by
          have hstop : edit.patch.stop ≤ (chars buffer).length := hfits.2
          rw [FaithfulBuffer.length_eq, FaithfulBuffer.length_eq, hchanged,
            length_splice edit.patch_start_le hstop, edit.patch_width, edit.length_put]
        have hstop : ∃ stop ∈ edit.change.span.stop?, stop ≤ TextBuffer.length buffer := by
          rw [FaithfulBuffer.length_eq]
          exact Span.exists_stop_le_iff.2 hfits
        have hcheck : validateAll (TextBuffer.length buffer) (edit :: rest) =
            validateAll (TextBuffer.length changed) rest := by
          rw [validateAll, hlength]
          exact if_pos hstop
        rw [hcheck, runAll_cons_of_ok rest hstep]
        exact ih hopen
      · rw [← FaithfulBuffer.length_eq] at hfits
        refine Or.inr ⟨edit.index, edit.change.span, TextBuffer.length buffer, ?_, ?_⟩
        · rw [validateAll]
          exact if_neg (mt Span.exists_stop_le_iff.1 hfits)
        · rw [runAll_cons_of_error rest (Numbered.applyTo_of_not_fits hfits)]

end Faithful

end TextEditing
