/-
Module: TextEditing.Proofs.PartialProgress
Purpose: What an application in place has done when it stops early.
Main exports: Numbered.applyTo_error, runAll_take_of_failure, ApplyOptions.resolve_keep,
  ApplyOptions.applyInPlace_unchanged, ApplyOptions.interrupted_after_prefix
-/
import TextEditing.Buffer.Rationed
import TextEditing.Proofs.Renumbering

namespace TextEditing

/-!
A run that fails has made the changes in front of the one that failed, and none of the others.  The
changes made form a batch of their own: its conversion, its conflicts and its order are those of the
whole batch, so applying it alone goes through the same states and reaches the end.  Nothing is
assumed about the buffer except that a refused replacement gives back no buffer.
-/

section Run

variable {β : Type} [TextBuffer β] {buffer : β}

/-- A change fails because its span does not fit, or because the buffer refuses it. -/
theorem Numbered.applyTo_error {edit : Numbered} {cause : ApplyError}
    (h : edit.applyTo buffer = .error cause) :
    (∃ length, cause = .outOfBounds edit.index edit.change.span length) ∨
      ∃ source, cause = .refused edit.index source := by
  simp only [applyTo] at h
  split at h
  · cases hreplace : TextBuffer.replace buffer edit.change.span.start edit.change.span.length
        edit.change.newText with
    | error source =>
        rw [hreplace] at h
        cases h
        exact Or.inr ⟨source, rfl⟩
    | ok changed =>
        rw [hreplace] at h
        cases h
  · cases h
    exact Or.inl ⟨_, rfl⟩

/-- A run that fails has reached the end of the changes in front of the one that fails. -/
theorem runAll_take_of_failure {edits : List Numbered} {cause : ApplyError}
    (h : (runAll buffer edits).failure = some cause) :
    ∃ edit, edits[(runAll buffer edits).applied.length]? = some edit ∧
      edit.applyTo (runAll buffer edits).buffer = .error cause ∧
      runAll buffer (edits.take (runAll buffer edits).applied.length) =
        ⟨(runAll buffer edits).buffer, (runAll buffer edits).applied, none⟩ := by
  induction edits generalizing buffer with
  | nil => cases h
  | cons first rest ih =>
      cases hstep : first.applyTo buffer with
      | error source =>
          rw [runAll_cons_of_error rest hstep] at h ⊢
          cases h
          exact ⟨first, rfl, hstep, rfl⟩
      | ok made =>
          obtain ⟨changed, done⟩ := made
          rw [runAll_cons_of_ok rest hstep] at h ⊢
          obtain ⟨edit, hedit, hfails, hprefix⟩ := ih h
          refine ⟨edit, hedit, hfails, ?_⟩
          rw [List.length_cons, List.take_succ_cons, runAll_cons_of_ok _ hstep, hprefix]

end Run

namespace ApplyOptions

variable {β : Type} [TextBuffer β] {options : ApplyOptions} {buffer : β} {edits : Batch}

/-- A part of a batch that is ready to be applied is ready as well. -/
theorem resolve_keep {resolved : Batch} (h : options.resolve buffer edits = .ok resolved)
    (positions : List Nat) :
    options.resolve buffer (edits.keep positions) = .ok (resolved.keep positions) := by
  obtain ⟨hchars, hnone⟩ := resolve_eq_ok_iff.1 h
  rw [resolve_eq_ok_iff]
  refine ⟨Batch.toCharacters_keep hchars positions, ?_⟩
  intro hreject
  have hcompatible := (Batch.conflict?_eq_none_iff resolved).1 (hnone hreject)
  exact (Batch.conflict?_eq_none_iff _).2 (Batch.compatible_keep hcompatible positions)

/-- A batch ready to be applied keeps its order of application. -/
theorem map_index_applicationOrder {resolved : Batch}
    (h : options.resolve buffer edits = .ok resolved) :
    resolved.applicationOrder.map Numbered.index = edits.applicationOrder.map Numbered.index :=
  Batch.map_index_applicationOrder_restate (resolve_eq_ok_iff.1 h).1

/-- If a run over the first changes in the order of application reaches the end, so does the
application of just these changes. -/
theorem exists_applyInPlace_keep {resolved : Batch} {count : Nat} {changed : β}
    {applied : List AppliedEdit} (hresolve : options.resolve buffer edits = .ok resolved)
    (hrun : runAll buffer (resolved.applicationOrder.take count) = ⟨changed, applied, none⟩) :
    ∃ delta,
      options.applyInPlace buffer
          (edits.keep ((edits.applicationOrder.map Numbered.index).take count)) =
        ⟨changed, .ok delta⟩ := by
  rw [← map_index_applicationOrder hresolve]
  have hready := resolve_keep hresolve ((resolved.applicationOrder.map Numbered.index).take count)
  obtain ⟨renumbered, hpart⟩ : ∃ renumbered, runAll buffer (Batch.applicationOrder
      (resolved.keep ((resolved.applicationOrder.map Numbered.index).take count))) =
        ⟨changed, renumbered, none⟩ := by
    rw [Batch.applicationOrder_keep, Batch.filter_applicationOrder_take, runAll_renumber, hrun]
    exact ⟨_, rfl⟩
  have hplace := applyInPlace_of_no_failure hready (by rw [hpart])
  rw [hpart] at hplace
  exact ⟨_, hplace⟩

/-- An application in place that stops in front of the first change leaves the buffer as it was. -/
theorem applyInPlace_unchanged {cause : ApplyError}
    (h : (options.applyInPlace buffer edits).result = .error ⟨0, cause⟩) :
    (options.applyInPlace buffer edits).buffer = buffer := by
  cases hresolve : options.resolve buffer edits with
  | error fault => rw [applyInPlace_of_resolve_error hresolve]
  | ok resolved =>
      cases hrun : (runAll buffer resolved.applicationOrder).failure with
      | none =>
          rw [applyInPlace_of_no_failure hresolve hrun] at h
          cases h
      | some fault =>
          obtain ⟨_, _, _, hprefix⟩ := runAll_take_of_failure hrun
          rw [applyInPlace_of_failure hresolve hrun] at h ⊢
          injection h with hinterruption
          injection hinterruption with hzero _
          rw [hzero, List.take_zero] at hprefix
          exact (congrArg Run.buffer hprefix).symm

/-- When an application in place stops early, either nothing has been changed; or the error is about
the next change in the order of application, which does not fit or is refused, and the buffer is the
one that results from applying just the changes in front of it. -/
theorem interrupted_after_prefix (options : ApplyOptions) (buffer : β) (edits : Batch)
    {interruption : Interruption}
    (h : (options.applyInPlace buffer edits).result = .error interruption) :
    (interruption.applied = 0 ∧ (options.applyInPlace buffer edits).buffer = buffer) ∨
      (0 < interruption.applied ∧
        (edits.applicationOrder.map Numbered.index)[interruption.applied]? =
          some interruption.cause.index ∧
        ((∃ index span length, interruption.cause = .outOfBounds index span length) ∨
          ∃ index source, interruption.cause = .refused index source) ∧
        ∃ delta,
          options.applyInPlace buffer
              (edits.keep
                ((edits.applicationOrder.map Numbered.index).take interruption.applied)) =
            ⟨(options.applyInPlace buffer edits).buffer, .ok delta⟩) := by
  obtain ⟨applied, cause⟩ := interruption
  rcases Nat.eq_zero_or_pos applied with rfl | hpos
  · exact Or.inl ⟨rfl, applyInPlace_unchanged h⟩
  · cases hresolve : options.resolve buffer edits with
    | error fault =>
        rw [applyInPlace_of_resolve_error hresolve] at h
        cases h
        cases hpos
    | ok resolved =>
        cases hrun : (runAll buffer resolved.applicationOrder).failure with
        | none =>
            rw [applyInPlace_of_no_failure hresolve hrun] at h
            cases h
        | some fault =>
            obtain ⟨edit, hedit, hfails, hprefix⟩ := runAll_take_of_failure hrun
            have hpart := exists_applyInPlace_keep hresolve hprefix
            rw [applyInPlace_of_failure hresolve hrun] at h ⊢
            cases h
            have hindex : (edits.applicationOrder.map Numbered.index)[
                (runAll buffer resolved.applicationOrder).applied.length]? = some edit.index := by
              rw [← map_index_applicationOrder hresolve, List.getElem?_map, hedit]
              rfl
            refine Or.inr ⟨hpos, ?_, ?_, hpart⟩
            · rcases Numbered.applyTo_error hfails with ⟨length, rfl⟩ | ⟨source, rfl⟩
              · exact hindex
              · exact hindex
            · rcases Numbered.applyTo_error hfails with ⟨length, rfl⟩ | ⟨source, rfl⟩
              · exact Or.inl ⟨_, _, _, rfl⟩
              · exact Or.inr ⟨_, _, rfl⟩

/-- A buffer that takes two replacements refuses the deletion of a character of two units; the two
changes behind it, applied alone, give the same text. -/
theorem interrupted_after_prefix_by_ration :
    (applyInPlace ⟨.reject, .utf16⟩ (Rationed.mk "a😀b,c" 2 .readOnly true)
      [.insert 1 "x", .delete 1 2, .insert 3 "y", .replace 4 1 ";"]).result =
        .error ⟨2, .refused 1 .readOnly⟩ ∧
      ∃ delta,
        applyInPlace ⟨.reject, .utf16⟩ (Rationed.mk "a😀b,c" 2 .readOnly true)
          [.insert 3 "y", .replace 4 1 ";"] = ⟨⟨"a😀yb;c", 0, .readOnly, true⟩, .ok delta⟩ := by
  have hresult : (applyInPlace ⟨.reject, .utf16⟩ (Rationed.mk "a😀b,c" 2 .readOnly true)
      [.insert 1 "x", .delete 1 2, .insert 3 "y", .replace 4 1 ";"]).result =
        .error ⟨2, .refused 1 .readOnly⟩ := by cbv
  have hbuffer : (applyInPlace ⟨.reject, .utf16⟩ (Rationed.mk "a😀b,c" 2 .readOnly true)
      [.insert 1 "x", .delete 1 2, .insert 3 "y", .replace 4 1 ";"]).buffer =
        ⟨"a😀yb;c", 0, .readOnly, true⟩ := by cbv
  have hpart : Batch.keep [.insert 1 "x", .delete 1 2, .insert 3 "y", .replace 4 1 ";"]
      ((Batch.applicationOrder [.insert 1 "x", .delete 1 2, .insert 3 "y", .replace 4 1 ";"]).map
        Numbered.index |>.take 2) = [.insert 3 "y", .replace 4 1 ";"] := by cbv
  rcases interrupted_after_prefix _ _ _ hresult with ⟨hzero, _⟩ | ⟨_, _, _, delta, hplace⟩
  · cases hzero
  · rw [hpart, hbuffer] at hplace
    exact ⟨hresult, delta, hplace⟩

end ApplyOptions

end TextEditing
