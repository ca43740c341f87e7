/-
Module: TextEditing.Proofs.EntryPoints
Purpose: The ways to apply a batch, or only to check it, agree.
Main exports: Outcome.Succeeds, ApplyOptions.resolve_eq_ok_iff, ApplyOptions.apply_eq,
  ApplyOptions.apply_eq_ok_iff, ApplyOptions.entryPoints_agree
-/
import Mathlib
import TextEditing.Proofs.OffsetTable
import TextEditing.Proofs.Runs
import TextEditing.Proofs.ScanOrder

namespace TextEditing

open FaithfulBuffer (Writable)

theorem Batch.rejectConflict_eq_ok_iff {edits : Batch} :
    edits.rejectConflict = .ok () ↔ edits.conflict? = none := by
  unfold Batch.rejectConflict
  cases edits.conflict? with
  | none => simp
  | some conflict => simp

theorem Batch.rejectConflict_ne_refused {edits : Batch} {index : Nat} {source : BufferError} :
    edits.rejectConflict ≠ .error (.refused index source) := by
  unfold Batch.rejectConflict
  cases edits.conflict? with
  | none => simp
  | some conflict => simp

/-- The operation has reached its end. -/
def Outcome.Succeeds {β ε : Type} (outcome : Outcome β ε) : Prop :=
  ∃ delta, outcome.result = .ok delta

namespace ApplyOptions

variable {β : Type} [TextBuffer β] {options : ApplyOptions} {buffer : β} {edits : Batch}

/-- A batch is refused because it has no counterpart in characters, or because of a conflict among
its changes in characters; or it is ready to be applied. -/
theorem resolve_cases (options : ApplyOptions) (buffer : β) (edits : Batch) :
    (∃ cause, edits.toCharacters options.unit (TextBuffer.contents buffer) = .error cause ∧
        options.resolve buffer edits = .error cause) ∨
      (∃ resolved cause,
        edits.toCharacters options.unit (TextBuffer.contents buffer) = .ok resolved ∧
        options.overlap = .reject ∧ resolved.rejectConflict = .error cause ∧
        options.resolve buffer edits = .error cause) ∨
      ∃ resolved,
        edits.toCharacters options.unit (TextBuffer.contents buffer) = .ok resolved ∧
        (options.overlap = .reject → resolved.conflict? = none) ∧
        options.resolve buffer edits = .ok resolved := by
  unfold resolve
  cases hchars : edits.toCharacters options.unit (TextBuffer.contents buffer) with
  | error cause => exact Or.inl ⟨cause, rfl, rfl⟩
  | ok resolved =>
      right
      by_cases hreject : options.overlap = .reject
      · simp only [bind, Except.bind, if_pos hreject]
        cases hconflict : resolved.rejectConflict with
        | error cause => exact Or.inl ⟨resolved, cause, rfl, hreject, hconflict, rfl⟩
        | ok _ =>
            have hnone := Batch.rejectConflict_eq_ok_iff.1 hconflict
            exact Or.inr ⟨resolved, rfl, fun _ => hnone, rfl⟩
      · simp only [bind, Except.bind, if_neg hreject]
        exact Or.inr ⟨resolved, rfl, fun h => absurd h hreject, rfl⟩

theorem resolve_eq_ok_iff {resolved : Batch} :
    options.resolve buffer edits = .ok resolved ↔
      edits.toCharacters options.unit (TextBuffer.contents buffer) = .ok resolved ∧
        (options.overlap = .reject → resolved.conflict? = none) := by
  rcases resolve_cases options buffer edits with
    ⟨cause, hchars, hresolve⟩ | ⟨batch, cause, hchars, hreject, hconflict, hresolve⟩ |
      ⟨batch, hchars, hnone, hresolve⟩
  · simp [hchars, hresolve]
  · rw [hchars, hresolve]
    constructor
    · intro h
      cases h
    · rintro ⟨hbatch, hnone⟩
      cases hbatch
      rw [Batch.rejectConflict_eq_ok_iff.2 (hnone hreject)] at hconflict
      cases hconflict
  · rw [hchars, hresolve]
    constructor
    · intro h
      cases h
      exact ⟨rfl, hnone⟩
    · rintro ⟨hbatch, _⟩
      exact hbatch

theorem resolve_ne_refused {index : Nat} {source : BufferError} :
    options.resolve buffer edits ≠ .error (.refused index source) := by
  intro h
  rcases resolve_cases options buffer edits with
    ⟨cause, hchars, hresolve⟩ | ⟨resolved, cause, _, _, hconflict, hresolve⟩ |
      ⟨resolved, _, _, hresolve⟩
  · rw [hresolve] at h
    cases h
    rcases (Batch.toCharacters_error hchars).2 with ⟨_, _, hcause⟩ | ⟨_, _, hcause⟩
    · cases hcause
    · cases hcause
  · rw [hresolve] at h
    cases h
    exact Batch.rejectConflict_ne_refused hconflict
  · rw [hresolve] at h
    cases h

theorem applyInPlace_of_resolve_error {cause : ApplyError}
    (h : options.resolve buffer edits = .error cause) :
    options.applyInPlace buffer edits = ⟨buffer, .error ⟨0, cause⟩⟩ := by
  rw [applyInPlace, h]

theorem applyInPlace_of_failure {resolved : Batch} {cause : ApplyError}
    (h : options.resolve buffer edits = .ok resolved)
    (hrun : (runAll buffer resolved.applicationOrder).failure = some cause) :
    options.applyInPlace buffer edits =
      ⟨(runAll buffer resolved.applicationOrder).buffer,
        .error ⟨(runAll buffer resolved.applicationOrder).applied.length, cause⟩⟩ := by
  simp only [applyInPlace, h, hrun]

theorem applyInPlace_of_no_failure {resolved : Batch}
    (h : options.resolve buffer edits = .ok resolved)
    (hrun : (runAll buffer resolved.applicationOrder).failure = none) :
    options.applyInPlace buffer edits =
      ⟨(runAll buffer resolved.applicationOrder).buffer,
        .ok ⟨TextBuffer.length buffer,
          TextBuffer.length (runAll buffer resolved.applicationOrder).buffer,
          (runAll buffer resolved.applicationOrder).applied⟩⟩ := by
  simp only [applyInPlace, h, hrun]

/-- A delta holds the records of a run that reached its end, and the lengths before and after. -/
theorem exists_run_of_ok {delta : Delta}
    (h : (options.applyInPlace buffer edits).result = .ok delta) :
    ∃ resolved,
      options.resolve buffer edits = .ok resolved ∧
      runAll buffer resolved.applicationOrder =
        ⟨(options.applyInPlace buffer edits).buffer, delta.edits, none⟩ ∧
      delta.beforeCount = TextBuffer.length buffer ∧
      delta.afterCount = TextBuffer.length (options.applyInPlace buffer edits).buffer := by
  cases hresolve : options.resolve buffer edits with
  | error cause =>
      rw [applyInPlace_of_resolve_error hresolve] at h
      cases h
  | ok resolved =>
      cases hrun : (runAll buffer resolved.applicationOrder).failure with
      | some cause =>
          rw [applyInPlace_of_failure hresolve hrun] at h
          cases h
      | none =>
          rw [applyInPlace_of_no_failure hresolve hrun] at h ⊢
          cases h
          refine ⟨resolved, rfl, ?_, rfl, rfl⟩
          rw [← hrun]

/-- Without changes there is nothing to convert, no conflict and nothing to run. -/
theorem applyInPlace_nil (options : ApplyOptions) (buffer : β) :
    options.applyInPlace buffer [] =
      ⟨buffer, .ok ⟨TextBuffer.length buffer, TextBuffer.length buffer, []⟩⟩ := by
  have hresolve : options.resolve buffer [] = .ok [] := by
    have hchars : Batch.toCharacters [] options.unit (TextBuffer.contents buffer) = .ok [] := by
      unfold Batch.toCharacters
      split <;> rfl
    have hconflict : Batch.rejectConflict [] = .ok () :=
      Batch.rejectConflict_eq_ok_iff.2 Batch.conflict?_nil
    simp [resolve, hchars, hconflict, bind, Except.bind, pure, Except.pure]
  rw [applyInPlace_of_no_failure hresolve (by rw [Batch.applicationOrder_nil]; rfl),
    Batch.applicationOrder_nil]
  rfl

/-- Applying as a whole is applying in place, with the buffer kept as it was on failure. -/
theorem apply_eq (options : ApplyOptions) (buffer : β) (edits : Batch) :
    options.apply buffer edits =
      match (options.applyInPlace buffer edits).result with
      | .ok delta => ⟨(options.applyInPlace buffer edits).buffer, .ok delta⟩
      | .error interruption => ⟨buffer, .error interruption.cause⟩ := by
  cases edits with
  | nil => rw [applyInPlace_nil, apply, if_pos List.isEmpty_nil]
  | cons change rest =>
      have hfull : ¬ (change :: rest).isEmpty = true := by simp
      exact if_neg hfull

theorem apply_eq_ok_iff {changed : β} {delta : Delta} :
    options.apply buffer edits = ⟨changed, .ok delta⟩ ↔
      options.applyInPlace buffer edits = ⟨changed, .ok delta⟩ := by
  rw [apply_eq]
  obtain ⟨left, result⟩ := options.applyInPlace buffer edits
  cases result with
  | error interruption => simp
  | ok made => simp

theorem apply_of_error {left : β} {interruption : Interruption}
    (h : options.applyInPlace buffer edits = ⟨left, .error interruption⟩) :
    options.apply buffer edits = ⟨buffer, .error interruption.cause⟩ := by
  rw [apply_eq, h]

theorem apply_succeeds_iff :
    (options.apply buffer edits).Succeeds ↔ (options.applyInPlace buffer edits).Succeeds := by
  rw [apply_eq]
  cases h : (options.applyInPlace buffer edits).result with
  | error interruption => simp [Outcome.Succeeds, h]
  | ok delta => simp [Outcome.Succeeds, h]

theorem validate_of_resolve_error {cause : ApplyError}
    (h : options.resolve buffer edits = .error cause) :
    options.validate buffer edits = .error cause := by
  rw [validate, h]
  rfl

theorem validate_of_resolve_ok {resolved : Batch}
    (h : options.resolve buffer edits = .ok resolved) :
    options.validate buffer edits =
      validateAll (TextBuffer.length buffer) resolved.applicationOrder := by
  rw [validate, h]
  rfl

/-- Checking a batch, applying it as a whole and applying it in place succeed or fail together on
a writable buffer, with the same error or with the same delta and the same buffer.  An error
leaves the buffer of the application as a whole untouched, and is never a refusal of the buffer.
Under the default options the application that hands the buffer back does the same. -/
theorem entryPoints_agree [FaithfulBuffer β] (options : ApplyOptions) (buffer : β)
    (edits : Batch) (hwritable : Writable buffer) :
    (∃ cause left applied,
        options.validate buffer edits = .error cause ∧
        options.apply buffer edits = ⟨buffer, .error cause⟩ ∧
        options.applyInPlace buffer edits = ⟨left, .error ⟨applied, cause⟩⟩ ∧
        (options = {} → edits.applyTo buffer = .error cause) ∧
        ∀ index source, cause ≠ .refused index source) ∨
      ∃ changed delta,
        options.validate buffer edits = .ok () ∧
        options.apply buffer edits = ⟨changed, .ok delta⟩ ∧
        options.applyInPlace buffer edits = ⟨changed, .ok delta⟩ ∧
        (options = {} → edits.applyTo buffer = .ok changed) := by
  have hdefault : options = {} →
      edits.applyTo buffer =
        match (options.applyInPlace buffer edits).result with
        | .ok _ => .ok (options.applyInPlace buffer edits).buffer
        | .error interruption => .error interruption.cause := by
    rintro rfl
    rfl
  cases hresolve : options.resolve buffer edits with
  | error cause =>
      have hplace := applyInPlace_of_resolve_error hresolve
      refine Or.inl ⟨cause, buffer, 0, validate_of_resolve_error hresolve,
        apply_of_error hplace, hplace, ?_, ?_⟩
      · intro h
        rw [hdefault h, hplace]
      · rintro index source rfl
        exact resolve_ne_refused hresolve
  | ok resolved =>
      have hvalidate := validate_of_resolve_ok hresolve
      rcases validateAll_eq hwritable resolved.applicationOrder with
        ⟨hcheck, hrun⟩ | ⟨index, span, length, hcheck, hrun⟩
      · have hplace := applyInPlace_of_no_failure hresolve hrun
        refine Or.inr ⟨_, _, hvalidate.trans hcheck, apply_eq_ok_iff.2 hplace, hplace, ?_⟩
        intro h
        rw [hdefault h, hplace]
      · have hplace := applyInPlace_of_failure hresolve hrun
        refine Or.inl ⟨_, _, _, hvalidate.trans hcheck, apply_of_error hplace, hplace, ?_, ?_⟩
        · intro h
          rw [hdefault h, hplace]
        · intro other source h
          cases h

/-- Overlapping changes, of which the later one has shrunk the document under the earlier one. -/
theorem entryPoints_agree_on_shrunk_document :
    Writable (Document.ofString "0123456789") ∧
      ∃ cause left applied,
        validate ⟨.allow, .character⟩ (Document.ofString "0123456789")
          [.delete 6 4, .replace 2 7 "Q"] = .error cause ∧
        apply ⟨.allow, .character⟩ (Document.ofString "0123456789")
          [.delete 6 4, .replace 2 7 "Q"] = ⟨Document.ofString "0123456789", .error cause⟩ ∧
        applyInPlace ⟨.allow, .character⟩ (Document.ofString "0123456789")
          [.delete 6 4, .replace 2 7 "Q"] = ⟨left, .error ⟨applied, cause⟩⟩ ∧
        cause = .outOfBounds 1 ⟨2, 7⟩ 6 := by
  refine ⟨rfl, ?_⟩
  have hvalidate : validate ⟨.allow, .character⟩ (Document.ofString "0123456789")
      [.delete 6 4, .replace 2 7 "Q"] = .error (.outOfBounds 1 ⟨2, 7⟩ 6) := by cbv
  rcases entryPoints_agree ⟨.allow, .character⟩ (Document.ofString "0123456789")
      [.delete 6 4, .replace 2 7 "Q"] rfl with
    ⟨cause, left, applied, hcheck, hwhole, hplace, _⟩ | ⟨changed, delta, hcheck, _⟩
  · refine ⟨cause, left, applied, hcheck, hwhole, hplace, ?_⟩
    rw [hvalidate] at hcheck
    exact (Except.error.inj hcheck).symm
  · rw [hvalidate] at hcheck
    cases hcheck

end ApplyOptions

end TextEditing
