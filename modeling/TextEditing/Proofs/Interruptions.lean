/-
Module: TextEditing.Proofs.Interruptions
Purpose: An application in place that rejects conflicts changes the whole buffer or nothing.
Main exports: ApplyOptions.resolve_outOfBounds, ApplyOptions.applyInPlace_of_first_error,
  ApplyOptions.interrupted_before_any_change
-/
import TextEditing.Proofs.Substitution

namespace TextEditing

open FaithfulBuffer (chars Writable)

/-!
An application in place takes nothing back, yet a failure without conflicts leaves no trace.  The
change made first is the one that begins last, and all others end before it begins.  If it fits,
they fit as well, at that moment and later, so only the change made first can fail.

The argument needs that ends and the length of the text can be compared: an end past `maxOffset`
is taken to be `maxOffset`, which must not be an offset into the text.  Texts held in memory are
shorter, having fewer than 2^63 bytes.
-/

namespace ApplyOptions

variable {β : Type} [TextBuffer β] {options : ApplyOptions} {buffer : β} {edits : Batch}

/-- A span that is out of range before any change does not fit into the text as it is measured in
the unit of the batch, which is not the character. -/
theorem resolve_outOfBounds [FaithfulBuffer β] {index length : Nat} {span : Span}
    (hbound : (chars buffer).length ≤ maxOffset)
    (h : options.resolve buffer edits = .error (.outOfBounds index span length)) :
    options.unit ≠ .character ∧ length = options.unit.measure (chars buffer) := by
  rcases resolve_cases options buffer edits with
    ⟨cause, hchars, hresolve⟩ | ⟨resolved, cause, _, _, hconflict, hresolve⟩ |
      ⟨resolved, _, _, hresolve⟩
  · rw [hresolve] at h
    cases h
    obtain ⟨hunit, ⟨_, _, hcause⟩ | ⟨_, _, hcause⟩⟩ := Batch.toCharacters_error hchars
    · cases hcause
      rw [FaithfulBuffer.contents_eq buffer hbound, String.toList_ofList]
      exact ⟨hunit, rfl⟩
    · cases hcause
  · rw [hresolve] at h
    cases h
    unfold Batch.rejectConflict at hconflict
    split at hconflict
    · cases hconflict
    · cases hconflict
  · rw [hresolve] at h
    cases h

/-- If already the first change fails, nothing has been changed. -/
theorem applyInPlace_of_first_error {resolved : Batch} {last : Numbered}
    {others : List Numbered} {cause : ApplyError}
    (hresolve : options.resolve buffer edits = .ok resolved)
    (horder : resolved.applicationOrder = last :: others)
    (hstep : last.applyTo buffer = .error cause) :
    options.applyInPlace buffer edits = ⟨buffer, .error ⟨0, cause⟩⟩ := by
  have hrun : runAll buffer resolved.applicationOrder = ⟨buffer, [], some cause⟩ := by
    rw [horder, runAll_cons_of_error others hstep]
  rw [applyInPlace_of_failure hresolve (by rw [hrun]), hrun]
  rfl

variable [FaithfulBuffer β]

/-- Compatible changes all fit if the one made first does. -/
theorem fits_of_first {resolved : Batch} {last : Numbered}
    (hbound : (chars buffer).length < maxOffset) (hcompatible : resolved.Compatible)
    (hmem : last ∈ Batch.numbered resolved)
    (hlast : ∀ edit ∈ Batch.numbered resolved, edit = last ∨ edit.Before last)
    (hfits : last.change.span.FitsIn (chars buffer).length) :
    resolved.Fits (chars buffer).length := by
  apply Batch.fits_of_last hcompatible hmem hlast hfits
  intro edit hedit
  rcases hlast edit hedit with rfl | hbefore
  · exact hfits.1
  · have hreach : edit.reach ≤ last.start := hcompatible edit hedit last hmem hbefore
    have hstart : last.start ≤ (chars buffer).length :=
      Nat.le_trans last.patch_start_le hfits.2
    apply Span.stop_le_of_reach_lt
    calc edit.reach ≤ last.start := hreach
      _ ≤ (chars buffer).length := hstart
      _ < maxOffset := hbound

/-- When an application in place without conflicts fails, no change had been made and the buffer
is the one given.  A span reported as out of bounds is reported with the length of the text in the
unit of the batch, and in characters it belongs to the last change by start and position. -/
theorem interrupted_before_any_change {unit : OffsetUnit} {interruption : Interruption}
    (hbound : (chars buffer).length < maxOffset)
    (h : (applyInPlace ⟨.reject, unit⟩ buffer edits).result = .error interruption) :
    interruption.applied = 0 ∧
      (applyInPlace ⟨.reject, unit⟩ buffer edits).buffer = buffer ∧
      ∀ index span length, interruption.cause = .outOfBounds index span length →
        length = unit.measure (chars buffer) ∧
        (unit = .character → ∃ last ∈ edits.numbered, last.index = index ∧
          last.change.span = span ∧
          ∀ edit ∈ edits.numbered, edit = last ∨ edit.Before last) := by
  cases hresolve : resolve ⟨.reject, unit⟩ buffer edits with
  | error cause =>
      rw [applyInPlace_of_resolve_error hresolve] at h ⊢
      cases h
      refine ⟨rfl, rfl, ?_⟩
      rintro index span length rfl
      obtain ⟨hunit, hlength⟩ := resolve_outOfBounds (Nat.le_of_lt hbound) hresolve
      exact ⟨hlength, fun hcharacter => absurd hcharacter hunit⟩
  | ok resolved =>
      obtain ⟨hchars, hnone⟩ := resolve_eq_ok_iff.1 hresolve
      have hcompatible := (Batch.conflict?_eq_none_iff resolved).1 (hnone rfl)
      rcases Batch.applicationOrder_cases resolved with
        rfl | ⟨last, others, hmem, horder, hlast⟩
      · rw [applyInPlace_of_no_failure hresolve (by rw [Batch.applicationOrder_nil]; rfl)] at h
        cases h
      · by_cases hfits : last.change.span.FitsIn (chars buffer).length
        · by_cases hwritable : Writable buffer
          · -- All changes fit and are made, so there is no failure.
            obtain ⟨changed, hplace, _⟩ := applyInPlace_of_fits hwritable hresolve hcompatible
              (fits_of_first hbound hcompatible hmem hlast hfits)
            rw [hplace] at h
            cases h
          · have hstep := Numbered.applyTo_of_guarded hwritable hfits
            rw [applyInPlace_of_first_error hresolve horder hstep] at h ⊢
            cases h
            exact ⟨rfl, rfl, fun _ _ _ hcause => nomatch hcause⟩
        · have hlength := FaithfulBuffer.length_eq buffer
          have hstep := Numbered.applyTo_of_not_fits (hlength ▸ hfits)
          rw [applyInPlace_of_first_error hresolve horder hstep] at h ⊢
          cases h
          refine ⟨rfl, rfl, ?_⟩
          intro index span length hcause
          cases hcause
          by_cases hunit : unit = .character
          · subst hunit
            cases hchars
            exact ⟨by rw [hlength, OffsetUnit.measure_character],
              fun _ => ⟨last, hmem, rfl, rfl, hlast⟩⟩
          · -- A converted span lies inside the text.
            have hstop := Batch.toCharacters_stop_le hunit hchars last.change
              (Batch.numbered_change_mem hmem)
            rw [FaithfulBuffer.contents_eq buffer (Nat.le_of_lt hbound),
              String.toList_ofList] at hstop
            exact absurd ⟨Nat.le_trans hstop (Nat.le_of_lt hbound), hstop⟩ hfits

/-- The last of three changes does not fit, which is found before the others are made. -/
theorem interrupted_before_any_change_by_long_deletion :
    (chars "abcdefgh").length < maxOffset ∧
      (applyInPlace ⟨.reject, .character⟩ "abcdefgh"
        [.insert 6 "x", .replace 2 1 "long", .delete 6 9]).result =
          .error ⟨0, .outOfBounds 2 ⟨6, 9⟩ 8⟩ ∧
      (applyInPlace ⟨.reject, .character⟩ "abcdefgh"
        [.insert 6 "x", .replace 2 1 "long", .delete 6 9]).buffer = "abcdefgh" := by
  have hbound : (chars "abcdefgh").length < maxOffset := by decide
  have hresult : (applyInPlace ⟨.reject, .character⟩ "abcdefgh"
      [.insert 6 "x", .replace 2 1 "long", .delete 6 9]).result =
        .error ⟨0, .outOfBounds 2 ⟨6, 9⟩ 8⟩ := by cbv
  exact ⟨hbound, hresult, (interrupted_before_any_change hbound hresult).2.1⟩

end ApplyOptions

end TextEditing
