/-
Module: TextEditing.Proofs.FormattingFrame
Purpose: Formatting a region leaves what lies in front of it and behind it as it was.
Main exports: Change.patch_restate_within, ApplyOptions.applyInPlace_within,
  Formatter.applyInPlace_of_carryOut_ok, Formatter.format_within_region
-/
import TextEditing.Proofs.EncodedSubstitution
import TextEditing.Proofs.FormattingAgreement

namespace TextEditing

open FaithfulBuffer (chars Writable toList_contents)

/-!
The range that a service is sent is the region in its unit, and a change that it answers inside that
range covers characters inside the region, since places in a text are in the order of their offsets.
Changes that succeed without conflicts are carried out at once, and patches between two bounds copy
everything outside of these.  An insertion at a border of the region lies inside of it, whichever
changes are made at the same place.
-/

/-- A change between the offsets of two places covers characters between these places. -/
theorem Change.patch_restate_within {unit : OffsetUnit} {text : String} {change : Change}
    {low high : Nat} (haligned : change.span.AlignedIn unit text.toList)
    (hlow : low ≤ text.toList.length)
    (hstart : unit.measure (text.toList.take low) ≤ change.span.start)
    (hstop : change.span.start + change.span.length ≤ unit.measure (text.toList.take high)) :
    low ≤ (change.restate unit text).patch.start ∧
      (change.restate unit text).patch.stop ≤ high := by
  obtain ⟨first, last, hcovers⟩ := haligned.exists_covers
  have hend : first + (last - first) = last := Nat.add_sub_cancel' hcovers.ordered
  rw [← hcovers.measure_first, OffsetUnit.measure_take_le_iff hlow] at hstart
  rw [← hcovers.measure_last, OffsetUnit.measure_take_le_iff hcovers.inside] at hstop
  rw [restate_of_covers haligned.fits.1 hcovers]
  simp only [patch, replace, hend]
  exact ⟨hstart, hstop⟩

/-- A successful application without conflicts of changes between the offsets of two places leaves
the characters in front of the one and behind the other. -/
theorem ApplyOptions.applyInPlace_within {β : Type} [TextBuffer β] [FaithfulBuffer β]
    {buffer changed : β} {edits : Batch} {unit : OffsetUnit} {delta : Delta} {low high : Nat}
    (hwritable : Writable buffer) (hbound : (chars buffer).length ≤ maxOffset)
    (hle : low ≤ high) (hhigh : high ≤ (chars buffer).length)
    (hwithin : ∀ change ∈ edits,
      unit.measure ((chars buffer).take low) ≤ change.span.start ∧
        change.span.start + change.span.length ≤ unit.measure ((chars buffer).take high))
    (h : applyInPlace ⟨.reject, unit⟩ buffer edits = ⟨changed, .ok delta⟩) :
    ∃ middle, chars changed = (chars buffer).take low ++ middle ++ (chars buffer).drop high := by
  have htext := toList_contents hbound
  obtain ⟨haligned, _⟩ := exists_aligned_of_ok hbound (by rw [h])
  obtain ⟨resolved, hresolve, hcompatible, hfits⟩ := exists_resolved_of_ok (by rw [h])
  obtain ⟨_, hresolved⟩ := Batch.toCharacters_eq_ok_iff.1 (resolve_eq_ok_iff.1 hresolve).1
  obtain ⟨after, hafter, _, hchars⟩ :=
    applyInPlace_of_fits hwritable hresolve hcompatible hfits
  rw [h] at hafter
  cases hafter
  rw [hchars]
  apply exists_substitute_eq_append
  apply (Batch.chain_of_compatible hcompatible hfits).narrow hle
  intro range hrange
  rw [List.map_map] at hrange
  obtain ⟨edit, hedit, rfl⟩ := List.mem_map.1 hrange
  have hmem := Batch.numbered_change_mem (Batch.mem_scanOrder.1 hedit)
  rw [hresolved] at hmem
  obtain ⟨change, hchange, hrestated⟩ := List.mem_map.1 hmem
  obtain ⟨hstart, hstop⟩ := hwithin change hchange
  rw [← htext] at hhigh hstart hstop
  have hinside := Change.patch_restate_within (htext ▸ haligned change hchange)
    (Nat.le_trans hle hhigh) hstart hstop
  rw [hrestated] at hinside
  exact hinside

theorem Outcome.mapError_eq_ok_iff {β ε ε' : Type} {f : ε → ε'} {outcome : Outcome β ε}
    {changed : β} {delta : Delta} :
    outcome.mapError f = ⟨changed, .ok delta⟩ ↔ outcome = ⟨changed, .ok delta⟩ := by
  obtain ⟨buffer, result⟩ := outcome
  cases result with
  | error cause => simp [Outcome.mapError, Except.mapError]
  | ok made => simp [Outcome.mapError, Except.mapError]

namespace Formatter

variable {β : Type} [TextBuffer β] {formatter : Formatter} {buffer changed : β} {mode : FormatMode}
  {request : FormatRequest} {reply : FormatReply} {delta : Delta}

/-- A reply that is carried out with success is a batch that applied in place gives the same. -/
theorem applyInPlace_of_carryOut_ok (htext : request.text = TextBuffer.contents buffer)
    (h : formatter.carryOut mode buffer request reply = ⟨changed, .ok delta⟩) :
    ∃ edits, reply = .ok edits ∧
      formatter.settings.apply.applyInPlace buffer edits = ⟨changed, .ok delta⟩ := by
  cases reply with
  | error reason => cases h
  | ok edits =>
      refine ⟨edits, rfl, ?_⟩
      cases hchars :
          edits.toCharacters formatter.settings.apply.unit (TextBuffer.contents buffer) with
      | error cause =>
          rw [carryOut_of_misfit (htext ▸ hchars)] at h
          cases h
      | ok resolved =>
          by_cases hset : mode = .asSet ∧ formatter.settings.atomic = true
          · obtain ⟨rfl, hatomic⟩ := hset
            rw [carryOut_asSet hatomic htext, Outcome.mapError_eq_ok_iff] at h
            exact ApplyOptions.apply_eq_ok_iff.1 h
          · have hmode : mode = .inPlace ∨ formatter.settings.atomic = false := by
              cases mode with
              | asSet => exact Or.inr (Bool.eq_false_iff.2 fun hatomic => hset ⟨rfl, hatomic⟩)
              | inPlace => exact Or.inl rfl
            rw [carryOut_inPlace hmode htext hchars, Outcome.mapError_eq_ok_iff] at h
            exact h

/-- If the changes answered for a region lie within the range that was sent to the service, then
after a successful formatting that rejects overlaps the text begins and ends as it did, up to the
start of the region and from its end on. -/
theorem format_within_region {σ : Type} [FormatService σ] [FaithfulBuffer β]
    (formatter : Formatter) (mode : FormatMode) (service : σ) (region : Span)
    (hreject : formatter.settings.apply.overlap = .reject)
    (hwritable : Writable buffer) (hbound : (chars buffer).length ≤ maxOffset)
    (hwithin : ∀ request edits,
      (formatter.format mode service buffer region).1.request = some request →
      (FormatService.ask service request).1 = .ok edits →
      ∀ change ∈ edits, request.start ≤ change.span.start ∧
        change.span.start + change.span.length ≤ request.stop)
    (hformat : (formatter.format mode service buffer region).1.outcome = ⟨changed, .ok delta⟩) :
    region.FitsIn (chars buffer).length ∧
      ∃ middle, chars changed =
        (chars buffer).take region.start ++ middle ++
          (chars buffer).drop (region.start + region.length) := by
  cases hrequest : formatter.request buffer region with
  | error cause =>
      rw [format_of_request_error mode service hrequest] at hformat
      cases hformat
  | ok request =>
      rw [format_of_request_ok mode service hrequest] at hformat hwithin
      obtain ⟨hregion, options, _, rfl⟩ := request_eq_ok_iff.1 hrequest
      obtain ⟨edits, hreply, hplace⟩ := applyInPlace_of_carryOut_ok String.ofList_toList hformat
      have hinside := hwithin _ edits rfl hreply
      simp only [requestFor, OffsetUnit.length_encode, toList_contents hbound] at hinside
      rw [toList_contents hbound] at hregion
      have happly : formatter.settings.apply = ⟨.reject, formatter.settings.apply.unit⟩ := by
        rw [← hreject]
      rw [happly] at hplace
      exact ⟨hregion, ApplyOptions.applyInPlace_within hwritable hbound (Nat.le_add_right _ _)
        hregion.2 hinside hplace⟩

/-- Insertions at both borders of a region of two characters in three units, and the deletion of the
first of them. -/
theorem format_within_region_at_borders :
    ∃ changed delta,
      (plain.format .asSet
        (Script.mk [.edits [.insert 4 "!", .insert 1 "x", .delete 1 1, .insert 4 "?"]])
        (Document.ofString "aé😀b") ⟨1, 2⟩).1.outcome = ⟨changed, .ok delta⟩ ∧
      delta.edits = [⟨3, 3, "", "?"⟩, ⟨0, 3, "", "!"⟩, ⟨2, 1, "é", ""⟩, ⟨1, 1, "", "x"⟩] ∧
      ∃ middle, chars changed = ['a'] ++ middle ++ ['b'] := by
  have hcontents : TextBuffer.contents (Document.ofString "aé😀b") = "aé😀b" := by cbv
  have hregion : (Span.mk 1 2).FitsIn
      (TextBuffer.contents (Document.ofString "aé😀b")).toList.length := by
    rw [hcontents]
    decide
  obtain ⟨options, hoptions⟩ := exists_options_plain
  have hresult : (ApplyOptions.apply { unit := .utf16 } (Document.ofString "aé😀b")
      [.insert 4 "!", .insert 1 "x", .delete 1 1, .insert 4 "?"]).result =
        .ok ⟨4, 6, [⟨3, 3, "", "?"⟩, ⟨0, 3, "", "!"⟩, ⟨2, 1, "é", ""⟩, ⟨1, 1, "", "x"⟩]⟩ := by cbv
  have hformat := format_of_request_ok .asSet
    (Script.mk [.edits [.insert 4 "!", .insert 1 "x", .delete 1 1, .insert 4 "?"]])
    (request_of_readable hregion hoptions)
  have houtcome := (congrArg (fun formatting => formatting.1.outcome) hformat).trans
    (carryOut_asSet rfl String.ofList_toList)
  generalize happly : ApplyOptions.apply { unit := .utf16 } (Document.ofString "aé😀b")
    [.insert 4 "!", .insert 1 "x", .delete 1 1, .insert 4 "?"] = outcome at *
  obtain ⟨changed, result⟩ := outcome
  cases hresult
  have hdone := houtcome.trans (congrArg (Outcome.mapError FormatError.apply) happly)
  obtain ⟨_, middle, hchars⟩ := format_within_region plain .asSet _ ⟨1, 2⟩ rfl rfl
    (by decide) (by
      intro request edits hrequest hedits
      rw [hformat] at hrequest
      cases hrequest
      cases hedits
      simp only [requestFor, hcontents]
      decide) hdone
  exact ⟨changed, _, hdone, rfl, middle, hchars⟩

end Formatter

end TextEditing
