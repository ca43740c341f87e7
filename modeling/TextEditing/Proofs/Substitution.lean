/-
Module: TextEditing.Proofs.Substitution
Purpose: When a batch is applied successfully, and to which text.
Main exports: Batch.Fits, Batch.chain_of_compatible, Batch.fits_of_last,
  Batch.runAll_of_compatible, ApplyOptions.apply_eq_substitution
-/
import TextEditing.Proofs.EntryPoints

namespace TextEditing

open FaithfulBuffer (chars Writable)

theorem Span.reach_of_le {span : Span} (h : span.start + span.length ≤ maxOffset) :
    span.reach = span.start + span.length := by
  rw [Span.reach, Span.stop?, if_pos h, Option.getD_some]

theorem Span.stop_le_of_reach_lt {span : Span} (h : span.reach < maxOffset) :
    span.start + span.length ≤ maxOffset := by
  by_cases hmax : span.start + span.length ≤ maxOffset
  · exact hmax
  · rw [Span.reach, Span.stop?, if_neg hmax, Option.getD_none] at h
    exact absurd h (Nat.lt_irrefl _)

namespace Batch

variable {edits : Batch} {length : Nat}

/-- Every span of the batch fits into a text of the given length. -/
def Fits (edits : Batch) (length : Nat) : Prop :=
  ∀ change ∈ edits, change.span.FitsIn length

instance (edits : Batch) (length : Nat) : Decidable (edits.Fits length) :=
  inferInstanceAs (Decidable (∀ change ∈ edits, _))

theorem Fits.patch_stop_le (h : edits.Fits length) :
    ∀ edit ∈ scanOrder edits, edit.patch.stop ≤ maxOffset ∧ edit.patch.stop ≤ length := by
  intro edit hedit
  exact h edit.change (numbered_change_mem (mem_scanOrder.1 hedit))

/-- The ranges of compatible changes that fit follow one another in scan order. -/
theorem chain_of_compatible (hcompatible : edits.Compatible) (hfits : edits.Fits length) :
    Range.Chain 0 length (((scanOrder edits).map Numbered.patch).map Patch.toRange) := by
  have hpairwise := pairwise_of_compatible (ascending_scanOrder edits) hcompatible
  rw [List.map_map]
  apply Range.Chain.of_pairwise (Nat.zero_le _)
  · intro range hrange
    obtain ⟨edit, hedit, rfl⟩ := List.mem_map.1 hrange
    exact ⟨Nat.zero_le _, edit.patch_start_le, (hfits.patch_stop_le edit hedit).2⟩
  · rw [List.pairwise_map]
    apply hpairwise.imp_of_mem
    intro a b ha _ hreach
    have hstop : a.reach = a.patch.stop := Span.reach_of_le (hfits.patch_stop_le a ha).1
    rw [hstop] at hreach
    exact hreach

/-- Compatible changes end before the last of them begins, so they all fit if that one does. -/
theorem fits_of_last {last : Numbered} (hcompatible : edits.Compatible)
    (hmem : last ∈ numbered edits)
    (hlast : ∀ edit ∈ numbered edits, edit = last ∨ edit.Before last)
    (hfits : last.change.span.FitsIn length)
    (hmax : ∀ edit ∈ numbered edits, edit.patch.stop ≤ maxOffset) : edits.Fits length := by
  intro change hchange
  obtain ⟨edit, hedit, rfl⟩ := exists_numbered hchange
  rcases hlast edit hedit with rfl | hbefore
  · exact hfits
  · have hreach : edit.reach ≤ last.start := hcompatible edit hedit last hmem hbefore
    have hstop : edit.reach = edit.patch.stop := Span.reach_of_le (hmax edit hedit)
    have hend : last.start ≤ length := Nat.le_trans last.patch_start_le hfits.2
    refine ⟨hmax edit hedit, ?_⟩
    calc edit.patch.stop = edit.reach := hstop.symm
      _ ≤ last.start := hreach
      _ ≤ length := hend

section FrontToBack

/-! A batch that lists its changes from front to back is its own scan order. -/

variable {low high : Nat}
  (h : Range.Chain low high ((edits.map Change.patch).map Patch.toRange))

include h

theorem pairwise_numbered_of_chain :
    (numbered edits).Pairwise fun a b => a.patch.stop ≤ b.patch.start := by
  have hpairwise := h.pairwise
  rw [← map_change_numbered edits, List.map_map, List.map_map, List.pairwise_map] at hpairwise
  exact hpairwise

theorem ascending_numbered_of_chain : edits.Ascending (numbered edits) where
  perm := List.Perm.refl _
  sorted := by
    have hpairwise := pairwise_numbered_of_chain h
    rw [numbered, List.pairwise_iff_getElem] at *
    intro i j hi hj hij
    have hstop := hpairwise i j hi hj hij
    rw [List.getElem_mapIdx, List.getElem_mapIdx] at *
    have hstart := Nat.le_trans (Numbered.patch_start_le _) hstop
    rcases Nat.lt_or_eq_of_le hstart with hlt | heq
    · exact Or.inl hlt
    · exact Or.inr ⟨heq, hij⟩

theorem fits_of_chain (hmax : high ≤ maxOffset) : edits.Fits high := by
  intro change hchange
  have hrange : change.patch.toRange ∈ (edits.map Change.patch).map Patch.toRange :=
    List.mem_map_of_mem (List.mem_map_of_mem hchange)
  have hstop : change.patch.stop ≤ high := (h.bounds _ hrange).2.2
  exact ⟨Nat.le_trans hstop hmax, hstop⟩

theorem compatible_of_chain (hmax : high ≤ maxOffset) : edits.Compatible := by
  apply compatible_of_pairwise (ascending_numbered_of_chain h)
  apply (pairwise_numbered_of_chain h).imp_of_mem
  intro a b ha _ hstop
  have hfits := fits_of_chain h hmax a.change (numbered_change_mem ha)
  have hreach : a.reach = a.patch.stop := Span.reach_of_le hfits.1
  rw [hreach]
  exact hstop

theorem map_patch_scanOrder_of_chain :
    (scanOrder edits).map Numbered.patch = edits.map Change.patch := by
  have hsame := (ascending_scanOrder edits).eq (ascending_numbered_of_chain h)
  rw [hsame, ← map_change_numbered edits, List.map_map, map_change_numbered]
  rfl

end FrontToBack

section

variable {β : Type} [TextBuffer β] [FaithfulBuffer β] {buffer : β}

/-- A run over compatible changes that reaches its end was over changes that fit into the text as
it was at the beginning. -/
theorem fits_of_runAll (hcompatible : edits.Compatible)
    (hrun : (runAll buffer (applicationOrder edits)).failure = none) :
    edits.Fits (chars buffer).length := by
  rcases applicationOrder_cases edits with rfl | ⟨last, others, hmem, horder, hlast⟩
  · intro change hchange
    cases hchange
  · have hmax : ∀ edit ∈ numbered edits, edit.patch.stop ≤ maxOffset := fun edit hedit =>
      stop_le_of_runAll hrun edit (mem_applicationOrder.2 hedit)
    refine fits_of_last hcompatible hmem hlast ?_ hmax
    cases hstep : last.applyTo buffer with
    | error cause =>
        rw [horder, runAll_cons_of_error others hstep] at hrun
        cases hrun
    | ok made =>
        rw [← FaithfulBuffer.length_eq]
        exact Numbered.fits_of_applyTo hstep

/-- Compatible changes that fit are all made, and the result is their simultaneous
substitution. -/
theorem runAll_of_compatible (hwritable : Writable buffer) (hcompatible : edits.Compatible)
    (hfits : edits.Fits (chars buffer).length) :
    ∃ changed, runAll buffer (applicationOrder edits) =
        ⟨changed, ((scanOrder edits).map (Numbered.record (chars buffer))).reverse, none⟩ ∧
      Writable changed ∧
      chars changed = substitute (chars buffer) ((scanOrder edits).map Numbered.patch) := by
  rw [applicationOrder_eq_reverse]
  exact runAll_reverse hwritable (fun edit hedit => (hfits.patch_stop_le edit hedit).1)
    (chain_of_compatible hcompatible hfits)

end

end Batch

namespace ApplyOptions

variable {β : Type} [TextBuffer β] [FaithfulBuffer β] {buffer : β} {edits : Batch}
  {unit : OffsetUnit} {delta : Delta}

/-- A ready batch of compatible changes that fit is carried out at once. -/
theorem applyInPlace_of_fits {options : ApplyOptions} {resolved : Batch}
    (hwritable : Writable buffer) (hresolve : options.resolve buffer edits = .ok resolved)
    (hcompatible : resolved.Compatible) (hfits : resolved.Fits (chars buffer).length) :
    ∃ changed, options.applyInPlace buffer edits =
        ⟨changed, .ok ⟨(chars buffer).length, (chars changed).length,
          (resolved.scanOrder.map (Numbered.record (chars buffer))).reverse⟩⟩ ∧
      Writable changed ∧
      chars changed = substitute (chars buffer) (resolved.scanOrder.map Numbered.patch) := by
  obtain ⟨changed, hrun, hopen, hchars⟩ :=
    Batch.runAll_of_compatible hwritable hcompatible hfits
  refine ⟨changed, ?_, hopen, hchars⟩
  rw [applyInPlace_of_no_failure hresolve (by rw [hrun]), hrun, FaithfulBuffer.length_eq,
    FaithfulBuffer.length_eq]

/-- What has succeeded without conflicts was ready, compatible, and fitted into the text as it was
at the beginning. -/
theorem exists_resolved_of_ok
    (h : (applyInPlace ⟨.reject, unit⟩ buffer edits).result = .ok delta) :
    ∃ resolved, resolve ⟨.reject, unit⟩ buffer edits = .ok resolved ∧
      resolved.Compatible ∧ resolved.Fits (chars buffer).length := by
  obtain ⟨resolved, hresolve, hrun, _⟩ := exists_run_of_ok h
  obtain ⟨_, hnone⟩ := resolve_eq_ok_iff.1 hresolve
  have hcompatible := (Batch.conflict?_eq_none_iff resolved).1 (hnone rfl)
  exact ⟨resolved, hresolve, hcompatible, Batch.fits_of_runAll hcompatible (by rw [hrun])⟩

/-- Under the rejection of overlaps, a batch counted in characters is applied to a writable buffer
exactly if its changes are compatible and fit into the original text, and the result is their
simultaneous substitution in the order of start and position. -/
theorem apply_eq_substitution (buffer : β) (edits : Batch) (hwritable : Writable buffer) :
    ((apply ⟨.reject, .character⟩ buffer edits).Succeeds ↔
        edits.Compatible ∧ edits.Fits (chars buffer).length) ∧
      ((applyInPlace ⟨.reject, .character⟩ buffer edits).Succeeds ↔
        edits.Compatible ∧ edits.Fits (chars buffer).length) ∧
      ∃ ascending, edits.Ascending ascending ∧
        ((apply ⟨.reject, .character⟩ buffer edits).Succeeds →
          chars (apply ⟨.reject, .character⟩ buffer edits).buffer =
            substitute (chars buffer) (ascending.map Numbered.patch)) ∧
        ((applyInPlace ⟨.reject, .character⟩ buffer edits).Succeeds →
          chars (applyInPlace ⟨.reject, .character⟩ buffer edits).buffer =
            substitute (chars buffer) (ascending.map Numbered.patch)) := by
  have hready : edits.Compatible →
      resolve ⟨.reject, .character⟩ buffer edits = .ok edits := fun hcompatible =>
    resolve_eq_ok_iff.2 ⟨rfl, fun _ => (Batch.conflict?_eq_none_iff edits).2 hcompatible⟩
  have hiff : (applyInPlace ⟨.reject, .character⟩ buffer edits).Succeeds ↔
      edits.Compatible ∧ edits.Fits (chars buffer).length := by
    constructor
    · rintro ⟨delta, hok⟩
      obtain ⟨resolved, hresolve, hcompatible, hfits⟩ := exists_resolved_of_ok hok
      obtain ⟨hsame, _⟩ := resolve_eq_ok_iff.1 hresolve
      cases hsame
      exact ⟨hcompatible, hfits⟩
    · rintro ⟨hcompatible, hfits⟩
      obtain ⟨changed, hplace, _⟩ :=
        applyInPlace_of_fits hwritable (hready hcompatible) hcompatible hfits
      exact ⟨_, by rw [hplace]⟩
  have htext : (applyInPlace ⟨.reject, .character⟩ buffer edits).Succeeds →
      chars (applyInPlace ⟨.reject, .character⟩ buffer edits).buffer =
        substitute (chars buffer) (edits.scanOrder.map Numbered.patch) := by
    intro hsucceeds
    obtain ⟨hcompatible, hfits⟩ := hiff.1 hsucceeds
    obtain ⟨changed, hplace, _, hchars⟩ :=
      applyInPlace_of_fits hwritable (hready hcompatible) hcompatible hfits
    rw [hplace]
    exact hchars
  refine ⟨apply_succeeds_iff.trans hiff, hiff, edits.scanOrder,
    Batch.ascending_scanOrder edits, ?_, htext⟩
  intro hsucceeds
  obtain ⟨delta, hok⟩ := apply_succeeds_iff.1 hsucceeds
  rw [apply_eq, hok]
  exact htext ⟨delta, hok⟩

/-- Insertions where a replacement and a deletion begin, the deletion touching the replacement. -/
theorem apply_eq_substitution_of_adjacent_changes :
    Writable (Document.ofString "abcdef") ∧
      (apply ⟨.reject, .character⟩ (Document.ofString "abcdef")
        [.insert 4 "!", .delete 4 1, .insert 2 "x", .replace 2 2 "YYY"]).Succeeds ∧
      chars (apply ⟨.reject, .character⟩ (Document.ofString "abcdef")
        [.insert 4 "!", .delete 4 1, .insert 2 "x", .replace 2 2 "YYY"]).buffer =
          "abxYYY!f".toList := by
  obtain ⟨hiff, _, ascending, hascending, htext, _⟩ :=
    apply_eq_substitution (Document.ofString "abcdef")
      [.insert 4 "!", .delete 4 1, .insert 2 "x", .replace 2 2 "YYY"] rfl
  have hlisted : Batch.Ascending
      [.insert 4 "!", .delete 4 1, .insert 2 "x", .replace 2 2 "YYY"]
      [⟨2, .insert 2 "x"⟩, ⟨3, .replace 2 2 "YYY"⟩, ⟨0, .insert 4 "!"⟩, ⟨1, .delete 4 1⟩] :=
    ⟨by decide, by decide⟩
  have hsucceeds := hiff.2 ⟨by decide, by decide⟩
  refine ⟨rfl, hsucceeds, ?_⟩
  rw [htext hsucceeds, hascending.eq hlisted]
  decide

end ApplyOptions

end TextEditing
