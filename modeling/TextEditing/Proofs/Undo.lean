/-
Module: TextEditing.Proofs.Undo
Purpose: The ranges of a delta line up with the text before and the text after, and the batch read
  off them takes the changes back.
Main exports: Range.Ordered, Range.read?, Delta.LinesUp, Delta.inverse,
  insertedFrom_eq_landings, ApplyOptions.delta_lines_up_and_undoes
-/
import TextEditing.Proofs.Substitution

namespace TextEditing

open FaithfulBuffer (chars Writable)

/-!
Read from the front, the edits of a delta are patches that follow one another in the text before.
The running shift of the inserted ranges is the distance between a place in the text before and
the same place in the text after, so each inserted range is where its text has landed.  Both texts
then have the same gaps, and weaving these with the deleted texts gives back the text before.
-/

/-- The ranges come in order and do not cross. -/
def Range.Ordered (ranges : List Range) : Prop :=
  (∀ range ∈ ranges, range.start ≤ range.stop) ∧ ranges.Pairwise fun a b => a.stop ≤ b.start

theorem Range.Chain.ordered {low high : Nat} {ranges : List Range}
    (h : Range.Chain low high ranges) : Range.Ordered ranges :=
  ⟨fun range hrange => (h.bounds range hrange).2.1, h.pairwise⟩

/-- What a buffer reads at a range. -/
def Range.read? {β : Type} [TextBuffer β] (buffer : β) (range : Range) : Option String :=
  TextBuffer.slice? buffer range.start (range.stop - range.start)

/-- The changed ranges of the delta and these inserted ones hold the texts of its edits, and what lies
between the ranges is the same before and after. -/
structure Delta.LinesUp {β : Type} [TextBuffer β] [FaithfulBuffer β] (delta : Delta)
    (inserted : List Range) (before after : β) : Prop where
  reads_deleted : delta.changedRanges.map (Range.read? before) =
    delta.edits.reverse.map fun edit => some edit.deletedText
  reads_inserted : inserted.map (Range.read? after) =
    delta.edits.reverse.map fun edit => some edit.insertedText
  changed_ordered : Range.Ordered delta.changedRanges
  inserted_ordered : Range.Ordered inserted
  gaps_eq : gaps (chars before) delta.changedRanges = gaps (chars after) inserted

/-- Puts the deleted text in the place where the inserted text stands. -/
def AppliedEdit.revert (landed : Range) (edit : AppliedEdit) : Change :=
  .replace landed.start edit.insertedLength edit.deletedText

/-- The batch that puts each deleted text in the place of the text inserted for it. -/
def Delta.inverse (delta : Delta) (inserted : List Range) : Batch :=
  List.zipWith AppliedEdit.revert inserted delta.edits.reverse

theorem read?_of_chain {β : Type} [TextBuffer β] [FaithfulBuffer β] {buffer : β} {low : Nat}
    {ranges : List Range} (hmax : ∀ range ∈ ranges, range.stop ≤ maxOffset)
    (h : Range.Chain low (chars buffer).length ranges) :
    ranges.map (Range.read? buffer) =
      ranges.map fun range =>
        some (String.ofList (excerpt (chars buffer) range.start range.stop)) := by
  apply List.map_congr_left
  intro range hrange
  obtain ⟨_, horder, hstop⟩ := h.bounds range hrange
  have hend : range.start + (range.stop - range.start) = range.stop := Nat.add_sub_cancel' horder
  have hfits : Span.FitsIn ⟨range.start, range.stop - range.start⟩ (chars buffer).length :=
    ⟨Nat.le_trans (Nat.le_of_eq hend) (hmax range hrange),
      Nat.le_trans (Nat.le_of_eq hend) hstop⟩
  have hslice := FaithfulBuffer.slice?_of_fits hfits
  rw [hend] at hslice
  exact hslice

section Records

variable {text : List Char} {edits : List Numbered}

theorem deletedLength_record {edit : Numbered} (h : edit.patch.stop ≤ text.length) :
    (edit.record text).deletedLength = edit.patch.stop - edit.patch.start := by
  rw [AppliedEdit.deletedLength, Numbered.record, String.length_ofList, length_excerpt _ h]

/-- The replaced range of a record is the range of the change. -/
theorem toRange_record {edit : Numbered} (hmax : edit.patch.stop ≤ maxOffset)
    (h : edit.patch.stop ≤ text.length) :
    (⟨(edit.record text).start, (edit.record text).stop⟩ : Range) = edit.patch.toRange := by
  have hstart : (edit.record text).start = edit.patch.start := rfl
  have hstop : (edit.record text).stop = edit.patch.stop := by
    rw [AppliedEdit.stop, deletedLength_record h, hstart, Nat.add_sub_cancel' edit.patch_start_le,
      Nat.min_eq_left hmax]
  rw [hstart, hstop]

/-- The inserted ranges are the landing places: the shift is the distance between the place in the
text after and the position in the text before, and nothing leaves 64 bits while signed numbers count
both texts. -/
theorem insertedFrom_eq_landings {position place limit : Nat} (hlength : text.length ≤ maxSigned)
    (hlimit : limit ≤ maxSigned)
    (hchain : Range.Chain position text.length ((edits.map Numbered.patch).map Patch.toRange))
    (hlands : Range.Chain place limit (landings position place (edits.map Numbered.patch))) :
    Delta.insertedFrom (place - position) (edits.map (Numbered.record text)) =
      .ok (landings position place (edits.map Numbered.patch)) := by
  induction edits generalizing position place with
  | nil => rfl
  | cons edit rest ih =>
      have hposition : position ≤ edit.patch.start := hchain.1
      have horder := edit.patch_start_le
      have hstop : edit.patch.stop ≤ text.length := hchain.2.2.low_le_high
      have hdeleted : (edit.record text).deletedLength = edit.patch.stop - edit.patch.start :=
        deletedLength_record hstop
      have hinserted : (edit.record text).insertedLength = edit.patch.put.length :=
        edit.length_put.symm
      have hland : place + (edit.patch.start - position) + edit.patch.put.length ≤ maxSigned :=
        Nat.le_trans hlands.2.2.low_le_high hlimit
      have hmax : maxSigned ≤ maxOffset := by decide
      have hstart : nearestOffset ((edit.record text).start + (place - position : Int)) =
          place + (edit.patch.start - position) := by
        change nearestOffset (edit.patch.start + (place - position : Int)) = _
        rw [nearestOffset]
        omega
      have hfits : ¬ maxOffset <
          place + (edit.patch.start - position) + edit.patch.put.length := by
        omega
      -- Behind the new text, text before and text after differ by what this edit adds as well.
      have hshift : (place - position : Int) + (edit.record text).growth =
          ((place + (edit.patch.start - position) + edit.patch.put.length : Nat) : Int) -
            edit.patch.stop := by
        rw [AppliedEdit.growth]
        omega
      rw [List.map_cons, Delta.insertedFrom_cons (by omega) (by omega) (by omega), hshift,
        ih hchain.2.2 hlands.2.2]
      simp only [hstart, hinserted, if_neg hfits, List.map_cons, landings]
      rfl

/-- The reverting changes replace the landing places. -/
theorem map_toRange_revert (position place : Nat) :
    ((List.zipWith AppliedEdit.revert (landings position place (edits.map Numbered.patch))
        (edits.map (Numbered.record text))).map Change.patch).map Patch.toRange =
      landings position place (edits.map Numbered.patch) := by
  induction edits generalizing position place with
  | nil => rfl
  | cons edit rest ih =>
      have hinserted : (edit.record text).insertedLength = edit.patch.put.length :=
        edit.length_put.symm
      simp only [List.map_cons, landings, List.zipWith_cons_cons, ih, AppliedEdit.revert,
        Change.patch, Change.replace, hinserted]

/-- The reverting changes put back the characters that the edits have replaced. -/
theorem map_put_revert (position place : Nat) :
    ((List.zipWith AppliedEdit.revert (landings position place (edits.map Numbered.patch))
        (edits.map (Numbered.record text))).map Change.patch).map Patch.put =
      ((edits.map Numbered.patch).map Patch.toRange).map fun range =>
        excerpt text range.start range.stop := by
  induction edits generalizing position place with
  | nil => rfl
  | cons edit rest ih =>
      simp only [List.map_cons, landings, List.zipWith_cons_cons, ih, AppliedEdit.revert,
        Change.patch, Change.replace, Numbered.record, String.toList_ofList]

end Records

section Lining

variable {text : List Char} {edits : List Numbered} {delta : Delta}

theorem changedRanges_of_records
    (hedits : delta.edits.reverse = edits.map (Numbered.record text))
    (hmax : ∀ edit ∈ edits, edit.patch.stop ≤ maxOffset)
    (hchain : Range.Chain 0 text.length ((edits.map Numbered.patch).map Patch.toRange)) :
    delta.changedRanges = (edits.map Numbered.patch).map Patch.toRange := by
  rw [Delta.changedRanges, hedits, List.map_map, List.map_map]
  apply List.map_congr_left
  intro edit hedit
  have hrange : edit.patch.toRange ∈ (edits.map Numbered.patch).map Patch.toRange :=
    List.mem_map_of_mem (List.mem_map_of_mem hedit)
  exact toRange_record (hmax edit hedit) (hchain.bounds _ hrange).2.2

theorem insertedRanges_of_records {result : List Char}
    (hedits : delta.edits.reverse = edits.map (Numbered.record text))
    (hchain : Range.Chain 0 text.length ((edits.map Numbered.patch).map Patch.toRange))
    (hresult : result = substitute text (edits.map Numbered.patch))
    (hlength : text.length ≤ maxSigned) (hbound : result.length ≤ maxSigned) :
    delta.insertedRanges = .ok (landings 0 0 (edits.map Numbered.patch)) := by
  have hplaces : Range.Chain 0 result.length (landings 0 0 (edits.map Numbered.patch)) :=
    chain_landings hchain (Nat.zero_le _) hresult
  rw [Delta.insertedRanges, hedits, ← insertedFrom_eq_landings hlength hbound hchain hplaces]
  rfl

variable {β : Type} [TextBuffer β] [FaithfulBuffer β] {before after : β}
  (hedits : delta.edits.reverse = edits.map (Numbered.record (chars before)))
  (hchain : Range.Chain 0 (chars before).length
    ((edits.map Numbered.patch).map Patch.toRange))
  (hafter : chars after = substitute (chars before) (edits.map Numbered.patch))
  (hbound : (chars after).length ≤ maxOffset)

include hedits hchain hafter hbound

theorem linesUp_of_records (hmax : ∀ edit ∈ edits, edit.patch.stop ≤ maxOffset) :
    delta.LinesUp (landings 0 0 (edits.map Numbered.patch)) before after := by
  have hresult : (chars after).drop 0 =
      substituteFrom (chars before) 0 (edits.map Numbered.patch) := hafter
  have hchanged := changedRanges_of_records hedits hmax hchain
  have hlands := chain_landings hchain (Nat.zero_le _) hresult
  constructor
  · rw [hchanged, read?_of_chain ?_ hchain, hedits, List.map_map, List.map_map, List.map_map]
    · rfl
    · intro range hrange
      rw [List.map_map] at hrange
      obtain ⟨edit, hedit, rfl⟩ := List.mem_map.1 hrange
      exact hmax edit hedit
  · rw [read?_of_chain ?_ hlands, hedits]
    · have hreads : ((landings 0 0 (edits.map Numbered.patch)).map fun range =>
            some (String.ofList (excerpt (chars after) range.start range.stop))) =
          ((edits.map Numbered.patch).map Patch.put).map fun put => some (String.ofList put) := by
        rw [← map_excerpt_landings hchain hresult, List.map_map]
        rfl
      rw [hreads, List.map_map, List.map_map, List.map_map]
      apply List.map_congr_left
      intro edit _
      exact congrArg some String.ofList_toList
    · intro range hrange
      exact Nat.le_trans (hlands.bounds range hrange).2.2 hbound
  · exact hchanged ▸ hchain.ordered
  · exact hlands.ordered
  · rw [hchanged]
    exact (gapsFrom_landings hchain hresult).symm

theorem inverse_restores (hwritable : Writable after) :
    (delta.inverse (landings 0 0 (edits.map Numbered.patch))).rejectConflict = .ok () ∧
      ∃ restored undone,
        ApplyOptions.apply {} after (delta.inverse (landings 0 0 (edits.map Numbered.patch))) =
          ⟨restored, .ok undone⟩ ∧
        chars restored = chars before := by
  have hresult : (chars after).drop 0 =
      substituteFrom (chars before) 0 (edits.map Numbered.patch) := hafter
  have hlands := chain_landings hchain (Nat.zero_le _) hresult
  generalize hinverse : delta.inverse (landings 0 0 (edits.map Numbered.patch)) = inverse
  rw [Delta.inverse, hedits] at hinverse
  have hranges : (inverse.map Change.patch).map Patch.toRange =
      landings 0 0 (edits.map Numbered.patch) := by
    rw [← hinverse]
    exact map_toRange_revert 0 0
  have hputs : (inverse.map Change.patch).map Patch.put =
      ((edits.map Numbered.patch).map Patch.toRange).map fun range =>
        excerpt (chars before) range.start range.stop := by
    rw [← hinverse]
    exact map_put_revert 0 0
  rw [← hranges] at hlands
  have hcompatible := Batch.compatible_of_chain hlands hbound
  have hnone := (Batch.conflict?_eq_none_iff inverse).2 hcompatible
  have hresolve : ApplyOptions.resolve {} after inverse = .ok inverse :=
    ApplyOptions.resolve_eq_ok_iff.2 ⟨rfl, fun _ => hnone⟩
  obtain ⟨restored, hplace, _, hrestored⟩ := ApplyOptions.applyInPlace_of_fits hwritable hresolve
    hcompatible (Batch.fits_of_chain hlands hbound)
  refine ⟨Batch.rejectConflict_eq_ok_iff.2 hnone, restored, _,
    ApplyOptions.apply_eq_ok_iff.2 hplace, ?_⟩
  calc chars restored
      = substitute (chars after) (inverse.map Change.patch) := by
        rw [hrestored, Batch.map_patch_scanOrder_of_chain hlands]
    _ = weave (gapsFrom (chars after) 0 (landings 0 0 (edits.map Numbered.patch)))
          (((edits.map Numbered.patch).map Patch.toRange).map fun range =>
            excerpt (chars before) range.start range.stop) := by
        rw [substitute, substituteFrom_eq_weave, hranges, hputs]
    _ = weave (gapsFrom (chars before) 0 ((edits.map Numbered.patch).map Patch.toRange))
          (((edits.map Numbered.patch).map Patch.toRange).map fun range =>
            excerpt (chars before) range.start range.stop) := by
        rw [gapsFrom_landings hchain hresult]
    _ = chars before := weave_gapsFrom hchain

end Lining

namespace ApplyOptions

/-- After a successful application without conflicts, no number on the way to the inserted ranges of
the delta leaves 64 bits, and the ranges line up with the text before and the text after, as long as
signed numbers of 64 bits count the characters of both.  The batch read off the delta has no conflict,
and under the default options it gives back the text before. -/
theorem delta_lines_up_and_undoes {β : Type} [TextBuffer β] [FaithfulBuffer β]
    {buffer changed : β} {edits : Batch} {unit : OffsetUnit} {delta : Delta}
    (hwritable : Writable buffer)
    (happly : apply ⟨.reject, unit⟩ buffer edits = ⟨changed, .ok delta⟩ ∨
      applyInPlace ⟨.reject, unit⟩ buffer edits = ⟨changed, .ok delta⟩)
    (hbefore : (chars buffer).length ≤ maxSigned) (hafter : (chars changed).length ≤ maxSigned) :
    ∃ inserted, delta.insertedRanges = .ok inserted ∧
      delta.LinesUp inserted buffer changed ∧
      (delta.inverse inserted).rejectConflict = .ok () ∧
      ∃ restored undone, apply {} changed (delta.inverse inserted) = ⟨restored, .ok undone⟩ ∧
        chars restored = chars buffer := by
  have hplace : applyInPlace ⟨.reject, unit⟩ buffer edits = ⟨changed, .ok delta⟩ := by
    rcases happly with hwhole | hplace
    · exact apply_eq_ok_iff.1 hwhole
    · exact hplace
  obtain ⟨resolved, hresolve, hcompatible, hfits⟩ := exists_resolved_of_ok (by rw [hplace])
  obtain ⟨after, hresult, hopen, hchars⟩ :=
    applyInPlace_of_fits hwritable hresolve hcompatible hfits
  rw [hplace] at hresult
  cases hresult
  have hmax := fun edit hedit => (hfits.patch_stop_le edit hedit).1
  have hchain := Batch.chain_of_compatible hcompatible hfits
  have hedits := List.reverse_reverse (resolved.scanOrder.map (Numbered.record (chars buffer)))
  have hbound : (chars changed).length ≤ maxOffset := Nat.le_trans hafter (by decide)
  exact ⟨_, insertedRanges_of_records hedits hchain hchars hbefore hafter,
    linesUp_of_records hedits hchain hchars hbound hmax,
    inverse_restores hedits hchain hchars hbound hopen⟩

/-- An insertion and a deletion at one offset, and an insertion where the deletion ends. -/
theorem delta_lines_up_and_undoes_with_ties :
    ∃ changed delta inserted,
      Writable (Document.ofString "a😀bc") ∧
      applyInPlace ⟨.reject, .utf16⟩ (Document.ofString "a😀bc")
        [.insert 1 "x", .delete 1 2, .insert 3 "yz"] = ⟨changed, .ok delta⟩ ∧
      (chars (Document.ofString "a😀bc")).length ≤ maxSigned ∧
      (chars changed).length ≤ maxSigned ∧
      delta.edits = [⟨2, 2, "", "yz"⟩, ⟨1, 1, "😀", ""⟩, ⟨0, 1, "", "x"⟩] ∧
      delta.insertedRanges = .ok inserted ∧
      delta.LinesUp inserted (Document.ofString "a😀bc") changed ∧
      (delta.inverse inserted).rejectConflict = .ok () ∧
      ∃ restored undone, apply {} changed (delta.inverse inserted) = ⟨restored, .ok undone⟩ ∧
        chars restored = chars (Document.ofString "a😀bc") := by
  have hresult : (applyInPlace ⟨.reject, .utf16⟩ (Document.ofString "a😀bc")
      [.insert 1 "x", .delete 1 2, .insert 3 "yz"]).result =
        .ok ⟨4, 6, [⟨2, 2, "", "yz"⟩, ⟨1, 1, "😀", ""⟩, ⟨0, 1, "", "x"⟩]⟩ := by cbv
  have hlength : (chars (applyInPlace ⟨.reject, .utf16⟩ (Document.ofString "a😀bc")
      [.insert 1 "x", .delete 1 2, .insert 3 "yz"]).buffer).length = 6 := by cbv
  generalize houtcome : applyInPlace ⟨.reject, .utf16⟩ (Document.ofString "a😀bc")
    [.insert 1 "x", .delete 1 2, .insert 3 "yz"] = outcome at *
  obtain ⟨changed, result⟩ := outcome
  cases hresult
  have hbefore : (chars (Document.ofString "a😀bc")).length ≤ maxSigned := by decide
  have hafter : (chars changed).length ≤ maxSigned := by
    rw [hlength]
    decide
  obtain ⟨inserted, hinserted, hundone⟩ :=
    delta_lines_up_and_undoes rfl (Or.inr houtcome) hbefore hafter
  exact ⟨changed, _, inserted, rfl, rfl, hbefore, hafter, rfl, hinserted, hundone⟩

end ApplyOptions

end TextEditing
