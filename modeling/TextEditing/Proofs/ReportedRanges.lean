/-
Module: TextEditing.Proofs.ReportedRanges
Purpose: When the ranges that a delta reports lie inside the text before and the text after.
Main exports: Range.Inside, ranges_of_runAll, Delta.changedRanges_of_runAll,
  Delta.not_overruns_of_replay, Delta.exists_insertedRanges_of_replay,
  ApplyOptions.ranges_inside_unless_conflict
-/
import TextEditing.Proofs.InsertedRanges
import TextEditing.Proofs.Replay
import TextEditing.Proofs.Undo

namespace TextEditing

open FaithfulBuffer (chars Writable)

/-!
The changed ranges are those of the changes as they were made, whatever these do to one another.  They
ascend, but a change that lies behind the end of the text before may fit at the moment when it is made,
since those made first have lengthened the text.

The inserted ranges take it for granted that no change reaches into what was inserted before it.  Then
they are the places where the new texts have landed; otherwise no more is left than that each of them
ends behind its start.
-/

/-- Every range is in order and inside a text of that length, and the ranges ascend. -/
structure Range.Inside (length : Nat) (ranges : List Range) : Prop where
  bounds : ∀ range ∈ ranges, range.start ≤ range.stop ∧ range.stop ≤ length
  ascending : ranges.Pairwise fun a b => a.start ≤ b.start

theorem Range.Chain.inside {low high : Nat} {ranges : List Range}
    (h : Range.Chain low high ranges) : Range.Inside high ranges where
  bounds range hrange := (h.bounds range hrange).2
  ascending := by
    apply h.pairwise.imp_of_mem
    intro a b ha _ hstop
    exact Nat.le_trans (h.bounds a ha).2.1 hstop

section Run

variable {β : Type} [TextBuffer β] [FaithfulBuffer β] {buffer changed : β}

/-- The records of a run that reached its end have the ranges of the changes. -/
theorem ranges_of_runAll {edits : List Numbered} {applied : List AppliedEdit}
    (h : runAll buffer edits = ⟨changed, applied, none⟩) :
    applied.map (fun done => (⟨done.start, done.stop⟩ : Range)) =
      (edits.map Numbered.patch).map Patch.toRange := by
  induction edits generalizing buffer applied with
  | nil =>
      cases h
      rfl
  | cons edit rest ih =>
      obtain ⟨next, done, others, hstep, hrest, rfl⟩ := exists_step_of_runAll_cons h
      have hmax := (Numbered.fits_of_applyTo hstep).1
      obtain ⟨rfl, hlength, _⟩ := Numbered.record_of_applyTo hstep
      rw [List.map_cons, List.map_cons, List.map_cons, ih hrest, toRange_record hmax hlength]

namespace Delta

variable {resolved : Batch} {delta : Delta}

theorem changedRanges_of_runAll
    (h : runAll buffer resolved.applicationOrder = ⟨changed, delta.edits, none⟩) :
    delta.changedRanges = (resolved.scanOrder.map Numbered.patch).map Patch.toRange := by
  have hranges := ranges_of_runAll h
  rw [Batch.applicationOrder_eq_reverse, List.map_reverse, List.map_reverse] at hranges
  rw [changedRanges, List.map_reverse, hranges, List.reverse_reverse]

/-- The changes that were made end inside the text before exactly if they fit into it. -/
theorem changed_inside_iff_fits {length : Nat}
    (h : runAll buffer resolved.applicationOrder = ⟨changed, delta.edits, none⟩) :
    (∀ range ∈ delta.changedRanges, range.stop ≤ length) ↔ resolved.Fits length := by
  have hmax := stop_le_of_runAll (by rw [h])
  rw [changedRanges_of_runAll h, List.map_map, List.forall_mem_map]
  constructor
  · intro hinside change hchange
    obtain ⟨edit, hedit, rfl⟩ := Batch.exists_numbered hchange
    exact ⟨hmax edit (Batch.mem_applicationOrder.2 hedit),
      hinside edit (Batch.mem_scanOrder.2 hedit)⟩
  · intro hfits edit hedit
    exact (hfits.patch_stop_le edit hedit).2

theorem changed_ascending_of_runAll
    (h : runAll buffer resolved.applicationOrder = ⟨changed, delta.edits, none⟩) :
    delta.changedRanges.Pairwise fun a b => a.start ≤ b.start := by
  rw [changedRanges_of_runAll h, List.map_map, List.pairwise_map]
  refine (Batch.ascending_scanOrder resolved).sorted.imp ?_
  rintro a b (hlt | ⟨heq, _⟩)
  · exact Nat.le_of_lt hlt
  · exact Nat.le_of_eq heq

theorem changed_ordered_of_runAll
    (h : runAll buffer resolved.applicationOrder = ⟨changed, delta.edits, none⟩) :
    ∀ range ∈ delta.changedRanges, range.start ≤ range.stop := by
  rw [changedRanges_of_runAll h, List.map_map, List.forall_mem_map]
  exact fun edit _ => edit.patch_start_le

/-- An edit finds its place in a text that is longer than the text before by no more than what was
inserted until then, so its own text does not run over while all these characters can be counted. -/
theorem not_overruns_of_replay {text result : List Char} (h : delta.replay? text = some result)
    (hbound : text.length + (delta.edits.map AppliedEdit.insertedLength).sum ≤ maxOffset) :
    ¬ delta.Overruns := by
  apply not_overruns_of_le
  intro front edit behind hsplit
  have hedits : delta.edits = behind.reverse ++ edit :: front.reverse := by
    rw [← List.reverse_reverse delta.edits, hsplit]
    simp
  rw [replay?, hedits, AppliedEdit.replayAll?_append, Option.bind_eq_some_iff] at h
  obtain ⟨next, hbehind, hrest⟩ := h
  obtain ⟨_, hedit, _⟩ := AppliedEdit.replayAll?_cons_eq_some_iff.1 hrest
  have hplace := (AppliedEdit.replay?_eq_some_iff.1 hedit).1
  have hlength := AppliedEdit.length_replayAll? hbehind
  rw [hedits] at hbound
  simp only [List.map_append, List.map_cons, List.map_reverse, List.sum_append, List.sum_cons,
    List.sum_reverse] at hbound hlength
  omega

/-- Edits take no more away than there was before and they have inserted, so there is room for all
ranges while a signed number counts these characters. -/
theorem exists_insertedRanges_of_replay {text result : List Char}
    (h : delta.replay? text = some result)
    (hbound : text.length + (delta.edits.map AppliedEdit.insertedLength).sum ≤ maxSigned) :
    ∃ inserted, delta.insertedRanges = .ok inserted ∧
      ∀ range ∈ inserted, range.start ≤ range.stop ∧ range.stop ≤ maxOffset := by
  have hlength := AppliedEdit.length_replayAll? h
  have hroom : Room 0 delta.edits.reverse := by
    constructor <;> rw [List.map_reverse, List.sum_reverse] <;> omega
  obtain ⟨inserted, hinserted, _, hordered⟩ := exists_insertedFrom_of_not_overruns hroom
    (not_overruns_of_replay h (Nat.le_trans hbound (by decide)))
  exact ⟨inserted, hinserted, hordered⟩

end Delta

end Run

namespace ApplyOptions

variable {β : Type} [TextBuffer β] {options : ApplyOptions} {buffer changed : β}
  {edits resolved : Batch} {delta : Delta}

/-- A batch without conflicts is ready without conflicts, in whatever unit it was counted. -/
theorem compatible_of_resolve (hresolve : options.resolve buffer edits = .ok resolved)
    (h : options.overlap = .reject ∨ edits.Compatible) : resolved.Compatible := by
  obtain ⟨hchars, hnone⟩ := resolve_eq_ok_iff.1 hresolve
  rcases h with hreject | hcompatible
  · exact (Batch.conflict?_eq_none_iff resolved).1 (hnone hreject)
  · exact (Batch.compatible_toCharacters_iff hchars).2 hcompatible

variable [FaithfulBuffer β]

/-- Only changes counted in characters may be ready without fitting into the text. -/
theorem fits_resolved_iff (hbound : (chars buffer).length ≤ maxOffset)
    (hresolve : options.resolve buffer edits = .ok resolved) :
    resolved.Fits (chars buffer).length ↔
      (options.unit = .character → edits.Fits (chars buffer).length) := by
  have hchars := (resolve_eq_ok_iff.1 hresolve).1
  by_cases hunit : options.unit = .character
  · rw [Batch.toCharacters, if_pos hunit] at hchars
    cases hchars
    simp [hunit]
  · obtain ⟨hcharacter | haligned, rfl⟩ := Batch.toCharacters_eq_ok_iff.1 hchars
    · exact absurd hcharacter hunit
    · have hfits := Batch.fits_restate haligned
      rw [FaithfulBuffer.toList_contents hbound] at hfits
      exact iff_of_true hfits fun h => absurd h hunit

/-- Applied without a conflict, a batch leaves changed ranges that are a chain in the text before, and
inserted ones that are a chain in the text after. -/
theorem chains_of_compatible (hwritable : Writable buffer)
    (hresolve : options.resolve buffer edits = .ok resolved) (hcompatible : resolved.Compatible)
    (hplace : options.applyInPlace buffer edits = ⟨changed, .ok delta⟩) :
    Range.Chain 0 delta.beforeCount delta.changedRanges ∧
      ((chars buffer).length ≤ maxSigned → (chars changed).length ≤ maxSigned →
        ∃ inserted, delta.insertedRanges = .ok inserted ∧
          Range.Chain 0 delta.afterCount inserted) := by
  obtain ⟨other, hother, hrun, _⟩ := exists_run_of_ok (by rw [hplace])
  rw [hresolve] at hother
  cases hother
  have hfits := Batch.fits_of_runAll hcompatible (by rw [hrun])
  obtain ⟨after, hafter, _, hchars⟩ := applyInPlace_of_fits hwritable hresolve hcompatible hfits
  rw [hplace] at hafter
  cases hafter
  have hchain := Batch.chain_of_compatible hcompatible hfits
  have hedits := List.reverse_reverse (resolved.scanOrder.map (Numbered.record (chars buffer)))
  constructor
  · rw [Delta.changedRanges_of_runAll hrun]
    exact hchain
  · intro hbefore hbound
    exact ⟨_, insertedRanges_of_records hedits hchain hchars hbefore hbound,
      chain_landings hchain (Nat.zero_le _) hchars⟩

/-- After a successful application the changed ranges lie inside the text before and ascend, unless the
batch has a conflict and was applied all the same.  Even then each of them ends behind its start and
they ascend; and they lie inside the text before, unless they are counted in characters and do not fit
into it.  All this as long as 64 bits count the characters of the text before and of all new texts.  As
long as signed numbers of 64 bits count these, there are inserted ranges, each of which ends behind its
start, and without a conflict they lie inside the text after and ascend. -/
theorem ranges_inside_unless_conflict (hwritable : Writable buffer)
    (happly : options.apply buffer edits = ⟨changed, .ok delta⟩ ∨
      options.applyInPlace buffer edits = ⟨changed, .ok delta⟩)
    (hbound : delta.beforeCount + (delta.edits.map AppliedEdit.insertedLength).sum ≤ maxOffset) :
    (options.overlap = .reject ∨ edits.Compatible →
        Range.Inside delta.beforeCount delta.changedRanges) ∧
      (∀ range ∈ delta.changedRanges, range.start ≤ range.stop) ∧
      delta.changedRanges.Pairwise (fun a b => a.start ≤ b.start) ∧
      ((∀ range ∈ delta.changedRanges, range.stop ≤ delta.beforeCount) ↔
        (options.unit = .character → edits.Fits delta.beforeCount)) ∧
      (delta.beforeCount + (delta.edits.map AppliedEdit.insertedLength).sum ≤ maxSigned →
        ∃ inserted, delta.insertedRanges = .ok inserted ∧
          (∀ range ∈ inserted, range.start ≤ range.stop ∧ range.stop ≤ maxOffset) ∧
          (options.overlap = .reject ∨ edits.Compatible →
            Range.Inside delta.afterCount inserted)) := by
  have hplace : options.applyInPlace buffer edits = ⟨changed, .ok delta⟩ := by
    rcases happly with hwhole | hplace
    · exact apply_eq_ok_iff.1 hwhole
    · exact hplace
  obtain ⟨resolved, hresolve, hrun, hbefore, _⟩ := exists_run_of_ok (by rw [hplace])
  rw [hplace] at hrun
  rw [FaithfulBuffer.length_eq] at hbefore
  have hlength : (chars buffer).length ≤ maxOffset := by omega
  have hchains := fun hnone => chains_of_compatible hwritable hresolve
    (compatible_of_resolve hresolve hnone) hplace
  refine ⟨fun hnone => (hchains hnone).1.inside, Delta.changed_ordered_of_runAll hrun,
    Delta.changed_ascending_of_runAll hrun, ?_, ?_⟩
  · rw [hbefore, Delta.changed_inside_iff_fits hrun]
    exact fits_resolved_iff hlength hresolve
  · intro hsigned
    have hreplay : delta.replay? (chars buffer) = some (chars changed) := replayAll?_of_runAll hrun
    have hcount := AppliedEdit.length_replayAll? hreplay
    obtain ⟨inserted, hinserted, hordered⟩ :=
      Delta.exists_insertedRanges_of_replay hreplay (hbefore ▸ hsigned)
    refine ⟨inserted, hinserted, hordered, ?_⟩
    intro hnone
    obtain ⟨_, hother, hchain⟩ := (hchains hnone).2 (by omega) (by omega)
    cases hinserted.symm.trans hother
    exact hchain.inside

/-- Changes that touch one another, applied without looking for conflicts, the first of them in front of
a character of two units. -/
theorem ranges_inside_unless_conflict_among_touching :
    ∃ changed delta,
      Writable (Document.ofString "a😀bcd") ∧
      apply ⟨.allow, .utf16⟩ (Document.ofString "a😀bcd")
        [.insert 3 "x", .delete 3 1, .replace 1 2 "yz"] = ⟨changed, .ok delta⟩ ∧
      delta.beforeCount + (delta.edits.map AppliedEdit.insertedLength).sum ≤ maxOffset ∧
      delta.beforeCount + (delta.edits.map AppliedEdit.insertedLength).sum ≤ maxSigned ∧
      Batch.Compatible [.insert 3 "x", .delete 3 1, .replace 1 2 "yz"] ∧
      delta.changedRanges = [⟨1, 2⟩, ⟨2, 2⟩, ⟨2, 3⟩] ∧
      Range.Inside delta.beforeCount delta.changedRanges ∧
      delta.insertedRanges = .ok [⟨1, 3⟩, ⟨3, 4⟩, ⟨4, 4⟩] ∧
      Range.Inside delta.afterCount [⟨1, 3⟩, ⟨3, 4⟩, ⟨4, 4⟩] := by
  have hresult : (apply ⟨.allow, .utf16⟩ (Document.ofString "a😀bcd")
      [.insert 3 "x", .delete 3 1, .replace 1 2 "yz"]).result =
        .ok ⟨5, 6, [⟨1, 2, "b", ""⟩, ⟨0, 2, "", "x"⟩, ⟨2, 1, "😀", "yz"⟩]⟩ := by cbv
  generalize houtcome : apply ⟨.allow, .utf16⟩ (Document.ofString "a😀bcd")
    [.insert 3 "x", .delete 3 1, .replace 1 2 "yz"] = outcome at *
  obtain ⟨changed, result⟩ := outcome
  cases hresult
  have hcompatible : Batch.Compatible [.insert 3 "x", .delete 3 1, .replace 1 2 "yz"] := by decide
  have hranges : Delta.insertedRanges
      ⟨5, 6, [⟨1, 2, "b", ""⟩, ⟨0, 2, "", "x"⟩, ⟨2, 1, "😀", "yz"⟩]⟩ =
        .ok [⟨1, 3⟩, ⟨3, 4⟩, ⟨4, 4⟩] := by cbv
  obtain ⟨hchanged, _, _, _, hinserted⟩ :=
    ranges_inside_unless_conflict rfl (Or.inl houtcome) (by decide)
  obtain ⟨inserted, hsame, _, hinside⟩ := hinserted (by decide)
  cases hsame.symm.trans hranges
  exact ⟨changed, _, rfl, rfl, by decide, by decide, hcompatible, rfl, hchanged (.inr hcompatible),
    hranges, hinside (.inr hcompatible)⟩

/-- A deletion takes away what another change has inserted in it.  It ends behind the end of the text
before, the place of the inserted text ends behind the end of the text after, and the two places are
reported in the wrong order. -/
theorem ranges_outside_after_conflict :
    ∃ changed delta,
      apply ⟨.allow, .character⟩ "abcd" [.delete 1 4, .replace 2 1 "xyz"] =
        ⟨changed, .ok delta⟩ ∧
      delta.beforeCount = 4 ∧ delta.afterCount = 2 ∧
      delta.changedRanges = [⟨1, 5⟩, ⟨2, 3⟩] ∧
      ¬ Range.Inside delta.beforeCount delta.changedRanges ∧
      delta.insertedRanges = .ok [⟨1, 1⟩, ⟨0, 3⟩] ∧
      ¬ Range.Inside delta.afterCount [⟨1, 1⟩, ⟨0, 3⟩] := by
  have hresult : (apply ⟨.allow, .character⟩ "abcd" [.delete 1 4, .replace 2 1 "xyz"]).result =
      .ok ⟨4, 2, [⟨1, 2, "c", "xyz"⟩, ⟨0, 1, "bxyz", ""⟩]⟩ := by cbv
  generalize apply ⟨.allow, .character⟩ "abcd" [.delete 1 4, .replace 2 1 "xyz"] = outcome at *
  obtain ⟨changed, result⟩ := outcome
  cases hresult
  refine ⟨changed, _, rfl, rfl, rfl, rfl, ?_, by cbv, ?_⟩
  · intro hinside
    exact absurd (hinside.bounds ⟨1, 5⟩ List.mem_cons_self).2 (by decide)
  · intro hinside
    exact absurd (hinside.bounds ⟨0, 3⟩ (List.mem_cons_of_mem _ List.mem_cons_self)).2 (by decide)

end ApplyOptions

end TextEditing
