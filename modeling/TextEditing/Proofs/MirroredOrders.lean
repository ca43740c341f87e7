/-
Module: TextEditing.Proofs.MirroredOrders
Purpose: A batch is applied in the reverse of the order in which it is searched, before and after it
  is restated in characters.
Main exports: Batch.conflict?_restate, Batch.positions_rejectConflict_restate,
  Batch.applicationOrder_mirrors
-/
import TextEditing.Proofs.ErrorReports

namespace TextEditing

/-!
Start and position order the changes of a batch strictly, and any two of them.  So there is one
ascending list of them, which the search goes through, and its reverse is the one in which they are
applied.  In characters the starts and the ends compare as before: the same changes come in the same
order, and the search remembers the same one at each step and stops at the same one.
-/

namespace Batch

variable {edits resolved : Batch} {unit : OffsetUnit} {text : String}

/-- The changes in ascending order are those that are searched. -/
theorem ascending_iff {listed : List Numbered} :
    edits.Ascending listed ↔ listed = scanOrder edits := by
  constructor
  · intro h
    exact h.eq (ascending_scanOrder edits)
  · rintro rfl
    exact ascending_scanOrder edits

/-- Restated in characters, the first conflict is between the same two changes. -/
theorem conflict?_restate (h : edits.toCharacters unit text = .ok resolved) :
    conflict? resolved = (conflict? edits).map (.map (Numbered.restate unit text)) := by
  rw [conflict?, conflict?, scanOrder_restate h]
  cases hscan : scanOrder edits with
  | nil => rfl
  | cons first rest =>
      have hmem : ∀ edit ∈ first :: rest, edit ∈ numbered edits :=
        fun edit hedit => mem_scanOrder.1 (hscan ▸ hedit)
      exact conflictAfter?_map
        (fun a ha b hb => restate_start_lt_reach_iff h (hmem a ha) (hmem b hb))
        fun a ha b hb => restate_reach_lt_iff h (hmem a ha) (hmem b hb)

/-- Restated in characters, the batch is rejected for the same two positions, or accepted as well. -/
theorem positions_rejectConflict_restate (h : edits.toCharacters unit text = .ok resolved) :
    resolved.rejectConflict.mapError ApplyError.positions =
      edits.rejectConflict.mapError ApplyError.positions := by
  rw [rejectConflict, rejectConflict, conflict?_restate h]
  cases conflict? edits with
  | none => rfl
  | some conflict => rfl

/-- A batch is applied in the order of descending start and position, in which each position comes
once; it is searched for conflicts in the only ascending order of the same changes, which is the
reverse.  Restating it in characters changes neither the positions in this order nor the verdict of
the search nor the positions of a conflict. -/
theorem applicationOrder_mirrors (edits : Batch) :
    ((applicationOrder edits).map Numbered.index).Perm (List.range edits.length) ∧
      (∀ edit ∈ applicationOrder edits, edits[edit.index]? = some edit.change) ∧
      ((applicationOrder edits).Pairwise fun a b => b.Before a) ∧
      (∀ listed, edits.Ascending listed ↔ listed = scanOrder edits) ∧
      applicationOrder edits = (scanOrder edits).reverse ∧
      ∀ unit text resolved, edits.toCharacters unit text = .ok resolved →
        (applicationOrder resolved).map Numbered.index =
            (applicationOrder edits).map Numbered.index ∧
          resolved.rejectConflict.mapError ApplyError.positions =
            edits.rejectConflict.mapError ApplyError.positions := by
  have hreverse := applicationOrder_eq_reverse edits
  have hascending := ascending_scanOrder edits
  refine ⟨?_, fun edit hedit => mem_numbered.1 (mem_applicationOrder.1 hedit), ?_,
    fun listed => ascending_iff, hreverse, ?_⟩
  · rw [← map_index_numbered, hreverse]
    exact ((List.reverse_perm _).trans hascending.perm).map _
  · rw [hreverse]
    exact List.pairwise_reverse.2 hascending.sorted
  · intro unit text resolved h
    exact ⟨map_index_applicationOrder_restate h, positions_rejectConflict_restate h⟩

/-- A replacement and an insertion with one start, in the midst of another replacement. -/
def tied : Batch := [.replace 3 1 "B", .insert 3 "x", .replace 1 3 "y", .insert 6 ""]

theorem applicationOrder_mirrors_with_ties :
    ∃ resolved, tied.toCharacters .utf16 "a👋b👋c" = .ok resolved ∧ resolved ≠ tied ∧
      (applicationOrder resolved).map Numbered.index = [3, 1, 0, 2] ∧
      resolved.rejectConflict.mapError ApplyError.positions = .error [0, 2] := by
  have hresolved : tied.toCharacters .utf16 "a👋b👋c" =
      .ok [.replace 2 1 "B", .insert 2 "x", .replace 1 2 "y", .insert 4 ""] := by cbv
  obtain ⟨_, _, _, _, _, hrestated⟩ := applicationOrder_mirrors tied
  obtain ⟨horder, hverdict⟩ := hrestated .utf16 "a👋b👋c" _ hresolved
  refine ⟨_, hresolved, by decide, horder.trans ?_, hverdict.trans ?_⟩
  · cbv
  · cbv

end Batch

end TextEditing
