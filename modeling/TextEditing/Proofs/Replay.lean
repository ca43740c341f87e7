/-
Module: TextEditing.Proofs.Replay
Purpose: A delta is a log of what was done: made again, its edits lead from the text before to the
  text after, and taken back from the last to the first they lead to the text before.
Main exports: AppliedEdit.replay?, AppliedEdit.inverse, Delta.replay?, Delta.rewind?,
  replayAll?_inverse, replayAll?_of_runAll, ApplyOptions.delta_replays_and_rewinds
-/
import TextEditing.Proofs.PartialProgress

namespace TextEditing

open FaithfulBuffer (chars Writable)

/-!
Edits that may overlap can delete what an earlier edit of the same batch has inserted, so a delta
says little about the text before alone.  Each of its edits tells of the text as it was when the
edit was made: the deleted text stood there, and the inserted one has taken its place.  Hence an
edit is taken back by the edit with both texts exchanged, and a run by taking back its edits in the
opposite order.
-/

namespace AppliedEdit

/-- Makes the edit again, provided that the text to be deleted is found at its place. -/
def replay? (edit : AppliedEdit) (text : List Char) : Option (List Char) :=
  let stop := edit.start + edit.deletedLength
  if stop ≤ text.length ∧ excerpt text edit.start stop = edit.deletedText.toList then
    some (splice text edit.start stop edit.insertedText.toList)
  else
    none

/-- The edit that puts the deleted text in the place of the inserted one. -/
def inverse (edit : AppliedEdit) : AppliedEdit :=
  { edit with deletedText := edit.insertedText, insertedText := edit.deletedText }

/-- Makes edits again, one after the other. -/
def replayAll? (text : List Char) : List AppliedEdit → Option (List Char)
  | [] => some text
  | edit :: rest => (edit.replay? text).bind fun changed => replayAll? changed rest

variable {edit : AppliedEdit} {text changed : List Char}

theorem replay?_eq_some_iff :
    edit.replay? text = some changed ↔
      edit.start + edit.deletedLength ≤ text.length ∧
        excerpt text edit.start (edit.start + edit.deletedLength) = edit.deletedText.toList ∧
        changed = splice text edit.start (edit.start + edit.deletedLength)
          edit.insertedText.toList := by
  simp only [replay?]
  split
  · rename_i h
    rw [Option.some_inj, and_iff_right h.1, and_iff_right h.2, eq_comm]
  · rename_i h
    constructor
    · intro hnone
      cases hnone
    · rintro ⟨hstop, hfound, _⟩
      exact absurd ⟨hstop, hfound⟩ h

/-- The inverse finds the inserted text and restores what was there before. -/
theorem replay?_inverse (h : edit.replay? text = some changed) :
    edit.inverse.replay? changed = some text := by
  obtain ⟨hstop, hfound, rfl⟩ := replay?_eq_some_iff.1 h
  have horder : edit.start ≤ edit.start + edit.deletedLength := Nat.le_add_right _ _
  have hlength := @length_splice _ text edit.insertedText.toList _ _ horder hstop
  have hput : edit.insertedText.toList.length = edit.inverse.deletedLength :=
    String.length_toList
  rw [replay?_eq_some_iff, ← hput]
  refine ⟨?_, excerpt_splice (Nat.le_trans horder hstop), ?_⟩
  · have hstart : edit.inverse.start = edit.start := rfl
    omega
  · have hback := @splice_excerpt_splice _ text edit.insertedText.toList _ _ horder hstop
    rw [hfound] at hback
    exact hback.symm

theorem length_replay? (h : edit.replay? text = some changed) :
    changed.length + edit.deletedLength = text.length + edit.insertedLength := by
  obtain ⟨hstop, _, rfl⟩ := replay?_eq_some_iff.1 h
  rw [length_splice (Nat.le_add_right _ _) hstop, String.length_toList, insertedLength]
  omega

theorem replayAll?_cons_eq_some_iff {rest : List AppliedEdit} :
    replayAll? text (edit :: rest) = some changed ↔
      ∃ next, edit.replay? text = some next ∧ replayAll? next rest = some changed := by
  rw [replayAll?, Option.bind_eq_some_iff]

theorem replayAll?_append (text : List Char) (first second : List AppliedEdit) :
    replayAll? text (first ++ second) =
      (replayAll? text first).bind fun next => replayAll? next second := by
  induction first generalizing text with
  | nil => rfl
  | cons edit rest ih =>
      rw [List.cons_append, replayAll?, replayAll?, Option.bind_assoc]
      simp only [ih]

/-- What was made again is taken back from the last edit to the first. -/
theorem replayAll?_inverse {edits : List AppliedEdit} (h : replayAll? text edits = some changed) :
    replayAll? changed (edits.reverse.map inverse) = some text := by
  induction edits generalizing text with
  | nil =>
      cases h
      rfl
  | cons edit rest ih =>
      obtain ⟨next, hfirst, hrest⟩ := replayAll?_cons_eq_some_iff.1 h
      rw [List.reverse_cons, List.map_append, replayAll?_append, ih hrest, Option.bind_some]
      exact replayAll?_cons_eq_some_iff.2 ⟨text, replay?_inverse hfirst, rfl⟩

/-- Every edit changes the length by what it inserts and what it deletes. -/
theorem length_replayAll? {edits : List AppliedEdit} (h : replayAll? text edits = some changed) :
    (changed.length : Int) =
      text.length - (edits.map deletedLength).sum + (edits.map insertedLength).sum := by
  induction edits generalizing text with
  | nil =>
      cases h
      simp
  | cons edit rest ih =>
      obtain ⟨next, hfirst, hrest⟩ := replayAll?_cons_eq_some_iff.1 h
      have hlength := length_replay? hfirst
      have hothers := ih hrest
      rw [List.map_cons, List.map_cons, List.sum_cons, List.sum_cons]
      omega

end AppliedEdit

namespace Delta

/-- Makes the edits of the delta again, in the order in which they were made. -/
def replay? (delta : Delta) (text : List Char) : Option (List Char) :=
  AppliedEdit.replayAll? text delta.edits

/-- Takes the edits of the delta back, the last one first. -/
def rewind? (delta : Delta) (text : List Char) : Option (List Char) :=
  AppliedEdit.replayAll? text (delta.edits.reverse.map AppliedEdit.inverse)

end Delta

section Run

variable {β : Type} [TextBuffer β] {buffer changed : β}

/-- The records of a run that reached its end name the changes in their order. -/
theorem names_of_runAll {edits : List Numbered} {applied : List AppliedEdit}
    (h : runAll buffer edits = ⟨changed, applied, none⟩) :
    applied.map (fun done => (done.index, done.insertedText)) =
      edits.map fun edit => (edit.index, edit.change.newText) := by
  induction edits generalizing buffer applied with
  | nil =>
      cases h
      rfl
  | cons edit rest ih =>
      obtain ⟨next, done, others, hstep, hrest, rfl⟩ := exists_step_of_runAll_cons h
      obtain ⟨_, hindex, htext⟩ := Numbered.replaced_of_applyTo hstep
      rw [List.map_cons, List.map_cons, ih hrest, hindex, htext]

variable [FaithfulBuffer β]

/-- A change that is made can be made again on the characters it was made on. -/
theorem Numbered.replay?_of_applyTo {edit : Numbered} {done : AppliedEdit}
    (h : edit.applyTo buffer = .ok (changed, done)) :
    done.replay? (chars buffer) = some (chars changed) := by
  obtain ⟨rfl, hstop, hchars⟩ := Numbered.record_of_applyTo h
  have hdeleted : (edit.record (chars buffer)).start +
      (edit.record (chars buffer)).deletedLength = edit.patch.stop := by
    rw [AppliedEdit.deletedLength, Numbered.record, String.length_ofList,
      length_excerpt _ hstop]
    exact Nat.add_sub_cancel' edit.patch_start_le
  rw [AppliedEdit.replay?_eq_some_iff, hdeleted]
  exact ⟨hstop, String.toList_ofList.symm, hchars⟩

/-- A run that reached its end can be made again from its records. -/
theorem replayAll?_of_runAll {edits : List Numbered} {applied : List AppliedEdit}
    (h : runAll buffer edits = ⟨changed, applied, none⟩) :
    AppliedEdit.replayAll? (chars buffer) applied = some (chars changed) := by
  induction edits generalizing buffer applied with
  | nil =>
      cases h
      rfl
  | cons edit rest ih =>
      obtain ⟨next, done, others, hstep, hrest, rfl⟩ := exists_step_of_runAll_cons h
      exact AppliedEdit.replayAll?_cons_eq_some_iff.2
        ⟨chars next, Numbered.replay?_of_applyTo hstep, ih hrest⟩

end Run

namespace ApplyOptions

variable {β : Type} [TextBuffer β] {options : ApplyOptions} {buffer changed : β} {edits : Batch}
  {delta : Delta}

/-- A batch ready to be applied keeps its new texts at their positions. -/
theorem map_newText_getElem? {resolved : Batch} {edit : Numbered}
    (h : options.resolve buffer edits = .ok resolved)
    (hedit : edit ∈ Batch.numbered resolved) :
    edits[edit.index]?.map Change.newText = some edit.change.newText := by
  have hresolved := (Batch.toCharacters_eq_ok_iff.1 (resolve_eq_ok_iff.1 h).1).2
  have hplace := Batch.mem_numbered.1 hedit
  rw [hresolved, List.getElem?_map] at hplace
  obtain ⟨change, hchange, hrestated⟩ := Option.map_eq_some_iff.1 hplace
  rw [hchange, Option.map_some, ← hrestated]
  rfl

/-- The delta of a successful application names the changes in the order of application, with their
new texts; its edits lead from the text before to the text after, and taken back from the last to the
first they lead to the text before; and it counts the characters of both texts.  The changes may
overlap, and delete what others of the batch have inserted. -/
theorem delta_replays_and_rewinds [FaithfulBuffer β]
    (happly : options.apply buffer edits = ⟨changed, .ok delta⟩ ∨
      options.applyInPlace buffer edits = ⟨changed, .ok delta⟩) :
    delta.edits.map AppliedEdit.index = edits.applicationOrder.map Numbered.index ∧
      (∀ entry ∈ delta.edits,
        edits[entry.index]?.map Change.newText = some entry.insertedText) ∧
      delta.replay? (chars buffer) = some (chars changed) ∧
      delta.rewind? (chars changed) = some (chars buffer) ∧
      delta.beforeCount = (chars buffer).length ∧
      delta.afterCount = (chars changed).length ∧
      (delta.afterCount : Int) =
        delta.beforeCount - (delta.edits.map AppliedEdit.deletedLength).sum +
          (delta.edits.map AppliedEdit.insertedLength).sum := by
  have hplace : options.applyInPlace buffer edits = ⟨changed, .ok delta⟩ := by
    rcases happly with hwhole | hplace
    · exact apply_eq_ok_iff.1 hwhole
    · exact hplace
  obtain ⟨resolved, hresolve, hrun, hbefore, hafter⟩ := exists_run_of_ok (by rw [hplace])
  rw [hplace] at hrun hafter
  have hnames := names_of_runAll hrun
  have hreplay := replayAll?_of_runAll hrun
  rw [FaithfulBuffer.length_eq] at hbefore hafter
  refine ⟨?_, ?_, hreplay, AppliedEdit.replayAll?_inverse hreplay, hbefore, hafter, ?_⟩
  · have hindices := congrArg (List.map Prod.fst) hnames
    rw [List.map_map, List.map_map] at hindices
    exact hindices.trans (map_index_applicationOrder hresolve)
  · intro entry hentry
    have hnamed := List.mem_map_of_mem (f := fun done : AppliedEdit =>
      (done.index, done.insertedText)) hentry
    rw [hnames] at hnamed
    obtain ⟨edit, hedit, hsame⟩ := List.mem_map.1 hnamed
    obtain ⟨hindex, htext⟩ := Prod.mk.inj hsame
    rw [← hindex, ← htext]
    exact map_newText_getElem? hresolve (Batch.mem_applicationOrder.1 hedit)
  · rw [hbefore, hafter]
    exact AppliedEdit.length_replayAll? hreplay

/-- The second change made deletes a part of what the first one has inserted. -/
theorem delta_replays_and_rewinds_across_overlap :
    ∃ changed delta,
      applyInPlace ⟨.allow, .utf16⟩ (Document.ofString "a😀bcd")
        [.replace 1 4 "x", .replace 3 1 "yz"] = ⟨changed, .ok delta⟩ ∧
      delta = ⟨5, 4, [⟨1, 2, "b", "yz"⟩, ⟨0, 1, "😀yz", "x"⟩]⟩ ∧
      delta.replay? (chars (Document.ofString "a😀bcd")) = some (chars changed) ∧
      delta.rewind? (chars changed) = some (chars (Document.ofString "a😀bcd")) := by
  have hresult : (applyInPlace ⟨.allow, .utf16⟩ (Document.ofString "a😀bcd")
      [.replace 1 4 "x", .replace 3 1 "yz"]).result =
        .ok ⟨5, 4, [⟨1, 2, "b", "yz"⟩, ⟨0, 1, "😀yz", "x"⟩]⟩ := by cbv
  generalize houtcome : applyInPlace ⟨.allow, .utf16⟩ (Document.ofString "a😀bcd")
    [.replace 1 4 "x", .replace 3 1 "yz"] = outcome at *
  obtain ⟨changed, result⟩ := outcome
  cases hresult
  obtain ⟨_, _, hreplay, hrewind, _⟩ := delta_replays_and_rewinds (Or.inr houtcome)
  exact ⟨changed, _, rfl, rfl, hreplay, hrewind⟩

end ApplyOptions

end TextEditing
