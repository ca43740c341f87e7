/-
Module: TextEditing.Proofs.Reordering
Purpose: The order in which a batch lists its changes matters only among changes with one start.
Main exports: Batch.Reorders, Batch.Reorders.scanOrder_eq, Batch.Reorders.rejectConflict_eq,
  Outcome.rename, ApplyOptions.applyInPlace_reorder, ApplyOptions.apply_reordered
-/
import TextEditing.Proofs.Renumbering

namespace TextEditing

/-!
A batch is searched for conflicts and applied in the order of start and position.  Listed in another
order, in which changes with one start still follow one another as before, the same changes come in
the same order under new positions: the search meets the same ends, the run makes the same changes,
and both write down the new positions.  Only the conversion to characters goes through the batch as
it is listed, so of two changes without a counterpart it may name another one.
-/

/-- `permuted` lists the changes of `edits` in another order, the one at position `i` at `place i`,
and changes with one start in the order in which they were. -/
structure Batch.Reorders (place : Nat → Nat) (edits permuted : Batch) : Prop where
  perm : (numbered permuted).Perm ((numbered edits).map (Numbered.renumber place))
  keeps_ties : ∀ a ∈ numbered edits, ∀ b ∈ numbered edits,
    a.start = b.start → a.index < b.index → place a.index < place b.index

/-- The conflict with other positions. -/
def Conflict.renumber (f : Nat → Nat) (conflict : Conflict) : Conflict where
  later := conflict.later.renumber f
  earlier := conflict.earlier.renumber f

/-- The delta with other positions. -/
def Delta.renumber (f : Nat → Nat) (delta : Delta) : Delta :=
  { delta with edits := delta.edits.map (AppliedEdit.renumber f) }

/-- The interruption with other positions. -/
def Interruption.renumber (f : Nat → Nat) (interruption : Interruption) : Interruption :=
  { interruption with cause := interruption.cause.renumber f }

/-- The outcome with other positions in the delta, and the error put differently. -/
def Outcome.rename {β ε : Type} (f : Nat → Nat) (renameError : ε → ε) (outcome : Outcome β ε) :
    Outcome β ε where
  buffer := outcome.buffer
  result := (outcome.result.map (Delta.renumber f)).mapError renameError

namespace Batch

/-- The search compares starts and ends, and carries positions along. -/
theorem conflictAfter?_renumber (f : Nat → Nat) (furthest : Numbered) (rest : List Numbered) :
    conflictAfter? (furthest.renumber f) (rest.map (Numbered.renumber f)) =
      (conflictAfter? furthest rest).map (Conflict.renumber f) :=
  conflictAfter?_map (fun _ _ _ _ => Iff.rfl) fun _ _ _ _ => Iff.rfl

variable {place : Nat → Nat} {edits permuted : Batch}

namespace Reorders

variable (h : edits.Reorders place permuted)

include h

theorem mem_iff {change : Change} : change ∈ permuted ↔ change ∈ edits := by
  have hchanges := (h.perm.map Numbered.change).mem_iff (a := change)
  rw [map_change_numbered, List.map_map] at hchanges
  have hsame : (numbered edits).map (Numbered.change ∘ Numbered.renumber place) = edits :=
    map_change_numbered edits
  rw [hchanges, hsame]

/-- The scan meets the same changes in the same order. -/
theorem scanOrder_eq : scanOrder permuted = (scanOrder edits).map (Numbered.renumber place) := by
  have hascending := ascending_scanOrder edits
  refine (ascending_scanOrder permuted).eq ⟨(hascending.perm.map _).trans h.perm.symm, ?_⟩
  rw [List.pairwise_map]
  apply hascending.sorted.imp_of_mem
  intro a b ha hb hbefore
  rcases hbefore with hstart | ⟨hstart, hindex⟩
  · exact Or.inl hstart
  · exact Or.inr ⟨hstart,
      h.keeps_ties a (mem_scanOrder.1 ha) b (mem_scanOrder.1 hb) hstart hindex⟩

theorem applicationOrder_eq :
    applicationOrder permuted = (applicationOrder edits).map (Numbered.renumber place) := by
  rw [applicationOrder_eq_reverse, applicationOrder_eq_reverse, h.scanOrder_eq, List.map_reverse]

/-- The first conflict is between the same two changes. -/
theorem conflict?_eq : permuted.conflict? = edits.conflict?.map (Conflict.renumber place) := by
  rw [conflict?, conflict?, h.scanOrder_eq]
  cases scanOrder edits with
  | nil => rfl
  | cons first rest => exact conflictAfter?_renumber place first rest

theorem rejectConflict_eq :
    permuted.rejectConflict = edits.rejectConflict.mapError (ApplyError.renumber place) := by
  rw [rejectConflict, rejectConflict, h.conflict?_eq]
  cases edits.conflict? with
  | none => rfl
  | some conflict => rfl

/-- Counted in characters, the changes are reordered in the same way. -/
theorem restate {unit : OffsetUnit} {text : String} {resolved : Batch}
    (hchars : edits.toCharacters unit text = .ok resolved) :
    ∃ moved, permuted.toCharacters unit text = .ok moved ∧ resolved.Reorders place moved := by
  obtain ⟨hunit, rfl⟩ := toCharacters_eq_ok_iff.1 hchars
  refine ⟨permuted.map (Change.restate unit text), toCharacters_eq_ok_iff.2 ⟨?_, rfl⟩, ?_, ?_⟩
  · rcases hunit with hcharacter | haligned
    · exact Or.inl hcharacter
    · exact Or.inr fun change hchange => haligned change (h.mem_iff.1 hchange)
  · have hperm := h.perm.map (Numbered.restate unit text)
    rw [List.map_map] at hperm
    rw [numbered_map_restate, numbered_map_restate, List.map_map]
    exact hperm
  · rw [numbered_map_restate]
    intro a ha b hb hstart hindex
    obtain ⟨a, hfirst, rfl⟩ := List.mem_map.1 ha
    obtain ⟨b, hsecond, rfl⟩ := List.mem_map.1 hb
    have hlt := restate_start_lt_iff hchars hfirst hsecond
    have hgt := restate_start_lt_iff hchars hsecond hfirst
    exact h.keeps_ties a hfirst b hsecond (by omega) hindex

/-- If the changes can be restated in characters in the one order, they can in the other. -/
theorem exists_toCharacters {unit : OffsetUnit} {text : String} {moved : Batch}
    (hmoved : permuted.toCharacters unit text = .ok moved) :
    ∃ resolved, edits.toCharacters unit text = .ok resolved := by
  obtain ⟨hunit, _⟩ := toCharacters_eq_ok_iff.1 hmoved
  refine ⟨edits.map (Change.restate unit text), toCharacters_eq_ok_iff.2 ⟨?_, rfl⟩⟩
  rcases hunit with hcharacter | haligned
  · exact Or.inl hcharacter
  · exact Or.inr fun change hchange => haligned change (h.mem_iff.2 hchange)

end Reorders

end Batch

theorem Outcome.succeeds_rename {β ε : Type} {f : Nat → Nat} {renameError : ε → ε}
    {outcome : Outcome β ε} : (outcome.rename f renameError).Succeeds ↔ outcome.Succeeds := by
  obtain ⟨buffer, result⟩ := outcome
  cases result with
  | error cause => simp [Outcome.Succeeds, Outcome.rename, Except.map, Except.mapError]
  | ok delta => simp [Outcome.Succeeds, Outcome.rename, Except.map, Except.mapError]

namespace ApplyOptions

variable {β : Type} [TextBuffer β] {options : ApplyOptions} {buffer : β} {place : Nat → Nat}
  {edits permuted resolved : Batch}

/-- A batch that has a counterpart in characters is made ready, or refused for a conflict, in any
order. -/
theorem resolve_reorder (h : edits.Reorders place permuted)
    (hchars : edits.toCharacters options.unit (TextBuffer.contents buffer) = .ok resolved) :
    (∃ cause, options.resolve buffer edits = .error cause ∧
        options.resolve buffer permuted = .error (cause.renumber place)) ∨
      ∃ moved, options.resolve buffer edits = .ok resolved ∧
        options.resolve buffer permuted = .ok moved ∧ resolved.Reorders place moved := by
  obtain ⟨moved, hmoved, hreorders⟩ := h.restate hchars
  by_cases hreject : options.overlap = .reject
  · have hverdict := hreorders.rejectConflict_eq
    cases hconflict : resolved.rejectConflict with
    | error cause =>
        rw [hconflict] at hverdict
        left
        refine ⟨cause, ?_, ?_⟩
        · simp only [resolve, hchars, bind, Except.bind, if_pos hreject, hconflict]
        · simp only [resolve, hmoved, bind, Except.bind, if_pos hreject, hverdict]
          rfl
    | ok _ =>
        rw [hconflict] at hverdict
        have hnone := Batch.rejectConflict_eq_ok_iff.1 hconflict
        have hnone' := Batch.rejectConflict_eq_ok_iff.1 hverdict
        exact Or.inr ⟨moved, resolve_eq_ok_iff.2 ⟨hchars, fun _ => hnone⟩,
          resolve_eq_ok_iff.2 ⟨hmoved, fun _ => hnone'⟩, hreorders⟩
  · exact Or.inr ⟨moved, resolve_eq_ok_iff.2 ⟨hchars, fun h => absurd h hreject⟩,
      resolve_eq_ok_iff.2 ⟨hmoved, fun h => absurd h hreject⟩, hreorders⟩

/-- A batch that has a counterpart in characters is applied in any order in the same way. -/
theorem applyInPlace_reorder (h : edits.Reorders place permuted)
    (hchars : edits.toCharacters options.unit (TextBuffer.contents buffer) = .ok resolved) :
    options.applyInPlace buffer permuted =
      (options.applyInPlace buffer edits).rename place (Interruption.renumber place) := by
  rcases resolve_reorder h hchars with
    ⟨cause, hresolve, hrefused⟩ | ⟨moved, hresolve, hmoved, hreorders⟩
  · rw [applyInPlace_of_resolve_error hresolve, applyInPlace_of_resolve_error hrefused]
    rfl
  · have hrun : runAll buffer moved.applicationOrder =
        (runAll buffer resolved.applicationOrder).renumber place := by
      rw [hreorders.applicationOrder_eq, runAll_renumber]
    cases hfailure : (runAll buffer resolved.applicationOrder).failure with
    | none =>
        have hreached : (runAll buffer moved.applicationOrder).failure = none := by
          rw [hrun, Run.renumber, hfailure]
          rfl
        rw [applyInPlace_of_no_failure hresolve hfailure,
          applyInPlace_of_no_failure hmoved hreached, hrun]
        rfl
    | some cause =>
        have hstopped : (runAll buffer moved.applicationOrder).failure =
            some (cause.renumber place) := by
          rw [hrun, Run.renumber, hfailure]
          rfl
        rw [applyInPlace_of_failure hresolve hfailure, applyInPlace_of_failure hmoved hstopped,
          hrun]
        simp only [Run.renumber, List.length_map]
        rfl

theorem apply_reorder (h : edits.Reorders place permuted)
    (hchars : edits.toCharacters options.unit (TextBuffer.contents buffer) = .ok resolved) :
    options.apply buffer permuted =
      (options.apply buffer edits).rename place (ApplyError.renumber place) := by
  rw [apply_eq, apply_eq, applyInPlace_reorder h hchars]
  cases hresult : (options.applyInPlace buffer edits).result with
  | error interruption =>
      simp only [Outcome.rename, hresult]
      rfl
  | ok delta =>
      simp only [Outcome.rename, hresult]
      rfl

theorem exists_toCharacters_of_succeeds (h : (options.applyInPlace buffer edits).Succeeds) :
    ∃ resolved,
      edits.toCharacters options.unit (TextBuffer.contents buffer) = .ok resolved := by
  obtain ⟨delta, hok⟩ := h
  obtain ⟨resolved, hresolve, _⟩ := exists_run_of_ok hok
  exact ⟨resolved, (resolve_eq_ok_iff.1 hresolve).1⟩

theorem applyInPlace_succeeds_reorder_iff (h : edits.Reorders place permuted) :
    (options.applyInPlace buffer permuted).Succeeds ↔
      (options.applyInPlace buffer edits).Succeeds := by
  constructor
  · intro hsucceeds
    obtain ⟨moved, hmoved⟩ := exists_toCharacters_of_succeeds hsucceeds
    obtain ⟨resolved, hchars⟩ := h.exists_toCharacters hmoved
    rw [applyInPlace_reorder h hchars, Outcome.succeeds_rename] at hsucceeds
    exact hsucceeds
  · intro hsucceeds
    obtain ⟨resolved, hchars⟩ := exists_toCharacters_of_succeeds hsucceeds
    rw [applyInPlace_reorder h hchars, Outcome.succeeds_rename]
    exact hsucceeds

/-- A batch and the same changes in another order, in which those with one start follow one another
as before, succeed or fail together, whatever the policy, the unit and the buffer.  When they
succeed, the buffers are the same and the deltas differ in the positions only; counted in characters
they also fail at the same change, for the same reason and as late. -/
theorem apply_reordered (options : ApplyOptions) (buffer : β)
    (h : edits.Reorders place permuted) :
    ((options.apply buffer permuted).Succeeds ↔ (options.apply buffer edits).Succeeds) ∧
      ((options.applyInPlace buffer permuted).Succeeds ↔
        (options.applyInPlace buffer edits).Succeeds) ∧
      (options.unit = .character ∨ (options.apply buffer edits).Succeeds →
        options.apply buffer permuted =
          (options.apply buffer edits).rename place (ApplyError.renumber place)) ∧
      (options.unit = .character ∨ (options.applyInPlace buffer edits).Succeeds →
        options.applyInPlace buffer permuted =
          (options.applyInPlace buffer edits).rename place (Interruption.renumber place)) := by
  have hchars : options.unit = .character ∨ (options.applyInPlace buffer edits).Succeeds →
      ∃ resolved,
        edits.toCharacters options.unit (TextBuffer.contents buffer) = .ok resolved := by
    rintro (hcharacter | hsucceeds)
    · exact ⟨edits, if_pos hcharacter⟩
    · exact exists_toCharacters_of_succeeds hsucceeds
  have hiff : (options.applyInPlace buffer permuted).Succeeds ↔
      (options.applyInPlace buffer edits).Succeeds := applyInPlace_succeeds_reorder_iff h
  refine ⟨?_, hiff, ?_, ?_⟩
  · rw [apply_succeeds_iff, apply_succeeds_iff]
    exact hiff
  · intro hready
    rw [apply_succeeds_iff] at hready
    obtain ⟨resolved, hresolved⟩ := hchars hready
    exact apply_reorder h hresolved
  · intro hready
    obtain ⟨resolved, hresolved⟩ := hchars hready
    exact applyInPlace_reorder h hresolved

/-- Two insertions at one offset stay in order while the changes around them change places. -/
theorem apply_reordered_around_ties :
    Batch.Reorders (fun index => [3, 1, 2, 0].getD index 0)
        [.delete 0 2, .insert 3 "x", .insert 3 "z", .replace 1 1 "y"]
        [.replace 1 1 "y", .insert 3 "x", .insert 3 "z", .delete 0 2] ∧
      (apply ⟨.allow, .utf16⟩ (Document.ofString "abcd")
        [.replace 1 1 "y", .insert 3 "x", .insert 3 "z", .delete 0 2]).result =
          .ok ⟨4, 4, [⟨2, 3, "", "z"⟩, ⟨1, 3, "", "x"⟩, ⟨0, 1, "b", "y"⟩, ⟨3, 0, "ay", ""⟩]⟩ ∧
      (applyInPlace ⟨.reject, .character⟩ (Document.ofString "abcd")
        [.replace 1 1 "y", .insert 3 "x", .insert 3 "z", .delete 0 2]).result =
          .error ⟨0, .overlap 0 ⟨1, 1⟩ 3 ⟨0, 2⟩⟩ := by
  have hreorders : Batch.Reorders (fun index => [3, 1, 2, 0].getD index 0)
      [.delete 0 2, .insert 3 "x", .insert 3 "z", .replace 1 1 "y"]
      [.replace 1 1 "y", .insert 3 "x", .insert 3 "z", .delete 0 2] := ⟨by decide, by decide⟩
  have hmade : (apply ⟨.allow, .utf16⟩ (Document.ofString "abcd")
      [.delete 0 2, .insert 3 "x", .insert 3 "z", .replace 1 1 "y"]).result =
        .ok ⟨4, 4, [⟨2, 3, "", "z"⟩, ⟨1, 3, "", "x"⟩, ⟨3, 1, "b", "y"⟩, ⟨0, 0, "ay", ""⟩]⟩ := by
    cbv
  have hrefused : (applyInPlace ⟨.reject, .character⟩ (Document.ofString "abcd")
      [.delete 0 2, .insert 3 "x", .insert 3 "z", .replace 1 1 "y"]).result =
        .error ⟨0, .overlap 3 ⟨1, 1⟩ 0 ⟨0, 2⟩⟩ := by cbv
  obtain ⟨_, _, hset, _⟩ := apply_reordered ⟨.allow, .utf16⟩ (Document.ofString "abcd") hreorders
  obtain ⟨_, _, _, hplace⟩ :=
    apply_reordered ⟨.reject, .character⟩ (Document.ofString "abcd") hreorders
  refine ⟨hreorders, ?_, ?_⟩
  · rw [hset (Or.inr ⟨_, hmade⟩), Outcome.rename, hmade]
    rfl
  · rw [hplace (Or.inl rfl), Outcome.rename, hrefused]
    rfl

end ApplyOptions

end TextEditing
