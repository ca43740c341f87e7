/-
Module: TextEditing.Proofs.OffsetTable
Purpose: What the offset table of a text says about the text, and what a conversion to characters
  yields.
Main exports: OffsetUnit.measure_character, OffsetTable.encodedLength_ofText,
  OffsetTable.toCharacter_le, OffsetTable.exists_changeToCharacters_error,
  Batch.toCharacters_stop_le, Batch.toCharacters_error
-/
import TextEditing.Edit.Conversion

namespace TextEditing

theorem OffsetUnit.measure_character (text : List Char) :
    OffsetUnit.character.measure text = text.length := by
  induction text with
  | nil => rfl
  | cons c rest ih =>
      rw [measure_cons, ih, List.length_cons, Nat.add_comm]
      rfl

namespace OffsetTable

variable {unit : OffsetUnit} {text : String} {table : OffsetTable}

theorem length_boundariesFrom (unit : OffsetUnit) (offset : Nat) (chars : List Char) :
    (boundariesFrom unit offset chars).length = chars.length + 1 := by
  induction chars generalizing offset with
  | nil => rfl
  | cons c rest ih => rw [boundariesFrom, List.length_cons, ih, List.length_cons]

theorem getLast?_boundariesFrom (unit : OffsetUnit) (offset : Nat) (chars : List Char) :
    (boundariesFrom unit offset chars).getLast? = some (offset + unit.measure chars) := by
  induction chars generalizing offset with
  | nil => rfl
  | cons c rest ih =>
      rw [boundariesFrom, List.getLast?_cons, ih, OffsetUnit.measure_cons, Option.getD_some,
        Nat.add_assoc]

/-- The last boundary of a text is its length in the unit. -/
theorem encodedLength_ofText (unit : OffsetUnit) (text : String) :
    (ofText unit text).encodedLength = unit.measure text.toList := by
  rw [encodedLength, ofText, List.back?_toArray, getLast?_boundariesFrom, Option.getD_some,
    Nat.zero_add]

theorem search_lt_size {boundaries : Array Nat} {offset low high place : Nat}
    (h : search boundaries offset low high = some place) : place < boundaries.size := by
  fun_induction search boundaries offset low high with
  | case1 => cases h
  | case2 low high hlow middle hfound =>
      rw [← Option.some.inj h]
      exact (Array.getElem?_eq_some_iff.1 hfound).1
  | case3 low high hlow middle boundary hfound hne hless ih => exact ih h
  | case4 low high hlow middle boundary hfound hne hless ih => exact ih h
  | case5 => cases h

/-- A place found in the table of a text lies inside the text. -/
theorem toCharacter_le {offset place : Nat}
    (h : (ofText unit text).toCharacter offset = .ok place) : place ≤ text.toList.length := by
  unfold toCharacter at h
  split at h
  · cases h
  · split at h
    · rename_i found hsearch
      cases h
      have hlt := search_lt_size hsearch
      rw [ofText, List.size_toArray, length_boundariesFrom] at hlt
      exact Nat.le_of_lt_succ hlt
    · cases h

theorem spanToCharacters_stop_le {span result : Span}
    (h : (ofText unit text).spanToCharacters span = .ok result) :
    result.start + result.length ≤ text.toList.length := by
  unfold spanToCharacters at h
  split at h
  · cases h
  · rename_i stop _
    cases hfirst : (ofText unit text).toCharacter span.start with
    | error fault =>
        rw [hfirst] at h
        cases h
    | ok first =>
        cases hlast : (ofText unit text).toCharacter stop with
        | error fault =>
            rw [hfirst, hlast] at h
            cases h
        | ok last =>
            rw [hfirst, hlast] at h
            cases h
            have hfirst := toCharacter_le hfirst
            have hlast := toCharacter_le hlast
            simp only [Span.ofBounds]
            omega

/-- Several changes are restated one after the other, up to the first without a counterpart. -/
theorem changesToCharacters_cons_ok_iff {index : Nat} {change : Change}
    {rest resolved : List Change} :
    table.changesToCharacters index (change :: rest) = .ok resolved ↔
      ∃ first others, table.changeToCharacters index change = .ok first ∧
        table.changesToCharacters (index + 1) rest = .ok others ∧ resolved = first :: others := by
  rw [changesToCharacters]
  cases table.changeToCharacters index change with
  | error cause => simp [bind, Except.bind]
  | ok first =>
      cases table.changesToCharacters (index + 1) rest with
      | error cause => simp [bind, Except.bind]
      | ok others => simp [bind, Except.bind, pure, Except.pure, eq_comm]

theorem changesToCharacters_cons_error_iff {index : Nat} {change : Change}
    {rest : List Change} {cause : ApplyError} :
    table.changesToCharacters index (change :: rest) = .error cause ↔
      table.changeToCharacters index change = .error cause ∨
        ∃ first, table.changeToCharacters index change = .ok first ∧
          table.changesToCharacters (index + 1) rest = .error cause := by
  rw [changesToCharacters]
  cases table.changeToCharacters index change with
  | error cause => simp [bind, Except.bind]
  | ok first =>
      cases table.changesToCharacters (index + 1) rest with
      | error cause => simp [bind, Except.bind]
      | ok others => simp [bind, Except.bind, pure, Except.pure]

theorem changeToCharacters_stop_le {index : Nat} {change result : Change}
    (h : (ofText unit text).changeToCharacters index change = .ok result) :
    result.span.start + result.span.length ≤ text.toList.length := by
  unfold changeToCharacters at h
  split at h
  · rename_i span hspan
    cases h
    exact spanToCharacters_stop_le hspan
  · cases h

/-- A change without a counterpart is out of range in the text as measured in the unit, or one of
its ends lies inside a character. -/
theorem changeToCharacters_error {index : Nat} {change : Change} {cause : ApplyError}
    (h : table.changeToCharacters index change = .error cause) :
    cause = .outOfBounds index change.span table.encodedLength ∨
      ∃ offset, cause = .misaligned index offset ∧
        (offset = change.span.start ∨ offset = change.span.start + change.span.length) := by
  unfold changeToCharacters at h
  split at h
  · cases h
  · rename_i fault _
    cases h
    cases fault with
    | outOfRange => exact Or.inl rfl
    | misaligned =>
        simp only [rejection]
        split
        · exact Or.inr ⟨_, rfl, Or.inl rfl⟩
        · exact Or.inr ⟨_, rfl, Or.inr rfl⟩

theorem changesToCharacters_stop_le {index : Nat} {edits resolved : List Change}
    (h : (ofText unit text).changesToCharacters index edits = .ok resolved) :
    ∀ change ∈ resolved, change.span.start + change.span.length ≤ text.toList.length := by
  induction edits generalizing index resolved with
  | nil =>
      cases h
      simp
  | cons change rest ih =>
      obtain ⟨first, others, hfirst, hothers, rfl⟩ := changesToCharacters_cons_ok_iff.1 h
      intro result hresult
      rcases List.mem_cons.1 hresult with rfl | hmem
      · exact changeToCharacters_stop_le hfirst
      · exact ih hothers result hmem

/-- It is a change of the batch that has no counterpart, and the error is about its position. -/
theorem exists_changeToCharacters_error {index : Nat} {edits : List Change} {cause : ApplyError}
    (h : table.changesToCharacters index edits = .error cause) :
    ∃ place change, edits[place]? = some change ∧
      table.changeToCharacters (index + place) change = .error cause := by
  induction edits generalizing index with
  | nil => cases h
  | cons change rest ih =>
      rcases changesToCharacters_cons_error_iff.1 h with hfirst | ⟨_, _, hrest⟩
      · exact ⟨0, change, rfl, hfirst⟩
      · obtain ⟨place, other, hother, hcause⟩ := ih hrest
        refine ⟨place + 1, other, hother, ?_⟩
        rw [Nat.add_comm place 1, ← Nat.add_assoc]
        exact hcause

end OffsetTable

namespace Batch

variable {edits resolved : Batch} {unit : OffsetUnit} {text : String}

theorem toCharacters_of_ne (h : unit ≠ .character) :
    edits.toCharacters unit text =
      (OffsetTable.ofText unit text).changesToCharacters 0 edits :=
  if_neg h

/-- Unless it was counted in characters all along, a converted batch fits into its text. -/
theorem toCharacters_stop_le (hunit : unit ≠ .character)
    (h : edits.toCharacters unit text = .ok resolved) :
    ∀ change ∈ resolved, change.span.start + change.span.length ≤ text.toList.length := by
  rw [toCharacters_of_ne hunit] at h
  exact OffsetTable.changesToCharacters_stop_le h

/-- A batch without a counterpart was not counted in characters, and a length that is named is the
length of the text in the unit of the batch. -/
theorem toCharacters_error {cause : ApplyError}
    (h : edits.toCharacters unit text = .error cause) :
    unit ≠ .character ∧
      ((∃ index span, cause = .outOfBounds index span (unit.measure text.toList)) ∨
        ∃ index offset, cause = .misaligned index offset) := by
  by_cases hunit : unit = .character
  · subst hunit
    cases h
  · rw [toCharacters_of_ne hunit] at h
    obtain ⟨place, change, _, hchange⟩ := OffsetTable.exists_changeToCharacters_error h
    refine ⟨hunit, ?_⟩
    rcases OffsetTable.changeToCharacters_error hchange with hcause | ⟨offset, hcause, _⟩
    · rw [OffsetTable.encodedLength_ofText] at hcause
      exact Or.inl ⟨_, _, hcause⟩
    · exact Or.inr ⟨_, _, hcause⟩

end Batch

end TextEditing
