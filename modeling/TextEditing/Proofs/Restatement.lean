/-
Module: TextEditing.Proofs.Restatement
Purpose: A batch restated in characters is the same batch with every span put differently: its order
  and its conflicts stay.
Main exports: Change.restate, Numbered.restate, Numbered.exists_places,
  Batch.toCharacters_eq_ok_iff, Batch.scanOrder_restate, Batch.applicationOrder_restate,
  Batch.compatible_restate_iff
-/
import TextEditing.Proofs.Boundaries
import TextEditing.Proofs.ScanOrder
import TextEditing.Proofs.Substitution

namespace TextEditing

/-!
The conversion to characters fails as soon as one change has no counterpart, and otherwise replaces
each change by its own counterpart, whatever else the batch holds.  Since places are in the order
of their offsets, nothing that depends only on comparing starts and ends notices the conversion:
neither the order of application nor the verdict about conflicts.
-/

namespace Change

variable {unit : OffsetUnit} {text : String} {change : Change} {first last : Nat}

/-- The change with its span counted in characters, if it has such a span. -/
def restate (unit : OffsetUnit) (text : String) (change : Change) : Change :=
  { change with
    span := ((OffsetTable.ofText unit text).spanToCharacters change.span).toOption.getD
      change.span }

theorem restate_of_covers (hmax : change.span.start + change.span.length ≤ maxOffset)
    (h : change.span.Covers unit text.toList first last) :
    change.restate unit text = .replace first (last - first) change.newText := by
  have hspan := OffsetTable.spanToCharacters_eq_ok_iff.2 ⟨hmax, first, last, h, rfl⟩
  rw [restate, hspan]
  rfl

/-- Restated in characters, an aligned change lies inside the text. -/
theorem fitsIn_restate (h : change.span.AlignedIn unit text.toList) :
    (change.restate unit text).span.FitsIn text.toList.length := by
  obtain ⟨first, last, hcovers⟩ := h.exists_covers
  have hend : first + (last - first) = last := Nat.add_sub_cancel' hcovers.ordered
  rw [restate_of_covers h.fits.1 hcovers]
  simp only [Span.FitsIn, replace, hend]
  exact ⟨Nat.le_trans hcovers.last_le h.fits.1, hcovers.inside⟩

/-- What is counted in characters stays as it is. -/
theorem restate_character (text : String) (change : Change) :
    change.restate .character text = change := by
  cases hspan : (OffsetTable.ofText .character text).spanToCharacters change.span with
  | error fault =>
      rw [restate, hspan]
      rfl
  | ok span =>
      obtain ⟨hmax, first, last, hcovers, _⟩ := OffsetTable.spanToCharacters_eq_ok_iff.1 hspan
      have hfirst := hcovers.measure_first
      have hlast := hcovers.measure_last
      rw [OffsetUnit.measure_character, List.length_take_of_le hcovers.first_inside] at hfirst
      rw [OffsetUnit.measure_character, List.length_take_of_le hcovers.inside] at hlast
      rw [restate_of_covers hmax hcovers, hfirst, hlast, Nat.add_sub_cancel_left]
      rfl

end Change

theorem OffsetTable.changeToCharacters_eq_ok_iff {unit : OffsetUnit} {text : String} {index : Nat}
    {change result : Change} :
    (ofText unit text).changeToCharacters index change = .ok result ↔
      change.span.AlignedIn unit text.toList ∧ result = change.restate unit text := by
  unfold changeToCharacters
  cases hspan : (ofText unit text).spanToCharacters change.span with
  | error fault =>
      simp only [reduceCtorEq, false_iff]
      rintro ⟨haligned, _⟩
      obtain ⟨first, last, hcovers⟩ := haligned.exists_covers
      rw [spanToCharacters_eq_ok_iff.2 ⟨haligned.fits.1, first, last, hcovers, rfl⟩] at hspan
      cases hspan
  | ok span =>
      obtain ⟨hmax, first, last, hcovers, rfl⟩ := spanToCharacters_eq_ok_iff.1 hspan
      rw [Change.restate_of_covers hmax hcovers, Except.ok.injEq, eq_comm (b := result)]
      exact (and_iff_right (hcovers.aligned hmax)).symm

theorem OffsetTable.changesToCharacters_eq_ok_iff {unit : OffsetUnit} {text : String}
    {index : Nat} {edits resolved : List Change} :
    (ofText unit text).changesToCharacters index edits = .ok resolved ↔
      (∀ change ∈ edits, change.span.AlignedIn unit text.toList) ∧
        resolved = edits.map (Change.restate unit text) := by
  induction edits generalizing index resolved with
  | nil => simp [changesToCharacters, eq_comm]
  | cons change rest ih =>
      rw [changesToCharacters_cons_ok_iff]
      constructor
      · rintro ⟨first, others, hfirst, hothers, rfl⟩
        obtain ⟨haligned, rfl⟩ := changeToCharacters_eq_ok_iff.1 hfirst
        obtain ⟨hrest, rfl⟩ := ih.1 hothers
        exact ⟨List.forall_mem_cons.2 ⟨haligned, hrest⟩, rfl⟩
      · rintro ⟨haligned, rfl⟩
        obtain ⟨hfirst, hrest⟩ := List.forall_mem_cons.1 haligned
        exact ⟨_, _, changeToCharacters_eq_ok_iff.2 ⟨hfirst, rfl⟩, ih.2 ⟨hrest, rfl⟩, rfl⟩

namespace Numbered

variable {unit : OffsetUnit} {text : String} {a b : Numbered}

/-- The counterpart in characters, at the same position. -/
def restate (unit : OffsetUnit) (text : String) (edit : Numbered) : Numbered :=
  { edit with change := edit.change.restate unit text }

/-- In characters an aligned change begins and ends at the places of its offsets. -/
theorem exists_places (h : a.change.span.AlignedIn unit text.toList) :
    ∃ first last, a.change.span.Covers unit text.toList first last ∧
      (a.restate unit text).start = first ∧ (a.restate unit text).reach = last ∧
      unit.measure (text.toList.take last) = a.reach := by
  have hfits := Change.fitsIn_restate h
  obtain ⟨first, last, hcovers⟩ := h.exists_covers
  have hend : first + (last - first) = last := Nat.add_sub_cancel' hcovers.ordered
  have hrestate := Change.restate_of_covers h.fits.1 hcovers
  refine ⟨first, last, hcovers, ?_, ?_, ?_⟩
  · simp only [restate, start, hrestate, Change.replace]
  · simp only [restate, reach, Span.reach_of_le hfits.1]
    rw [hrestate]
    exact hend
  · rw [hcovers.measure_last, reach, Span.reach_of_le h.fits.1]

theorem restate_start_lt_iff (ha : a.change.span.AlignedIn unit text.toList)
    (hb : b.change.span.AlignedIn unit text.toList) :
    (a.restate unit text).start < (b.restate unit text).start ↔ a.start < b.start := by
  obtain ⟨first, _, hcovers, hstart, _⟩ := exists_places ha
  obtain ⟨first', _, hcovers', hstart', _⟩ := exists_places hb
  rw [hstart, hstart', start, start, ← hcovers.measure_first, ← hcovers'.measure_first,
    OffsetUnit.measure_take_lt_iff hcovers'.first_inside]

theorem restate_reach_le_iff (ha : a.change.span.AlignedIn unit text.toList)
    (hb : b.change.span.AlignedIn unit text.toList) :
    (a.restate unit text).reach ≤ (b.restate unit text).start ↔ a.reach ≤ b.start := by
  obtain ⟨_, last, hcovers, _, hreach, hlast⟩ := exists_places ha
  obtain ⟨first', _, hcovers', hstart', _⟩ := exists_places hb
  rw [hreach, hstart', start, ← hlast, ← hcovers'.measure_first,
    OffsetUnit.measure_take_le_iff hcovers.inside]

theorem restate_reach_lt_iff (ha : a.change.span.AlignedIn unit text.toList)
    (hb : b.change.span.AlignedIn unit text.toList) :
    (a.restate unit text).reach < (b.restate unit text).reach ↔ a.reach < b.reach := by
  obtain ⟨_, last, _, _, hreach, hlast⟩ := exists_places ha
  obtain ⟨_, last', hcovers', _, hreach', hlast'⟩ := exists_places hb
  rw [hreach, hreach', ← hlast, ← hlast', OffsetUnit.measure_take_lt_iff hcovers'.inside]

theorem before_restate_iff (ha : a.change.span.AlignedIn unit text.toList)
    (hb : b.change.span.AlignedIn unit text.toList) :
    (a.restate unit text).Before (b.restate unit text) ↔ a.Before b := by
  have hlt := restate_start_lt_iff ha hb
  have hgt := restate_start_lt_iff hb ha
  have hindex : (a.restate unit text).index = a.index := rfl
  have hindex' : (b.restate unit text).index = b.index := rfl
  simp only [Before]
  omega

theorem precedes_restate (ha : a.change.span.AlignedIn unit text.toList)
    (hb : b.change.span.AlignedIn unit text.toList) :
    (a.restate unit text).precedes (b.restate unit text) = a.precedes b := by
  rw [Bool.eq_iff_iff, precedes_iff_not_before, precedes_iff_not_before,
    before_restate_iff hb ha]

theorem restate_character (text : String) (edit : Numbered) :
    edit.restate .character text = edit := by
  rw [restate, Change.restate_character]

end Numbered

namespace Batch

variable {edits resolved : Batch} {unit : OffsetUnit} {text : String}

/-- A batch is restated in characters exactly if it was counted in them or every span is aligned,
and then each change is restated by itself. -/
theorem toCharacters_eq_ok_iff :
    edits.toCharacters unit text = .ok resolved ↔
      (unit = .character ∨ ∀ change ∈ edits, change.span.AlignedIn unit text.toList) ∧
        resolved = edits.map (Change.restate unit text) := by
  by_cases hunit : unit = .character
  · subst hunit
    have hsame : edits.map (Change.restate .character text) = edits := by
      rw [List.map_congr_left fun change _ => Change.restate_character text change, List.map_id']
    rw [toCharacters, if_pos rfl, Except.ok.injEq, hsame, eq_comm (a := edits)]
    exact (and_iff_right (Or.inl rfl)).symm
  · rw [toCharacters_of_ne hunit, OffsetTable.changesToCharacters_eq_ok_iff, or_iff_right hunit]

theorem numbered_map_restate (edits : Batch) (unit : OffsetUnit) (text : String) :
    numbered (edits.map (Change.restate unit text)) =
      (numbered edits).map (Numbered.restate unit text) := by
  apply List.ext_getElem?
  intro i
  rw [List.getElem?_map, numbered, numbered, List.getElem?_mapIdx, List.getElem?_mapIdx,
    List.getElem?_map]
  cases edits[i]? <;> rfl

/-- A batch that can be restated is counted in characters already, or its changes are aligned. -/
theorem restate_cases (h : edits.toCharacters unit text = .ok resolved) :
    (∀ edit : Numbered, edit.restate unit text = edit) ∨
      ∀ edit ∈ numbered edits, edit.change.span.AlignedIn unit text.toList := by
  obtain ⟨rfl | haligned, _⟩ := toCharacters_eq_ok_iff.1 h
  · exact Or.inl (Numbered.restate_character text)
  · exact Or.inr fun edit hedit => haligned _ (numbered_change_mem hedit)

section

variable {a b : Numbered} (h : edits.toCharacters unit text = .ok resolved)
  (ha : a ∈ numbered edits) (hb : b ∈ numbered edits)

include h ha hb

/-- Restating does not change which of two changes starts first. -/
theorem restate_start_lt_iff :
    (a.restate unit text).start < (b.restate unit text).start ↔ a.start < b.start := by
  rcases restate_cases h with hsame | haligned
  · rw [hsame, hsame]
  · exact Numbered.restate_start_lt_iff (haligned a ha) (haligned b hb)

/-- Restating does not change whether a change starts before the end of another one. -/
theorem restate_start_lt_reach_iff :
    (a.restate unit text).start < (b.restate unit text).reach ↔ a.start < b.reach := by
  rcases restate_cases h with hsame | haligned
  · rw [hsame, hsame]
  · have hle := Numbered.restate_reach_le_iff (haligned b hb) (haligned a ha)
    omega

/-- Restating does not change which of two changes ends first. -/
theorem restate_reach_lt_iff :
    (a.restate unit text).reach < (b.restate unit text).reach ↔ a.reach < b.reach := by
  rcases restate_cases h with hsame | haligned
  · rw [hsame, hsame]
  · exact Numbered.restate_reach_lt_iff (haligned a ha) (haligned b hb)

/-- Restating does not change which of two changes comes first. -/
theorem precedes_restate :
    (a.restate unit text).precedes (b.restate unit text) = a.precedes b := by
  rcases restate_cases h with hsame | haligned
  · rw [hsame, hsame]
  · exact Numbered.precedes_restate (haligned a ha) (haligned b hb)

end

theorem scanOrder_restate (h : edits.toCharacters unit text = .ok resolved) :
    scanOrder resolved = (scanOrder edits).map (Numbered.restate unit text) := by
  have hresolved := (toCharacters_eq_ok_iff.1 h).2
  rw [hresolved, scanOrder, numbered_map_restate, scanOrder]
  exact (List.map_mergeSort fun a ha b hb => (precedes_restate h ha hb).symm).symm

theorem applicationOrder_restate (h : edits.toCharacters unit text = .ok resolved) :
    applicationOrder resolved = (applicationOrder edits).map (Numbered.restate unit text) := by
  rw [applicationOrder_eq_reverse, applicationOrder_eq_reverse, scanOrder_restate h,
    List.map_reverse]

/-- Restated in characters, the same positions come in the same order. -/
theorem map_index_applicationOrder_restate (h : edits.toCharacters unit text = .ok resolved) :
    (applicationOrder resolved).map Numbered.index =
      (applicationOrder edits).map Numbered.index := by
  rw [applicationOrder_restate h, List.map_map]
  rfl

/-- Restating neither makes nor mends a conflict. -/
theorem compatible_restate_iff
    (h : ∀ change ∈ edits, change.span.AlignedIn unit text.toList) :
    Compatible (edits.map (Change.restate unit text)) ↔ Compatible edits := by
  have haligned : ∀ edit ∈ numbered edits, edit.change.span.AlignedIn unit text.toList :=
    fun edit hedit => h _ (numbered_change_mem hedit)
  simp only [Compatible, numbered_map_restate, List.forall_mem_map]
  constructor
  · intro hcompatible a ha b hb hbefore
    rw [← Numbered.restate_reach_le_iff (haligned a ha) (haligned b hb)]
    exact hcompatible a ha b hb
      ((Numbered.before_restate_iff (haligned a ha) (haligned b hb)).2 hbefore)
  · intro hcompatible a ha b hb hbefore
    rw [Numbered.restate_reach_le_iff (haligned a ha) (haligned b hb)]
    exact hcompatible a ha b hb
      ((Numbered.before_restate_iff (haligned a ha) (haligned b hb)).1 hbefore)

theorem compatible_toCharacters_iff (h : edits.toCharacters unit text = .ok resolved) :
    resolved.Compatible ↔ edits.Compatible := by
  obtain ⟨rfl | haligned, rfl⟩ := toCharacters_eq_ok_iff.1 h
  · rw [List.map_congr_left fun change _ => Change.restate_character text change, List.map_id']
  · exact compatible_restate_iff haligned

theorem fits_restate (h : ∀ change ∈ edits, change.span.AlignedIn unit text.toList) :
    Fits (edits.map (Change.restate unit text)) text.toList.length := by
  intro change hchange
  obtain ⟨original, horiginal, rfl⟩ := List.mem_map.1 hchange
  exact Change.fitsIn_restate (h original horiginal)

end Batch

end TextEditing
