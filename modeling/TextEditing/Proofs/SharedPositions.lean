/-
Module: TextEditing.Proofs.SharedPositions
Purpose: Two spans overlap exactly if they share a position in front of the largest offset.
Main exports: Span.Share, Span.contains_iff_of_lt, Span.contains_maxOffset_iff,
  Span.overlaps_iff_exists_lt, Span.overlaps_decides_sharing
-/
import TextEditing.Proofs.Conflicts

namespace TextEditing.Span

/-!
Whether spans overlap is decided by where they start and by their ends cut at the largest offset, so
no span reaches over the largest offset itself.  A span without an end does contain that offset.  The
two views agree as soon as the spans share any position further in front, and the later one of the two
starts is the first position that they share, if there is one.
-/

/-- Some position of 64 bits lies inside both spans. -/
def Share (a b : Span) : Prop :=
  ∃ offset ≤ maxOffset, a.Contains offset ∧ b.Contains offset

variable {a b span : Span} {offset : Nat}

/-- In front of the largest offset, a span contains what lies between its start and its end, and it
does not matter that the end is cut. -/
theorem contains_iff_of_lt (h : offset < maxOffset) :
    span.Contains offset ↔ span.start ≤ offset ∧ offset < span.reach := by
  unfold Contains reach
  cases hstop : span.stop? with
  | none => simp [h]
  | some stop => simp

/-- The largest offset lies inside the spans that start at it or in front of it and have no end. -/
theorem contains_maxOffset_iff :
    span.Contains maxOffset ↔ span.start ≤ maxOffset ∧ maxOffset < span.start + span.length := by
  unfold Contains stop?
  split
  · rename_i hle
    simp
  · rename_i hlt
    simp [Nat.lt_of_not_le hlt]

theorem isEmpty_eq_false_iff : span.isEmpty = false ↔ 0 < span.length := by
  rw [isEmpty, beq_eq_false_iff_ne, Nat.pos_iff_ne_zero]

/-- A span with a position in front of its end that is cut is not empty. -/
theorem isEmpty_eq_false_of_lt_reach (hstart : span.start ≤ offset) (hreach : offset < span.reach) :
    span.isEmpty = false := by
  have hcut := span.reach_eq_min
  exact isEmpty_eq_false_iff.2 (by omega)

/-- A span that is not empty and starts in front of the largest offset reaches beyond its start. -/
theorem start_lt_reach (h : span.isEmpty = false) (hstart : span.start < maxOffset) :
    span.start < span.reach := by
  have hcut := span.reach_eq_min
  have hlength := isEmpty_eq_false_iff.1 h
  omega

theorem reach_le_maxOffset (span : Span) : span.reach ≤ maxOffset := by
  rw [reach_eq_min]
  exact Nat.min_le_right _ _

theorem overlaps_iff_exists_lt :
    a.Overlaps b ↔ ∃ offset < maxOffset, a.Contains offset ∧ b.Contains offset := by
  constructor
  · rintro ⟨hleft, hright, hlt, hlt'⟩
    have hstart : a.start < maxOffset := Nat.lt_of_lt_of_le hlt b.reach_le_maxOffset
    have hstart' : b.start < maxOffset := Nat.lt_of_lt_of_le hlt' a.reach_le_maxOffset
    have hbelow : max a.start b.start < maxOffset := Nat.max_lt.2 ⟨hstart, hstart'⟩
    refine ⟨max a.start b.start, hbelow, ?_, ?_⟩
    · rw [contains_iff_of_lt hbelow]
      exact ⟨Nat.le_max_left _ _, Nat.max_lt.2 ⟨start_lt_reach hleft hstart, hlt'⟩⟩
    · rw [contains_iff_of_lt hbelow]
      exact ⟨Nat.le_max_right _ _, Nat.max_lt.2 ⟨hlt, start_lt_reach hright hstart'⟩⟩
  · rintro ⟨offset, hbelow, hleft, hright⟩
    obtain ⟨hstart, hreach⟩ := (contains_iff_of_lt hbelow).1 hleft
    obtain ⟨hstart', hreach'⟩ := (contains_iff_of_lt hbelow).1 hright
    exact ⟨isEmpty_eq_false_of_lt_reach hstart hreach,
      isEmpty_eq_false_of_lt_reach hstart' hreach',
      Nat.lt_of_le_of_lt hstart hreach', Nat.lt_of_le_of_lt hstart' hreach⟩

/-- Spans that share a position overlap, or it is the largest offset that they share. -/
theorem share_iff :
    a.Share b ↔ a.Overlaps b ∨ (a.Contains maxOffset ∧ b.Contains maxOffset) := by
  rw [overlaps_iff_exists_lt]
  constructor
  · rintro ⟨offset, hle, hboth⟩
    rcases Nat.lt_or_eq_of_le hle with hlt | rfl
    · exact .inl ⟨offset, hlt, hboth⟩
    · exact .inr hboth
  · rintro (⟨offset, hlt, hboth⟩ | hboth)
    · exact ⟨offset, Nat.le_of_lt hlt, hboth⟩
    · exact ⟨maxOffset, Nat.le_refl _, hboth⟩

/-- Spans that both contain the largest offset overlap, unless one of them starts there. -/
theorem overlaps_iff_of_contains_maxOffset (ha : a.Contains maxOffset) (hb : b.Contains maxOffset) :
    a.Overlaps b ↔ max a.start b.start ≠ maxOffset := by
  obtain ⟨hstart, hend⟩ := contains_maxOffset_iff.1 ha
  obtain ⟨hstart', hend'⟩ := contains_maxOffset_iff.1 hb
  have hreach : a.reach = maxOffset := by
    rw [reach_eq_min, Nat.min_eq_right (Nat.le_of_lt hend)]
  have hreach' : b.reach = maxOffset := by
    rw [reach_eq_min, Nat.min_eq_right (Nat.le_of_lt hend')]
  constructor
  · rintro ⟨_, _, hlt, hlt'⟩
    rw [hreach'] at hlt
    rw [hreach] at hlt'
    exact Nat.ne_of_lt (Nat.max_lt.2 ⟨hlt, hlt'⟩)
  · intro hne
    obtain ⟨hlt, hlt'⟩ := Nat.max_lt.1 (Nat.lt_of_le_of_ne (Nat.max_le.2 ⟨hstart, hstart'⟩) hne)
    exact ⟨isEmpty_eq_false_of_lt_reach (Nat.le_refl _) (hreach ▸ hlt),
      isEmpty_eq_false_of_lt_reach (Nat.le_refl _) (hreach' ▸ hlt'), hreach' ▸ hlt, hreach ▸ hlt'⟩

/-- Spans overlap exactly if they share a position in front of the largest offset.  That is the same
as sharing any position of 64 bits, unless one of the spans starts at the largest offset and the other
one contains it.  Overlapping is symmetric, and of the spans that are not empty only those that start
at the largest offset or beyond do not overlap themselves. -/
theorem overlaps_decides_sharing (a b : Span) :
    (a.Overlaps b ↔ ∃ offset < maxOffset, a.Contains offset ∧ b.Contains offset) ∧
      ((a.Overlaps b ↔ a.Share b) ↔
        ¬ (max a.start b.start = maxOffset ∧ a.Contains maxOffset ∧ b.Contains maxOffset)) ∧
      (a.Overlaps b ↔ b.Overlaps a) ∧
      (a.Overlaps a ↔ a.isEmpty = false ∧ a.start < maxOffset) := by
  refine ⟨overlaps_iff_exists_lt, ?_, overlaps_comm, ?_⟩
  · rw [share_iff]
    by_cases hboth : a.Contains maxOffset ∧ b.Contains maxOffset
    · rw [overlaps_iff_of_contains_maxOffset hboth.1 hboth.2]
      simp [hboth]
    · simp [hboth]
  · constructor
    · rintro ⟨hfull, _, hlt, _⟩
      exact ⟨hfull, Nat.lt_of_lt_of_le hlt a.reach_le_maxOffset⟩
    · rintro ⟨hfull, hlt⟩
      exact ⟨hfull, hfull, start_lt_reach hfull hlt, start_lt_reach hfull hlt⟩

/-- The span of the largest offset alone is not empty and shares its position with itself, but it does
not overlap itself. -/
theorem not_overlaps_at_largest_offset :
    Span.isEmpty ⟨maxOffset, 1⟩ = false ∧ Share ⟨maxOffset, 1⟩ ⟨maxOffset, 1⟩ ∧
      ¬ Overlaps ⟨maxOffset, 1⟩ ⟨maxOffset, 1⟩ := by
  have hcontains : Contains ⟨maxOffset, 1⟩ maxOffset := by decide
  exact ⟨rfl, ⟨maxOffset, Nat.le_refl _, hcontains, hcontains⟩, by decide⟩

end TextEditing.Span
