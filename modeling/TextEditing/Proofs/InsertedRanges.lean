/-
Module: TextEditing.Proofs.InsertedRanges
Purpose: Of all numbers on the way to the ranges of a delta, only the end of an inserted text may not
  fit into 64 bits.
Main exports: AppliedEdit.textLength, Delta.OverrunsFrom, Delta.Overruns,
  Delta.overrunsFrom_cons_iff, Delta.Room, Delta.exists_insertedFrom_of_not_overruns,
  Delta.insertedFrom_of_overruns, Delta.not_overruns_of_le, Delta.ranges_fit_unless_overrun
-/
import Mathlib
import TextEditing.Edit.Interchange

namespace TextEditing

/-!
Whatever the edits add and take away on the way, the running shift stays between what all of them take
away and what all of them add.  So it is enough that the lengths of all inserted and of all deleted
texts are signed numbers of 64 bits; this is the invariant of the run over the edits.  Starts are cut,
but the inserted text behind them may run over the largest offset.
-/

namespace AppliedEdit

/-- The characters of both texts of the edit. -/
def textLength (edit : AppliedEdit) : Nat := edit.deletedLength + edit.insertedLength

theorem sum_growth_le (edits : List AppliedEdit) :
    (edits.map growth).sum ≤ ((edits.map insertedLength).sum : Nat) := by
  induction edits with
  | nil => exact Int.le_refl 0
  | cons edit rest ih =>
      simp only [List.map_cons, List.sum_cons, growth, Nat.cast_add]
      omega

theorem sum_textLength (edits : List AppliedEdit) :
    (edits.map textLength).sum =
      (edits.map deletedLength).sum + (edits.map insertedLength).sum :=
  List.sum_map_add

end AppliedEdit

namespace Delta

variable {shift : Int} {edit : AppliedEdit} {edits rest : List AppliedEdit}

/-- Where the text in front has grown by `shift`, some inserted text runs over the largest offset when
it is put behind its start. -/
def OverrunsFrom (shift : Int) (edits : List AppliedEdit) : Prop :=
  ∃ front edit behind, edits = front ++ edit :: behind ∧
    maxOffset < nearestOffset (edit.start + (shift + (front.map AppliedEdit.growth).sum)) +
      edit.insertedLength

/-- Some inserted text runs over the largest offset. -/
def Overruns (delta : Delta) : Prop := OverrunsFrom 0 delta.edits.reverse

theorem not_overrunsFrom_nil : ¬ OverrunsFrom shift [] := by
  rintro ⟨front, edit, behind, hsplit, _⟩
  simp at hsplit

theorem overrunsFrom_cons_iff :
    OverrunsFrom shift (edit :: rest) ↔
      maxOffset < nearestOffset (edit.start + shift) + edit.insertedLength ∨
        OverrunsFrom (shift + edit.growth) rest := by
  constructor
  · rintro ⟨front, other, behind, hsplit, hover⟩
    cases front with
    | nil =>
        cases hsplit
        exact .inl (by simpa using hover)
    | cons first front =>
        cases hsplit
        exact .inr ⟨front, other, behind, rfl, by simpa [Int.add_assoc] using hover⟩
  · rintro (hover | ⟨front, other, behind, rfl, hover⟩)
    · exact ⟨[], edit, rest, rfl, by simpa using hover⟩
    · exact ⟨edit :: front, other, behind, rfl, by simpa [Int.add_assoc] using hover⟩

/-- The lengths of all inserted and of all deleted texts are signed numbers, and so is the shift
whatever the edits add or take away. -/
structure Room (shift : Int) (edits : List AppliedEdit) : Prop where
  inserted : (edits.map AppliedEdit.insertedLength).sum ≤ maxSigned
  deleted : (edits.map AppliedEdit.deletedLength).sum ≤ maxSigned
  above : shift + ((edits.map AppliedEdit.insertedLength).sum : Nat) ≤ maxSigned
  below : ((edits.map AppliedEdit.deletedLength).sum : Nat) ≤ shift + maxSigned

theorem Room.tail (h : Room shift (edit :: rest)) : Room (shift + edit.growth) rest := by
  obtain ⟨hinserted, hdeleted, habove, hbelow⟩ := h
  simp only [List.map_cons, List.sum_cons] at hinserted hdeleted habove hbelow
  unfold AppliedEdit.growth
  constructor <;> omega

/-- With room for its texts, the signed numbers of an edit fit. -/
theorem Room.fits (h : Room shift (edit :: rest)) :
    edit.insertedLength ≤ maxSigned ∧ edit.deletedLength ≤ maxSigned ∧
      (shift + edit.growth).natAbs ≤ maxSigned := by
  have habove := h.tail.above
  have hbelow := h.tail.below
  obtain ⟨hinserted, hdeleted, _, _⟩ := h
  rw [List.map_cons, List.sum_cons] at hinserted hdeleted
  exact ⟨by omega, by omega, by omega⟩

/-- Where no inserted text runs over, there are ranges as long as the inserted texts. -/
theorem exists_insertedFrom_of_not_overruns (hroom : Room shift edits)
    (h : ¬ OverrunsFrom shift edits) :
    ∃ ranges, insertedFrom shift edits = .ok ranges ∧
      (ranges.map fun range => range.stop - range.start) = edits.map AppliedEdit.insertedLength ∧
      ∀ range ∈ ranges, range.start ≤ range.stop ∧ range.stop ≤ maxOffset := by
  induction edits generalizing shift with
  | nil => exact ⟨[], rfl, rfl, by simp⟩
  | cons edit rest ih =>
      rw [overrunsFrom_cons_iff, not_or] at h
      obtain ⟨hfits, hrest⟩ := h
      obtain ⟨hinserted, hdeleted, hshift⟩ := hroom.fits
      obtain ⟨ranges, hranges, hlengths, hordered⟩ := ih hroom.tail hrest
      refine ⟨⟨nearestOffset (edit.start + shift),
        nearestOffset (edit.start + shift) + edit.insertedLength⟩ :: ranges, ?_, ?_, ?_⟩
      · rw [insertedFrom_cons hinserted hdeleted hshift, hranges]
        exact if_neg hfits
      · rw [List.map_cons, List.map_cons, hlengths, Nat.add_sub_cancel_left]
      · exact List.forall_mem_cons.2
          ⟨⟨Nat.le_add_right _ _, Nat.le_of_not_lt hfits⟩, hordered⟩

/-- Where an inserted text runs over, its end is the number that does not fit. -/
theorem insertedFrom_of_overruns (hroom : Room shift edits) (h : OverrunsFrom shift edits) :
    insertedFrom shift edits = .error .stop := by
  induction edits generalizing shift with
  | nil => exact absurd h not_overrunsFrom_nil
  | cons edit rest ih =>
      obtain ⟨hinserted, hdeleted, hshift⟩ := hroom.fits
      rw [insertedFrom_cons hinserted hdeleted hshift]
      by_cases hover : maxOffset < nearestOffset (edit.start + shift) + edit.insertedLength
      · exact if_pos hover
      · have hrest := (overrunsFrom_cons_iff.1 h).resolve_left hover
        rw [ih hroom.tail hrest]
        exact if_neg hover

/-- No inserted text runs over when each has room behind its start for itself and for all that is
inserted in front of it. -/
theorem not_overruns_of_le
    (h : ∀ front edit behind, edits = front ++ edit :: behind →
      edit.start + (front.map AppliedEdit.insertedLength).sum + edit.insertedLength ≤ maxOffset) :
    ¬ OverrunsFrom 0 edits := by
  rintro ⟨front, edit, behind, hsplit, hover⟩
  have hroom := h front edit behind hsplit
  have hgrowth := AppliedEdit.sum_growth_le front
  rw [nearestOffset] at hover
  omega

/-- The characters of all texts of the delta. -/
def textLength (delta : Delta) : Nat := (delta.edits.map AppliedEdit.textLength).sum

theorem textLength_eq (delta : Delta) :
    delta.textLength = (delta.edits.reverse.map AppliedEdit.textLength).sum := by
  rw [List.map_reverse, List.sum_reverse, textLength]

theorem changed_within_offsets {delta : Delta}
    (hstarts : ∀ edit ∈ delta.edits, edit.start ≤ maxOffset) :
    ∀ range ∈ delta.changedRanges, range.start ≤ range.stop ∧ range.stop ≤ maxOffset := by
  intro range hrange
  obtain ⟨edit, hedit, rfl⟩ := List.mem_map.1 hrange
  have hstart := hstarts edit (List.mem_reverse.1 hedit)
  exact ⟨Nat.le_min.2 ⟨Nat.le_add_right _ _, hstart⟩, Nat.min_le_right _ _⟩

theorem room_of_textLength {delta : Delta} (htexts : delta.textLength ≤ maxSigned) :
    Room 0 delta.edits.reverse := by
  have htotal := AppliedEdit.sum_textLength delta.edits.reverse
  rw [← textLength_eq] at htotal
  constructor <;> omega

/-- Starts that are signed numbers of 64 bits leave room for all texts. -/
theorem not_overruns_of_signed {delta : Delta} (htexts : delta.textLength ≤ maxSigned)
    (hstarts : ∀ edit ∈ delta.edits, edit.start ≤ maxSigned) : ¬ delta.Overruns := by
  apply not_overruns_of_le
  intro front edit behind hsplit
  have hstart := hstarts edit (List.mem_reverse.1 (hsplit ▸ by simp))
  have hinserted := (room_of_textLength htexts).inserted
  rw [hsplit, List.map_append, List.map_cons, List.sum_append, List.sum_cons] at hinserted
  have hmax : 2 * maxSigned ≤ maxOffset := by decide
  omega

/-- For any edits with starts of 64 bits and texts that memory can hold, every number on the way to the
ranges fits into 64 bits, but for the ends of inserted texts.  The changed ranges are in order.  There
are inserted ranges exactly if no inserted text runs over the largest offset, and they are in order and
as long as these texts; otherwise the end of such a text is reported.  With starts up to the largest
signed number none runs over. -/
theorem ranges_fit_unless_overrun {delta : Delta}
    (hstarts : ∀ edit ∈ delta.edits, edit.start ≤ maxOffset)
    (htexts : delta.textLength ≤ maxSigned) :
    (∀ range ∈ delta.changedRanges, range.start ≤ range.stop ∧ range.stop ≤ maxOffset) ∧
      (¬ delta.Overruns → ∃ inserted, delta.insertedRanges = .ok inserted ∧
        (inserted.map fun range => range.stop - range.start) =
          delta.edits.reverse.map AppliedEdit.insertedLength ∧
        ∀ range ∈ inserted, range.start ≤ range.stop ∧ range.stop ≤ maxOffset) ∧
      (delta.Overruns → delta.insertedRanges = .error .stop) ∧
      ((∀ edit ∈ delta.edits, edit.start ≤ maxSigned) → ¬ delta.Overruns) := by
  have hroom := room_of_textLength htexts
  exact ⟨changed_within_offsets hstarts, exists_insertedFrom_of_not_overruns hroom,
    insertedFrom_of_overruns hroom, not_overruns_of_signed htexts⟩

/-- An insertion at the largest offset, behind a replacement that takes three characters away. -/
def behindShrinking : Delta :=
  ⟨9, 7, [⟨1, maxOffset, "ab", "c"⟩, ⟨0, 2, "xyzw", "é"⟩]⟩

theorem ranges_fit_unless_overrun_behind_shrinking :
    (∀ edit ∈ behindShrinking.edits, edit.start ≤ maxOffset) ∧
      behindShrinking.textLength ≤ maxSigned ∧
      ¬ behindShrinking.Overruns ∧
      behindShrinking.insertedRanges = .ok [⟨2, 3⟩, ⟨maxOffset - 3, maxOffset - 2⟩] ∧
      ∃ inserted, behindShrinking.insertedRanges = .ok inserted ∧
        (inserted.map fun range => range.stop - range.start) =
          behindShrinking.edits.reverse.map AppliedEdit.insertedLength ∧
        ∀ range ∈ inserted, range.start ≤ range.stop ∧ range.stop ≤ maxOffset := by
  have hstarts : ∀ edit ∈ behindShrinking.edits, edit.start ≤ maxOffset := by decide
  have htexts : behindShrinking.textLength ≤ maxSigned := by decide
  have hfits : ¬ behindShrinking.Overruns := by
    intro hover
    rcases overrunsFrom_cons_iff.1 hover with hfirst | hrest
    · exact absurd hfirst (by decide)
    · rcases overrunsFrom_cons_iff.1 hrest with hsecond | hnone
      · exact absurd hsecond (by decide)
      · exact not_overrunsFrom_nil hnone
  obtain ⟨_, hordered, _, _⟩ := ranges_fit_unless_overrun hstarts htexts
  exact ⟨hstarts, htexts, hfits, by cbv, hordered hfits⟩

/-- A delta with one character inserted at the largest offset. -/
def overrunDocument : String :=
  "\x7b\"beforeCharCount\":0,\"afterCharCount\":1,\"edits\":[\x7b\"index\":0," ++
    "\"start\":18446744073709551615,\"deletedText\":\"\",\"insertedText\":\"a\"\x7d]\x7d"

/-- A text of one character that is inserted at the largest offset ends behind all offsets, and there
are no ranges. -/
theorem ranges_overrun_at_largest_offset :
    ∃ delta, Delta.record.codec.ofText overrunDocument = .ok delta ∧
      delta.textLength = 1 ∧
      (∀ edit ∈ delta.edits, edit.start ≤ maxOffset) ∧
      delta.insertedRanges = .error .stop := by
  have hread : Delta.record.codec.ofText overrunDocument =
      .ok ⟨0, 1, [⟨0, maxOffset, "", "a"⟩]⟩ := by cbv
  exact ⟨_, hread, rfl, by decide, rfl⟩

end Delta

end TextEditing
