/-
Module: TextEditing.Proofs.MisplacedChanges
Purpose: Which change a batch without a counterpart in characters is rejected for, and how the error
  tells what is wrong with it.
Main exports: Span.Exceeds, Span.offending, Change.Misplaced, Batch.FirstMisplaced,
  OffsetTable.exists_spanToCharacters_iff, OffsetTable.spanToCharacters_eq_outOfRange_iff,
  OffsetTable.spanToCharacters_eq_misaligned_iff, OffsetTable.changesToCharacters_eq_error_iff,
  Batch.toCharacters_reports_first
-/
import TextEditing.Proofs.Correspondence
import TextEditing.Proofs.Restatement

namespace TextEditing

/-!
The start of a span is looked up before its end, and the error about a misaligned span looks the
start up again.  Both ends are decided by the same table, so the offset that the error names is the
one at which the conversion stopped.
-/

namespace Span

variable {span : Span} {unit : OffsetUnit} {text : List Char}

/-- The span leaves the text: it has no end, starts past the end of the text or, starting between
two characters, ends past it. -/
def Exceeds (span : Span) (unit : OffsetUnit) (text : List Char) : Prop :=
  maxOffset < span.start + span.length ∨ unit.measure text < span.start ∨
    unit.Boundary text span.start ∧ unit.measure text < span.start + span.length

/-- The end of the span that is to blame if one of them lies inside a character. -/
def offending (span : Span) (unit : OffsetUnit) (text : List Char) : Nat :=
  if unit.Boundary text span.start then span.start + span.length else span.start

/-- A span that stays in the text but is not aligned has an end that lies inside a character. -/
theorem offending_of_not_exceeds (hexceeds : ¬ span.Exceeds unit text)
    (haligned : ¬ span.AlignedIn unit text) :
    span.start + span.length ≤ maxOffset ∧ span.offending unit text ≤ unit.measure text ∧
      ¬ unit.Boundary text (span.offending unit text) := by
  simp only [Exceeds, not_or, not_and, Nat.not_lt] at hexceeds
  obtain ⟨hmax, hstart, hstop⟩ := hexceeds
  unfold offending
  split
  · rename_i hboundary
    refine ⟨hmax, hstop hboundary, fun hother => haligned ?_⟩
    exact ⟨⟨hmax, hstop hboundary⟩, hboundary, hother⟩
  · rename_i hboundary
    exact ⟨hmax, hstart, hboundary⟩

theorem AlignedIn.not_exceeds (h : span.AlignedIn unit text) : ¬ span.Exceeds unit text := by
  have hstart : span.start ≤ unit.measure text :=
    Nat.le_trans (Nat.le_add_right _ _) h.fits.2
  rintro (hlong | hlong | ⟨_, hlong⟩)
  · exact absurd h.fits.1 (Nat.not_le_of_lt hlong)
  · exact absurd hstart (Nat.not_le_of_lt hlong)
  · exact absurd h.fits.2 (Nat.not_le_of_lt hlong)

end Span

namespace OffsetTable

variable {unit : OffsetUnit} {text : String} {span : Span} {index : Nat} {change : Change}

theorem exists_spanToCharacters_iff :
    (∃ result, (ofText unit text).spanToCharacters span = .ok result) ↔
      span.AlignedIn unit text.toList := by
  constructor
  · rintro ⟨result, hresult⟩
    obtain ⟨hmax, first, last, hcovers, _⟩ := spanToCharacters_eq_ok_iff.1 hresult
    exact hcovers.aligned hmax
  · intro haligned
    obtain ⟨first, last, hcovers⟩ := haligned.exists_covers
    exact ⟨_, spanToCharacters_eq_ok_iff.2 ⟨haligned.fits.1, first, last, hcovers, rfl⟩⟩

/-- The start decides before the end is looked at. -/
theorem spanToCharacters_eq_outOfRange_iff :
    (ofText unit text).spanToCharacters span = .error .outOfRange ↔
      span.Exceeds unit text.toList := by
  by_cases hmax : span.start + span.length ≤ maxOffset
  · have hnot : ¬ maxOffset < span.start + span.length := Nat.not_lt_of_le hmax
    rw [Span.Exceeds, or_iff_right hnot, ← exists_toCharacter_iff, ← encodedLength_ofText,
      ← toCharacter_eq_outOfRange_iff, ← toCharacter_eq_outOfRange_iff]
    simp only [spanToCharacters, Span.stop?, if_pos hmax]
    -- Only behind a start that has a place is the end looked up.
    cases (ofText unit text).toCharacter span.start with
    | error fault => simp [bind, Except.bind]
    | ok first =>
        cases (ofText unit text).toCharacter (span.start + span.length) with
        | error fault => simp [bind, Except.bind]
        | ok last => simp [bind, Except.bind, pure, Except.pure]
  · simp only [spanToCharacters, Span.stop?, if_neg hmax]
    exact iff_of_true trivial (.inl (Nat.lt_of_not_le hmax))

theorem spanToCharacters_eq_misaligned_iff :
    (ofText unit text).spanToCharacters span = .error .misaligned ↔
      ¬ span.Exceeds unit text.toList ∧ ¬ span.AlignedIn unit text.toList := by
  rw [← spanToCharacters_eq_outOfRange_iff, ← exists_spanToCharacters_iff]
  cases (ofText unit text).spanToCharacters span with
  | ok result => simp
  | error fault => cases fault <;> simp

/-- The error about a misaligned span names the end that is to blame. -/
theorem rejection_misaligned (index : Nat) (span : Span) :
    (ofText unit text).rejection index span .misaligned =
      .misaligned index (span.offending unit text.toList) := by
  unfold rejection Span.offending
  cases hstart : (ofText unit text).toCharacter span.start with
  | ok first => rw [if_pos (exists_toCharacter_iff.1 ⟨first, hstart⟩)]
  | error fault =>
      have hinside : ¬ unit.Boundary text.toList span.start := by
        rw [← exists_toCharacter_iff, hstart]
        exact nofun
      rw [if_neg hinside]

end OffsetTable

/-- The change at `index` has no counterpart in characters, and this is the error that tells why. -/
structure Change.Misplaced (change : Change) (unit : OffsetUnit) (text : List Char) (index : Nat)
    (cause : ApplyError) : Prop where
  not_aligned : ¬ change.span.AlignedIn unit text
  outOfBounds_iff : cause = .outOfBounds index change.span (unit.measure text) ↔
    change.span.Exceeds unit text
  misaligned_iff : cause = .misaligned index (change.span.offending unit text) ↔
    ¬ change.span.Exceeds unit text
  /-- What is called misaligned is an offset in the text, computed without overflow. -/
  inside_character : ∀ offset, cause = .misaligned index offset →
    change.span.start + change.span.length ≤ maxOffset ∧ offset ≤ unit.measure text ∧
      ¬ unit.Boundary text offset

namespace Change.Misplaced

variable {change : Change} {unit : OffsetUnit} {text : List Char}

theorem outOfBounds (index : Nat) (h : change.span.Exceeds unit text) :
    change.Misplaced unit text index (.outOfBounds index change.span (unit.measure text)) where
  not_aligned haligned := haligned.not_exceeds h
  outOfBounds_iff := iff_of_true rfl h
  misaligned_iff := iff_of_false (by simp) (not_not_intro h)
  inside_character offset heq := by cases heq

theorem misaligned (index : Nat) (hexceeds : ¬ change.span.Exceeds unit text)
    (haligned : ¬ change.span.AlignedIn unit text) :
    change.Misplaced unit text index (.misaligned index (change.span.offending unit text)) where
  not_aligned := haligned
  outOfBounds_iff := iff_of_false (by simp) hexceeds
  misaligned_iff := iff_of_true rfl hexceeds
  inside_character offset heq := by
    cases heq
    exact Span.offending_of_not_exceeds hexceeds haligned

end Change.Misplaced

namespace OffsetTable

variable {unit : OffsetUnit} {text : String} {index : Nat} {change : Change} {cause : ApplyError}

theorem changeToCharacters_eq_error_iff :
    (ofText unit text).changeToCharacters index change = .error cause ↔
      change.Misplaced unit text.toList index cause := by
  unfold changeToCharacters
  cases hspan : (ofText unit text).spanToCharacters change.span with
  | ok result =>
      have haligned := exists_spanToCharacters_iff.1 ⟨result, hspan⟩
      exact iff_of_false (by simp) fun h => h.not_aligned haligned
  | error fault =>
      cases fault with
      | outOfRange =>
          have hexceeds := spanToCharacters_eq_outOfRange_iff.1 hspan
          simp only [rejection, encodedLength_ofText, Except.error.injEq]
          constructor
          · rintro rfl
            exact .outOfBounds index hexceeds
          · intro h
            exact (h.outOfBounds_iff.2 hexceeds).symm
      | misaligned =>
          obtain ⟨hexceeds, haligned⟩ := spanToCharacters_eq_misaligned_iff.1 hspan
          simp only [rejection_misaligned, Except.error.injEq]
          constructor
          · rintro rfl
            exact .misaligned index hexceeds haligned
          · intro h
            exact (h.misaligned_iff.2 hexceeds).symm

/-- All changes in front of the one that is rejected have counterparts. -/
theorem changesToCharacters_eq_error_iff {edits : List Change} :
    (ofText unit text).changesToCharacters index edits = .error cause ↔
      ∃ front change behind, edits = front ++ change :: behind ∧
        (∀ other ∈ front, other.span.AlignedIn unit text.toList) ∧
        change.Misplaced unit text.toList (index + front.length) cause := by
  induction edits generalizing index with
  | nil => simp [changesToCharacters]
  | cons change rest ih =>
      rw [changesToCharacters_cons_error_iff, changeToCharacters_eq_error_iff]
      constructor
      · rintro (hmisplaced | ⟨first, hfirst, hrest⟩)
        · exact ⟨[], change, rest, rfl, by simp, hmisplaced⟩
        · obtain ⟨front, other, behind, rfl, hfront, hmisplaced⟩ := ih.1 hrest
          have haligned := (changeToCharacters_eq_ok_iff.1 hfirst).1
          refine ⟨change :: front, other, behind, rfl,
            List.forall_mem_cons.2 ⟨haligned, hfront⟩, ?_⟩
          rwa [List.length_cons, Nat.add_comm front.length, ← Nat.add_assoc]
      · rintro ⟨front, other, behind, hsplit, hfront, hmisplaced⟩
        cases front with
        | nil =>
            cases hsplit
            exact .inl hmisplaced
        | cons first front =>
            cases hsplit
            obtain ⟨haligned, hfront⟩ := List.forall_mem_cons.1 hfront
            rw [List.length_cons, Nat.add_comm front.length, ← Nat.add_assoc] at hmisplaced
            exact .inr ⟨_, changeToCharacters_eq_ok_iff.2 ⟨haligned, rfl⟩,
              ih.2 ⟨front, other, behind, rfl, hfront, hmisplaced⟩⟩

end OffsetTable

namespace Batch

variable {edits resolved : Batch} {unit : OffsetUnit} {text : String}

/-- The error is about the first change of the batch that is not aligned. -/
def FirstMisplaced (edits : Batch) (unit : OffsetUnit) (text : List Char) (cause : ApplyError) :
    Prop :=
  ∃ front change behind, edits = front ++ change :: behind ∧
    (∀ other ∈ front, other.span.AlignedIn unit text) ∧
    change.Misplaced unit text front.length cause

/-- Restated in characters, a change inserts the same text, in place of the characters that its span
covered in the unit. -/
theorem forall₂_of_toCharacters (hunit : unit ≠ .character)
    (h : edits.toCharacters unit text = .ok resolved) :
    List.Forall₂ (fun change result => result.newText = change.newText ∧
      change.span.Covers unit text.toList result.span.start
        (result.span.start + result.span.length)) edits resolved := by
  obtain ⟨haligned, rfl⟩ := toCharacters_eq_ok_iff.1 h
  rw [List.forall₂_map_right_iff, List.forall₂_same]
  intro change hchange
  have hchange := haligned.resolve_left hunit change hchange
  obtain ⟨first, last, hcovers⟩ := hchange.exists_covers
  have hend : first + (last - first) = last := Nat.add_sub_cancel' hcovers.ordered
  rw [Change.restate_of_covers hchange.fits.1 hcovers]
  refine ⟨rfl, ?_⟩
  simp only [Change.replace, hend]
  exact hcovers

/-- A batch counted in encoded units is converted exactly if all its spans are aligned, change by
change.  Otherwise the error is about the first change whose span is not: it leaves the text, or it
is misaligned at its start or, if the start is a boundary, at its end. -/
theorem toCharacters_reports_first (edits : Batch) (text : String) (hunit : unit ≠ .character) :
    ((∃ resolved, edits.toCharacters unit text = .ok resolved) ↔
        ∀ change ∈ edits, change.span.AlignedIn unit text.toList) ∧
      (∀ resolved, edits.toCharacters unit text = .ok resolved →
        List.Forall₂ (fun change result => result.newText = change.newText ∧
          change.span.Covers unit text.toList result.span.start
            (result.span.start + result.span.length)) edits resolved) ∧
      ∀ cause, edits.toCharacters unit text = .error cause ↔
        edits.FirstMisplaced unit text.toList cause := by
  refine ⟨?_, fun resolved => forall₂_of_toCharacters hunit, fun cause => ?_⟩
  · simp only [toCharacters_eq_ok_iff, or_iff_right hunit, exists_and_left, exists_eq, and_true]
  · rw [toCharacters_of_ne hunit, OffsetTable.changesToCharacters_eq_error_iff]
    simp only [Nat.zero_add]
    rfl

theorem toCharacters_reports_first_inside_surrogates :
    OffsetUnit.utf16 ≠ .character ∧
      FirstMisplaced [.insert 3 "", .delete 1 1, .delete 2 5] .utf16 "a👋b".toList
        (.misaligned 1 2) ∧
      ¬ FirstMisplaced [.insert 3 "", .delete 1 1, .delete 2 5] .utf16 "a👋b".toList
        (.misaligned 2 2) ∧
      FirstMisplaced [.insert 4 "", .delete 1 4] .utf16 "a👋b".toList
        (.outOfBounds 1 ⟨1, 4⟩ 4) ∧
      FirstMisplaced [.delete 2 5] .utf16 "a👋b".toList (.misaligned 0 2) := by
  have hunit : OffsetUnit.utf16 ≠ .character := by decide
  obtain ⟨_, _, herror⟩ :=
    toCharacters_reports_first [.insert 3 "", .delete 1 1, .delete 2 5] "a👋b" hunit
  obtain ⟨_, _, hlong⟩ := toCharacters_reports_first [.insert 4 "", .delete 1 4] "a👋b" hunit
  obtain ⟨_, _, hstart⟩ := toCharacters_reports_first [.delete 2 5] "a👋b" hunit
  have hresult : toCharacters [.insert 3 "", .delete 1 1, .delete 2 5] .utf16 "a👋b" =
      .error (.misaligned 1 2) := by cbv
  refine ⟨hunit, (herror _).1 hresult, fun h => ?_, (hlong _).1 (by cbv), (hstart _).1 (by cbv)⟩
  have hother := (herror _).2 h
  rw [hresult] at hother
  cases hother

end Batch

end TextEditing
