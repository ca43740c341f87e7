/-
Module: TextEditing.Edit.Delta
Purpose: The record of an applied batch, and the ranges of the text before and after that it
  touched.
Main exports: AppliedEdit, Delta, Range, RangeStep, Delta.changedRanges, Delta.insertedRanges,
  Delta.insertedFrom_cons
-/
import TextEditing.Edit.Span

namespace TextEditing

/-!
A delta lists what was done in the order in which it was done, from the end of the text to its
start.  Read backwards it goes up through the text, and the place of an inserted text in the
result is its start in the text before, shifted by what all edits in front of it added or
removed.

The ranges are computed in arithmetic of 64 bits.  The ends of the replaced characters and the
starts of the inserted texts are cut where offsets end.  The ends of the inserted texts and the
running shift are not: where one of them does not fit, there are no ranges, and the error names it.
-/

/-- One replacement as it was carried out. -/
structure AppliedEdit where
  /-- The position of the change in the batch. -/
  index : Nat
  /-- The character offset at which it was made. -/
  start : Nat
  deletedText : String
  insertedText : String
deriving Repr, Inhabited, DecidableEq

namespace AppliedEdit

/-- The number of characters taken out. -/
def deletedLength (edit : AppliedEdit) : Nat := edit.deletedText.length

/-- The number of characters put in. -/
def insertedLength (edit : AppliedEdit) : Nat := edit.insertedText.length

/-- The end of the replaced characters, cut at `maxOffset`. -/
def stop (edit : AppliedEdit) : Nat := min (edit.start + edit.deletedLength) maxOffset

/-- The characters that the edit adds, or removes if negative. -/
def growth (edit : AppliedEdit) : Int := edit.insertedLength - edit.deletedLength

end AppliedEdit

/-- What a batch did to a buffer. -/
structure Delta where
  /-- The number of characters before. -/
  beforeCount : Nat
  /-- The number of characters after. -/
  afterCount : Nat
  /-- The replacements in the order in which they were made. -/
  edits : List AppliedEdit
deriving Repr, Inhabited, DecidableEq

/-- The characters from `start` up to `stop`. -/
structure Range where
  start : Nat
  stop : Nat
deriving Repr, Inhabited, DecidableEq

/-- The offset nearest to an integer: 0 for negative ones, and at most `maxOffset`. -/
def nearestOffset (z : Int) : Nat := min z.toNat maxOffset

/-- The largest signed number of 64 bits. -/
def maxSigned : Nat := 0x7FFFFFFFFFFFFFFF

/-- A number of 64 bits read as a signed one. -/
def signed (n : Nat) : Int := Int.bmod n (maxOffset + 1)

/-- A number on the way to the inserted ranges that has to fit into 64 bits. -/
inductive RangeStep where
  /-- The end of an inserted text, an offset. -/
  | stop
  /-- What one edit adds or removes, a signed number. -/
  | growth
  /-- What the edits so far add or remove, a signed number. -/
  | shift
deriving Repr, Inhabited, DecidableEq

/-- The number, if it is an offset of 64 bits. -/
def fitOffset (step : RangeStep) (n : Nat) : Except RangeStep Nat :=
  if n ≤ maxOffset then .ok n else .error step

/-- The number, if it is a signed number of 64 bits. -/
def fitSigned (step : RangeStep) (z : Int) : Except RangeStep Int :=
  if -(maxSigned : Int) - 1 ≤ z ∧ z ≤ maxSigned then .ok z else .error step

theorem signed_of_le {n : Nat} (h : n ≤ maxSigned) : signed n = n := by
  rw [maxSigned] at h
  rw [signed, maxOffset]
  exact Int.bmod_eq_of_le (by omega) (by omega)

theorem fitOffset_of_le {step : RangeStep} {n : Nat} (h : n ≤ maxOffset) :
    fitOffset step n = .ok n := if_pos h

theorem fitOffset_of_lt {step : RangeStep} {n : Nat} (h : maxOffset < n) :
    fitOffset step n = .error step := if_neg (Nat.not_le_of_lt h)

theorem fitSigned_of_natAbs_le {step : RangeStep} {z : Int} (h : z.natAbs ≤ maxSigned) :
    fitSigned step z = .ok z := if_pos (by omega)

namespace Delta

/-- Nothing was replaced. -/
def isEmpty (delta : Delta) : Bool := delta.edits.isEmpty

/-- The replaced ranges of the text before, in the opposite of the order of application. -/
def changedRanges (delta : Delta) : List Range :=
  delta.edits.reverse.map fun edit => ⟨edit.start, edit.stop⟩

/-- The ranges of the inserted texts, when the text in front of them has grown by `shift`. -/
def insertedFrom (shift : Int) : List AppliedEdit → Except RangeStep (List Range)
  | [] => .ok []
  | edit :: rest => do
      let start := nearestOffset (edit.start + shift)
      let stop ← fitOffset .stop (start + edit.insertedLength)
      let growth ← fitSigned .growth (signed edit.insertedLength - signed edit.deletedLength)
      let shift ← fitSigned .shift (shift + growth)
      let ranges ← insertedFrom shift rest
      pure (⟨start, stop⟩ :: ranges)

/-- The ranges of the text after that hold the inserted texts, in the same order. -/
def insertedRanges (delta : Delta) : Except RangeStep (List Range) :=
  insertedFrom 0 delta.edits.reverse

/-- As long as the lengths of its texts and the shift behind it are signed numbers, an edit has a
range unless its inserted text runs over the largest offset. -/
theorem insertedFrom_cons {shift : Int} {edit : AppliedEdit} {rest : List AppliedEdit}
    (hinserted : edit.insertedLength ≤ maxSigned) (hdeleted : edit.deletedLength ≤ maxSigned)
    (hshift : (shift + edit.growth).natAbs ≤ maxSigned) :
    insertedFrom shift (edit :: rest) =
      let start := nearestOffset (edit.start + shift)
      if maxOffset < start + edit.insertedLength then
        .error .stop
      else
        (insertedFrom (shift + edit.growth) rest).map
          fun ranges => ⟨start, start + edit.insertedLength⟩ :: ranges := by
  have hgrowth : edit.growth.natAbs ≤ maxSigned := by
    unfold AppliedEdit.growth
    omega
  rw [AppliedEdit.growth] at hshift hgrowth ⊢
  simp only [insertedFrom, signed_of_le hinserted, signed_of_le hdeleted]
  split
  · rename_i hover
    rw [fitOffset_of_lt hover]
    rfl
  · rename_i hfits
    simp only [fitOffset_of_le (Nat.le_of_not_lt hfits), fitSigned_of_natAbs_le hgrowth,
      fitSigned_of_natAbs_le hshift, bind, Except.bind]
    rfl

end Delta

end TextEditing
