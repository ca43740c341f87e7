/-
Module: TextEditing.Edit.Apply
Purpose: Applying a batch to a buffer: as a whole, in place, or only as a check.
Main exports: OverlapPolicy, ApplyOptions, ApplyOptions.applyInPlace, ApplyOptions.apply,
  ApplyOptions.validate, Batch.applyTo
-/
import TextEditing.Edit.Conversion
import TextEditing.Edit.Delta
import TextEditing.Edit.Order

namespace TextEditing

/-!
All spans of a batch refer to the text before any change.  Changes are made from the end of the
text to its start, so none moves the characters that a later one is to replace, and every span is
checked against the length the buffer has at that moment.
-/

/-- What to do with a batch in which one change begins before another one ends. -/
inductive OverlapPolicy where
  /-- Reject the batch before anything is changed. -/
  | reject
  /-- Do not look for conflicts. -/
  | allow
deriving Repr, Inhabited, DecidableEq

/-- How a batch is read and applied. -/
structure ApplyOptions where
  overlap : OverlapPolicy := .reject
  unit : OffsetUnit := .character
deriving Repr, Inhabited, DecidableEq

/-- How far a run over the changes of a batch came. -/
structure Run (β : Type) where
  /-- The buffer at the end of the run. -/
  buffer : β
  /-- The changes that were made, in this order. -/
  applied : List AppliedEdit
  /-- What stopped the run, if it did not reach the end. -/
  failure : Option ApplyError

/-- A buffer after an operation, with the answer of the operation. -/
structure Outcome (β ε : Type) where
  buffer : β
  result : Except ε Delta

section
variable {β : Type} [TextBuffer β]

/-- Makes one change, provided that its span fits into the buffer as it now is. -/
def Numbered.applyTo (edit : Numbered) (buffer : β) : Except ApplyError (β × AppliedEdit) :=
  let span := edit.change.span
  let length := TextBuffer.length buffer
  if ∃ stop ∈ span.stop?, stop ≤ length then
    let deletedText := (TextBuffer.slice? buffer span.start span.length).getD ""
    match TextBuffer.replace buffer span.start span.length edit.change.newText with
    | .ok changed => .ok (changed, ⟨edit.index, span.start, deletedText, edit.change.newText⟩)
    | .error cause => .error (.refused edit.index cause)
  else
    .error (.outOfBounds edit.index span length)

/-- Makes one change after the other until one fails. -/
def runAll (buffer : β) : List Numbered → Run β
  | [] => ⟨buffer, [], none⟩
  | edit :: rest =>
      match edit.applyTo buffer with
      | .error failure => ⟨buffer, [], some failure⟩
      | .ok (changed, done) =>
          let run := runAll changed rest
          { run with applied := done :: run.applied }

/-- Checks the spans in turn against the length that the buffer would have by then. -/
def validateAll (length : Nat) : List Numbered → Except ApplyError Unit
  | [] => .ok ()
  | edit :: rest =>
      let span := edit.change.span
      if ∃ stop ∈ span.stop?, stop ≤ length then
        validateAll (length - span.length + edit.change.insertedLength) rest
      else
        .error (.outOfBounds edit.index span length)

/-- Reports the first conflict of the batch as an error. -/
def Batch.rejectConflict (edits : Batch) : Except ApplyError Unit :=
  match edits.conflict? with
  | none => .ok ()
  | some ⟨later, earlier⟩ =>
      .error (.overlap later.index later.change.span earlier.index earlier.change.span)

namespace ApplyOptions

/-- The batch in characters of the buffer, after the checks that come before any change. -/
def resolve (options : ApplyOptions) (buffer : β) (edits : Batch) : Except ApplyError Batch := do
  let edits ← edits.toCharacters options.unit (TextBuffer.contents buffer)
  if options.overlap = .reject then
    edits.rejectConflict
  pure edits

/-- Applies the batch to the buffer itself and stops at the first failure.  What had been changed
by then stays changed. -/
def applyInPlace (options : ApplyOptions) (buffer : β) (edits : Batch) :
    Outcome β Interruption :=
  match options.resolve buffer edits with
  | .error cause => ⟨buffer, .error ⟨0, cause⟩⟩
  | .ok edits =>
      let run := runAll buffer edits.applicationOrder
      match run.failure with
      | some cause => ⟨run.buffer, .error ⟨run.applied.length, cause⟩⟩
      | none =>
          ⟨run.buffer,
            .ok ⟨TextBuffer.length buffer, TextBuffer.length run.buffer, run.applied⟩⟩

/-- Applies the batch as a whole: on failure the buffer is the one given.  An empty batch is
applied without any check. -/
def apply (options : ApplyOptions) (buffer : β) (edits : Batch) : Outcome β ApplyError :=
  if edits.isEmpty then
    ⟨buffer, .ok ⟨TextBuffer.length buffer, TextBuffer.length buffer, []⟩⟩
  else
    let outcome := options.applyInPlace buffer edits
    match outcome.result with
    | .ok delta => ⟨outcome.buffer, .ok delta⟩
    | .error interruption => ⟨buffer, .error interruption.cause⟩

/-- The error that applying the batch would give if the buffer accepts every replacement. -/
def validate (options : ApplyOptions) (buffer : β) (edits : Batch) : Except ApplyError Unit := do
  let edits ← options.resolve buffer edits
  validateAll (TextBuffer.length buffer) edits.applicationOrder

end ApplyOptions

/-- The buffer with the batch applied under the default options. -/
def Batch.applyTo (edits : Batch) (buffer : β) : Except ApplyError β :=
  let outcome := ApplyOptions.applyInPlace {} buffer edits
  match outcome.result with
  | .ok _ => .ok outcome.buffer
  | .error interruption => .error interruption.cause

end

end TextEditing
