/-
Module: TextEditing.Edit.Failure
Purpose: Why a batch could not be applied, and how far an application in place came.
Main exports: ApplyError, ApplyError.index, ApplyError.message, Interruption
-/
import TextEditing.Edit.Span
import TextEditing.Buffer.Basic

namespace TextEditing

/-- Why a batch could not be applied.  Every index is a position in the batch as given. -/
inductive ApplyError where
  /-- The span does not fit into the buffer, which has the given length at that moment. -/
  | outOfBounds (index : Nat) (span : Span) (bufferLength : Nat)
  /-- The change begins before the end of another one in front of it. -/
  | overlap (index : Nat) (span : Span) (otherIndex : Nat) (otherSpan : Span)
  /-- An offset, in the unit of the batch, lies inside a character. -/
  | misaligned (index : Nat) (offset : Nat)
  /-- The buffer did not accept the replacement. -/
  | refused (index : Nat) (cause : BufferError)
deriving Repr, Inhabited, DecidableEq

namespace ApplyError

/-- The position in the batch of the change at fault. -/
def index : ApplyError → Nat
  | outOfBounds index _ _ => index
  | overlap index _ _ _ => index
  | misaligned index _ => index
  | refused index _ => index

/-- The wording of the error. -/
def message : ApplyError → String
  | outOfBounds index span bufferLength =>
      "edit #" ++ toString index ++ " span " ++ span.text
        ++ " is out of bounds for buffer of length " ++ toString bufferLength
  | overlap index span otherIndex otherSpan =>
      "edit #" ++ toString index ++ " span " ++ span.text ++ " overlaps edit #"
        ++ toString otherIndex ++ " span " ++ otherSpan.text
  | misaligned index offset =>
      "edit #" ++ toString index ++ " offset " ++ toString offset
        ++ " falls inside a code point"
  | refused index cause =>
      "edit #" ++ toString index ++ " was rejected by the buffer: " ++ cause.message

end ApplyError

/-- An application in place that stopped early: so many changes had been made by then. -/
structure Interruption where
  applied : Nat
  cause : ApplyError
deriving Repr, Inhabited, DecidableEq

namespace Interruption

/-- Some changes had already been made when the application stopped. -/
def isPartial (interruption : Interruption) : Bool :=
  0 < interruption.applied

/-- The wording of the interruption. -/
def message (interruption : Interruption) : String :=
  interruption.cause.message ++ " (" ++ toString interruption.applied
    ++ " edit(s) already applied)"

end Interruption

end TextEditing
