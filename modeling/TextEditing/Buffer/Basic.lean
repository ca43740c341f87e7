/-
Module: TextEditing.Buffer.Basic
Purpose: What every text buffer offers, and why a buffer may refuse a replacement.
Main exports: BufferError, TextBuffer, TextBuffer.isEmpty, stopWithin
-/
import TextEditing.Edit.Span

namespace TextEditing

/-- Why a buffer refused a replacement. -/
inductive BufferError where
  /-- The buffer accepts no changes at present. -/
  | readOnly
  /-- The range does not lie inside the buffer; `stop` is cut at `maxOffset`. -/
  | outOfBounds (start stop length : Nat)
deriving Repr, Inhabited, DecidableEq

/-- The wording of the refusal. -/
def BufferError.message : BufferError → String
  | .readOnly => "buffer is read-only"
  | .outOfBounds start stop length =>
      "range " ++ toString start ++ ".." ++ toString stop ++ " is out of bounds for length "
        ++ toString length

/-- A sequence of characters with one way to change it: the replacement of a range.  All offsets
and lengths count characters. -/
class TextBuffer (β : Type) where
  /-- The number of characters held. -/
  length : β → Nat
  /-- The characters of a range given by start and length, if it lies inside the buffer. -/
  slice? : β → Nat → Nat → Option String
  /-- The buffer with a range given by start and length replaced, or the reason for a refusal. -/
  replace : β → Nat → Nat → String → Except BufferError β
  /-- The whole text; by default the slice over the full length, or nothing if there is none. -/
  contents : β → String := fun buffer => (slice? buffer 0 (length buffer)).getD ""

/-- The buffer holds no characters. -/
def TextBuffer.isEmpty {β : Type} [TextBuffer β] (buffer : β) : Bool :=
  length buffer = 0

/-- The end of a range inside a buffer of the given length, or the refusal. -/
def stopWithin (start length bufferLength : Nat) : Except BufferError Nat :=
  let range : Span := ⟨start, length⟩
  match range.stop? with
  | some stop =>
      if stop ≤ bufferLength then .ok stop else .error (.outOfBounds start stop bufferLength)
  | none => .error (.outOfBounds start maxOffset bufferLength)

end TextEditing
