/-
Module: TextEditing.Buffer.Rationed
Purpose: A string that takes only a limited number of replacements, and may hide its text.
Main exports: Rationed, Refusal, the TextBuffer instance of Rationed
-/
import TextEditing.Buffer.Plain

namespace TextEditing

/-- How a buffer whose ration is used up words its refusal. -/
inductive Refusal where
  | readOnly
  | outOfBounds
deriving Repr, Inhabited, DecidableEq

/-- A string with the number of replacements that it still takes. -/
structure Rationed where
  text : String
  budget : Nat
  refusal : Refusal
  /-- Whether slices of the text are given out. -/
  sliceable : Bool
deriving Repr, Inhabited, DecidableEq

/-- The error given once the ration is used up, whatever the range. -/
def Rationed.refuse (buffer : Rationed) (start length : Nat) : BufferError :=
  match buffer.refusal with
  | .readOnly => .readOnly
  | .outOfBounds => .outOfBounds start (Span.reach ⟨start, length⟩) buffer.text.length

instance : TextBuffer Rationed where
  length buffer := buffer.text.length
  slice? buffer start length :=
    if buffer.sliceable then TextBuffer.slice? buffer.text start length else none
  replace buffer start length newText :=
    if buffer.budget = 0 then
      .error (buffer.refuse start length)
    else
      (TextBuffer.replace buffer.text start length newText).map fun text =>
        { buffer with text, budget := buffer.budget - 1 }

end TextEditing
