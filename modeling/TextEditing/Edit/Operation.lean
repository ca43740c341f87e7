/-
Module: TextEditing.Edit.Operation
Purpose: Everything that a client may ask of a buffer, as one kind of step.
Main exports: Operation, Answer, Operation.perform
-/
import TextEditing.Edit.Apply

namespace TextEditing

/-- What a client may ask of a buffer. -/
inductive Operation where
  | count
  | isEmpty
  | slice (start length : Nat)
  | contents
  | replace (start length : Nat) (newText : String)
  | apply (options : ApplyOptions) (edits : Batch)
  | applyInPlace (options : ApplyOptions) (edits : Batch)
  | validate (options : ApplyOptions) (edits : Batch)

/-- What a buffer answers, in the form that the operation gives it. -/
inductive Answer where
  | count (length : Nat)
  | empty (isEmpty : Bool)
  | excerpt (text? : Option String)
  | text (contents : String)
  | replaced (result : Except BufferError Unit)
  | applied (result : Except ApplyError Delta)
  | appliedInPlace (result : Except Interruption Delta)
  | validated (result : Except ApplyError Unit)

namespace Operation

variable {β : Type} [TextBuffer β]

/-- The answer of the buffer, and the buffer after the operation. -/
def perform (operation : Operation) (buffer : β) : Answer × β :=
  match operation with
  | count => (.count (TextBuffer.length buffer), buffer)
  | isEmpty => (.empty (TextBuffer.isEmpty buffer), buffer)
  | slice start length => (.excerpt (TextBuffer.slice? buffer start length), buffer)
  | contents => (.text (TextBuffer.contents buffer), buffer)
  | replace start length newText =>
      match TextBuffer.replace buffer start length newText with
      | .ok changed => (.replaced (.ok ()), changed)
      | .error cause => (.replaced (.error cause), buffer)
  | apply options edits =>
      let outcome := options.apply buffer edits
      (.applied outcome.result, outcome.buffer)
  | applyInPlace options edits =>
      let outcome := options.applyInPlace buffer edits
      (.appliedInPlace outcome.result, outcome.buffer)
  | validate options edits => (.validated (options.validate buffer edits), buffer)

end Operation

end TextEditing
