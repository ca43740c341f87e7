/-
Module: TextEditing.Edit.Conversion
Purpose: Batches counted in one unit, restated in characters.
Main exports: OffsetTable.changeToCharacters, Batch.toCharacters
-/
import TextEditing.Edit.Change
import TextEditing.Edit.Failure
import TextEditing.Edit.OffsetTable

namespace TextEditing

/-- Why the change at `index` has no counterpart in characters, in terms of its own span.  The
offset named for a misaligned span is its start if the start has no counterpart, else its end. -/
def OffsetTable.rejection (table : OffsetTable) (index : Nat) (span : Span) :
    OffsetFault → ApplyError
  | .outOfRange => .outOfBounds index span table.encodedLength
  | .misaligned =>
      match table.toCharacter span.start with
      | .error _ => .misaligned index span.start
      | .ok _ => .misaligned index (span.start + span.length)

/-- One change restated in characters. -/
def OffsetTable.changeToCharacters (table : OffsetTable) (index : Nat) (change : Change) :
    Except ApplyError Change :=
  match table.spanToCharacters change.span with
  | .ok span => .ok { change with span }
  | .error fault => .error (table.rejection index change.span fault)

/-- The changes restated in characters, the first of them standing at `index` in its batch; the
first change without a counterpart decides the error. -/
def OffsetTable.changesToCharacters (table : OffsetTable) (index : Nat) :
    List Change → Except ApplyError (List Change)
  | [] => .ok []
  | change :: rest => do
      let first ← table.changeToCharacters index change
      let others ← table.changesToCharacters (index + 1) rest
      pure (first :: others)

/-- The batch restated in characters of the text that it was made for.  A batch counted in
characters is left as it is, fitting or not. -/
def Batch.toCharacters (edits : Batch) (unit : OffsetUnit) (text : String) :
    Except ApplyError Batch :=
  if unit = .character then
    .ok edits
  else
    (OffsetTable.ofText unit text).changesToCharacters 0 edits

end TextEditing
