/-
Module: TextEditing.Edit.OffsetTable
Purpose: Offsets of one text in characters and in another unit, and the way between the two.
Main exports: OffsetTable, OffsetTable.ofText, OffsetTable.toCharacter, OffsetTable.ofCharacter?,
  OffsetTable.spanToCharacters, OffsetTable.spanOfCharacters?
-/
import TextEditing.Text.Units
import TextEditing.Edit.Span

namespace TextEditing

/-!
The table of a text lists, for every character boundary from the start to the end of the text,
its offset in the unit.  A character offset is a place in the table, an offset in the unit an
entry of it; since every character is at least one unit wide the entries ascend, and an entry is
found by halving.
-/

/-- Why an offset has no counterpart in characters. -/
inductive OffsetFault where
  /-- The offset lies past the end of the text. -/
  | outOfRange
  /-- The offset lies inside a character. -/
  | misaligned
deriving Repr, Inhabited, DecidableEq

/-- The character boundaries of a text, as offsets in a unit. -/
structure OffsetTable where
  unit : OffsetUnit
  boundaries : Array Nat
deriving Repr, Inhabited, DecidableEq

namespace OffsetTable

/-- The boundaries of a text that begins at `offset`. -/
def boundariesFrom (unit : OffsetUnit) (offset : Nat) : List Char → List Nat
  | [] => [offset]
  | c :: rest => offset :: boundariesFrom unit (offset + unit.width c) rest

/-- The table of a text. -/
def ofText (unit : OffsetUnit) (text : String) : OffsetTable :=
  ⟨unit, (boundariesFrom unit 0 text.toList).toArray⟩

/-- The length of the text in the unit. -/
def encodedLength (table : OffsetTable) : Nat :=
  table.boundaries.back?.getD 0

/-- The place of an entry between the places `low` and `high`, the latter excluded. -/
def search (boundaries : Array Nat) (offset low high : Nat) : Option Nat :=
  if low < high then
    let middle := (low + high) / 2
    match boundaries[middle]? with
    | none => none
    | some boundary =>
        if boundary = offset then some middle
        else if boundary < offset then search boundaries offset (middle + 1) high
        else search boundaries offset low middle
  else
    none
termination_by high - low

/-- The number of characters in front of an offset given in the unit. -/
def toCharacter (table : OffsetTable) (offset : Nat) : Except OffsetFault Nat :=
  if table.encodedLength < offset then
    .error .outOfRange
  else
    match search table.boundaries offset 0 table.boundaries.size with
    | some place => .ok place
    | none => .error .misaligned

/-- The offset in the unit of the place behind so many characters. -/
def ofCharacter? (table : OffsetTable) (place : Nat) : Option Nat :=
  table.boundaries[place]?

/-- The characters covered by a span given in the unit. -/
def spanToCharacters (table : OffsetTable) (span : Span) : Except OffsetFault Span := do
  match span.stop? with
  | none => .error .outOfRange
  | some stop =>
      let first ← table.toCharacter span.start
      let last ← table.toCharacter stop
      pure (Span.ofBounds first last)

/-- The span in the unit of a span given in characters. -/
def spanOfCharacters? (table : OffsetTable) (span : Span) : Option Span := do
  let first ← table.ofCharacter? span.start
  let last ← table.ofCharacter? (← span.stop?)
  pure (Span.ofBounds first last)

end OffsetTable

end TextEditing
