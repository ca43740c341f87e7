/-
Module: TextEditing.Edit.Change
Purpose: Replacements of a span by a text, and batches of them.
Main exports: Change, Change.insert, Change.delete, Batch, Batch.withoutEmpty
-/
import TextEditing.Edit.Span

namespace TextEditing

/-- Puts `newText` in the place of `span`. -/
structure Change where
  span : Span
  newText : String
deriving Repr, Inhabited, DecidableEq

namespace Change

/-- Replaces `length` units from `start` on. -/
def replace (start length : Nat) (newText : String) : Change :=
  ⟨⟨start, length⟩, newText⟩

/-- Puts `newText` before the unit at `start`. -/
def insert (start : Nat) (newText : String) : Change :=
  replace start 0 newText

/-- Removes `length` units from `start` on. -/
def delete (start length : Nat) : Change :=
  replace start length ""

/-- The number of characters put in. -/
def insertedLength (change : Change) : Nat :=
  change.newText.length

end Change

/-- Changes made against one and the same text, in the order in which their producer lists them. -/
abbrev Batch := List Change

/-- The changes that replace or remove something; pure insertions are dropped. -/
def Batch.withoutEmpty (edits : Batch) : Batch :=
  edits.filter fun change => !change.span.isEmpty

end TextEditing
