/-
Module: TextEditing.Edit.Order
Purpose: The order in which a batch is applied, the order in which it is searched for conflicts,
  and that search.
Main exports: Numbered, Batch.scanOrder, Batch.applicationOrder, Conflict, Batch.conflict?
-/
import TextEditing.Edit.Change

namespace TextEditing

/-!
A batch is applied from its last start offset to its first, so that every change still finds the
offsets it was made for; among changes with one start the later in the batch goes first, which
leaves insertions at one place in batch order.

Conflicts are searched in the opposite direction.  Going up by start and position, a change is in
conflict when it begins before the furthest end met so far.  Hence insertions at one offset never
collide, an insertion at the end of a replaced range is fine, and an insertion at the start of a
replaced range collides only when it comes later in the batch: it would be applied first and then
be swallowed.
-/

/-- A change with its position in the batch. -/
structure Numbered where
  index : Nat
  change : Change
deriving Repr, Inhabited, DecidableEq

namespace Numbered

/-- The start offset of the change. -/
def start (edit : Numbered) : Nat := edit.change.span.start

/-- The end of the change, cut at `maxOffset`. -/
def reach (edit : Numbered) : Nat := edit.change.span.reach

/-- Ascending by start, then by position. -/
def precedes (a b : Numbered) : Bool :=
  a.start < b.start || (a.start == b.start && a.index ≤ b.index)

/-- Descending by start, then by position. -/
def follows (a b : Numbered) : Bool :=
  b.start < a.start || (a.start == b.start && b.index ≤ a.index)

end Numbered

/-- Two changes of a batch that cannot both be carried out as given: `later` begins before
`earlier` ends. -/
structure Conflict where
  later : Numbered
  earlier : Numbered
deriving Repr, Inhabited, DecidableEq

namespace Batch

/-- The changes with their positions, in batch order. -/
def numbered (edits : Batch) : List Numbered :=
  edits.mapIdx fun index change => ⟨index, change⟩

/-- The changes from the first start offset to the last, ties in batch order. -/
def scanOrder (edits : Batch) : List Numbered :=
  (numbered edits).mergeSort Numbered.precedes

/-- The changes from the last start offset to the first, ties in reverse batch order. -/
def applicationOrder (edits : Batch) : List Numbered :=
  (numbered edits).mergeSort Numbered.follows

/-- The first change that begins before the furthest end seen so far.  Of changes that end at the
same place the first one met is remembered. -/
def conflictAfter? (furthest : Numbered) : List Numbered → Option Conflict
  | [] => none
  | edit :: rest =>
      if edit.start < furthest.reach then
        some ⟨edit, furthest⟩
      else
        conflictAfter? (if furthest.reach < edit.reach then edit else furthest) rest

/-- The first conflict of the batch in scan order. -/
def conflict? (edits : Batch) : Option Conflict :=
  match scanOrder edits with
  | [] => none
  | first :: rest => conflictAfter? first rest

end Batch

end TextEditing
