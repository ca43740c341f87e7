/-
Module: TextEditing.Edit.Span
Purpose: Half-open ranges of a text, given by a start offset and a length.
Main exports: maxOffset, Span, Span.stop?, Span.reach, Span.Contains, Span.Overlaps, Span.text
-/

namespace TextEditing

/-!
Offsets are naturals up to `maxOffset`, the largest that 64 bits hold.  The end of a span may lie
beyond it; such a span has no end (`stop?` is `none`), covers every offset from its start on, and
for comparisons its end is taken to be `maxOffset` (`reach`).
-/

/-- The largest offset that 64 bits hold. -/
def maxOffset : Nat := 0xFFFFFFFFFFFFFFFF

/-- The half-open range of `length` units from `start` on. -/
structure Span where
  start : Nat
  length : Nat
deriving Repr, Inhabited, DecidableEq

namespace Span

/-- The span between two offsets, whichever of them comes first. -/
def ofBounds (a b : Nat) : Span where
  start := min a b
  length := max a b - min a b

/-- The offset just past the span, unless it does not fit into 64 bits. -/
def stop? (span : Span) : Option Nat :=
  if span.start + span.length ≤ maxOffset then some (span.start + span.length) else none

/-- The offset just past the span, cut at `maxOffset`. -/
def reach (span : Span) : Nat :=
  span.stop?.getD maxOffset

/-- An empty span marks a place for an insertion. -/
def isEmpty (span : Span) : Bool :=
  span.length == 0

/-- The offset lies inside the span; a span without an end goes on for ever. -/
def Contains (span : Span) (offset : Nat) : Prop :=
  span.start ≤ offset ∧ ∀ stop ∈ span.stop?, offset < stop

instance (span : Span) (offset : Nat) : Decidable (span.Contains offset) :=
  inferInstanceAs (Decidable (_ ∧ ∀ stop ∈ span.stop?, offset < stop))

/-- Both spans are non-empty and each begins before the other one ends. -/
def Overlaps (a b : Span) : Prop :=
  a.isEmpty = false ∧ b.isEmpty = false ∧ a.start < b.reach ∧ b.start < a.reach

instance (a b : Span) : Decidable (a.Overlaps b) :=
  inferInstanceAs (Decidable (_ ∧ _ ∧ _ ∧ _))

/-- Written `start..stop`, or `start+length` when there is no end to name. -/
def text (span : Span) : String :=
  match span.stop? with
  | some stop => toString span.start ++ ".." ++ toString stop
  | none => toString span.start ++ "+" ++ toString span.length

end Span

end TextEditing
