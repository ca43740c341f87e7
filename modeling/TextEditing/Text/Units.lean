/-
Module: TextEditing.Text.Units
Purpose: The units in which producers of edits count offsets into a text.
Main exports: OffsetUnit, OffsetUnit.width, OffsetUnit.measure
-/

namespace TextEditing

/-!
Editors count characters, language services count 16-bit units, and tools that work on encoded
text count bytes.  A unit assigns every character a width; the measure of a text is the sum of
the widths of its characters.
-/

/-- The unit in which an offset is counted. -/
inductive OffsetUnit where
  | character
  | utf16
  | utf8
deriving Repr, Inhabited, DecidableEq

namespace OffsetUnit

/-- The number of units that one character takes. -/
def width : OffsetUnit → Char → Nat
  | .character, _ => 1
  | .utf16, c => if c.toNat < 0x10000 then 1 else 2
  | .utf8, c => c.utf8Size

/-- The number of units that a text takes. -/
def measure (unit : OffsetUnit) : List Char → Nat
  | [] => 0
  | c :: rest => unit.width c + measure unit rest

@[simp] theorem measure_nil (unit : OffsetUnit) : unit.measure [] = 0 := rfl

@[simp] theorem measure_cons (unit : OffsetUnit) (c : Char) (text : List Char) :
    unit.measure (c :: text) = unit.width c + unit.measure text := rfl

@[simp] theorem measure_append (unit : OffsetUnit) (s t : List Char) :
    unit.measure (s ++ t) = unit.measure s + unit.measure t := by
  induction s with
  | nil => simp
  | cons c rest ih => simp only [List.cons_append, measure_cons, ih, Nat.add_assoc]

/-- Every character takes at least one unit. -/
theorem width_pos (unit : OffsetUnit) (c : Char) : 0 < unit.width c := by
  cases unit with
  | character => exact Nat.one_pos
  | utf16 =>
      simp only [width]
      split
      · exact Nat.one_pos
      · exact Nat.two_pos
  | utf8 => exact c.utf8Size_pos

end OffsetUnit

end TextEditing
