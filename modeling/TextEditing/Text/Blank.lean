/-
Module: TextEditing.Text.Blank
Purpose: White space as a property of characters, and texts without it at their ends.
Main exports: isBlank, stripped, trimmed
-/

namespace TextEditing

/-!
A character is blank when it has the property White_Space.  There are 25 such characters; the
zero-width space and the byte order mark are not among them.
-/

/-- The code points of blank characters, as closed ranges. -/
def blankRanges : List (Nat × Nat) :=
  [(0x09, 0x0D), (0x20, 0x20), (0x85, 0x85), (0xA0, 0xA0), (0x1680, 0x1680), (0x2000, 0x200A),
    (0x2028, 0x2029), (0x202F, 0x202F), (0x205F, 0x205F), (0x3000, 0x3000)]

/-- White space. -/
def isBlank (c : Char) : Bool :=
  blankRanges.any fun range => range.1 ≤ c.toNat && c.toNat ≤ range.2

example : (blankRanges.map fun range => range.2 + 1 - range.1).sum = 25 := by decide

/-- The characters between the first and the last one that is not to be dropped. -/
def stripped (drop : Char → Bool) (text : List Char) : List Char :=
  ((text.dropWhile drop).reverse.dropWhile drop).reverse

/-- The text without white space at its ends. -/
def trimmed (text : String) : String :=
  String.ofList (stripped isBlank text.toList)

end TextEditing
