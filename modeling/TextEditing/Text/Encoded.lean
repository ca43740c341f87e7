/-
Module: TextEditing.Text.Encoded
Purpose: Texts as sequences of code units.
Main exports: OffsetUnit.encodeChar, OffsetUnit.encode, OffsetUnit.textLength,
  OffsetUnit.length_encode, OffsetUnit.measure_le_utf8ByteSize
-/
import TextEditing.Text.Units

namespace TextEditing

/-!
Offsets count code units: the numbers of the characters themselves, 16-bit units with two
surrogates for a character past the first 65536, or bytes.  The measure of a text is the number of
its code units.
-/

namespace OffsetUnit

/-- The code units of one character. -/
def encodeChar : OffsetUnit → Char → List Nat
  | .character, c => [c.toNat]
  | .utf16, c =>
      if c.toNat < 0x10000 then
        [c.toNat]
      else
        [0xD800 + (c.toNat - 0x10000) / 0x400, 0xDC00 + (c.toNat - 0x10000) % 0x400]
  | .utf8, c => (String.utf8EncodeChar c).map UInt8.toNat

/-- The code units of a text. -/
def encode (unit : OffsetUnit) (text : List Char) : List Nat :=
  text.flatMap unit.encodeChar

/-- The length of a text: its characters, its 16-bit units, or its bytes. -/
def textLength : OffsetUnit → String → Nat
  | .character, text => text.length
  | .utf16, text => (utf16.encode text.toList).length
  | .utf8, text => text.utf8ByteSize

variable {unit : OffsetUnit}

@[simp] theorem encode_nil (unit : OffsetUnit) : unit.encode [] = [] := rfl

@[simp] theorem encode_cons (unit : OffsetUnit) (c : Char) (text : List Char) :
    unit.encode (c :: text) = unit.encodeChar c ++ unit.encode text := rfl

@[simp] theorem encode_append (unit : OffsetUnit) (s t : List Char) :
    unit.encode (s ++ t) = unit.encode s ++ unit.encode t :=
  List.flatMap_append

theorem length_encodeChar (unit : OffsetUnit) (c : Char) :
    (unit.encodeChar c).length = unit.width c := by
  cases unit with
  | character => rfl
  | utf16 =>
      simp only [encodeChar, width]
      split
      · rfl
      · rfl
  | utf8 => rw [encodeChar, List.length_map, String.length_utf8EncodeChar, width]

@[simp] theorem length_encode (unit : OffsetUnit) (text : List Char) :
    (unit.encode text).length = unit.measure text := by
  induction text with
  | nil => rfl
  | cons c rest ih =>
      rw [encode_cons, List.length_append, length_encodeChar, ih, measure_cons]

theorem measure_utf8 (text : List Char) :
    utf8.measure text = (String.ofList text).utf8ByteSize := by
  induction text with
  | nil => rfl
  | cons c rest ih =>
      rw [String.ofList_cons, String.utf8ByteSize_append, String.utf8ByteSize_singleton, ← ih]
      rfl

/-- No character takes more units than bytes. -/
theorem width_le_utf8Size (unit : OffsetUnit) (c : Char) : unit.width c ≤ c.utf8Size := by
  cases unit with
  | character => exact c.utf8Size_pos
  | utf16 =>
      simp only [width]
      split
      · exact c.utf8Size_pos
      · rename_i hfar
        have hval : 65535 < c.val := UInt32.lt_iff_toNat_lt.2 (Nat.le_of_not_lt hfar)
        rw [Char.utf8Size_eq_four_iff.2 hval]
        decide
  | utf8 => exact Nat.le_refl _

/-- No text takes more units than bytes. -/
theorem measure_le_utf8ByteSize (unit : OffsetUnit) (text : String) :
    unit.measure text.toList ≤ text.utf8ByteSize := by
  have hmeasure : ∀ chars : List Char, unit.measure chars ≤ utf8.measure chars := by
    intro chars
    induction chars with
    | nil => exact Nat.le_refl 0
    | cons c rest ih => exact Nat.add_le_add (unit.width_le_utf8Size c) ih
  calc unit.measure text.toList ≤ utf8.measure text.toList := hmeasure text.toList
    _ = text.utf8ByteSize := by rw [measure_utf8, String.ofList_toList]

theorem encodeChar_ne_nil (unit : OffsetUnit) (c : Char) : unit.encodeChar c ≠ [] := by
  rw [← List.length_pos_iff, length_encodeChar]
  exact unit.width_pos c

end OffsetUnit

end TextEditing
