/-
Module: TextEditing.Options.Preference
Purpose: Single preferences: loosely typed values, their readings, and their JSON form.
Main exports: Preference, Preference.asBoolean?, Preference.asInteger?, Preference.asText,
  Preference.codec
-/
import TextEditing.Json.Codec
import TextEditing.Numeric.Integer
import TextEditing.Text.Blank

namespace TextEditing

/-!
A preference is a truth value, an integer of 64 bits or a text.  A text also counts as the truth
value or the integer that it spells, with any white space around it; everything counts as text.
-/

/-- The value of a preference. -/
inductive Preference where
  | boolean (value : Bool)
  | integer (value : Int64)
  | text (value : String)
deriving Repr, Inhabited, DecidableEq

namespace Preference

/-- A word for a truth value, in any case of its letters. -/
def booleanOfText? (text : String) : Option Bool :=
  let word := (stripped isBlank text.toList).map Char.toLower
  if word = "true".toList then some true
  else if word = "false".toList then some false
  else none

/-- The integer if 64 bits hold it. -/
def int64? (n : Int) : Option Int64 :=
  if Int64.minValue.toInt ≤ n ∧ n ≤ Int64.maxValue.toInt then some (Int64.ofInt n) else none

/-- The value as a truth value. -/
def asBoolean? : Preference → Option Bool
  | boolean value => some value
  | integer _ => none
  | text value => booleanOfText? value

/-- The value as an integer. -/
def asInteger? : Preference → Option Int64
  | boolean _ => none
  | integer value => some value
  | text value => (Integer.ofText? (trimmed value)).bind int64?

/-- The value as a text. -/
def asText : Preference → String
  | boolean true => "true"
  | boolean false => "false"
  | integer value => Integer.text value.toInt
  | text value => value

/-- What is expected in the place of a preference, for messages. -/
def expected : String := "a boolean, an integer or a string"

open Json in
/-- The integer that a number stands for; a fraction of zero does not count. -/
def ofNumber (number : Number) : Except DecodeError Preference :=
  let value? : Option Int :=
    match number with
    | .natural n => some n
    | .negative n => some (-(n : Int))
    | .double x => x.toInt?
  match value?.bind int64? with
  | some value => .ok (integer value)
  | none => .error (.wrongValue (.number number) expected)

open Json in
/-- Preferences as JSON values of the same kind. -/
def codec : Codec Preference where
  read _ tree :=
    match tree with
    | .boolean value => .ok (boolean value)
    | .number number => ofNumber number
    | .string value => .ok (text value)
    | tree => .error (tree.head.unexpected expected)
  write
    | boolean value => .boolean value
    | integer value => .ofInt value.toInt
    | text value => .string value

end Preference

end TextEditing
