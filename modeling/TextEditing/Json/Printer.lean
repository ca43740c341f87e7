/-
Module: TextEditing.Json.Printer
Purpose: JSON texts of values, on one line or laid out with indentation.
Main exports: Printer.quoted, Value.compact, Value.pretty
-/
import TextEditing.Json.Value

namespace TextEditing.Json

/-!
Inside strings the quote, the backslash and the control characters are escaped, the latter by
their letter or, if they have none, by four hexadecimal digits in lower case; everything else
stands for itself.  The layout with indentation puts every entry on a line of its own, two spaces
further in than what it belongs to, and leaves empty arrays and objects on one line.
-/

namespace Printer

/-- A character inside a string. -/
def escape (c : Char) : List Char :=
  match c with
  | '"' => ['\\', '"']
  | '\\' => ['\\', '\\']
  | '\x08' => ['\\', 'b']
  | '\x0c' => ['\\', 'f']
  | '\n' => ['\\', 'n']
  | '\r' => ['\\', 'r']
  | '\t' => ['\\', 't']
  | c =>
      if c.toNat < 0x20 then
        ['\\', 'u', '0', '0', (c.toNat / 16).digitChar, (c.toNat % 16).digitChar]
      else
        [c]

/-- A string. -/
def quoted (text : String) : List Char :=
  '"' :: text.toList.flatMap escape ++ ['"']

/-- A number. -/
def number : Number → List Char
  | .natural n => Nat.toDigits 10 n
  | .negative n => '-' :: Nat.toDigits 10 n
  | .double x => (doubleText x).toList

/-- A new line with the indentation of a depth. -/
def newLine (depth : Nat) : List Char :=
  '\n' :: List.replicate (2 * depth) ' '

end Printer

namespace Value

mutual

/-- The value without any white space. -/
def compactChars : Value → List Char
  | .null => "null".toList
  | .boolean true => "true".toList
  | .boolean false => "false".toList
  | .number value => Printer.number value
  | .string value => Printer.quoted value
  | .array [] => ['[', ']']
  | .array (first :: rest) => '[' :: compactChars first ++ compactEntries rest
  | .object [] => ['\x7b', '\x7d']
  | .object ((name, value) :: rest) =>
      '\x7b' :: Printer.quoted name ++ ':' :: compactChars value ++ compactMembers rest

/-- Further entries of an array, and its end. -/
def compactEntries : List Value → List Char
  | [] => [']']
  | value :: rest => ',' :: compactChars value ++ compactEntries rest

/-- Further members of an object, and its end. -/
def compactMembers : List (String × Value) → List Char
  | [] => ['\x7d']
  | (name, value) :: rest =>
      ',' :: Printer.quoted name ++ ':' :: compactChars value ++ compactMembers rest

end

mutual

/-- The value laid out at a depth. -/
def prettyChars (depth : Nat) : Value → List Char
  | .null => "null".toList
  | .boolean true => "true".toList
  | .boolean false => "false".toList
  | .number value => Printer.number value
  | .string value => Printer.quoted value
  | .array [] => ['[', ']']
  | .array (first :: rest) =>
      '[' :: Printer.newLine (depth + 1) ++ prettyChars (depth + 1) first
        ++ prettyEntries depth rest
  | .object [] => ['\x7b', '\x7d']
  | .object ((name, value) :: rest) =>
      '\x7b' :: Printer.newLine (depth + 1) ++ Printer.quoted name ++ ':' :: ' '
        :: prettyChars (depth + 1) value ++ prettyMembers depth rest

/-- Further entries of an array laid out at a depth, and its end. -/
def prettyEntries (depth : Nat) : List Value → List Char
  | [] => Printer.newLine depth ++ [']']
  | value :: rest =>
      ',' :: Printer.newLine (depth + 1) ++ prettyChars (depth + 1) value
        ++ prettyEntries depth rest

/-- Further members of an object laid out at a depth, and its end. -/
def prettyMembers (depth : Nat) : List (String × Value) → List Char
  | [] => Printer.newLine depth ++ ['\x7d']
  | (name, value) :: rest =>
      ',' :: Printer.newLine (depth + 1) ++ Printer.quoted name ++ ':' :: ' '
        :: prettyChars (depth + 1) value ++ prettyMembers depth rest

end

/-- The value on one line. -/
def compact (value : Value) : String := String.ofList value.compactChars

/-- The value with one entry a line. -/
def pretty (value : Value) : String := String.ofList (value.prettyChars 0)

end Value

end TextEditing.Json
