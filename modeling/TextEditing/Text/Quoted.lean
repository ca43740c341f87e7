/-
Module: TextEditing.Text.Quoted
Purpose: Texts in double quotes, with every character visible.
Main exports: Quoted.escape, Quoted.text
-/
import TextEditing.Text.Hidden

namespace TextEditing.Quoted

/-- The digits of a number to base 16, in lower case. -/
def hexadecimal (n : Nat) : List Char := Nat.toDigits 16 n

/-- One character inside quotes.  The quote, the backslash and four controls have a letter; other
hidden characters are written by their code point in hexadecimal. -/
def escape (c : Char) : List Char :=
  match c with
  | '"' => ['\\', '"']
  | '\\' => ['\\', '\\']
  | '\t' => ['\\', 't']
  | '\r' => ['\\', 'r']
  | '\n' => ['\\', 'n']
  | '\x00' => ['\\', '0']
  | c =>
      if isHidden c then
        ['\\', 'u', '\x7b'] ++ hexadecimal c.toNat ++ ['\x7d']
      else
        [c]

/-- The text in quotes. -/
def text (s : String) : String :=
  String.ofList ('"' :: s.toList.flatMap escape ++ ['"'])

end TextEditing.Quoted
