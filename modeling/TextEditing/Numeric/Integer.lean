/-
Module: TextEditing.Numeric.Integer
Purpose: Integers in decimal digits, written and read.
Main exports: Integer.text, Integer.ofText?
-/

namespace TextEditing.Integer

/-!
An integer is written with its digits and, if it is negative, a minus sign in front of them.
Reading also takes a plus sign and leading zeros, but nothing else around the digits.
-/

/-- The digits of the integer, behind a minus sign if it is negative. -/
def text (n : Int) : String :=
  String.ofList ((if n < 0 then ['-'] else []) ++ Nat.toDigits 10 n.natAbs)

/-- The natural number with the given digits, continuing from `n`. -/
def continued (n : Nat) : List Char → Option Nat
  | [] => some n
  | c :: rest => if c.isDigit then continued (10 * n + (c.toNat - '0'.toNat)) rest else none

/-- The natural number with the given digits; there must be some. -/
def ofDigits? : List Char → Option Nat
  | [] => none
  | digits => continued 0 digits

/-- The integer with the given digits behind an optional sign. -/
def ofText? (text : String) : Option Int :=
  match text.toList with
  | '-' :: digits => (ofDigits? digits).map fun n => -(n : Int)
  | '+' :: digits => (ofDigits? digits).map fun n => (n : Int)
  | digits => (ofDigits? digits).map fun n => (n : Int)

end TextEditing.Integer
