/-
Module: TextEditing.Json.Number
Purpose: The numbers of JSON texts: how a numeral is read, and how a number is named in messages.
Main exports: Number, Numeral, Numeral.value?, Number.text
-/
import TextEditing.Numeric.Shortest

namespace TextEditing.Json

/-!
A numeral without fraction and exponent is an integer as long as 64 bits hold it, unsigned above
zero and signed below; every other numeral is a binary64 number, as is `-0`.

For binary64 the digits are gathered into a significand of 64 bits.  Whole digits that no longer
fit only raise the exponent, fraction digits that no longer fit are dropped.  The significand is
rounded to binary64 and then scaled by a power of ten.
-/

/-- The value of a numeral. -/
inductive Number where
  /-- An integer from 0 to `2 ^ 64 - 1`. -/
  | natural (n : Nat)
  /-- The integer `-n`, from `-2 ^ 63` to -1. -/
  | negative (n : Nat)
  | double (x : Binary64)
deriving Repr, Inhabited, DecidableEq

/-- The digits of a numeral, split at its marks. -/
structure Numeral where
  /-- The numeral begins with a minus sign. -/
  minus : Bool
  whole : List Nat
  /-- The digits behind the point, if there is one. -/
  fraction : Option (List Nat)
  /-- The sign and digits of the exponent, if there is one; `true` stands for a minus sign. -/
  exponent : Option (Bool × List Nat)
deriving Repr, Inhabited, DecidableEq

/-- The greatest number whose negation is an integer. -/
def maxNegative : Nat := 0x8000000000000000

/-- The greatest significand. -/
def maxSignificand : Nat := 0xFFFFFFFFFFFFFFFF

/-- Appends digits to a significand as long as it fits into 64 bits; also gives the number of
digits left over. -/
def gather (significand : Nat) : List Nat → Nat × Nat
  | [] => (significand, 0)
  | digit :: rest =>
      if significand * 10 + digit ≤ maxSignificand then
        gather (significand * 10 + digit) rest
      else
        (significand, rest.length + 1)

/-- The natural number with the given digits. -/
def ofDigits (digits : List Nat) : Nat :=
  digits.foldl (fun n digit => n * 10 + digit) 0

namespace Numeral

/-- The greatest exponent that is read as a number. -/
def maxExponent : Nat := 0x7FFFFFFF

/-- The binary64 number nearest to an integer below `2 ^ 64`, times a power of ten. -/
def double? (minus : Bool) (significand : Nat) (exponent : Int) : Option Number := do
  let start ← Magnitude.nearest? significand 1
  let magnitude ← start.scaled? exponent
  pure (.double ⟨minus, magnitude⟩)

/-- The integer that the whole digits of a numeral without further digits stand for. -/
def integer? (minus : Bool) (significand : Nat) : Option Number :=
  if minus then
    if 0 < significand ∧ significand ≤ maxNegative then
      some (.negative significand)
    else
      double? true significand 0
  else
    some (.natural significand)

/-- The value of the numeral, or `none` if it lies beyond binary64. -/
def value? (numeral : Numeral) : Option Number :=
  let (whole, skipped) := gather 0 numeral.whole
  match numeral.fraction, numeral.exponent with
  | none, none =>
      if skipped = 0 then integer? numeral.minus whole
      else double? numeral.minus whole skipped
  | fraction, exponent =>
      let digits := fraction.getD []
      let (significand, dropped) := gather whole digits
      let point : Int := skipped - (digits.length - dropped : Nat)
      match exponent with
      | none => double? numeral.minus significand point
      | some (down, power) =>
          let power := ofDigits power
          if power ≤ maxExponent then
            double? numeral.minus significand (if down then point - power else point + power)
          else if significand = 0 ∨ down then
            double? numeral.minus 0 0
          else
            none

end Numeral

/-- The place of the point: leading digits with exponents from here up to `plainBelow` are written
positionally. -/
def plainFrom : Int := -5

/-- Leading digits with this exponent or a higher one are written with an exponent. -/
def plainBelow : Int := 16

/-- A decimal written out.  Positional notation always has a point, so that a whole number ends in
`.0`; otherwise one digit stands before the point and the exponent has a sign. -/
def decimalText (decimal : Decimal) : String :=
  let digits := Nat.toDigits 10 decimal.digits
  let count : Int := digits.length
  -- the exponent of the leading digit
  let leading := decimal.exponent + count - 1
  if decimal.digits = 0 then
    "0.0"
  else if plainFrom ≤ leading ∧ leading < plainBelow then
    if 0 ≤ decimal.exponent then
      String.ofList (digits ++ List.replicate decimal.exponent.toNat '0') ++ ".0"
    else if 0 ≤ leading then
      let (whole, fraction) := digits.splitAt (leading + 1).toNat
      String.ofList whole ++ "." ++ String.ofList fraction
    else
      "0." ++ String.ofList (List.replicate (-leading - 1).toNat '0' ++ digits)
  else
    let mantissa :=
      match digits with
      | first :: second :: rest => String.ofList (first :: '.' :: second :: rest)
      | _ => String.ofList digits
    mantissa ++ "e" ++ (if leading < 0 then "-" else "+") ++ toString leading.natAbs

/-- A binary64 number with the fewest digits that read back. -/
def doubleText (x : Binary64) : String :=
  (if x.negative then "-" else "") ++ decimalText x.magnitude.shortest

end TextEditing.Json
