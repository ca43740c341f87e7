/-
Module: TextEditing.Numeric.Binary64
Purpose: Finite binary floating-point numbers of 64 bits in exact integer arithmetic.
Main exports: Magnitude, Magnitude.nearest?, Magnitude.scaled?, Binary64, Binary64.toInt?
-/

namespace TextEditing

/-!
A magnitude is `significand · 2 ^ exponent`.  In binary64 the significand has at most 53 bits, the
exponent is at least -1074, and the value is below 2 ^ 1024.  `nearest?` rounds a quotient of
naturals to the nearest such value, ties to the even significand; every operation computes an
exact quotient and rounds it once.
-/

/-- A non-negative number `significand · 2 ^ exponent`. -/
structure Magnitude where
  significand : Nat
  exponent : Int
deriving Repr, Inhabited, DecidableEq

namespace Magnitude

/-- The exponent of the least positive value. -/
def leastExponent : Int := -1074

/-- The exponent of the greatest value, whose significand has all its 53 bits. -/
def greatestExponent : Int := 971

/-- The quotient rounded to the nearest natural, a half to the even neighbour. -/
def roundedQuotient (numerator denominator : Nat) : Nat :=
  let quotient := numerator / denominator
  let twice := 2 * (numerator % denominator)
  if twice < denominator then quotient
  else if denominator < twice then quotient + 1
  else if quotient % 2 = 0 then quotient
  else quotient + 1

/-- The least significand of 53 bits, `2 ^ 52`. -/
def leadingBit : Nat := 0x10000000000000

/-- The numerator and denominator of a quotient divided by `2 ^ exponent`. -/
def shifted (numerator denominator : Nat) (exponent : Int) : Nat × Nat :=
  (numerator * Nat.pow 2 (-exponent).toNat, denominator * Nat.pow 2 exponent.toNat)

/-- The exponent with which the quotient gets a significand of 53 bits, but never less than the
least one. -/
def fittingExponent (numerator denominator : Nat) : Int :=
  -- the quotient of the binary lengths is off by one place at most
  let guess : Int := (numerator.log2 : Int) - denominator.log2 - 52
  let (above, below) := shifted numerator denominator guess
  max leastExponent (if above / below < leadingBit then guess - 1 else guess)

/-- The binary64 value nearest to a quotient, or `none` from the limit of the range on. -/
def nearest? (numerator denominator : Nat) : Option Magnitude :=
  if numerator = 0 then
    some ⟨0, leastExponent⟩
  else
    let exponent := fittingExponent numerator denominator
    let (above, below) := shifted numerator denominator exponent
    let significand := roundedQuotient above below
    let rounded : Magnitude :=
      if significand = 2 * leadingBit then ⟨leadingBit, exponent + 1⟩
      else ⟨significand, exponent⟩
    if rounded.exponent ≤ greatestExponent then some rounded else none

/-- The value as a quotient of naturals. -/
def toQuotient (value : Magnitude) : Nat × Nat :=
  (value.significand * Nat.pow 2 value.exponent.toNat, Nat.pow 2 (-value.exponent).toNat)

/-- The product, rounded. -/
def times? (a b : Magnitude) : Option Magnitude :=
  let (p, q) := a.toQuotient
  let (r, s) := b.toQuotient
  nearest? (p * r) (q * s)

/-- The quotient by a value other than zero, rounded. -/
def over? (a b : Magnitude) : Option Magnitude :=
  let (p, q) := a.toQuotient
  let (r, s) := b.toQuotient
  nearest? (p * s) (q * r)

/-- A power of ten, rounded; up to 308 it lies in the range. -/
def tenTo (n : Nat) : Magnitude :=
  (nearest? (Nat.pow 10 n) 1).getD ⟨0, leastExponent⟩

/-- The value times `10 ^ exponent`.  Powers of ten are themselves rounded, and at most `10 ^ 308`
is taken in one step; the result is `none` when the range is left. -/
def scaled? (value : Magnitude) (exponent : Int) : Option Magnitude :=
  if exponent < -308 then
    if value.significand = 0 then
      some value
    else do
      let less ← value.over? (tenTo 308)
      less.scaled? (exponent + 308)
  else if exponent < 0 then
    value.over? (tenTo exponent.natAbs)
  else if exponent ≤ 308 then
    value.times? (tenTo exponent.natAbs)
  else if value.significand = 0 then
    some value
  else
    none
termination_by (-exponent).toNat

end Magnitude

/-- A finite binary64 number; zero has a sign too. -/
structure Binary64 where
  negative : Bool
  magnitude : Magnitude
deriving Repr, Inhabited, DecidableEq

/-- The number as an integer, if it is one. -/
def Binary64.toInt? (number : Binary64) : Option Int :=
  let (numerator, denominator) := number.magnitude.toQuotient
  if numerator % denominator = 0 then
    let whole : Int := (numerator / denominator : Nat)
    some (if number.negative then -whole else whole)
  else
    none

end TextEditing
