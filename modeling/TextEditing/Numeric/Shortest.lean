/-
Module: TextEditing.Numeric.Shortest
Purpose: The decimal with the fewest digits that reads back as a given binary64 value.
Main exports: Decimal, Magnitude.ReadsBack, Magnitude.shortest
-/
import TextEditing.Numeric.Binary64

namespace TextEditing

/-!
The reals that round to a value form an interval: from halfway to the value below it to halfway to
the value above it, ends included when the significand is even.  Of the decimals in this interval
the one with the fewest digits is taken, and of those the nearest to the value.  For each number
of digits only the two decimals on either side of the value have to be looked at.
-/

/-- The number `digits · 10 ^ exponent`. -/
structure Decimal where
  digits : Nat
  exponent : Int
deriving Repr, Inhabited, DecidableEq

/-- The same number without zeros at the end of its digits. -/
def Decimal.withoutZeros (decimal : Decimal) : Decimal :=
  if decimal.digits ≠ 0 ∧ decimal.digits % 10 = 0 then
    withoutZeros ⟨decimal.digits / 10, decimal.exponent + 1⟩
  else
    decimal
termination_by decimal.digits

namespace Magnitude

/-- Compares `digits · 10 ^ exponent` with `n · 2 ^ power`. -/
def compareDecimal (decimal : Decimal) (n : Nat) (power : Int) : Ordering :=
  compare (decimal.digits * Nat.pow 10 decimal.exponent.toNat * Nat.pow 2 (-power).toNat)
    (n * Nat.pow 2 power.toNat * Nat.pow 10 (-decimal.exponent).toNat)

/-- The decimal lies among the reals that round to the value.  Below a power of two the values are
twice as dense, so the interval reaches only half as far down there. -/
def ReadsBack (value : Magnitude) (decimal : Decimal) : Prop :=
  let narrow := value.significand = leadingBit ∧ leastExponent < value.exponent
  let lower := if narrow then 4 * value.significand - 1 else 4 * value.significand - 2
  let upper := 4 * value.significand + 2
  let fromLower := compareDecimal decimal lower (value.exponent - 2)
  let toUpper := compareDecimal decimal upper (value.exponent - 2)
  if value.significand % 2 = 0 then fromLower ≠ .lt ∧ toUpper ≠ .gt
  else fromLower = .gt ∧ toUpper = .lt

instance (value : Magnitude) (decimal : Decimal) : Decidable (value.ReadsBack decimal) := by
  unfold ReadsBack; infer_instance

/-- The number of decimal digits of a natural. -/
def digitCount (n : Nat) : Nat := (Nat.toDigits 10 n).length

/-- The least `k` for which the value, which is not zero, is below `10 ^ k`. -/
def decimalScale (value : Magnitude) : Int :=
  let (numerator, denominator) := value.toQuotient
  if denominator ≤ numerator then
    digitCount (numerator / denominator)
  else
    1 - (digitCount ((denominator - 1) / numerator) : Int)

/-- Of the two multiples of `10 ^ grid` on either side of the value the one that reads back, or the
nearer one if both do. -/
def neighbour? (value : Magnitude) (grid : Int) : Option Decimal :=
  let (numerator, denominator) := value.toQuotient
  let above := numerator * Nat.pow 10 (-grid).toNat
  let below := denominator * Nat.pow 10 grid.toNat
  let down : Decimal := ⟨above / below, grid⟩
  let up : Decimal := ⟨above / below + 1, grid⟩
  match decide (value.ReadsBack down), decide (value.ReadsBack up) with
  | false, false => none
  | true, false => some down
  | false, true => some up
  | true, true => some ⟨roundedQuotient above below, grid⟩

/-- The value itself as a decimal. -/
def exactly (value : Magnitude) : Decimal :=
  ⟨value.significand * Nat.pow 2 value.exponent.toNat * Nat.pow 5 (-value.exponent).toNat,
    min value.exponent 0⟩

/-- The decimal with the fewest digits that reads back as the value, nearest to it among those. -/
def shortest (value : Magnitude) : Decimal :=
  if value.significand = 0 then
    ⟨0, 0⟩
  else
    let scale := value.decimalScale
    let found := (List.range 17).findSome? fun n => value.neighbour? (scale - (n + 1 : Nat))
    (found.getD value.exactly).withoutZeros

end Magnitude

end TextEditing
