/-
Module: TextEditing.Proofs.Rounding
Purpose: Rounding to binary64 never crosses a binary64 value.
Main exports: Magnitude.value, Magnitude.nearest?_le_value, Magnitude.exists_nearest?,
  Magnitude.times?_le_value, Magnitude.le_value_tenTo, Binary64.natAbs_of_toInt?
-/
import Mathlib
import TextEditing.Numeric.Binary64

namespace TextEditing

/-!
A quotient is divided by a power of two that leaves it a whole part of 53 bits, unless this power
would be below the least one, and what is then rounded to a natural is at least that whole part.  A
binary64 value below the quotient has no more bits and no smaller exponent than the least one, so it
lies below the whole part, and rounding does not pass it.
-/

namespace Magnitude

/-- The number that a magnitude stands for. -/
def value (magnitude : Magnitude) : ℚ := magnitude.significand * 2 ^ magnitude.exponent

theorem two_zpow (exponent : Int) :
    (2 : ℚ) ^ exponent = (Nat.pow 2 exponent.toNat : ℕ) / (Nat.pow 2 (-exponent).toNat : ℕ) := by
  simp only [Nat.pow_eq, Nat.cast_pow, Nat.cast_ofNat]
  rw [← zpow_natCast, ← zpow_natCast, ← zpow_sub₀ two_ne_zero]
  congr 1
  omega

theorem two_zpow_pos (exponent : Int) : (0 : ℚ) < 2 ^ exponent := zpow_pos two_pos exponent

/-- Shifting divides the quotient by a power of two. -/
theorem ratio_shifted (numerator denominator : Nat) (exponent : Int) :
    ((shifted numerator denominator exponent).1 : ℚ) / (shifted numerator denominator exponent).2 =
      numerator / denominator / 2 ^ exponent := by
  rw [shifted, two_zpow]
  push_cast
  rw [div_div_eq_mul_div, mul_div_right_comm, ← div_div]
  ring

theorem shifted_pos {numerator denominator : Nat} (exponent : Int) (h : 0 < denominator) :
    0 < (shifted numerator denominator exponent).2 :=
  Nat.mul_pos h (Nat.pow_pos Nat.two_pos)

theorem ratio_toQuotient (magnitude : Magnitude) :
    (magnitude.toQuotient.1 : ℚ) / magnitude.toQuotient.2 = magnitude.value := by
  rw [toQuotient, value, two_zpow]
  push_cast
  ring

theorem toQuotient_pos (magnitude : Magnitude) : 0 < magnitude.toQuotient.2 :=
  Nat.pow_pos Nat.two_pos

/-- A natural is at most the whole part of a quotient if it is at most the quotient. -/
theorem le_div_iff_cast_le {n numerator denominator : Nat} (h : 0 < denominator) :
    n ≤ numerator / denominator ↔ (n : ℚ) ≤ numerator / denominator := by
  rw [Nat.le_div_iff_mul_le h, le_div_iff₀ (Nat.cast_pos.2 h)]
  exact_mod_cast Iff.rfl

/-!
### One rounding
-/

theorem div_le_roundedQuotient (numerator denominator : Nat) :
    numerator / denominator ≤ roundedQuotient numerator denominator := by
  unfold roundedQuotient
  dsimp only
  split_ifs <;> omega

/-- A quotient that is at most a natural is rounded to no more than that. -/
theorem roundedQuotient_le {numerator denominator n : Nat} (hpos : 0 < denominator)
    (h : numerator ≤ n * denominator) : roundedQuotient numerator denominator ≤ n := by
  have hsplit := Nat.div_add_mod numerator denominator
  have hquotient : numerator / denominator ≤ n := Nat.div_le_of_le_mul (by rwa [Nat.mul_comm])
  unfold roundedQuotient
  dsimp only
  rcases Nat.lt_or_eq_of_le hquotient with hlt | heq
  · split_ifs <;> omega
  · -- The quotient is that natural, and nothing remains.
    have hrest : numerator % denominator = 0 := by
      rw [heq, Nat.mul_comm] at hsplit
      omega
    rw [if_pos (by omega)]
    exact hquotient

/-- By its binary lengths alone a quotient is known to be at least half of what it could be. -/
theorem two_zpow_le_ratio {numerator denominator : Nat} (hnumerator : numerator ≠ 0)
    (hdenominator : 0 < denominator) :
    (2 : ℚ) ^ ((numerator.log2 : Int) - denominator.log2 - 1) ≤ numerator / denominator := by
  have habove : ((2 ^ numerator.log2 : ℕ) : ℚ) ≤ numerator :=
    Nat.cast_le.2 (Nat.log2_self_le hnumerator)
  have hbelow : (denominator : ℚ) ≤ (2 ^ (denominator.log2 + 1) : ℕ) :=
    Nat.cast_le.2 (Nat.le_of_lt Nat.lt_log2_self)
  have hpower : (2 : ℚ) ^ ((numerator.log2 : Int) - denominator.log2 - 1) =
      (2 ^ numerator.log2 : ℕ) / (2 ^ (denominator.log2 + 1) : ℕ) := by
    push_cast
    rw [← zpow_natCast, ← zpow_natCast, ← zpow_sub₀ two_ne_zero]
    congr 1
    push_cast
    ring
  rw [hpower]
  exact div_le_div₀ (Nat.cast_nonneg _) habove (Nat.cast_pos.2 hdenominator) hbelow

/-- The exponent is guessed from the binary lengths, and the guess is kept if it leaves enough
bits. -/
theorem fittingExponent_cases (numerator : Nat) {denominator : Nat} (h : 0 < denominator) :
    let guess : Int := (numerator.log2 : Int) - denominator.log2 - 52
    fittingExponent numerator denominator = max leastExponent (guess - 1) ∨
      fittingExponent numerator denominator = max leastExponent guess ∧
        (leadingBit : ℚ) ≤ numerator / denominator / 2 ^ guess := by
  intro guess
  have hexponent : fittingExponent numerator denominator =
      max leastExponent (if (shifted numerator denominator guess).1 /
        (shifted numerator denominator guess).2 < leadingBit then guess - 1 else guess) := rfl
  rw [hexponent]
  split
  · exact Or.inl rfl
  · rename_i hlong
    rw [← ratio_shifted, ← le_div_iff_cast_le (shifted_pos _ h)]
    exact Or.inr ⟨rfl, Nat.le_of_not_lt hlong⟩

/-- Above the least exponent the whole part has all its bits. -/
theorem leadingBit_le_of_fitting {numerator denominator : Nat} (hnumerator : numerator ≠ 0)
    (hdenominator : 0 < denominator)
    (h : leastExponent < fittingExponent numerator denominator) :
    (leadingBit : ℚ) ≤ numerator / denominator / 2 ^ fittingExponent numerator denominator := by
  have hlengths := two_zpow_le_ratio hnumerator hdenominator
  rcases fittingExponent_cases numerator hdenominator with hexponent | ⟨hexponent, hlong⟩
  · -- The guess was too great by one, which makes up for what the lengths leave open.
    rw [hexponent, lt_max_iff, or_iff_right (lt_irrefl _)] at h
    have hbits : (leadingBit : ℚ) = 2 ^ (52 : Int) := by norm_num [leadingBit]
    rw [hexponent, max_eq_right (le_of_lt h), le_div_iff₀ (two_zpow_pos _), hbits,
      ← zpow_add₀ two_ne_zero]
    refine le_trans (le_of_eq ?_) hlengths
    congr 1
    ring
  · rw [hexponent, lt_max_iff, or_iff_right (lt_irrefl _)] at h
    rw [hexponent, max_eq_right (le_of_lt h)]
    exact hlong

/-- A number other than zero is rounded in the place that its exponent leaves. -/
theorem value_of_nearest? {numerator denominator : Nat} {result : Magnitude}
    (hnumerator : numerator ≠ 0) (h : nearest? numerator denominator = some result) :
    let exponent := fittingExponent numerator denominator
    result.value = roundedQuotient (shifted numerator denominator exponent).1
      (shifted numerator denominator exponent).2 * 2 ^ exponent := by
  intro exponent
  rw [nearest?, if_neg hnumerator] at h
  simp only [Option.ite_none_right_eq_some, Option.some.injEq] at h
  obtain ⟨_, rfl⟩ := h
  split
  · -- One bit too many moves the exponent, which does not change the value.
    rename_i hcarry
    rw [hcarry, value, zpow_add_one₀ two_ne_zero]
    push_cast
    ring
  · rfl

/-- A multiple of the place that the quotient is not below is not above the result either. -/
theorem multiple_le_value {numerator denominator count : Nat} {result : Magnitude}
    (hnumerator : numerator ≠ 0) (hdenominator : 0 < denominator)
    (h : nearest? numerator denominator = some result)
    (hle : (count : ℚ) ≤ numerator / denominator / 2 ^ fittingExponent numerator denominator) :
    (count : ℚ) * 2 ^ fittingExponent numerator denominator ≤ result.value := by
  rw [← ratio_shifted, ← le_div_iff_cast_le (shifted_pos _ hdenominator)] at hle
  rw [value_of_nearest? hnumerator h]
  refine mul_le_mul_of_nonneg_right (Nat.cast_le.2 ?_) (le_of_lt (two_zpow_pos _))
  exact Nat.le_trans hle (div_le_roundedQuotient _ _)

/-- Rounding does not go below a value with at most 53 bits that the quotient is not below. -/
theorem nearest?_le_value {numerator denominator count : Nat} {place : Int} {result : Magnitude}
    (hdenominator : 0 < denominator) (h : nearest? numerator denominator = some result)
    (hcount : count ≤ 2 * leadingBit) (hplace : leastExponent ≤ place)
    (hle : (count : ℚ) * 2 ^ place ≤ numerator / denominator) :
    (count : ℚ) * 2 ^ place ≤ result.value := by
  rcases Nat.eq_zero_or_pos numerator with rfl | hpos
  · rw [nearest?, if_pos rfl, Option.some.injEq] at h
    rw [Nat.cast_zero, zero_div] at hle
    rw [← h, value, Nat.cast_zero, zero_mul]
    exact hle
  · have hnumerator := Nat.ne_of_gt hpos
    rcases le_or_gt (fittingExponent numerator denominator) place with hfine | hcoarse
    · -- The value is a multiple of the place to which the quotient is rounded.
      obtain ⟨more, hmore⟩ := Int.eq_ofNat_of_zero_le (sub_nonneg.2 hfine)
      have hmultiple : (count : ℚ) * 2 ^ place =
          (count * 2 ^ more : ℕ) * 2 ^ fittingExponent numerator denominator := by
        have hsum : place = more + fittingExponent numerator denominator := by omega
        rw [hsum, zpow_add₀ two_ne_zero, zpow_natCast]
        push_cast
        ring
      rw [hmultiple] at hle ⊢
      exact multiple_le_value hnumerator hdenominator h
        ((le_div_iff₀ (two_zpow_pos _)).2 hle)
    · -- The quotient has all its bits left of a place to which the value does not reach.
      have hbits := leadingBit_le_of_fitting hnumerator hdenominator (lt_of_le_of_lt hplace hcoarse)
      calc (count : ℚ) * 2 ^ place
          ≤ (2 * leadingBit : ℕ) * 2 ^ place :=
            mul_le_mul_of_nonneg_right (Nat.cast_le.2 hcount) (le_of_lt (two_zpow_pos _))
        _ = leadingBit * 2 ^ (place + 1) := by
            rw [zpow_add_one₀ two_ne_zero]
            push_cast
            ring
        _ ≤ leadingBit * 2 ^ fittingExponent numerator denominator :=
            mul_le_mul_of_nonneg_left (zpow_le_zpow_right₀ one_le_two hcoarse) (Nat.cast_nonneg _)
        _ ≤ result.value := multiple_le_value hnumerator hdenominator h hbits

/-- The greatest value, which has all its bits in the greatest place. -/
def greatest : Nat := (2 * leadingBit - 1) * Nat.pow 2 greatestExponent.toNat

theorem cast_greatest :
    (greatest : ℚ) = (2 * leadingBit - 1 : ℕ) * 2 ^ greatestExponent := by
  rw [greatest, Nat.cast_mul, Nat.pow_eq, Nat.cast_pow, Nat.cast_ofNat, ← zpow_natCast,
    Int.toNat_of_nonneg (by decide)]

/-- The place to which a quotient up to the greatest value is rounded is one of a value. -/
theorem fittingExponent_le {numerator denominator : Nat} (hnumerator : numerator ≠ 0)
    (hdenominator : 0 < denominator) (h : (numerator : ℚ) / denominator ≤ greatest) :
    fittingExponent numerator denominator ≤ greatestExponent := by
  by_contra hgreat
  rw [not_le] at hgreat
  have hbits := leadingBit_le_of_fitting hnumerator hdenominator (lt_trans (by decide) hgreat)
  rw [le_div_iff₀ (two_zpow_pos _)] at hbits
  have hpower : (2 : ℚ) ^ (greatestExponent + 1) ≤ 2 ^ fittingExponent numerator denominator :=
    zpow_le_zpow_right₀ one_le_two hgreat
  have hpos := two_zpow_pos greatestExponent
  rw [zpow_add_one₀ two_ne_zero] at hpower
  rw [cast_greatest] at h
  norm_num [leadingBit] at hbits h
  linarith

/-- A quotient up to the greatest value is rounded to a value. -/
theorem exists_nearest? {numerator denominator : Nat} (hdenominator : 0 < denominator)
    (h : numerator ≤ greatest * denominator) :
    ∃ result, nearest? numerator denominator = some result := by
  rcases Nat.eq_zero_or_pos numerator with rfl | hpos
  · exact ⟨_, if_pos rfl⟩
  · have hnumerator := Nat.ne_of_gt hpos
    have hratio : (numerator : ℚ) / denominator ≤ greatest := by
      rw [div_le_iff₀ (Nat.cast_pos.2 hdenominator)]
      exact_mod_cast h
    have hexponent := fittingExponent_le hnumerator hdenominator hratio
    rw [nearest?, if_neg hnumerator]
    dsimp only
    split_ifs with hcarry hrange
    · exact ⟨_, rfl⟩
    · -- A carry out of the greatest place would need more than the greatest value.
      exfalso
      have heq : fittingExponent numerator denominator = greatestExponent := by
        dsimp only at hrange
        omega
      rw [cast_greatest, ← heq, ← div_le_iff₀ (two_zpow_pos _), ← ratio_shifted,
        div_le_iff₀ (Nat.cast_pos.2 (shifted_pos _ hdenominator))] at hratio
      have hle := roundedQuotient_le (shifted_pos _ hdenominator) (by exact_mod_cast hratio)
      rw [hcarry] at hle
      exact absurd hle (by decide)
    · exact ⟨_, rfl⟩

/-!
### Products and powers of ten
-/

/-- A product is not rounded below a value that it is not below. -/
theorem times?_le_value {a b result : Magnitude} {count : Nat} {place : Int}
    (h : a.times? b = some result) (hcount : count ≤ 2 * leadingBit)
    (hplace : leastExponent ≤ place) (hle : (count : ℚ) * 2 ^ place ≤ a.value * b.value) :
    (count : ℚ) * 2 ^ place ≤ result.value := by
  have hproduct : a.value * b.value =
      (a.toQuotient.1 * b.toQuotient.1 : ℕ) / (a.toQuotient.2 * b.toQuotient.2 : ℕ) := by
    rw [← ratio_toQuotient, ← ratio_toQuotient, div_mul_div_comm, Nat.cast_mul, Nat.cast_mul]
  rw [hproduct] at hle
  exact nearest?_le_value (Nat.mul_pos a.toQuotient_pos b.toQuotient_pos) h hcount hplace hle

/-- The powers of ten from the first one on are at least eight, and do not leave the range. -/
theorem le_value_tenTo {n : Nat} (hpos : 0 < n) (hrange : n ≤ 308) :
    (1 : ℕ) * 2 ^ (3 : Int) ≤ (tenTo n).value := by
  have hgreatest : Nat.pow 10 n ≤ greatest * 1 :=
    Nat.le_trans (Nat.pow_le_pow_right (by decide) hrange) (by decide +kernel)
  obtain ⟨result, hresult⟩ := exists_nearest? Nat.one_pos hgreatest
  have hten : Nat.pow 10 1 ≤ Nat.pow 10 n := Nat.pow_le_pow_right (by decide) hpos
  have height : ((8 : ℕ) : ℚ) ≤ (Nat.pow 10 n : ℕ) := Nat.cast_le.2 (Nat.le_trans (by decide) hten)
  rw [tenTo, hresult, Option.getD_some]
  refine nearest?_le_value Nat.one_pos hresult (by decide) (by decide) ?_
  norm_num at height ⊢
  exact height

/-- A whole power of ten is taken in one step, and beyond the range nothing but zero is left. -/
theorem scaled?_natCast (magnitude : Magnitude) (n : Nat) :
    magnitude.scaled? n =
      if n ≤ 308 then magnitude.times? (tenTo n)
      else if magnitude.significand = 0 then some magnitude else none := by
  have hlow : ¬ (n : Int) < -308 := by omega
  have hneg : ¬ (n : Int) < 0 := by omega
  rw [scaled?, if_neg hlow, if_neg hneg, Int.natAbs_natCast]
  simp only [Nat.cast_le_ofNat]

end Magnitude

/-- The integer that a number stands for is its value, with its sign. -/
theorem Binary64.natAbs_of_toInt? {number : Binary64} {n : Int} (h : number.toInt? = some n) :
    (n.natAbs : ℚ) = number.magnitude.value := by
  rw [toInt?] at h
  simp only [Option.ite_none_right_eq_some, Option.some.injEq] at h
  obtain ⟨hdivides, rfl⟩ := h
  rw [← Magnitude.ratio_toQuotient]
  have habs : ∀ n : ℕ, (if number.negative = true then -(n : Int) else n).natAbs = n := by
    intro n
    split_ifs <;> simp
  rw [habs, Nat.cast_div (Nat.dvd_of_mod_eq_zero hdivides)]
  exact Nat.cast_ne_zero.2 (Nat.ne_of_gt number.magnitude.toQuotient_pos)

end TextEditing
