/-
Module: TextEditing.Proofs.IntegerLiterals
Purpose: Which integer literals are read as preferences, and as which integers.
Main exports: Numeral.ofInt, Numeral.value?_ofInt, Numeral.toTree, Preference.Accepts,
  Preference.ofLiteral, Layer.readEntry_ofInt
-/
import TextEditing.Options.Preferences
import TextEditing.Proofs.Rounding
import TextEditing.Proofs.WrittenTokens

namespace TextEditing

open Json

/-!
The digits of a literal that 64 bits hold are gathered into one natural.  Of a longer literal a
significand of 64 bits is gathered, at least three times `2 ^ 59`, and at least one digit is left
over; scaling by the power of ten for these digits brings the number beyond `2 ^ 63`, rounded or
not.  Below zero the literals beyond 63 bits are rounded as well.  The binary64 numbers next to
`2 ^ 63` are 2048 apart above it, so up to 1024 beyond it literals are rounded to it, and the others
are beyond it.
-/

namespace Json

theorem digitValue_le {c : Char} (h : c.isDigit = true) : digitValue c ≤ 9 := by
  rw [Char.isDigit, Bool.and_eq_true, decide_eq_true_eq, decide_eq_true_eq] at h
  have hnine : c.toNat ≤ '9'.toNat := h.2
  have hten : '9'.toNat - '0'.toNat = 9 := by decide
  rw [digitValue, ← hten]
  exact Nat.sub_le_sub_right hnine _

/-- Digits of a number that does not fit are gathered as far as they fit, so that one more digit
would not. -/
theorem exists_gather_of_lt {significand : Nat} {digits : List Nat}
    (hstart : significand ≤ maxSignificand) (hdigits : ∀ digit ∈ digits, digit ≤ 9)
    (h : maxSignificand < digits.foldl (fun n digit => n * 10 + digit) significand) :
    ∃ gathered left, gather significand digits = (gathered, left) ∧ 0 < left ∧
      gathered ≤ maxSignificand ∧ maxSignificand < gathered * 10 + 10 := by
  induction digits generalizing significand with
  | nil => exact absurd hstart (Nat.not_le_of_lt h)
  | cons digit rest ih =>
      obtain ⟨hdigit, hrest⟩ := List.forall_mem_cons.1 hdigits
      rw [gather]
      split
      · rename_i hfits
        exact ih hfits hrest h
      · rename_i hlong
        exact ⟨significand, rest.length + 1, rfl, Nat.succ_pos _, hstart, by omega⟩

namespace Numeral

/-- The numeral of an integer literal: a minus sign below zero, and the digits. -/
def ofInt (n : Int) : Numeral where
  minus := n < 0
  whole := (Nat.toDigits 10 n.natAbs).map digitValue
  fraction := none
  exponent := none

/-- A literal is read as an integer if 64 bits hold its digits, and else as a binary64 number with
digits left over. -/
theorem value?_ofInt (n : Int) :
    (n.natAbs ≤ maxSignificand ∧ (ofInt n).value? = integer? (n < 0) n.natAbs) ∨
      ∃ gathered left, maxSignificand < n.natAbs ∧
        (ofInt n).value? = double? (n < 0) gathered (left : Nat) ∧ 0 < left ∧
        maxSignificand < gathered * 10 + 10 := by
  have hvalue : ((Nat.toDigits 10 n.natAbs).map digitValue).foldl
      (fun n digit => n * 10 + digit) 0 = n.natAbs := ofDigits_toDigits n.natAbs
  rcases Nat.lt_or_ge maxSignificand n.natAbs with hlong | hfits
  · right
    have hdigits : ∀ digit ∈ (Nat.toDigits 10 n.natAbs).map digitValue, digit ≤ 9 := by
      intro digit hdigit
      obtain ⟨c, hc, rfl⟩ := List.mem_map.1 hdigit
      exact digitValue_le (Nat.isDigit_of_mem_toDigits (by decide) (by decide) hc)
    obtain ⟨gathered, left, hgather, hleft, _, hfull⟩ :=
      exists_gather_of_lt (Nat.zero_le _) hdigits (hvalue.symm ▸ hlong)
    refine ⟨gathered, left, hlong, ?_, hleft, hfull⟩
    simp only [value?, ofInt, hgather, if_neg (Nat.ne_of_gt hleft)]
  · left
    refine ⟨hfits, ?_⟩
    simp only [value?, ofInt, gather_of_le (hvalue.symm ▸ hfits), hvalue, if_true]

theorem double?_eq_some_iff {minus : Bool} {significand : Nat} {exponent : Int}
    {number : Number} :
    double? minus significand exponent = some number ↔
      ∃ start magnitude, Magnitude.nearest? significand 1 = some start ∧
        start.scaled? exponent = some magnitude ∧ number = .double ⟨minus, magnitude⟩ := by
  simp only [double?, Option.bind_eq_bind, Option.bind_eq_some_iff, Option.pure_def,
    Option.some.injEq, exists_and_left, eq_comm (a := number)]

/-- With digits left over, whatever the number is rounded to lies beyond `2 ^ 63`. -/
theorem exists_of_double?_left {minus : Bool} {gathered left : Nat} {number : Number}
    (hfull : maxSignificand < gathered * 10 + 10) (hleft : 0 < left)
    (h : double? minus gathered left = some number) :
    ∃ x, number = .double x ∧ (3 : ℕ) * 2 ^ (62 : Int) ≤ x.magnitude.value := by
  obtain ⟨start, magnitude, hstart, hscaled, rfl⟩ := double?_eq_some_iff.1 h
  refine ⟨_, rfl, ?_⟩
  have hgathered : 3 * 2 ^ 59 ≤ gathered := by
    rw [maxSignificand] at hfull
    omega
  have hbelow : ((3 : ℕ) : ℚ) * 2 ^ (59 : Int) ≤ start.value := by
    refine Magnitude.nearest?_le_value Nat.one_pos hstart (by decide) (by decide) ?_
    rw [Nat.cast_one, div_one]
    exact_mod_cast hgathered
  rw [Magnitude.scaled?_natCast] at hscaled
  split at hscaled
  · rename_i hrange
    have hten := Magnitude.le_value_tenTo hleft hrange
    refine Magnitude.times?_le_value hscaled (by decide) (by decide) ?_
    calc ((3 : ℕ) : ℚ) * 2 ^ (62 : Int)
        = ((3 : ℕ) * 2 ^ (59 : Int)) * ((1 : ℕ) * 2 ^ (3 : Int)) := by norm_num
      _ ≤ start.value * (Magnitude.tenTo left).value :=
          mul_le_mul hbelow hten (by positivity) (le_trans (by positivity) hbelow)
  · -- Beyond the range of the powers of ten only zero is left, which this is not.
    rw [Option.ite_none_right_eq_some] at hscaled
    rw [Magnitude.value, hscaled.1, Nat.cast_zero, zero_mul] at hbelow
    norm_num at hbelow

theorem shifted_eleven (n : Nat) : Magnitude.shifted n 1 11 = (n * 1, 1 * 2048) := rfl

/-- Literals of 64 binary digits are rounded to multiples of 2048. -/
theorem fittingExponent_of_long {n : Nat} (hlow : maxNegative ≤ n) (hhigh : n ≤ maxSignificand) :
    Magnitude.fittingExponent n 1 = 11 := by
  rw [maxNegative] at hlow
  rw [maxSignificand] at hhigh
  have hlog : n.log2 = 63 := by
    rw [Nat.log2_eq_iff (by omega)]
    omega
  have hguess : ((63 : ℕ) : Int) - (Nat.log2 1 : ℕ) - 52 = 11 := by decide
  have hbits : ¬ n * 1 / (1 * 2048) < Magnitude.leadingBit := by
    rw [Magnitude.leadingBit]
    omega
  rw [Magnitude.fittingExponent, hlog]
  simp only [hguess, shifted_eleven, if_neg hbits]
  decide

/-- What lies at most 1024 beyond `2 ^ 63` is rounded to `2 ^ 63`. -/
theorem double?_of_near {n : Nat} (hlow : maxNegative ≤ n) (hhigh : n ≤ maxNegative + 1024) :
    double? true n (0 : ℕ) = some (.double ⟨true, ⟨Magnitude.leadingBit, 11⟩⟩) := by
  have hexponent := fittingExponent_of_long hlow (Nat.le_trans hhigh (by decide))
  rw [maxNegative] at hlow hhigh
  have hrounded : Magnitude.roundedQuotient (n * 1) (1 * 2048) = Magnitude.leadingBit := by
    have hquotient : n * 1 / (1 * 2048) = Magnitude.leadingBit := by
      rw [Magnitude.leadingBit]
      omega
    have heven : Magnitude.leadingBit % 2 = 0 := by decide
    rw [Magnitude.roundedQuotient, hquotient]
    simp only [heven, if_true]
    split
    · rfl
    · rw [if_neg (by omega)]
  have hstart : Magnitude.nearest? n 1 = some ⟨Magnitude.leadingBit, 11⟩ := by
    rw [Magnitude.nearest?, if_neg (by omega)]
    simp only [hexponent, shifted_eleven, hrounded]
    decide
  have hscaled : Magnitude.scaled? ⟨Magnitude.leadingBit, 11⟩ (0 : ℕ) =
      some ⟨Magnitude.leadingBit, 11⟩ := by
    rw [Magnitude.scaled?_natCast]
    decide +kernel
  exact double?_eq_some_iff.2 ⟨_, _, hstart, hscaled, rfl⟩

/-- What lies further beyond `2 ^ 63` is rounded to more than `2 ^ 63`. -/
theorem exists_of_double?_far {n : Nat} {number : Number} (hlow : maxNegative + 1024 < n)
    (hhigh : n ≤ maxSignificand) (h : double? true n (0 : ℕ) = some number) :
    ∃ x, number = .double x ∧
      (Magnitude.leadingBit + 1 : ℕ) * 2 ^ (11 : Int) ≤ x.magnitude.value := by
  have hexponent := fittingExponent_of_long (Nat.le_trans (by decide) (Nat.le_of_lt hlow)) hhigh
  obtain ⟨start, magnitude, hstart, hscaled, rfl⟩ := double?_eq_some_iff.1 h
  refine ⟨_, rfl, ?_⟩
  rw [maxNegative] at hlow
  have hrounded : Magnitude.leadingBit + 1 ≤ Magnitude.roundedQuotient (n * 1) (1 * 2048) := by
    rw [Magnitude.leadingBit, Magnitude.roundedQuotient]
    split_ifs <;> omega
  have hbelow : ((Magnitude.leadingBit + 1 : ℕ) : ℚ) * 2 ^ (11 : Int) ≤ start.value := by
    rw [Magnitude.value_of_nearest? (by omega) hstart, hexponent, shifted_eleven]
    exact mul_le_mul_of_nonneg_right (Nat.cast_le.2 hrounded) (by positivity)
  have hone : (Magnitude.tenTo 0).value = 1 := by
    have hten : Magnitude.tenTo 0 = ⟨Magnitude.leadingBit, -52⟩ := by decide +kernel
    rw [hten, Magnitude.value]
    norm_num [Magnitude.leadingBit]
  rw [Magnitude.scaled?_natCast, if_pos (Nat.zero_le _)] at hscaled
  refine Magnitude.times?_le_value hscaled (by decide) (by decide) ?_
  rw [hone, mul_one]
  exact hbelow

/-- What a numeral is in the tree of a text: its value, or a defect if it lies beyond binary64. -/
def toTree (numeral : Numeral) : Tree :=
  match numeral.value? with
  | some value => .number value
  | none => .unsound .other .illFormed none

end Numeral

end Json

/-!
### Preferences
-/

namespace Preference

/-- The least literal that is read as an integer; it and all those up to the least integer of 64
bits are rounded to that integer. -/
def leastLiteral : Int := -0x8000000000000400

/-- The literal is read as an integer of 64 bits. -/
def Accepts (n : Int) : Prop := leastLiteral ≤ n ∧ n ≤ Int64.maxValue.toInt

instance (n : Int) : Decidable (Accepts n) := inferInstanceAs (Decidable (_ ∧ _))

/-- The integer as which a literal is read. -/
def ofLiteral (n : Int) : Preference := integer (Int64.ofInt (max n Int64.minValue.toInt))

theorem minValue_toInt : Int64.minValue.toInt = -0x8000000000000000 := by decide

theorem maxValue_toInt : Int64.maxValue.toInt = 0x7FFFFFFFFFFFFFFF := by decide

theorem int64?_eq_none {n : Int} (h : maxNegative < n.natAbs) : int64? n = none := by
  rw [maxNegative] at h
  rw [int64?, minValue_toInt, maxValue_toInt, if_neg (by omega)]

/-- Numbers beyond `2 ^ 63` are no preferences. -/
theorem ofNumber_double_of_lt {x : Binary64} (h : (maxNegative : ℚ) < x.magnitude.value) :
    ∃ failure, ofNumber (.double x) = .error failure := by
  rw [ofNumber]
  cases hinteger : x.toInt? with
  | none => exact ⟨_, rfl⟩
  | some n =>
      rw [← Binary64.natAbs_of_toInt? hinteger] at h
      simp only [Option.bind_some, int64?_eq_none (Nat.cast_lt.1 h)]
      exact ⟨_, rfl⟩

/-- Without a minus sign the literal is read as itself, or not at all. -/
theorem ofNumber_natural {n : Int} (hpos : 0 ≤ n) :
    (Accepts n → ofNumber (.natural n.natAbs) = .ok (ofLiteral n)) ∧
      (¬ Accepts n → ∃ failure, ofNumber (.natural n.natAbs) = .error failure) := by
  have hself : (n.natAbs : Int) = n := Int.natAbs_of_nonneg hpos
  have hlow : Int64.minValue.toInt ≤ n := by
    rw [minValue_toInt]
    omega
  simp only [ofNumber, hself, Option.bind_some, int64?]
  constructor
  · intro haccepts
    rw [if_pos ⟨hlow, haccepts.2⟩, ofLiteral, max_eq_left hlow]
  · intro hrejects
    rw [if_neg]
    · exact ⟨_, rfl⟩
    · rintro ⟨_, hhigh⟩
      refine hrejects ⟨?_, hhigh⟩
      rw [leastLiteral]
      omega

/-- With a minus sign it is read as itself as long as 64 bits hold it. -/
theorem ofNumber_negative {n : Int} (hneg : n < 0) (hfits : n.natAbs ≤ maxNegative) :
    ofNumber (.negative n.natAbs) = .ok (ofLiteral n) := by
  have hself : -(n.natAbs : Int) = n := by omega
  have hlow : Int64.minValue.toInt ≤ n := by
    rw [minValue_toInt]
    rw [maxNegative] at hfits
    omega
  have hhigh : n ≤ Int64.maxValue.toInt := by
    rw [maxValue_toInt]
    omega
  simp only [ofNumber, hself, Option.bind_some, int64?, if_pos (And.intro hlow hhigh)]
  rw [ofLiteral, max_eq_left hlow]

theorem accepts_iff_of_neg {n : Int} (hneg : n < 0) :
    Accepts n ↔ n.natAbs ≤ maxNegative + 1024 := by
  rw [Accepts, leastLiteral, maxValue_toInt, maxNegative]
  omega

end Preference

namespace Layer

open Preference (Accepts ofLiteral)

theorem readEntry_number (origin : Origin) (number : Number) :
    readEntry origin (.number number) = (Preference.ofNumber number).map some := rfl

/-- A numeral of which every value lies beyond `2 ^ 63` is no entry. -/
theorem readEntry_of_lt (origin : Origin) {numeral : Numeral}
    (h : ∀ number, numeral.value? = some number →
      ∃ x, number = .double x ∧ (maxNegative : ℚ) < x.magnitude.value) :
    ∃ failure, readEntry origin numeral.toTree = .error failure := by
  rw [Numeral.toTree]
  cases hvalue : numeral.value? with
  | none => exact ⟨_, rfl⟩
  | some number =>
      obtain ⟨x, rfl, hlarge⟩ := h number hvalue
      obtain ⟨failure, hfailure⟩ := Preference.ofNumber_double_of_lt hlarge
      simp only [readEntry_number, hfailure]
      exact ⟨failure, rfl⟩

/-- Literals below zero that 64 bits do not hold are rounded. -/
theorem readEntry_of_rounded (origin : Origin) {n : Int}
    (hvalue : (Numeral.ofInt n).value? = Numeral.double? true n.natAbs (0 : ℕ)) (hneg : n < 0)
    (hlow : maxNegative < n.natAbs) (hhigh : n.natAbs ≤ maxSignificand) :
    (Accepts n → readEntry origin (Numeral.ofInt n).toTree = .ok (some (ofLiteral n))) ∧
      (¬ Accepts n → ∃ failure, readEntry origin (Numeral.ofInt n).toTree = .error failure) := by
  rw [Preference.accepts_iff_of_neg hneg]
  constructor
  · intro hnear
    have hleast : max n Int64.minValue.toInt = Int64.minValue.toInt := by
      rw [maxNegative] at hlow
      rw [Preference.minValue_toInt]
      omega
    have hnumber : Preference.ofNumber (.double ⟨true, ⟨Magnitude.leadingBit, 11⟩⟩) =
        .ok (.integer (Int64.ofInt Int64.minValue.toInt)) := by decide
    rw [Numeral.toTree, hvalue, Numeral.double?_of_near (Nat.le_of_lt hlow) hnear, ofLiteral,
      hleast]
    simp only [readEntry_number, hnumber]
    rfl
  · intro hfar
    refine readEntry_of_lt origin ?_
    intro number hnumber
    obtain ⟨x, rfl, hlarge⟩ :=
      Numeral.exists_of_double?_far (Nat.lt_of_not_le hfar) hhigh (hvalue ▸ hnumber)
    refine ⟨x, rfl, lt_of_lt_of_le ?_ hlarge⟩
    norm_num [maxNegative, Magnitude.leadingBit]

/-- A literal without a minus sign is read as a natural. -/
theorem readEntry_of_natural (origin : Origin) {n : Int}
    (hvalue : (Numeral.ofInt n).value? = Numeral.integer? (n < 0) n.natAbs) (hpos : 0 ≤ n) :
    (Accepts n → readEntry origin (Numeral.ofInt n).toTree = .ok (some (ofLiteral n))) ∧
      (¬ Accepts n → ∃ failure, readEntry origin (Numeral.ofInt n).toTree = .error failure) := by
  have hnatural : (Numeral.ofInt n).value? = some (.natural n.natAbs) := by
    rw [hvalue, Numeral.integer?, decide_eq_false (not_lt_of_ge hpos)]
    rfl
  obtain ⟨haccepted, hrejected⟩ := Preference.ofNumber_natural hpos
  rw [Numeral.toTree, hnatural]
  simp only [readEntry_number]
  constructor
  · intro haccepts
    rw [haccepted haccepts]
    rfl
  · intro hrejects
    obtain ⟨failure, hfailure⟩ := hrejected hrejects
    rw [hfailure]
    exact ⟨failure, rfl⟩

/-- A literal below zero that 64 bits hold is read as itself. -/
theorem readEntry_of_negative (origin : Origin) {n : Int}
    (hvalue : (Numeral.ofInt n).value? = Numeral.integer? (n < 0) n.natAbs) (hneg : n < 0)
    (hfits : n.natAbs ≤ maxNegative) :
    readEntry origin (Numeral.ofInt n).toTree = .ok (some (ofLiteral n)) := by
  have hnegative : (Numeral.ofInt n).value? = some (.negative n.natAbs) := by
    rw [hvalue, Numeral.integer?, if_pos (decide_eq_true hneg), if_pos (by omega)]
  rw [Numeral.toTree, hnegative]
  simp only [readEntry_number, Preference.ofNumber_negative hneg hfits]
  rfl

/-- A literal that 64 bits do not hold even without its sign is no entry. -/
theorem readEntry_of_long (origin : Origin) {n : Int} {gathered left : Nat}
    (hvalue : (Numeral.ofInt n).value? = Numeral.double? (n < 0) gathered (left : Nat))
    (hleft : 0 < left) (hfull : maxSignificand < gathered * 10 + 10) :
    ∃ failure, readEntry origin (Numeral.ofInt n).toTree = .error failure := by
  refine readEntry_of_lt origin ?_
  intro number hnumber
  obtain ⟨x, rfl, hlarge⟩ := Numeral.exists_of_double?_left hfull hleft (hvalue ▸ hnumber)
  refine ⟨x, rfl, lt_of_lt_of_le ?_ hlarge⟩
  norm_num [maxNegative]

/-- An integer literal is read as an entry exactly from the least literal to the greatest integer of
64 bits, and then as itself or as the least integer of 64 bits. -/
theorem readEntry_ofInt (origin : Origin) (n : Int) :
    (Accepts n → readEntry origin (Numeral.ofInt n).toTree = .ok (some (ofLiteral n))) ∧
      (¬ Accepts n → ∃ failure, readEntry origin (Numeral.ofInt n).toTree = .error failure) := by
  rcases Numeral.value?_ofInt n with ⟨hfits, hvalue⟩ | ⟨gathered, left, hlong, hvalue, hleft, hfull⟩
  · rcases lt_or_ge n 0 with hneg | hpos
    · rcases Nat.lt_or_ge maxNegative n.natAbs with hlow | hexact
      · refine readEntry_of_rounded origin ?_ hneg hlow hfits
        rw [hvalue, Numeral.integer?, if_pos (decide_eq_true hneg), if_neg (by omega)]
        rfl
      · refine ⟨fun _ => readEntry_of_negative origin hvalue hneg hexact, ?_⟩
        intro hrejects
        rw [Preference.accepts_iff_of_neg hneg] at hrejects
        omega
    · exact readEntry_of_natural origin hvalue hpos
  · refine ⟨?_, fun _ => readEntry_of_long origin hvalue hleft hfull⟩
    rintro ⟨hlow, hhigh⟩
    rw [Preference.leastLiteral] at hlow
    rw [Preference.maxValue_toInt] at hhigh
    rw [maxSignificand] at hlong
    omega

end Layer

end TextEditing
