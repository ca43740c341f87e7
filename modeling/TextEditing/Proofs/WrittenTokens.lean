/-
Module: TextEditing.Proofs.WrittenTokens
Purpose: Which tokens the text of a value is read as.
Main exports: scanString_escape, scanString_quoted, EndsNumeral, Number.Integral, tokens_number,
  tokens_quoted, Value.Integral, Value.tokens, Value.tokens_prettyChars
-/
import TextEditing.Json.Printer

namespace TextEditing.Json

/-!
A printed value is read as a list of tokens that follows its structure, whatever stands behind it.
Inside a string every escape is read as the character that it was written for, so reading comes to
the quote at the end with the whole string.  A numeral alone does not mark its end: the digits are
read up to the first character that cannot carry them on, and in the text of a value such a
character, or the end of the text, follows every numeral.  White space between tokens is passed over.
-/

/-! ### Strings -/

section String

variable {state : StringState}

theorem scanString_quote (rest : List Char) :
    scanString state ('"' :: rest) = state.close rest := by
  rw [scanString.eq_def]
  exact if_pos rfl

theorem scanString_letter {letter c : Char} (rest : List Char) (hunit : letter ≠ 'u')
    (h : letterEscape? letter = some c) :
    scanString state ('\\' :: letter :: rest) = scanString (state.push c) rest := by
  rw [scanString.eq_def]
  simp only [Char.reduceEq, if_false, if_true, if_neg hunit, h]

theorem scanString_unit {a b c d : Char} {n : Nat} (rest : List Char)
    (h : hexNumber? a b c d = some n) :
    scanString state ('\\' :: 'u' :: a :: b :: c :: d :: rest) =
      scanString (state.pushUnit n) rest := by
  rw [scanString.eq_def]
  simp only [Char.reduceEq, if_false, if_true, h]

theorem scanString_plain {c : Char} (rest : List Char) (hquote : c ≠ '"') (hslash : c ≠ '\\')
    (hplain : ¬ c.toNat < 0x20) :
    scanString state (c :: rest) = scanString (state.push c) rest := by
  rw [scanString.eq_def]
  simp only [if_neg hquote, if_neg hslash, if_neg hplain]

theorem hexNumber?_control :
    ∀ n < 0x20, hexNumber? '0' '0' (n / 16).digitChar (n % 16).digitChar = some n := by
  decide

theorem StringState.pushUnit_control (read : List Char) {c : Char} (h : c.toNat < 0x20) :
    pushUnit ⟨read, none, none⟩ c.toNat = ⟨c :: read, none, none⟩ := by
  have hleading : isLeading c.toNat = false := by
    rw [isLeading, Bool.and_eq_false_iff, decide_eq_false_iff_not]
    omega
  have htrailing : isTrailing c.toNat = false := by
    rw [isTrailing, Bool.and_eq_false_iff, decide_eq_false_iff_not]
    omega
  simp only [pushUnit, pushUnit.unpaired, hleading, htrailing, Bool.false_eq_true, if_false,
    Char.ofNat_toNat]

/-- What a character is written as inside a string is read as that character. -/
theorem scanString_escape (read : List Char) (c : Char) (rest : List Char) :
    scanString ⟨read, none, none⟩ (Printer.escape c ++ rest) =
      scanString ⟨c :: read, none, none⟩ rest := by
  unfold Printer.escape
  split
  · exact scanString_letter rest (by decide) rfl
  · exact scanString_letter rest (by decide) rfl
  · exact scanString_letter rest (by decide) rfl
  · exact scanString_letter rest (by decide) rfl
  · exact scanString_letter rest (by decide) rfl
  · exact scanString_letter rest (by decide) rfl
  · exact scanString_letter rest (by decide) rfl
  · rename_i hquote hslash _ _ _ _ _
    split
    · rename_i hcontrol
      rw [← StringState.pushUnit_control read hcontrol]
      exact scanString_unit rest (hexNumber?_control _ hcontrol)
    · rename_i hplain
      exact scanString_plain rest hquote hslash hplain

/-- A quoted text is read up to its closing quote. -/
theorem scanString_quoted (read text rest : List Char) :
    scanString ⟨read, none, none⟩ (text.flatMap Printer.escape ++ '"' :: rest) =
      ⟨.string (String.ofList (read.reverse ++ text)), some rest⟩ := by
  induction text generalizing read with
  | nil =>
      rw [List.flatMap_nil, List.nil_append, scanString_quote, List.append_nil]
      rfl
  | cons c text ih =>
      rw [List.flatMap_cons, List.append_assoc, scanString_escape, ih, List.reverse_cons,
        List.append_assoc, List.singleton_append]

end String

/-! ### Numerals -/

/-- The character can carry on a numeral. -/
def continuesNumeral (c : Char) : Bool :=
  c.isDigit || c == '.' || c == 'e' || c == 'E'

/-- The text can stand behind a numeral without carrying it on. -/
def EndsNumeral (rest : List Char) : Prop :=
  ∀ c ∈ rest.head?, continuesNumeral c = false

theorem EndsNumeral.nil : EndsNumeral [] := by
  intro c hc
  cases hc

theorem EndsNumeral.cons {c : Char} (rest : List Char) (h : continuesNumeral c = false) :
    EndsNumeral (c :: rest) := by
  intro first hfirst
  cases hfirst
  exact h

/-- An integer that 64 bits hold, without a sign above zero and with one below. -/
def Number.Integral : Number → Prop
  | .natural n => n ≤ maxSignificand
  | .negative n => 0 < n ∧ n ≤ maxNegative
  | .double _ => False

section Digits

theorem ofDigits_toDigits (n : Nat) : ofDigits ((Nat.toDigits 10 n).map digitValue) = n := by
  have hdigits : Nat.ofDigitChars 10 (Nat.toDigits 10 n) 0 = n := Nat.ofDigitChars_ten_toDigits
  rw [Nat.ofDigitChars_eq_foldl] at hdigits
  simp only [ofDigits, List.foldl_map, digitValue, Nat.mul_comm _ 10]
  exact hdigits

/-- The first digit of a number is zero only if the number is. -/
theorem exists_digits_eq_cons (n : Nat) :
    ∃ first others, (Nat.toDigits 10 n).map digitValue = first :: others ∧
      (first = 0 → n = 0) := by
  induction n using Nat.strongRecOn with
  | ind n ih =>
      rcases Nat.lt_or_ge n 10 with hlt | hge
      · have hzero : ∀ n < 10, digitValue n.digitChar = 0 → n = 0 := by decide
        exact ⟨_, [], congrArg (List.map digitValue) (Nat.toDigits_of_lt_base hlt), hzero n hlt⟩
      · obtain ⟨first, others, hdigits, hzero⟩ := ih (n / 10) (by omega)
        refine ⟨first, others ++ [digitValue (n % 10).digitChar], ?_, ?_⟩
        · rw [Nat.toDigits_of_base_le (by decide) hge, List.map_append, hdigits]
          rfl
        · intro hfirst
          have := hzero hfirst
          omega

/-- No number is written with a zero in front of other digits. -/
theorem digits_ne_zero_cons_cons (n second : Nat) (others : List Nat) :
    (Nat.toDigits 10 n).map digitValue ≠ 0 :: second :: others := by
  intro h
  obtain ⟨first, rest, hdigits, hzero⟩ := exists_digits_eq_cons n
  rw [h] at hdigits
  injection hdigits with hfirst _
  rw [hzero hfirst.symm] at h
  cases h

theorem le_foldl_digits (significand : Nat) (digits : List Nat) :
    significand ≤ digits.foldl (fun n digit => n * 10 + digit) significand := by
  induction digits generalizing significand with
  | nil => exact Nat.le_refl _
  | cons digit digits ih =>
      have := ih (significand * 10 + digit)
      rw [List.foldl_cons]
      omega

/-- Digits of a number that fits are all gathered. -/
theorem gather_of_le {significand : Nat} {digits : List Nat}
    (h : digits.foldl (fun n digit => n * 10 + digit) significand ≤ maxSignificand) :
    gather significand digits =
      (digits.foldl (fun n digit => n * 10 + digit) significand, 0) := by
  induction digits generalizing significand with
  | nil => rfl
  | cons digit digits ih =>
      rw [List.foldl_cons] at h ⊢
      have hstep := Nat.le_trans (le_foldl_digits _ digits) h
      rw [gather, if_pos hstep, ih h]

theorem numeralToken_digits {minus : Bool} {n : Nat} {number : Number}
    (hbound : n ≤ maxSignificand) (h : Numeral.integer? minus n = some number) :
    numeralToken ⟨minus, (Nat.toDigits 10 n).map digitValue, none, none⟩ = .number number := by
  have hvalue := ofDigits_toDigits n
  have hgather : gather 0 ((Nat.toDigits 10 n).map digitValue) = (n, 0) := by
    rw [ofDigits] at hvalue
    rw [gather_of_le (hvalue.symm ▸ hbound), hvalue]
  simp only [numeralToken, Numeral.value?, hgather, if_true, h]

end Digits

section Numeral

variable {rest : List Char}

theorem spanDigits_append {digits : List Char} (hdigits : ∀ c ∈ digits, c.isDigit = true)
    (hrest : EndsNumeral rest) :
    spanDigits (digits ++ rest) = (digits.map digitValue, rest) := by
  have hstops : rest.takeWhile Char.isDigit = [] ∧ rest.dropWhile Char.isDigit = rest := by
    cases rest with
    | nil => exact ⟨rfl, rfl⟩
    | cons c rest =>
        have hc := hrest c rfl
        simp only [continuesNumeral, Bool.or_eq_false_iff] at hc
        have hdigit : ¬ c.isDigit = true := Bool.eq_false_iff.1 hc.1.1.1
        exact ⟨List.takeWhile_cons_of_neg hdigit, List.dropWhile_cons_of_neg hdigit⟩
  rw [spanDigits, List.takeWhile_append_of_pos hdigits, List.dropWhile_append_of_pos hdigits,
    hstops.1, hstops.2, List.append_nil]

theorem scanFraction_of_ends (numeral : Numeral) (hrest : EndsNumeral rest) :
    scanFraction numeral rest = ⟨numeralToken numeral, some rest⟩ := by
  cases rest with
  | nil => rfl
  | cons c rest =>
      have hc := hrest c rfl
      simp only [continuesNumeral, Bool.or_eq_false_iff, beq_eq_false_iff_ne] at hc
      obtain ⟨⟨⟨_, hpoint⟩, hlower⟩, hupper⟩ := hc
      have hmark : ¬ (c = 'e' ∨ c = 'E') := not_or.2 ⟨hlower, hupper⟩
      unfold scanFraction
      split
      · rename_i heq
        cases heq
        exact absurd rfl hpoint
      · simp only [scanExponent, if_neg hmark]

theorem scanNumeral_toDigits (minus : Bool) (n : Nat) (hrest : EndsNumeral rest) :
    scanNumeral minus (Nat.toDigits 10 n ++ rest) =
      ⟨numeralToken ⟨minus, (Nat.toDigits 10 n).map digitValue, none, none⟩, some rest⟩ := by
  have hspan : spanDigits (Nat.toDigits 10 n ++ rest) =
      ((Nat.toDigits 10 n).map digitValue, rest) :=
    spanDigits_append
      (fun c hc => Nat.isDigit_of_mem_toDigits (by decide) (by decide) hc) hrest
  unfold scanNumeral
  rw [hspan]
  split
  · rename_i heq
    have hnone := congrArg Prod.fst heq
    rw [List.map_eq_nil_iff] at hnone
    exact absurd hnone Nat.toDigits_ne_nil
  · rename_i heq
    exact absurd (congrArg Prod.fst heq) (digits_ne_zero_cons_cons n _ _)
  · rename_i heq
    cases heq
    exact scanFraction_of_ends _ hrest

end Numeral

/-! ### Tokens behind one another -/

section Tokens

variable {c : Char} {rest : List Char}

theorem tokens_nil : tokens [] = [] := by
  rw [tokens]

theorem tokens_of_space (rest : List Char) (h : isSpace c = true) :
    tokens (c :: rest) = tokens rest := by
  rw [tokens, if_pos h]

theorem tokens_of_scan {left : List Char} {token : Token} (hspace : isSpace c = false)
    (h : Token.scan c rest = ⟨token, some left⟩) : tokens (c :: rest) = token :: tokens left := by
  rw [tokens, hspace]
  simp only [Bool.false_eq_true, if_false]
  split
  · rename_i heq
    rw [h] at heq
    cases heq
  · rename_i heq
    rw [h] at heq
    cases heq
    rfl

theorem tokens_newLine (depth : Nat) (rest : List Char) :
    tokens (Printer.newLine depth ++ rest) = tokens rest := by
  rw [Printer.newLine, List.cons_append, tokens_of_space _ rfl]
  induction 2 * depth with
  | zero => rfl
  | succ count ih => rw [List.replicate_succ, List.cons_append, tokens_of_space _ rfl, ih]

theorem tokens_quoted (text : String) (rest : List Char) :
    tokens (Printer.quoted text ++ rest) = .string text :: tokens rest := by
  have hscan := scanString_quoted [] text.toList rest
  rw [List.reverse_nil, List.nil_append, String.ofList_toList] at hscan
  rw [Printer.quoted, List.cons_append, List.cons_append, List.append_assoc]
  exact tokens_of_scan rfl hscan

theorem Token.scan_of_isDigit (rest : List Char) (h : c.isDigit = true) :
    Token.scan c rest = scanNumeral false (c :: rest) := by
  unfold Token.scan
  split
  all_goals first
    | exact absurd h (by decide)
    | exact if_pos h

theorem isSpace_of_isDigit (h : c.isDigit = true) : isSpace c = false := by
  rw [isSpace]
  simp only [Bool.or_eq_false_iff, beq_eq_false_iff_ne]
  refine ⟨⟨⟨?_, ?_⟩, ?_⟩, ?_⟩
  all_goals
    rintro rfl
    exact absurd h (by decide)

/-- An integer is read back if no character behind it can be taken for a part of it. -/
theorem tokens_number {number : Number} (h : number.Integral) (hrest : EndsNumeral rest) :
    tokens (Printer.number number ++ rest) = .number number :: tokens rest := by
  cases number with
  | natural n =>
      have hscan := scanNumeral_toDigits false n hrest
      rw [numeralToken_digits h rfl] at hscan
      cases hdigits : Nat.toDigits 10 n with
      | nil => exact absurd hdigits Nat.toDigits_ne_nil
      | cons first others =>
          have hmem : first ∈ Nat.toDigits 10 n := hdigits ▸ List.mem_cons_self
          have hdigit := Nat.isDigit_of_mem_toDigits (by decide) (by decide) hmem
          rw [hdigits, List.cons_append, ← Token.scan_of_isDigit _ hdigit] at hscan
          rw [Printer.number, hdigits]
          exact tokens_of_scan (isSpace_of_isDigit hdigit) hscan
  | negative n =>
      obtain ⟨hpos, hmax⟩ := h
      have hscan := scanNumeral_toDigits true n hrest
      have hinteger : Numeral.integer? true n = some (.negative n) := by
        rw [Numeral.integer?, if_pos rfl, if_pos ⟨hpos, hmax⟩]
      rw [numeralToken_digits (Nat.le_trans hmax (by decide)) hinteger] at hscan
      exact tokens_of_scan rfl hscan
  | double x => exact h.elim

end Tokens

/-! ### Values -/

namespace Value

mutual

/-- The numbers of the value are integers. -/
def Integral : Value → Prop
  | .number value => value.Integral
  | .array entries => IntegralEntries entries
  | .object members => IntegralMembers members
  | _ => True

/-- The numbers of the entries of an array are integers. -/
def IntegralEntries : List Value → Prop
  | [] => True
  | value :: rest => value.Integral ∧ IntegralEntries rest

/-- The numbers of the members of an object are integers. -/
def IntegralMembers : List (String × Value) → Prop
  | [] => True
  | (_, value) :: rest => value.Integral ∧ IntegralMembers rest

end

/-- An integer of 64 bits, with or without a sign. -/
theorem integral_ofInt {n : Int} (hlow : -0x8000000000000000 ≤ n) (hhigh : n < 0x10000000000000000) :
    (ofInt n).Integral := by
  have hnumber : Number.Integral (if 0 ≤ n then .natural n.toNat else .negative n.natAbs) := by
    split
    · simp only [Number.Integral, maxSignificand]
      omega
    · simp only [Number.Integral, maxNegative]
      omega
  exact hnumber

theorem integralEntries_of_forall {entries : List Value} (h : ∀ value ∈ entries, value.Integral) :
    IntegralEntries entries := by
  induction entries with
  | nil => trivial
  | cons value rest ih =>
      obtain ⟨hvalue, hrest⟩ := List.forall_mem_cons.1 h
      exact ⟨hvalue, ih hrest⟩

theorem integralMembers_of_forall {members : List (String × Value)}
    (h : ∀ member ∈ members, member.2.Integral) : IntegralMembers members := by
  induction members with
  | nil => trivial
  | cons member rest ih =>
      obtain ⟨hmember, hrest⟩ := List.forall_mem_cons.1 h
      exact ⟨hmember, ih hrest⟩

mutual

/-- The tokens of the text of a value. -/
def tokens : Value → List Token
  | .null => [.null]
  | .boolean value => [.boolean value]
  | .number value => [.number value]
  | .string value => [.string value]
  | .array [] => [.openArray, .closeArray]
  | .array (first :: rest) => .openArray :: first.tokens ++ entryTokens rest
  | .object [] => [.openObject, .closeObject]
  | .object ((name, value) :: rest) =>
      .openObject :: .string name :: .colon :: value.tokens ++ memberTokens rest

/-- The tokens of further entries of an array, and of its end. -/
def entryTokens : List Value → List Token
  | [] => [.closeArray]
  | value :: rest => .comma :: value.tokens ++ entryTokens rest

/-- The tokens of further members of an object, and of its end. -/
def memberTokens : List (String × Value) → List Token
  | [] => [.closeObject]
  | (name, value) :: rest =>
      .comma :: .string name :: .colon :: value.tokens ++ memberTokens rest

end

theorem endsNumeral_prettyEntries (depth : Nat) (entries : List Value) (rest : List Char) :
    EndsNumeral (prettyEntries depth entries ++ rest) := by
  cases entries with
  | nil => exact EndsNumeral.cons _ rfl
  | cons value others => exact EndsNumeral.cons _ rfl

theorem endsNumeral_prettyMembers (depth : Nat) (members : List (String × Value))
    (rest : List Char) : EndsNumeral (prettyMembers depth members ++ rest) := by
  cases members with
  | nil => exact EndsNumeral.cons _ rfl
  | cons member others => exact EndsNumeral.cons _ rfl

mutual

/-- Laid out at any depth, a value is read as its tokens. -/
theorem tokens_prettyChars (depth : Nat) : ∀ (value : Value) (rest : List Char),
    value.Integral → EndsNumeral rest →
      Json.tokens (value.prettyChars depth ++ rest) = value.tokens ++ Json.tokens rest
  | .null, rest, _, _ => tokens_of_scan rfl rfl
  | .boolean true, rest, _, _ => tokens_of_scan rfl rfl
  | .boolean false, rest, _, _ => tokens_of_scan rfl rfl
  | .number value, rest, h, hrest => tokens_number h hrest
  | .string value, rest, _, _ => tokens_quoted value rest
  | .array [], rest, _, _ => by
      have hclose : Json.tokens (']' :: rest) = .closeArray :: Json.tokens rest :=
        tokens_of_scan rfl rfl
      exact (tokens_of_scan rfl rfl).trans (congrArg _ hclose)
  | .array (first :: others), rest, h, _ => by
      obtain ⟨hfirst, hothers⟩ := h
      have hends := endsNumeral_prettyEntries depth others rest
      rw [prettyChars, tokens]
      simp only [List.cons_append, List.append_assoc]
      rw [tokens_of_scan rfl rfl, tokens_newLine,
        tokens_prettyChars (depth + 1) first _ hfirst hends,
        tokens_prettyEntries depth others rest hothers]
  | .object [], rest, _, _ => by
      have hclose : Json.tokens ('\x7d' :: rest) = .closeObject :: Json.tokens rest :=
        tokens_of_scan rfl rfl
      exact (tokens_of_scan rfl rfl).trans (congrArg _ hclose)
  | .object ((name, value) :: others), rest, h, _ => by
      obtain ⟨hvalue, hothers⟩ := h
      have hends := endsNumeral_prettyMembers depth others rest
      rw [prettyChars, tokens]
      simp only [List.cons_append, List.append_assoc]
      rw [tokens_of_scan rfl rfl, tokens_newLine, tokens_quoted, tokens_of_scan rfl rfl,
        tokens_of_space _ rfl, tokens_prettyChars (depth + 1) value _ hvalue hends,
        tokens_prettyMembers depth others rest hothers]

theorem tokens_prettyEntries (depth : Nat) : ∀ (entries : List Value) (rest : List Char),
    IntegralEntries entries →
      Json.tokens (prettyEntries depth entries ++ rest) = entryTokens entries ++ Json.tokens rest
  | [], rest, _ => by
      rw [prettyEntries, List.append_assoc, tokens_newLine]
      exact tokens_of_scan rfl rfl
  | value :: others, rest, h => by
      obtain ⟨hvalue, hothers⟩ := h
      have hends := endsNumeral_prettyEntries depth others rest
      rw [prettyEntries, entryTokens]
      simp only [List.cons_append, List.append_assoc]
      rw [tokens_of_scan rfl rfl, tokens_newLine,
        tokens_prettyChars (depth + 1) value _ hvalue hends,
        tokens_prettyEntries depth others rest hothers]

theorem tokens_prettyMembers (depth : Nat) :
    ∀ (members : List (String × Value)) (rest : List Char), IntegralMembers members →
      Json.tokens (prettyMembers depth members ++ rest) = memberTokens members ++ Json.tokens rest
  | [], rest, _ => by
      rw [prettyMembers, List.append_assoc, tokens_newLine]
      exact tokens_of_scan rfl rfl
  | (name, value) :: others, rest, h => by
      obtain ⟨hvalue, hothers⟩ := h
      have hends := endsNumeral_prettyMembers depth others rest
      rw [prettyMembers, memberTokens]
      simp only [List.cons_append, List.append_assoc]
      rw [tokens_of_scan rfl rfl, tokens_newLine, tokens_quoted, tokens_of_scan rfl rfl,
        tokens_of_space _ rfl, tokens_prettyChars (depth + 1) value _ hvalue hends,
        tokens_prettyMembers depth others rest hothers]

end

end Value

end TextEditing.Json
