/-
Module: TextEditing.Json.Token
Purpose: The marks, literals, numerals and strings of a JSON text, with what is wrong about them.
Main exports: Defect, Token, Token.scan, tokens
-/
import TextEditing.Json.Number
import TextEditing.Text.Units

namespace TextEditing.Json

/-!
A JSON text is read in one of two ways.  A value that is wanted is read strictly.  A value that is
passed over is only looked through: numerals may then lie beyond binary64, and strings may name
halves of surrogate pairs, for which there is no character.  Reading stops at the first defect of
the way in use, so a token that is not sound carries both: the defect met when it is read, and the
one met when it is passed over, if any.

Tokens follow one another until the text ends or until one comes that cannot even be passed over.
-/

/-- What can be wrong with a JSON text. -/
inductive Defect where
  /-- The text ends inside a value. -/
  | cutOff
  /-- The text is not JSON, however it may go on. -/
  | illFormed
deriving Repr, Inhabited, DecidableEq

/-- What an unsound token began as. -/
inductive Scrap where
  | string
  | other
deriving Repr, Inhabited, DecidableEq

/-- A token of a JSON text. -/
inductive Token where
  | openArray
  | closeArray
  | openObject
  | closeObject
  | colon
  | comma
  | null
  | boolean (value : Bool)
  | number (value : Number)
  | string (value : String)
  /-- An unsound token: the defect met when reading it, and the one met when passing over it. -/
  | unsound (scrap : Scrap) (read : Defect) (pass : Option Defect)
deriving Repr, Inhabited, DecidableEq

/-- A token with the text after it, or without one when nothing after it can be read. -/
structure Scan where
  token : Token
  rest : Option (List Char)

namespace Scan

/-- Nothing can be read from here on, whether or not the value is wanted. -/
def broken (scrap : Scrap) (defect : Defect) : Scan :=
  ⟨.unsound scrap defect (some defect), none⟩

end Scan

/-- The white space of JSON. -/
def isSpace (c : Char) : Bool :=
  c == ' ' || c == '\t' || c == '\n' || c == '\r'

/-- The defect of a place where something else must stand: the text ends, or goes on wrongly. -/
def defectAt : List Char → Defect
  | [] => .cutOff
  | _ :: _ => .illFormed

/-! ### Literals -/

/-- Reads the remaining characters of a literal. -/
def scanLiteral (token : Token) : List Char → List Char → Scan
  | [], rest => ⟨token, some rest⟩
  | _ :: _, [] => .broken .other .cutOff
  | expected :: more, c :: rest =>
      if expected = c then scanLiteral token more rest else .broken .other .illFormed

/-! ### Numerals -/

/-- The value of a decimal digit. -/
def digitValue (c : Char) : Nat := c.toNat - '0'.toNat

/-- The longest run of digits in front, and what follows it. -/
def spanDigits (text : List Char) : List Nat × List Char :=
  ((text.takeWhile Char.isDigit).map digitValue, text.dropWhile Char.isDigit)

/-- A numeral that stops where a digit must stand.  Passing over it makes no difference between
the end of the text and a wrong character. -/
def missingDigit (rest : List Char) : Scan :=
  ⟨.unsound .other (defectAt rest) (some .illFormed), none⟩

/-- The numeral, which may lie beyond binary64. -/
def numeralToken (numeral : Numeral) : Token :=
  match numeral.value? with
  | some value => .number value
  | none => .unsound .other .illFormed none

/-- Reads the exponent of a numeral, if there is one. -/
def scanExponent (numeral : Numeral) (text : List Char) : Scan :=
  match text with
  | mark :: rest =>
      if mark = 'e' ∨ mark = 'E' then
        let (down, rest) :=
          match rest with
          | '-' :: rest => (true, rest)
          | '+' :: rest => (false, rest)
          | rest => (false, rest)
        match spanDigits rest with
        | ([], rest) => missingDigit rest
        | (digits, rest) =>
            ⟨numeralToken { numeral with exponent := some (down, digits) }, some rest⟩
      else
        ⟨numeralToken numeral, some text⟩
  | [] => ⟨numeralToken numeral, some []⟩

/-- Reads the fraction of a numeral, if there is one, and then the exponent. -/
def scanFraction (numeral : Numeral) (text : List Char) : Scan :=
  match text with
  | '.' :: rest =>
      match spanDigits rest with
      | ([], rest) => missingDigit rest
      | (digits, rest) => scanExponent { numeral with fraction := some digits } rest
  | text => scanExponent numeral text

/-- Reads a numeral behind its sign.  No other digit may follow a leading zero. -/
def scanNumeral (minus : Bool) (text : List Char) : Scan :=
  match spanDigits text with
  | ([], rest) => missingDigit rest
  | (0 :: _ :: _, _) => .broken .other .illFormed
  | (digits, rest) => scanFraction ⟨minus, digits, none, none⟩ rest

/-! ### Strings -/

/-- The value of a hexadecimal digit. -/
def hexValue? (c : Char) : Option Nat :=
  if c.isDigit then some (c.toNat - '0'.toNat)
  else if 'a' ≤ c ∧ c ≤ 'f' then some (c.toNat - 'a'.toNat + 10)
  else if 'A' ≤ c ∧ c ≤ 'F' then some (c.toNat - 'A'.toNat + 10)
  else none

/-- The number written with four hexadecimal digits. -/
def hexNumber? (a b c d : Char) : Option Nat := do
  let a ← hexValue? a
  let b ← hexValue? b
  let c ← hexValue? c
  let d ← hexValue? d
  pure (((a * 16 + b) * 16 + c) * 16 + d)

/-- The character that a letter behind a backslash stands for. -/
def letterEscape? : Char → Option Char
  | '"' => some '"'
  | '\\' => some '\\'
  | '/' => some '/'
  | 'b' => some '\x08'
  | 'f' => some '\x0c'
  | 'n' => some '\n'
  | 'r' => some '\r'
  | 't' => some '\t'
  | _ => none

/-- A number names the first half of a surrogate pair. -/
def isLeading (n : Nat) : Bool := 0xD800 ≤ n && n ≤ 0xDBFF

/-- A number names the second half of a surrogate pair. -/
def isTrailing (n : Nat) : Bool := 0xDC00 ≤ n && n ≤ 0xDFFF

/-- The character of a surrogate pair. -/
def pairedChar (leading trailing : Nat) : Char :=
  Char.ofNat (0x10000 + (leading - 0xD800) * 0x400 + (trailing - 0xDC00))

/-- How far a string has been read. -/
structure StringState where
  /-- The characters so far, the last one first. -/
  read : List Char := []
  /-- The first half of a surrogate pair, when it is what was read last. -/
  pending : Option Nat := none
  /-- The first defect met when the string is wanted. -/
  defect : Option Defect := none

namespace StringState

/-- Something other than the second half of a pair follows: a half that waits for it is a defect. -/
def settle (state : StringState) (defect : Defect) : StringState :=
  match state.pending with
  | none => state
  | some _ => { state with pending := none, defect := state.defect.or (some defect) }

/-- Reads on with one more character. -/
def push (state : StringState) (c : Char) : StringState :=
  let state := state.settle .illFormed
  { state with read := c :: state.read }

/-- Reads on with a 16-bit unit written as an escape. -/
def pushUnit (state : StringState) (n : Nat) : StringState :=
  match state.pending with
  | some leading =>
      if isTrailing n then
        { state with read := pairedChar leading n :: state.read, pending := none }
      else
        unpaired (state.settle .illFormed)
  | none => unpaired state
where
  /-- The unit begins a pair, is a character, or stands where no second half may. -/
  unpaired (state : StringState) : StringState :=
    if isLeading n then { state with pending := some n }
    else if isTrailing n then { state with defect := state.defect.or (some .illFormed) }
    else { state with read := Char.ofNat n :: state.read }

/-- The closing quote was reached. -/
def close (state : StringState) (rest : List Char) : Scan :=
  let state := state.settle .illFormed
  match state.defect with
  | none => ⟨.string (String.ofList state.read.reverse), some rest⟩
  | some defect => ⟨.unsound .string defect none, some rest⟩

/-- Neither reading nor passing over gets any further. -/
def stop (state : StringState) (defect : Defect) : Scan :=
  let state := state.settle defect
  ⟨.unsound .string (state.defect.getD defect) (some defect), none⟩

end StringState

/-- The defect of an escape without four hexadecimal digits; it takes four bytes to tell. -/
def defectOfHex (rest : List Char) : Defect :=
  if 4 ≤ OffsetUnit.utf8.measure rest then .illFormed else .cutOff

/-- Reads a string behind its opening quote. -/
def scanString (state : StringState) : List Char → Scan
  | [] => state.stop .cutOff
  | c :: rest =>
      if c = '"' then
        state.close rest
      else if c = '\\' then
        match rest with
        | [] => state.stop .cutOff
        | letter :: rest =>
            if letter = 'u' then
              match rest with
              | a :: b :: c :: d :: rest =>
                  match hexNumber? a b c d with
                  | some n => scanString (state.pushUnit n) rest
                  | none => state.stop .illFormed
              | short => state.stop (defectOfHex short)
            else
              match letterEscape? letter with
              | some c => scanString (state.push c) rest
              | none => state.stop .illFormed
      else if c.toNat < 0x20 then
        state.stop .illFormed
      else
        scanString (state.push c) rest

/-! ### The whole text -/

/-- Reads the token that begins with a character other than white space. -/
def Token.scan (c : Char) (rest : List Char) : Scan :=
  match c with
  | '[' => ⟨.openArray, some rest⟩
  | ']' => ⟨.closeArray, some rest⟩
  | '\x7b' => ⟨.openObject, some rest⟩
  | '\x7d' => ⟨.closeObject, some rest⟩
  | ':' => ⟨.colon, some rest⟩
  | ',' => ⟨.comma, some rest⟩
  | 'n' => scanLiteral .null ['u', 'l', 'l'] rest
  | 't' => scanLiteral (.boolean true) ['r', 'u', 'e'] rest
  | 'f' => scanLiteral (.boolean false) ['a', 'l', 's', 'e'] rest
  | '"' => scanString {} rest
  | '-' => scanNumeral true rest
  | c => if c.isDigit then scanNumeral false (c :: rest) else .broken .other .illFormed

/-! Every token takes up at least one character. -/

theorem length_dropWhile_le (p : Char → Bool) (text : List Char) :
    (text.dropWhile p).length ≤ text.length :=
  (List.dropWhile_sublist p).length_le

theorem length_scanLiteral {token : Token} {word text left : List Char}
    (h : (scanLiteral token word text).rest = some left) : left.length ≤ text.length := by
  induction word generalizing text with
  | nil => simp [scanLiteral] at h; simp [h]
  | cons e more ih =>
    cases text with
    | nil => simp [scanLiteral, Scan.broken] at h
    | cons c rest =>
      simp only [scanLiteral] at h
      split at h
      · have := ih h
        simp only [List.length_cons]; omega
      · simp [Scan.broken] at h

theorem length_scanExponent {numeral : Numeral} {text left : List Char}
    (h : (scanExponent numeral text).rest = some left) : left.length ≤ text.length := by
  unfold scanExponent at h
  split at h
  · rename_i mark rest
    split at h
    · split at h
      rename_i down after hsign
      have hafter : after.length ≤ rest.length := by
        split at hsign <;> (obtain ⟨_, rfl⟩ := Prod.mk.inj hsign) <;> simp
      split at h
      · simp [missingDigit] at h
      · rename_i digits tail _ hdigits
        have htail : after.dropWhile Char.isDigit = tail := congrArg Prod.snd hdigits
        have hle := length_dropWhile_le Char.isDigit after
        simp only [Option.some.injEq] at h
        subst h htail
        simp only [List.length_cons]; omega
    · simp only [Option.some.injEq] at h; simp [h]
  · simp only [Option.some.injEq] at h; simp [← h]

theorem length_scanFraction {numeral : Numeral} {text left : List Char}
    (h : (scanFraction numeral text).rest = some left) : left.length ≤ text.length := by
  unfold scanFraction at h
  split at h
  · rename_i rest
    split at h
    · simp [missingDigit] at h
    · rename_i digits tail _ hdigits
      have htail : rest.dropWhile Char.isDigit = tail := congrArg Prod.snd hdigits
      have hle := length_dropWhile_le Char.isDigit rest
      have := length_scanExponent h
      subst htail
      simp only [List.length_cons]; omega
  · exact length_scanExponent h

theorem length_scanNumeral {minus : Bool} {text left : List Char}
    (h : (scanNumeral minus text).rest = some left) :
    left.length ≤ (text.dropWhile Char.isDigit).length := by
  unfold scanNumeral at h
  split at h
  · simp [missingDigit] at h
  · simp [Scan.broken] at h
  · rename_i digits tail _ _ hdigits
    have htail : text.dropWhile Char.isDigit = tail := congrArg Prod.snd hdigits
    subst htail
    exact length_scanFraction h

theorem length_scanString {state : StringState} {text left : List Char}
    (h : (scanString state text).rest = some left) : left.length ≤ text.length := by
  fun_induction scanString state text <;>
    simp_all [StringState.stop, StringState.close] <;> first | omega | skip
  all_goals (split at h <;> simp_all)

theorem Token.length_scan {c : Char} {rest left : List Char}
    (h : (Token.scan c rest).rest = some left) : left.length ≤ rest.length := by
  unfold Token.scan at h
  split at h
  all_goals first
    | (simp only [Option.some.injEq] at h; simp [h])
    | exact length_scanLiteral h
    | exact length_scanString h
    | exact Nat.le_trans (length_scanNumeral h) (length_dropWhile_le _ _)
    | skip
  split at h
  · rename_i hdigit
    have := length_scanNumeral h
    rw [List.dropWhile_cons_of_pos hdigit] at this
    exact Nat.le_trans this (length_dropWhile_le _ _)
  · simp [Scan.broken] at h

/-- The tokens of a text, up to the first that cannot even be passed over. -/
def tokens : List Char → List Token
  | [] => []
  | c :: rest =>
      if isSpace c then
        tokens rest
      else
        match _scanned : Token.scan c rest with
        | ⟨token, none⟩ => [token]
        | ⟨token, some left⟩ => token :: tokens left
termination_by text => text.length
decreasing_by
  · simp
  · have : left.length ≤ rest.length := Token.length_scan (by rw [_scanned])
    simp only [List.length_cons]; omega

end TextEditing.Json
