/-
Module: TextEditing.Proofs.CompactTexts
Purpose: The text of a value on one line is read as the tree of the value.
Main exports: Value.tokens_compactChars, Parsed.ofText_compact, Codec.Restores.ofText_compact
-/
import TextEditing.Proofs.WrittenTrees

namespace TextEditing.Json

/-!
On one line no white space parts the tokens.  Strings end with their quote, and behind a numeral
comes a comma, a closing bracket or the end of the text, none of which can carry it on.
-/

namespace Value

theorem endsNumeral_compactEntries (entries : List Value) (rest : List Char) :
    EndsNumeral (compactEntries entries ++ rest) := by
  cases entries with
  | nil => exact EndsNumeral.cons _ rfl
  | cons value others => exact EndsNumeral.cons _ rfl

theorem endsNumeral_compactMembers (members : List (String × Value)) (rest : List Char) :
    EndsNumeral (compactMembers members ++ rest) := by
  cases members with
  | nil => exact EndsNumeral.cons _ rfl
  | cons member others => exact EndsNumeral.cons _ rfl

mutual

/-- On one line, a value is read as its tokens. -/
theorem tokens_compactChars : ∀ (value : Value) (rest : List Char),
    value.Integral → EndsNumeral rest →
      Json.tokens (value.compactChars ++ rest) = value.tokens ++ Json.tokens rest
  | .null, rest, _, _ => tokens_of_scan rfl rfl
  | .boolean true, rest, _, _ => tokens_of_scan rfl rfl
  | .boolean false, rest, _, _ => tokens_of_scan rfl rfl
  | .number value, rest, h, hrest => tokens_number h hrest
  | .string value, rest, _, _ => tokens_quoted value rest
  | .array [], rest, _, _ => by
      have hclose : Json.tokens (']' :: rest) = .closeArray :: Json.tokens rest :=
        tokens_of_scan rfl rfl
      exact (tokens_of_scan rfl rfl).trans (congrArg _ hclose)
  | .array (first :: others), rest, h, _ => by
      obtain ⟨hfirst, hothers⟩ := h
      have hends := endsNumeral_compactEntries others rest
      rw [compactChars, tokens]
      simp only [List.cons_append, List.append_assoc]
      rw [tokens_of_scan rfl rfl, tokens_compactChars first _ hfirst hends,
        tokens_compactEntries others rest hothers]
  | .object [], rest, _, _ => by
      have hclose : Json.tokens ('\x7d' :: rest) = .closeObject :: Json.tokens rest :=
        tokens_of_scan rfl rfl
      exact (tokens_of_scan rfl rfl).trans (congrArg _ hclose)
  | .object ((name, value) :: others), rest, h, _ => by
      obtain ⟨hvalue, hothers⟩ := h
      have hends := endsNumeral_compactMembers others rest
      rw [compactChars, tokens]
      simp only [List.cons_append, List.append_assoc]
      rw [tokens_of_scan rfl rfl, tokens_quoted, tokens_of_scan rfl rfl,
        tokens_compactChars value _ hvalue hends, tokens_compactMembers others rest hothers]

theorem tokens_compactEntries : ∀ (entries : List Value) (rest : List Char),
    IntegralEntries entries →
      Json.tokens (compactEntries entries ++ rest) = entryTokens entries ++ Json.tokens rest
  | [], rest, _ => tokens_of_scan rfl rfl
  | value :: others, rest, h => by
      obtain ⟨hvalue, hothers⟩ := h
      have hends := endsNumeral_compactEntries others rest
      rw [compactEntries, entryTokens]
      simp only [List.cons_append, List.append_assoc]
      rw [tokens_of_scan rfl rfl, tokens_compactChars value _ hvalue hends,
        tokens_compactEntries others rest hothers]

theorem tokens_compactMembers : ∀ (members : List (String × Value)) (rest : List Char),
    IntegralMembers members →
      Json.tokens (compactMembers members ++ rest) = memberTokens members ++ Json.tokens rest
  | [], rest, _ => tokens_of_scan rfl rfl
  | (name, value) :: others, rest, h => by
      obtain ⟨hvalue, hothers⟩ := h
      have hends := endsNumeral_compactMembers others rest
      rw [compactMembers, memberTokens]
      simp only [List.cons_append, List.append_assoc]
      rw [tokens_of_scan rfl rfl, tokens_quoted, tokens_of_scan rfl rfl,
        tokens_compactChars value _ hvalue hends, tokens_compactMembers others rest hothers]

end

end Value

/-- The text of a value on one line is read as the tree of the value. -/
theorem Parsed.ofText_compact {value : Value} (h : value.Integral) :
    ofText value.compact = ⟨value.toTree, false⟩ := by
  have htokens := Value.tokens_compactChars value [] h EndsNumeral.nil
  rw [List.append_nil, tokens_nil] at htokens
  rw [ofText, Value.compact, String.toList_ofList, htokens, read_tokens]
  rfl

/-- What is written on one line is read again from the text. -/
theorem Codec.Restores.ofText_compact {α : Type} {codec : Codec α} {data : α}
    (h : codec.Restores data) : codec.ofText (codec.write data).compact = .ok data := by
  rw [ofText_eq_ok_iff, Parsed.ofText_compact h.integral_write]
  exact ⟨h.read_write .text, rfl⟩

end TextEditing.Json
