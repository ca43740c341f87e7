/-
Module: TextEditing.Proofs.WrittenTrees
Purpose: The text of a value is read as the tree of the value, so what a codec writes it reads again.
Main exports: Parsed.read_tokens, Parsed.ofText_pretty, Codec.Restores, Codec.Lawful,
  Codec.Restores.ofText_pretty
-/
import TextEditing.Json.Codec
import TextEditing.Proofs.WrittenTokens

namespace TextEditing.Json

/-!
The reader takes the tokens of a value from the stage at which a value must come to the stage behind
that value, whatever is open around it.  For the entries of an array it starts behind the first one,
with the array open and the entries in front put aside; at the closing bracket it has them all.  The
same holds of the members of an object.
-/

namespace Parsed

/-- A first entry is read as any entry: it does not begin with the bracket that ends the array. -/
theorem read_firstEntry (value : Value) (rest : List Token) (frames : List Frame) :
    read (value.tokens ++ rest) .firstEntry frames =
      read (value.tokens ++ rest) .value (.array [] :: frames) := by
  cases value with
  | null => rfl
  | boolean value => rfl
  | number value => rfl
  | string value => rfl
  | array entries =>
      cases entries with
      | nil => rfl
      | cons first others => rfl
  | object members =>
      cases members with
      | nil => rfl
      | cons member others => rfl

mutual

/-- The tokens of a value are read as its tree. -/
theorem read_tokens : ∀ (value : Value) (rest : List Token) (frames : List Frame),
    read (value.tokens ++ rest) .value frames = read rest (.after value.toTree) frames
  | .null, _, _ => rfl
  | .boolean _, _, _ => rfl
  | .number _, _, _ => rfl
  | .string _, _, _ => rfl
  | .array [], _, _ => rfl
  | .array (first :: others), rest, frames => by
      have hopen : read (Value.tokens (.array (first :: others)) ++ rest) .value frames =
          read (first.tokens ++ (Value.entryTokens others ++ rest)) .firstEntry frames := by
        simp only [Value.tokens, List.cons_append, List.append_assoc]
        rfl
      rw [hopen, read_firstEntry, read_tokens first, read_entryTokens others]
      rfl
  | .object [], _, _ => rfl
  | .object ((name, value) :: others), rest, frames => by
      have hopen : read (Value.tokens (.object ((name, value) :: others)) ++ rest) .value frames =
          read (value.tokens ++ (Value.memberTokens others ++ rest)) .value
            (.object [] (.name name) :: frames) := by
        simp only [Value.tokens, List.cons_append, List.append_assoc]
        rfl
      rw [hopen, read_tokens value, read_memberTokens others]
      rfl

/-- Behind an entry of an array the tokens of the others close the array around them all. -/
theorem read_entryTokens : ∀ (entries : List Value) (rest : List Token) (done : List Tree)
    (last : Tree) (frames : List Frame),
    read (Value.entryTokens entries ++ rest) (.after last) (.array done :: frames) =
      read rest (.after (.array ((last :: done).reverse ++ Value.entriesToTrees entries) none))
        frames
  | [], rest, done, last, frames => by
      rw [Value.entriesToTrees, List.append_nil]
      rfl
  | value :: others, rest, done, last, frames => by
      have hcomma : read (Value.entryTokens (value :: others) ++ rest) (.after last)
            (.array done :: frames) =
          read (value.tokens ++ (Value.entryTokens others ++ rest)) .value
            (.array (last :: done) :: frames) := by
        simp only [Value.entryTokens, List.cons_append, List.append_assoc]
        rfl
      rw [hcomma, read_tokens value, read_entryTokens others, Value.entriesToTrees,
        List.reverse_cons, List.append_assoc, List.singleton_append]

theorem read_memberTokens : ∀ (members : List (String × Value)) (rest : List Token)
    (done : List (Key × Tree)) (key : Key) (last : Tree) (frames : List Frame),
    read (Value.memberTokens members ++ rest) (.after last) (.object done key :: frames) =
      read rest
        (.after (.object (((key, last) :: done).reverse ++ Value.membersToTrees members) none))
        frames
  | [], rest, done, key, last, frames => by
      rw [Value.membersToTrees, List.append_nil]
      rfl
  | (name, value) :: others, rest, done, key, last, frames => by
      have hcomma : read (Value.memberTokens ((name, value) :: others) ++ rest) (.after last)
            (.object done key :: frames) =
          read (value.tokens ++ (Value.memberTokens others ++ rest)) .value
            (.object ((key, last) :: done) (.name name) :: frames) := by
        simp only [Value.memberTokens, List.cons_append, List.append_assoc]
        rfl
      rw [hcomma, read_tokens value, read_memberTokens others, Value.membersToTrees,
        List.reverse_cons, List.append_assoc, List.singleton_append]

end

/-- The text of a value, laid out, is read as the tree of the value. -/
theorem ofText_pretty {value : Value} (h : value.Integral) :
    ofText value.pretty = ⟨value.toTree, false⟩ := by
  have htokens := Value.tokens_prettyChars 0 value [] h EndsNumeral.nil
  rw [List.append_nil, tokens_nil] at htokens
  rw [ofText, Value.pretty, String.toList_ofList, htokens, read_tokens]
  rfl

end Parsed

theorem Value.entriesToTrees_eq_map (entries : List Value) :
    entriesToTrees entries = entries.map toTree := by
  induction entries with
  | nil => rfl
  | cons value rest ih => rw [entriesToTrees, ih, List.map_cons]

theorem Value.membersToTrees_eq_map (members : List (String × Value)) :
    membersToTrees members = members.map fun member => (.name member.1, member.2.toTree) := by
  induction members with
  | nil => rfl
  | cons member rest ih => rw [membersToTrees, ih, List.map_cons]

namespace Codec

variable {α : Type} {codec : Codec α} {data : α}

theorem ofText_eq_ok_iff {text : String} :
    codec.ofText text = .ok data ↔
      codec.read .text (Parsed.ofText text).root = .ok data ∧
        (Parsed.ofText text).trailing = false := by
  simp only [ofText]
  cases codec.read .text (Parsed.ofText text).root <;> cases (Parsed.ofText text).trailing <;>
    simp [bind, Except.bind, pure, Except.pure]

/-- What the codec writes for the data it reads again, be it from a text or from a value; and it writes
no numbers but integers. -/
structure Restores (codec : Codec α) (data : α) : Prop where
  read_write : ∀ origin, codec.read origin (codec.write data).toTree = .ok data
  integral_write : (codec.write data).Integral

/-- What the codec writes it reads again, be it from a text or from a value; and it writes no numbers
but integers. -/
structure Lawful (codec : Codec α) : Prop where
  read_write : ∀ origin data, codec.read origin (codec.write data).toTree = .ok data
  integral_write : ∀ data, (codec.write data).Integral

theorem Lawful.restores (h : codec.Lawful) (data : α) : codec.Restores data where
  read_write origin := h.read_write origin data
  integral_write := h.integral_write data

/-- What is written and laid out as a text is read again from the text. -/
theorem Restores.ofText_pretty (h : codec.Restores data) :
    codec.ofText (codec.write data).pretty = .ok data := by
  rw [ofText_eq_ok_iff, Parsed.ofText_pretty h.integral_write]
  exact ⟨h.read_write .text, rfl⟩

/-- What a lawful codec writes and lays out as a text is read again from the text. -/
theorem Lawful.ofText_pretty (h : codec.Lawful) (data : α) :
    codec.ofText (codec.write data).pretty = .ok data :=
  (h.restores data).ofText_pretty

end Codec

end TextEditing.Json
