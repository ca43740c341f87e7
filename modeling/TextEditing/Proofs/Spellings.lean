/-
Module: TextEditing.Proofs.Spellings
Purpose: The many texts that are read as one value: with white space, and with other values inside.
Main exports: Gap, Name, Part, Brackets, Spelling, Spelling.ofInt, Spelling.object, Spelling.array,
  Parsed.ofText_spelled
-/
import TextEditing.Proofs.IntegerLiterals

namespace TextEditing.Json

/-!
A value can be written in many ways: with white space around every token, with escapes in strings,
and with other values inside.  A spelling is any text that the reader takes for one value, whatever
follows, and wherever the value stands.  Spelled members with white space between their tokens make
a spelled object, and spelled entries a spelled array.
-/

/-- White space. -/
structure Gap where
  chars : List Char
  blank : ∀ c ∈ chars, isSpace c = true

/-- A text that is read as a string. -/
structure Name where
  chars : List Char
  name : String
  scans : ∀ rest, tokens (chars ++ rest) = .string name :: tokens rest

/-- A text of which no token reaches into what follows it, unless that could carry on a numeral. -/
structure Part where
  chars : List Char
  tokens : List Token
  scans : ∀ rest, EndsNumeral rest → Json.tokens (chars ++ rest) = tokens ++ Json.tokens rest

/-- A text that is read as one value. -/
structure Spelling extends Part where
  tree : Tree
  /-- The tokens are those of one value. -/
  reads : ∀ rest frames,
    Parsed.read (tokens ++ rest) .value frames = Parsed.read rest (.after tree) frames

namespace Gap

/-- No white space. -/
def none : Gap := ⟨[], fun _ h => absurd h List.not_mem_nil⟩

theorem tokens_append (gap : Gap) (rest : List Char) : tokens (gap.chars ++ rest) = tokens rest := by
  obtain ⟨chars, hblank⟩ := gap
  change tokens (chars ++ rest) = _
  induction chars with
  | nil => rfl
  | cons c chars ih =>
      obtain ⟨hc, hchars⟩ := List.forall_mem_cons.1 hblank
      rw [List.cons_append, tokens_of_space _ hc, ih hchars]

/-- White space does not carry on a numeral. -/
theorem endsNumeral (gap : Gap) {rest : List Char} (h : EndsNumeral rest) :
    EndsNumeral (gap.chars ++ rest) := by
  obtain ⟨chars, hblank⟩ := gap
  cases chars with
  | nil => exact h
  | cons c chars =>
      have hspace := hblank c List.mem_cons_self
      refine EndsNumeral.cons (chars ++ rest) ?_
      simp only [isSpace, Bool.or_eq_true, beq_iff_eq] at hspace
      rcases hspace with ((rfl | rfl) | rfl) | rfl <;> decide

end Gap

/-- The quoted text as it is written without need for white space. -/
def Name.quoted (text : String) : Name := ⟨Printer.quoted text, text, tokens_quoted text⟩

/-!
### Integer literals
-/

/-- The token of an integer literal. -/
theorem tokens_ofInt (n : Int) {rest : List Char} (h : EndsNumeral rest) :
    tokens ((Integer.text n).toList ++ rest) = numeralToken (.ofInt n) :: tokens rest := by
  rw [Integer.text, String.toList_ofList, Numeral.ofInt]
  split
  · rename_i hneg
    have hscan := scanNumeral_toDigits true n.natAbs h
    simp only [hneg, decide_true]
    exact tokens_of_scan rfl hscan
  · rename_i hpos
    have hscan := scanNumeral_toDigits false n.natAbs h
    simp only [hpos, decide_false, List.nil_append]
    cases hdigits : Nat.toDigits 10 n.natAbs with
    | nil => exact absurd hdigits Nat.toDigits_ne_nil
    | cons first others =>
        have hmem : first ∈ Nat.toDigits 10 n.natAbs := hdigits ▸ List.mem_cons_self
        have hdigit := Nat.isDigit_of_mem_toDigits (by decide) (by decide) hmem
        rw [hdigits, List.cons_append, ← Token.scan_of_isDigit _ hdigit] at hscan
        exact tokens_of_scan (isSpace_of_isDigit hdigit) hscan

/-- The literal of an integer of any size. -/
def Spelling.ofInt (n : Int) : Spelling where
  chars := (Integer.text n).toList
  tokens := [numeralToken (.ofInt n)]
  tree := (Numeral.ofInt n).toTree
  scans _ h := tokens_ofInt n h
  reads rest frames := by
    rw [numeralToken, Numeral.toTree]
    cases (Numeral.ofInt n).value? <;> rfl

/-!
### Brackets
-/

/-- A pair of brackets, with their tokens. -/
structure Brackets where
  left : Char
  right : Char
  leftToken : Token
  rightToken : Token
  scans_left : ∀ rest, tokens (left :: rest) = leftToken :: tokens rest
  scans_right : ∀ rest, tokens (right :: rest) = rightToken :: tokens rest
  endsNumeral_right : ∀ rest, EndsNumeral (right :: rest)

namespace Brackets

/-- The brackets of an array. -/
def square : Brackets where
  left := '['
  right := ']'
  leftToken := .openArray
  rightToken := .closeArray
  scans_left _ := tokens_of_scan rfl rfl
  scans_right _ := tokens_of_scan rfl rfl
  endsNumeral_right rest := EndsNumeral.cons rest rfl

/-- The brackets of an object. -/
def curly : Brackets where
  left := '\x7b'
  right := '\x7d'
  leftToken := .openObject
  rightToken := .closeObject
  scans_left _ := tokens_of_scan rfl rfl
  scans_right _ := tokens_of_scan rfl rfl
  endsNumeral_right rest := EndsNumeral.cons rest rfl

/-- The text of further parts, and of the bracket behind them. -/
def furtherChars (brackets : Brackets) : List Part → List Char
  | [] => [brackets.right]
  | part :: rest => ',' :: (part.chars ++ brackets.furtherChars rest)

/-- The text of parts in brackets; the white space stands there if there are none. -/
def chars (brackets : Brackets) (inside : Gap) : List Part → List Char
  | [] => brackets.left :: (inside.chars ++ [brackets.right])
  | part :: rest => brackets.left :: (part.chars ++ brackets.furtherChars rest)

/-- The tokens of further parts, and of the bracket behind them. -/
def furtherTokens (brackets : Brackets) : List Part → List Token
  | [] => [brackets.rightToken]
  | part :: rest => .comma :: (part.tokens ++ brackets.furtherTokens rest)

/-- The tokens of parts in brackets. -/
def tokens (brackets : Brackets) : List Part → List Token
  | [] => [brackets.leftToken, brackets.rightToken]
  | part :: rest => brackets.leftToken :: (part.tokens ++ brackets.furtherTokens rest)

variable (brackets : Brackets)

theorem endsNumeral_furtherChars (parts : List Part) (rest : List Char) :
    EndsNumeral (brackets.furtherChars parts ++ rest) := by
  cases parts with
  | nil => exact brackets.endsNumeral_right rest
  | cons part others => exact EndsNumeral.cons _ rfl

theorem tokens_furtherChars (parts : List Part) (rest : List Char) :
    Json.tokens (brackets.furtherChars parts ++ rest) =
      brackets.furtherTokens parts ++ Json.tokens rest := by
  induction parts with
  | nil => exact brackets.scans_right rest
  | cons part others ih =>
      rw [furtherChars, furtherTokens, List.cons_append, tokens_of_scan rfl rfl, List.append_assoc,
        part.scans _ (brackets.endsNumeral_furtherChars others rest), ih, List.cons_append,
        List.append_assoc]

theorem tokens_chars (inside : Gap) (parts : List Part) (rest : List Char) :
    Json.tokens (brackets.chars inside parts ++ rest) =
      brackets.tokens parts ++ Json.tokens rest := by
  cases parts with
  | nil =>
      rw [chars, List.cons_append, brackets.scans_left, List.append_assoc, Gap.tokens_append,
        List.singleton_append, brackets.scans_right]
      rfl
  | cons part others =>
      rw [chars, tokens, List.cons_append, brackets.scans_left, List.append_assoc,
        part.scans _ (brackets.endsNumeral_furtherChars others rest), tokens_furtherChars,
        List.cons_append, List.append_assoc]

end Brackets

/-!
### Objects
-/

/-- What stands around the value of a member: its name and white space. -/
structure Label where
  lead : Gap
  name : Name
  beforeColon : Gap
  afterColon : Gap
  trail : Gap

/-- A spelled member of an object. -/
structure Member where
  label : Label
  value : Spelling

namespace Member

/-- The key of the member. -/
def key (member : Member) : String := member.label.name.name

/-- The member in the tree of its object. -/
def entry (member : Member) : Key × Tree := (.name member.key, member.value.tree)

/-- The text of the member. -/
def part (member : Member) : Part where
  chars := member.label.lead.chars ++ (member.label.name.chars ++
    (member.label.beforeColon.chars ++ ':' :: (member.label.afterColon.chars ++
      (member.value.chars ++ member.label.trail.chars))))
  tokens := .string member.key :: .colon :: member.value.tokens
  scans rest h := by
    simp only [List.append_assoc, List.cons_append]
    rw [Gap.tokens_append, member.label.name.scans, Gap.tokens_append, tokens_of_scan rfl rfl,
      Gap.tokens_append, member.value.scans _ (member.label.trail.endsNumeral h),
      Gap.tokens_append]
    rfl

/-- Behind a member of an object the tokens of the others close the object around them all. -/
theorem read_furtherTokens (members : List Member) (rest : List Token) (done : List (Key × Tree))
    (name : Key) (last : Tree) (frames : List Frame) :
    Parsed.read (Brackets.curly.furtherTokens (members.map part) ++ rest) (.after last)
        (.object done name :: frames) =
      Parsed.read rest
        (.after (.object (((name, last) :: done).reverse ++ members.map entry) none)) frames := by
  induction members generalizing done name last with
  | nil =>
      rw [List.map_nil, List.map_nil, List.append_nil]
      rfl
  | cons member others ih =>
      have hcomma : Parsed.read
            (Brackets.curly.furtherTokens ((member :: others).map part) ++ rest) (.after last)
            (.object done name :: frames) =
          Parsed.read
            (member.value.tokens ++ (Brackets.curly.furtherTokens (others.map part) ++ rest)) .value
            (.object ((name, last) :: done) (.name member.key) :: frames) := by
        simp only [List.map_cons, Brackets.furtherTokens, part, List.cons_append, List.append_assoc]
        rfl
      rw [hcomma, member.value.reads, ih, List.reverse_cons, List.append_assoc, List.map_cons]
      rfl

end Member

/-- An object of spelled members. -/
def Spelling.object (inside : Gap) (members : List Member) : Spelling where
  chars := Brackets.curly.chars inside (members.map Member.part)
  tokens := Brackets.curly.tokens (members.map Member.part)
  tree := .object (members.map Member.entry) none
  scans rest _ := Brackets.curly.tokens_chars inside (members.map Member.part) rest
  reads rest frames := by
    cases members with
    | nil => rfl
    | cons member others =>
        have hopen : Parsed.read
              (Brackets.curly.tokens ((member :: others).map Member.part) ++ rest) .value frames =
            Parsed.read (member.value.tokens ++
                (Brackets.curly.furtherTokens (others.map Member.part) ++ rest)) .value
              (.object [] (.name member.key) :: frames) := by
          simp only [List.map_cons, Brackets.tokens, Member.part, List.cons_append,
            List.append_assoc]
          rfl
        rw [hopen, member.value.reads, Member.read_furtherTokens, List.map_cons]
        rfl

/-!
### Arrays
-/

/-- A spelled entry of an array, with white space around it. -/
structure Item where
  lead : Gap
  value : Spelling
  trail : Gap

namespace Item

/-- The entry in the tree of its array. -/
def tree (item : Item) : Tree := item.value.tree

/-- The text of the entry. -/
def part (item : Item) : Part where
  chars := item.lead.chars ++ (item.value.chars ++ item.trail.chars)
  tokens := item.value.tokens
  scans rest h := by
    simp only [List.append_assoc]
    rw [Gap.tokens_append, item.value.scans _ (item.trail.endsNumeral h), Gap.tokens_append]

/-- Behind an entry of an array the tokens of the others close the array around them all. -/
theorem read_furtherTokens (items : List Item) (rest : List Token) (done : List Tree) (last : Tree)
    (frames : List Frame) :
    Parsed.read (Brackets.square.furtherTokens (items.map part) ++ rest) (.after last)
        (.array done :: frames) =
      Parsed.read rest (.after (.array ((last :: done).reverse ++ items.map tree) none))
        frames := by
  induction items generalizing done last with
  | nil =>
      rw [List.map_nil, List.map_nil, List.append_nil]
      rfl
  | cons item others ih =>
      have hcomma : Parsed.read
            (Brackets.square.furtherTokens ((item :: others).map part) ++ rest) (.after last)
            (.array done :: frames) =
          Parsed.read
            (item.value.tokens ++ (Brackets.square.furtherTokens (others.map part) ++ rest)) .value
            (.array (last :: done) :: frames) := by
        simp only [List.map_cons, Brackets.furtherTokens, part, List.cons_append, List.append_assoc]
        rfl
      rw [hcomma, item.value.reads, ih, List.reverse_cons, List.append_assoc, List.map_cons]
      rfl

end Item

/-- A value does not begin with the bracket that ends an array: what is read there does not depend
on what follows. -/
theorem Spelling.read_firstEntry (spelling : Spelling) (rest : List Token) (frames : List Frame) :
    Parsed.read (spelling.tokens ++ rest) .firstEntry frames =
      Parsed.read rest (.after spelling.tree) (.array [] :: frames) := by
  rw [← spelling.reads]
  have hfollowed := spelling.reads [.null] []
  cases htokens : spelling.tokens with
  | nil =>
      rw [htokens] at hfollowed
      have htrailing := congrArg Parsed.trailing hfollowed
      cases htrailing
  | cons first others =>
      have hfirst : first ≠ .closeArray := by
        rintro rfl
        rw [htokens] at hfollowed
        have htrailing := congrArg Parsed.trailing hfollowed
        cases htrailing
      have htake : Step.take first .firstEntry frames =
          Step.take first .value (.array [] :: frames) := if_neg hfirst
      rw [List.cons_append, Parsed.read, Parsed.read, htake]

/-- An array of spelled entries. -/
def Spelling.array (inside : Gap) (items : List Item) : Spelling where
  chars := Brackets.square.chars inside (items.map Item.part)
  tokens := Brackets.square.tokens (items.map Item.part)
  tree := .array (items.map Item.tree) none
  scans rest _ := Brackets.square.tokens_chars inside (items.map Item.part) rest
  reads rest frames := by
    cases items with
    | nil => rfl
    | cons item others =>
        have hopen : Parsed.read
              (Brackets.square.tokens ((item :: others).map Item.part) ++ rest) .value frames =
            Parsed.read (item.value.tokens ++
              (Brackets.square.furtherTokens (others.map Item.part) ++ rest)) .firstEntry
                frames := by
          simp only [List.map_cons, Brackets.tokens, Item.part, List.cons_append,
            List.append_assoc]
          rfl
        rw [hopen, item.value.read_firstEntry, Item.read_furtherTokens, List.map_cons]
        rfl

/-- The text of a spelled value with white space around it. -/
def Spelling.text (lead : Gap) (spelling : Spelling) (trail : Gap) : String :=
  String.ofList (lead.chars ++ (spelling.chars ++ trail.chars))

/-- The text of a spelled value is read as that value, with nothing behind it. -/
theorem Parsed.ofText_spelled (lead : Gap) (spelling : Spelling) (trail : Gap) :
    ofText (spelling.text lead trail) = ⟨spelling.tree, false⟩ := by
  have hends := trail.endsNumeral EndsNumeral.nil
  have hblank := trail.tokens_append []
  rw [List.append_nil] at hends hblank
  rw [ofText, Spelling.text, String.toList_ofList, Gap.tokens_append, spelling.scans _ hends,
    hblank, tokens_nil, spelling.reads]
  rfl

end TextEditing.Json
