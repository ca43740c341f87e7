/-
Module: TextEditing.Proofs.PreferenceReadings
Purpose: A preference that is stored as a text gives the same readings, and so the same options.
Main exports: Integer.ofText?_text, Preference.ReadsAs, Preferences.ReadsAs, Stratum.store,
  Preferences.readsAs_store, CompilerOptions.ofPreferences_eq_of_place, preferences_alike_as_texts
-/
import TextEditing.Proofs.LiteralEntries
import TextEditing.Proofs.OptionWiring
import TextEditing.Proofs.StrippedEnds

namespace TextEditing

/-!
Truth values and integers are given out as texts that are read as these very values, and as nothing
else: no text of an integer is a word for a truth value, and neither of these words is an integer.
So at every key the same layer answers as before, with the same answer.  Options are built from such
answers alone.
-/

/-! ### Integers as texts -/

namespace Integer

theorem continued_of_digits {digits : List Char} (h : ∀ c ∈ digits, c.isDigit = true) (n : Nat) :
    continued n digits = some (Nat.ofDigitChars 10 digits n) := by
  induction digits generalizing n with
  | nil => rfl
  | cons c rest ih =>
      obtain ⟨hc, hrest⟩ := List.forall_mem_cons.1 h
      rw [continued, if_pos hc, ih hrest, Nat.ofDigitChars_cons]

theorem isDigit_of_mem_toDigits {n : Nat} {c : Char} (h : c ∈ Nat.toDigits 10 n) :
    c.isDigit = true :=
  Nat.isDigit_of_mem_toDigits (by decide) (by decide) h

theorem ofDigits?_toDigits (n : Nat) : ofDigits? (Nat.toDigits 10 n) = some n := by
  have hcontinued := continued_of_digits (fun c hc => isDigit_of_mem_toDigits (n := n) hc) 0
  rw [Nat.ofDigitChars_ten_toDigits] at hcontinued
  cases hdigits : Nat.toDigits 10 n with
  | nil => exact absurd hdigits Nat.toDigits_ne_nil
  | cons c rest =>
      rw [hdigits] at hcontinued
      exact hcontinued

/-- A text without a sign has to consist of digits. -/
theorem ofText?_of_isDigit {c : Char} {rest : List Char} (h : c.isDigit = true) :
    ofText? (String.ofList (c :: rest)) = (ofDigits? (c :: rest)).map fun n => (n : Int) := by
  have hminus : c ≠ '-' := by
    rintro rfl
    exact absurd h (by decide)
  have hplus : c ≠ '+' := by
    rintro rfl
    exact absurd h (by decide)
  rw [ofText?, String.toList_ofList]
  split
  · rename_i heq
    exact absurd (List.cons.inj heq).1 hminus
  · rename_i heq
    exact absurd (List.cons.inj heq).1 hplus
  · rfl

/-- The text of an integer is read as that integer. -/
theorem ofText?_text (n : Int) : ofText? (text n) = some n := by
  rw [text]
  by_cases hneg : n < 0
  · have habs : -(n.natAbs : Int) = n := by omega
    rw [if_pos hneg, List.singleton_append, ofText?, String.toList_ofList]
    simp only [ofDigits?_toDigits]
    exact congrArg some habs
  · have habs : (n.natAbs : Int) = n := by omega
    rw [if_neg hneg, List.nil_append]
    cases hdigits : Nat.toDigits 10 n.natAbs with
    | nil => exact absurd hdigits Nat.toDigits_ne_nil
    | cons c rest =>
        have hdigit : c.isDigit = true := isDigit_of_mem_toDigits (hdigits ▸ List.mem_cons_self)
        rw [ofText?_of_isDigit hdigit, ← hdigits, ofDigits?_toDigits]
        exact congrArg some habs

/-- The text of an integer has no letters and no white space. -/
theorem toNat_of_mem_text {n : Int} {c : Char} (h : c ∈ (text n).toList) :
    0x20 < c.toNat ∧ c.toNat < 65 := by
  rw [text, String.toList_ofList, List.mem_append] at h
  rcases h with hsign | hdigit
  · have hminus : c = '-' := by
      split at hsign
      · exact List.mem_singleton.1 hsign
      · cases hsign
    rw [hminus]
    decide
  · obtain ⟨hlow, hhigh⟩ := Char.isDigit_iff_toNat.1 (isDigit_of_mem_toDigits hdigit)
    have hzero : '0'.toNat = 48 := rfl
    have hnine : '9'.toNat = 57 := rfl
    omega

theorem bare_text (n : Int) : Bare isBlank (text n).toList := by
  refine Bare.of_forall fun c hc => ?_
  obtain ⟨hlow, hhigh⟩ := toNat_of_mem_text hc
  exact isBlank_of_visible hlow (by omega)

end Integer

/-! ### Preferences as texts -/

namespace Preference

/-- Both preferences count as the same truth value, the same integer and the same text, if as any
at all. -/
structure ReadsAs (first second : Preference) : Prop where
  boolean : first.asBoolean? = second.asBoolean?
  integer : first.asInteger? = second.asInteger?
  text : first.asText = second.asText

/-- The text of an integer is read as that integer, even the least one. -/
theorem asInteger?_text (n : Int64) : (text (Integer.text n.toInt)).asInteger? = some n := by
  rw [asInteger?, trimmed_of_bare (Integer.bare_text _), Integer.ofText?_text, Option.bind_some,
    int64?_toInt]

theorem toLower_of_lt {c : Char} (h : c.toNat < 65) : c.toLower = c := by
  have hnot : ¬ (c.val ≥ 'A'.val ∧ c.val ≤ 'Z'.val) := by
    rintro ⟨hlow, _⟩
    have hcapital : 65 ≤ c.toNat := UInt32.le_iff_toNat_le.1 hlow
    omega
  exact dif_neg hnot

/-- The text of an integer is no word with a letter in it. -/
theorem map_toLower_text_ne (n : Int) (word : List Char)
    (h : ∃ letter ∈ word, 65 ≤ letter.toNat) :
    (stripped isBlank (Integer.text n).toList).map Char.toLower ≠ word := by
  intro hword
  obtain ⟨letter, hmem, hletter⟩ := h
  rw [← hword] at hmem
  obtain ⟨c, hc, rfl⟩ := List.mem_map.1 hmem
  obtain ⟨_, hhigh⟩ := Integer.toNat_of_mem_text (mem_of_mem_stripped hc)
  rw [toLower_of_lt hhigh] at hletter
  omega

/-- The text of an integer is no word for a truth value. -/
theorem asBoolean?_text (n : Int) : (text (Integer.text n)).asBoolean? = none := by
  have htrue := map_toLower_text_ne n "true".toList ⟨'t', by decide, by decide⟩
  have hfalse := map_toLower_text_ne n "false".toList ⟨'f', by decide, by decide⟩
  rw [asBoolean?, booleanOfText?]
  simp only [if_neg htrue, if_neg hfalse]

/-- The words for truth values are no integers. -/
theorem asInteger?_word (b : Bool) : (text (boolean b).asText).asInteger? = none := by
  cases b <;> rfl

/-- The text of a preference reads as the preference. -/
theorem readsAs_text (preference : Preference) : (text preference.asText).ReadsAs preference := by
  cases preference with
  | boolean value =>
      cases value with
      | true => exact ⟨rfl, asInteger?_word true, rfl⟩
      | false => exact ⟨rfl, asInteger?_word false, rfl⟩
  | integer value => exact ⟨asBoolean?_text _, asInteger?_text value, rfl⟩
  | text value => exact ⟨rfl, rfl, rfl⟩

end Preference

/-! ### Options from readings -/

namespace Preferences

/-- Both preferences answer alike about the key. -/
structure ReadsAs (first second : Preferences) (key : String) : Prop where
  boolean : first.boolean key = second.boolean key
  integer : first.integer key = second.integer key
  text : first.text key = second.text key

end Preferences

/-- Puts a preference at a key of the layer. -/
def Stratum.store (stratum : Stratum) (key : String) (preference : Preference)
    (preferences : Preferences) : Preferences :=
  stratum.put ((stratum.layer preferences).insert key preference) preferences

namespace Preferences

variable {preferences first second : Preferences} {stratum : Stratum} {key : String}
  {stored preference : Preference}

/-- A stored preference answers as the one in whose place it stands, if it has the same reading. -/
theorem lookup?_store {α : Type} {read : Preference → Option α}
    (h : (stratum.layer preferences).get? key = some preference)
    (hread : read stored = read preference) (other : String) :
    (stratum.store key stored preferences).lookup? other read = preferences.lookup? other read := by
  have hlayer : (((stratum.layer preferences).insert key stored).get? other).bind read =
      ((stratum.layer preferences).get? other).bind read := by
    rw [Dictionary.get?_insert]
    by_cases hkey : other = key
    · rw [if_pos hkey, hkey, h, Option.bind_some, Option.bind_some, hread]
    · rw [if_neg hkey]
  cases stratum with
  | defaults => exact congrArg ((preferences.values.get? other).bind read).or hlayer
  | values => exact congrArg (·.or ((preferences.defaults.get? other).bind read)) hlayer

/-- What is stored at a key leaves all other keys. -/
theorem sameAt_store {other : String} (h : other ≠ key) :
    (stratum.store key stored preferences).SameAt preferences other := by
  cases stratum with
  | defaults => exact sameAt_changed (.setDefault stored) h
  | values => exact sameAt_changed (.set stored) h

/-- What is stored is read, unless it is a default under a value. -/
theorem text_store (stratum : Stratum) (key : String) (stored : Preference)
    (preferences : Preferences) :
    (stratum.store key stored preferences).text key = stored.asText ∨
      (stratum.store key stored preferences).text key = preferences.text key := by
  have hstored (layer : Layer) : (layer.insert key stored).get? key = some stored := by
    rw [Dictionary.get?_insert, if_pos rfl]
  cases stratum with
  | defaults =>
      cases hvalue : preferences.values.get? key with
      | none => exact .inl (by simp [text, lookup?, Stratum.store, Stratum.put, hvalue, hstored])
      | some value => exact .inr (by simp [text, lookup?, Stratum.store, Stratum.put, hvalue])
  | values => exact .inl (by simp [text, lookup?, Stratum.store, Stratum.put, hstored])

theorem SameAt.readsAs (h : first.SameAt second key) : first.ReadsAs second key :=
  ⟨h.boolean_eq, h.integer_eq, h.text_eq⟩

theorem readsAs_store (h : (stratum.layer preferences).get? key = some preference)
    (hread : stored.ReadsAs preference) (other : String) :
    (stratum.store key stored preferences).ReadsAs preferences other where
  boolean := by rw [boolean, boolean, lookup?_store h hread.boolean]
  integer := by rw [integer, integer, lookup?_store h hread.integer]
  text := by
    have htext : some stored.asText = some preference.asText := congrArg some hread.text
    have hlookup : (stratum.store key stored preferences).lookup? other (some ·.asText) =
        preferences.lookup? other (some ·.asText) :=
      lookup?_store h htext other
    rw [text, text, hlookup]

end Preferences

section

variable {first second : Preferences}

theorem EditorOptions.ofPreferences_eq (h : ∀ key, first.ReadsAs second key) :
    ofPreferences first = ofPreferences second := by
  simp only [ofPreferences, columns, (h indentSizeKey).integer, (h tabSizeKey).integer,
    (h indentStyleKey).text, (h spacesForTabsKey).boolean]

theorem FormatOptions.ofPreferences_eq (h : ∀ key, first.ReadsAs second key) :
    ofPreferences first = ofPreferences second := by
  have hrules : (fun rule : FormatRule => first.boolean rule.key) =
      fun rule => second.boolean rule.key :=
    funext fun rule => (h rule.key).boolean
  rw [ofPreferences, ofPreferences, EditorOptions.ofPreferences_eq h, hrules]

/-- No flag is read from the key of the folder. -/
theorem CompilerFlag.key?_ne_outDirKey {flag : CompilerFlag} {key : String}
    (h : flag.key? = some key) : key ≠ CompilerOptions.outDirKey := by
  rintro rfl
  cases flag <;> exact absurd h (by decide)

/-- The folder of the output shows in nothing but the place of the output. -/
theorem CompilerOptions.ofPreferences_eq_of_place {layout : ProjectLayout}
    (hplace : place first layout = place second layout)
    (h : ∀ key, key ≠ outDirKey → first.ReadsAs second key) :
    ofPreferences first layout = ofPreferences second layout := by
  have hflags : (fun flag : CompilerFlag => flag.key?.map first.boolean) =
      fun flag => flag.key?.map second.boolean := by
    funext flag
    cases hkey : flag.key? with
    | none => rfl
    | some key => exact congrArg some (h key (CompilerFlag.key?_ne_outDirKey hkey)).boolean
  rw [place, place] at hplace
  simp only [ofPreferences, hplace, hflags, (h jsxKey (by decide)).text,
    (h moduleKey (by decide)).text, (h targetKey (by decide)).text]

theorem CompilerOptions.ofPreferences_eq (h : ∀ key, first.ReadsAs second key)
    (layout : ProjectLayout) : ofPreferences first layout = ofPreferences second layout := by
  refine ofPreferences_eq_of_place ?_ fun key _ => h key
  rw [place, place, (h outDirKey).text, (h outFileKey).text]

end

/-- A preference in either layer may be stored as its text: no answer about any key changes, and so
neither do the options that are built, nor the errors of building them.  Texts of integers of 64
bits are read as these integers and as no truth value, and the words for truth values as no
integers. -/
theorem preferences_alike_as_texts (preferences : Preferences) (stratum : Stratum) (key : String)
    (preference : Preference) (h : (stratum.layer preferences).get? key = some preference) :
    (∀ other,
        (stratum.store key (.text preference.asText) preferences).ReadsAs preferences other) ∧
      EditorOptions.ofPreferences (stratum.store key (.text preference.asText) preferences) =
        EditorOptions.ofPreferences preferences ∧
      FormatOptions.ofPreferences (stratum.store key (.text preference.asText) preferences) =
        FormatOptions.ofPreferences preferences ∧
      (∀ layout,
        CompilerOptions.ofPreferences (stratum.store key (.text preference.asText) preferences)
            layout =
          CompilerOptions.ofPreferences preferences layout) ∧
      (∀ n : Int64, (Preference.text (Integer.text n.toInt)).asInteger? = some n ∧
        (Preference.text (Integer.text n.toInt)).asBoolean? = none) ∧
      ∀ b : Bool, (Preference.text (Preference.boolean b).asText).asInteger? = none := by
  have hreads := Preferences.readsAs_store h (Preference.readsAs_text preference)
  refine ⟨hreads, EditorOptions.ofPreferences_eq hreads, FormatOptions.ofPreferences_eq hreads,
    CompilerOptions.ofPreferences_eq hreads, ?_, Preference.asInteger?_word⟩
  exact fun n => ⟨Preference.asInteger?_text n, Preference.asBoolean?_text n.toInt⟩

/-- The least integer, a default under a value that is no integer, may be stored as its text. -/
theorem preferences_alike_with_least_integer :
    let preferences :=
      (Preferences.empty.setDefault EditorOptions.indentSizeKey (.integer Int64.minValue)).set
        EditorOptions.indentSizeKey (.text "four")
    let stored := Stratum.defaults.store EditorOptions.indentSizeKey
      (.text "-9223372036854775808") preferences
    stored ≠ preferences ∧ stored.integer EditorOptions.indentSizeKey = Int64.minValue ∧
      EditorOptions.ofPreferences stored = EditorOptions.ofPreferences preferences := by
  intro preferences stored
  have hstored : stored ≠ preferences := by decide +revert
  have hdefault : preferences.integer EditorOptions.indentSizeKey = Int64.minValue := by
    decide +revert
  have hleast : preferences.defaults.get? EditorOptions.indentSizeKey =
      some (.integer Int64.minValue) := by
    decide +revert
  have halike :=
    preferences_alike_as_texts preferences .defaults EditorOptions.indentSizeKey _ hleast
  exact ⟨hstored, (halike.1 EditorOptions.indentSizeKey).integer.trans hdefault, halike.2.1⟩

end TextEditing
