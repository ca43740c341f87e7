/-
Module: TextEditing.Proofs.RespelledNames
Purpose: Which spellings of a name are read as the same alternative of a choice.
Main exports: Choice.Respelled, Choice.Padded, Choice.Varied, Choice.Shielded, Choice.letters,
  Choice.letters_eq_of_varied, Choice.readAlike_iff_of_varied, Choice.Lenient, choices_lenient
-/
import Mathlib.Logic.Relation
import TextEditing.Options.Choices
import TextEditing.Proofs.Dictionaries
import TextEditing.Proofs.StrippedEnds

namespace TextEditing

/-!
The case of letters, separators, and white space at the ends do not belong to the letters of a name.
White space is dropped at the ends before the separators are, so white space that a separator keeps
from the end of a name stays.  No alternative has white space at an end of its name, so such a name
is refused.  Every other name is read by its letters.
-/

namespace Choice

/-! ### Spellings of a name -/

/-- A spelling with one letter in another case or with one more separator. -/
inductive Respelling : List Char → List Char → Prop where
  | letter (front back : List Char) {c d : Char} (same : c.toUpper = d.toUpper) :
      Respelling (front ++ c :: back) (front ++ d :: back)
  | separator (front back : List Char) {c : Char} (separates : isSeparator c = true) :
      Respelling (front ++ back) (front ++ c :: back)

/-- A spelling with one more character of white space at an end. -/
inductive Padding : List Char → List Char → Prop where
  | front {c : Char} (text : List Char) (blank : isBlank c = true) : Padding text (c :: text)
  | back {c : Char} (text : List Char) (blank : isBlank c = true) : Padding text (text ++ [c])

/-- The second text comes from the first one by changes of case and by separators that are put in or
taken out anywhere. -/
def Respelled (first second : String) : Prop :=
  Relation.EqvGen Respelling first.toList second.toList

/-- The second text comes from the first one by white space that is put or taken away at its
ends. -/
def Padded (first second : String) : Prop :=
  Relation.EqvGen Padding first.toList second.toList

/-- The second text comes from the first one by any of these changes, in any order. -/
def Varied (first second : String) : Prop :=
  Relation.EqvGen (fun a b => Respelling a b ∨ Padding a b) first.toList second.toList

theorem Respelled.varied {first second : String} (h : Respelled first second) :
    Varied first second :=
  Relation.EqvGen.mono (fun _ _ => Or.inl) _ _ h

/-- What is kept of a text, in upper case, when its separators are taken out. -/
def kept (text : List Char) : List Char := (text.filter (!isSeparator ·)).map Char.toUpper

/-- White space stands at an end of the name as soon as separators are taken out of it, though there
is none at the ends before. -/
def Shielded (name : String) : Prop := ¬ Bare isBlank (kept (stripped isBlank name.toList))

instance (name : String) : Decidable (Shielded name) :=
  inferInstanceAs (Decidable (¬ Bare isBlank (kept (stripped isBlank name.toList))))

/-- The letters of a name, all separators and then white space at the ends left out. -/
def letters (text : List Char) : List Char := stripped isBlank (kept text)

/-! ### What does not belong to the letters -/

/-- What no single change affects is not affected by any number of them. -/
theorem eq_of_eqvGen {α β : Type} {related : α → α → Prop} {f : α → β} {first second : α}
    (h : ∀ a b, related a b → f a = f b) (hrelated : Relation.EqvGen related first second) :
    f first = f second := by
  induction hrelated with
  | rel a b step => exact h a b step
  | refl _ => rfl
  | symm _ _ _ ih => exact ih.symm
  | trans _ _ _ _ _ ih ih' => exact ih.trans ih'

/-- The upper case of a character is the character itself, or a capital letter for a small one. -/
theorem toUpper_cases (c : Char) :
    c.toUpper = c ∨ 97 ≤ c.toNat ∧ c.toNat ≤ 122 ∧ 65 ≤ c.toUpper.toNat ∧ c.toUpper.toNat ≤ 90 := by
  by_cases h : 'a'.val ≤ c.val ∧ c.val ≤ 'z'.val
  · right
    have hlow : 97 ≤ c.toNat := UInt32.le_iff_toNat_le.1 h.1
    have hhigh : c.toNat ≤ 122 := UInt32.le_iff_toNat_le.1 h.2
    have hshifted : c.toUpper = _ := dif_pos h
    have hupper : c.toUpper.toNat = (c.val + ('A'.val - 'a'.val)).toNat := by
      rw [hshifted]
      rfl
    have hshift : ('A'.val - 'a'.val).toNat = 4294967264 := by decide
    have hval : c.val.toNat = c.toNat := rfl
    rw [UInt32.toNat_add] at hupper
    omega
  · exact .inl (dif_neg h)

theorem isBlank_toUpper (c : Char) : isBlank c.toUpper = isBlank c := by
  rcases toUpper_cases c with hsame | ⟨hlow, hhigh, hlow', hhigh'⟩
  · rw [hsame]
  · rw [isBlank_of_visible (by omega) (by omega), isBlank_of_visible (by omega) (by omega)]

theorem isSeparator_iff {c : Char} : isSeparator c = true ↔ c.toNat = 95 ∨ c.toNat = 45 := by
  have hunderscore : c = '_' ↔ c.toNat = 95 := ⟨fun h => h ▸ rfl, fun h => Char.toNat_inj.1 h⟩
  have hhyphen : c = '-' ↔ c.toNat = 45 := ⟨fun h => h ▸ rfl, fun h => Char.toNat_inj.1 h⟩
  rw [isSeparator, Bool.or_eq_true, beq_iff_eq, beq_iff_eq, hunderscore, hhyphen]

theorem isSeparator_of_isBlank {c : Char} (h : isBlank c = true) : isSeparator c = false := by
  refine Bool.eq_false_iff.2 fun hseparator => ?_
  simp only [isBlank, blankRanges] at h
  rcases isSeparator_iff.1 hseparator with hc | hc <;> rw [hc] at h <;> exact absurd h (by decide)

theorem isSeparator_toUpper (c : Char) : isSeparator c.toUpper = isSeparator c := by
  rcases toUpper_cases c with hsame | ⟨hlow, hhigh, hlow', hhigh'⟩
  · rw [hsame]
  · have hsmall : ¬ isSeparator c = true := by
      rw [isSeparator_iff]
      omega
    have hcapital : ¬ isSeparator c.toUpper = true := by
      rw [isSeparator_iff]
      omega
    rw [Bool.eq_false_iff.2 hsmall, Bool.eq_false_iff.2 hcapital]

theorem kept_append (first second : List Char) :
    kept (first ++ second) = kept first ++ kept second := by
  simp [kept]

theorem isBlank_of_mem_kept {text : List Char} (h : ∀ c ∈ text, isBlank c = true) :
    ∀ c ∈ kept text, isBlank c = true := by
  intro c hc
  obtain ⟨d, hd, rfl⟩ := List.mem_map.1 hc
  rw [isBlank_toUpper]
  exact h d (List.mem_filter.1 hd).1

theorem kept_reverse (text : List Char) : kept text.reverse = (kept text).reverse := by
  simp [kept]

/-- White space in front of a text is kept there. -/
theorem first_of_kept {text : List Char} (h : ∀ c ∈ (kept text).head?, isBlank c = false) :
    ∀ c ∈ text.head?, isBlank c = false := by
  intro c hc
  cases hblank : isBlank c with
  | false => rfl
  | true =>
      obtain ⟨rest, rfl⟩ := List.head?_eq_some_iff.1 hc
      have hkept : kept (c :: rest) = c.toUpper :: kept rest := by
        simp [kept, isSeparator_of_isBlank hblank]
      have hupper : isBlank c.toUpper = false := h c.toUpper (by rw [hkept]; rfl)
      rw [isBlank_toUpper, hblank] at hupper
      exact hupper

theorem bare_of_bare_kept {text : List Char} (h : Bare isBlank (kept text)) :
    Bare isBlank text where
  first := first_of_kept h.first
  last := by
    have hreverse := h.reverse.first
    rw [← kept_reverse] at hreverse
    rw [← List.head?_reverse]
    exact first_of_kept hreverse

theorem kept_eq_of_respelling {first second : List Char} (h : Respelling first second) :
    kept first = kept second := by
  cases h with
  | @letter front back c d same =>
      have hseparator : isSeparator c = isSeparator d := by
        rw [← isSeparator_toUpper c, same, isSeparator_toUpper]
      rw [kept_append, kept_append]
      cases hd : isSeparator d <;> simp [kept, hseparator, hd, same]
  | @separator front back c separates =>
      rw [kept_append, kept_append]
      simp [kept, separates]

theorem kept_eq_of_respelled {first second : String} (h : Respelled first second) :
    kept first.toList = kept second.toList :=
  eq_of_eqvGen (fun _ _ => kept_eq_of_respelling) h

theorem stripped_eq_of_padding {first second : List Char} (h : Padding first second) :
    stripped isBlank first = stripped isBlank second := by
  have hnone : ∀ d ∈ ([] : List Char), isBlank d = true := List.forall_mem_nil _
  cases h with
  | @front c text blank =>
      have hfront : ∀ d ∈ [c], isBlank d = true := List.forall_mem_singleton.2 blank
      have hsame := stripped_append first hfront hnone
      rw [List.append_nil] at hsame
      exact hsame.symm
  | @back c text blank =>
      have hback : ∀ d ∈ [c], isBlank d = true := List.forall_mem_singleton.2 blank
      exact (stripped_append first hnone hback).symm

theorem stripped_eq_of_padded {first second : String} (h : Padded first second) :
    stripped isBlank first.toList = stripped isBlank second.toList :=
  eq_of_eqvGen (fun _ _ => stripped_eq_of_padding) h

/-- White space at the ends does not belong to the letters. -/
theorem letters_stripped (text : List Char) : letters (stripped isBlank text) = letters text := by
  obtain ⟨lead, trail, htext, hlead, htrail, _⟩ := exists_stripped isBlank text
  have hkept : kept text = kept lead ++ (kept (stripped isBlank text) ++ kept trail) := by
    rw [← kept_append, ← kept_append, ← htext]
  rw [letters, letters, hkept,
    stripped_append _ (isBlank_of_mem_kept hlead) (isBlank_of_mem_kept htrail)]

/-- All spellings of a name have the same letters. -/
theorem letters_eq_of_varied {first second : String} (h : Varied first second) :
    letters first.toList = letters second.toList := by
  refine eq_of_eqvGen (fun a b step => ?_) h
  cases step with
  | inl respelling => rw [letters, letters, kept_eq_of_respelling respelling]
  | inr padding => rw [← letters_stripped, stripped_eq_of_padding padding, letters_stripped]

/-! ### Names that are read by their letters -/

/-- A name that is not shielded is looked up by its letters. -/
theorem normalized_eq_letters {name : String} (h : ¬ Shielded name) :
    normalized name = String.ofList (letters name.toList) := by
  have hbare : Bare isBlank (kept (stripped isBlank name.toList)) := not_not.1 h
  rw [← letters_stripped, letters, stripped_of_bare hbare]
  rfl

/-- Without white space around its letters no spelling of a name is shielded. -/
theorem not_shielded {name : String} (h : Bare isBlank (kept name.toList)) : ¬ Shielded name := by
  have hname : stripped isBlank name.toList = name.toList :=
    stripped_of_bare (bare_of_bare_kept h)
  rw [Shielded, hname]
  exact not_not.2 h

section

variable {α : Type} [Choice α]

/-- Both names are read as the same alternative, or each of them is refused with an error that tells
it as it is. -/
def ReadAlike (α : Type) [Choice α] (first second : String) : Prop :=
  (∃ member : α, ofText first = .ok member ∧ ofText second = .ok member) ∨
    (ofText first : Except OptionsError α) = .error (.unknownValue (title α) first) ∧
      (ofText second : Except OptionsError α) = .error (.unknownValue (title α) second)

theorem readAlike_of_normalized_eq {first second : String}
    (h : normalized first = normalized second) : ReadAlike α first second := by
  unfold ReadAlike ofText
  rw [h]
  cases (spellings : List (String × α)).lookup (normalized second) with
  | some member => exact .inl ⟨member, rfl, rfl⟩
  | none => exact .inr ⟨rfl, rfl⟩

/-- No alternative has a name with white space at its ends. -/
def BareSpellings (α : Type) [Choice α] : Prop :=
  ∀ entry ∈ (spellings : List (String × α)), Bare isBlank entry.1.toList

instance : Decidable (BareSpellings α) :=
  decidable_of_iff ((spellings : List (String × α)).all fun entry => Bare isBlank entry.1.toList)
    (by simp [BareSpellings])

theorem ofText_of_shielded (hbare : BareSpellings α) {name : String} (h : Shielded name) :
    (ofText name : Except OptionsError α) = .error (.unknownValue (title α) name) := by
  have hnone : (spellings : List (String × α)).lookup (normalized name) = none := by
    rw [Dictionary.lookup_eq_none_iff]
    intro hmem
    obtain ⟨entry, hentry, hname⟩ := List.mem_map.1 hmem
    have hspelling := hbare entry hentry
    rw [hname, normalized, String.toList_ofList] at hspelling
    exact h hspelling
  rw [ofText, hnone]

/-- The letters of the name are those of an alternative. -/
def Named (α : Type) [Choice α] (name : String) : Prop :=
  ∃ member, (spellings : List (String × α)).lookup (String.ofList (letters name.toList)) =
    some member

theorem Named.of_varied {first second : String} (h : Varied first second) (hnamed : Named α first) :
    Named α second := by
  unfold Named at hnamed ⊢
  rwa [← letters_eq_of_varied h]

/-- A name that is not shielded is read if its letters are those of an alternative. -/
theorem exists_ofText {name : String} (h : ¬ Shielded name) (hnamed : Named α name) :
    ∃ member : α, ofText name = .ok member := by
  obtain ⟨member, hmember⟩ := hnamed
  refine ⟨member, ?_⟩
  rw [ofText, normalized_eq_letters h, hmember]

theorem ofText_of_not_named (hbare : BareSpellings α) {name : String} (h : ¬ Named α name) :
    (ofText name : Except OptionsError α) = .error (.unknownValue (title α) name) := by
  by_cases hshielded : Shielded name
  · exact ofText_of_shielded hbare hshielded
  · have hnone : (spellings : List (String × α)).lookup (normalized name) = none := by
      rw [normalized_eq_letters hshielded, Option.eq_none_iff_forall_ne_some]
      exact fun member hmember => h ⟨member, hmember⟩
    rw [ofText, hnone]

theorem not_readAlike_of_shielded (hbare : BareSpellings α) {first second : String}
    (hfirst : Shielded first) (hsecond : ¬ Shielded second) (hnamed : Named α second) :
    ¬ ReadAlike α first second := by
  obtain ⟨member, hmember⟩ := exists_ofText hsecond hnamed
  rintro (⟨other, hother, _⟩ | ⟨_, hrefused⟩)
  · cases (ofText_of_shielded hbare hfirst).symm.trans hother
  · cases hmember.symm.trans hrefused

theorem ReadAlike.symm {first second : String} (h : ReadAlike α first second) :
    ReadAlike α second first := by
  rcases h with ⟨member, hfirst, hsecond⟩ | ⟨hfirst, hsecond⟩
  · exact .inl ⟨member, hsecond, hfirst⟩
  · exact .inr ⟨hsecond, hfirst⟩

/-- Two spellings of one name are read alike, unless only one of them is shielded. -/
theorem readAlike_iff_of_varied (hbare : BareSpellings α) {first second : String}
    (h : Varied first second) :
    ReadAlike α first second ↔ (Shielded first ↔ Shielded second) ∨ ¬ Named α first := by
  constructor
  · intro halike
    by_contra hnot
    obtain ⟨hshielded, hnamed⟩ := not_or.1 hnot
    by_cases hfirst : Shielded first
    · have hsecond : ¬ Shielded second := fun hs => hshielded (iff_of_true hfirst hs)
      exact not_readAlike_of_shielded hbare hfirst hsecond ((not_not.1 hnamed).of_varied h) halike
    · have hsecond : Shielded second := by_contra fun hs => hshielded (iff_of_false hfirst hs)
      exact not_readAlike_of_shielded hbare hsecond hfirst (not_not.1 hnamed) halike.symm
  · rintro (hshielded | hnamed)
    · by_cases hfirst : Shielded first
      · have hsecond : Shielded second := hshielded.1 hfirst
        exact .inr ⟨ofText_of_shielded hbare hfirst, ofText_of_shielded hbare hsecond⟩
      · have hsecond : ¬ Shielded second := fun hs => hfirst (hshielded.2 hs)
        apply readAlike_of_normalized_eq
        rw [normalized_eq_letters hfirst, normalized_eq_letters hsecond, letters_eq_of_varied h]
    · have hother : ¬ Named α second := fun hs => hnamed (hs.of_varied (.symm _ _ h))
      exact .inr ⟨ofText_of_not_named hbare hnamed, ofText_of_not_named hbare hother⟩

/-- What it takes for two names to be read alike. -/
structure Lenient (α : Type) [Choice α] (first second : String) : Prop where
  /-- The case of letters and separators do not matter if no white space stands around the
  letters. -/
  respelled : Bare isBlank (kept first.toList) → Respelled first second → ReadAlike α first second
  /-- White space at the ends does not matter. -/
  padded : Padded first second → ReadAlike α first second
  /-- All of this together matters only to the name of an alternative, and only if one of the two
  spellings is shielded and the other one is not. -/
  varied : Varied first second →
    (ReadAlike α first second ↔ (Shielded first ↔ Shielded second) ∨ ¬ Named α first)
  /-- A shielded name is refused, whatever its letters are. -/
  shielded : Shielded first →
    (ofText first : Except OptionsError α) = .error (.unknownValue (title α) first)

theorem lenient (hbare : BareSpellings α) (first second : String) : Lenient α first second where
  respelled h hspelled := by
    have hsecond : Bare isBlank (kept second.toList) := kept_eq_of_respelled hspelled ▸ h
    refine (readAlike_iff_of_varied hbare hspelled.varied).2 (.inl ?_)
    exact iff_of_false (not_shielded h) (not_shielded hsecond)
  padded h := by
    apply readAlike_of_normalized_eq
    rw [normalized, normalized, stripped_eq_of_padded h]
  varied h := readAlike_iff_of_varied hbare h
  shielded h := ofText_of_shielded hbare h

end

end Choice

/-- Every choice is read from any spelling of the name of an alternative, with letters of either
case, with separators anywhere and with white space at the ends, as long as no separator stands
between that white space and the end; such a name is refused. -/
theorem choices_lenient (first second : String) :
    Choice.Lenient IndentStyle first second ∧ Choice.Lenient JsxEmit first second ∧
      Choice.Lenient ModuleKind first second ∧ Choice.Lenient ModuleResolution first second ∧
      Choice.Lenient LineEnding first second ∧ Choice.Lenient ScriptTarget first second := by
  refine ⟨?_, ?_, ?_, ?_, ?_, ?_⟩
  all_goals exact Choice.lenient (by decide) first second

/-- A separator in front of white space makes a difference. -/
theorem not_lenient_in_front_of_blank :
    Choice.Respelled " smart" "_ smart" ∧
      (Choice.ofText " smart" : Except OptionsError IndentStyle) = .ok .smart ∧
      (Choice.ofText "_ smart" : Except OptionsError IndentStyle) =
        .error (.unknownValue "indent style" "_ smart") ∧
      ¬ Choice.ReadAlike IndentStyle " smart" "_ smart" := by
  have hread : (Choice.ofText " smart" : Except OptionsError IndentStyle) = .ok .smart := rfl
  have hrefused : (Choice.ofText "_ smart" : Except OptionsError IndentStyle) =
      .error (.unknownValue "indent style" "_ smart") := rfl
  refine ⟨.rel _ _ (.separator [] " smart".toList (by decide)), hread, hrefused, ?_⟩
  rintro (⟨member, _, hmember⟩ | ⟨hfirst, _⟩)
  · rw [hrefused] at hmember
    cases hmember
  · rw [hread] at hfirst
    cases hfirst

end TextEditing
