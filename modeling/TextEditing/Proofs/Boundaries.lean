/-
Module: TextEditing.Proofs.Boundaries
Purpose: Which offsets of a text are character boundaries, and that the offset table of a text
  finds exactly these.
Main exports: OffsetUnit.Boundary, Span.AlignedIn, OffsetUnit.measure_take_lt_iff,
  OffsetTable.toCharacter_eq_ok_iff, OffsetTable.spanToCharacters_eq_ok_iff,
  OffsetTable.spanOfCharacters?_of_fits
-/
import TextEditing.Proofs.OffsetTable
import TextEditing.Proofs.FaithfulBuffer

namespace TextEditing

/-!
Every character is at least one unit wide, so the measure of the first `n` characters grows
strictly with `n`, and a place in the text and its offset in the unit determine each other.  The
entries of the table are these measures; searching it by halving therefore finds an offset exactly
if it is a boundary, and finds its place.
-/

namespace OffsetUnit

variable {unit : OffsetUnit} {text : List Char}

theorem length_le_measure (unit : OffsetUnit) (text : List Char) :
    text.length ≤ unit.measure text := by
  induction text with
  | nil => exact Nat.le_refl 0
  | cons c rest ih =>
      have hwidth := unit.width_pos c
      rw [List.length_cons, measure_cons]
      omega

theorem measure_take_add {i j : Nat} (hij : i ≤ j) :
    unit.measure (text.take j) =
      unit.measure (text.take i) + unit.measure (excerpt text i j) := by
  rw [← measure_append, ← excerpt_zero, ← excerpt_zero,
    excerpt_append_excerpt (Nat.zero_le i) hij]

theorem measure_take_mono {i j : Nat} (hij : i ≤ j) :
    unit.measure (text.take i) ≤ unit.measure (text.take j) := by
  rw [measure_take_add hij]
  exact Nat.le_add_right _ _

theorem measure_take_strict {i j : Nat} (hij : i < j) (hj : j ≤ text.length) :
    unit.measure (text.take i) < unit.measure (text.take j) := by
  have hlength : 0 < (excerpt text i j).length := by
    rw [length_excerpt i hj]
    omega
  have hmeasure := unit.length_le_measure (excerpt text i j)
  rw [measure_take_add (Nat.le_of_lt hij)]
  omega

/-- Places in a text are in the order of their offsets. -/
theorem measure_take_lt_iff {i j : Nat} (hj : j ≤ text.length) :
    unit.measure (text.take i) < unit.measure (text.take j) ↔ i < j := by
  constructor
  · intro h
    rcases Nat.lt_or_ge i j with hlt | hge
    · exact hlt
    · exact absurd (measure_take_mono hge) (Nat.not_le_of_lt h)
  · intro h
    exact measure_take_strict h hj

theorem measure_take_le_iff {i j : Nat} (hi : i ≤ text.length) :
    unit.measure (text.take i) ≤ unit.measure (text.take j) ↔ i ≤ j := by
  rw [← Nat.not_lt, measure_take_lt_iff hi, Nat.not_lt]

theorem measure_take_le (unit : OffsetUnit) (text : List Char) (place : Nat) :
    unit.measure (text.take place) ≤ unit.measure text := by
  have hsplit := unit.measure_append (text.take place) (text.drop place)
  rw [List.take_append_drop] at hsplit
  omega

/-- An offset of the text in the unit that does not lie inside a character. -/
def Boundary (unit : OffsetUnit) (text : List Char) (offset : Nat) : Prop :=
  ∃ place ≤ text.length, unit.measure (text.take place) = offset

instance (unit : OffsetUnit) (text : List Char) (offset : Nat) :
    Decidable (unit.Boundary text offset) :=
  inferInstanceAs (Decidable (∃ place ≤ text.length, _))

end OffsetUnit

/-- The span, counted in the unit, lies inside the text and cuts no character. -/
structure Span.AlignedIn (span : Span) (unit : OffsetUnit) (text : List Char) : Prop where
  fits : span.FitsIn (unit.measure text)
  start_boundary : unit.Boundary text span.start
  stop_boundary : unit.Boundary text (span.start + span.length)

instance (span : Span) (unit : OffsetUnit) (text : List Char) :
    Decidable (span.AlignedIn unit text) :=
  decidable_of_iff
    (span.FitsIn (unit.measure text) ∧ unit.Boundary text span.start ∧
      unit.Boundary text (span.start + span.length))
    ⟨fun ⟨hfits, hstart, hstop⟩ => ⟨hfits, hstart, hstop⟩,
      fun ⟨hfits, hstart, hstop⟩ => ⟨hfits, hstart, hstop⟩⟩

/-- The characters from the place `first` up to the place `last` are those that the span covers in
the unit. -/
structure Span.Covers (span : Span) (unit : OffsetUnit) (text : List Char)
    (first last : Nat) : Prop where
  ordered : first ≤ last
  inside : last ≤ text.length
  measure_first : unit.measure (text.take first) = span.start
  measure_last : unit.measure (text.take last) = span.start + span.length

namespace Span.Covers

variable {span : Span} {unit : OffsetUnit} {text : List Char} {first last : Nat}

theorem first_inside (h : span.Covers unit text first last) : first ≤ text.length :=
  Nat.le_trans h.ordered h.inside

/-- No text takes fewer units than it has characters. -/
theorem last_le (h : span.Covers unit text first last) : last ≤ span.start + span.length := by
  have hlength := unit.length_le_measure (text.take last)
  rw [List.length_take_of_le h.inside, h.measure_last] at hlength
  exact hlength

theorem aligned (h : span.Covers unit text first last)
    (hmax : span.start + span.length ≤ maxOffset) : span.AlignedIn unit text where
  fits := ⟨hmax, h.measure_last ▸ unit.measure_take_le text last⟩
  start_boundary := ⟨first, h.first_inside, h.measure_first⟩
  stop_boundary := ⟨last, h.inside, h.measure_last⟩

end Span.Covers

theorem Span.ofBounds_of_le {a b : Nat} (h : a ≤ b) : ofBounds a b = ⟨a, b - a⟩ := by
  rw [ofBounds, Nat.min_eq_left h, Nat.max_eq_right h]

theorem Span.AlignedIn.exists_covers {span : Span} {unit : OffsetUnit} {text : List Char}
    (h : span.AlignedIn unit text) : ∃ first last, span.Covers unit text first last := by
  obtain ⟨first, hfirst, hstart⟩ := h.start_boundary
  obtain ⟨last, hlast, hstop⟩ := h.stop_boundary
  have hle : unit.measure (text.take first) ≤ unit.measure (text.take last) := by
    rw [hstart, hstop]
    exact Nat.le_add_right _ _
  exact ⟨first, last, (OffsetUnit.measure_take_le_iff hfirst).1 hle, hlast, hstart, hstop⟩

/-- A span counted in characters is aligned as soon as it lies inside the text. -/
theorem Span.alignedIn_character_iff {span : Span} {text : List Char} :
    span.AlignedIn .character text ↔ span.FitsIn text.length := by
  constructor
  · intro h
    have hfits := h.fits
    rw [OffsetUnit.measure_character] at hfits
    exact hfits
  · intro h
    have hstop : span.start + span.length ≤ text.length := h.2
    have hstart : span.start ≤ text.length :=
      Nat.le_trans (Nat.le_add_right _ _) hstop
    refine ⟨?_, ⟨span.start, hstart, ?_⟩, ⟨span.start + span.length, hstop, ?_⟩⟩
    · rw [OffsetUnit.measure_character]
      exact h
    · rw [OffsetUnit.measure_character, List.length_take_of_le hstart]
    · rw [OffsetUnit.measure_character, List.length_take_of_le hstop]

namespace OffsetTable

variable {unit : OffsetUnit} {text : String}

/-!
### Looking entries up
-/

theorem getElem?_boundariesFrom (unit : OffsetUnit) (offset : Nat) (chars : List Char)
    (place : Nat) :
    (boundariesFrom unit offset chars)[place]? =
      if place ≤ chars.length then some (offset + unit.measure (chars.take place)) else none := by
  induction chars generalizing offset place with
  | nil => cases place <;> simp [boundariesFrom]
  | cons c rest ih =>
      cases place with
      | zero => simp [boundariesFrom]
      | succ place =>
          simp [boundariesFrom, ih, Nat.add_assoc]

/-- The table lists, for every place of the text, the measure of the characters in front of it. -/
theorem ofCharacter?_ofText (unit : OffsetUnit) (text : String) (place : Nat) :
    (ofText unit text).ofCharacter? place =
      if place ≤ text.toList.length then some (unit.measure (text.toList.take place))
      else none := by
  rw [ofCharacter?, ofText, List.getElem?_toArray, getElem?_boundariesFrom, Nat.zero_add]

theorem ofCharacter?_of_le {place : Nat} (h : place ≤ text.toList.length) :
    (ofText unit text).ofCharacter? place = some (unit.measure (text.toList.take place)) := by
  rw [ofCharacter?_ofText, if_pos h]

/-- Halving a strictly ascending stretch finds an offset exactly if it is there, and finds the
place where it is. -/
theorem search_eq_some_iff {boundaries : Array Nat} {entry : Nat → Nat}
    (hentry : ∀ i < boundaries.size, boundaries[i]? = some (entry i))
    (hstrict : ∀ i j, i < boundaries.size → j < boundaries.size → (entry i < entry j ↔ i < j))
    {offset low high place : Nat} (hhigh : high ≤ boundaries.size) :
    search boundaries offset low high = some place ↔
      low ≤ place ∧ place < high ∧ entry place = offset := by
  fun_induction search boundaries offset low high with
  | case1 low high hlow middle hnone =>
      rw [hentry middle (by omega)] at hnone
      cases hnone
  | case2 low high hlow middle hfound =>
      rw [hentry middle (by omega)] at hfound
      have hmiddle : entry middle = offset := Option.some.inj hfound
      rw [Option.some_inj]
      constructor
      · rintro rfl
        exact ⟨by omega, by omega, hmiddle⟩
      · rintro ⟨_, hplace, hoffset⟩
        have hafter := hstrict middle place (by omega) (by omega)
        have hbefore := hstrict place middle (by omega) (by omega)
        omega
  | case3 low high hlow middle boundary hfound hne hless ih =>
      rw [hentry middle (by omega)] at hfound
      have hmiddle : entry middle = boundary := Option.some.inj hfound
      rw [ih hhigh]
      constructor
      · rintro ⟨hlower, hplace, hoffset⟩
        exact ⟨by omega, hplace, hoffset⟩
      · rintro ⟨_, hplace, hoffset⟩
        have hafter := hstrict middle place (by omega) (by omega)
        exact ⟨by omega, hplace, hoffset⟩
  | case4 low high hlow middle boundary hfound hne hless ih =>
      rw [hentry middle (by omega)] at hfound
      have hmiddle : entry middle = boundary := Option.some.inj hfound
      rw [ih (by omega)]
      constructor
      · rintro ⟨hlower, hplace, hoffset⟩
        exact ⟨hlower, by omega, hoffset⟩
      · rintro ⟨hlower, hplace, hoffset⟩
        have hbefore := hstrict place middle (by omega) (by omega)
        exact ⟨hlower, by omega, hoffset⟩
  | case5 low high hlow =>
      constructor
      · intro h
        cases h
      · rintro ⟨hlower, hplace, _⟩
        exact absurd (Nat.lt_of_le_of_lt hlower hplace) hlow

/-- The way to characters is the inverse of the way from characters. -/
theorem toCharacter_eq_ok_iff {offset place : Nat} :
    (ofText unit text).toCharacter offset = .ok place ↔
      place ≤ text.toList.length ∧ unit.measure (text.toList.take place) = offset := by
  have hsize : (ofText unit text).boundaries.size = text.toList.length + 1 := by
    rw [ofText, List.size_toArray, length_boundariesFrom]
  have hentry : ∀ i < (ofText unit text).boundaries.size,
      (ofText unit text).boundaries[i]? = some (unit.measure (text.toList.take i)) :=
    fun i hi => ofCharacter?_of_le (by omega)
  have hsearch : search (ofText unit text).boundaries offset 0 (ofText unit text).boundaries.size =
        some place ↔
      place ≤ text.toList.length ∧ unit.measure (text.toList.take place) = offset := by
    rw [search_eq_some_iff hentry
      (fun i j _ hj => OffsetUnit.measure_take_lt_iff (by omega)) (Nat.le_refl _), hsize]
    exact ⟨fun h => ⟨Nat.le_of_lt_succ h.2.1, h.2.2⟩,
      fun h => ⟨Nat.zero_le _, Nat.lt_succ_of_le h.1, h.2⟩⟩
  rw [← hsearch, toCharacter, encodedLength_ofText]
  split
  · rename_i hlong
    -- Past the end there is no boundary either.
    constructor
    · intro h
      cases h
    · intro h
      have hle := unit.measure_take_le text.toList place
      rw [(hsearch.1 h).2] at hle
      omega
  · cases search (ofText unit text).boundaries offset 0 (ofText unit text).boundaries.size with
    | none => simp
    | some found => simp

/-!
### Spans
-/

/-- A span is restated in characters exactly if its end fits into 64 bits and both ends are
boundaries. -/
theorem spanToCharacters_eq_ok_iff {span result : Span} :
    (ofText unit text).spanToCharacters span = .ok result ↔
      span.start + span.length ≤ maxOffset ∧
        ∃ first last, span.Covers unit text.toList first last ∧ result = ⟨first, last - first⟩ := by
  by_cases hmax : span.start + span.length ≤ maxOffset
  · rw [and_iff_right hmax]
    simp only [spanToCharacters, Span.stop?, if_pos hmax]
    constructor
    · intro h
      cases hfirst : (ofText unit text).toCharacter span.start with
      | error fault =>
          rw [hfirst] at h
          cases h
      | ok first =>
          cases hlast : (ofText unit text).toCharacter (span.start + span.length) with
          | error fault =>
              rw [hfirst, hlast] at h
              cases h
          | ok last =>
              rw [hfirst, hlast] at h
              cases h
              obtain ⟨hfirst, hstart⟩ := toCharacter_eq_ok_iff.1 hfirst
              obtain ⟨hlast, hstop⟩ := toCharacter_eq_ok_iff.1 hlast
              have hle : unit.measure (text.toList.take first) ≤
                  unit.measure (text.toList.take last) := by
                rw [hstart, hstop]
                exact Nat.le_add_right _ _
              have horder : first ≤ last := (OffsetUnit.measure_take_le_iff hfirst).1 hle
              refine ⟨first, last, ⟨horder, hlast, hstart, hstop⟩, ?_⟩
              exact Span.ofBounds_of_le horder
    · rintro ⟨first, last, hcovers, rfl⟩
      have hfirst := toCharacter_eq_ok_iff.2 ⟨hcovers.first_inside, hcovers.measure_first⟩
      have hlast := toCharacter_eq_ok_iff.2 ⟨hcovers.inside, hcovers.measure_last⟩
      rw [hfirst, hlast]
      exact congrArg Except.ok (Span.ofBounds_of_le hcovers.ordered)
  · simp only [spanToCharacters, Span.stop?, if_neg hmax]
    constructor
    · intro h
      cases h
    · rintro ⟨hle, _⟩
      exact absurd hle hmax

theorem spanOfCharacters?_of_fits {span : Span} (h : span.FitsIn text.toList.length) :
    (ofText unit text).spanOfCharacters? span =
      some (Span.ofBounds (unit.measure (text.toList.take span.start))
        (unit.measure (text.toList.take (span.start + span.length)))) := by
  obtain ⟨hmax, hstop⟩ := h
  have hstart : span.start ≤ text.toList.length :=
    Nat.le_trans (Nat.le_add_right _ _) hstop
  simp only [spanOfCharacters?, Span.stop?, if_pos hmax, ofCharacter?_of_le hstart,
    ofCharacter?_of_le hstop, Option.bind_eq_bind, Option.bind_some, Option.pure_def]

theorem spanOfCharacters?_of_not_fits {span : Span} (h : ¬ span.FitsIn text.toList.length) :
    (ofText unit text).spanOfCharacters? span = none := by
  unfold spanOfCharacters? Span.stop?
  cases (ofText unit text).ofCharacter? span.start with
  | none => rfl
  | some first =>
      by_cases hmax : span.start + span.length ≤ maxOffset
      · have hstop : ¬ span.start + span.length ≤ text.toList.length :=
          fun hstop => h ⟨hmax, hstop⟩
        simp only [if_pos hmax, ofCharacter?_ofText, if_neg hstop, Option.bind_eq_bind,
          Option.bind_some, Option.bind_none]
      · simp only [if_neg hmax, Option.bind_eq_bind, Option.bind_some, Option.bind_none]

end OffsetTable

end TextEditing
