/-
Module: TextEditing.Proofs.Correspondence
Purpose: The offset table of a text matches places among its characters and offsets in its encoding
  one to one.
Main exports: OffsetTable.toCharacter_eq_ok_iff_ofCharacter?, OffsetTable.exists_toCharacter_iff,
  OffsetTable.toCharacter_eq_outOfRange_iff, OffsetTable.toCharacter_eq_misaligned_iff,
  OffsetTable.spanToCharacters_eq_ok_iff_spanOfCharacters?, OffsetTable.Corresponds,
  OffsetTable.corresponds_ofText
-/
import TextEditing.Proofs.Boundaries
import TextEditing.Text.Encoded

namespace TextEditing

/-!
Places and boundaries are in the same order, so each of the two ways through the table undoes the
other one, and so do the two ways for spans: the ends of a span stay in their order.  An offset that
has no place lies past the end of the text or inside a character.
-/

/-- The measure of the characters of a text is its length. -/
theorem OffsetUnit.measure_toList (unit : OffsetUnit) (text : String) :
    unit.measure text.toList = unit.textLength text := by
  cases unit with
  | character => rw [measure_character, String.length_toList, textLength]
  | utf16 => rw [← length_encode, textLength]
  | utf8 => rw [measure_utf8, String.ofList_toList, textLength]

namespace OffsetTable

variable {unit : OffsetUnit} {text : String} {offset place : Nat} {span result : Span}

theorem ofCharacter?_eq_some_iff :
    (ofText unit text).ofCharacter? place = some offset ↔
      place ≤ text.toList.length ∧ unit.measure (text.toList.take place) = offset := by
  rw [ofCharacter?_ofText, Option.ite_none_right_eq_some, Option.some_inj]

/-- The two ways through the table undo each other. -/
theorem toCharacter_eq_ok_iff_ofCharacter? :
    (ofText unit text).toCharacter offset = .ok place ↔
      (ofText unit text).ofCharacter? place = some offset :=
  toCharacter_eq_ok_iff.trans ofCharacter?_eq_some_iff.symm

/-- The boundaries of the text are the offsets that have a place. -/
theorem exists_toCharacter_iff :
    (∃ place, (ofText unit text).toCharacter offset = .ok place) ↔
      unit.Boundary text.toList offset :=
  exists_congr fun _ => toCharacter_eq_ok_iff

theorem toCharacter_eq_outOfRange_iff {table : OffsetTable} :
    table.toCharacter offset = .error .outOfRange ↔ table.encodedLength < offset := by
  unfold toCharacter
  split
  · rename_i hlt
    exact iff_of_true rfl hlt
  · rename_i hle
    refine iff_of_false ?_ hle
    split <;> simp

theorem toCharacter_eq_misaligned_iff :
    (ofText unit text).toCharacter offset = .error .misaligned ↔
      offset ≤ unit.measure text.toList ∧ ¬ unit.Boundary text.toList offset := by
  have hlong : (ofText unit text).toCharacter offset = .error .outOfRange ↔
      unit.measure text.toList < offset := by
    rw [← encodedLength_ofText]
    exact toCharacter_eq_outOfRange_iff
  rw [← exists_toCharacter_iff, ← Nat.not_lt, ← hlong]
  cases (ofText unit text).toCharacter offset with
  | ok place => simp
  | error fault => cases fault <;> simp

/-- Places and their offsets are in the same order. -/
theorem lt_iff_of_ofCharacter? {offset' place' : Nat}
    (h : (ofText unit text).ofCharacter? place = some offset)
    (h' : (ofText unit text).ofCharacter? place' = some offset') :
    place < place' ↔ offset < offset' := by
  obtain ⟨_, rfl⟩ := ofCharacter?_eq_some_iff.1 h
  obtain ⟨hplace', rfl⟩ := ofCharacter?_eq_some_iff.1 h'
  exact (OffsetUnit.measure_take_lt_iff hplace').symm

/-- A span in characters comes from the span in the unit that covers it. -/
theorem spanOfCharacters?_eq_some_iff :
    (ofText unit text).spanOfCharacters? result = some span ↔
      result.FitsIn text.toList.length ∧
        span.Covers unit text.toList result.start (result.start + result.length) := by
  by_cases hfits : result.FitsIn text.toList.length
  · have hle : unit.measure (text.toList.take result.start) ≤
        unit.measure (text.toList.take (result.start + result.length)) :=
      OffsetUnit.measure_take_mono (Nat.le_add_right _ _)
    rw [spanOfCharacters?_of_fits hfits, Span.ofBounds_of_le hle, Option.some_inj,
      and_iff_right hfits]
    constructor
    · rintro rfl
      exact ⟨Nat.le_add_right _ _, hfits.2, rfl, (Nat.add_sub_cancel' hle).symm⟩
    · intro hcovers
      obtain ⟨start, length⟩ := span
      rw [hcovers.measure_first, hcovers.measure_last, Nat.add_sub_cancel_left]
  · rw [spanOfCharacters?_of_not_fits hfits]
    exact iff_of_false nofun fun h => hfits h.1

/-- The two ways for spans undo each other, as long as 64 bits count the bytes of the text. -/
theorem spanToCharacters_eq_ok_iff_spanOfCharacters? (hbound : text.utf8ByteSize ≤ maxOffset) :
    (ofText unit text).spanToCharacters span = .ok result ↔
      (ofText unit text).spanOfCharacters? result = some span := by
  rw [spanToCharacters_eq_ok_iff, spanOfCharacters?_eq_some_iff]
  constructor
  · rintro ⟨hmax, first, last, hcovers, rfl⟩
    have hend : first + (last - first) = last := Nat.add_sub_cancel' hcovers.ordered
    simp only [Span.FitsIn, hend]
    exact ⟨⟨Nat.le_trans hcovers.last_le hmax, hcovers.inside⟩, hcovers⟩
  · rintro ⟨_, hcovers⟩
    refine ⟨?_, _, _, hcovers, ?_⟩
    · calc span.start + span.length
          = unit.measure (text.toList.take (result.start + result.length)) :=
            hcovers.measure_last.symm
        _ ≤ unit.measure text.toList := unit.measure_take_le _ _
        _ ≤ text.utf8ByteSize := unit.measure_le_utf8ByteSize text
        _ ≤ maxOffset := hbound
    · rw [Nat.add_sub_cancel_left]

/-- The table matches the places of the text and the boundaries in its encoding one to one. -/
structure Corresponds (table : OffsetTable) (text : String) : Prop where
  length : table.encodedLength = table.unit.textLength text
  /-- A place has the length of the encoded characters in front of it. -/
  ofCharacter : ∀ place offset, table.ofCharacter? place = some offset ↔
    place ≤ text.length ∧ offset = (table.unit.encode (text.toList.take place)).length
  toCharacter : ∀ offset place,
    table.toCharacter offset = .ok place ↔ table.ofCharacter? place = some offset
  outOfRange : ∀ offset,
    table.toCharacter offset = .error .outOfRange ↔ table.encodedLength < offset
  /-- Inside the text, what is not the length of whole characters has no place. -/
  misaligned : ∀ offset, table.toCharacter offset = .error .misaligned ↔
    offset ≤ table.encodedLength ∧
      ∀ front, front <+: text.toList → (table.unit.encode front).length ≠ offset
  ofCharacter_increasing : ∀ place place' offset offset', table.ofCharacter? place = some offset →
    table.ofCharacter? place' = some offset' → place < place' → offset < offset'
  toCharacter_increasing : ∀ offset offset' place place', table.toCharacter offset = .ok place →
    table.toCharacter offset' = .ok place' → offset < offset' → place < place'
  /-- Spans whose end does not fit into 64 bits have no counterpart either way. -/
  spans : text.utf8ByteSize ≤ maxOffset → ∀ span result,
    table.spanToCharacters span = .ok result ↔ table.spanOfCharacters? result = some span

/-- The boundaries of a text in its encoding are the lengths of the texts that it begins with. -/
theorem boundary_iff_exists_prefix :
    unit.Boundary text.toList offset ↔
      ∃ front, front <+: text.toList ∧ (unit.encode front).length = offset := by
  constructor
  · rintro ⟨place, _, hplace⟩
    exact ⟨_, List.take_prefix place _, (OffsetUnit.length_encode unit _).trans hplace⟩
  · rintro ⟨front, hfront, hlength⟩
    rw [OffsetUnit.length_encode] at hlength
    refine ⟨front.length, hfront.length_le, ?_⟩
    rw [List.prefix_iff_eq_take.1 hfront] at hlength
    exact hlength

theorem corresponds_ofText (unit : OffsetUnit) (text : String) :
    (ofText unit text).Corresponds text where
  length := (encodedLength_ofText unit text).trans (unit.measure_toList text)
  ofCharacter place offset := by
    rw [ofCharacter?_eq_some_iff, ← String.length_toList, OffsetUnit.length_encode,
      eq_comm (a := offset)]
    rfl
  toCharacter _ _ := toCharacter_eq_ok_iff_ofCharacter?
  outOfRange _ := toCharacter_eq_outOfRange_iff
  misaligned offset := by
    rw [toCharacter_eq_misaligned_iff, boundary_iff_exists_prefix, encodedLength_ofText]
    simp only [not_exists, not_and, ne_eq]
    rfl
  ofCharacter_increasing _ _ _ _ hplace hplace' := (lt_iff_of_ofCharacter? hplace hplace').1
  toCharacter_increasing _ _ _ _ hoffset hoffset' :=
    (lt_iff_of_ofCharacter? (toCharacter_eq_ok_iff_ofCharacter?.1 hoffset)
      (toCharacter_eq_ok_iff_ofCharacter?.1 hoffset')).2
  spans hbound _ _ := spanToCharacters_eq_ok_iff_spanOfCharacters? hbound

theorem corresponds_ofText_around_surrogates :
    (ofText .utf16 "a👋b").encodedLength = 4 ∧ (ofText .utf16 "a👋b").toCharacter 3 = .ok 2 ∧
      (ofText .utf16 "a👋b").toCharacter 2 = .error .misaligned ∧
      (ofText .utf16 "a👋b").spanToCharacters ⟨1, 3⟩ = .ok ⟨1, 2⟩ ∧
      ∀ result, (ofText .utf16 "a👋b").spanOfCharacters? result ≠ some ⟨3, maxOffset⟩ := by
  have hmatch := corresponds_ofText .utf16 "a👋b"
  have hbound : "a👋b".utf8ByteSize ≤ maxOffset := by decide
  refine ⟨hmatch.length, (hmatch.toCharacter 3 2).2 rfl, by cbv,
    (hmatch.spans hbound ⟨1, 3⟩ ⟨1, 2⟩).2 rfl, fun result hresult => ?_⟩
  have hspan := (hmatch.spans hbound _ result).2 hresult
  cases hspan

end OffsetTable

end TextEditing
