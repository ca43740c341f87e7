/-
Module: TextEditing.Proofs.EncodedSubstitution
Purpose: A batch counted in code units patches the encoded text as it patches the text.
Main exports: OffsetUnit.encode_excerpt, Patch.encoded, encode_substituteFrom, Change.unitPatch,
  ApplyOptions.exists_aligned_of_ok, ApplyOptions.applyInPlace_of_aligned,
  ApplyOptions.apply_eq_encoded_substitution
-/
import TextEditing.Proofs.Restatement
import TextEditing.Text.Encoded

namespace TextEditing

open FaithfulBuffer (chars Writable toList_contents)

/-!
Encoding turns the excerpt between two places into the excerpt between their offsets, so a
substitution in the text becomes the substitution of the encoded new texts in the encoded text.
A batch counted in units is such a substitution with its own spans: restated in characters, its
spans are the places, and the offsets of these are the spans again.
-/

namespace OffsetUnit

variable {unit : OffsetUnit} {text : List Char}

theorem encode_take_drop (unit : OffsetUnit) (text : List Char) (place : Nat) :
    unit.encode text = unit.encode (text.take place) ++ unit.encode (text.drop place) := by
  rw [← encode_append, List.take_append_drop]

theorem encode_drop (unit : OffsetUnit) (text : List Char) (place : Nat) :
    unit.encode (text.drop place) =
      (unit.encode text).drop (unit.measure (text.take place)) := by
  rw [unit.encode_take_drop text place, List.drop_left' (unit.length_encode _)]

/-- The code units between two places are the units between their offsets. -/
theorem encode_excerpt {first last : Nat} (h : first ≤ last) :
    unit.encode (excerpt text first last) =
      excerpt (unit.encode text) (unit.measure (text.take first))
        (unit.measure (text.take last)) := by
  have hdrop : (unit.encode text).drop (unit.measure (text.take first)) =
      unit.encode (excerpt text first last) ++ unit.encode (text.drop last) := by
    rw [← encode_drop, ← encode_append, excerpt_append_drop h]
  have hexcerpt := (excerpt_of_drop hdrop).1
  rw [length_encode, ← measure_take_add h] at hexcerpt
  exact hexcerpt.symm

end OffsetUnit

/-- The patch of the encoded text that corresponds to a patch of the text. -/
def Patch.encoded (unit : OffsetUnit) (text : List Char) (patch : Patch Char) : Patch Nat where
  start := unit.measure (text.take patch.start)
  stop := unit.measure (text.take patch.stop)
  put := unit.encode patch.put

/-- Patching and encoding may change places. -/
theorem encode_substituteFrom (unit : OffsetUnit) {text : List Char} {position : Nat}
    {patches : List (Patch Char)}
    (h : Range.Chain position text.length (patches.map Patch.toRange)) :
    unit.encode (substituteFrom text position patches) =
      substituteFrom (unit.encode text) (unit.measure (text.take position))
        (patches.map (Patch.encoded unit text)) := by
  induction patches generalizing position with
  | nil => exact unit.encode_drop text position
  | cons patch rest ih =>
      obtain ⟨hposition, _, hrest⟩ := h
      simp only [List.map_cons, substituteFrom, OffsetUnit.encode_append,
        OffsetUnit.encode_excerpt hposition, ih hrest, Patch.encoded]

/-- The change as a patch of the encoded text, at the span that it names itself. -/
def Change.unitPatch (unit : OffsetUnit) (change : Change) : Patch Nat where
  start := change.span.start
  stop := change.span.start + change.span.length
  put := unit.encode change.newText.toList

/-- Restated in characters and taken back to units, an aligned span is itself. -/
theorem Change.encoded_patch_restate {unit : OffsetUnit} {text : String} {change : Change}
    (h : change.span.AlignedIn unit text.toList) :
    (change.restate unit text).patch.encoded unit text.toList = change.unitPatch unit := by
  obtain ⟨first, last, hcovers⟩ := h.exists_covers
  rw [restate_of_covers h.fits.1 hcovers]
  simp only [Patch.encoded, Change.patch, Change.replace, Change.unitPatch,
    Nat.add_sub_cancel' hcovers.ordered, hcovers.measure_first, hcovers.measure_last]

namespace ApplyOptions

variable {β : Type} [TextBuffer β] [FaithfulBuffer β] {buffer : β} {edits : Batch}
  {unit : OffsetUnit} {delta : Delta}

/-- What has succeeded without conflicts was aligned, and compatible as it was given. -/
theorem exists_aligned_of_ok (hbound : (chars buffer).length ≤ maxOffset)
    (h : (applyInPlace ⟨.reject, unit⟩ buffer edits).result = .ok delta) :
    (∀ change ∈ edits, change.span.AlignedIn unit (chars buffer)) ∧ edits.Compatible := by
  obtain ⟨resolved, hresolve, hcompatible, hfits⟩ := exists_resolved_of_ok h
  obtain ⟨hunit, hresolved⟩ := Batch.toCharacters_eq_ok_iff.1 (resolve_eq_ok_iff.1 hresolve).1
  have haligned : ∀ change ∈ edits, change.span.AlignedIn unit (chars buffer) := by
    rcases hunit with hcharacter | haligned
    · subst hcharacter
      intro change hchange
      rw [Span.alignedIn_character_iff]
      apply hfits change
      rw [hresolved]
      exact List.mem_map.2 ⟨change, hchange, Change.restate_character _ change⟩
    · exact toList_contents hbound ▸ haligned
  refine ⟨haligned, ?_⟩
  rw [← toList_contents hbound] at haligned
  exact (Batch.compatible_restate_iff haligned).1 (hresolved ▸ hcompatible)

/-- Aligned and compatible changes are carried out, and in units the result is their simultaneous
substitution. -/
theorem applyInPlace_of_aligned (hwritable : Writable buffer)
    (hbound : (chars buffer).length ≤ maxOffset)
    (haligned : ∀ change ∈ edits, change.span.AlignedIn unit (chars buffer))
    (hcompatible : edits.Compatible) :
    ∃ changed delta, applyInPlace ⟨.reject, unit⟩ buffer edits = ⟨changed, .ok delta⟩ ∧
      unit.encode (chars changed) =
        substitute (unit.encode (chars buffer))
          (edits.scanOrder.map fun edit => edit.change.unitPatch unit) := by
  have htext : (TextBuffer.contents buffer).toList = chars buffer := toList_contents hbound
  have hchars := Batch.toCharacters_eq_ok_iff.2 ⟨Or.inr (htext ▸ haligned), rfl⟩
  have hready := (Batch.compatible_restate_iff (htext ▸ haligned)).2 hcompatible
  have hfits := Batch.fits_restate (htext ▸ haligned)
  rw [htext] at hfits
  have hresolve : resolve ⟨.reject, unit⟩ buffer edits = .ok _ := resolve_eq_ok_iff.2
    ⟨hchars, fun _ => (Batch.conflict?_eq_none_iff _).2 hready⟩
  obtain ⟨changed, hplace, _, hchanged⟩ := applyInPlace_of_fits hwritable hresolve hready hfits
  refine ⟨changed, _, hplace, ?_⟩
  have hchain := Batch.chain_of_compatible hready hfits
  calc unit.encode (chars changed)
      = substitute (unit.encode (chars buffer))
          (((Batch.scanOrder _).map Numbered.patch).map (Patch.encoded unit (chars buffer))) := by
        rw [hchanged, substitute, encode_substituteFrom unit hchain]
        rfl
    _ = substitute (unit.encode (chars buffer))
          (edits.scanOrder.map fun edit => edit.change.unitPatch unit) := by
        rw [Batch.scanOrder_restate hchars, List.map_map, List.map_map]
        congr 1
        apply List.map_congr_left
        intro edit hedit
        have hspan := haligned _ (Batch.numbered_change_mem (Batch.mem_scanOrder.1 hedit))
        rw [← htext] at hspan ⊢
        exact Change.encoded_patch_restate hspan

/-- Under the rejection of overlaps, a batch counted in a unit is applied to a writable buffer
exactly if every span is aligned in the text and the batch, as it is given in units, has no conflict.
The code units of the result are then the simultaneous substitution, in the order of start and
position, of the code units of the new texts in those of the text. -/
theorem apply_eq_encoded_substitution (unit : OffsetUnit) (buffer : β) (edits : Batch)
    (hwritable : Writable buffer) (hbound : (chars buffer).length ≤ maxOffset) :
    ((apply ⟨.reject, unit⟩ buffer edits).Succeeds ↔
        (∀ change ∈ edits, change.span.AlignedIn unit (chars buffer)) ∧
          edits.rejectConflict = .ok ()) ∧
      ((applyInPlace ⟨.reject, unit⟩ buffer edits).Succeeds ↔
        (∀ change ∈ edits, change.span.AlignedIn unit (chars buffer)) ∧
          edits.rejectConflict = .ok ()) ∧
      ∃ ascending, edits.Ascending ascending ∧
        ((apply ⟨.reject, unit⟩ buffer edits).Succeeds →
          unit.encode (chars (apply ⟨.reject, unit⟩ buffer edits).buffer) =
            substitute (unit.encode (chars buffer))
              (ascending.map fun edit => edit.change.unitPatch unit)) ∧
        ((applyInPlace ⟨.reject, unit⟩ buffer edits).Succeeds →
          unit.encode (chars (applyInPlace ⟨.reject, unit⟩ buffer edits).buffer) =
            substitute (unit.encode (chars buffer))
              (ascending.map fun edit => edit.change.unitPatch unit)) := by
  have hverdict : edits.rejectConflict = .ok () ↔ edits.Compatible :=
    Batch.rejectConflict_eq_ok_iff.trans (Batch.conflict?_eq_none_iff edits)
  have hiff : (applyInPlace ⟨.reject, unit⟩ buffer edits).Succeeds ↔
      (∀ change ∈ edits, change.span.AlignedIn unit (chars buffer)) ∧
        edits.rejectConflict = .ok () := by
    rw [hverdict]
    constructor
    · intro hsucceeds
      obtain ⟨delta, hok⟩ := hsucceeds
      exact exists_aligned_of_ok hbound hok
    · intro h
      obtain ⟨changed, delta, hplace, _⟩ := applyInPlace_of_aligned hwritable hbound h.1 h.2
      exact ⟨delta, by rw [hplace]⟩
  have htext : (applyInPlace ⟨.reject, unit⟩ buffer edits).Succeeds →
      unit.encode (chars (applyInPlace ⟨.reject, unit⟩ buffer edits).buffer) =
        substitute (unit.encode (chars buffer))
          (edits.scanOrder.map fun edit => edit.change.unitPatch unit) := by
    intro hsucceeds
    obtain ⟨haligned, hnone⟩ := hiff.1 hsucceeds
    obtain ⟨changed, delta, hplace, hunits⟩ :=
      applyInPlace_of_aligned hwritable hbound haligned (hverdict.1 hnone)
    rw [hplace]
    exact hunits
  refine ⟨apply_succeeds_iff.trans hiff, hiff, edits.scanOrder,
    Batch.ascending_scanOrder edits, ?_, htext⟩
  intro hsucceeds
  obtain ⟨delta, hok⟩ := apply_succeeds_iff.1 hsucceeds
  rw [apply_eq, hok]
  exact htext ⟨delta, hok⟩

/-- Characters of one and two units change places, next to an insertion and a deletion. -/
theorem apply_eq_encoded_substitution_of_surrogates :
    Writable (Document.ofString "é😀bc") ∧
      (chars (Document.ofString "é😀bc")).length ≤ maxOffset ∧
      (apply ⟨.reject, .utf16⟩ (Document.ofString "é😀bc")
        [.delete 3 1, .insert 1 "x", .replace 1 2 "𝄞é", .insert 5 "!"]).Succeeds ∧
      OffsetUnit.utf16.encode (chars (apply ⟨.reject, .utf16⟩ (Document.ofString "é😀bc")
        [.delete 3 1, .insert 1 "x", .replace 1 2 "𝄞é", .insert 5 "!"]).buffer) =
          [0xE9, 0x78, 0xD834, 0xDD1E, 0xE9, 0x63, 0x21] := by
  have hbound : (chars (Document.ofString "é😀bc")).length ≤ maxOffset := by decide
  obtain ⟨hiff, _, ascending, hascending, hunits, _⟩ :=
    apply_eq_encoded_substitution .utf16 (Document.ofString "é😀bc")
      [.delete 3 1, .insert 1 "x", .replace 1 2 "𝄞é", .insert 5 "!"] rfl hbound
  have hnone : Batch.rejectConflict
      [.delete 3 1, .insert 1 "x", .replace 1 2 "𝄞é", .insert 5 "!"] = .ok () := by cbv
  have hlisted : Batch.Ascending
      [.delete 3 1, .insert 1 "x", .replace 1 2 "𝄞é", .insert 5 "!"]
      [⟨1, .insert 1 "x"⟩, ⟨2, .replace 1 2 "𝄞é"⟩, ⟨0, .delete 3 1⟩, ⟨3, .insert 5 "!"⟩] :=
    ⟨by decide, by decide⟩
  have hsucceeds := hiff.2 ⟨by decide, hnone⟩
  refine ⟨rfl, hbound, hsucceeds, ?_⟩
  rw [hunits hsucceeds, hascending.eq hlisted]
  decide

end ApplyOptions

end TextEditing
