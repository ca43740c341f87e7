/-
Module: TextEditing.Proofs.FaithfulBuffer
Purpose: Buffers that behave as a list of characters; strings, ropes and documents are such
  buffers.
Main exports: Span.FitsIn, FaithfulBuffer, the FaithfulBuffer instances of String, Rope and
  Document
-/
import TextEditing.Buffer.Document
import TextEditing.Buffer.Plain
import TextEditing.Proofs.Splicing

namespace TextEditing

/-!
The characters that a faithful buffer holds determine everything else about it: its length, its
slices, and, as long as it is writable, what a replacement answers and which text it leaves.
Nothing else is said about the representation, so what is proved of faithful buffers holds of
strings, ropes and documents alike.
-/

/-- The span has an end, and the end lies inside a text of the given length. -/
def Span.FitsIn (span : Span) (length : Nat) : Prop :=
  span.start + span.length ≤ maxOffset ∧ span.start + span.length ≤ length

instance (span : Span) (length : Nat) : Decidable (span.FitsIn length) :=
  inferInstanceAs (Decidable (_ ∧ _))

theorem Span.exists_stop_le_iff {span : Span} {length : Nat} :
    (∃ stop ∈ span.stop?, stop ≤ length) ↔ span.FitsIn length := by
  unfold Span.stop? Span.FitsIn
  split
  · simp [*]
  · simp [*]

theorem stopWithin_of_fits {start length bufferLength : Nat}
    (h : Span.FitsIn ⟨start, length⟩ bufferLength) :
    stopWithin start length bufferLength = .ok (start + length) := by
  obtain ⟨hmax, hle⟩ := h
  simp only [stopWithin, Span.stop?, if_pos hmax, if_pos hle]

theorem stopWithin_of_not_fits {start length bufferLength : Nat}
    (h : ¬ Span.FitsIn ⟨start, length⟩ bufferLength) :
    stopWithin start length bufferLength =
      .error (.outOfBounds start (Span.reach ⟨start, length⟩) bufferLength) := by
  by_cases hmax : start + length ≤ maxOffset
  · have hle : ¬ start + length ≤ bufferLength := fun hle => h ⟨hmax, hle⟩
    simp only [stopWithin, Span.reach, Span.stop?, if_pos hmax, if_neg hle, Option.getD_some]
  · simp only [stopWithin, Span.reach, Span.stop?, if_neg hmax, Option.getD_none]

/-- A buffer that behaves as the list of the characters it holds. -/
class FaithfulBuffer (β : Type) [TextBuffer β] where
  /-- The characters held. -/
  chars : β → List Char
  /-- Replacements are accepted. -/
  Writable : β → Prop
  length_eq (buffer : β) : TextBuffer.length buffer = (chars buffer).length
  /-- The whole text is given out as long as 64 bits count its characters. -/
  contents_eq (buffer : β) : (chars buffer).length ≤ maxOffset →
    TextBuffer.contents buffer = String.ofList (chars buffer)
  /-- A slice is the excerpt at its range, if the range fits. -/
  slice?_eq (buffer : β) (start length : Nat) :
    TextBuffer.slice? buffer start length =
      (stopWithin start length (chars buffer).length).toOption.map fun stop =>
        String.ofList (excerpt (chars buffer) start stop)
  /-- A replacement splices the new text in, or is refused because its range does not fit. -/
  replace_eq {buffer : β} (start length : Nat) (newText : String) : Writable buffer →
    (TextBuffer.replace buffer start length newText).map chars =
      (stopWithin start length (chars buffer).length).map fun stop =>
        splice (chars buffer) start stop newText.toList
  /-- A buffer that has accepted a replacement goes on accepting them. -/
  writable_of_replace {buffer changed : β} {start length : Nat} {newText : String} :
    TextBuffer.replace buffer start length newText = .ok changed → Writable changed
  /-- A guarded buffer refuses every replacement, whatever its range. -/
  replace_of_guarded {buffer : β} (start length : Nat) (newText : String) : ¬ Writable buffer →
    TextBuffer.replace buffer start length newText = .error .readOnly

namespace FaithfulBuffer

variable {β : Type} [TextBuffer β] [FaithfulBuffer β] {buffer : β} {span : Span}

theorem toList_contents (hbound : (chars buffer).length ≤ maxOffset) :
    (TextBuffer.contents buffer).toList = chars buffer := by
  rw [contents_eq buffer hbound, String.toList_ofList]

theorem slice?_of_fits (h : span.FitsIn (chars buffer).length) :
    TextBuffer.slice? buffer span.start span.length =
      some (String.ofList
        (excerpt (chars buffer) span.start (span.start + span.length))) := by
  rw [slice?_eq, stopWithin_of_fits h]
  rfl

theorem replace_of_fits (hwritable : Writable buffer) (newText : String)
    (h : span.FitsIn (chars buffer).length) :
    ∃ changed, TextBuffer.replace buffer span.start span.length newText = .ok changed ∧
      Writable changed ∧
      chars changed =
        splice (chars buffer) span.start (span.start + span.length) newText.toList := by
  have heq := replace_eq span.start span.length newText hwritable
  rw [stopWithin_of_fits h] at heq
  cases hreplace : TextBuffer.replace buffer span.start span.length newText with
  | error cause =>
      rw [hreplace] at heq
      cases heq
  | ok changed =>
      rw [hreplace] at heq
      exact ⟨changed, rfl, writable_of_replace hreplace, Except.ok.inj heq⟩

end FaithfulBuffer

/-!
### Strings

Walking over a string splits its text, and the two parts are the characters before and behind the
position.
-/

namespace Plain

theorem exists_advance? {text : String} {n : Nat} {position : text.Pos} {before after : String}
    (h : position.Splits before after) (hn : n ≤ after.toList.length) :
    ∃ further, advance? position n = some further ∧
      further.Splits (String.ofList (before.toList ++ after.toList.take n))
        (String.ofList (after.toList.drop n)) := by
  induction n generalizing position before after with
  | zero => exact ⟨position, rfl, by simpa using h⟩
  | succ n ih =>
      have hend : position ≠ text.endPos := by
        intro heq
        rw [h.eq_endPos_iff] at heq
        subst heq
        simp at hn
      obtain ⟨rest, rfl⟩ := h.exists_eq_singleton_append hend
      obtain ⟨further, hfurther, hsplits⟩ := ih h.next (by simpa using hn)
      refine ⟨further, ?_, ?_⟩
      · rw [advance?, dif_pos hend, hfurther]
      · simpa using hsplits

theorem advance?_eq_none {text : String} {n : Nat} {position : text.Pos} {before after : String}
    (h : position.Splits before after) (hn : after.toList.length < n) :
    advance? position n = none := by
  induction n generalizing position before after with
  | zero => simp at hn
  | succ n ih =>
      rw [advance?]
      split
      · rename_i hend
        obtain ⟨rest, rfl⟩ := h.exists_eq_singleton_append hend
        exact ih h.next (by simpa using hn)
      · rfl

theorem exists_position? {text : String} {offset : Nat} (h : offset ≤ text.toList.length) :
    ∃ position, position? text offset = some position ∧
      position.Splits (String.ofList (text.toList.take offset))
        (String.ofList (text.toList.drop offset)) := by
  simpa [position?] using exists_advance? text.splits_startPos h

theorem between?_of_le {text : String} {start stop : Nat} (horder : start ≤ stop)
    (h : stop ≤ text.toList.length) :
    between? text start stop = some (String.ofList (excerpt text.toList start stop)) := by
  obtain ⟨before, hbefore, hsplit₁⟩ := exists_position? (Nat.le_trans horder h)
  obtain ⟨after, hafter, hsplit₂⟩ := exists_position? h
  have hstop : String.ofList (text.toList.take stop) =
      String.ofList (text.toList.take start) ++
        String.ofList (excerpt text.toList start stop) := by
    rw [← String.ofList_append, ← excerpt_zero, ← excerpt_zero,
      excerpt_append_excerpt (Nat.zero_le start) horder]
  have hstart : String.ofList (text.toList.drop start) =
      String.ofList (excerpt text.toList start stop) ++
        String.ofList (text.toList.drop stop) := by
    rw [← String.ofList_append, excerpt_append_drop horder]
  obtain ⟨hle, hcopy⟩ : ∃ hle, (text.slice before after hle).copy =
      String.ofList (excerpt text.toList start stop) :=
    String.copy_slice_eq_iff_splits.2 ⟨_, _, hstart ▸ hsplit₁, hstop ▸ hsplit₂⟩
  simp only [between?, hbefore, hafter, Option.bind_eq_bind, Option.bind_some, dif_pos hle, hcopy,
    Option.pure_def]

theorem between?_eq_none {text : String} {start stop : Nat} (h : text.toList.length < stop) :
    between? text start stop = none := by
  have hafter : position? text stop = none := advance?_eq_none text.splits_startPos h
  cases hbefore : position? text start with
  | none => simp only [between?, hbefore, Option.bind_eq_bind, Option.bind_none]
  | some before =>
      simp only [between?, hbefore, hafter, Option.bind_eq_bind, Option.bind_some,
        Option.bind_none]

theorem spliced?_of_le {text : String} {start stop : Nat} (horder : start ≤ stop)
    (h : stop ≤ text.toList.length) (newText : String) :
    spliced? text start stop newText =
      some (String.ofList (splice text.toList start stop newText.toList)) := by
  obtain ⟨before, hbefore, hsplit₁⟩ := exists_position? (Nat.le_trans horder h)
  obtain ⟨after, hafter, hsplit₂⟩ := exists_position? h
  simp only [spliced?, hbefore, hafter, Option.bind_some, Option.bind_eq_bind,
    hsplit₁.copy_sliceTo_eq, hsplit₂.copy_sliceFrom_eq, splice, String.ofList_append,
    String.ofList_toList, Option.pure_def]

theorem slice?_eq (text : String) (start length : Nat) :
    TextBuffer.slice? text start length =
      (stopWithin start length text.toList.length).toOption.map fun stop =>
        String.ofList (excerpt text.toList start stop) := by
  by_cases hfits : Span.FitsIn ⟨start, length⟩ text.toList.length
  · rw [stopWithin_of_fits hfits]
    simp only [TextBuffer.slice?, Span.stop?, if_pos hfits.1, Option.bind_eq_bind,
      Option.bind_some]
    exact between?_of_le (Nat.le_add_right start length) hfits.2
  · rw [stopWithin_of_not_fits hfits]
    by_cases hmax : start + length ≤ maxOffset
    · have hlong : text.toList.length < start + length :=
        Nat.lt_of_not_le fun hle => hfits ⟨hmax, hle⟩
      simp only [TextBuffer.slice?, Span.stop?, if_pos hmax, Option.bind_eq_bind,
        Option.bind_some]
      exact between?_eq_none hlong
    · simp only [TextBuffer.slice?, Span.stop?, if_neg hmax, Option.bind_eq_bind,
        Option.bind_none]
      rfl

theorem replace_eq (text : String) (start length : Nat) (newText : String) :
    (TextBuffer.replace text start length newText).map String.toList =
      (stopWithin start length text.toList.length).map fun stop =>
        splice text.toList start stop newText.toList := by
  rw [String.length_toList]
  by_cases hfits : Span.FitsIn ⟨start, length⟩ text.length
  · have hspliced : spliced? text start (start + length) newText = _ :=
      spliced?_of_le (Nat.le_add_right start length) (String.length_toList ▸ hfits.2) newText
    simp only [TextBuffer.replace, stopWithin_of_fits hfits, bind, Except.bind, hspliced,
      Except.map, String.toList_ofList]
  · simp only [TextBuffer.replace, stopWithin_of_not_fits hfits, bind, Except.bind, Except.map]

end Plain

instance : FaithfulBuffer String where
  chars text := text.toList
  Writable _ := True
  length_eq _ := String.length_toList.symm
  contents_eq _ _ := String.ofList_toList.symm
  slice?_eq := Plain.slice?_eq
  replace_eq start length newText _ := Plain.replace_eq _ start length newText
  writable_of_replace _ := trivial
  replace_of_guarded _ _ _ h := absurd trivial h

/-!
### Ropes and documents
-/

namespace Rope

theorem slice?_eq (rope : Rope) (start length : Nat) :
    TextBuffer.slice? rope start length =
      (stopWithin start length rope.toString.toList.length).toOption.map fun stop =>
        String.ofList (excerpt rope.toString.toList start stop) := by
  rw [String.length_toList, ← length_eq]
  by_cases hfits : Span.FitsIn ⟨start, length⟩ rope.length
  · rw [stopWithin_of_fits hfits]
    have htext : ((rope.drop start).take length).toString =
        String.ofList (excerpt rope.toString.toList start (start + length)) := by
      rw [← String.ofList_toList (s := ((rope.drop start).take length).toString), toList_take,
        toList_drop, excerpt, Nat.add_sub_cancel_left]
    simp only [TextBuffer.slice?, Span.stop?, if_pos hfits.1, Option.bind_eq_bind,
      Option.bind_some, if_pos hfits.2, htext]
    rfl
  · rw [stopWithin_of_not_fits hfits]
    by_cases hmax : start + length ≤ maxOffset
    · have hle : ¬ start + length ≤ rope.length := fun hle => hfits ⟨hmax, hle⟩
      simp only [TextBuffer.slice?, Span.stop?, if_pos hmax, Option.bind_eq_bind,
        Option.bind_some, if_neg hle]
      rfl
    · simp only [TextBuffer.slice?, Span.stop?, if_neg hmax, Option.bind_eq_bind,
        Option.bind_none]
      rfl

@[simp] theorem toList_remove (rope : Rope) (start stop : Nat) :
    (rope.remove start stop).toString.toList =
      rope.toString.toList.take start ++ rope.toString.toList.drop stop := by
  simp [remove]

@[simp] theorem toList_insert (rope : Rope) (offset : Nat) (newText : String) :
    (rope.insert offset newText).toString.toList =
      splice rope.toString.toList offset offset newText.toList := by
  simp [insert, splice]

theorem replace_eq (rope : Rope) (start length : Nat) (newText : String) :
    (TextBuffer.replace rope start length newText).map (fun rope => rope.toString.toList) =
      (stopWithin start length rope.toString.toList.length).map fun stop =>
        splice rope.toString.toList start stop newText.toList := by
  rw [String.length_toList, ← length_eq]
  by_cases hfits : Span.FitsIn ⟨start, length⟩ rope.length
  · have hstop : start + length ≤ rope.toString.toList.length := by
      rw [String.length_toList, ← length_eq]
      exact hfits.2
    -- Without characters to remove the rope stays as it is, which is removing none of them.
    have hshort : (if 0 < length then rope.remove start (start + length)
        else rope).toString.toList =
        rope.toString.toList.take start ++ rope.toString.toList.drop (start + length) := by
      split
      · exact toList_remove rope start (start + length)
      · have hzero : length = 0 := by omega
        rw [hzero, Nat.add_zero, List.take_append_drop]
    simp only [TextBuffer.replace, stopWithin_of_fits hfits, bind, Except.bind, pure, Except.pure,
      Except.map]
    congr 1
    split
    · rename_i hempty
      rw [hshort, String.isEmpty_iff.1 hempty]
      simp [splice]
    · have hlen : (rope.toString.toList.take start).length = start :=
        List.length_take_of_le (Nat.le_trans (Nat.le_add_right start length) hstop)
      rw [toList_insert, hshort, splice, splice, List.take_left' hlen, List.drop_left' hlen]
  · simp only [TextBuffer.replace, stopWithin_of_not_fits hfits, bind, Except.bind, Except.map]

end Rope

instance : FaithfulBuffer Rope where
  chars rope := rope.toString.toList
  Writable _ := True
  length_eq rope := (Rope.length_eq rope).trans String.length_toList.symm
  contents_eq rope h := by
    have hlength : TextBuffer.length rope = rope.toString.toList.length :=
      (Rope.length_eq rope).trans String.length_toList.symm
    have hfits : Span.FitsIn ⟨0, rope.toString.toList.length⟩ rope.toString.toList.length :=
      ⟨Nat.le_trans (Nat.le_of_eq (Nat.zero_add _)) h, Nat.le_of_eq (Nat.zero_add _)⟩
    have hslice := Rope.slice?_eq rope 0 rope.toString.toList.length
    rw [stopWithin_of_fits hfits, Nat.zero_add, Except.toOption, Option.map_some] at hslice
    change (TextBuffer.slice? rope 0 (TextBuffer.length rope)).getD "" = _
    rw [hlength, hslice, excerpt_zero, List.take_length]
    rfl
  slice?_eq := Rope.slice?_eq
  replace_eq start length newText _ := Rope.replace_eq _ start length newText
  writable_of_replace _ := trivial
  replace_of_guarded _ _ _ h := absurd trivial h

namespace Document

variable {document : Document} {start length : Nat} {newText : String}

theorem replace_of_open (h : document.readOnly = false) :
    TextBuffer.replace document start length newText =
      (TextBuffer.replace document.rope start length newText).map document.stamp :=
  if_neg (Bool.eq_false_iff.1 h)

theorem replace_of_readOnly (h : document.readOnly = true) :
    TextBuffer.replace document start length newText = .error .readOnly :=
  if_pos h

end Document

instance : FaithfulBuffer Document where
  chars document := document.text.toList
  Writable document := document.readOnly = false
  length_eq document := (Rope.length_eq document.rope).trans String.length_toList.symm
  contents_eq document _ := String.ofList_toList.symm
  slice?_eq document := Rope.slice?_eq document.rope
  replace_eq {document} start length newText hopen := by
    refine Eq.trans ?_ (Rope.replace_eq document.rope start length newText)
    rw [Document.replace_of_open hopen]
    cases TextBuffer.replace document.rope start length newText <;> rfl
  writable_of_replace {document changed start length newText} h := by
    cases hguard : document.readOnly with
    | true =>
        rw [Document.replace_of_readOnly hguard] at h
        cases h
    | false =>
        rw [Document.replace_of_open hguard] at h
        cases hrope : TextBuffer.replace document.rope start length newText with
        | error cause =>
            rw [hrope] at h
            cases h
        | ok rope =>
            rw [hrope] at h
            cases h
            exact hguard
  replace_of_guarded start length newText h :=
    Document.replace_of_readOnly (Bool.not_eq_false _ ▸ h)

end TextEditing
