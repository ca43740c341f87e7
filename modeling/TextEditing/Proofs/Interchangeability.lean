/-
Module: TextEditing.Proofs.Interchangeability
Purpose: Strings, ropes and writable documents answer every sequence of operations alike.
Main exports: the FaithfulBuffer instance of List Char, Operation.perform_chars, Operation.Moment,
  Operation.trace, Operation.trace_chars, Operation.interchangeable
-/
import TextEditing.Edit.Operation
import TextEditing.Proofs.EntryPoints
import TextEditing.Text.Encoded

namespace TextEditing

open FaithfulBuffer (chars Writable)

/-!
A list of characters is the plainest buffer there is: a slice is an excerpt of it, and a replacement
is a splice.  Taking the characters of a writable buffer commutes with every operation on it, so the
buffer answers as the list of its characters does and goes on to hold what the list goes on to be.
Two buffers that hold the same text therefore cannot be told apart by any sequence of operations.
-/

instance : TextBuffer (List Char) where
  length := List.length
  slice? text start length :=
    (stopWithin start length text.length).toOption.map fun stop =>
      String.ofList (excerpt text start stop)
  replace text start length newText :=
    (stopWithin start length text.length).map fun stop => splice text start stop newText.toList
  contents := String.ofList

instance : FaithfulBuffer (List Char) where
  chars text := text
  Writable _ := True
  length_eq _ := rfl
  contents_eq _ _ := rfl
  slice?_eq _ _ _ := rfl
  replace_eq {text} start length _ _ := by
    change (Except.map _ _).map id = _
    cases stopWithin start length text.length <;> rfl
  writable_of_replace _ := trivial
  replace_of_guarded _ _ _ h := absurd trivial h

variable {β : Type} [TextBuffer β] [FaithfulBuffer β] {buffer : β}

theorem FaithfulBuffer.length_chars (buffer : β) :
    TextBuffer.length (chars buffer) = TextBuffer.length buffer :=
  (length_eq buffer).symm

open FaithfulBuffer (length_chars)

/-!
### Batches
-/

/-- A change made on the characters of a buffer makes them what the changed buffer holds. -/
theorem Numbered.applyTo_chars (edit : Numbered) (hwritable : Writable buffer) :
    edit.applyTo (chars buffer) = (edit.applyTo buffer).map (Prod.map chars id) := by
  by_cases hfits : edit.change.span.FitsIn (chars buffer).length
  · obtain ⟨changed, hstep, _, hchanged⟩ := Numbered.applyTo_of_fits hwritable hfits
    obtain ⟨text, htext, _, hspliced⟩ : ∃ text, edit.applyTo (chars buffer) = .ok (text, _) ∧ _ :=
      Numbered.applyTo_of_fits trivial hfits
    have hsame : text = chars changed := hspliced.trans hchanged.symm
    rw [hstep, htext, hsame]
    rfl
  · have hview : edit.applyTo (chars buffer) = _ := Numbered.applyTo_of_not_fits hfits
    rw [← FaithfulBuffer.length_eq] at hfits
    rw [hview, Numbered.applyTo_of_not_fits hfits, length_chars]
    rfl

/-- A run on the characters of a buffer makes the same records and fails in the same way. -/
theorem runAll_chars (hwritable : Writable buffer) (edits : List Numbered) :
    runAll (chars buffer) edits =
        ⟨chars (runAll buffer edits).buffer, (runAll buffer edits).applied,
          (runAll buffer edits).failure⟩ ∧
      Writable (runAll buffer edits).buffer := by
  induction edits generalizing buffer with
  | nil => exact ⟨rfl, hwritable⟩
  | cons edit rest ih =>
      have hview := edit.applyTo_chars hwritable
      cases hstep : edit.applyTo buffer with
      | error cause =>
          rw [hstep] at hview
          rw [runAll_cons_of_error rest hstep, runAll_cons_of_error rest hview]
          exact ⟨rfl, hwritable⟩
      | ok made =>
          obtain ⟨changed, done⟩ := made
          rw [hstep] at hview
          have hreplace := (Numbered.replaced_of_applyTo hstep).1
          obtain ⟨hrun, hopen⟩ := ih (FaithfulBuffer.writable_of_replace hreplace)
          have hrest : runAll (chars buffer) (edit :: rest) = _ := runAll_cons_of_ok rest hview
          rw [runAll_cons_of_ok rest hstep, hrest, hrun]
          exact ⟨rfl, hopen⟩

/-- The same outcome, told of the characters of the buffer. -/
def Outcome.chars {ε : Type} (outcome : Outcome β ε) : Outcome (List Char) ε :=
  ⟨FaithfulBuffer.chars outcome.buffer, outcome.result⟩

namespace ApplyOptions

theorem resolve_chars (options : ApplyOptions) (edits : Batch)
    (hbound : (chars buffer).length ≤ maxOffset) :
    options.resolve (chars buffer) edits = options.resolve buffer edits := by
  rw [resolve, resolve, FaithfulBuffer.contents_eq buffer hbound]
  rfl

theorem applyInPlace_chars (options : ApplyOptions) (edits : Batch) (hwritable : Writable buffer)
    (hbound : (chars buffer).length ≤ maxOffset) :
    options.applyInPlace (chars buffer) edits = (options.applyInPlace buffer edits).chars ∧
      Writable (options.applyInPlace buffer edits).buffer := by
  have hview := options.resolve_chars edits hbound
  cases hresolve : options.resolve buffer edits with
  | error cause =>
      rw [applyInPlace_of_resolve_error hresolve,
        applyInPlace_of_resolve_error (hview.trans hresolve)]
      exact ⟨rfl, hwritable⟩
  | ok resolved =>
      obtain ⟨hrun, hopen⟩ := runAll_chars hwritable resolved.applicationOrder
      cases hfailure : (runAll buffer resolved.applicationOrder).failure with
      | some cause =>
          rw [applyInPlace_of_failure hresolve hfailure,
            applyInPlace_of_failure (hview.trans hresolve) (by rw [hrun, hfailure]), hrun]
          exact ⟨rfl, hopen⟩
      | none =>
          rw [applyInPlace_of_no_failure hresolve hfailure,
            applyInPlace_of_no_failure (hview.trans hresolve) (by rw [hrun, hfailure]), hrun]
          refine ⟨?_, hopen⟩
          rw [length_chars, length_chars]
          rfl

theorem apply_chars (options : ApplyOptions) (edits : Batch) (hwritable : Writable buffer)
    (hbound : (chars buffer).length ≤ maxOffset) :
    options.apply (chars buffer) edits = (options.apply buffer edits).chars ∧
      Writable (options.apply buffer edits).buffer := by
  obtain ⟨hview, hopen⟩ := options.applyInPlace_chars edits hwritable hbound
  rw [apply_eq, apply_eq, hview, Outcome.chars]
  cases (options.applyInPlace buffer edits).result with
  | error interruption => exact ⟨rfl, hwritable⟩
  | ok delta => exact ⟨rfl, hopen⟩

theorem validate_chars (options : ApplyOptions) (edits : Batch)
    (hbound : (chars buffer).length ≤ maxOffset) :
    options.validate (chars buffer) edits = options.validate buffer edits := by
  rw [validate, validate, options.resolve_chars edits hbound, length_chars]

end ApplyOptions

/-!
### Sequences of operations
-/

namespace Operation

/-- Every operation on a writable buffer is answered as it is by the list of its characters, which
becomes what the buffer then holds. -/
theorem perform_chars (operation : Operation) (hwritable : Writable buffer)
    (hbound : (chars buffer).length ≤ maxOffset) :
    operation.perform (chars buffer) = Prod.map id chars (operation.perform buffer) ∧
      Writable (operation.perform buffer).2 := by
  cases operation with
  | count =>
      refine ⟨?_, hwritable⟩
      simp only [perform, length_chars, Prod.map, id]
  | isEmpty =>
      refine ⟨?_, hwritable⟩
      simp only [perform, TextBuffer.isEmpty, length_chars, Prod.map, id]
  | slice start length =>
      refine ⟨?_, hwritable⟩
      simp only [perform, FaithfulBuffer.slice?_eq, Prod.map, id]
      rfl
  | contents =>
      refine ⟨?_, hwritable⟩
      simp only [perform, FaithfulBuffer.contents_eq buffer hbound, Prod.map, id]
      rfl
  | replace start length newText =>
      have hview : TextBuffer.replace (chars buffer) start length newText =
          (TextBuffer.replace buffer start length newText).map chars :=
        (FaithfulBuffer.replace_eq start length newText hwritable).symm
      simp only [perform, hview]
      cases hreplace : TextBuffer.replace buffer start length newText with
      | error cause => exact ⟨rfl, hwritable⟩
      | ok changed => exact ⟨rfl, FaithfulBuffer.writable_of_replace hreplace⟩
  | apply options edits =>
      obtain ⟨hview, hopen⟩ := options.apply_chars edits hwritable hbound
      simp only [perform, hview]
      exact ⟨rfl, hopen⟩
  | applyInPlace options edits =>
      obtain ⟨hview, hopen⟩ := options.applyInPlace_chars edits hwritable hbound
      simp only [perform, hview]
      exact ⟨rfl, hopen⟩
  | validate options edits =>
      refine ⟨?_, hwritable⟩
      simp only [perform, options.validate_chars edits hbound, Prod.map, id]

/-- One operation, with its answer and the text before and after it. -/
structure Moment where
  before : List Char
  operation : Operation
  answer : Answer
  after : List Char

/-- What can be seen of a buffer while the operations are performed one after the other. -/
def trace (buffer : β) : List Operation → List Moment
  | [] => []
  | operation :: rest =>
      let performed := operation.perform buffer
      ⟨chars buffer, operation, performed.1, chars performed.2⟩ :: trace performed.2 rest

/-- A writable buffer is seen to do what the list of its characters does. -/
theorem trace_chars (operations : List Operation) (hwritable : Writable buffer)
    (hbound : ∀ moment ∈ trace (chars buffer) operations, moment.before.length ≤ maxOffset) :
    trace buffer operations = trace (chars buffer) operations := by
  induction operations generalizing buffer with
  | nil => rfl
  | cons operation rest ih =>
      have hlength : (chars buffer).length ≤ maxOffset := hbound _ List.mem_cons_self
      obtain ⟨hview, hopen⟩ := operation.perform_chars hwritable hlength
      have hchars : trace (chars buffer) (operation :: rest) =
          ⟨chars buffer, operation, (operation.perform buffer).1,
            chars (operation.perform buffer).2⟩ ::
              trace (chars (operation.perform buffer).2) rest := by
        rw [trace, hview]
        rfl
      rw [hchars] at hbound ⊢
      rw [trace, ih hopen fun moment hmoment => hbound moment (List.mem_cons_of_mem _ hmoment)]

/-- A moment of a list of characters is the operation performed on the list of that moment. -/
theorem perform_of_mem_trace {text : List Char} {operations : List Operation} {moment : Moment}
    (h : moment ∈ trace text operations) :
    moment.operation.perform moment.before = (moment.answer, moment.after) := by
  induction operations generalizing text with
  | nil => cases h
  | cons operation rest ih =>
      rcases List.mem_cons.1 h with rfl | hrest
      · rfl
      · exact ih hrest

/-- A replacement of a range that fits splices the new text in. -/
theorem perform_replace_of_fits {text : List Char} {start length : Nat} (newText : String)
    (hfits : Span.FitsIn ⟨start, length⟩ text.length) :
    (replace start length newText).perform text =
      (.replaced (.ok ()), text.take start ++ newText.toList ++ text.drop (start + length)) := by
  have hreplace : TextBuffer.replace text start length newText =
      .ok (splice text start (start + length) newText.toList) :=
    congrArg (Except.map _) (stopWithin_of_fits hfits)
  rw [perform, hreplace]
  rfl

end Operation

/-- The bytes in front of a character are those of the characters in front of it. -/
theorem Plain.exists_byteIdx_position? {text : String} {offset : Nat}
    (h : offset ≤ text.toList.length) :
    ∃ position, position? text offset = some position ∧
      position.offset.byteIdx = OffsetUnit.utf8.measure (text.toList.take offset) := by
  obtain ⟨position, hposition, hsplits⟩ := exists_position? h
  refine ⟨position, hposition, ?_⟩
  rw [hsplits.offset_eq_rawEndPos, String.byteIdx_rawEndPos, OffsetUnit.measure_utf8]

namespace Operation

/-- A string, a rope and a writable document that begin with one text are seen to do the same,
namely what the list of its characters does, as long as 64 bits count the characters.  Throughout,
a replacement of a range inside the text puts the new text in the place of exactly these
characters, and every place in the text that a string looks for in its bytes begins a character. -/
theorem interchangeable {text : String} {rope : Rope} {document : Document}
    (operations : List Operation) (hrope : rope.toString = text) (hdocument : document.text = text)
    (hopen : document.readOnly = false)
    (hbound : ∀ moment ∈ trace text.toList operations, moment.before.length ≤ maxOffset) :
    trace text operations = trace text.toList operations ∧
      trace rope operations = trace text.toList operations ∧
      trace document operations = trace text.toList operations ∧
      ∀ moment ∈ trace text.toList operations,
        (∀ start length newText, moment.operation = replace start length newText →
          start + length ≤ moment.before.length →
            moment.answer = .replaced (.ok ()) ∧
            moment.after = moment.before.take start ++ newText.toList ++
              moment.before.drop (start + length)) ∧
        ∀ offset ≤ moment.before.length,
          ∃ position, Plain.position? (String.ofList moment.before) offset = some position ∧
            position.offset.byteIdx = OffsetUnit.utf8.measure (moment.before.take offset) := by
  subst hrope
  have hchars : document.text.toList = rope.toString.toList := congrArg String.toList hdocument
  refine ⟨trace_chars operations trivial hbound, trace_chars operations trivial hbound, ?_, ?_⟩
  · rw [← hchars] at hbound ⊢
    exact trace_chars operations hopen hbound
  · intro moment hmoment
    constructor
    · intro start length newText hreplace hstop
      have hfits : Span.FitsIn ⟨start, length⟩ moment.before.length :=
        ⟨Nat.le_trans hstop (hbound moment hmoment), hstop⟩
      have hperform := perform_of_mem_trace hmoment
      rw [hreplace, perform_replace_of_fits newText hfits] at hperform
      exact ⟨congrArg Prod.fst hperform.symm, congrArg Prod.snd hperform.symm⟩
    · intro offset hoffset
      rw [← String.toList_ofList (l := moment.before)] at hoffset
      have hplace := Plain.exists_byteIdx_position? hoffset
      rwa [String.toList_ofList] at hplace

/-- Characters of one, two and four bytes, ranges that end past the text or past 64 bits, and a
batch that fails after its first change. -/
def widths : List Operation :=
  [.slice 1 2, .replace 3 0 "ß", .slice 4 maxOffset, .replace 9 1 "x", .replace 1 1 "",
    .applyInPlace ⟨.allow, .utf16⟩ [.replace 1 3 "z", .delete 3 1], .isEmpty, .contents,
    .validate {} [.insert 9 "y"]]

/-- The rope holds what the list of characters holds after every operation. -/
theorem interchangeable_over_widths :
    (∀ moment ∈ trace "aé😀".toList widths, moment.before.length ≤ maxOffset) ∧
      (trace (Rope.ofString "aé😀") widths).map (fun moment => String.ofList moment.after) =
        ["aé😀", "aé😀ß", "aé😀ß", "aé😀ß", "a😀ß", "a😀", "a😀", "a😀", "a😀"] := by
  have hlengths : (trace "aé😀".toList widths).map (fun moment => moment.before.length) =
      [3, 3, 4, 4, 4, 3, 2, 2, 2] := by cbv
  have hbound : ∀ moment ∈ trace "aé😀".toList widths, moment.before.length ≤ maxOffset := by
    rw [← List.forall_mem_map (P := (· ≤ maxOffset)), hlengths]
    decide
  have hdocument : (Document.ofString "aé😀").text = "aé😀" := rfl
  have hsame := interchangeable widths (Rope.toString_ofString "aé😀") hdocument rfl hbound
  refine ⟨hbound, ?_⟩
  rw [hsame.2.1]
  cbv

end Operation

end TextEditing
