/-
Module: TextEditing.Proofs.EditReadings
Purpose: Batches and deltas are read from a text as they are read from the value of the text.
Main exports: Span.record_independent, Change.record_independent, AppliedEdit.record_independent,
  Delta.record_independent, Batch.codec_agrees, Delta.codec_agrees, Batch.ofText_agrees_ofValue
-/
import Mathlib
import TextEditing.Edit.Interchange
import TextEditing.Proofs.ValueReadings

namespace TextEditing

open Json
open RecordField (Sets)

/-!
The fields of spans, changes and deltas have different names and set different components, and what
they hold is read in the same way from a text as from a value.
-/

theorem Span.record_independent : Span.record.Independent where
  names := List.pairwise_pair.2 (by decide)
  commutes := List.pairwise_pair.2 (Sets.required.commutes .required fun _ _ _ => rfl)

theorem Change.record_independent : Change.record.Independent where
  names := List.pairwise_pair.2 (by decide)
  commutes := List.pairwise_pair.2 (Sets.required.commutes .defaulted fun _ _ _ => rfl)

theorem AppliedEdit.record_independent : AppliedEdit.record.Independent where
  names := by
    simp only [record, List.pairwise_cons, List.forall_mem_cons]
    decide
  commutes := by
    simp only [record, List.pairwise_cons, List.forall_mem_cons, List.not_mem_nil, false_implies,
      implies_true, List.Pairwise.nil, and_true]
    refine ⟨⟨?_, ?_, ?_⟩, ⟨?_, ?_⟩, ?_⟩ <;> exact Sets.required.commutes .required fun _ _ _ => rfl

theorem Delta.record_independent : Delta.record.Independent where
  names := by
    simp only [record, List.pairwise_cons, List.forall_mem_cons]
    decide
  commutes := by
    simp only [record, List.pairwise_cons, List.forall_mem_cons, List.not_mem_nil, false_implies,
      implies_true, List.Pairwise.nil, and_true]
    refine ⟨⟨?_, ?_⟩, ?_⟩ <;> exact Sets.required.commutes .required fun _ _ _ => rfl

theorem offsetCodec_agrees : Agrees offsetCodec.read := Codec.natural_agrees maxOffset "usize"

theorem Span.codec_agrees : Agrees Span.record.codec.read := by
  refine Record.agrees record_independent ?_
  simp only [record, List.forall_mem_cons, List.not_mem_nil, false_implies, implies_true, and_true]
  exact ⟨offsetCodec_agrees.map _, offsetCodec_agrees.map _⟩

theorem Change.codec_agrees : Agrees Change.record.codec.read := by
  refine Record.agrees record_independent ?_
  simp only [record, List.forall_mem_cons, List.not_mem_nil, false_implies, implies_true, and_true]
  exact ⟨Span.codec_agrees.map _, Codec.string_agrees.map _⟩

theorem Batch.codec_agrees : Agrees Batch.codec.read := Codec.list_agrees Change.codec_agrees

theorem AppliedEdit.codec_agrees : Agrees AppliedEdit.record.codec.read := by
  refine Record.agrees record_independent ?_
  simp only [record, List.forall_mem_cons, List.not_mem_nil, false_implies, implies_true, and_true]
  exact ⟨offsetCodec_agrees.map _, offsetCodec_agrees.map _, Codec.string_agrees.map _,
    Codec.string_agrees.map _⟩

theorem Delta.codec_agrees : Agrees Delta.record.codec.read := by
  refine Record.agrees record_independent ?_
  simp only [record, List.forall_mem_cons, List.not_mem_nil, false_implies, implies_true, and_true]
  exact ⟨offsetCodec_agrees.map _, offsetCodec_agrees.map _,
    (Codec.list_agrees AppliedEdit.codec_agrees).map _⟩

namespace Batch

/-- A batch that is read from a text is read from the value of the text; and a batch that is read from
the value is read from the text, unless an object of the text has a key twice. -/
theorem ofText_agrees_ofValue {text : String} {value : Value}
    (hvalue : Value.ofText text = .ok value) (batch : Batch) :
    (codec.ofText text = .ok batch → codec.ofValue value = .ok batch) ∧
      ((Parsed.ofText text).root.DistinctKeys →
        codec.ofValue value = .ok batch → codec.ofText text = .ok batch) := by
  constructor
  · intro hread
    exact codec_agrees.ofValue_of_ofText hvalue hread
  · intro hdistinct hread
    exact codec_agrees.ofText_of_ofValue hvalue hdistinct hread

/-- Keys with escapes, members in any order and without meaning, white space, changes and spans that
are arrays, and changes without a new text. -/
def manyShapes : String :=
  "[ \x7b\"newT\\u0065xt\":\"\\n\", \"k\":[\x7b\x7d],\"span\":[1,2]\x7d, [[3,0]],\n" ++
    "\x7b\"span\":\x7b\"length\":4,\"start\":5\x7d\x7d]"

/-- The tree of the many shapes. -/
def manyShapesTree : Tree :=
  .array
    [.object [(.name "newText", .string "\n"), (.name "k", .array [.object [] none] none),
        (.name "span", .array [.number (.natural 1), .number (.natural 2)] none)] none,
      .array [.array [.number (.natural 3), .number (.natural 0)] none] none,
      .object [(.name "span", .object [(.name "length", .number (.natural 4)),
        (.name "start", .number (.natural 5))] none)] none] none

/-- The value of the many shapes. -/
def manyShapesValue : Value :=
  .array
    [.object [("k", .array [.object []]), ("newText", .string "\n"),
        ("span", .array [.ofNat 1, .ofNat 2])],
      .array [.array [.ofNat 3, .ofNat 0]],
      .object [("span", .object [("length", .ofNat 4), ("start", .ofNat 5)])]]

theorem parsed_manyShapes : Parsed.ofText manyShapes = ⟨manyShapesTree, false⟩ := by cbv

theorem ofText_agrees_ofValue_in_many_shapes :
    Value.ofText manyShapes = .ok manyShapesValue ∧
      (Parsed.ofText manyShapes).root.DistinctKeys ∧
      codec.ofText manyShapes = .ok [.replace 1 2 "\n", .insert 3 "", .delete 5 4] ∧
      codec.ofValue manyShapesValue = .ok [.replace 1 2 "\n", .insert 3 "", .delete 5 4] := by
  have hvalue : Value.ofText manyShapes = .ok manyShapesValue := by
    rw [Value.ofText, parsed_manyShapes]
    cbv
  have hdistinct : (Parsed.ofText manyShapes).root.DistinctKeys := by
    simp [parsed_manyShapes, manyShapesTree, Tree.DistinctKeys, Tree.DistinctEntries,
      Tree.DistinctMembers]
  have htext : codec.ofText manyShapes = .ok [.replace 1 2 "\n", .insert 3 "", .delete 5 4] := by
    rw [Codec.ofText, parsed_manyShapes]
    cbv
  have hread := (ofText_agrees_ofValue hvalue _).1 htext
  exact ⟨hvalue, hdistinct, (ofText_agrees_ofValue hvalue _).2 hdistinct hread, hread⟩

/-- In the value of a text with a key twice the last one is left; in the text it is an error. -/
example :
    codec.ofText "[\x7b\"span\":[0,0],\"span\":[1,0]\x7d]" = .error (.duplicateField "span") ∧
      (Value.ofText "[\x7b\"span\":[0,0],\"span\":[1,0]\x7d]").toOption.map codec.ofValue =
        some (.ok [.insert 1 ""]) := by
  constructor <;> cbv

end Batch

end TextEditing
