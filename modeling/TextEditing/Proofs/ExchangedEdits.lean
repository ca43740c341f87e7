/-
Module: TextEditing.Proofs.ExchangedEdits
Purpose: Batches and deltas that are written as JSON are read again as they were.
Main exports: Change.Bounded, Delta.Bounded, batches_and_deltas_survive
-/
import TextEditing.Proofs.EditReadings
import TextEditing.Proofs.RestoredRecords

namespace TextEditing

open Json

/-!
The records of spans, changes and deltas are read again since their fields are: texts are written
with escapes that stand for what they replace, and offsets of 64 bits are read digit by digit, without
any rounding.  A change without a new text has the empty one, which is written as any other.
-/

theorem offsetCodec_restores {n : Nat} (h : n ≤ maxOffset) : offsetCodec.Restores n :=
  Codec.natural_restores "usize" h (Nat.le_refl maxOffset)

/-- Both offsets are of 64 bits. -/
def Span.Bounded (span : Span) : Prop := span.start ≤ maxOffset ∧ span.length ≤ maxOffset

/-- The offsets are of 64 bits. -/
def Change.Bounded (change : Change) : Prop := change.span.Bounded

/-- The numbers are of 64 bits. -/
def AppliedEdit.Bounded (edit : AppliedEdit) : Prop :=
  edit.index ≤ maxOffset ∧ edit.start ≤ maxOffset

/-- The numbers are of 64 bits. -/
structure Delta.Bounded (delta : Delta) : Prop where
  before : delta.beforeCount ≤ maxOffset
  after : delta.afterCount ≤ maxOffset
  edits : ∀ edit ∈ delta.edits, edit.Bounded

theorem Span.record_restores {span : Span} (h : span.Bounded) :
    Span.record.codec.Restores span :=
  Record.restores Span.record_independent
    (.cons (.required "start" _ (offsetCodec_restores h.1))
      (.cons (.required "length" _ (offsetCodec_restores h.2)) .nil)) rfl

theorem Change.record_restores {change : Change} (h : change.Bounded) :
    Change.record.codec.Restores change :=
  Record.restores Change.record_independent
    (.cons (.required "span" _ (Span.record_restores h))
      (.cons (.defaulted "newText" _ (Codec.string_restores change.newText)) .nil)) rfl

theorem Batch.codec_restores {batch : Batch} (h : ∀ change ∈ batch, change.Bounded) :
    Batch.codec.Restores batch :=
  Codec.list_restores fun change hchange => Change.record_restores (h change hchange)

theorem Batch.nesting_write (batch : Batch) : (codec.write batch).nesting ≤ 3 := by
  refine Nat.succ_le_succ (Value.nestingOfEntries_le_of_forall ?_)
  intro value hvalue
  obtain ⟨change, _, rfl⟩ := List.mem_map.1 hvalue
  exact Nat.le_refl 2

/-- All changes of a batch are among the entries of its value that are changes. -/
theorem Batch.ofEntries_sorted {batch : Batch} (h : ∀ change ∈ batch, change.Bounded) :
    ofEntries (codec.write batch).sorted = batch := by
  have hchanges : ∀ change ∈ batch,
      (Change.record.codec.ofValue (Change.record.codec.write change).sorted).toOption =
        some change := by
    intro change hchange
    have hrestores := Change.record_restores (h change hchange)
    exact congrArg Except.toOption (hrestores.ofValue_sorted Change.codec_agrees)
  have hentries : (codec.write batch).sorted =
      .array (batch.map fun change => (Change.record.codec.write change).sorted) := by
    rw [codec, Codec.list, Value.sorted, Value.sortedEntries_eq_map, List.map_map]
    rfl
  rw [hentries, ofEntries, List.filterMap_map]
  exact (List.filterMap_congr hchanges).trans List.filterMap_some

/-!
### Deltas
-/

theorem AppliedEdit.record_restores {edit : AppliedEdit} (h : edit.Bounded) :
    AppliedEdit.record.codec.Restores edit :=
  Record.restores AppliedEdit.record_independent
    (.cons (.required "index" _ (offsetCodec_restores h.1))
      (.cons (.required "start" _ (offsetCodec_restores h.2))
        (.cons (.required "deletedText" _ (Codec.string_restores edit.deletedText))
          (.cons (.required "insertedText" _ (Codec.string_restores edit.insertedText)) .nil)))) rfl

theorem Delta.record_restores {delta : Delta} (h : delta.Bounded) :
    Delta.record.codec.Restores delta := by
  have hedits : (Codec.list AppliedEdit.record.codec).Restores delta.edits :=
    Codec.list_restores fun edit hedit => AppliedEdit.record_restores (h.edits edit hedit)
  exact Record.restores Delta.record_independent
    (.cons (.required "beforeCharCount" _ (offsetCodec_restores h.before))
      (.cons (.required "afterCharCount" _ (offsetCodec_restores h.after))
        (.cons (.required "edits" _ hedits) .nil))) rfl

theorem Delta.nesting_write (delta : Delta) : (record.codec.write delta).nesting ≤ 3 := by
  let entries := delta.edits.map AppliedEdit.record.codec.write
  have hentries : Value.nestingOfEntries entries ≤ 1 := by
    apply Value.nestingOfEntries_le_of_forall
    intro value hvalue
    obtain ⟨edit, _, rfl⟩ := List.mem_map.1 hvalue
    exact Nat.le_refl 1
  change max 0 (max 0 (max (Value.nestingOfEntries entries + 1) 0)) + 1 ≤ 3
  omega

/-- Batches and deltas come back from the texts that they are written as and from the values of these
texts, whatever their texts and offsets of 64 bits are; and no change of a batch is passed over where
entries that are no changes would be. -/
theorem batches_and_deltas_survive :
    (∀ batch : Batch, (∀ change ∈ batch, change.Bounded) →
        Batch.codec.Survives batch ∧ Batch.ofEntries (Batch.codec.write batch).sorted = batch) ∧
      ∀ delta : Delta, delta.Bounded → Delta.record.codec.Survives delta := by
  constructor
  · intro batch hbatch
    have hdepth : (Batch.codec.write batch).nesting ≤ Value.maxDepth :=
      Nat.le_trans (Batch.nesting_write batch) (by decide)
    exact ⟨(Batch.codec_restores hbatch).survives Batch.codec_agrees hdepth,
      Batch.ofEntries_sorted hbatch⟩
  · intro delta hdelta
    have hdepth : (Delta.record.codec.write delta).nesting ≤ Value.maxDepth :=
      Nat.le_trans (Delta.nesting_write delta) (by decide)
    exact (Delta.record_restores hdelta).survives Delta.codec_agrees hdepth

/-- Offsets up to the largest one, and texts with escapes, control characters and characters outside
the basic plane. -/
def farChanges : Batch :=
  [.replace maxOffset maxOffset "\"\\/\x00\x1f\t\n\x7f", .insert 0 "é\u2028😀",
    .delete 9007199254740993 1]

/-- Replacements at the largest offset and at one that binary64 does not hold. -/
def farDelta : Delta :=
  ⟨maxOffset, 9007199254740993,
    [⟨maxOffset, 0, "\x08\x0c\r", "𐀀"⟩, ⟨0, maxOffset, "", "\\u0000"⟩]⟩

theorem far_changes_survive :
    (∀ change ∈ farChanges, change.Bounded) ∧ farDelta.Bounded ∧
      Batch.codec.ofText (Batch.codec.write farChanges).compact = .ok farChanges ∧
      Batch.ofEntries (Batch.codec.write farChanges).sorted = farChanges ∧
      Delta.record.codec.ofText (Delta.record.codec.write farDelta).compact = .ok farDelta := by
  have hchanges : ∀ change ∈ farChanges, change.Bounded := by
    simp [farChanges, Change.Bounded, Span.Bounded, Change.replace, Change.insert, Change.delete,
      maxOffset]
  have hdelta : farDelta.Bounded := by
    refine ⟨by decide, by decide, ?_⟩
    simp [farDelta, AppliedEdit.Bounded, maxOffset]
  obtain ⟨hbatch, hentries⟩ := batches_and_deltas_survive.1 farChanges hchanges
  have hsurvives := batches_and_deltas_survive.2 farDelta hdelta
  exact ⟨hchanges, hdelta, hbatch.ofText_compact, hentries, hsurvives.ofText_compact⟩

end TextEditing
