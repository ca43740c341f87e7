/-
Module: TextEditing.Edit.Interchange
Purpose: Changes, batches, deltas and ways of application as JSON.
Main exports: Span.record, Change.record, Batch.codec, Batch.ofEntries, AppliedEdit.record,
  Delta.record, OffsetUnit.codec, OverlapPolicy.codec, ApplyOptions.record
-/
import TextEditing.Edit.Apply
import TextEditing.Json.Record

namespace TextEditing

open Json

/-- Offsets, lengths and counts of 64 bits. -/
def offsetCodec : Codec Nat := .natural maxOffset "usize"

/-- A span by its start and its length. -/
def Span.record : Record Span where
  title := "TextSpan"
  blank := ⟨0, 0⟩
  fields :=
    [.required "start" offsetCodec (·.start) fun start span => { span with start },
      .required "length" offsetCodec (·.length) fun length span => { span with length }]

/-- A change by its span and the new text; without a new text it is a deletion. -/
def Change.record : Record Change where
  title := "TextChange"
  blank := .delete 0 0
  fields :=
    [.required "span" Span.record.codec (·.span) fun span change => { change with span },
      .defaulted "newText" .string (·.newText) fun newText change => { change with newText }]

/-- A batch as the array of its changes. -/
def Batch.codec : Codec Batch := .list Change.record.codec

/-- The batch of those entries of an array that are changes; the other entries are passed over,
and a value that is no array has no entries. -/
def Batch.ofEntries : Value → Batch
  | .array entries => entries.filterMap fun entry => (Change.record.codec.ofValue entry).toOption
  | _ => []

/-- A replacement with its place in the batch and the texts taken out and put in. -/
def AppliedEdit.record : Record AppliedEdit where
  title := "AppliedEdit"
  blank := ⟨0, 0, "", ""⟩
  fields :=
    [.required "index" offsetCodec (·.index) fun index edit => { edit with index },
      .required "start" offsetCodec (·.start) fun start edit => { edit with start },
      .required "deletedText" .string (·.deletedText) fun deletedText edit =>
        { edit with deletedText },
      .required "insertedText" .string (·.insertedText) fun insertedText edit =>
        { edit with insertedText }]

/-- A delta by the lengths before and after and its replacements. -/
def Delta.record : Record Delta where
  title := "TextDelta"
  blank := ⟨0, 0, []⟩
  fields :=
    [.required "beforeCharCount" offsetCodec (·.beforeCount) fun beforeCount delta =>
        { delta with beforeCount },
      .required "afterCharCount" offsetCodec (·.afterCount) fun afterCount delta =>
        { delta with afterCount },
      .required "edits" (.list AppliedEdit.record.codec) (·.edits) fun edits delta =>
        { delta with edits }]

/-- The name of a unit. -/
def OffsetUnit.name : OffsetUnit → String
  | .character => "char"
  | .utf16 => "utf16"
  | .utf8 => "utf8"

/-- Units by name. -/
def OffsetUnit.codec : Codec OffsetUnit :=
  .named ([.character, .utf16, .utf8].map fun unit => (unit.name, unit)) name

/-- The name of a policy. -/
def OverlapPolicy.name : OverlapPolicy → String
  | .reject => "reject"
  | .allow => "allow"

/-- Policies by name. -/
def OverlapPolicy.codec : Codec OverlapPolicy :=
  .named ([.reject, .allow].map fun policy => (policy.name, policy)) name

/-- A way of application; what is left out is as by default. -/
def ApplyOptions.record : Record ApplyOptions where
  title := "ApplyOptions"
  blank := {}
  fields :=
    [.defaulted "overlap" OverlapPolicy.codec (·.overlap) fun overlap options =>
        { options with overlap },
      .defaulted "encoding" OffsetUnit.codec (·.unit) fun unit options =>
        { options with unit }]

end TextEditing
