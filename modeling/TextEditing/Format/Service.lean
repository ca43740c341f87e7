/-
Module: TextEditing.Format.Service
Purpose: What a formatting service is asked and answers, and services with prepared answers.
Main exports: FormatRequest, FormatReply, FormatService, Script
-/
import TextEditing.Edit.Interchange
import TextEditing.Options.FormatOptions

namespace TextEditing

/-- A request for the changes that format a range of a text.  The range is given in the unit of
the service. -/
structure FormatRequest where
  text : String
  start : Nat
  stop : Nat
  options : FormatOptions

/-- The changes in the unit of the service, all made for the text of the request, or the reason
why there are none. -/
abbrev FormatReply := Except String Batch

/-- A service; answering may change its state. -/
class FormatService (σ : Type) where
  ask : σ → FormatRequest → FormatReply × σ

/-- A prepared answer. -/
inductive PreparedReply where
  | edits (edits : Batch)
  /-- A value to be read as a batch; what is wrong with it is the reason for a failure. -/
  | strict (value : Json.Value)
  /-- A value to be read as a batch without those of its entries that are no changes. -/
  | lenient (value : Json.Value)
  | failure (reason : String)

/-- The answer that was prepared. -/
def PreparedReply.reply : PreparedReply → FormatReply
  | edits batch => .ok batch
  | strict value =>
      (Batch.codec.ofValue value).mapError fun failure => failure.message?.getD ""
  | lenient value => .ok (Batch.ofEntries value)
  | failure reason => .error reason

/-- A service that gives prepared answers in turn and, when they are used up, repeats the last
one.  Without any answer prepared it has no changes to make. -/
structure Script where
  replies : List PreparedReply

/-- The next answer, and the answers after it. -/
def Script.next : Script → PreparedReply × Script
  | ⟨[]⟩ => (.edits [], ⟨[]⟩)
  | ⟨[reply]⟩ => (reply, ⟨[reply]⟩)
  | ⟨reply :: rest⟩ => (reply, ⟨rest⟩)

instance : FormatService Script where
  ask script _ :=
    let (reply, rest) := script.next
    (reply.reply, rest)

end TextEditing
