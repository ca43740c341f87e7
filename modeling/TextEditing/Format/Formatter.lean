/-
Module: TextEditing.Format.Formatter
Purpose: Formatting a region: ask a service for changes and apply them.
Main exports: FormatterSettings, Formatter, Formatter.options, Formatter.request,
  Formatter.carryOut, Formatter.format
-/
import TextEditing.Edit.Apply
import TextEditing.Format.Failure
import TextEditing.Format.Service

namespace TextEditing

/-!
A formatter sends the whole text with the region in the unit of the service.  Nothing is sent when
the region does not fit into the text or the preferences are unusable, in this order.  The changes
that come back are restated in characters of the text that was sent, and applied to the buffer.
-/

/-- How a formatter speaks to its service and applies the answer. -/
structure FormatterSettings where
  /-- The policy for conflicts, and the unit in which the service counts. -/
  apply : ApplyOptions := { unit := .utf16 }
  /-- Apply answers as a whole. -/
  atomic : Bool := true
  /-- Send the line ending in use in the text. -/
  detectLineEnding : Bool := true
deriving Repr, Inhabited, DecidableEq

/-- Whether the settings decide how an answer is applied, or it is applied in place anyway. -/
inductive FormatMode where
  | asSet
  | inPlace
deriving Repr, Inhabited, DecidableEq

/-- Settings and the preferences that options are read from, anew for every request. -/
structure Formatter where
  settings : FormatterSettings
  preferences : Preferences
deriving Inhabited

/-- What came of an attempt to format: the request that was sent, if any, and the outcome. -/
structure Formatting (β : Type) where
  request : Option FormatRequest
  outcome : Outcome β FormatError

/-- The same outcome with its error put differently. -/
def Outcome.mapError {β ε ε' : Type} (f : ε → ε') (outcome : Outcome β ε) : Outcome β ε' :=
  ⟨outcome.buffer, outcome.result.mapError f⟩

namespace Formatter

/-- The options that go with a text. -/
def options (formatter : Formatter) (text : String) : Except FormatError FormatOptions := do
  let options ←
    (FormatOptions.ofPreferences formatter.preferences).mapError FormatError.options
  if formatter.settings.detectLineEnding then
    pure (options.withLineEnding (LineEnding.detect text))
  else
    pure options

section
variable {β : Type} [TextBuffer β]

/-- The request for a region given in characters. -/
def request (formatter : Formatter) (buffer : β) (region : Span) :
    Except FormatError FormatRequest :=
  let text := TextBuffer.contents buffer
  let table := OffsetTable.ofText formatter.settings.apply.unit text
  match table.spanOfCharacters? region with
  | none => .error (.region region (TextBuffer.length buffer))
  | some encoded => do
      let options ← formatter.options text
      pure ⟨text, encoded.start, encoded.start + encoded.length, options⟩

/-- Applies an answer that is counted in characters. -/
def applyEdits (formatter : Formatter) (mode : FormatMode) (buffer : β) (edits : Batch) :
    Outcome β FormatError :=
  let options := { formatter.settings.apply with unit := .character }
  if mode = .asSet ∧ formatter.settings.atomic then
    (options.apply buffer edits).mapError .apply
  else
    (options.applyInPlace buffer edits).mapError .interrupted

/-- Applies the answer to a request that was made for the buffer. -/
def carryOut (formatter : Formatter) (mode : FormatMode) (buffer : β) (request : FormatRequest)
    (reply : FormatReply) : Outcome β FormatError :=
  match reply with
  | .error reason => ⟨buffer, .error (.service reason)⟩
  | .ok edits =>
      match edits.toCharacters formatter.settings.apply.unit request.text with
      | .error cause => ⟨buffer, .error (.apply cause)⟩
      | .ok edits => formatter.applyEdits mode buffer edits

/-- Formats a region given in characters. -/
def format {σ : Type} [FormatService σ] (formatter : Formatter) (mode : FormatMode) (service : σ)
    (buffer : β) (region : Span) : Formatting β × σ :=
  match formatter.request buffer region with
  | .error failure => (⟨none, ⟨buffer, .error failure⟩⟩, service)
  | .ok request =>
      let (reply, service) := FormatService.ask service request
      (⟨some request, formatter.carryOut mode buffer request reply⟩, service)

/-- Formats the whole buffer. -/
def formatAll {σ : Type} [FormatService σ] (formatter : Formatter) (mode : FormatMode)
    (service : σ) (buffer : β) : Formatting β × σ :=
  formatter.format mode service buffer ⟨0, TextBuffer.length buffer⟩

end

end Formatter

end TextEditing
