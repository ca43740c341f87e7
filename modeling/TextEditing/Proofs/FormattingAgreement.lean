/-
Module: TextEditing.Proofs.FormattingAgreement
Purpose: Formatting applies the answer of the service as it would be applied without a formatter.
Main exports: ApplyOptions.resolve_restated, ApplyOptions.applyInPlace_restated,
  ApplyOptions.apply_restated, Formatter.format_agrees_with_apply
-/
import TextEditing.Buffer.Rationed
import TextEditing.Proofs.EntryPoints
import TextEditing.Proofs.FormattingRequests

namespace TextEditing

/-!
A formatter restates the answer in characters before it applies it, and a batch restated in
characters needs no further restatement.  The batch that is applied in the end is therefore the one
that the unconverted answer would be resolved to, from the same buffer and under the same policy;
from there on both go the same way.  Only a batch that cannot be restated shows which of the two
has looked at it.
-/

namespace ApplyOptions

variable {β : Type} [TextBuffer β] {options : ApplyOptions} {buffer : β} {edits resolved : Batch}

theorem resolve_of_toCharacters_error {cause : ApplyError}
    (h : edits.toCharacters options.unit (TextBuffer.contents buffer) = .error cause) :
    options.resolve buffer edits = .error cause := by
  rw [resolve, h]
  rfl

/-- What has been restated in characters is resolved, counted in characters, as what it came
from. -/
theorem resolve_restated
    (h : edits.toCharacters options.unit (TextBuffer.contents buffer) = .ok resolved) :
    resolve { options with unit := .character } buffer resolved =
      options.resolve buffer edits := by
  have hself : resolved.toCharacters .character (TextBuffer.contents buffer) = .ok resolved :=
    if_pos rfl
  rw [resolve, resolve, h, hself]

theorem applyInPlace_restated
    (h : edits.toCharacters options.unit (TextBuffer.contents buffer) = .ok resolved) :
    applyInPlace { options with unit := .character } buffer resolved =
      options.applyInPlace buffer edits := by
  rw [applyInPlace, applyInPlace, resolve_restated h]

theorem apply_restated
    (h : edits.toCharacters options.unit (TextBuffer.contents buffer) = .ok resolved) :
    apply { options with unit := .character } buffer resolved = options.apply buffer edits := by
  rw [apply_eq, apply_eq, applyInPlace_restated h]

end ApplyOptions

namespace Formatter

variable {β : Type} [TextBuffer β] {formatter : Formatter} {buffer : β} {mode : FormatMode}
  {request : FormatRequest} {edits : Batch}

/-- Carried out as a whole, the answer gives what the application as a whole gives. -/
theorem carryOut_asSet (hatomic : formatter.settings.atomic = true)
    (htext : request.text = TextBuffer.contents buffer) :
    formatter.carryOut .asSet buffer request (.ok edits) =
      (formatter.settings.apply.apply buffer edits).mapError .apply := by
  cases hchars : edits.toCharacters formatter.settings.apply.unit (TextBuffer.contents buffer) with
  | error cause =>
      have hplace := ApplyOptions.applyInPlace_of_resolve_error
        (ApplyOptions.resolve_of_toCharacters_error hchars)
      rw [carryOut_of_misfit (htext ▸ hchars), ApplyOptions.apply_of_error hplace]
      rfl
  | ok resolved =>
      rw [carryOut_of_restated (htext ▸ hchars), applyEdits, if_pos ⟨rfl, hatomic⟩,
        ApplyOptions.apply_restated hchars]

/-- Carried out in place, the answer gives what the application in place gives, once it has been
restated. -/
theorem carryOut_inPlace {resolved : Batch}
    (hmode : mode = .inPlace ∨ formatter.settings.atomic = false)
    (htext : request.text = TextBuffer.contents buffer)
    (hchars : edits.toCharacters formatter.settings.apply.unit (TextBuffer.contents buffer) =
      .ok resolved) :
    formatter.carryOut mode buffer request (.ok edits) =
      (formatter.settings.apply.applyInPlace buffer edits).mapError .interrupted := by
  have hplace : ¬ (mode = .asSet ∧ formatter.settings.atomic = true) := by
    intro h
    rcases hmode with hmode | hatomic
    · rw [hmode] at h
      cases h.1
    · rw [hatomic] at h
      cases h.2
  rw [carryOut_of_restated (htext ▸ hchars), applyEdits, if_neg hplace,
    ApplyOptions.applyInPlace_restated hchars]

/-- A formatter under default settings, with preferences that say no more than they must. -/
def plain : Formatter :=
  ⟨{}, Preferences.empty.set EditorOptions.indentStyleKey (.text "SMART")⟩

theorem exists_options_plain :
    ∃ options, FormatOptions.ofPreferences plain.preferences = .ok options := by
  have hreadable : (FormatOptions.ofPreferences plain.preferences).isOk = true := by
    decide +kernel
  cases hoptions : FormatOptions.ofPreferences plain.preferences with
  | error cause =>
      rw [hoptions] at hreadable
      cases hreadable
  | ok options => exact ⟨options, rfl⟩

/-- Formatting a region that fits, with preferences that can be read, asks for changes once, and the
changes answered are applied as if they were applied without the formatter: as a whole when the
settings ask for it and the mode allows it, and else in place.  In place, though, changes that have
no counterpart in characters are an error of the application as a whole. -/
theorem format_agrees_with_apply {σ : Type} [FormatService σ] (formatter : Formatter)
    (service : σ) (buffer : β) (region : Span) {options : FormatOptions}
    (hregion : region.FitsIn (TextBuffer.contents buffer).toList.length)
    (hpreferences : FormatOptions.ofPreferences formatter.preferences = .ok options) :
    ∃ request, formatter.request buffer region = .ok request ∧
      ∀ edits, (FormatService.ask service request).1 = .ok edits →
        (formatter.settings.atomic = true →
          (formatter.format .asSet service buffer region).1.outcome =
            (formatter.settings.apply.apply buffer edits).mapError .apply) ∧
        ∀ mode, mode = .inPlace ∨ formatter.settings.atomic = false →
          (∀ cause,
            edits.toCharacters formatter.settings.apply.unit (TextBuffer.contents buffer) =
                .error cause →
              formatter.settings.apply.applyInPlace buffer edits =
                  ⟨buffer, .error ⟨0, cause⟩⟩ ∧
                (formatter.format mode service buffer region).1.outcome =
                  ⟨buffer, .error (.apply cause)⟩) ∧
          ∀ resolved,
            edits.toCharacters formatter.settings.apply.unit (TextBuffer.contents buffer) =
                .ok resolved →
              (formatter.format mode service buffer region).1.outcome =
                (formatter.settings.apply.applyInPlace buffer edits).mapError .interrupted := by
  have hrequest := request_of_readable hregion hpreferences
  have htext : (formatter.requestFor (TextBuffer.contents buffer).toList region options).text =
      TextBuffer.contents buffer := String.ofList_toList
  refine ⟨_, hrequest, ?_⟩
  intro edits hreply
  have hformat : ∀ mode, (formatter.format mode service buffer region).1.outcome =
      formatter.carryOut mode buffer
        (formatter.requestFor (TextBuffer.contents buffer).toList region options) (.ok edits) := by
    intro mode
    rw [format_of_request_ok mode service hrequest, hreply]
  constructor
  · intro hatomic
    rw [hformat, carryOut_asSet hatomic htext]
  · intro mode hmode
    constructor
    · intro cause hchars
      refine ⟨ApplyOptions.applyInPlace_of_resolve_error
        (ApplyOptions.resolve_of_toCharacters_error hchars), ?_⟩
      rw [hformat, carryOut_of_misfit (htext.symm ▸ hchars)]
    · intro resolved hchars
      rw [hformat, carryOut_inPlace hmode htext hchars]

/-- A buffer that takes one replacement refuses the second; a whole answer leaves it as it was, and
in place the first change stays. -/
theorem format_agrees_with_apply_by_ration :
    (Span.mk 1 2).FitsIn (TextBuffer.contents (Rationed.mk "a😀b" 1 .readOnly true)).toList.length ∧
      (FormatOptions.ofPreferences plain.preferences).isOk = true ∧
      (plain.format .asSet (Script.mk [.edits [.delete 1 2, .insert 4 "!"]])
        (Rationed.mk "a😀b" 1 .readOnly true) ⟨1, 2⟩).1.outcome =
          ⟨⟨"a😀b", 1, .readOnly, true⟩, .error (.apply (.refused 0 .readOnly))⟩ ∧
      (plain.format .inPlace (Script.mk [.edits [.delete 1 2, .insert 4 "!"]])
        (Rationed.mk "a😀b" 1 .readOnly true) ⟨1, 2⟩).1.outcome =
          ⟨⟨"a😀b!", 0, .readOnly, true⟩, .error (.interrupted ⟨1, .refused 0 .readOnly⟩)⟩ := by
  have hcontents : TextBuffer.contents (Rationed.mk "a😀b" 1 .readOnly true) = "a😀b" := by cbv
  have hregion : (Span.mk 1 2).FitsIn
      (TextBuffer.contents (Rationed.mk "a😀b" 1 .readOnly true)).toList.length := by
    rw [hcontents]
    decide
  have hreadable : (FormatOptions.ofPreferences plain.preferences).isOk = true := by
    decide +kernel
  have hwhole : ApplyOptions.apply { unit := .utf16 } (Rationed.mk "a😀b" 1 .readOnly true)
      [.delete 1 2, .insert 4 "!"] =
        ⟨⟨"a😀b", 1, .readOnly, true⟩, .error (.refused 0 .readOnly)⟩ := by cbv
  have hplace : ApplyOptions.applyInPlace { unit := .utf16 } (Rationed.mk "a😀b" 1 .readOnly true)
      [.delete 1 2, .insert 4 "!"] =
        ⟨⟨"a😀b!", 0, .readOnly, true⟩, .error ⟨1, .refused 0 .readOnly⟩⟩ := by cbv
  have hchars : Batch.toCharacters [.delete 1 2, .insert 4 "!"] .utf16
      (TextBuffer.contents (Rationed.mk "a😀b" 1 .readOnly true)) =
        .ok [.delete 1 1, .insert 3 "!"] := by
    rw [hcontents]
    cbv
  cases hoptions : FormatOptions.ofPreferences plain.preferences with
  | error cause =>
      rw [hoptions] at hreadable
      cases hreadable
  | ok options =>
      obtain ⟨request, _, hagree⟩ := format_agrees_with_apply plain
        (Script.mk [.edits [.delete 1 2, .insert 4 "!"]]) (Rationed.mk "a😀b" 1 .readOnly true)
        ⟨1, 2⟩ hregion hoptions
      obtain ⟨hset, hmode⟩ := hagree _ rfl
      refine ⟨hregion, rfl, (hset rfl).trans ?_,
        ((hmode .inPlace (Or.inl rfl)).2 _ hchars).trans ?_⟩
      · exact congrArg (Outcome.mapError FormatError.apply) hwhole
      · exact congrArg (Outcome.mapError FormatError.interrupted) hplace

end Formatter

end TextEditing
