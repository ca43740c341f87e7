/-
Module: TextEditing.Proofs.FormattingRequests
Purpose: What a formatter sends to its service for a region of a buffer, or why it sends nothing,
  and what follows from the request.
Main exports: LineEnding.hasReturn_iff, Formatter.requestFor, Formatter.request_of_not_fits,
  Formatter.request_of_unreadable, Formatter.request_of_readable, Formatter.request_eq_ok_iff,
  Formatter.format_of_request_ok, Formatter.format_of_request_error
-/
import Mathlib.Data.List.Infix
import TextEditing.Format.Formatter
import TextEditing.Proofs.Boundaries
import TextEditing.Text.Encoded

namespace TextEditing

/-!
The region is looked at first: one that does not fit into the text is an error whatever the
preferences say.  Then the preferences are read, and only if both are in order is there a request.
It names the code units in front of the two ends of the region, since the table of the text holds
exactly these numbers.
-/

/-- The search finds a line feed behind a carriage return wherever in the text it stands. -/
theorem LineEnding.hasReturn_iff {text : List Char} :
    hasReturn text = true ↔ ['\r', '\n'] <:+: text := by
  fun_induction hasReturn text with
  | case1 rest =>
      rw [iff_true_left rfl]
      exact List.IsPrefix.isInfix ⟨rest, rfl⟩
  | case2 c rest hother ih =>
      rw [ih, List.infix_cons_iff]
      constructor
      · intro hinfix
        exact Or.inr hinfix
      · intro h
        rcases h with hprefix | hinfix
        · -- A prefix would have been found by the case before.
          obtain ⟨tail, htail⟩ := hprefix
          injection htail with hc hrest
          exact (hother tail hc.symm hrest.symm).elim
        · exact hinfix
  | case3 => simp

theorem LineEnding.detect_eq (text : String) :
    detect text = if ['\r', '\n'] <:+: text.toList then crlf else lf := by
  by_cases h : hasReturn text.toList = true
  · rw [detect, if_pos h, if_pos (hasReturn_iff.1 h)]
  · rw [detect, if_neg h, if_neg (mt hasReturn_iff.2 h)]

theorem EditorOptions.newLine_of_ofPreferences {preferences : Preferences}
    {options : EditorOptions} (h : ofPreferences preferences = .ok options) :
    options.newLine = LineEnding.lf.sequence := by
  rw [ofPreferences] at h
  cases hindent : columns preferences indentSizeKey with
  | error cause =>
      rw [hindent] at h
      cases h
  | ok indentSize =>
      cases htab : columns preferences tabSizeKey with
      | error cause =>
          rw [hindent, htab] at h
          cases h
      | ok tabSize =>
          cases hstyle : (Choice.ofText (preferences.text indentStyleKey) :
              Except OptionsError IndentStyle) with
          | error cause =>
              rw [hindent, htab, hstyle] at h
              cases h
          | ok indentStyle =>
              rw [hindent, htab, hstyle] at h
              cases h
              rfl

/-- Options that come from preferences end lines in a line feed already. -/
theorem FormatOptions.withLineEnding_lf {preferences : Preferences} {options : FormatOptions}
    (h : ofPreferences preferences = .ok options) : options.withLineEnding .lf = options := by
  cases heditor : EditorOptions.ofPreferences preferences with
  | error cause =>
      rw [ofPreferences, heditor] at h
      cases h
  | ok editor =>
      rw [ofPreferences, heditor] at h
      cases h
      rw [withLineEnding, EditorOptions.withLineEnding,
        ← EditorOptions.newLine_of_ofPreferences heditor]

namespace Formatter

/-- The line ending that is sent with a text: the one with a carriage return exactly if the endings
of the text count and the text has one such. -/
def ending (formatter : Formatter) (text : List Char) : LineEnding :=
  if formatter.settings.detectLineEnding = true ∧ ['\r', '\n'] <:+: text then .crlf else .lf

/-- The request for a region of a text, given what the preferences say: the text, the numbers of
code units in front of the start and of the end of the region, and the options with the line ending
for the text. -/
def requestFor (formatter : Formatter) (text : List Char) (region : Span)
    (options : FormatOptions) : FormatRequest where
  text := String.ofList text
  start := (formatter.settings.apply.unit.encode (text.take region.start)).length
  stop :=
    (formatter.settings.apply.unit.encode (text.take (region.start + region.length))).length
  options := options.withLineEnding (formatter.ending text)

variable {formatter : Formatter} {options : FormatOptions} {cause : OptionsError} {text : String}

theorem options_of_unreadable (text : String)
    (h : FormatOptions.ofPreferences formatter.preferences = .error cause) :
    formatter.options text = .error (.options cause) := by
  rw [Formatter.options, h]
  rfl

theorem options_of_readable (text : String)
    (h : FormatOptions.ofPreferences formatter.preferences = .ok options) :
    formatter.options text = .ok (options.withLineEnding (formatter.ending text.toList)) := by
  rw [Formatter.options, h, ending]
  cases hdetect : formatter.settings.detectLineEnding with
  | false =>
      rw [if_neg fun hending => Bool.false_ne_true hending.1, FormatOptions.withLineEnding_lf h]
      rfl
  | true =>
      simp only [true_and, ← LineEnding.detect_eq]
      rfl

section

variable {β : Type} [TextBuffer β] {buffer : β} {region : Span} {mode : FormatMode}

/-- A region that does not fit is reported before the preferences are read. -/
theorem request_of_not_fits
    (h : ¬ region.FitsIn (TextBuffer.contents buffer).toList.length) :
    formatter.request buffer region = .error (.region region (TextBuffer.length buffer)) := by
  rw [request, OffsetTable.spanOfCharacters?_of_not_fits h]

theorem request_of_unreadable
    (hregion : region.FitsIn (TextBuffer.contents buffer).toList.length)
    (hpreferences : FormatOptions.ofPreferences formatter.preferences = .error cause) :
    formatter.request buffer region = .error (.options cause) := by
  rw [request, OffsetTable.spanOfCharacters?_of_fits hregion, options_of_unreadable _ hpreferences]
  rfl

theorem request_of_readable
    (hregion : region.FitsIn (TextBuffer.contents buffer).toList.length)
    (hpreferences : FormatOptions.ofPreferences formatter.preferences = .ok options) :
    formatter.request buffer region =
      .ok (formatter.requestFor (TextBuffer.contents buffer).toList region options) := by
  have hstop : formatter.settings.apply.unit.measure
        ((TextBuffer.contents buffer).toList.take region.start) ≤
      formatter.settings.apply.unit.measure
        ((TextBuffer.contents buffer).toList.take (region.start + region.length)) :=
    OffsetUnit.measure_take_mono (Nat.le_add_right _ _)
  rw [request, OffsetTable.spanOfCharacters?_of_fits hregion, options_of_readable _ hpreferences,
    Span.ofBounds_of_le hstop]
  simp only [requestFor, OffsetUnit.length_encode, String.ofList_toList, bind, Except.bind, pure,
    Except.pure, Nat.add_sub_cancel' hstop]

/-- There is a request exactly for a region that fits and preferences that can be read. -/
theorem request_eq_ok_iff {request : FormatRequest} :
    formatter.request buffer region = .ok request ↔
      region.FitsIn (TextBuffer.contents buffer).toList.length ∧
        ∃ options, FormatOptions.ofPreferences formatter.preferences = .ok options ∧
          request =
            formatter.requestFor (TextBuffer.contents buffer).toList region options := by
  by_cases hregion : region.FitsIn (TextBuffer.contents buffer).toList.length
  · rw [and_iff_right hregion]
    cases hpreferences : FormatOptions.ofPreferences formatter.preferences with
    | error cause => simp [request_of_unreadable hregion hpreferences]
    | ok options => simp [request_of_readable hregion hpreferences, eq_comm]
  · simp [request_of_not_fits hregion, hregion]

/-- With a request the service is asked once, and its answer is carried out. -/
theorem format_of_request_ok {σ : Type} [FormatService σ] {request : FormatRequest}
    (mode : FormatMode) (service : σ) (h : formatter.request buffer region = .ok request) :
    formatter.format mode service buffer region =
      (⟨some request,
          formatter.carryOut mode buffer request (FormatService.ask service request).1⟩,
        (FormatService.ask service request).2) := by
  rw [format, h]

/-- Without a request the service is left alone, and the buffer as well. -/
theorem format_of_request_error {σ : Type} [FormatService σ] {failure : FormatError}
    (mode : FormatMode) (service : σ) (h : formatter.request buffer region = .error failure) :
    formatter.format mode service buffer region = (⟨none, ⟨buffer, .error failure⟩⟩, service) := by
  rw [format, h]

theorem carryOut_of_misfit {request : FormatRequest} {edits : Batch} {fault : ApplyError}
    (h : edits.toCharacters formatter.settings.apply.unit request.text = .error fault) :
    formatter.carryOut mode buffer request (.ok edits) = ⟨buffer, .error (.apply fault)⟩ := by
  rw [carryOut, h]

theorem carryOut_of_restated {request : FormatRequest} {edits resolved : Batch}
    (h : edits.toCharacters formatter.settings.apply.unit request.text = .ok resolved) :
    formatter.carryOut mode buffer request (.ok edits) =
      formatter.applyEdits mode buffer resolved := by
  rw [carryOut, h]

end

end Formatter

end TextEditing
