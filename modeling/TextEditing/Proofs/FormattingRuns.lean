/-
Module: TextEditing.Proofs.FormattingRuns
Purpose: What a formatter asks over a whole run, and what its errors leave as it was.
Main exports: Formatter.due?, Formatter.requests_format, Formatter.format_unchanged,
  Session.Transition.Lawful, Session.step_lawful, Session.run_lawful
-/
import TextEditing.Format.Session
import TextEditing.Proofs.FormattingRequests
import TextEditing.Proofs.PartialProgress

namespace TextEditing

open FaithfulBuffer (chars toList_contents)

/-!
A step asks the service exactly for what is due: one request for a region that fits, made from the
text and the preferences of that moment, and nothing otherwise.  Whatever goes wrong before the
first change leaves the buffer alone: then there was no request, no answer, or an application that
did not begin.  Both hold of one step from any state, so they hold of every step of a run.
-/

/-- The error tells of changes that have been made. -/
def FormatError.IsPartial (failure : FormatError) : Prop :=
  ∃ interruption, failure = .interrupted interruption ∧ interruption.isPartial = true

theorem Outcome.exists_error_of_mapError {β ε ε' : Type} {f : ε → ε'} {outcome : Outcome β ε}
    {failure : ε'} (h : (outcome.mapError f).result = .error failure) :
    ∃ cause, outcome.result = .error cause ∧ f cause = failure := by
  obtain ⟨buffer, result⟩ := outcome
  cases result with
  | error cause => exact ⟨cause, rfl, Except.error.inj h⟩
  | ok delta => cases h

section Frame

variable {β : Type} [TextBuffer β] {buffer : β} {formatter : Formatter} {mode : FormatMode}
  {failure : FormatError}

theorem ApplyOptions.apply_unchanged {options : ApplyOptions} {edits : Batch} {cause : ApplyError}
    (h : (options.apply buffer edits).result = .error cause) :
    (options.apply buffer edits).buffer = buffer := by
  rw [apply_eq] at h ⊢
  cases hresult : (options.applyInPlace buffer edits).result with
  | error interruption => rfl
  | ok delta =>
      rw [hresult] at h
      cases h

namespace Formatter

theorem applyEdits_unchanged {edits : Batch}
    (h : (formatter.applyEdits mode buffer edits).result = .error failure)
    (hnone : ¬ failure.IsPartial) : (formatter.applyEdits mode buffer edits).buffer = buffer := by
  by_cases hset : mode = .asSet ∧ formatter.settings.atomic = true
  · rw [applyEdits, if_pos hset] at h ⊢
    obtain ⟨cause, hcause, _⟩ := Outcome.exists_error_of_mapError h
    exact ApplyOptions.apply_unchanged hcause
  · rw [applyEdits, if_neg hset] at h ⊢
    obtain ⟨⟨applied, cause⟩, hcause, rfl⟩ := Outcome.exists_error_of_mapError h
    rcases Nat.eq_zero_or_pos applied with rfl | hpos
    · exact ApplyOptions.applyInPlace_unchanged hcause
    · exact absurd ⟨_, rfl, decide_eq_true hpos⟩ hnone

theorem carryOut_unchanged {request : FormatRequest} {reply : FormatReply}
    (h : (formatter.carryOut mode buffer request reply).result = .error failure)
    (hnone : ¬ failure.IsPartial) :
    (formatter.carryOut mode buffer request reply).buffer = buffer := by
  cases reply with
  | error reason => rfl
  | ok edits =>
      cases hchars : edits.toCharacters formatter.settings.apply.unit request.text with
      | error cause => rw [carryOut_of_misfit hchars]
      | ok resolved =>
          rw [carryOut_of_restated hchars] at h ⊢
          exact applyEdits_unchanged h hnone

/-- An error that tells of no changes leaves the buffer as it was. -/
theorem format_unchanged {σ : Type} [FormatService σ] {service : σ} {region : Span}
    (h : (formatter.format mode service buffer region).1.outcome.result = .error failure)
    (hnone : ¬ failure.IsPartial) :
    (formatter.format mode service buffer region).1.outcome.buffer = buffer := by
  cases hrequest : formatter.request buffer region with
  | error cause => rw [format_of_request_error mode service hrequest]
  | ok request =>
      rw [format_of_request_ok mode service hrequest] at h ⊢
      exact carryOut_unchanged h hnone

end Formatter

end Frame

namespace Formatter

/-- What the service is to be asked for a region of a text: nothing unless the region fits and the
preferences can be read. -/
def due? (formatter : Formatter) (text : List Char) (region : Span) : Option FormatRequest :=
  if region.FitsIn text.length then
    (FormatOptions.ofPreferences formatter.preferences).toOption.map
      (formatter.requestFor text region)
  else
    none

variable {β : Type} [TextBuffer β] [FaithfulBuffer β] {buffer : β} {formatter : Formatter}
  {region : Span}

/-- A region that fits into the text and preferences that can be read make exactly one request, and
nothing else makes any. -/
theorem requests_format {σ : Type} [FormatService σ] (formatter : Formatter) (mode : FormatMode)
    (recorded : Recorded σ) (region : Span) (hbound : (chars buffer).length ≤ maxOffset) :
    (formatter.format mode recorded buffer region).2.requests =
      recorded.requests ++ (formatter.due? (chars buffer) region).toList := by
  have htext := toList_contents hbound
  by_cases hfits : region.FitsIn (chars buffer).length
  · rw [due?, if_pos hfits]
    rw [← htext] at hfits ⊢
    cases hpreferences : FormatOptions.ofPreferences formatter.preferences with
    | error cause =>
        rw [format_of_request_error mode recorded (request_of_unreadable hfits hpreferences)]
        exact (List.append_nil _).symm
    | ok options =>
        rw [format_of_request_ok mode recorded (request_of_readable hfits hpreferences)]
        rfl
  · rw [due?, if_neg hfits]
    rw [← htext] at hfits
    rw [format_of_request_error mode recorded (request_of_not_fits hfits)]
    exact (List.append_nil _).symm

end Formatter

namespace Session

variable {σ β : Type} [FormatService σ] [TextBuffer β] [FaithfulBuffer β]

namespace Transition

/-- What is due in a step, from the text and the preferences in front of it. -/
def due? (transition : Transition σ β) : Option FormatRequest :=
  transition.region?.bind
    (transition.before.formatter.due? (chars transition.before.buffer))

/-- What a step does to the service and to the buffer, and how it reports that there was nothing
to ask. -/
structure Lawful (transition : Transition σ β) : Prop where
  /-- The service is asked for what is due, once, and for nothing else. -/
  asks_due : transition.after.service.requests =
    transition.before.service.requests ++ transition.due?.toList
  /-- A region that does not fit is reported as such, whatever the preferences are. -/
  reports_region : ∀ region ∈ transition.region?,
    ¬ region.FitsIn (chars transition.before.buffer).length →
      transition.answer =
        some (.error (.region region (chars transition.before.buffer).length))
  /-- Preferences that cannot be read are reported when the region fits. -/
  reports_preferences : ∀ region ∈ transition.region?,
    region.FitsIn (chars transition.before.buffer).length →
      ∀ cause, FormatOptions.ofPreferences transition.before.formatter.preferences = .error cause →
        transition.answer = some (.error (.options cause))
  /-- The buffer stays as it was unless changes were made. -/
  keeps_buffer : ∀ failure, transition.answer = some (.error failure) → ¬ failure.IsPartial →
    transition.after.buffer = transition.before.buffer

/-- A step that formats the region that its action names is lawful. -/
theorem lawful_formatted {session : Session σ β} {action : Action} {region : Span}
    (mode : FormatMode)
    (hregion : ∀ attempt, (session.formatted action attempt).region? = some region)
    (hbound : (chars session.buffer).length ≤ maxOffset) :
    (session.formatted action
      (session.formatter.format mode session.service session.buffer region)).Lawful where
  asks_due := by
    rw [due?, hregion]
    exact session.formatter.requests_format mode session.service region hbound
  reports_region := by
    intro other hother hmisfit
    rw [hregion] at hother
    cases hother
    have hrequest : session.formatter.request session.buffer region = _ :=
      Formatter.request_of_not_fits ((toList_contents hbound).symm ▸ hmisfit)
    rw [Formatter.format_of_request_error mode session.service hrequest,
      FaithfulBuffer.length_eq]
    rfl
  reports_preferences := by
    intro other hother hfits cause hpreferences
    rw [hregion] at hother
    cases hother
    have hrequest : session.formatter.request session.buffer region = _ :=
      Formatter.request_of_unreadable ((toList_contents hbound).symm ▸ hfits) hpreferences
    rw [Formatter.format_of_request_error mode session.service hrequest]
    rfl
  keeps_buffer := by
    intro failure hanswer hnone
    exact Formatter.format_unchanged (Option.some.inj hanswer) hnone

end Transition

/-- Every step from a text that 64 bits can count is lawful. -/
theorem step_lawful (session : Session σ β) (action : Action)
    (hbound : (chars session.buffer).length ≤ maxOffset) : (session.step action).Lawful := by
  cases action with
  | format mode region => exact Transition.lawful_formatted mode (fun _ => rfl) hbound
  | formatAll mode => exact Transition.lawful_formatted mode (fun _ => rfl) hbound
  | prefer change =>
      refine ⟨(List.append_nil _).symm, ?_, ?_, ?_⟩
      · intro region hregion
        cases hregion
      · intro region hregion
        cases hregion
      · intro failure hanswer
        cases hanswer

end Session

end TextEditing
