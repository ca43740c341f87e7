/-
Module: TextEditing.Proofs.ErrorReports
Purpose: Which changes of a batch an error names, and in which unit it gives their spans.
Main exports: ApplyError.About, OffsetUnit.CountsCharacters, Change.span_restate_eq_iff,
  ApplyOptions.Reports, ApplyOptions.reports_cases, ApplyOptions.about_iff
-/
import TextEditing.Proofs.PartialProgress

namespace TextEditing

/-!
An error names changes by their positions in the batch, and most errors give the spans of these
changes as well.  Errors of the conversion to characters give them as they are in the batch.  Later
on only the batch in characters is at hand, so a conflict and a span that does not fit by then are
told in characters.  That makes no difference exactly as long as, up to the ends of the spans, no
character of the text is wider than one unit.
-/

theorem Batch.index_lt_of_mem {edits : Batch} {edit : Numbered} (h : edit ∈ numbered edits) :
    edit.index < edits.length :=
  (List.getElem?_eq_some_iff.1 (mem_numbered.1 h)).1

theorem Batch.eq_of_mem_numbered {edits : Batch} {edit : Numbered} (h : edit ∈ numbered edits) :
    ∀ change ∈ edits[edit.index]?, edit.change = change := by
  intro change hchange
  rw [mem_numbered.1 h] at hchange
  exact Option.some.inj hchange

namespace ApplyError

/-- The positions of the changes that the error names. -/
def positions : ApplyError → List Nat
  | outOfBounds index _ _ => [index]
  | overlap index _ otherIndex _ => [index, otherIndex]
  | misaligned index _ => [index]
  | refused index _ => [index]

/-- The spans that the error gives, with the positions that they are said to belong to. -/
def spans : ApplyError → List (Nat × Span)
  | outOfBounds index span _ => [(index, span)]
  | overlap index span otherIndex otherSpan => [(index, span), (otherIndex, otherSpan)]
  | misaligned _ _ => []
  | refused _ _ => []

/-- The error is told in terms of the changes of the batch. -/
structure About (cause : ApplyError) (edits : Batch) : Prop where
  /-- Every position is one of the batch. -/
  inside : ∀ position ∈ cause.positions, position < edits.length
  /-- Every span is that of the change at its position. -/
  own_span : ∀ named ∈ cause.spans, ∀ change ∈ edits[named.1]?, named.2 = change.span
  /-- A misaligned offset is the start or the end of the change at its position. -/
  own_offset : ∀ index offset, cause = .misaligned index offset → ∀ change ∈ edits[index]?,
    offset = change.span.start ∨ offset = change.span.start + change.span.length

section

variable {edits : Batch} {edit : Numbered}

theorem about_outOfBounds {length : Nat} (h : edit ∈ Batch.numbered edits) :
    (outOfBounds edit.index edit.change.span length).About edits where
  inside := by
    intro position hposition
    rw [List.mem_singleton.1 hposition]
    exact Batch.index_lt_of_mem h
  own_span := by
    intro named hnamed change hchange
    rw [List.mem_singleton.1 hnamed] at hchange ⊢
    exact congrArg Change.span (Batch.eq_of_mem_numbered h change hchange)
  own_offset := by
    intro index offset hcause
    cases hcause

theorem about_overlap {conflict : Conflict} (hlater : conflict.later ∈ Batch.numbered edits)
    (hearlier : conflict.earlier ∈ Batch.numbered edits) :
    (overlap conflict.later.index conflict.later.change.span conflict.earlier.index
      conflict.earlier.change.span).About edits where
  inside := by
    intro position hposition
    rcases List.mem_pair.1 hposition with rfl | rfl
    · exact Batch.index_lt_of_mem hlater
    · exact Batch.index_lt_of_mem hearlier
  own_span := by
    intro named hnamed change hchange
    rcases List.mem_pair.1 hnamed with rfl | rfl
    · exact congrArg Change.span (Batch.eq_of_mem_numbered hlater change hchange)
    · exact congrArg Change.span (Batch.eq_of_mem_numbered hearlier change hchange)
  own_offset := by
    intro index offset hcause
    cases hcause

theorem about_misaligned {offset : Nat} (h : edit ∈ Batch.numbered edits)
    (hoffset : offset = edit.change.span.start ∨
      offset = edit.change.span.start + edit.change.span.length) :
    (misaligned edit.index offset).About edits where
  inside := by
    intro position hposition
    rw [List.mem_singleton.1 hposition]
    exact Batch.index_lt_of_mem h
  own_span := by
    intro named hnamed
    cases hnamed
  own_offset := by
    intro index other hcause change hchange
    cases hcause
    rw [← Batch.eq_of_mem_numbered h change hchange]
    exact hoffset

theorem about_refused {source : BufferError} (h : edit ∈ Batch.numbered edits) :
    (refused edit.index source).About edits where
  inside := by
    intro position hposition
    rw [List.mem_singleton.1 hposition]
    exact Batch.index_lt_of_mem h
  own_span := by
    intro named hnamed
    cases hnamed
  own_offset := by
    intro index offset hcause
    cases hcause

end

end ApplyError

/-!
### The unit of a span
-/

/-- Up to the offset the unit counts characters: none in front of it is wider than one unit. -/
def OffsetUnit.CountsCharacters (unit : OffsetUnit) (text : List Char) (offset : Nat) : Prop :=
  ∀ place ≤ text.length, unit.measure (text.take place) ≤ offset →
    unit.measure (text.take place) = place

instance (unit : OffsetUnit) (text : List Char) (offset : Nat) :
    Decidable (unit.CountsCharacters text offset) :=
  inferInstanceAs (Decidable (∀ place ≤ text.length, _ → _))

theorem OffsetUnit.countsCharacters_character (text : List Char) (offset : Nat) :
    character.CountsCharacters text offset := by
  intro place hplace _
  rw [measure_character, List.length_take_of_le hplace]

/-- A place that is its own offset has only characters of one unit in front of it. -/
theorem OffsetUnit.countsCharacters_of_measure {unit : OffsetUnit} {text : List Char} {place : Nat}
    (hplace : place ≤ text.length) (h : unit.measure (text.take place) = place) :
    unit.CountsCharacters text place := by
  intro other hother hle
  rw [← h] at hle
  have hbefore : other ≤ place := (measure_take_le_iff hother).1 hle
  have hsplit : unit.measure (text.take place) = _ := measure_take_add hbefore
  have hbetween := unit.length_le_measure (excerpt text other place)
  have hfront := unit.length_le_measure (text.take other)
  rw [length_excerpt other hplace] at hbetween
  rw [List.length_take_of_le hother] at hfront
  omega

/-- The span of an aligned change is the same in characters exactly if the unit counts characters up
to the end of the span. -/
theorem Change.span_restate_eq_iff {unit : OffsetUnit} {text : String} {change : Change}
    (h : change.span.AlignedIn unit text.toList) :
    (change.restate unit text).span = change.span ↔
      unit.CountsCharacters text.toList (change.span.start + change.span.length) := by
  obtain ⟨first, last, hcovers⟩ := h.exists_covers
  have hstart := hcovers.measure_first
  have hstop := hcovers.measure_last
  have hspan : (change.restate unit text).span = ⟨first, last - first⟩ :=
    congrArg Change.span (restate_of_covers h.fits.1 hcovers)
  rw [hspan]
  constructor
  · intro heq
    have hfirst : first = change.span.start := congrArg Span.start heq
    have hlength : last - first = change.span.length := congrArg Span.length heq
    have hlast : last = change.span.start + change.span.length := by
      have := hcovers.ordered
      omega
    rw [← hlast] at hstop ⊢
    exact OffsetUnit.countsCharacters_of_measure hcovers.inside hstop
  · intro hcounts
    have hfirst := hcounts first hcovers.first_inside (by omega)
    have hlast := hcounts last hcovers.inside (Nat.le_of_eq hstop)
    have hplace : first = change.span.start := by omega
    have hlength : last - first = change.span.length := by omega
    rw [hplace, ← hplace, hlength, hplace]

/-!
### Where errors come from
-/

/-- An error of the conversion is told in terms of the batch that is converted. -/
theorem Batch.toCharacters_error_about {edits : Batch} {unit : OffsetUnit} {text : String}
    {cause : ApplyError} (h : edits.toCharacters unit text = .error cause) : cause.About edits := by
  rw [toCharacters_of_ne (toCharacters_error h).1] at h
  obtain ⟨place, change, hmem, hchange⟩ := OffsetTable.exists_changeToCharacters_error h
  rw [Nat.zero_add] at hchange
  have hnumbered : ⟨place, change⟩ ∈ numbered edits := mem_numbered.2 hmem
  rcases OffsetTable.changeToCharacters_error hchange with rfl | ⟨offset, rfl, hoffset⟩
  · exact ApplyError.about_outOfBounds hnumbered
  · exact ApplyError.about_misaligned hnumbered hoffset

theorem Batch.rejectConflict_about {edits : Batch} {cause : ApplyError}
    (h : edits.rejectConflict = .error cause) :
    cause.About edits ∧ ∀ index offset, cause ≠ .misaligned index offset := by
  unfold rejectConflict at h
  split at h
  · cases h
  · rename_i later earlier hconflict
    cases h
    obtain ⟨hlater, hearlier⟩ := mem_of_conflict? hconflict
    exact ⟨ApplyError.about_overlap hlater hearlier, fun _ _ hcause => nomatch hcause⟩

/-- A check over lengths stops at a change of which the span does not fit. -/
theorem exists_of_validateAll_error {length : Nat} {edits : List Numbered} {cause : ApplyError}
    (h : validateAll length edits = .error cause) :
    ∃ edit ∈ edits, ∃ live, cause = .outOfBounds edit.index edit.change.span live := by
  induction edits generalizing length with
  | nil => cases h
  | cons edit rest ih =>
      rw [validateAll] at h
      split at h
      · obtain ⟨other, hother, live, hcause⟩ := ih h
        exact ⟨other, List.mem_cons_of_mem _ hother, live, hcause⟩
      · cases h
        exact ⟨edit, List.mem_cons_self, length, rfl⟩

theorem Batch.validateAll_about {edits : Batch} {length : Nat} {cause : ApplyError}
    (h : validateAll length edits.applicationOrder = .error cause) :
    cause.About edits ∧ ∀ index offset, cause ≠ .misaligned index offset := by
  obtain ⟨edit, hedit, live, rfl⟩ := exists_of_validateAll_error h
  exact ⟨ApplyError.about_outOfBounds (mem_applicationOrder.1 hedit),
    fun _ _ hcause => nomatch hcause⟩

theorem Batch.runAll_about {β : Type} [TextBuffer β] {buffer : β} {edits : Batch}
    {cause : ApplyError} (h : (runAll buffer edits.applicationOrder).failure = some cause) :
    cause.About edits ∧ ∀ index offset, cause ≠ .misaligned index offset := by
  obtain ⟨edit, hedit, hfails, _⟩ := runAll_take_of_failure h
  have hmem := mem_applicationOrder.1 (List.mem_of_getElem? hedit)
  rcases Numbered.applyTo_error hfails with ⟨length, rfl⟩ | ⟨source, rfl⟩
  · exact ⟨ApplyError.about_outOfBounds hmem, fun _ _ hcause => nomatch hcause⟩
  · exact ⟨ApplyError.about_refused hmem, fun _ _ hcause => nomatch hcause⟩

namespace ApplyOptions

variable {β : Type} [TextBuffer β] {options : ApplyOptions} {buffer : β} {edits : Batch}
  {cause : ApplyError}

/-- The check of the batch or one of the ways to apply it ends with the error. -/
def Reports (options : ApplyOptions) (buffer : β) (edits : Batch) (cause : ApplyError) : Prop :=
  options.validate buffer edits = .error cause ∨
    (options.apply buffer edits).result = .error cause ∨
      ∃ applied, (options.applyInPlace buffer edits).result = .error ⟨applied, cause⟩

/-- What is reported by an application as a whole is reported by one in place. -/
theorem reports_iff :
    options.Reports buffer edits cause ↔
      options.validate buffer edits = .error cause ∨
        ∃ applied, (options.applyInPlace buffer edits).result = .error ⟨applied, cause⟩ := by
  have hwhole : (options.apply buffer edits).result = .error cause →
      ∃ applied, (options.applyInPlace buffer edits).result = .error ⟨applied, cause⟩ := by
    intro h
    rw [apply_eq] at h
    cases hresult : (options.applyInPlace buffer edits).result with
    | ok delta =>
        rw [hresult] at h
        cases h
    | error interruption =>
        rw [hresult] at h
        cases h
        exact ⟨interruption.applied, rfl⟩
  rw [Reports, ← or_assoc, or_right_comm, or_iff_left_of_imp]
  exact fun h => Or.inr (hwhole h)

/-- A batch that is not ready to be applied is reported for this reason only. -/
theorem eq_of_reports {fault : ApplyError} (hresolve : options.resolve buffer edits = .error fault)
    (h : options.Reports buffer edits cause) : fault = cause := by
  rcases reports_iff.1 h with hcheck | ⟨applied, hresult⟩
  · rw [validate_of_resolve_error hresolve] at hcheck
    exact Except.error.inj hcheck
  · rw [applyInPlace_of_resolve_error hresolve] at hresult
    exact congrArg Interruption.cause (Except.error.inj hresult)

/-- An error comes from the conversion and is told in terms of the batch; or the batch has been
converted, and the error is told in terms of the batch in characters. -/
theorem reports_cases (h : options.Reports buffer edits cause) :
    (edits.toCharacters options.unit (TextBuffer.contents buffer) = .error cause ∧
        cause.About edits) ∨
      ∃ resolved,
        edits.toCharacters options.unit (TextBuffer.contents buffer) = .ok resolved ∧
        cause.About resolved ∧ ∀ index offset, cause ≠ .misaligned index offset := by
  rcases resolve_cases options buffer edits with
    ⟨fault, hchars, hresolve⟩ | ⟨resolved, fault, hchars, _, hconflict, hresolve⟩ |
      ⟨resolved, hchars, _, hresolve⟩
  · cases eq_of_reports hresolve h
    exact Or.inl ⟨hchars, Batch.toCharacters_error_about hchars⟩
  · cases eq_of_reports hresolve h
    exact Or.inr ⟨resolved, hchars, Batch.rejectConflict_about hconflict⟩
  · refine Or.inr ⟨resolved, hchars, ?_⟩
    rcases reports_iff.1 h with hcheck | ⟨applied, hresult⟩
    · rw [validate_of_resolve_ok hresolve] at hcheck
      exact Batch.validateAll_about hcheck
    · cases hrun : (runAll buffer resolved.applicationOrder).failure with
      | none =>
          rw [applyInPlace_of_no_failure hresolve hrun] at hresult
          cases hresult
      | some fault =>
          rw [applyInPlace_of_failure hresolve hrun] at hresult
          cases hresult
          exact Batch.runAll_about hrun

/-- Every error names changes of the batch, and a misaligned offset is an end of the change that is
named.  Spans are given as they are in the batch when there is no conversion or when it fails, and in
characters otherwise.  So the error is told in terms of the batch exactly if it comes from the
conversion or if the unit counts characters up to the end of every change that is named with its
span. -/
theorem about_iff (h : options.Reports buffer edits cause) :
    (∀ position ∈ cause.positions, position < edits.length) ∧
      (∀ index offset, cause = .misaligned index offset → ∀ change ∈ edits[index]?,
        offset = change.span.start ∨ offset = change.span.start + change.span.length) ∧
      (edits.toCharacters options.unit (TextBuffer.contents buffer) = .error cause ∨
        ∀ named ∈ cause.spans, ∀ change ∈ edits[named.1]?,
          named.2 = (change.restate options.unit (TextBuffer.contents buffer)).span) ∧
      (cause.About edits ↔
        edits.toCharacters options.unit (TextBuffer.contents buffer) = .error cause ∨
          ∀ named ∈ cause.spans, ∀ change ∈ edits[named.1]?,
            options.unit.CountsCharacters (TextBuffer.contents buffer).toList
              (change.span.start + change.span.length)) := by
  rcases reports_cases h with ⟨hchars, habout⟩ | ⟨resolved, hchars, habout, haligned⟩
  · exact ⟨habout.inside, habout.own_offset, Or.inl hchars, iff_of_true habout (Or.inl hchars)⟩
  · obtain ⟨hunit, rfl⟩ := Batch.toCharacters_eq_ok_iff.1 hchars
    have hinside : ∀ position ∈ cause.positions, position < edits.length := by
      intro position hposition
      rw [← List.length_map (Change.restate options.unit (TextBuffer.contents buffer))]
      exact habout.inside position hposition
    have hoffset : ∀ index offset, cause = .misaligned index offset → ∀ change ∈ edits[index]?,
        offset = change.span.start ∨ offset = change.span.start + change.span.length :=
      fun index offset hcause => absurd hcause (haligned index offset)
    have hspan : ∀ named ∈ cause.spans, ∀ change ∈ edits[named.1]?,
        named.2 = (change.restate options.unit (TextBuffer.contents buffer)).span := by
      intro named hnamed change hchange
      apply habout.own_span named hnamed
      rw [List.getElem?_map, hchange]
      rfl
    -- A change named with its span has the same span in characters as long as units are characters.
    have hsame : ∀ change ∈ edits,
        (change.restate options.unit (TextBuffer.contents buffer)).span = change.span ↔
          options.unit.CountsCharacters (TextBuffer.contents buffer).toList
            (change.span.start + change.span.length) := by
      intro change hchange
      rcases hunit with hcharacter | hall
      · rw [hcharacter, Change.restate_character]
        exact iff_of_true rfl (OffsetUnit.countsCharacters_character _ _)
      · exact Change.span_restate_eq_iff (hall change hchange)
    refine ⟨hinside, hoffset, Or.inr hspan, ?_⟩
    rw [hchars, or_iff_right (by exact fun hcause => nomatch hcause)]
    constructor
    · intro hown named hnamed change hchange
      rw [← hsame change (List.mem_of_getElem? hchange), ← hspan named hnamed change hchange]
      exact hown.own_span named hnamed change hchange
    · intro hcounts
      refine ⟨hinside, ?_, hoffset⟩
      intro named hnamed change hchange
      rw [hspan named hnamed change hchange]
      exact (hsame change (List.mem_of_getElem? hchange)).2 (hcounts named hnamed change hchange)

/-- A conflict in front of the first wide character is told in the unit of the batch. -/
theorem about_iff_in_front_of_surrogates :
    Reports ⟨.reject, .utf16⟩ "ab👋c" [.replace 0 2 "x", .replace 1 1 "y", .delete 2 2]
        (.overlap 1 ⟨1, 1⟩ 0 ⟨0, 2⟩) ∧
      (ApplyError.overlap 1 ⟨1, 1⟩ 0 ⟨0, 2⟩).About
        [.replace 0 2 "x", .replace 1 1 "y", .delete 2 2] := by
  have hreports : Reports ⟨.reject, .utf16⟩ "ab👋c"
      [.replace 0 2 "x", .replace 1 1 "y", .delete 2 2] (.overlap 1 ⟨1, 1⟩ 0 ⟨0, 2⟩) := by
    left
    cbv
  refine ⟨hreports, (about_iff hreports).2.2.2.2 (Or.inr ?_)⟩
  decide +kernel

/-- Behind a wide character a conflict is told in characters, which are not what the batch gives. -/
theorem not_about_behind_surrogates :
    (apply ⟨.reject, .utf16⟩ "a👋b👋c" [.replace 1 3 "x", .replace 3 3 "y"]).result =
        .error (.overlap 1 ⟨2, 2⟩ 0 ⟨1, 2⟩) ∧
      ¬ (ApplyError.overlap 1 ⟨2, 2⟩ 0 ⟨1, 2⟩).About [.replace 1 3 "x", .replace 3 3 "y"] := by
  have hresult : (apply ⟨.reject, .utf16⟩ "a👋b👋c"
      [.replace 1 3 "x", .replace 3 3 "y"]).result = .error (.overlap 1 ⟨2, 2⟩ 0 ⟨1, 2⟩) := by cbv
  refine ⟨hresult, ?_⟩
  intro habout
  have hspan := habout.own_span (1, ⟨2, 2⟩) List.mem_cons_self _ rfl
  exact absurd hspan (by decide)

end ApplyOptions

end TextEditing
