/-
Module: TextEditing.Proofs.ModificationStamps
Purpose: What the modification stamp of a document tells over whole runs.
Main exports: Document.Stamped, ApplyOptions.stamped_applyInPlace, Formatter.stamped_format,
  Editing.Transition.committed, Editing.Transition.Lawful, Editing.step_lawful,
  Editing.run_stamped
-/
import TextEditing.Format.Editing
import TextEditing.Proofs.FormattingRuns
import TextEditing.Proofs.Replay

namespace TextEditing

/-!
A replacement is the only way to change the text of a document, and it raises the stamp by one.
However replacements are put together, the stamp therefore counts those that were committed, up to
the highest stamp there is: a run over a batch commits one for each change that it made, and an
application as a whole that fails commits none, since the document it began with is kept.
-/

namespace Document

/-- The second document has come from the first one by so many replacements. -/
structure Stamped (before after : Document) (count : Nat) : Prop where
  version_eq : after.version = min (before.version + count) maxVersion
  unchanged : count = 0 → after = before
  guard_eq : after.readOnly = before.readOnly
  open_of_pos : 0 < count → before.readOnly = false

namespace Stamped

variable {a b c : Document} {m n : Nat}

theorem refl (h : a.version ≤ maxVersion) : Stamped a a 0 where
  version_eq := (Nat.min_eq_left h).symm
  unchanged _ := rfl
  guard_eq := rfl
  open_of_pos h := absurd h (Nat.lt_irrefl 0)

theorem trans (hab : Stamped a b m) (hbc : Stamped b c n) : Stamped a c (m + n) where
  version_eq := by
    rw [hbc.version_eq, hab.version_eq]
    omega
  unchanged h := by
    obtain ⟨hm, hn⟩ := Nat.add_eq_zero_iff.1 h
    rw [hbc.unchanged hn, hab.unchanged hm]
  guard_eq := hbc.guard_eq.trans hab.guard_eq
  open_of_pos h := by
    rcases Nat.eq_zero_or_pos m with rfl | hm
    · rw [← hab.guard_eq]
      exact hbc.open_of_pos (by omega)
    · exact hab.open_of_pos hm

theorem version_le (h : Stamped a b n) : b.version ≤ maxVersion := by
  rw [h.version_eq]
  exact Nat.min_le_right _ _

end Stamped

/-- A replacement that is accepted counts once. -/
theorem stamped_of_replace {document changed : Document} {start length : Nat} {newText : String}
    (h : TextBuffer.replace document start length newText = .ok changed) :
    Stamped document changed 1 := by
  cases hguard : document.readOnly with
  | true =>
      rw [replace_of_readOnly hguard] at h
      cases h
  | false =>
      rw [replace_of_open hguard] at h
      cases hrope : TextBuffer.replace document.rope start length newText with
      | error cause =>
          rw [hrope] at h
          cases h
      | ok rope =>
          rw [hrope] at h
          cases h
          exact ⟨rfl, fun h => absurd h Nat.one_ne_zero, rfl, fun _ => hguard⟩

end Document

open Document (Stamped maxVersion)

variable {document : Document}

/-!
### Batches
-/

/-- A run counts the changes that it made. -/
theorem stamped_runAll (edits : List Numbered) (h : document.version ≤ maxVersion) :
    Stamped document (runAll document edits).buffer (runAll document edits).applied.length := by
  induction edits generalizing document with
  | nil => exact Stamped.refl h
  | cons edit rest ih =>
      cases hstep : edit.applyTo document with
      | error cause =>
          rw [runAll_cons_of_error rest hstep]
          exact Stamped.refl h
      | ok made =>
          obtain ⟨changed, done⟩ := made
          have hfirst := Document.stamped_of_replace (Numbered.replaced_of_applyTo hstep).1
          rw [runAll_cons_of_ok rest hstep, List.length_cons, Nat.add_comm]
          exact hfirst.trans (ih hfirst.version_le)

theorem Batch.length_applicationOrder (edits : Batch) :
    edits.applicationOrder.length = edits.length := by
  rw [applicationOrder, List.length_mergeSort, numbered, List.length_mapIdx]

namespace ApplyOptions

variable {options : ApplyOptions} {edits resolved : Batch}

theorem length_of_resolve {β : Type} [TextBuffer β] {buffer : β}
    (h : options.resolve buffer edits = .ok resolved) : resolved.length = edits.length := by
  rw [(Batch.toCharacters_eq_ok_iff.1 (resolve_eq_ok_iff.1 h).1).2, List.length_map]

/-- The number of replacements that an application in place tells of, by the size of its batch. -/
def committedInPlace (size : Nat) : Except Interruption Delta → Nat
  | .ok _ => size
  | .error interruption => interruption.applied

/-- The number of replacements that an application as a whole tells of, by the size of its batch. -/
def committed (size : Nat) : Except ApplyError Delta → Nat
  | .ok _ => size
  | .error _ => 0

theorem stamped_applyInPlace (options : ApplyOptions) (edits : Batch)
    (h : document.version ≤ maxVersion) :
    Stamped document (options.applyInPlace document edits).buffer
      (committedInPlace edits.length (options.applyInPlace document edits).result) := by
  cases hresolve : options.resolve document edits with
  | error cause =>
      rw [applyInPlace_of_resolve_error hresolve]
      exact Stamped.refl h
  | ok resolved =>
      have hrun := stamped_runAll resolved.applicationOrder h
      cases hfailure : (runAll document resolved.applicationOrder).failure with
      | some cause =>
          rw [applyInPlace_of_failure hresolve hfailure]
          exact hrun
      | none =>
          -- A run that reached its end has one record for each change of the batch.
          have hcount : (runAll document resolved.applicationOrder).applied.length =
              edits.length := by
            have hnames := congrArg List.length (names_of_runAll (runAll_eq_of_no_failure hfailure))
            rw [List.length_map, List.length_map, Batch.length_applicationOrder] at hnames
            rw [hnames, length_of_resolve hresolve]
          rw [hcount] at hrun
          rw [applyInPlace_of_no_failure hresolve hfailure]
          exact hrun

theorem stamped_apply (options : ApplyOptions) (edits : Batch)
    (h : document.version ≤ maxVersion) :
    Stamped document (options.apply document edits).buffer
      (committed edits.length (options.apply document edits).result) := by
  have hplace := options.stamped_applyInPlace edits h
  rw [apply_eq]
  cases hresult : (options.applyInPlace document edits).result with
  | error interruption => exact Stamped.refl h
  | ok delta =>
      rw [hresult] at hplace
      exact hplace

end ApplyOptions

/-!
### Formatting
-/

namespace Formatter

variable {formatter : Formatter} {mode : FormatMode}

/-- The number of replacements that an attempt to format tells of, by the number of changes that the
service offered. -/
def committed (size : Nat) : Except FormatError Delta → Nat
  | .ok _ => size
  | .error (.interrupted interruption) => interruption.applied
  | .error _ => 0

/-- The changes that the service offers for a region; none if it is not asked or fails. -/
def offer {σ β : Type} [FormatService σ] [TextBuffer β] (formatter : Formatter) (service : σ)
    (buffer : β) (region : Span) : Batch :=
  match formatter.request buffer region with
  | .error _ => []
  | .ok request => ((FormatService.ask service request).1.toOption).getD []

theorem stamped_applyEdits (formatter : Formatter) (mode : FormatMode) (edits : Batch)
    (h : document.version ≤ maxVersion) :
    Stamped document (formatter.applyEdits mode document edits).buffer
      (committed edits.length (formatter.applyEdits mode document edits).result) := by
  by_cases hset : mode = .asSet ∧ formatter.settings.atomic = true
  · have hwhole := ApplyOptions.stamped_apply
      { formatter.settings.apply with unit := .character } edits h
    rw [applyEdits, if_pos hset, Outcome.mapError]
    cases hresult : (ApplyOptions.apply { formatter.settings.apply with unit := .character }
        document edits).result with
    | error cause =>
        rw [hresult] at hwhole
        exact hwhole
    | ok delta =>
        rw [hresult] at hwhole
        exact hwhole
  · have hplace := ApplyOptions.stamped_applyInPlace
      { formatter.settings.apply with unit := .character } edits h
    rw [applyEdits, if_neg hset, Outcome.mapError]
    cases hresult : (ApplyOptions.applyInPlace { formatter.settings.apply with unit := .character }
        document edits).result with
    | error interruption =>
        rw [hresult] at hplace
        exact hplace
    | ok delta =>
        rw [hresult] at hplace
        exact hplace

theorem stamped_carryOut (formatter : Formatter) (mode : FormatMode) (request : FormatRequest)
    (reply : FormatReply) (h : document.version ≤ maxVersion) :
    Stamped document (formatter.carryOut mode document request reply).buffer
      (committed (reply.toOption.getD []).length
        (formatter.carryOut mode document request reply).result) := by
  cases reply with
  | error reason => exact Stamped.refl h
  | ok edits =>
      cases hchars : edits.toCharacters formatter.settings.apply.unit request.text with
      | error cause =>
          rw [carryOut_of_misfit hchars]
          exact Stamped.refl h
      | ok resolved =>
          have hlength : resolved.length = edits.length := by
            rw [(Batch.toCharacters_eq_ok_iff.1 hchars).2, List.length_map]
          have hedits := formatter.stamped_applyEdits mode resolved h
          rw [hlength] at hedits
          rw [carryOut_of_restated hchars]
          exact hedits

/-- An attempt that ends before the service is asked tells of no replacements. -/
theorem committed_of_request_error {β : Type} [TextBuffer β] {buffer : β} {region : Span}
    {failure : FormatError} (size : Nat) (h : formatter.request buffer region = .error failure) :
    committed size (.error failure) = 0 := by
  by_cases hregion : region.FitsIn (TextBuffer.contents buffer).toList.length
  · cases hpreferences : FormatOptions.ofPreferences formatter.preferences with
    | error cause =>
        rw [request_of_unreadable hregion hpreferences] at h
        cases h
        rfl
    | ok options =>
        rw [request_of_readable hregion hpreferences] at h
        cases h
  · rw [request_of_not_fits hregion] at h
    cases h
    rfl

theorem stamped_format {σ : Type} [FormatService σ] (formatter : Formatter) (mode : FormatMode)
    (service : σ) (region : Span) (h : document.version ≤ maxVersion) :
    Stamped document (formatter.format mode service document region).1.outcome.buffer
      (committed (formatter.offer service document region).length
        (formatter.format mode service document region).1.outcome.result) := by
  cases hrequest : formatter.request document region with
  | error failure =>
      rw [format_of_request_error mode service hrequest, committed_of_request_error _ hrequest]
      exact Stamped.refl h
  | ok request =>
      rw [format_of_request_ok mode service hrequest, offer, hrequest]
      exact formatter.stamped_carryOut mode request _ h

end Formatter

/-!
### Runs
-/

/-- The number of replacements that an operation tells of. -/
def Operation.committed : Operation → Answer → Nat
  | replace _ _ _, .replaced (.ok _) => 1
  | apply _ edits, .applied result => ApplyOptions.committed edits.length result
  | applyInPlace _ edits, .appliedInPlace result =>
      ApplyOptions.committedInPlace edits.length result
  | _, _ => 0

theorem Operation.stamped_perform (operation : Operation) (h : document.version ≤ maxVersion) :
    Stamped document (operation.perform document).2
      (operation.committed (operation.perform document).1) := by
  cases operation with
  | replace start length newText =>
      rw [perform]
      cases hreplace : TextBuffer.replace document start length newText with
      | error cause => exact Stamped.refl h
      | ok changed => exact Document.stamped_of_replace hreplace
  | apply options edits => exact options.stamped_apply edits h
  | applyInPlace options edits => exact options.stamped_applyInPlace edits h
  | _ => exact Stamped.refl h

variable {σ : Type} [FormatService σ]

/-- The number of replacements that a step of a formatting session tells of. -/
def Session.Transition.committed (transition : Session.Transition σ Document) : Nat :=
  match transition.region?, transition.answer with
  | some region, some result =>
      let offer := transition.before.formatter.offer transition.before.service
        transition.before.buffer region
      Formatter.committed offer.length result
  | _, _ => 0

theorem Session.stamped_step (session : Session σ Document) (action : Session.Action)
    (h : session.buffer.version ≤ maxVersion) :
    Stamped session.buffer (session.step action).after.buffer (session.step action).committed := by
  cases action with
  | format mode region => exact session.formatter.stamped_format mode session.service region h
  | formatAll mode => exact session.formatter.stamped_format mode session.service _ h
  | prefer change => exact Stamped.refl h

namespace Editing

/-- The number of replacements that a step tells of: one for an accepted replacement, the size of
the batch for an application or a formatting that reached its end, what had been applied for one that
was stopped in place, and none for anything else. -/
def Transition.committed (transition : Transition σ) : Nat :=
  match transition.action, transition.report with
  | .operate operation, .operated answer => operation.committed answer
  | .format action, .formatted answer =>
      Session.Transition.committed ⟨transition.before, action, answer, transition.after⟩
  | _, _ => 0

/-- The guard after an action. -/
def Action.guard (readOnly : Bool) : Action → Bool
  | .setReadOnly on => on
  | _ => readOnly

/-- What a step does to the stamp, the text and the guard of the document. -/
structure Transition.Lawful (transition : Transition σ) : Prop where
  version_eq : transition.after.buffer.version =
    min (transition.before.buffer.version + transition.committed) maxVersion
  keeps_text : transition.committed = 0 →
    transition.after.buffer.text = transition.before.buffer.text
  none_of_guarded : transition.before.buffer.readOnly = true → transition.committed = 0
  guard_eq : transition.after.buffer.readOnly =
    transition.action.guard transition.before.buffer.readOnly

/-- A step that only replaces text is lawful. -/
theorem Transition.lawful_of_stamped {transition : Transition σ}
    (h : Stamped transition.before.buffer transition.after.buffer transition.committed)
    (hguard : transition.action.guard transition.before.buffer.readOnly =
      transition.before.buffer.readOnly) : transition.Lawful where
  version_eq := h.version_eq
  keeps_text hnone := congrArg Document.text (h.unchanged hnone)
  none_of_guarded hreadOnly := by
    apply Nat.eq_zero_of_not_pos
    intro hpos
    rw [h.open_of_pos hpos] at hreadOnly
    cases hreadOnly
  guard_eq := h.guard_eq.trans hguard.symm

theorem step_lawful (session : Session σ Document) (action : Action)
    (h : session.buffer.version ≤ maxVersion) : (step session action).Lawful := by
  cases action with
  | operate operation => exact Transition.lawful_of_stamped (operation.stamped_perform h) rfl
  | format action =>
      have hstamped := session.stamped_step action h
      refine Transition.lawful_of_stamped ?_ rfl
      cases action <;> exact hstamped
  | setReadOnly on => exact ⟨(Nat.min_eq_left h).symm, fun _ => rfl, fun _ => rfl, rfl⟩

section
variable {session : Session σ Document} {actions : List Action}

theorem version_after_le (action : Action) (h : session.buffer.version ≤ maxVersion) :
    (step session action).after.buffer.version ≤ maxVersion := by
  rw [(step_lawful session action h).version_eq]
  exact Nat.min_le_right _ _

theorem version_run_le (h : session.buffer.version ≤ maxVersion) (actions : List Action) :
    (run session actions).buffer.version ≤ maxVersion := by
  induction actions generalizing session with
  | nil => exact h
  | cons action rest ih => exact ih (version_after_le action h)

theorem lawful_of_mem_trace (h : session.buffer.version ≤ maxVersion) {transition : Transition σ}
    (hmem : transition ∈ trace session actions) : transition.Lawful := by
  induction actions generalizing session with
  | nil => cases hmem
  | cons action rest ih =>
      rcases List.mem_cons.1 hmem with rfl | hrest
      · exact step_lawful session action h
      · exact ih (version_after_le action h) hrest

/-- No step lowers the stamp. -/
theorem version_le_run (h : session.buffer.version ≤ maxVersion) (actions : List Action) :
    session.buffer.version ≤ (run session actions).buffer.version := by
  induction actions generalizing session with
  | nil => exact Nat.le_refl _
  | cons action rest ih =>
      have hversion := (step_lawful session action h).version_eq
      rw [before_step] at hversion
      calc session.buffer.version
          ≤ (step session action).after.buffer.version := by
            rw [hversion]
            exact Nat.le_min.2 ⟨Nat.le_add_right _ _, h⟩
        _ ≤ (run session (action :: rest)).buffer.version := ih (version_after_le action h)

/-- A run that leaves the stamp as it was, below the highest one, leaves the text as it was. -/
theorem text_run_eq (hbelow : session.buffer.version < maxVersion)
    (hsame : (run session actions).buffer.version = session.buffer.version) :
    (run session actions).buffer.text = session.buffer.text := by
  induction actions generalizing session with
  | nil => rfl
  | cons action rest ih =>
      have hle := Nat.le_of_lt hbelow
      have hlawful := step_lawful session action hle
      have hversion := hlawful.version_eq
      have hfirst := version_le_run (version_after_le action hle) rest
      change (run (step session action).after rest).buffer.version = _ at hsame
      rw [before_step] at hversion
      -- The stamp cannot rise and fall back, so the first step has not raised it.
      have hnone : (step session action).committed = 0 := by omega
      have hstill : (step session action).after.buffer.version = session.buffer.version := by omega
      have htext := hlawful.keeps_text hnone
      rw [before_step] at htext
      exact (ih (hstill ▸ hbelow) (hsame.trans hstill.symm)).trans htext

/-- As long as the guard is set and nobody lifts it, text and stamp stay as they are. -/
theorem kept_while_guarded (h : session.buffer.version ≤ maxVersion)
    (hguard : session.buffer.readOnly = true) (hset : Action.setReadOnly false ∉ actions) :
    (run session actions).buffer.text = session.buffer.text ∧
      (run session actions).buffer.version = session.buffer.version := by
  induction actions generalizing session with
  | nil => exact ⟨rfl, rfl⟩
  | cons action rest ih =>
      have hlawful := step_lawful session action h
      have hnone := hlawful.none_of_guarded (by rwa [before_step])
      have htext := hlawful.keeps_text hnone
      have hversion := hlawful.version_eq
      have hstays := hlawful.guard_eq
      rw [hnone, Nat.add_zero] at hversion
      rw [before_step] at htext hversion hstays
      rw [action_step, hguard] at hstays
      have hon : action.guard true = true := by
        cases action with
        | setReadOnly on =>
            cases on with
            | true => rfl
            | false => exact absurd List.mem_cons_self hset
        | _ => rfl
      obtain ⟨hrestText, hrestVersion⟩ := ih (version_after_le action h) (hstays.trans hon)
        fun hmem => hset (List.mem_cons_of_mem _ hmem)
      exact ⟨hrestText.trans htext,
        hrestVersion.trans (hversion.trans (Nat.min_eq_left h))⟩

end

/-- Over a whole run, every step raises the stamp of the document by the number of replacements that
it tells of, up to the highest stamp.  Two moments of the run with one stamp below the highest one
have one text.  And from the moment the guard is set until it is lifted, text and stamp are those of
that moment. -/
theorem run_stamped (session : Session σ Document) (actions : List Action)
    (h : session.buffer.version ≤ maxVersion) :
    (∀ transition ∈ trace session actions,
        transition.after.buffer.version =
          min (transition.before.buffer.version + transition.committed) maxVersion) ∧
      (∀ early late, early <+: actions → late <+: actions →
        (run session early).buffer.version = (run session late).buffer.version →
        (run session early).buffer.version < maxVersion →
          (run session early).buffer.text = (run session late).buffer.text) ∧
      ∀ front guarded, front ++ .setReadOnly true :: guarded <+: actions →
        .setReadOnly false ∉ guarded →
          (run session (front ++ .setReadOnly true :: guarded)).buffer.text =
              (run session front).buffer.text ∧
            (run session (front ++ .setReadOnly true :: guarded)).buffer.version =
              (run session front).buffer.version := by
  refine ⟨fun transition hmem => (lawful_of_mem_trace h hmem).version_eq, ?_, ?_⟩
  · intro early late hearly hlate hsame hbelow
    -- One of the two moments comes first, and the run goes on from there to the other one.
    rcases List.prefix_or_prefix_of_prefix hearly hlate with ⟨back, rfl⟩ | ⟨back, rfl⟩
    · rw [run_append] at hsame ⊢
      exact (text_run_eq hbelow hsame.symm).symm
    · rw [run_append] at hsame hbelow ⊢
      exact text_run_eq (hsame ▸ hbelow) hsame
  · intro front guarded _ hset
    rw [run_append]
    have hle : (step (run session front) (.setReadOnly true)).after.buffer.version ≤ maxVersion :=
      version_run_le h front
    have hkept := kept_while_guarded hle rfl hset
    exact hkept

/-- A document with characters of several widths, and a service that has nothing to change. -/
def drafted : Session Script Document where
  formatter := ⟨{}, Preferences.empty⟩
  service := ⟨⟨[]⟩, []⟩
  buffer := .ofString "é😀\r\n"

/-- A replacement, and a batch that is stopped after its first change. -/
def unguarded : List Action :=
  [.operate (.replace 1 1 "xy"),
    .operate (.applyInPlace ⟨.allow, .character⟩ [.delete 3 2, .replace 1 4 "q"])]

/-- Attempts to change a guarded document, one of them with an answer of the service. -/
def refused : List Action :=
  [.operate (.replace 0 1 ""), .format (.formatAll .inPlace), .operate (.apply {} [.insert 0 "z"])]

/-- Two replacements are committed before the guard is set, and none after that. -/
theorem run_stamped_until_guarded :
    drafted.buffer.version ≤ maxVersion ∧
      (run drafted (unguarded ++ .setReadOnly true :: refused)).buffer.text = "éxy" ∧
      (run drafted (unguarded ++ .setReadOnly true :: refused)).buffer.version = 2 := by
  have hversion : drafted.buffer.version ≤ maxVersion := Nat.zero_le _
  have hset : Action.setReadOnly false ∉ refused := by simp [refused]
  obtain ⟨htext, hstamp⟩ := (run_stamped drafted
    (unguarded ++ .setReadOnly true :: refused) hversion).2.2 unguarded refused
      (List.prefix_refl _) hset
  rw [htext, hstamp]
  refine ⟨hversion, ?_, ?_⟩
  · cbv
  · cbv

end Editing

end TextEditing
