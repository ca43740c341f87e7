/-
Module: TextEditing.Proofs.PreferenceHistories
Purpose: What preferences answer about a key is what their history says of it.
Main exports: Preferences.values_run, Preferences.defaults_run, Preferences.lastSet_filter,
  Preferences.lastDefault_filter, Preferences.answers_run
-/
import TextEditing.Options.History
import TextEditing.Proofs.Dictionaries

namespace TextEditing

/-!
Each layer is what its entries make of it, one put or taken away after the other: the values by the
assignments of the history, the defaults by its registrations.  Of the entries for a key the last one
decides, and entries for other keys do not matter.
-/

namespace Preferences

open Dictionary (last? last?_append last?_cons)

section Entries

variable {α : Type} {key : String}

/-- Puts a value at a key, or takes away the one that is there. -/
def assign (layer : Layer) (entry : String × Option Preference) : Layer :=
  match entry.2 with
  | some value => layer.insert entry.1 value
  | none => layer.erase entry.1

theorem get?_assign (layer : Layer) (entry : String × Option Preference) :
    (assign layer entry).get? key = if key = entry.1 then entry.2 else layer.get? key := by
  obtain ⟨other, value⟩ := entry
  cases value with
  | some value => exact Dictionary.get?_insert layer other key value
  | none => exact Dictionary.get?_erase layer other key

/-- Of the assignments to a key the last one decides. -/
theorem get?_foldl_assign (entries : List (String × Option Preference)) (layer : Layer) :
    (entries.foldl assign layer).get? key = (last? key entries).getD (layer.get? key) := by
  induction entries generalizing layer with
  | nil => rfl
  | cons entry rest ih =>
      rw [List.foldl_cons, ih, get?_assign, last?_cons]
      by_cases h : entry.1 = key
      · rw [if_pos h.symm, if_pos h]
        cases last? key rest <;> rfl
      · rw [if_neg (Ne.symm h), if_neg h, Option.or_none]

section Histories

variable {entries : Action → List (String × α)} {history : List Action}

/-- Actions without an entry for the key may be left out of a history. -/
theorem last?_flatMap_filter {keep : Action → Bool}
    (h : ∀ action, keep action = false → last? key (entries action) = none) :
    last? key ((history.filter keep).flatMap entries) = last? key (history.flatMap entries) := by
  induction history with
  | nil => rfl
  | cons action rest ih =>
      rw [List.flatMap_cons, last?_append, ← ih]
      cases hkeep : keep action with
      | false => rw [List.filter_cons_of_neg (by simp [hkeep]), h action hkeep, Option.or_none]
      | true => rw [List.filter_cons_of_pos hkeep, List.flatMap_cons, last?_append]

end Histories

end Entries

theorem foldl_setDefault (entries : List (String × Preference)) (preferences : Preferences) :
    entries.foldl (fun preferences entry => preferences.setDefault entry.1 entry.2) preferences =
      ⟨entries.foldl (fun layer entry => layer.insert entry.1 entry.2) preferences.defaults,
        preferences.values⟩ := by
  induction entries generalizing preferences with
  | nil => rfl
  | cons entry rest ih => exact ih (preferences.setDefault entry.1 entry.2)

theorem values_step (preferences : Preferences) (action : Action) :
    (preferences.step action).values = action.assignments.foldl assign preferences.values := by
  cases action with
  | change key change => cases change <;> rfl
  | registerDefaults =>
      rw [step, registerDefaults, foldl_setDefault]
      rfl

theorem defaults_step (preferences : Preferences) (action : Action) :
    (preferences.step action).defaults =
      action.registrations.foldl (fun layer entry => layer.insert entry.1 entry.2)
        preferences.defaults := by
  cases action with
  | change key change => cases change <;> rfl
  | registerDefaults =>
      rw [step, registerDefaults, foldl_setDefault]
      rfl

/-- The values are what the assignments of a history make of them. -/
theorem values_run (preferences : Preferences) (history : List Action) :
    (preferences.run history).values =
      (history.flatMap Action.assignments).foldl assign preferences.values := by
  induction history generalizing preferences with
  | nil => rfl
  | cons action rest ih =>
      rw [List.flatMap_cons, List.foldl_append, ← values_step]
      exact ih (preferences.step action)

/-- The defaults are what the registrations of a history make of them. -/
theorem defaults_run (preferences : Preferences) (history : List Action) :
    (preferences.run history).defaults =
      (history.flatMap Action.registrations).foldl (fun layer entry => layer.insert entry.1 entry.2)
        preferences.defaults := by
  induction history generalizing preferences with
  | nil => rfl
  | cons action rest ih =>
      rw [List.flatMap_cons, List.foldl_append, ← defaults_step]
      exact ih (preferences.step action)

variable {key : String} {history : List Action}

theorem get?_values_run : ((run empty history).values.get? key) = lastSet key history := by
  rw [values_run, get?_foldl_assign, lastSet]
  cases last? key (history.flatMap Action.assignments) <;> rfl

theorem get?_defaults_run : ((run empty history).defaults.get? key) = lastDefault key history := by
  rw [defaults_run, Dictionary.get?_foldl_insert, lastDefault]
  exact Option.or_none

theorem getD_lookup?_run {α : Type} (read : Preference → Option α) (blank : α) :
    ((run empty history).lookup? key read).getD blank = lastReading read blank key history := by
  rw [lookup?, get?_values_run, get?_defaults_run, lastReading]
  cases (lastSet key history).bind read <;> cases (lastDefault key history).bind read <;> rfl

/-! ### What does not matter -/

section

variable {action : Action} (h : action.concerns key = false)

include h

theorem last?_assignments_of_not_concerns : last? key action.assignments = none := by
  cases action with
  | change other change =>
      have hne : other ≠ key := of_decide_eq_false h
      cases change <;> simp [Action.assignments, last?, hne]
  | registerDefaults => rfl

theorem last?_registrations_of_not_concerns : last? key action.registrations = none := by
  cases action with
  | change other change =>
      have hne : other ≠ key := of_decide_eq_false h
      cases change <;> simp [Action.registrations, last?, hne]
  | registerDefaults =>
      have hnone : registered.filter (·.1 = key) = [] :=
        List.filter_eq_nil_iff.2 (List.any_eq_false.1 h)
      rw [Action.registrations, last?, hnone]
      rfl

end

theorem lastSet_filter (key : String) (history : List Action) :
    lastSet key (history.filter (·.concerns key)) = lastSet key history :=
  congrArg Option.join (last?_flatMap_filter fun _ => last?_assignments_of_not_concerns)

theorem lastDefault_filter (key : String) (history : List Action) :
    lastDefault key (history.filter (·.concerns key)) = lastDefault key history :=
  last?_flatMap_filter fun _ => last?_registrations_of_not_concerns

theorem flatMap_assignments_filter (history : List Action) :
    (history.filter (· ≠ .registerDefaults)).flatMap Action.assignments =
      history.flatMap Action.assignments := by
  induction history with
  | nil => rfl
  | cons action rest ih =>
      cases action with
      | change key change =>
          rw [List.filter_cons_of_pos (by simp), List.flatMap_cons, ih, List.flatMap_cons]
      | registerDefaults =>
          rw [List.filter_cons_of_neg (by simp), ih, List.flatMap_cons]
          rfl

/-- After any history, each reading of a key is that of the last value set for it since its last
reset, or else of the last default registered for it, or else blank; the key has a value exactly if
one was set since the last reset, and that value is what a reset gives back.  Actions about other keys
make no difference to this, nor does the registration of defaults make any to the values. -/
theorem answers_run (key : String) (history : List Action) :
    (run empty history).answers key = .ofHistory key history ∧
      (run empty (history.filter (·.concerns key))).answers key = (run empty history).answers key ∧
      (run empty (history.filter (· ≠ .registerDefaults))).values = (run empty history).values := by
  have hanswers : ∀ history, (run empty history).answers key = .ofHistory key history := by
    intro history
    simp only [answers, Answers.ofHistory, boolean, integer, text, getD_lookup?_run, contains,
      Dictionary.contains, takeValue, value?, get?_values_run]
  refine ⟨hanswers history, ?_, ?_⟩
  · rw [hanswers, hanswers]
    simp only [Answers.ofHistory, lastReading, lastSet_filter, lastDefault_filter]
  · rw [values_run, values_run, flatMap_assignments_filter]

/-- A value that spells no number leaves the number to the default, but it is the text. -/
example :
    (run empty [.change "size" (.setDefault (.integer 4)),
      .change "size" (.set (.text "wide"))]).answers "size" =
      ⟨false, 4, "wide", true, some (.text "wide")⟩ := by
  decide

end Preferences

end TextEditing
