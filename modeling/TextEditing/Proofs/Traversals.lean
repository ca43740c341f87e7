/-
Module: TextEditing.Proofs.Traversals
Purpose: When a fallible operation succeeds on every entry of a list.
Main exports: map_eq_ok_iff, bind_eq_ok_iff, mapM_cons_eq_ok_iff, mapM_append_eq_ok_iff, mapM_congr_left,
  mapM_eq_ok_iff, exists_of_forall₂, mapM_transfer
-/
import Mathlib.Data.List.Forall2

namespace TextEditing

variable {ε α β : Type} {f : α → Except ε β}

theorem map_eq_ok_iff {outcome : Except ε α} {g : α → β} {result : β} :
    outcome.map g = .ok result ↔ ∃ value, outcome = .ok value ∧ result = g value := by
  cases outcome <;> simp [Except.map, eq_comm]

theorem bind_eq_ok_iff {outcome : Except ε α} {result : β} :
    outcome >>= f = .ok result ↔ ∃ value, outcome = .ok value ∧ f value = .ok result := by
  cases outcome <;> simp [bind, Except.bind]

theorem mapM_cons_eq_ok_iff {first : α} {rest : List α} {results : List β} :
    (first :: rest).mapM f = .ok results ↔
      ∃ one others, f first = .ok one ∧ rest.mapM f = .ok others ∧ results = one :: others := by
  rw [List.mapM_cons]
  cases f first with
  | error failure => simp [bind, Except.bind]
  | ok one => cases rest.mapM f <;> simp [bind, Except.bind, pure, Except.pure, eq_comm]

theorem mapM_append_eq_ok_iff {first second : List α} {results : List β} :
    (first ++ second).mapM f = .ok results ↔
      ∃ one other, first.mapM f = .ok one ∧ second.mapM f = .ok other ∧ results = one ++ other := by
  rw [List.mapM_append]
  cases first.mapM f with
  | error failure => simp [bind, Except.bind]
  | ok one => cases second.mapM f <;> simp [bind, Except.bind, pure, Except.pure, eq_comm]

theorem mapM_congr_left {entries : List α} {g : α → Except ε β}
    (h : ∀ entry ∈ entries, f entry = g entry) : entries.mapM f = entries.mapM g := by
  induction entries with
  | nil => rfl
  | cons entry rest ih =>
      obtain ⟨hentry, hrest⟩ := List.forall_mem_cons.1 h
      rw [List.mapM_cons, List.mapM_cons, hentry, ih hrest]

/-- Every entry has its result, in the same order. -/
theorem mapM_eq_ok_iff {entries : List α} {results : List β} :
    entries.mapM f = .ok results ↔
      List.Forall₂ (fun entry result => f entry = .ok result) entries results := by
  induction entries generalizing results with
  | nil =>
      rw [List.forall₂_nil_left_iff]
      constructor
      · intro h
        cases h
        rfl
      · rintro rfl
        rfl
  | cons entry rest ih =>
      rw [mapM_cons_eq_ok_iff, List.forall₂_cons_left_iff]
      simp only [ih]

theorem exists_of_forall₂ {γ δ : Type} {related : γ → δ → Prop} {first : List γ} {second : List δ}
    (h : List.Forall₂ related first second) {entry : γ} (hentry : entry ∈ first) :
    ∃ other ∈ second, related entry other := by
  induction h with
  | nil => cases hentry
  | cons hfirst _ ih =>
      rcases List.mem_cons.1 hentry with rfl | hentry
      · exact ⟨_, List.mem_cons_self, hfirst⟩
      · obtain ⟨other, hother, hrelated⟩ := ih hentry
        exact ⟨other, List.mem_cons_of_mem _ hother, hrelated⟩

/-- What succeeds on the entries of one list succeeds on those of another one if it does so entry by
entry, with the same result. -/
theorem mapM_transfer {γ : Type} {g : γ → Except ε β} {first : List α} {second : List γ}
    {results : List β}
    (h : List.Forall₂ (fun a b => ∀ result, f a = .ok result → g b = .ok result) first second)
    (hfirst : first.mapM f = .ok results) : second.mapM g = .ok results := by
  induction h generalizing results with
  | nil => exact hfirst
  | cons hentry _ ih =>
      obtain ⟨one, others, hone, hothers, rfl⟩ := mapM_cons_eq_ok_iff.1 hfirst
      exact mapM_cons_eq_ok_iff.2 ⟨one, others, hentry one hone, ih hothers, rfl⟩

end TextEditing
