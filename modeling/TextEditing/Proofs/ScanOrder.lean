/-
Module: TextEditing.Proofs.ScanOrder
Purpose: The order in which a batch is searched and applied, and what the search for conflicts
  decides.
Main exports: Numbered.Before, Batch.Ascending, Batch.ascending_scanOrder,
  Batch.applicationOrder_eq_reverse, Batch.Compatible, Batch.conflictAfter?_map,
  Batch.mem_of_conflict?, Batch.conflict?_eq_none_iff
-/
import TextEditing.Edit.Order

namespace TextEditing

/-!
The positions in a batch differ, so start and position order its changes strictly.  There is only
one way to list a batch in that order; the scan goes through this list, and the application goes
through it backwards.

A batch is compatible when no change begins before one in front of it ends.  The scan compares
each change with the furthest end seen so far only, which decides the same thing.
-/

namespace Numbered

/-- Strictly before in the order of start and position. -/
def Before (a b : Numbered) : Prop :=
  a.start < b.start ∨ (a.start = b.start ∧ a.index < b.index)

instance (a b : Numbered) : Decidable (a.Before b) :=
  inferInstanceAs (Decidable (_ ∨ _))

theorem Before.asymm {a b : Numbered} (h : a.Before b) : ¬ b.Before a := by
  simp only [Before] at *
  omega

theorem precedes_iff {a b : Numbered} :
    a.precedes b = true ↔ a.start < b.start ∨ (a.start = b.start ∧ a.index ≤ b.index) := by
  simp [precedes]

theorem follows_eq_precedes (a b : Numbered) : a.follows b = b.precedes a := by
  simp only [follows, precedes]
  rw [BEq.comm (a := a.start)]

theorem precedes_trans (a b c : Numbered) (hab : a.precedes b = true)
    (hbc : b.precedes c = true) : a.precedes c = true := by
  rw [precedes_iff] at *
  omega

theorem precedes_total (a b : Numbered) : (a.precedes b || b.precedes a) = true := by
  rw [Bool.or_eq_true, precedes_iff, precedes_iff]
  omega

theorem precedes_iff_not_before {a b : Numbered} : a.precedes b = true ↔ ¬ b.Before a := by
  rw [precedes_iff]
  simp only [Before]
  omega

theorem before_of_precedes {a b : Numbered} (h : a.precedes b = true)
    (hne : a.index ≠ b.index) : a.Before b := by
  rw [precedes_iff] at h
  simp only [Before]
  omega

end Numbered

/-- The conflict between what a function makes of the changes. -/
def Conflict.map (f : Numbered → Numbered) (conflict : Conflict) : Conflict where
  later := f conflict.later
  earlier := f conflict.earlier

namespace Batch

variable {edits : Batch}

@[simp] theorem scanOrder_nil : scanOrder [] = [] := List.mergeSort_nil

@[simp] theorem applicationOrder_nil : applicationOrder [] = [] := List.mergeSort_nil

@[simp] theorem conflict?_nil : conflict? [] = none := by
  rw [conflict?, scanOrder_nil]

theorem mem_numbered {edit : Numbered} :
    edit ∈ numbered edits ↔ edits[edit.index]? = some edit.change := by
  rw [numbered, List.mem_mapIdx]
  constructor
  · rintro ⟨i, hi, rfl⟩
    exact List.getElem?_eq_getElem hi
  · intro h
    obtain ⟨hi, heq⟩ := List.getElem?_eq_some_iff.1 h
    exact ⟨edit.index, hi, by rw [heq]⟩

theorem map_index_numbered (edits : Batch) :
    (numbered edits).map Numbered.index = List.range edits.length := by
  apply List.ext_getElem
  · rw [List.length_map, numbered, List.length_mapIdx, List.length_range]
  · intro i hi hi'
    rw [List.getElem_map, List.getElem_range]
    simp only [numbered, List.getElem_mapIdx]

theorem pairwise_lt_numbered (edits : Batch) :
    (numbered edits).Pairwise fun a b => a.index < b.index := by
  rw [← List.pairwise_map (f := Numbered.index), map_index_numbered]
  exact List.pairwise_lt_range

theorem pairwise_index_numbered (edits : Batch) :
    (numbered edits).Pairwise fun a b => a.index ≠ b.index :=
  (pairwise_lt_numbered edits).imp Nat.ne_of_lt

theorem map_change_numbered (edits : Batch) : (numbered edits).map Numbered.change = edits := by
  apply List.ext_getElem?
  intro i
  rw [List.getElem?_map, numbered, List.getElem?_mapIdx]
  cases edits[i]? <;> rfl

theorem numbered_change_mem {edit : Numbered} (h : edit ∈ numbered edits) :
    edit.change ∈ edits :=
  List.mem_of_getElem? (mem_numbered.1 h)

theorem exists_numbered {change : Change} (h : change ∈ edits) :
    ∃ edit ∈ numbered edits, edit.change = change := by
  obtain ⟨i, hi⟩ := List.mem_iff_getElem?.1 h
  exact ⟨⟨i, change⟩, mem_numbered.2 hi, rfl⟩

/-- The changes of the batch with their positions, listed by start and position. -/
structure Ascending (edits : Batch) (ascending : List Numbered) : Prop where
  perm : ascending.Perm (numbered edits)
  sorted : ascending.Pairwise Numbered.Before

theorem Ascending.eq {first second : List Numbered} (h₁ : edits.Ascending first)
    (h₂ : edits.Ascending second) : first = second :=
  (h₁.perm.trans h₂.perm.symm).eq_of_pairwise
    (fun _ _ _ _ hab hba => absurd hba hab.asymm) h₁.sorted h₂.sorted

theorem ascending_scanOrder (edits : Batch) : edits.Ascending (scanOrder edits) where
  perm := List.mergeSort_perm _ _
  sorted := by
    have hsorted : (scanOrder edits).Pairwise fun a b => a.precedes b = true :=
      List.pairwise_mergeSort Numbered.precedes_trans Numbered.precedes_total _
    have hdistinct : (scanOrder edits).Pairwise fun a b => a.index ≠ b.index :=
      (pairwise_index_numbered edits).perm (List.mergeSort_perm _ _).symm Ne.symm
    exact hsorted.imp₂ (fun _ _ => Numbered.before_of_precedes) hdistinct

theorem mem_scanOrder {edit : Numbered} : edit ∈ scanOrder edits ↔ edit ∈ numbered edits :=
  (ascending_scanOrder edits).perm.mem_iff

theorem applicationOrder_eq_reverse (edits : Batch) :
    applicationOrder edits = (scanOrder edits).reverse := by
  have hperm : (applicationOrder edits).reverse.Perm (numbered edits) :=
    (List.reverse_perm _).trans (List.mergeSort_perm _ _)
  have hfollows : (applicationOrder edits).Pairwise fun a b => a.follows b = true :=
    List.pairwise_mergeSort
      (fun a b c hab hbc => by
        rw [Numbered.follows_eq_precedes] at *
        exact Numbered.precedes_trans c b a hbc hab)
      (fun a b => by
        rw [Numbered.follows_eq_precedes, Numbered.follows_eq_precedes]
        exact Numbered.precedes_total b a)
      (numbered edits)
  have hprecedes : (applicationOrder edits).reverse.Pairwise fun a b => a.precedes b = true :=
    List.pairwise_reverse.2 (hfollows.imp fun h => Numbered.follows_eq_precedes _ _ ▸ h)
  have hdistinct : (applicationOrder edits).reverse.Pairwise fun a b => a.index ≠ b.index :=
    (pairwise_index_numbered edits).perm hperm.symm Ne.symm
  have hascending : edits.Ascending (applicationOrder edits).reverse :=
    ⟨hperm, hprecedes.imp₂ (fun _ _ => Numbered.before_of_precedes) hdistinct⟩
  rw [← hascending.eq (ascending_scanOrder edits), List.reverse_reverse]

theorem mem_applicationOrder {edit : Numbered} :
    edit ∈ applicationOrder edits ↔ edit ∈ numbered edits := by
  rw [applicationOrder_eq_reverse, List.mem_reverse, mem_scanOrder]

/-- The change that is applied first is the last in scan order: every other one is before it. -/
theorem applicationOrder_cases (edits : Batch) :
    edits = [] ∨
      ∃ last others, last ∈ numbered edits ∧ applicationOrder edits = last :: others ∧
        ∀ edit ∈ numbered edits, edit = last ∨ edit.Before last := by
  have hascending := ascending_scanOrder edits
  rcases List.eq_nil_or_concat (scanOrder edits) with hnil | ⟨front, last, hsnoc⟩
  · have hperm := hascending.perm
    rw [hnil, List.nil_perm, numbered, List.mapIdx_eq_nil_iff] at hperm
    exact Or.inl hperm
  · rw [List.concat_eq_append] at hsnoc
    have hsorted := hascending.sorted
    rw [hsnoc, List.pairwise_append] at hsorted
    refine Or.inr ⟨last, front.reverse, ?_, ?_, ?_⟩
    · rw [← mem_scanOrder, hsnoc]
      exact List.mem_append_right _ (List.mem_singleton_self last)
    · rw [applicationOrder_eq_reverse, hsnoc, List.reverse_append]
      rfl
    · intro edit hedit
      rw [← mem_scanOrder, hsnoc] at hedit
      rcases List.mem_append.1 hedit with hfront | hlast
      · exact Or.inr (hsorted.2.2 edit hfront last (List.mem_singleton_self last))
      · exact Or.inl (List.mem_singleton.1 hlast)

/-- No change begins before the end of another one in front of it. -/
def Compatible (edits : Batch) : Prop :=
  ∀ a ∈ numbered edits, ∀ b ∈ numbered edits, a.Before b → a.reach ≤ b.start

instance (edits : Batch) : Decidable edits.Compatible :=
  inferInstanceAs (Decidable (∀ a ∈ numbered edits, ∀ b ∈ numbered edits, _ → _))

theorem pairwise_of_compatible {ascending : List Numbered} (h : edits.Ascending ascending)
    (hcompatible : Compatible edits) : ascending.Pairwise fun a b => a.reach ≤ b.start := by
  apply h.sorted.imp_of_mem
  intro a b ha hb hbefore
  exact hcompatible a (h.perm.mem_iff.1 ha) b (h.perm.mem_iff.1 hb) hbefore

/-- What holds of the changes of a list in their order holds of any two of them that are in order. -/
theorem rel_of_before {related : Numbered → Numbered → Prop} {ascending : List Numbered}
    (hsorted : ascending.Pairwise Numbered.Before) (hpairwise : ascending.Pairwise related)
    {a b : Numbered} (ha : a ∈ ascending) (hb : b ∈ ascending) (h : a.Before b) : related a b := by
  have hboth := hsorted.and hpairwise
  obtain ⟨i, hi, rfl⟩ := List.mem_iff_getElem.1 ha
  obtain ⟨j, hj, rfl⟩ := List.mem_iff_getElem.1 hb
  rw [List.pairwise_iff_getElem] at hboth
  rcases Nat.lt_trichotomy i j with hij | rfl | hji
  · exact (hboth i j hi hj hij).2
  · exact absurd h h.asymm
  · exact absurd h (hboth j i hj hi hji).1.asymm

theorem compatible_of_pairwise {ascending : List Numbered} (h : edits.Ascending ascending)
    (hpairwise : ascending.Pairwise fun a b => a.reach ≤ b.start) : Compatible edits := by
  intro a ha b hb hbefore
  exact rel_of_before h.sorted hpairwise (h.perm.mem_iff.2 ha) (h.perm.mem_iff.2 hb) hbefore

/-- Looking at the furthest end alone compares every change with all changes in front of it. -/
theorem conflictAfter?_eq_none_iff {furthest : Numbered} {rest : List Numbered} :
    conflictAfter? furthest rest = none ↔
      (furthest :: rest).Pairwise fun a b => a.reach ≤ b.start := by
  induction rest generalizing furthest with
  | nil => simp [conflictAfter?]
  | cons edit rest ih =>
      rw [conflictAfter?]
      split
      · rename_i hlt
        simp only [reduceCtorEq, List.pairwise_cons, List.mem_cons, forall_eq_or_imp, false_iff]
        omega
      · rename_i hle
        rw [ih]
        simp only [List.pairwise_cons, List.mem_cons, forall_eq_or_imp]
        split
        · rename_i hfurther
          constructor
          · rintro ⟨hedit, hrest⟩
            refine ⟨⟨by omega, ?_⟩, hedit, hrest⟩
            intro other hother
            have := hedit other hother
            omega
          · rintro ⟨_, hedit, hrest⟩
            exact ⟨hedit, hrest⟩
        · rename_i hnear
          constructor
          · rintro ⟨hfurthest, hrest⟩
            refine ⟨⟨by omega, hfurthest⟩, ?_, hrest⟩
            intro other hother
            have := hfurthest other hother
            omega
          · rintro ⟨⟨_, hfurthest⟩, _, hrest⟩
            exact ⟨hfurthest, hrest⟩

/-- The search compares starts and ends only: where these compare as before, it finds the same. -/
theorem conflictAfter?_map {f : Numbered → Numbered} {furthest : Numbered} {rest : List Numbered}
    (hstart : ∀ a ∈ furthest :: rest, ∀ b ∈ furthest :: rest,
      (f a).start < (f b).reach ↔ a.start < b.reach)
    (hreach : ∀ a ∈ furthest :: rest, ∀ b ∈ furthest :: rest,
      (f a).reach < (f b).reach ↔ a.reach < b.reach) :
    conflictAfter? (f furthest) (rest.map f) = (conflictAfter? furthest rest).map (.map f) := by
  induction rest generalizing furthest with
  | nil => rfl
  | cons edit rest ih =>
      have hfurthest : furthest ∈ furthest :: edit :: rest := List.mem_cons_self
      have hedit : edit ∈ furthest :: edit :: rest := List.mem_cons_of_mem _ List.mem_cons_self
      rw [List.map_cons, conflictAfter?, conflictAfter?]
      simp only [hstart _ hedit _ hfurthest, hreach _ hfurthest _ hedit]
      split
      · rfl
      · rw [← apply_ite f]
        -- Whichever of the two is remembered, it is one of the changes at hand.
        have hkept : ∀ other ∈ (if furthest.reach < edit.reach then edit else furthest) :: rest,
            other ∈ furthest :: edit :: rest := by
          intro other hother
          rcases List.mem_cons.1 hother with rfl | hrest
          · split
            · exact hedit
            · exact hfurthest
          · exact List.mem_cons_of_mem _ (List.mem_cons_of_mem _ hrest)
        exact ih (fun a ha b hb => hstart a (hkept a ha) b (hkept b hb))
          fun a ha b hb => hreach a (hkept a ha) b (hkept b hb)

theorem mem_of_conflictAfter? {furthest : Numbered} {rest : List Numbered} {conflict : Conflict}
    (h : conflictAfter? furthest rest = some conflict) :
    conflict.later ∈ rest ∧ conflict.earlier ∈ furthest :: rest := by
  induction rest generalizing furthest with
  | nil => cases h
  | cons edit rest ih =>
      rw [conflictAfter?] at h
      split at h
      · cases h
        exact ⟨List.mem_cons_self, List.mem_cons_self⟩
      · obtain ⟨hlater, hearlier⟩ := ih h
        refine ⟨List.mem_cons_of_mem _ hlater, ?_⟩
        rcases List.mem_cons.1 hearlier with hfurthest | hrest
        · rw [hfurthest]
          split
          · exact List.mem_cons_of_mem _ List.mem_cons_self
          · exact List.mem_cons_self
        · exact List.mem_cons_of_mem _ (List.mem_cons_of_mem _ hrest)

/-- A conflict is one between two changes of the batch. -/
theorem mem_of_conflict? {conflict : Conflict} (h : conflict? edits = some conflict) :
    conflict.later ∈ numbered edits ∧ conflict.earlier ∈ numbered edits := by
  rw [← mem_scanOrder, ← mem_scanOrder]
  unfold conflict? at h
  split at h
  · cases h
  · rename_i first rest hscan
    obtain ⟨hlater, hearlier⟩ := mem_of_conflictAfter? h
    rw [hscan]
    exact ⟨List.mem_cons_of_mem _ hlater, hearlier⟩

/-- The scan finds no conflict exactly if the batch is compatible. -/
theorem conflict?_eq_none_iff (edits : Batch) : conflict? edits = none ↔ Compatible edits := by
  have hascending := ascending_scanOrder edits
  have hscan : conflict? edits = none ↔
      (scanOrder edits).Pairwise fun a b => a.reach ≤ b.start := by
    unfold conflict?
    cases scanOrder edits with
    | nil => simp
    | cons first rest => exact conflictAfter?_eq_none_iff
  rw [hscan]
  exact ⟨compatible_of_pairwise hascending, pairwise_of_compatible hascending⟩

end Batch

end TextEditing
