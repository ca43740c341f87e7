/-
Module: TextEditing.Proofs.SiftedEntries
Purpose: A batch without the entries that are no changes, by what each entry is on its own.
Main exports: Batch.Sifted, Batch.ofValue_cons_eq_ok_iff, Batch.singleton_error_iff,
  Batch.sifted_ofEntries, Batch.Sifted.append, Batch.Sifted.ofValue_eq_ok_iff, Batch.sifted_iff,
  Batch.ofEntries_sifts
-/
import TextEditing.Edit.Interchange
import TextEditing.Proofs.ValueReadings

namespace TextEditing.Batch

open Json

/-!
An array can be read as a batch in two ways: all of it or nothing, or each entry by itself.  Both are
compared through the batches that arrays of one entry are, so that nothing is said of how a change is
read.
-/

/-- The batch has, in order, the changes of the entries that are batches on their own, and the other
entries are passed over. -/
inductive Sifted : List Value → Batch → Prop where
  | nil : Sifted [] []
  | kept {entry : Value} {change : Change} {entries : List Value} {batch : Batch}
      (alone : codec.ofValue (.array [entry]) = .ok [change]) (rest : Sifted entries batch) :
      Sifted (entry :: entries) (change :: batch)
  | passed {entry : Value} {failure : DecodeError} {entries : List Value} {batch : Batch}
      (alone : codec.ofValue (.array [entry]) = .error failure) (rest : Sifted entries batch) :
      Sifted (entry :: entries) batch

variable {entry : Value} {change : Change} {entries others : List Value} {batch : Batch}

/-!
### Batches entry by entry
-/

theorem ofValue_array_eq_ok_iff :
    codec.ofValue (.array entries) = .ok batch ↔
      entries.mapM Change.record.codec.ofValue = .ok batch := by
  have hentries : (entries.map Value.toTree).mapM (Change.record.codec.read .value) =
      entries.mapM Change.record.codec.ofValue := List.mapM_map
  rw [Codec.ofValue, Value.toTree, Value.entriesToTrees_eq_map, codec, Codec.list_read_eq_ok_iff,
    hentries, and_iff_left rfl]

theorem ofValue_cons_eq_ok_iff :
    codec.ofValue (.array (entry :: entries)) = .ok batch ↔
      ∃ change rest, Change.record.codec.ofValue entry = .ok change ∧
        codec.ofValue (.array entries) = .ok rest ∧ batch = change :: rest := by
  simp only [ofValue_array_eq_ok_iff, mapM_cons_eq_ok_iff]

theorem ofValue_nil : codec.ofValue (.array []) = .ok [] := rfl

/-- An entry on its own is a batch exactly if it is a change. -/
theorem ofValue_singleton_eq_ok_iff :
    codec.ofValue (.array [entry]) = .ok [change] ↔ Change.record.codec.ofValue entry = .ok change := by
  rw [ofValue_cons_eq_ok_iff]
  constructor
  · rintro ⟨_, _, hentry, _, heq⟩
    obtain ⟨rfl, _⟩ := List.cons.inj heq
    exact hentry
  · intro hentry
    exact ⟨change, [], hentry, ofValue_nil, rfl⟩

theorem singleton_error_iff :
    (∃ failure, codec.ofValue (.array [entry]) = .error failure) ↔
      ∃ failure, Change.record.codec.ofValue entry = .error failure := by
  cases hentry : Change.record.codec.ofValue entry with
  | ok change => simp [ofValue_singleton_eq_ok_iff.2 hentry]
  | error failure =>
      cases halone : codec.ofValue (.array [entry]) with
      | ok batch =>
          obtain ⟨_, _, hchange, _⟩ := ofValue_cons_eq_ok_iff.1 halone
          cases hentry.symm.trans hchange
      | error failure' => simp

/-!
### What sifting leaves
-/

theorem ofEntries_cons_of_ok (h : Change.record.codec.ofValue entry = .ok change) :
    ofEntries (.array (entry :: entries)) = change :: ofEntries (.array entries) := by
  simp only [ofEntries, List.filterMap_cons, h, Except.toOption]

theorem ofEntries_cons_of_error {failure : DecodeError}
    (h : Change.record.codec.ofValue entry = .error failure) :
    ofEntries (.array (entry :: entries)) = ofEntries (.array entries) := by
  simp only [ofEntries, List.filterMap_cons, h, Except.toOption]

theorem sifted_ofEntries (entries : List Value) : Sifted entries (ofEntries (.array entries)) := by
  induction entries with
  | nil => exact .nil
  | cons entry entries ih =>
      cases hentry : Change.record.codec.ofValue entry with
      | ok change =>
          rw [ofEntries_cons_of_ok hentry]
          exact .kept (ofValue_singleton_eq_ok_iff.2 hentry) ih
      | error failure =>
          rw [ofEntries_cons_of_error hentry]
          obtain ⟨_, halone⟩ := singleton_error_iff.2 ⟨failure, hentry⟩
          exact .passed halone ih

namespace Sifted

theorem ofEntries_eq (h : Sifted entries batch) : ofEntries (.array entries) = batch := by
  induction h with
  | nil => rfl
  | kept alone _ ih => rw [ofEntries_cons_of_ok (ofValue_singleton_eq_ok_iff.1 alone), ih]
  | passed alone _ ih =>
      obtain ⟨_, hentry⟩ := singleton_error_iff.1 ⟨_, alone⟩
      rw [ofEntries_cons_of_error hentry, ih]

theorem append {batch' : Batch} (h : Sifted entries batch) (h' : Sifted others batch') :
    Sifted (entries ++ others) (batch ++ batch') := by
  induction h with
  | nil => exact h'
  | kept alone _ ih => exact .kept alone ih
  | passed alone _ ih => exact .passed alone ih

theorem length_le (h : Sifted entries batch) : batch.length ≤ entries.length := by
  induction h with
  | nil => exact Nat.le_refl 0
  | kept _ _ ih => exact Nat.succ_le_succ ih
  | passed _ _ ih => exact Nat.le_succ_of_le ih

/-- The array is a batch as a whole exactly if no entry was passed over; the batch is the same. -/
theorem ofValue_eq_ok_iff {whole : Batch} (h : Sifted entries batch) :
    codec.ofValue (.array entries) = .ok whole ↔ whole = batch ∧ batch.length = entries.length := by
  induction h generalizing whole with
  | nil => simp [ofValue_nil, eq_comm]
  | @kept entry change entries batch alone _ ih =>
      have hentry := ofValue_singleton_eq_ok_iff.1 alone
      rw [ofValue_cons_eq_ok_iff]
      simp only [hentry, ih, List.length_cons, Nat.add_right_cancel_iff]
      constructor
      · rintro ⟨_, _, hchange, ⟨rfl, hlength⟩, rfl⟩
        cases hchange
        exact ⟨rfl, hlength⟩
      · rintro ⟨rfl, hlength⟩
        exact ⟨change, batch, rfl, ⟨rfl, hlength⟩, rfl⟩
  | @passed entry failure entries batch alone rest ih =>
      obtain ⟨_, hentry⟩ := singleton_error_iff.1 ⟨_, alone⟩
      have hshort : batch.length ≠ entries.length + 1 :=
        Nat.ne_of_lt (Nat.lt_succ_of_le rest.length_le)
      rw [ofValue_cons_eq_ok_iff]
      simp [hentry, hshort]

end Sifted

theorem sifted_iff : Sifted entries batch ↔ batch = ofEntries (.array entries) := by
  constructor
  · intro h
    exact h.ofEntries_eq.symm
  · rintro rfl
    exact sifted_ofEntries entries

/-- A value that is no array is no batch, and it has no entries. -/
theorem of_not_array {value : Value} (h : ∀ entries, value ≠ .array entries) :
    ofEntries value = [] ∧ ∃ failure, codec.ofValue value = .error failure := by
  cases value with
  | array entries => cases h entries rfl
  | null | boolean | number | string | object => exact ⟨rfl, _, rfl⟩

/-- If a value is a batch as a whole, reading it entry by entry gives the same batch.  Entry by entry,
an array gives the changes of those entries that are batches on their own, in order; so two arrays put
together give the changes of the first one and then those of the second one, and an array is a batch
as a whole exactly if it gives as many changes as it has entries.  What is no array gives no changes
and is no batch. -/
theorem ofEntries_sifts (value : Value) :
    (∀ batch, codec.ofValue value = .ok batch → ofEntries value = batch) ∧
      (∀ entries, value = .array entries →
        (∀ batch, ofEntries value = batch ↔ Sifted entries batch) ∧
          (∀ others, ofEntries (.array (entries ++ others)) =
            ofEntries value ++ ofEntries (.array others)) ∧
          ((∃ batch, codec.ofValue value = .ok batch) ↔
            (ofEntries value).length = entries.length)) ∧
      ((∀ entries, value ≠ .array entries) →
        ofEntries value = [] ∧ ∃ failure, codec.ofValue value = .error failure) := by
  refine ⟨?whole, ?array, of_not_array⟩
  case whole =>
    intro batch hwhole
    by_cases harray : ∃ entries, value = .array entries
    · obtain ⟨entries, rfl⟩ := harray
      exact ((sifted_ofEntries entries).ofValue_eq_ok_iff.1 hwhole).1.symm
    · obtain ⟨_, _, hfailure⟩ := of_not_array (not_exists.1 harray)
      cases hwhole.symm.trans hfailure
  case array =>
    rintro entries rfl
    have hsifted := sifted_ofEntries entries
    refine ⟨fun batch => ?_, fun others => ?_, ?_⟩
    · rw [sifted_iff, eq_comm]
    · exact (hsifted.append (sifted_ofEntries others)).ofEntries_eq
    · simp only [hsifted.ofValue_eq_ok_iff, exists_eq_left]

/-- Two entries that are changes and between them two that are none: a span that is a string, and a
number. -/
def mixedEntries : List Value :=
  [Change.record.codec.write (.insert 1 "x"), .object [("span", .string "nope")], .ofNat 42,
    Change.record.codec.write (.replace 5 1 "y")]

theorem ofEntries_sifts_mixed_entries :
    Sifted mixedEntries [.insert 1 "x", .replace 5 1 "y"] ∧
      (¬ ∃ batch, codec.ofValue (.array mixedEntries) = .ok batch) ∧
      ofEntries (.array (mixedEntries.take 1)) = [.insert 1 "x"] ∧
      ofEntries (.object [("error", .string "busy")]) = [] := by
  have hmixed : ofEntries (.array mixedEntries) = [.insert 1 "x", .replace 5 1 "y"] := rfl
  have hfirst : codec.ofValue (.array (mixedEntries.take 1)) = .ok [.insert 1 "x"] := rfl
  obtain ⟨hsifted, _, hwhole⟩ := (ofEntries_sifts (.array mixedEntries)).2.1 mixedEntries rfl
  refine ⟨(hsifted _).1 hmixed, ?_, (ofEntries_sifts _).1 _ hfirst,
    ((ofEntries_sifts (.object _)).2.2 fun _ h => by cases h).1⟩
  rw [hwhole, hmixed]
  decide

end TextEditing.Batch
