/-
Module: TextEditing.Proofs.CanonicalDocuments
Purpose: Preferences have the same document exactly if they have the same layers.
Main exports: Layer.ListedBy, Preferences.parsed_toJson, Preferences.toJson_eq_iff,
  Preferences.run_eq_of_filter, Preferences.changed_comm, Preferences.reset_set_eq_iff,
  Preferences.toJson_canonical
-/
import TextEditing.Proofs.ByteOrder
import TextEditing.Proofs.OptionWiring
import TextEditing.Proofs.PreferenceHistories
import TextEditing.Proofs.StoredPreferences

namespace TextEditing

open Json

/-!
A layer lists each of its keys once, in the order of the bytes, whatever was set, reset or read in
what order before.  So what a layer has at each key says how it is listed, and the text of a document
follows from what both layers have.  The other way round nothing gets lost: a document is read as the
very preferences for which it was written.
-/

/-- The entries have each key of the layer once, with its value, in the order of the bytes. -/
structure Layer.ListedBy (layer : Layer) (entries : List (String × Preference)) : Prop where
  once : ∀ key, (entries.map Prod.fst).count key = if layer.contains key then 1 else 0
  ascending : (entries.map Prod.fst).Pairwise fun a b =>
    OffsetUnit.utf8.encode a.toList < OffsetUnit.utf8.encode b.toList
  value : ∀ key preference, (key, preference) ∈ entries ↔ layer.get? key = some preference

/-- The object with these entries as its members. -/
def Layer.tree (entries : List (String × Preference)) : Tree :=
  .object
    (Tree.named (entries.map fun entry => (entry.1, (Preference.codec.write entry.2).toTree))) none

theorem Layer.listedBy_entries (layer : Layer) : layer.ListedBy layer.entries where
  once key := by
    rw [layer.nodup_keys.count]
    exact if_congr Dictionary.isSome_lookup_iff.symm rfl rfl
  ascending := by
    refine List.pairwise_map.2 (layer.ascending.imp ?_)
    intro a b hlt
    exact OffsetUnit.encode_utf8_toList_lt_iff.2 hlt
  value key preference := Dictionary.mem_entries_iff

theorem Layer.toTree_write (layer : Layer) :
    (Layer.codec.write layer).toTree = Layer.tree layer.entries := by
  rw [Layer.codec, toTree_object, entryTrees, List.map_map, Layer.tree]
  rfl

namespace Preferences

/-- A document is an object with the defaults and then the values. -/
theorem parsed_toJson (preferences : Preferences) :
    Parsed.ofText preferences.toJson =
      ⟨.object (Tree.named [("defaults", Layer.tree preferences.defaults.entries),
        ("values", Layer.tree preferences.values.entries)]) none, false⟩ := by
  rw [toJson, Parsed.ofText_pretty (codec_lawful.integral_write preferences), Record.toTree_write,
    ← Layer.toTree_write, ← Layer.toTree_write]
  rfl

/-! ### Preferences and their documents -/

variable {first second third : Preferences} {key : String}

theorem SameAt.symm (h : first.SameAt second key) : second.SameAt first key :=
  ⟨h.values.symm, h.defaults.symm⟩

theorem SameAt.trans (h : first.SameAt second key) (h' : second.SameAt third key) :
    first.SameAt third key :=
  ⟨h.values.trans h'.values, h.defaults.trans h'.defaults⟩

theorem ext_sameAt (h : ∀ key, first.SameAt second key) : first = second := by
  obtain ⟨defaults, values⟩ := first
  obtain ⟨defaults', values'⟩ := second
  have hdefaults : defaults = defaults' := Dictionary.ext_get? fun key => (h key).defaults
  have hvalues : values = values' := Dictionary.ext_get? fun key => (h key).values
  rw [hdefaults, hvalues]

theorem toJson_injective : Function.Injective toJson := by
  intro first second h
  have hread := ofJson_toJson first
  rw [h, ofJson_toJson] at hread
  exact (Except.ok.inj hread).symm

theorem toJson_eq_iff : first.toJson = second.toJson ↔ ∀ key, first.SameAt second key := by
  constructor
  · intro h key
    cases toJson_injective h
    exact ⟨rfl, rfl⟩
  · intro h
    rw [ext_sameAt h]

/-! ### Histories and their documents -/

/-- What a history makes of a key is a matter of the actions that concern it. -/
theorem sameAt_run_filter (preferences : Preferences) (key : String) (history : List Action) :
    (preferences.run (history.filter (·.concerns key))).SameAt (preferences.run history) key where
  values := by
    rw [values_run, values_run, get?_foldl_assign, get?_foldl_assign,
      last?_flatMap_filter fun _ => last?_assignments_of_not_concerns]
  defaults := by
    rw [defaults_run, defaults_run, Dictionary.get?_foldl_insert, Dictionary.get?_foldl_insert,
      last?_flatMap_filter fun _ => last?_registrations_of_not_concerns]

theorem run_eq_of_filter (preferences : Preferences) {history further : List Action}
    (h : ∀ key, history.filter (·.concerns key) = further.filter (·.concerns key)) :
    preferences.run history = preferences.run further := by
  apply ext_sameAt
  intro key
  have hhistory := sameAt_run_filter preferences key history
  rw [h key] at hhistory
  exact hhistory.symm.trans (sameAt_run_filter preferences key further)

/-- A key is concerned by one of two changes at different keys at most. -/
theorem filter_pair {first second : String} (hne : first ≠ second) (change further : Change)
    (key : String) :
    [Action.change first change, .change second further].filter (·.concerns key) =
      [Action.change second further, .change first change].filter (·.concerns key) := by
  by_cases hkey : first = key
  · have hother : second ≠ key := fun heq => hne (hkey.trans heq.symm)
    simp [Action.concerns, hkey, hother]
  · simp [Action.concerns, List.filter_cons, hkey]

/-- Changes at different keys lead to the same preferences in either order. -/
theorem changed_comm (preferences : Preferences) {first second : String} (hne : first ≠ second)
    (change further : Change) :
    (preferences.changed first change).changed second further =
      (preferences.changed second further).changed first change :=
  run_eq_of_filter preferences (filter_pair hne change further)

theorem contains_eq_false_iff {preferences : Preferences} :
    preferences.contains key = false ↔ preferences.values.get? key = none := by
  rw [contains, Dictionary.contains, Option.isSome_eq_false_iff, Option.isNone_iff_eq_none]

/-- A reset undoes what was set exactly if the key had no value before. -/
theorem reset_set_eq_iff (preferences : Preferences) (key : String) (value : Preference) :
    (preferences.set key value).reset key = preferences ↔ preferences.contains key = false := by
  have hnone : ((preferences.set key value).reset key).values.get? key = none :=
    (Dictionary.get?_erase _ _ _).trans (if_pos rfl)
  rw [contains_eq_false_iff]
  constructor
  · intro h
    rw [← h]
    exact hnone
  · intro h
    apply ext_sameAt
    intro place
    by_cases hplace : place = key
    · rw [hplace]
      exact ⟨hnone.trans h.symm, rfl⟩
    · have hset : (preferences.set key value).SameAt preferences place :=
        sameAt_changed (.set value) hplace
      have hreset : ((preferences.set key value).reset key).SameAt (preferences.set key value)
          place := sameAt_changed .reset hplace
      exact hreset.trans hset

/-- Documents of preferences are the same text exactly if the preferences have the same value and the
same default at every key, however they came about.  In the text each layer has its keys once and in
the order of their bytes.  So two histories lead to the same text if they differ only in the order of
actions about different keys, as two changes at different keys do; and what is set and then reset
leaves the text as it was exactly if the key had no value before. -/
theorem toJson_canonical (preferences other : Preferences) :
    (preferences.toJson = other.toJson ↔ ∀ key, preferences.SameAt other key) ∧
      (∃ defaults values,
        Parsed.ofText preferences.toJson =
            ⟨.object (Tree.named [("defaults", Layer.tree defaults), ("values", Layer.tree values)])
              none, false⟩ ∧
          preferences.defaults.ListedBy defaults ∧ preferences.values.ListedBy values) ∧
      (∀ history further : List Action,
        (∀ key, history.filter (·.concerns key) = further.filter (·.concerns key)) →
          (preferences.run history).toJson = (preferences.run further).toJson) ∧
      (∀ first second change further, first ≠ second →
        ((preferences.changed first change).changed second further).toJson =
          ((preferences.changed second further).changed first change).toJson) ∧
      ∀ key value, ((preferences.set key value).reset key).toJson = preferences.toJson ↔
        preferences.contains key = false := by
  refine ⟨toJson_eq_iff, ⟨_, _, parsed_toJson preferences, Layer.listedBy_entries _,
    Layer.listedBy_entries _⟩, ?_, ?_, ?_⟩
  · intro history further h
    rw [run_eq_of_filter preferences h]
  · intro first second change further hne
    rw [changed_comm preferences hne]
  · intro key value
    rw [toJson_injective.eq_iff, reset_set_eq_iff]

/-- The bytes order keys in another way than 16-bit units do, and than they were set. -/
theorem toJson_canonical_in_byte_order :
    (∀ key, [Action.change "😀" (.set (.integer 1)), .change "～" .reset].filter (·.concerns key) =
        [Action.change "～" .reset, .change "😀" (.set (.integer 1))].filter (·.concerns key)) ∧
      (empty.run [.change "😀" (.set (.integer 1)), .change "～" .reset]).toJson =
        (empty.run [.change "～" .reset, .change "😀" (.set (.integer 1))]).toJson ∧
      "😀" ≠ "～" ∧
      ((empty.changed "😀" (.set (.integer 1))).changed "～" (.set (.boolean true))).toJson =
        ((empty.changed "～" (.set (.boolean true))).changed "😀" (.set (.integer 1))).toJson ∧
      ((empty.changed "😀" (.set (.integer 1))).changed "～" (.set (.boolean true))).toJson =
        "\x7b\n  \"defaults\": \x7b\x7d,\n  \"values\": \x7b\n" ++
          "    \"～\": true,\n    \"😀\": 1\n  \x7d\n\x7d" := by
  have hne : "😀" ≠ "～" := by decide
  have hfilter := filter_pair hne (.set (.integer 1)) .reset
  obtain ⟨_, _, hrun, hcomm, _⟩ := toJson_canonical empty empty
  exact ⟨hfilter, hrun _ _ hfilter, hne,
    hcomm "😀" "～" (.set (.integer 1)) (.set (.boolean true)) hne, by decide +kernel⟩

end Preferences

end TextEditing
