/-
Module: TextEditing.Proofs.Dictionaries
Purpose: What a dictionary holds that was built from a list of entries.
Main exports: Dictionary.last?_append, Dictionary.get?_ofList, Dictionary.get?_ofList_of_last,
  Dictionary.lookup_of_perm, Dictionary.mem_of_mem_ofList, Dictionary.get?_filterMap,
  Dictionary.entries_ofList, Dictionary.ext_get?
-/
import TextEditing.Dictionary

namespace TextEditing

/-!
Of several entries with one key the last counts, so an entry counts if no other one with its key
comes behind it.  Entries whose keys ascend are all kept, in their order.
-/

namespace Dictionary

variable {α β : Type}

theorem lookup_eq_none_iff {entries : List (String × α)} {key : String} :
    entries.lookup key = none ↔ key ∉ entries.map Prod.fst := by
  induction entries with
  | nil => simp
  | cons entry rest ih =>
      rw [lookup_cons, List.map_cons, List.mem_cons, not_or]
      by_cases h : key = entry.1 <;> simp [h, ih]

theorem isSome_lookup_iff {entries : List (String × α)} {key : String} :
    (entries.lookup key).isSome ↔ key ∈ entries.map Prod.fst := by
  rw [← Decidable.not_iff_not, Bool.not_eq_true, Option.isSome_eq_false_iff,
    Option.isNone_iff_eq_none, lookup_eq_none_iff]

theorem last?_append (key : String) (first second : List (String × α)) :
    last? key (first ++ second) = (last? key second).or (last? key first) := by
  simp only [last?, List.filter_append, List.map_append, List.getLast?_append]

theorem last?_singleton (key : String) (entry : String × α) :
    last? key [entry] = if entry.1 = key then some entry.2 else none := by
  by_cases h : entry.1 = key <;> simp [last?, h]

theorem last?_cons (key : String) (entry : String × α) (entries : List (String × α)) :
    last? key (entry :: entries) =
      (last? key entries).or (if entry.1 = key then some entry.2 else none) := by
  rw [← last?_singleton]
  exact last?_append key [entry] entries

theorem last?_eq_none_iff {entries : List (String × α)} {key : String} :
    last? key entries = none ↔ key ∉ entries.map Prod.fst := by
  induction entries with
  | nil => simp [last?]
  | cons entry rest ih =>
      rw [last?_cons, Option.or_eq_none_iff, ih, List.map_cons, List.mem_cons, not_or, and_comm]
      by_cases h : entry.1 = key
      · simp [h]
      · simp [h, Ne.symm h]

/-- Of the entries that are put into a dictionary the last one for a key decides. -/
theorem get?_foldl_insert (entries : List (String × α)) (dictionary : Dictionary α) (key : String) :
    (entries.foldl (fun dictionary entry => dictionary.insert entry.1 entry.2) dictionary).get? key =
      (last? key entries).or (dictionary.get? key) := by
  induction entries generalizing dictionary with
  | nil => rfl
  | cons entry rest ih =>
      rw [List.foldl_cons, ih, get?_insert, last?_cons]
      by_cases h : entry.1 = key
      · rw [if_pos h.symm, if_pos h, Option.or_assoc, Option.some_or]
      · rw [if_neg (Ne.symm h), if_neg h, Option.or_none]

theorem get?_ofList (entries : List (String × α)) (key : String) :
    (ofList entries).get? key = last? key entries := by
  rw [ofList, get?_foldl_insert, get?_empty, Option.or_none]

/-- The last entry of a key is its value. -/
theorem get?_ofList_of_last {front back : List (String × α)} {key : String} (value : α)
    (h : key ∉ back.map Prod.fst) :
    (ofList (front ++ (key, value) :: back)).get? key = some value := by
  rw [get?_ofList, last?_append, last?_cons, last?_eq_none_iff.2 h, if_pos rfl, Option.none_or,
    Option.some_or]

/-- An entry whose key comes only once is kept. -/
theorem get?_ofList_of_count_le_one {entries : List (String × α)} {key : String}
    (h : (entries.map Prod.fst).count key ≤ 1) :
    (ofList entries).get? key = entries.lookup key := by
  cases hfound : entries.lookup key with
  | none => rw [get?_ofList, last?_eq_none_iff, ← lookup_eq_none_iff, hfound]
  | some value =>
      obtain ⟨front, back, rfl, _⟩ := List.lookup_eq_some_iff.1 hfound
      refine get?_ofList_of_last value (List.count_eq_zero.1 ?_)
      simp only [List.map_append, List.map_cons, List.count_append, List.count_cons_self] at h
      omega

theorem lookup_map (f : α → β) (entries : List (String × α)) (key : String) :
    (entries.map fun entry => (entry.1, f entry.2)).lookup key = (entries.lookup key).map f := by
  induction entries with
  | nil => rfl
  | cons entry rest ih =>
      rw [List.map_cons, lookup_cons, lookup_cons, ih]
      by_cases h : key = entry.1 <;> simp [h]

/-- No key comes twice. -/
theorem nodup_keys (dictionary : Dictionary α) : (dictionary.entries.map Prod.fst).Nodup := by
  refine List.pairwise_map.2 (dictionary.ascending.imp ?_)
  intro first second hlt heq
  exact String.lt_irrefl second.1 (heq ▸ hlt)

/-- Under a key that comes only once stands what is beside the key. -/
theorem lookup_eq_some_iff_mem {entries : List (String × α)} {key : String} {value : α}
    (h : (entries.map Prod.fst).count key ≤ 1) :
    entries.lookup key = some value ↔ (key, value) ∈ entries := by
  constructor
  · intro hfound
    obtain ⟨front, back, rfl, _⟩ := List.lookup_eq_some_iff.1 hfound
    exact List.mem_append_right _ List.mem_cons_self
  · intro hmem
    obtain ⟨front, back, rfl⟩ := List.append_of_mem hmem
    have hfront : key ∉ front.map Prod.fst := by
      simp only [List.map_append, List.map_cons, List.count_append, List.count_cons_self] at h
      exact List.count_eq_zero.1 (by omega)
    rw [List.lookup_append, lookup_eq_none_iff.2 hfront, Option.none_or, List.lookup_cons_self]

/-- A key that comes only once is found with the same value in any order. -/
theorem lookup_of_perm {entries others : List (String × α)} (h : entries.Perm others) {key : String}
    (honce : (others.map Prod.fst).count key ≤ 1) : entries.lookup key = others.lookup key := by
  have hentries : (entries.map Prod.fst).count key ≤ 1 := (h.map Prod.fst).count_eq key ▸ honce
  ext value
  rw [lookup_eq_some_iff_mem hentries, lookup_eq_some_iff_mem honce, h.mem_iff]

/-- Entries that are left out under other keys make no difference. -/
theorem lookup_filter_of_pos {kept : String → Bool} {key : String} (h : kept key = true)
    (entries : List (String × α)) :
    (entries.filter (kept ·.1)).lookup key = entries.lookup key := by
  induction entries with
  | nil => rfl
  | cons entry rest ih =>
      rw [lookup_cons]
      cases hentry : kept entry.1 with
      | true => rw [List.filter_cons, if_pos hentry, lookup_cons, ih]
      | false =>
          have hne : key ≠ entry.1 := by
            rintro rfl
            exact Bool.false_ne_true (hentry.symm.trans h)
          rw [List.filter_cons, if_neg (by simp [hentry]), if_neg hne, ih]

theorem mem_of_mem_foldl_insert {entries : List (String × α)} {dictionary : Dictionary α}
    {entry : String × α}
    (h : entry ∈ (entries.foldl (fun dictionary entry => dictionary.insert entry.1 entry.2)
      dictionary).entries) : entry ∈ dictionary.entries ∨ entry ∈ entries := by
  induction entries generalizing dictionary with
  | nil => exact .inl h
  | cons first rest ih =>
      rcases ih h with hmem | hmem
      · rcases mem_insertEntry hmem with rfl | hmem
        · exact .inr List.mem_cons_self
        · exact .inl hmem
      · exact .inr (List.mem_cons_of_mem _ hmem)

/-- A dictionary holds nothing but entries of which it was made. -/
theorem mem_of_mem_ofList {entries : List (String × α)} {entry : String × α}
    (h : entry ∈ (ofList entries).entries) : entry ∈ entries :=
  (mem_of_mem_foldl_insert h).resolve_left List.not_mem_nil

theorem lookup_of_forall_lt {entries : List (String × α)} {key : String}
    (h : ∀ entry ∈ entries, key < entry.1) : entries.lookup key = none := by
  induction entries with
  | nil => rfl
  | cons entry rest ih =>
      obtain ⟨hfirst, hrest⟩ := List.forall_mem_cons.1 h
      have hne : key ≠ entry.1 := fun heq => String.lt_irrefl entry.1 (heq ▸ hfirst)
      rw [lookup_cons, if_neg hne, ih hrest]

/-- A key is kept if its value has an image. -/
theorem get?_filterMap (dictionary : Dictionary α) (f : α → Option β) (key : String) :
    (dictionary.filterMap f).get? key = (dictionary.get? key).bind f := by
  obtain ⟨entries, hascending⟩ := dictionary
  change (entries.filterMap fun entry => (f entry.2).map (entry.1, ·)).lookup key =
    (entries.lookup key).bind f
  induction entries with
  | nil => rfl
  | cons entry rest ih =>
      obtain ⟨other, old⟩ := entry
      obtain ⟨hfirst, hrest⟩ := List.pairwise_cons.1 hascending
      have hothers := ih hrest
      rw [List.filterMap_cons, lookup_cons]
      by_cases hkey : key = other
      · subst hkey
        rw [if_pos rfl, Option.bind_some]
        cases hold : f old with
        | none =>
            rw [lookup_of_forall_lt hfirst] at hothers
            exact hothers
        | some kept => exact List.lookup_cons_self
      · rw [if_neg hkey, ← hothers]
        cases f old with
        | none => rfl
        | some kept => exact (lookup_cons key other kept _).trans (if_neg hkey)

/-- An entry whose key lies behind all others comes last. -/
theorem insertEntry_of_forall_lt {key : String} {entries : List (String × α)} (value : α)
    (h : ∀ entry ∈ entries, entry.1 < key) :
    insertEntry key value entries = entries ++ [(key, value)] := by
  induction entries with
  | nil => rfl
  | cons first rest ih =>
      obtain ⟨other, old⟩ := first
      obtain ⟨hfirst, hrest⟩ := List.forall_mem_cons.1 h
      have hnot : ¬ key < other := String.lt_asymm hfirst
      have hne : key ≠ other := fun heq => String.lt_irrefl other (heq ▸ hfirst)
      rw [insertEntry, if_neg hnot, if_neg hne, ih hrest, List.cons_append]

theorem entries_foldl_insert {entries : List (String × α)} {dictionary : Dictionary α}
    (h : Ascending (dictionary.entries ++ entries)) :
    (entries.foldl (fun dictionary entry => dictionary.insert entry.1 entry.2)
      dictionary).entries = dictionary.entries ++ entries := by
  induction entries generalizing dictionary with
  | nil => exact (List.append_nil _).symm
  | cons entry rest ih =>
      have hlast : (dictionary.insert entry.1 entry.2).entries =
          dictionary.entries ++ [entry] := by
        refine insertEntry_of_forall_lt entry.2 ?_
        intro other hother
        exact (List.pairwise_append.1 h).2.2 other hother entry List.mem_cons_self
      have hnext : (dictionary.insert entry.1 entry.2).entries ++ rest =
          dictionary.entries ++ entry :: rest := by
        rw [hlast, List.append_assoc, List.singleton_append]
      rw [List.foldl_cons, ih (hnext ▸ h), hnext]

/-- Entries in ascending order are kept as they are. -/
theorem entries_ofList {entries : List (String × α)} (h : Ascending entries) :
    (ofList entries).entries = entries :=
  entries_foldl_insert h

theorem ext_entries {first second : Dictionary α} (h : first.entries = second.entries) :
    first = second := by
  cases first
  cases second
  cases h
  rfl

theorem mem_entries_iff {dictionary : Dictionary α} {key : String} {value : α} :
    (key, value) ∈ dictionary.entries ↔ dictionary.get? key = some value :=
  (lookup_eq_some_iff_mem (List.nodup_iff_count.1 dictionary.nodup_keys key)).symm

/-- Dictionaries with the same value at every key have the same entries in the same order. -/
theorem ext_get? {first second : Dictionary α} (h : ∀ key, first.get? key = second.get? key) :
    first = second := by
  have hmem (entry : String × α) : entry ∈ first.entries ↔ entry ∈ second.entries := by
    obtain ⟨key, value⟩ := entry
    rw [mem_entries_iff, mem_entries_iff, h]
  have hnodup (dictionary : Dictionary α) : dictionary.entries.Nodup :=
    (List.pairwise_map.1 dictionary.nodup_keys).imp fun hne heq => hne (congrArg Prod.fst heq)
  apply ext_entries
  refine List.Perm.eq_of_pairwise ?_ first.ascending second.ascending
    ((List.perm_ext_iff_of_nodup (hnodup first) (hnodup second)).2 hmem)
  intro a b _ _ hab hba
  exact absurd hba (String.lt_asymm hab)

/-- Entries that are all kept leave the dictionary as it is. -/
theorem filterMap_ofList_some (dictionary : Dictionary α) :
    (ofList (dictionary.entries.map fun entry => (entry.1, some entry.2))).filterMap id =
      dictionary := by
  have hascending : Ascending (dictionary.entries.map fun entry => (entry.1, some entry.2)) :=
    List.pairwise_map.2 dictionary.ascending
  have hkept := congrArg (List.filterMap fun entry => (id entry.2).map (entry.1, ·))
    (entries_ofList hascending)
  rw [List.filterMap_map] at hkept
  exact ext_entries (hkept.trans List.filterMap_some)

end Dictionary

end TextEditing
