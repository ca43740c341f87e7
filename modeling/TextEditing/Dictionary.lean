/-
Module: TextEditing.Dictionary
Purpose: Finite maps from texts, listed in ascending order of their keys.
Main exports: Dictionary, Dictionary.get?, Dictionary.insert, Dictionary.last?,
  Dictionary.ofList, Dictionary.erase, Dictionary.filterMap
-/

namespace TextEditing

/-!
Keys are compared character by character, by code point.  A dictionary is the list of its entries
in this order, each key once, so two dictionaries with the same entries are the same list.
-/

namespace Dictionary

variable {α β : Type}

/-- Every key is smaller than all that come after it. -/
def Ascending (entries : List (String × α)) : Prop :=
  entries.Pairwise fun a b => a.1 < b.1

/-- The entries with one more; an entry with the same key gives way to it. -/
def insertEntry (key : String) (value : α) : List (String × α) → List (String × α)
  | [] => [(key, value)]
  | (other, old) :: rest =>
      if key < other then (key, value) :: (other, old) :: rest
      else if key = other then (key, value) :: rest
      else (other, old) :: insertEntry key value rest

/-- Entries of the result are the new one and former ones. -/
theorem mem_insertEntry {key : String} {value : α} {entries : List (String × α)}
    {entry : String × α} (h : entry ∈ insertEntry key value entries) :
    entry = (key, value) ∨ entry ∈ entries := by
  induction entries with
  | nil => simpa [insertEntry] using h
  | cons first rest ih =>
    obtain ⟨other, old⟩ := first
    simp only [insertEntry] at h
    split at h
    · simpa using h
    · split at h
      · rcases List.mem_cons.1 h with h | h
        · exact .inl h
        · exact .inr (List.mem_cons_of_mem _ h)
      · rcases List.mem_cons.1 h with h | h
        · exact .inr (h ▸ List.mem_cons_self)
        · exact (ih h).imp_right (List.mem_cons_of_mem _)

/-- A key that is neither smaller nor equal is greater. -/
theorem lt_of_not_lt_of_ne {a b : String} (h : ¬a < b) (hne : a ≠ b) : b < a :=
  String.not_le.1 fun le => hne (String.le_antisymm le (String.not_lt.1 h))

theorem ascending_insertEntry {entries : List (String × α)} (h : Ascending entries)
    (key : String) (value : α) : Ascending (insertEntry key value entries) := by
  induction entries with
  | nil => exact List.pairwise_singleton _ _
  | cons first rest ih =>
    obtain ⟨other, old⟩ := first
    obtain ⟨hfirst, hrest⟩ := List.pairwise_cons.1 h
    simp only [insertEntry]
    split
    · rename_i hlt
      refine List.pairwise_cons.2 ⟨fun entry hentry => ?_, h⟩
      rcases List.mem_cons.1 hentry with rfl | hentry
      · exact hlt
      · exact String.lt_trans hlt (hfirst entry hentry)
    · rename_i hnlt
      split
      · rename_i heq
        exact List.pairwise_cons.2 ⟨fun entry hentry => heq ▸ hfirst entry hentry, hrest⟩
      · rename_i hne
        refine List.pairwise_cons.2 ⟨fun entry hentry => ?_, ih hrest⟩
        rcases mem_insertEntry hentry with rfl | hentry
        · exact lt_of_not_lt_of_ne hnlt hne
        · exact hfirst entry hentry

end Dictionary

/-- A finite map from texts. -/
structure Dictionary (α : Type) where
  entries : List (String × α)
  ascending : Dictionary.Ascending entries
deriving DecidableEq

namespace Dictionary

variable {α β : Type}

/-- The dictionary without any entry. -/
def empty : Dictionary α := ⟨[], List.Pairwise.nil⟩

instance : Inhabited (Dictionary α) := ⟨empty⟩

/-- The value at a key. -/
def get? (dictionary : Dictionary α) (key : String) : Option α :=
  dictionary.entries.lookup key

/-- The key has a value. -/
def contains (dictionary : Dictionary α) (key : String) : Bool :=
  (dictionary.get? key).isSome

/-- Puts a value at a key, in the place of the one that may stand there. -/
def insert (dictionary : Dictionary α) (key : String) (value : α) : Dictionary α :=
  ⟨insertEntry key value dictionary.entries, ascending_insertEntry dictionary.ascending key value⟩

/-- What the last entry for a key says. -/
def last? (key : String) (entries : List (String × α)) : Option α :=
  ((entries.filter (·.1 = key)).map (·.2)).getLast?

/-- The dictionary of a list of entries; of several with one key the last counts. -/
def ofList (entries : List (String × α)) : Dictionary α :=
  entries.foldl (fun dictionary entry => dictionary.insert entry.1 entry.2) empty

/-- Takes a key out. -/
def erase (dictionary : Dictionary α) (key : String) : Dictionary α :=
  ⟨dictionary.entries.filter (·.1 ≠ key), dictionary.ascending.filter _⟩

/-- Keeps the keys whose value has an image, with the image. -/
def filterMap (f : α → Option β) (dictionary : Dictionary α) : Dictionary β where
  entries := dictionary.entries.filterMap fun entry => (f entry.2).map (entry.1, ·)
  ascending := by
    refine List.Pairwise.filterMap _ (fun a b hab c hc d hd => ?_) dictionary.ascending
    obtain ⟨_, _, rfl⟩ := Option.map_eq_some_iff.1 hc
    obtain ⟨_, _, rfl⟩ := Option.map_eq_some_iff.1 hd
    exact hab

@[simp] theorem get?_empty (key : String) : (empty : Dictionary α).get? key = none := rfl

theorem lookup_cons (key other : String) (old : α) (rest : List (String × α)) :
    List.lookup key ((other, old) :: rest) =
      if key = other then some old else List.lookup key rest := by
  rw [List.lookup_cons]
  by_cases h : key = other
  · simp [h]
  · have hb : (key == other) = false := by simpa using h
    rw [hb, if_neg h]

theorem lookup_insertEntry (key other : String) (value : α) (entries : List (String × α)) :
    (insertEntry key value entries).lookup other =
      if other = key then some value else entries.lookup other := by
  induction entries with
  | nil => simp [insertEntry, lookup_cons]
  | cons first rest ih =>
    obtain ⟨present, old⟩ := first
    simp only [insertEntry]
    split
    · simp only [lookup_cons]
    · split
      · rename_i heq
        subst heq
        simp only [lookup_cons]
        by_cases h : other = key <;> simp [h]
      · rename_i hne
        simp only [lookup_cons, ih]
        by_cases h : other = present
        · simp [h, Ne.symm hne]
        · simp [h]

theorem lookup_filter (key other : String) (entries : List (String × α)) :
    (entries.filter (·.1 ≠ key)).lookup other =
      if other = key then none else entries.lookup other := by
  induction entries with
  | nil => simp
  | cons first rest ih =>
    obtain ⟨present, old⟩ := first
    by_cases hp : present = key
    · subst hp
      rw [List.filter_cons_of_neg (by simp), ih, lookup_cons]
      by_cases h : other = present <;> simp [h]
    · rw [List.filter_cons_of_pos (by simpa using hp), lookup_cons, lookup_cons, ih]
      by_cases h : other = present
      · simp [h, hp]
      · simp [h]

@[simp] theorem get?_insert (dictionary : Dictionary α) (key other : String) (value : α) :
    (dictionary.insert key value).get? other =
      if other = key then some value else dictionary.get? other :=
  lookup_insertEntry key other value dictionary.entries

@[simp] theorem get?_erase (dictionary : Dictionary α) (key other : String) :
    (dictionary.erase key).get? other = if other = key then none else dictionary.get? other :=
  lookup_filter key other dictionary.entries

end Dictionary

end TextEditing
