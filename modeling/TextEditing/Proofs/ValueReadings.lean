/-
Module: TextEditing.Proofs.ValueReadings
Purpose: What is read from a text is read from the value of the text, and the other way round.
Main exports: Agrees, Agrees.of_atomic, Agrees.map, Codec.list_agrees, Record.agrees,
  Agrees.ofValue_of_ofText, Agrees.ofText_of_ofValue
-/
import Mathlib.Data.List.Nodup
import TextEditing.Proofs.RecordMembers
import TextEditing.Proofs.TreeValues
import TextEditing.Proofs.WrittenTrees

namespace TextEditing.Json

/-!
The tree of a text and the tree of its value differ in the members of objects: their order, and that
of several with one key only the last is left.  Neither matters to a record that is read from them,
since no field may come twice and the others are passed over.  Only in the other direction something
may go wrong: the value does not show that a field came twice in the text.
-/

/-- A way of reading takes from a text what it takes from the value of the text, and the other way
round if no object of the text has a key twice. -/
structure Agrees {α : Type} (read : Origin → Tree → Except DecodeError α) : Prop where
  to_value : ∀ {depth tree value}, tree.toValue depth = .ok value → ∀ {data},
    read .text tree = .ok data → read .value value.toTree = .ok data
  to_text : ∀ {depth tree value}, tree.toValue depth = .ok value → tree.DistinctKeys → ∀ {data},
    read .value value.toTree = .ok data → read .text tree = .ok data

namespace Agrees

variable {α β : Type} {read : Origin → Tree → Except DecodeError α}

/-- What is read from atoms only, and from a text as from a value, agrees. -/
theorem of_atomic (horigin : ∀ tree, read .text tree = read .value tree)
    (harray : ∀ entries defect data, read .value (.array entries defect) ≠ .ok data)
    (hobject : ∀ members defect data, read .value (.object members defect) ≠ .ok data) :
    Agrees read := by
  have hsame : ∀ depth tree value, tree.toValue depth = .ok value → ∀ data,
      (read .value tree = .ok data ↔ read .value value.toTree = .ok data) := by
    intro depth tree value htree data
    rcases Tree.toValue_cases htree with ⟨_, hsame⟩ | ⟨_, _, _, rfl, _, rfl⟩ |
      ⟨_, _, _, rfl, _, rfl⟩
    · rw [hsame]
    · exact iff_of_false (harray _ _ _) (harray _ _ _)
    · exact iff_of_false (hobject _ _ _) (hobject _ _ _)
  constructor
  · intro depth tree value htree data hread
    exact (hsame depth tree value htree data).1 (horigin tree ▸ hread)
  · intro depth tree value htree _ data hread
    exact (horigin tree).trans ((hsame depth tree value htree data).2 hread)

theorem map (h : Agrees read) (f : α → β) :
    Agrees fun origin tree => (read origin tree).map f := by
  constructor
  · intro depth tree value htree data hread
    obtain ⟨datum, hdatum, rfl⟩ := map_eq_ok_iff.1 hread
    exact map_eq_ok_iff.2 ⟨datum, h.to_value htree hdatum, rfl⟩
  · intro depth tree value htree hdistinct data hread
    obtain ⟨datum, hdatum, rfl⟩ := map_eq_ok_iff.1 hread
    exact map_eq_ok_iff.2 ⟨datum, h.to_text htree hdistinct hdatum, rfl⟩

end Agrees

namespace Codec

variable {α : Type}

theorem string_agrees : Agrees string.read :=
  .of_atomic (fun _ => rfl) (fun _ _ _ h => by cases h) fun _ _ _ h => by cases h

theorem natural_agrees (limit : Nat) (expected : String) : Agrees (natural limit expected).read :=
  .of_atomic (fun _ => rfl) (fun _ _ _ h => by cases h) fun _ _ _ h => by cases h

theorem list_read_eq_ok_iff {entry : Codec α} {origin : Origin} {entries : List Tree}
    {defect : Option Defect} {data : List α} :
    (list entry).read origin (.array entries defect) = .ok data ↔
      entries.mapM (entry.read origin) = .ok data ∧ defect = none := by
  simp only [list]
  cases entries.mapM (entry.read origin) <;> cases defect <;>
    simp [refuse, bind, Except.bind, pure, Except.pure]

/-- No list is read from an atom. -/
theorem list_read_ne_ok {entry : Codec α} {origin : Origin} {tree : Tree} (h : tree.isAtom = true)
    (data : List α) : (list entry).read origin tree ≠ .ok data := by
  intro hread
  cases tree <;> first | cases hread | cases h

theorem list_agrees {entry : Codec α} (h : Agrees entry.read) : Agrees (list entry).read := by
  constructor
  · intro depth tree value htree data hread
    rcases Tree.toValue_cases htree with ⟨hatom, _⟩ | ⟨below, entries, values, rfl, hvalues, rfl⟩ |
      ⟨_, _, _, rfl, _⟩
    · exact absurd hread (list_read_ne_ok hatom data)
    · have hentries := (list_read_eq_ok_iff.1 hread).1
      simp only [Value.toTree, Value.entriesToTrees_eq_map, list_read_eq_ok_iff, and_true]
      refine mapM_transfer ?_ hentries
      rw [List.forall₂_map_right_iff]
      exact hvalues.imp fun tree value hvalue _ hdatum => h.to_value hvalue hdatum
    · cases hread
  · intro depth tree value htree hdistinct data hread
    rcases Tree.toValue_cases htree with ⟨hatom, hsame⟩ |
      ⟨below, entries, values, rfl, hvalues, rfl⟩ | ⟨_, _, _, rfl, _, rfl⟩
    · exact absurd (hsame ▸ hread) (list_read_ne_ok hatom data)
    · simp only [Value.toTree, Value.entriesToTrees_eq_map, list_read_eq_ok_iff, and_true] at hread ⊢
      refine mapM_transfer ?_ hread
      rw [List.forall₂_map_left_iff]
      have hboth := (List.forall₂_and_left _ _).2 ⟨Tree.distinctKeys_array_iff.1 hdistinct, hvalues⟩
      exact hboth.flip.imp fun value tree hvalue _ hdatum => h.to_text hvalue.2 hvalue.1 hdatum
    · cases hread

end Codec

/-!
### Records
-/

section Members

variable {depth : Nat} {trees : List (String × Tree)} {values : List (String × Value)}

/-- The members of the value of an object, as they are read. -/
def valueMembers (values : List (String × Value)) : List (String × Tree) :=
  (Dictionary.ofList values).entries.map fun member => (member.1, member.2.toTree)

theorem toTree_ofMembers (values : List (String × Value)) :
    (Value.ofMembers values).toTree = .object (Tree.named (valueMembers values)) none := by
  rw [Value.ofMembers, Value.toTree, Value.membersToTrees_eq_map, Tree.named, valueMembers,
    List.map_map]
  rfl

theorem map_fst_of_members (h : Tree.Members depth trees values) :
    trees.map Prod.fst = values.map Prod.fst := by
  induction h with
  | nil => rfl
  | cons hmember _ ih => simp only [List.map_cons, hmember.1, ih]

theorem exists_toValue_of_mem (h : Tree.Members depth trees values) {member : String × Tree}
    (hmember : member ∈ trees) : ∃ value, member.2.toValue depth = .ok value := by
  obtain ⟨value, _, _, hvalue⟩ := exists_of_forall₂ h hmember
  exact ⟨value.2, hvalue⟩

theorem lookup_of_members (h : Tree.Members depth trees values) (name : String) :
    (trees.lookup name = none ∧ values.lookup name = none) ∨
      ∃ tree value, (name, tree) ∈ trees ∧ tree.toValue depth = .ok value ∧
        trees.lookup name = some tree ∧ values.lookup name = some value := by
  induction h with
  | nil => exact .inl ⟨rfl, rfl⟩
  | @cons member value trees values hmember _ ih =>
      obtain ⟨key, tree⟩ := member
      obtain ⟨key', value⟩ := value
      obtain ⟨rfl, hvalue⟩ := hmember
      simp only [Dictionary.lookup_cons]
      by_cases hname : name = key
      · subst hname
        simp only [if_true]
        exact .inr ⟨tree, value, List.mem_cons_self, hvalue, rfl, rfl⟩
      · simp only [if_neg hname]
        rcases ih with hnone | ⟨tree, value, hmem, hfound⟩
        · exact .inl hnone
        · exact .inr ⟨tree, value, List.mem_cons_of_mem _ hmem, hfound⟩

/-- No key comes twice in the value of an object. -/
theorem nodup_valueMembers (values : List (String × Value)) :
    ((valueMembers values).map Prod.fst).Nodup := by
  simp only [valueMembers, List.map_map, Function.comp_def]
  exact Dictionary.nodup_keys _

theorem lookup_valueMembers_of_once {name : String}
    (honce : (values.map Prod.fst).count name ≤ 1) :
    (valueMembers values).lookup name = (values.lookup name).map Value.toTree := by
  rw [valueMembers, Dictionary.lookup_map, ← Dictionary.get?_ofList_of_count_le_one honce]
  rfl

/-- What is found under a name that comes only once is found in the value as well, with its value. -/
theorem lookup_valueMembers (h : Tree.Members depth trees values) {name : String}
    (honce : (trees.map Prod.fst).count name ≤ 1) :
    (trees.lookup name = none ∧ (valueMembers values).lookup name = none) ∨
      ∃ tree value, (name, tree) ∈ trees ∧ tree.toValue depth = .ok value ∧
        trees.lookup name = some tree ∧
        (valueMembers values).lookup name = some value.toTree := by
  rw [map_fst_of_members h] at honce
  have hkept := lookup_valueMembers_of_once honce
  rcases lookup_of_members h name with ⟨hnone, hnone'⟩ | ⟨tree, value, hmem, hvalue, hfound, hfound'⟩
  · exact .inl ⟨hnone, by rw [hkept, hnone', Option.map_none]⟩
  · exact .inr ⟨tree, value, hmem, hvalue, hfound, by rw [hkept, hfound', Option.map_some]⟩

variable {ρ : Type} {kind : Record ρ}

/-- The members of an object suit a record if and only if those of its value do, as long as no field
comes twice. -/
theorem suits_valueMembers_iff (h : Tree.Members depth trees values)
    (honce : ∀ field ∈ kind.fields, (trees.map Prod.fst).count field.name ≤ 1) :
    kind.Suits (valueMembers values) ↔ kind.Suits trees := by
  have hcomplete : ∀ field ∈ kind.fields, (((valueMembers values).lookup field.name).isSome ↔
      (trees.lookup field.name).isSome) := by
    intro field hfield
    rcases lookup_valueMembers h (honce field hfield) with
      ⟨hnone, hnone'⟩ | ⟨_, _, _, _, hfound, hfound'⟩
    · rw [hnone, hnone']
    · rw [hfound, hfound', Option.isSome_some, Option.isSome_some]
  constructor
  · intro hsuits
    refine ⟨honce, fun member hmember _ => ?_, fun field hfield hnever => ?_⟩
    · obtain ⟨value, hvalue⟩ := exists_toValue_of_mem h hmember
      exact Tree.pass_of_toValue hvalue
    · exact (hcomplete field hfield).1 (hsuits.complete field hfield hnever)
  · intro hsuits
    refine ⟨fun field _ => ?_, fun member hmember _ => ?_, fun field hfield hnever => ?_⟩
    · exact List.nodup_iff_count_le_one.1 (nodup_valueMembers values) field.name
    · obtain ⟨entry, _, rfl⟩ := List.mem_map.1 hmember
      exact entry.2.pass_toTree
    · exact (hcomplete field hfield).2 (hsuits.complete field hfield hnever)

end Members

namespace Record

variable {ρ : Type} {kind : Record ρ}

/-- Fields are read from the entries of one array as from those of another one if they are entry by
entry. -/
theorem readFields_transfer {origin other : Origin} {fields : List (RecordField ρ)}
    {first second : List Tree}
    (h : List.Forall₂ (fun tree tree' => ∀ field ∈ fields, ∀ put,
      field.read origin tree = .ok put → field.read other tree' = .ok put) first second)
    {place place' : Nat} {record result : ρ}
    (hread : kind.readFields origin none place record fields first = .ok result) :
    kind.readFields other none place' record fields second = .ok result := by
  induction fields generalizing first second place place' record with
  | nil =>
      cases h with
      | nil => exact hread
      | cons => cases hread
  | cons field fields ih =>
      cases h with
      | nil =>
          simp only [readFields, refuse, bind, Except.bind] at hread ⊢
          split at hread
          · rename_i habsence
            rw [if_pos habsence]
            exact ih .nil hread
          · cases hread
      | cons hentry hrest =>
          simp only [readFields] at hread ⊢
          cases hput : field.read origin _ with
          | error failure =>
              rw [hput] at hread
              cases hread
          | ok put =>
              rw [hput] at hread
              rw [hentry field List.mem_cons_self put hput]
              refine ih (hrest.imp fun tree tree' hsame other hother => ?_) hread
              exact hsame other (List.mem_cons_of_mem _ hother)

theorem read_ne_ok {origin : Origin} {tree : Tree} (h : tree.isAtom = true) (record : ρ) :
    kind.read origin tree ≠ .ok record := by
  intro hread
  cases tree <;> first | cases hread | cases h

/-- A record whose fields agree agrees. -/
theorem agrees (hkind : kind.Independent) (h : ∀ field ∈ kind.fields, Agrees field.read) :
    Agrees kind.read := by
  constructor
  · intro depth tree value htree record hread
    rcases Tree.toValue_cases htree with ⟨hatom, _⟩ | ⟨below, entries, values, rfl, hvalues, rfl⟩ |
      ⟨below, trees, values, rfl, hvalues, rfl⟩
    · exact absurd hread (read_ne_ok hatom record)
    · simp only [Value.toTree, Value.entriesToTrees_eq_map]
      refine readFields_transfer ?_ hread
      rw [List.forall₂_map_right_iff]
      exact hvalues.imp fun tree value hvalue field hfield _ hput =>
        (h field hfield).to_value hvalue hput
    · obtain ⟨hsuits, hfilled⟩ := (readMembers_eq_ok_iff hkind).1 hread
      rw [toTree_ofMembers]
      refine (readMembers_eq_ok_iff hkind).2
        ⟨(suits_valueMembers_iff hvalues hsuits.once).2 hsuits, filled_transfer ?_ hfilled⟩
      intro field hfield put hput
      rcases lookup_valueMembers hvalues (hsuits.once field hfield) with
        ⟨hnone, hnone'⟩ | ⟨tree, value, _, hvalue, hfound, hfound'⟩
      · rw [hnone']
        rw [hnone] at hput
        exact hput
      · rw [hfound']
        rw [hfound] at hput
        exact (h field hfield).to_value hvalue hput
  · intro depth tree value htree hdistinct record hread
    rcases Tree.toValue_cases htree with ⟨hatom, hsame⟩ |
      ⟨below, entries, values, rfl, hvalues, rfl⟩ | ⟨below, trees, values, rfl, hvalues, rfl⟩
    · exact absurd (hsame ▸ hread) (read_ne_ok hatom record)
    · simp only [Value.toTree, Value.entriesToTrees_eq_map] at hread
      refine readFields_transfer ?_ hread
      rw [List.forall₂_map_left_iff]
      have hboth := (List.forall₂_and_left _ _).2
        ⟨Tree.distinctKeys_array_iff.1 hdistinct, hvalues⟩
      exact hboth.flip.imp fun value tree hvalue field hfield _ hput =>
        (h field hfield).to_text hvalue.2 hvalue.1 hput
    · obtain ⟨hnodup, hmembers⟩ := Tree.distinctKeys_object_iff.1 hdistinct
      have honce : ∀ field ∈ kind.fields, (trees.map Prod.fst).count field.name ≤ 1 := by
        have hnames : (trees.map Prod.fst).Nodup := by
          refine List.Nodup.of_map Key.name ?_
          simp only [Tree.named, List.map_map] at hnodup ⊢
          exact hnodup
        exact fun field _ => List.nodup_iff_count_le_one.1 hnames field.name
      rw [toTree_ofMembers] at hread
      obtain ⟨hsuits, hfilled⟩ := (readMembers_eq_ok_iff hkind).1 hread
      refine (readMembers_eq_ok_iff hkind).2
        ⟨(suits_valueMembers_iff hvalues honce).1 hsuits, filled_transfer ?_ hfilled⟩
      intro field hfield put hput
      rcases lookup_valueMembers hvalues (honce field hfield) with
        ⟨hnone, hnone'⟩ | ⟨tree, value, hmem, hvalue, hfound, hfound'⟩
      · rw [hnone]
        rw [hnone'] at hput
        exact hput
      · rw [hfound]
        rw [hfound'] at hput
        have hdistinct : tree.DistinctKeys := hmembers _ (List.mem_map_of_mem hmem)
        exact (h field hfield).to_text hvalue hdistinct hput

end Record

/-!
### Whole texts
-/

theorem Value.ofText_eq_ok_iff {text : String} {value : Value} :
    Value.ofText text = .ok value ↔
      (Parsed.ofText text).root.toValue maxDepth = .ok value ∧
        (Parsed.ofText text).trailing = false := by
  simp only [Value.ofText]
  cases (Parsed.ofText text).root.toValue maxDepth <;> cases (Parsed.ofText text).trailing <;>
    simp [bind, Except.bind, pure, Except.pure]

section Codec

variable {α : Type} {codec : Codec α} {text : String} {value : Value} {data : α}

theorem Agrees.ofValue_of_ofText (h : Agrees codec.read) (hvalue : Value.ofText text = .ok value)
    (hread : codec.ofText text = .ok data) : codec.ofValue value = .ok data :=
  h.to_value (Value.ofText_eq_ok_iff.1 hvalue).1 (Codec.ofText_eq_ok_iff.1 hread).1

theorem Agrees.ofText_of_ofValue (h : Agrees codec.read) (hvalue : Value.ofText text = .ok value)
    (hdistinct : (Parsed.ofText text).root.DistinctKeys) (hread : codec.ofValue value = .ok data) :
    codec.ofText text = .ok data := by
  obtain ⟨hroot, htrailing⟩ := Value.ofText_eq_ok_iff.1 hvalue
  exact Codec.ofText_eq_ok_iff.2 ⟨h.to_text hroot hdistinct hread, htrailing⟩

end Codec

end TextEditing.Json
