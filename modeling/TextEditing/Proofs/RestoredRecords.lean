/-
Module: TextEditing.Proofs.RestoredRecords
Purpose: A record whose fields are read again as they were written is read again itself.
Main exports: Codec.natural_restores, Codec.list_restores, RecordField.Restores, Record.Shows,
  Record.shows_of_perm, Record.restores, Codec.Survives, Codec.Restores.survives
-/
import TextEditing.Proofs.CompactTexts
import TextEditing.Proofs.RecordMembers
import TextEditing.Proofs.ValueReadings

namespace TextEditing.Json

/-!
A record is written with one member for each field that has something to write.  Under the name of a
field there is then what was written for it, and the blank record with every field set to that is the
record again.
-/

namespace Codec

variable {α : Type}

theorem string_restores (text : String) : string.Restores text where
  read_write _ := rfl
  integral_write := trivial

theorem natural_restores {limit n : Nat} (expected : String) (h : n ≤ limit)
    (hlimit : limit ≤ maxSignificand) : (natural limit expected).Restores n where
  read_write _ := if_pos h
  integral_write := Nat.le_trans h hlimit

/-- A list is read again if all its entries are. -/
theorem list_restores {entry : Codec α} {data : List α} (h : ∀ datum ∈ data, entry.Restores datum) :
    (list entry).Restores data where
  read_write origin := by
    have hentries : (data.map fun datum => (entry.write datum).toTree).mapM (entry.read origin) =
        .ok data := by
      rw [mapM_eq_ok_iff, List.forall₂_map_left_iff, List.forall₂_same]
      intro datum hdatum
      exact (h datum hdatum).read_write origin
    simp only [list, Value.toTree, Value.entriesToTrees_eq_map, List.map_map, Function.comp_def,
      hentries]
    rfl
  integral_write := by
    apply Value.integralEntries_of_forall
    intro value hvalue
    obtain ⟨datum, hdatum, rfl⟩ := List.mem_map.1 hvalue
    exact (h datum hdatum).integral_write

end Codec

variable {ρ : Type}

namespace RecordField

/-- What is written of a field changes a record by `put` when it is read; a field that is wanted is
written. -/
structure Restores (field : RecordField ρ) (record : ρ) (put : ρ → ρ) : Prop where
  found : ∀ origin, field.readFound origin ((field.write record).map Value.toTree) = .ok put
  complete : field.absence = .never → (field.write record).isSome
  integral : ∀ value ∈ field.write record, value.Integral

variable {α : Type} {codec : Codec α} {get : ρ → α} {record : ρ}

theorem Restores.required (name : String) (set : α → ρ → ρ) (h : codec.Restores (get record)) :
    (RecordField.required name codec get set).Restores record (set (get record)) where
  found origin := congrArg (Except.map set) (h.read_write origin)
  complete _ := rfl
  integral := by
    intro value hvalue
    cases hvalue
    exact h.integral_write

theorem Restores.defaulted (name : String) (set : α → ρ → ρ) (h : codec.Restores (get record)) :
    (RecordField.defaulted name codec get set).Restores record (set (get record)) where
  found := (Restores.required name set h).found
  complete _ := rfl
  integral := (Restores.required name set h).integral

end RecordField

/-- The entries of an object as they are read. -/
def entryTrees (entries : List (String × Value)) : List (String × Tree) :=
  entries.map fun entry => (entry.1, entry.2.toTree)

theorem toTree_object (entries : List (String × Value)) :
    (Value.object entries).toTree = .object (Tree.named (entryTrees entries)) none := by
  simp only [Value.toTree, Value.membersToTrees_eq_map, Tree.named, entryTrees, List.map_map,
    Function.comp_def]

theorem map_fst_entryTrees (entries : List (String × Value)) :
    (entryTrees entries).map Prod.fst = entries.map Prod.fst := by
  simp only [entryTrees, List.map_map, Function.comp_def]

namespace Record

variable {kind : Record ρ} {record : ρ}

/-- Under the name of a field stands what was written for it. -/
theorem lookup_members {fields : List (RecordField ρ)}
    (hnames : fields.Pairwise fun first second => first.name ≠ second.name)
    {field : RecordField ρ} (hfield : field ∈ fields) :
    (fields.filterMap fun field => (field.write record).map (field.name, ·)).lookup field.name =
      field.write record := by
  induction fields with
  | nil => cases hfield
  | cons first rest ih =>
      obtain ⟨hfirst, hrest⟩ := List.pairwise_cons.1 hnames
      rw [List.filterMap_cons]
      rcases List.mem_cons.1 hfield with rfl | hfield
      · cases hwritten : field.write record with
        | some value => exact List.lookup_cons_self
        | none =>
            rw [Option.map_none, Dictionary.lookup_eq_none_iff]
            intro hmem
            obtain ⟨member, hmember, hname⟩ := List.mem_map.1 hmem
            obtain ⟨other, hother, hmember⟩ := List.mem_filterMap.1 hmember
            obtain ⟨value, _, rfl⟩ := Option.map_eq_some_iff.1 hmember
            exact hfirst other hother hname.symm
      · have hne : field.name ≠ first.name := (hfirst field hfield).symm
        cases first.write record with
        | none => exact ih hrest hfield
        | some value =>
            rw [Option.map_some, Dictionary.lookup_cons, if_neg hne]
            exact ih hrest hfield

/-- Every field that something is written for has one member. -/
theorem nodup_members {fields : List (RecordField ρ)}
    (hnames : fields.Pairwise fun first second => first.name ≠ second.name) :
    ((fields.filterMap fun field => (field.write record).map (field.name, ·)).map
      Prod.fst).Nodup := by
  refine List.pairwise_map.2 (hnames.filterMap _ ?_)
  intro first second hne member hmember member' hmember'
  obtain ⟨_, _, rfl⟩ := Option.map_eq_some_iff.1 hmember
  obtain ⟨_, _, rfl⟩ := Option.map_eq_some_iff.1 hmember'
  exact hne

/-- The members of the object for a record, as they are read. -/
def written (kind : Record ρ) (record : ρ) : List (String × Tree) :=
  (kind.members record).map fun member => (member.1, member.2.toTree)

theorem toTree_write (kind : Record ρ) (record : ρ) :
    (kind.codec.write record).toTree = .object (Tree.named (kind.written record)) none :=
  toTree_object (kind.members record)

/-- The names of the fields. -/
def names (kind : Record ρ) : List String := kind.fields.map (·.name)

/-- Each field is to be found as it is written for the record, and everything can be passed over. -/
structure Shows (kind : Record ρ) (record : ρ) (members : List (String × Tree)) : Prop where
  once : ∀ field ∈ kind.fields, (members.map Prod.fst).count field.name ≤ 1
  passed : ∀ member ∈ members, member.2.pass = none
  found : ∀ field ∈ kind.fields,
    members.lookup field.name = (field.write record).map Value.toTree

/-- The members of a record show it in any order, and among others that have no name of a field. -/
theorem shows_of_perm {entries others : List (String × Value)} (hkind : kind.Independent)
    (hperm : entries.Perm (kind.members record ++ others))
    (hothers : ∀ name ∈ kind.names, name ∉ others.map Prod.fst) :
    kind.Shows record (entryTrees entries) := by
  have hmissing : ∀ field ∈ kind.fields, field.name ∉ others.map Prod.fst :=
    fun field hfield => hothers field.name (List.mem_map_of_mem hfield)
  have honce : ∀ field ∈ kind.fields,
      ((kind.members record ++ others).map Prod.fst).count field.name ≤ 1 := by
    intro field hfield
    rw [List.map_append, List.count_append, List.count_eq_zero.2 (hmissing field hfield)]
    exact List.nodup_iff_count_le_one.1 (nodup_members hkind.names) field.name
  refine ⟨fun field hfield => ?_, fun member hmember => ?_, fun field hfield => ?_⟩
  · rw [map_fst_entryTrees, (hperm.map Prod.fst).count_eq]
    exact honce field hfield
  · obtain ⟨entry, _, rfl⟩ := List.mem_map.1 hmember
    exact entry.2.pass_toTree
  · have hnone := Dictionary.lookup_eq_none_iff.2 (hmissing field hfield)
    have hfound : (kind.members record).lookup field.name = field.write record :=
      lookup_members hkind.names hfield
    rw [entryTrees, Dictionary.lookup_map, Dictionary.lookup_of_perm hperm (honce field hfield),
      List.lookup_append, hnone, Option.or_none, hfound]

theorem shows_written (hkind : kind.Independent) : kind.Shows record (kind.written record) := by
  have hperm : (kind.members record).Perm (kind.members record ++ []) := by rw [List.append_nil]
  exact shows_of_perm hkind hperm fun _ _ => List.not_mem_nil

variable {puts : List (ρ → ρ)}

/-- From members that show a record, each field is set to what was written for it. -/
theorem Shows.readMembers_eq {members : List (String × Tree)} (h : kind.Shows record members)
    (hkind : kind.Independent)
    (hfields : List.Forall₂ (fun field put => field.Restores record put) kind.fields puts)
    (origin : Origin) :
    kind.readMembers origin (Tree.named members) none =
      .ok (puts.foldl (fun former put => put former) kind.blank) := by
  have hsuits : kind.Suits members := by
    refine ⟨h.once, fun member hmember _ => h.passed member hmember, fun field hfield hnever => ?_⟩
    obtain ⟨_, _, hrestores⟩ := exists_of_forall₂ hfields hfield
    rw [h.found field hfield, Option.isSome_map]
    exact hrestores.complete hnever
  have hputs : kind.fields.mapM (fun field =>
      field.readFound origin (members.lookup field.name)) = .ok puts := by
    rw [mapM_congr_left fun field hfield =>
      congrArg (field.readFound origin) (h.found field hfield), mapM_eq_ok_iff]
    exact hfields.imp fun field put hfield => hfield.found origin
  exact (readMembers_eq_ok_iff hkind).2 ⟨hsuits, filled_eq_ok_iff.2 ⟨puts, hputs, rfl⟩⟩

/-- A record is read again if the fields are and make it up. -/
theorem restores (hkind : kind.Independent)
    (hfields : List.Forall₂ (fun field put => field.Restores record put) kind.fields puts)
    (hrecord : puts.foldl (fun former put => put former) kind.blank = record) :
    kind.codec.Restores record where
  read_write origin := by
    have hshows : kind.Shows record (kind.written record) := shows_written hkind
    have hread := hshows.readMembers_eq hkind hfields origin
    rw [hrecord] at hread
    rw [toTree_write]
    exact hread
  integral_write := by
    apply Value.integralMembers_of_forall
    intro member hmember
    obtain ⟨field, hfield, hmember⟩ := List.mem_filterMap.1 hmember
    obtain ⟨value, hvalue, rfl⟩ := Option.map_eq_some_iff.1 hmember
    obtain ⟨_, _, hrestores⟩ := exists_of_forall₂ hfields hfield
    exact hrestores.integral value hvalue

end Record

/-!
### On the way through a text or a value
-/

namespace Codec

variable {α : Type}

/-- The data come back from the texts that they are written as, and from the value that such a text
has. -/
structure Survives (codec : Codec α) (data : α) : Prop where
  ofText_compact : codec.ofText (codec.write data).compact = .ok data
  ofText_pretty : codec.ofText (codec.write data).pretty = .ok data
  value_compact : Value.ofText (codec.write data).compact = .ok (codec.write data).sorted
  ofValue_sorted : codec.ofValue (codec.write data).sorted = .ok data

variable {codec : Codec α} {data : α}

/-- The order of the members makes no difference to what agrees on texts and values. -/
theorem Restores.ofValue_sorted (h : codec.Restores data) (hagrees : Agrees codec.read) :
    codec.ofValue (codec.write data).sorted = .ok data :=
  hagrees.to_value (Value.toValue_toTree (codec.write data) (Nat.le_refl _)) (h.read_write .text)

theorem Restores.survives (h : codec.Restores data) (hagrees : Agrees codec.read)
    (hdepth : (codec.write data).nesting ≤ Value.maxDepth) : codec.Survives data where
  ofText_compact := h.ofText_compact
  ofText_pretty := h.ofText_pretty
  value_compact := by
    rw [Value.ofText_eq_ok_iff, Parsed.ofText_compact h.integral_write]
    exact ⟨Value.toValue_toTree (codec.write data) hdepth, rfl⟩
  ofValue_sorted := h.ofValue_sorted hagrees

end Codec

end TextEditing.Json
