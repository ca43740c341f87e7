/-
Module: TextEditing.Proofs.ShuffledMembers
Purpose: A record is read from the members that it is written with in any order, also among others.
Main exports: Value.Plain, Foreign, Codec.Scalar, RecordField.Carries, Record.Shows.valueMembers,
  Codec.ReadsFrom, Codec.Exchanges, Record.exchanges
-/
import TextEditing.Proofs.RestoredRecords

namespace TextEditing.Json

/-!
A record is shown by the members that are found under the names of its fields.  Moving members
around and adding some under other names changes nothing about that, as long as no name of a field
comes twice; nor does it matter that an object in memory has its members in the order of their keys.
-/

namespace Value

/-- `null`, a truth value, an integer of 64 bits with or without a sign, or a string. -/
inductive Plain : Value → Prop
  | null : Plain .null
  | boolean (value : Bool) : Plain (.boolean value)
  | integer (n : Int) (hlow : -0x8000000000000000 ≤ n) (hhigh : n < 0x10000000000000000) :
      Plain (.ofInt n)
  | string (text : String) : Plain (.string text)

theorem ofInt_natCast (n : Nat) : ofInt n = ofNat n := by
  simp [ofInt, ofNat]

theorem Plain.natural {n : Nat} (h : n < 0x10000000000000000) : (ofNat n).Plain := by
  rw [← ofInt_natCast]
  exact .integer n (by omega) (by omega)

theorem Plain.isAtom {value : Value} (h : value.Plain) : value.toTree.isAtom = true := by
  cases h <;> rfl

theorem Plain.integral {value : Value} (h : value.Plain) : value.Integral := by
  cases h with
  | null | boolean | string => trivial
  | integer n hlow hhigh => exact integral_ofInt hlow hhigh

end Value

/-!
### Data that are no arrays or objects
-/

namespace Codec

variable {α : Type} {codec : Codec α}

/-- Everything is written as a plain value other than `null`, and read from it again. -/
structure Scalar (codec : Codec α) : Prop where
  read_write : ∀ origin data, codec.read origin (codec.write data).toTree = .ok data
  plain : ∀ data, (codec.write data).Plain
  ne_null : ∀ data, codec.write data ≠ .null

theorem Scalar.restores (h : codec.Scalar) (data : α) : codec.Restores data where
  read_write origin := h.read_write origin data
  integral_write := (h.plain data).integral

/-- Different data are written differently. -/
theorem Scalar.injective (h : codec.Scalar) : Function.Injective codec.write := by
  intro first second heq
  have hfirst := h.read_write .value first
  rw [heq, h.read_write] at hfirst
  exact (Except.ok.inj hfirst).symm

theorem boolean_scalar : boolean.Scalar where
  read_write _ _ := rfl
  plain := .boolean
  ne_null _ := nofun

theorem string_scalar : string.Scalar where
  read_write _ _ := rfl
  plain := .string
  ne_null _ := nofun

theorem word32_scalar : word32.Scalar where
  read_write origin n := by
    have hle : n.toNat ≤ 0xFFFFFFFF := Nat.le_of_lt_succ n.toNat_lt
    have hread := (natural_restores "u32" hle (by decide)).read_write origin
    exact (congrArg (Except.map UInt32.ofNat) hread).trans
      (congrArg Except.ok UInt32.ofNat_toNat)
  plain n := .natural (Nat.lt_trans n.toNat_lt (by decide))
  ne_null _ := nofun

/-- A choice is read from its number if it is listed with it. -/
theorem numbered_scalar {choices : List (Nat × α)} {number : α → Nat}
    (h : ∀ choice, number choice ≤ 255 ∧ choices.lookup (number choice) = some choice) :
    (numbered choices number).Scalar where
  read_write origin choice := by
    obtain ⟨hle, hfound⟩ := h choice
    have hread := (natural_restores "u8" hle (by decide)).read_write origin
    simp only [numbered, natural, Value.toTree, Value.ofNat] at hread ⊢
    rw [hread]
    simp only [bind, Except.bind, hfound]
    rfl
  plain choice := .natural (Nat.lt_of_le_of_lt (h choice).1 (by decide))
  ne_null _ := nofun

end Codec

variable {ρ : Type}

namespace RecordField

/-- The field restores what it is written as, which is a plain value other than `null`. -/
structure Carries (field : RecordField ρ) (record : ρ) (put : ρ → ρ) : Prop
    extends field.Restores record put where
  plain : ∀ value ∈ field.write record, value.Plain ∧ value ≠ .null

variable {α : Type} {codec : Codec α} {get : ρ → α} {record : ρ}

theorem Carries.required (name : String) (set : α → ρ → ρ) (h : codec.Scalar) :
    (RecordField.required name codec get set).Carries record (set (get record)) where
  toRestores := .required name set (h.restores (get record))
  plain := by
    intro value hvalue
    cases hvalue
    exact ⟨h.plain _, h.ne_null _⟩

/-- Sets what there is, and leaves a record alone if there is nothing. -/
def fill (set : Option α → ρ → ρ) : Option α → ρ → ρ
  | none => id
  | some value => set (some value)

@[simp] theorem fill_none (set : Option α → ρ → ρ) (record : ρ) :
    fill set none record = record := rfl

@[simp] theorem fill_some (set : Option α → ρ → ρ) (value : α) (record : ρ) :
    fill set (some value) record = set (some value) record := rfl

theorem Sets.optional {get : ρ → Option α} {name : String} {set : Option α → ρ → ρ} :
    (RecordField.optional name codec get set).Sets set := by
  intro origin tree put hput
  cases tree with
  | null =>
      cases hput
      exact ⟨none, rfl⟩
  | _ =>
      obtain ⟨value, _, rfl⟩ := map_eq_ok_iff.1 hput
      exact ⟨some value, rfl⟩

/-- What is set is not written as the `null` that would unset it. -/
theorem Carries.optional {get : ρ → Option α} (name : String) (set : Option α → ρ → ρ)
    (h : codec.Scalar) :
    (RecordField.optional name codec get set).Carries record (fill set (get record)) where
  found origin := by
    simp only [RecordField.optional]
    cases get record with
    | none => rfl
    | some value =>
        have hread := h.read_write origin value
        have hne := h.ne_null value
        simp only [Option.map_some, readFound_some, fill]
        cases hvalue : codec.write value with
        | null => exact absurd hvalue hne
        | _ =>
            rw [hvalue] at hread
            exact congrArg (Except.map _) hread
  complete := nofun
  integral := by
    intro value hvalue
    obtain ⟨data, _, rfl⟩ := Option.map_eq_some_iff.1 hvalue
    exact (h.plain data).integral
  plain := by
    intro value hvalue
    obtain ⟨data, _, rfl⟩ := Option.map_eq_some_iff.1 hvalue
    exact ⟨h.plain data, h.ne_null data⟩

end RecordField

/-!
### Members in any order
-/

namespace Record

variable {kind : Record ρ} {record : ρ} {puts : List (ρ → ρ)}
  {entries others : List (String × Value)}

/-- A member is that of a field. -/
theorem exists_of_mem_members {member : String × Value} (h : member ∈ kind.members record) :
    ∃ field ∈ kind.fields, field.name = member.1 ∧ field.write record = some member.2 := by
  obtain ⟨field, hfield, hmember⟩ := List.mem_filterMap.1 h
  obtain ⟨value, hvalue, rfl⟩ := Option.map_eq_some_iff.1 hmember
  exact ⟨field, hfield, rfl, hvalue⟩

theorem mem_names_of_mem_members {member : String × Value} (h : member ∈ kind.members record) :
    member.1 ∈ kind.names := by
  obtain ⟨field, hfield, hname, _⟩ := exists_of_mem_members h
  exact List.mem_map.2 ⟨field, hfield, hname⟩

theorem mem_names_of_mem_keys {name : String}
    (h : name ∈ (kind.members record).map Prod.fst) : name ∈ kind.names := by
  obtain ⟨member, hmember, rfl⟩ := List.mem_map.1 h
  exact mem_names_of_mem_members hmember

theorem plain_of_mem_members
    (hfields : List.Forall₂ (fun field put => field.Carries record put) kind.fields puts)
    {member : String × Value} (h : member ∈ kind.members record) :
    member.2.Plain ∧ member.2 ≠ .null := by
  obtain ⟨field, hfield, _, hvalue⟩ := exists_of_mem_members h
  obtain ⟨_, _, hcarries⟩ := exists_of_forall₂ hfields hfield
  exact hcarries.plain member.2 hvalue

/-- In memory the members stand in the order of their keys. -/
theorem Shows.valueMembers (h : kind.Shows record (entryTrees entries)) :
    kind.Shows record (valueMembers entries) where
  once field _ := List.nodup_iff_count_le_one.1 (nodup_valueMembers entries) field.name
  passed member hmember := by
    obtain ⟨entry, _, rfl⟩ := List.mem_map.1 hmember
    exact entry.2.pass_toTree
  found field hfield := by
    have honce := h.once field hfield
    rw [map_fst_entryTrees] at honce
    rw [lookup_valueMembers_of_once honce, ← h.found field hfield, entryTrees,
      Dictionary.lookup_map]

end Record

/-!
### Data that are exchanged as objects
-/

/-- Entries under other keys, with plain values. -/
def Foreign (names : List String) (entries : List (String × Value)) : Prop :=
  ∀ entry ∈ entries, entry.1 ∉ names ∧ entry.2.Plain

namespace Codec

variable {α : Type} {codec : Codec α} {data : α} {entries : List (String × Value)}

/-- The data are read from an object with these entries, in whatever form it comes. -/
structure ReadsFrom (codec : Codec α) (entries : List (String × Value)) (data : α) : Prop where
  /-- Any text will do whose tree has the entries, however they are spelled and spaced out. -/
  ofText : ∀ text, Parsed.ofText text = ⟨(Value.object entries).toTree, false⟩ →
    codec.ofText text = .ok data
  ofText_compact : codec.ofText (Value.object entries).compact = .ok data
  ofText_pretty : codec.ofText (Value.object entries).pretty = .ok data
  ofValue : codec.ofValue (.ofMembers entries) = .ok data

theorem readsFrom (hplain : ∀ entry ∈ entries, entry.2.Plain)
    (htext : codec.read .text (.object (Tree.named (entryTrees entries)) none) = .ok data)
    (hvalue : codec.read .value (.object (Tree.named (valueMembers entries)) none) = .ok data) :
    codec.ReadsFrom entries data := by
  have hintegral : (Value.object entries).Integral :=
    Value.integralMembers_of_forall fun entry hentry => (hplain entry hentry).integral
  have hread : ∀ text, Parsed.ofText text = ⟨(Value.object entries).toTree, false⟩ →
      codec.ofText text = .ok data := by
    intro text hparsed
    rw [ofText_eq_ok_iff, hparsed, toTree_object]
    exact ⟨htext, rfl⟩
  refine ⟨hread, hread _ (Parsed.ofText_compact hintegral),
    hread _ (Parsed.ofText_pretty hintegral), ?_⟩
  rw [ofValue, toTree_ofMembers]
  exact hvalue

/-- The data are written as an object with these members, each under a name of its own and none of
them `null`; and they are read from it again, in any order of the members and among foreign ones. -/
structure Exchanges (codec : Codec α) (names : List String) (data : α)
    (members : List (String × Value)) : Prop where
  write : codec.write data = .object members
  nodup : (members.map Prod.fst).Nodup
  known : ∀ member ∈ members, member.1 ∈ names
  ne_null : ∀ member ∈ members, member.2 ≠ .null
  read : ∀ others entries, Foreign names others → entries.Perm (members ++ others) →
    codec.ReadsFrom entries data

end Codec

/-- Plain values stay plain among foreign ones. -/
theorem Foreign.plain_of_perm {names : List String} {entries members others : List (String × Value)}
    (h : Foreign names others) (hmembers : ∀ member ∈ members, member.2.Plain)
    (hperm : entries.Perm (members ++ others)) : ∀ entry ∈ entries, entry.2.Plain := by
  intro entry hentry
  rcases List.mem_append.1 (hperm.mem_iff.1 hentry) with hmem | hmem
  · exact hmembers entry hmem
  · exact (h entry hmem).2

theorem Foreign.not_mem {names : List String} {others : List (String × Value)}
    (h : Foreign names others) : ∀ name ∈ names, name ∉ others.map Prod.fst := by
  intro name hname hmem
  obtain ⟨entry, hentry, rfl⟩ := List.mem_map.1 hmem
  exact (h entry hentry).1 hname

/-- A record is exchanged as an object if its fields carry it. -/
theorem Record.exchanges {kind : Record ρ} {record : ρ} {puts : List (ρ → ρ)}
    (hkind : kind.Independent)
    (hfields : List.Forall₂ (fun field put => field.Carries record put) kind.fields puts)
    (hrecord : puts.foldl (fun former put => put former) kind.blank = record) :
    kind.codec.Exchanges kind.names record (kind.members record) where
  write := rfl
  nodup := nodup_members hkind.names
  known _ := mem_names_of_mem_members
  ne_null _ hmember := (plain_of_mem_members hfields hmember).2
  read others entries hothers hperm := by
    have hrestores := hfields.imp fun _ _ hfield => hfield.toRestores
    have hshows := shows_of_perm hkind hperm hothers.not_mem
    have hplain := hothers.plain_of_perm
      (fun _ hmember => (plain_of_mem_members hfields hmember).1) hperm
    refine Codec.readsFrom hplain ?_ ?_
    · exact (hshows.readMembers_eq hkind hrestores .text).trans (congrArg Except.ok hrecord)
    · exact (hshows.valueMembers.readMembers_eq hkind hrestores .value).trans
        (congrArg Except.ok hrecord)

end TextEditing.Json
