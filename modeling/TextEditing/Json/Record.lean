/-
Module: TextEditing.Json.Record
Purpose: Records as JSON objects with named fields, or as arrays of the fields in order.
Main exports: Absence, RecordField, RecordField.required, RecordField.defaulted,
  RecordField.optional, Record, Record.codec
-/
import TextEditing.Json.Codec

namespace TextEditing.Json

/-!
A record is described by its fields in order.  Reading starts from a blank record and sets one
field after the other.  In an object the fields come in any order and other members are passed
over; a field must not come twice, which is noticed at its second key, and fields that are wanted
and did not come are noticed at the end, the first in the order of the description.  In an array
the fields come in order.
-/

/-- Where a field may be left out. -/
inductive Absence where
  | never
  /-- In an object, but not in an array. -/
  | inObject
  | always
deriving Repr, Inhabited, DecidableEq

/-- A field of a record. -/
structure RecordField (ρ : Type) where
  name : String
  absence : Absence
  /-- Reads the field; the result sets it. -/
  read : Origin → Tree → Except DecodeError (ρ → ρ)
  /-- The value of the field, unless it is left out. -/
  write : ρ → Option Value

namespace RecordField

variable {ρ α : Type}

/-- A field that is always there. -/
def required (name : String) (codec : Codec α) (get : ρ → α) (set : α → ρ → ρ) :
    RecordField ρ where
  name := name
  absence := .never
  read origin tree := (codec.read origin tree).map set
  write record := some (codec.write (get record))

/-- A field that keeps its blank content when it is left out. -/
def defaulted (name : String) (codec : Codec α) (get : ρ → α) (set : α → ρ → ρ) :
    RecordField ρ :=
  { required name codec get set with absence := .always }

/-- A field that may be unset; `null` leaves it unset, too. -/
def optional (name : String) (codec : Codec α) (get : ρ → Option α)
    (set : Option α → ρ → ρ) : RecordField ρ where
  name := name
  absence := .inObject
  read origin tree :=
    match tree with
    | .null => .ok (set none)
    | tree => (codec.read origin tree).map fun value => set (some value)
  write record := (get record).map codec.write

end RecordField

/-- A kind of record. -/
structure Record (ρ : Type) where
  /-- The name of the kind in messages. -/
  title : String
  /-- The record before any field is read. -/
  blank : ρ
  fields : List (RecordField ρ)

namespace Record

variable {ρ : Type}

/-- A record that is being read, with the names of the fields read so far. -/
structure Progress (ρ : Type) where
  record : ρ
  seen : List String

/-- Reads one member of an object. -/
def readMember (kind : Record ρ) (origin : Origin) (progress : Progress ρ) (key : Key)
    (tree : Tree) : Except DecodeError (Progress ρ) :=
  match key with
  | .unsound defect => .error (.malformed defect)
  | .name name =>
      match kind.fields.find? (·.name = name) with
      | none => do
          refuse tree.pass
          pure progress
      | some field =>
          if name ∈ progress.seen then
            .error (.duplicateField name)
          else do
            let set ← field.read origin tree
            pure ⟨set progress.record, name :: progress.seen⟩

/-- The first field that is wanted and was not read. -/
def missing? (kind : Record ρ) (seen : List String) : Option String :=
  (kind.fields.find? fun field => field.absence = .never ∧ field.name ∉ seen).map (·.name)

/-- Reads the record from the members of an object. -/
def readMembers (kind : Record ρ) (origin : Origin) (members : List (Key × Tree))
    (defect : Option Defect) : Except DecodeError ρ := do
  let progress ← members.foldlM
    (fun progress member => kind.readMember origin progress member.1 member.2)
    ⟨kind.blank, []⟩
  refuse defect
  match kind.missing? progress.seen with
  | some name => .error (.missingField name)
  | none => pure progress.record

/-- Reads fields from the entries of an array, of which `place` were read before. -/
def readFields (kind : Record ρ) (origin : Origin) (defect : Option Defect) (place : Nat)
    (record : ρ) : List (RecordField ρ) → List Tree → Except DecodeError ρ
  | [], [] => do
      refuse defect
      pure record
  | [], entries => .error (origin.excess (place + entries.length))
  | field :: fields, [] => do
      refuse defect
      if field.absence = .always then
        readFields kind origin defect (place + 1) record fields []
      else
        .error (.wrongLength place
          ("struct " ++ kind.title ++ " with " ++ toString kind.fields.length ++ " elements"))
  | field :: fields, entry :: entries => do
      let set ← field.read origin entry
      readFields kind origin defect (place + 1) (set record) fields entries

/-- Reads a record. -/
def read (kind : Record ρ) (origin : Origin) (tree : Tree) : Except DecodeError ρ :=
  match tree with
  | .object members defect => kind.readMembers origin members defect
  | .array entries defect => kind.readFields origin defect 0 kind.blank kind.fields entries
  | tree => .error (tree.head.unexpected ("struct " ++ kind.title))

/-- The members of the object for a record, in the order of the fields. -/
def members (kind : Record ρ) (record : ρ) : List (String × Value) :=
  kind.fields.filterMap fun field => (field.write record).map fun value => (field.name, value)

/-- Records of a kind as JSON. -/
def codec (kind : Record ρ) : Codec ρ where
  read := kind.read
  write record := .object (kind.members record)

end Record

end TextEditing.Json
