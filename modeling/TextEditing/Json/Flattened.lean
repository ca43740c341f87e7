/-
Module: TextEditing.Json.Flattened
Purpose: Records one of whose parts has its fields in the object of the whole.
Main exports: Flattened, Flattened.codec
-/
import TextEditing.Json.Record

namespace TextEditing.Json

/-!
The fields of the whole are read as they come.  All other members are kept for the part, and to be
kept they must be sound values.  At the end the fields of the whole must be complete; only then is
the part read, from the kept members in their order.  An array does not do, since the members of
the part are found by name.
-/

/-- Records of a kind, with a part whose fields stand among those of the whole. -/
structure Flattened (ρ π : Type) where
  whole : Record ρ
  part : Record π
  getPart : ρ → π
  setPart : π → ρ → ρ

namespace Flattened

variable {ρ π : Type}

/-- The whole as far as it was read, and the members kept for the part, the last one first. -/
structure Progress (ρ : Type) where
  whole : Record.Progress ρ
  kept : List (Key × Tree)

/-- Reads or keeps one member of an object. -/
def takeMember (kind : Flattened ρ π) (origin : Origin) (progress : Progress ρ) (key : Key)
    (tree : Tree) : Except DecodeError (Progress ρ) := do
  let name ← key.toName.mapError DecodeError.malformed
  if kind.whole.fields.any (·.name = name) then
    let whole ← kind.whole.readMember origin progress.whole key tree
    pure { progress with whole }
  else
    let value ← (tree.toValue (Value.maxDepth - 1)).mapError DecodeError.malformed
    pure { progress with kept := (key, value.toTree) :: progress.kept }

/-- Reads a record. -/
def read (kind : Flattened ρ π) (origin : Origin) (tree : Tree) : Except DecodeError ρ :=
  match tree with
  | .object members defect => do
      let progress ← members.foldlM
        (fun progress member => kind.takeMember origin progress member.1 member.2)
        ⟨⟨kind.whole.blank, []⟩, []⟩
      refuse defect
      match kind.whole.missing? progress.whole.seen with
      | some name => .error (.missingField name)
      | none => pure ()
      let part ← kind.part.readMembers .value progress.kept.reverse none
      pure (kind.setPart part progress.whole.record)
  | tree => .error (tree.head.unexpected ("struct " ++ kind.whole.title))

/-- Records of the kind as JSON, the members of the part first. -/
def codec (kind : Flattened ρ π) : Codec ρ where
  read := kind.read
  write record :=
    .object (kind.part.members (kind.getPart record) ++ kind.whole.members record)

end Flattened

end TextEditing.Json
