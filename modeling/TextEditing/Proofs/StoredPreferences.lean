/-
Module: TextEditing.Proofs.StoredPreferences
Purpose: Preferences that are written to a document are read from it again as they were.
Main exports: Preference.codec_lawful, Layer.codec_lawful, Preferences.codec_lawful,
  Preferences.ofJson_toJson
-/
import TextEditing.Options.Preferences
import TextEditing.Proofs.Dictionaries
import TextEditing.Proofs.RestoredRecords

namespace TextEditing

open Json

/-!
A layer is written in the order of its keys, so the dictionary that is read has every entry put
behind those before it, and is the layer again.  An integer is written with its sign and read through
the unsigned or the signed reading of numerals; between them these hold all integers of 64 bits.
-/

namespace Preference

theorem int64?_toInt (value : Int64) : int64? value.toInt = some value := by
  rw [int64?, if_pos ⟨value.minValue_le_toInt, value.toInt_le⟩, Int64.ofInt_toInt]

/-- An integer of 64 bits is read as itself, from its unsigned or its signed form. -/
theorem read_write_integer (origin : Origin) (value : Int64) :
    codec.read origin (codec.write (integer value)).toTree = .ok (integer value) := by
  have hread : ofNumber (if 0 ≤ value.toInt then .natural value.toInt.toNat
      else .negative value.toInt.natAbs) = .ok (integer value) := by
    split
    · rename_i hpos
      simp only [ofNumber, Int.toNat_of_nonneg hpos, Option.bind_some, int64?_toInt]
    · rename_i hneg
      have hvalue : -(value.toInt.natAbs : Int) = value.toInt := by omega
      simp only [ofNumber, hvalue, Option.bind_some, int64?_toInt]
  exact hread

theorem integral_write_integer (value : Int64) : (codec.write (integer value)).Integral := by
  have hlow := value.minValue_le_toInt
  have hhigh := value.toInt_le
  have hmin : Int64.minValue.toInt = -0x8000000000000000 := by decide
  have hmax : Int64.maxValue.toInt = 0x7FFFFFFFFFFFFFFF := by decide
  exact Value.integral_ofInt (by omega) (by omega)

theorem codec_lawful : codec.Lawful where
  read_write origin preference := by
    cases preference with
    | boolean value => rfl
    | integer value => exact read_write_integer origin value
    | text value => rfl
  integral_write preference := by
    cases preference with
    | boolean value => trivial
    | integer value => exact integral_write_integer value
    | text value => trivial

/-- No preference is written as the `null` that unsets a key. -/
theorem readEntry_write (origin : Origin) (preference : Preference) :
    Layer.readEntry origin (codec.write preference).toTree = .ok (some preference) := by
  have hread := codec_lawful.read_write origin preference
  cases preference with
  | boolean value => exact congrArg (Except.map some) hread
  | integer value => exact congrArg (Except.map some) hread
  | text value => exact congrArg (Except.map some) hread

end Preference

/-- A layer is read again with the keys and values that it has. -/
theorem Layer.codec_lawful : Layer.codec.Lawful where
  read_write origin layer := by
    have hentries : layer.entries.mapM
          (fun entry => (.ok (entry.1, some entry.2) : Except DecodeError _)) =
        .ok (layer.entries.map fun entry => (entry.1, some entry.2)) := List.mapM_pure
    have hname : ∀ name, (Key.name name).toName.mapError DecodeError.malformed = .ok name :=
      fun _ => rfl
    simp only [codec, Value.toTree, Value.membersToTrees_eq_map, List.map_map, List.mapM_map,
      Function.comp_def, hname, Preference.readEntry_write, bind, Except.bind, pure, Except.pure,
      hentries, refuse, Dictionary.filterMap_ofList_some]
  integral_write layer := by
    apply Value.integralMembers_of_forall
    intro member hmember
    obtain ⟨entry, _, rfl⟩ := List.mem_map.1 hmember
    exact Preference.codec_lawful.integral_write entry.2

namespace Preferences

theorem record_independent : record.Independent where
  names := List.pairwise_pair.2 (by decide)
  commutes := List.pairwise_pair.2
    (RecordField.Sets.defaulted.commutes .defaulted fun _ _ _ => rfl)

theorem record_restores (preferences : Preferences) : record.codec.Restores preferences :=
  Record.restores record_independent
    (.cons (.defaulted "defaults" _ (Layer.codec_lawful.restores preferences.defaults))
      (.cons (.defaulted "values" _ (Layer.codec_lawful.restores preferences.values)) .nil)) rfl

/-- Both layers of a document are set to what was written. -/
theorem codec_lawful : record.codec.Lawful where
  read_write origin preferences := (record_restores preferences).read_write origin
  integral_write preferences := (record_restores preferences).integral_write

/-- Preferences are read back from the text of their document exactly as they are, with the same keys
and values in both layers, whatever was registered, set, reset or read before. -/
theorem ofJson_toJson (preferences : Preferences) : ofJson preferences.toJson = .ok preferences :=
  codec_lawful.ofText_pretty preferences

end Preferences

end TextEditing
