/-
Module: TextEditing.Proofs.SpelledLayers
Purpose: What is read of the spelled entries of a layer of preferences.
Main exports: Layer.readSpelled, Layer.read_object_eq_ok_iff, Layer.get?_of_last
-/
import TextEditing.Proofs.Dictionaries
import TextEditing.Proofs.Spellings
import TextEditing.Proofs.Traversals

namespace TextEditing

open Json

/-!
A layer is read if each of its entries is, so an entry that can be read neither helps nor hurts the
others, and the last entry of a key decides its value.
-/

namespace Layer

variable {origin : Origin} {members front back : List Member} {member : Member}

/-- What one spelled entry is read as. -/
def readSpelled (origin : Origin) (member : Member) :
    Except DecodeError (String × Option Preference) :=
  (readEntry origin member.value.tree).map (member.key, ·)

theorem read_object (origin : Origin) (members : List Member) :
    codec.read origin (.object (members.map Member.entry) none) =
      (members.mapM (readSpelled origin)).map fun entries =>
        (Dictionary.ofList entries).filterMap id := by
  have hentry : (fun member : Member => do
        let name ← member.entry.1.toName.mapError DecodeError.malformed
        let entry ← readEntry origin member.entry.2
        pure (name, entry)) = readSpelled origin := by
    funext member
    change (do
      let entry ← readEntry origin member.value.tree
      pure (member.key, entry)) = _
    rw [readSpelled]
    cases readEntry origin member.value.tree <;> rfl
  simp only [codec, List.mapM_map, Function.comp_def, hentry]
  cases members.mapM (readSpelled origin) <;> rfl

/-- The entries of a layer can be read if the one in their midst can, and the others can. -/
theorem read_object_eq_ok_iff {layer : Layer} :
    codec.read origin (.object ((front ++ member :: back).map Member.entry) none) = .ok layer ↔
      ∃ former entry latter, front.mapM (readSpelled origin) = .ok former ∧
        readSpelled origin member = .ok entry ∧ back.mapM (readSpelled origin) = .ok latter ∧
        layer = (Dictionary.ofList (former ++ entry :: latter)).filterMap id := by
  rw [read_object, map_eq_ok_iff]
  constructor
  · rintro ⟨entries, hentries, rfl⟩
    obtain ⟨former, others, hformer, hothers, rfl⟩ := mapM_append_eq_ok_iff.1 hentries
    obtain ⟨entry, latter, hentry, hlatter, rfl⟩ := mapM_cons_eq_ok_iff.1 hothers
    exact ⟨former, entry, latter, hformer, hentry, hlatter, rfl⟩
  · rintro ⟨former, entry, latter, hformer, hentry, hlatter, rfl⟩
    have hothers := mapM_cons_eq_ok_iff.2 ⟨entry, latter, hentry, hlatter, rfl⟩
    exact ⟨former ++ entry :: latter,
      mapM_append_eq_ok_iff.2 ⟨former, entry :: latter, hformer, hothers, rfl⟩, rfl⟩

/-- An entry that can be read makes no difference to whether the layer can. -/
theorem exists_read_object_iff {entry : String × Option Preference} (front back : List Member)
    (h : readSpelled origin member = .ok entry) :
    (∃ layer, codec.read origin
        (.object ((front ++ member :: back).map Member.entry) none) = .ok layer) ↔
      ∃ layer, codec.read origin (.object ((front ++ back).map Member.entry) none) = .ok layer := by
  constructor
  · rintro ⟨layer, hlayer⟩
    obtain ⟨former, _, latter, hformer, _, hlatter, _⟩ := read_object_eq_ok_iff.1 hlayer
    rw [read_object]
    exact ⟨_, map_eq_ok_iff.2
      ⟨former ++ latter, mapM_append_eq_ok_iff.2 ⟨former, latter, hformer, hlatter, rfl⟩, rfl⟩⟩
  · rintro ⟨layer, hlayer⟩
    rw [read_object, map_eq_ok_iff] at hlayer
    obtain ⟨entries, hentries, _⟩ := hlayer
    obtain ⟨former, latter, hformer, hlatter, _⟩ := mapM_append_eq_ok_iff.1 hentries
    exact ⟨_, read_object_eq_ok_iff.2 ⟨former, entry, latter, hformer, h, hlatter, rfl⟩⟩

theorem map_fst_of_mapM {entries : List (String × Option Preference)}
    (h : members.mapM (readSpelled origin) = .ok entries) :
    entries.map Prod.fst = members.map Member.key := by
  induction members generalizing entries with
  | nil =>
      cases h
      rfl
  | cons member rest ih =>
      obtain ⟨entry, others, hentry, hothers, rfl⟩ := mapM_cons_eq_ok_iff.1 h
      obtain ⟨value, _, rfl⟩ := map_eq_ok_iff.1 hentry
      rw [List.map_cons, List.map_cons, ih hothers]

/-- The last entry of a key is what the layer has for it. -/
theorem get?_of_last {layer : Layer} {value : Option Preference}
    (h : codec.read origin
      (.object ((front ++ member :: back).map Member.entry) none) = .ok layer)
    (hvalue : readEntry origin member.value.tree = .ok value)
    (hlast : member.key ∉ back.map Member.key) : layer.get? member.key = value := by
  obtain ⟨former, entry, latter, _, hentry, hlatter, rfl⟩ := read_object_eq_ok_iff.1 h
  obtain ⟨read, hread, rfl⟩ := map_eq_ok_iff.1 hentry
  rw [hvalue] at hread
  cases hread
  rw [← map_fst_of_mapM hlatter] at hlast
  rw [Dictionary.get?_filterMap, Dictionary.get?_ofList_of_last value hlast]
  rfl

end Layer

end TextEditing
