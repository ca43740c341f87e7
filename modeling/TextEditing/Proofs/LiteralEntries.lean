/-
Module: TextEditing.Proofs.LiteralEntries
Purpose: What a document of preferences makes of an integer literal among its entries.
Main exports: Stratum, Preferences.read_document_eq_ok_iff, Preferences.read_array_eq_ok_iff,
  Preferences.Setting, Preferences.DocumentContext, Preferences.ofJson_literal
-/
import TextEditing.Proofs.SpelledLayers
import TextEditing.Proofs.StoredPreferences

namespace TextEditing

open Json

/-!
In a document each layer is read at most once: in an object a second section of the same name is an
error, in an array a layer has its place, and the other section sets the other layer.  What is read
of a section is therefore what the document has for its layer, whatever else stands there.
-/

/-- One of the two layers of preferences. -/
inductive Stratum where
  | defaults
  | values
deriving Repr, DecidableEq

namespace Stratum

/-- The name of the section of the layer in a document. -/
def name : Stratum → String
  | defaults => "defaults"
  | values => "values"

/-- The place of the section in a document that is an array. -/
def place : Stratum → Nat
  | defaults => 0
  | values => 1

/-- The layer. -/
def layer : Stratum → Preferences → Layer
  | defaults => Preferences.defaults
  | values => Preferences.values

/-- The preferences with another layer. -/
def put (stratum : Stratum) (layer : Layer) (preferences : Preferences) : Preferences :=
  match stratum with
  | defaults => { preferences with defaults := layer }
  | values => { preferences with values := layer }

theorem layer_put (stratum : Stratum) (layer : Layer) (preferences : Preferences) :
    stratum.layer (stratum.put layer preferences) = layer := by
  cases stratum <;> rfl

theorem layer_put_of_ne {stratum other : Stratum} (h : other ≠ stratum) (layer : Layer)
    (preferences : Preferences) :
    other.layer (stratum.put layer preferences) = other.layer preferences := by
  cases stratum <;> cases other <;> first | rfl | exact absurd rfl h

theorem place_injective : Function.Injective place := by
  intro stratum other h
  cases stratum <;> cases other <;> first | rfl | cases h

theorem forall_iff {p : Stratum → Prop} : (∀ stratum, p stratum) ↔ p defaults ∧ p values := by
  constructor
  · intro h
    exact ⟨h defaults, h values⟩
  · rintro ⟨hdefaults, hvalues⟩ stratum
    cases stratum with
    | defaults => exact hdefaults
    | values => exact hvalues

end Stratum

namespace Preferences

/-!
### Documents that are objects
-/

open Json.Record (Progress)

variable {origin : Origin} {progress result : Progress Preferences} {name : String} {tree : Tree}
  {stratum : Stratum}

/-- A section of a layer is read once; at its second name reading fails. -/
theorem readMember_stratum (origin : Origin) (progress : Progress Preferences) (stratum : Stratum)
    (tree : Tree) :
    record.readMember origin progress (.name stratum.name) tree =
      if stratum.name ∈ progress.seen then .error (.duplicateField stratum.name)
      else (Layer.codec.read origin tree).map fun layer =>
        ⟨stratum.put layer progress.record, stratum.name :: progress.seen⟩ := by
  have hfield : .defaulted stratum.name Layer.codec stratum.layer stratum.put ∈ record.fields := by
    cases stratum with
    | defaults => exact List.mem_cons_self
    | values => exact List.mem_cons_of_mem _ List.mem_cons_self
  refine (Record.readMember_of_field record_independent hfield progress tree).trans ?_
  simp only [RecordField.defaulted, RecordField.required]
  cases Layer.codec.read origin tree <;> rfl

/-- A member is a section of a layer, or it is passed over. -/
theorem readMember_cases (name : String) (tree : Tree) :
    (∃ stratum : Stratum, name = stratum.name) ∨
      ∀ origin progress, record.readMember origin progress (.name name) tree =
        (refuse tree.pass).map fun _ => progress := by
  cases hname : record.has name with
  | false => exact .inr fun origin progress => Record.readMember_of_has_false hname progress tree
  | true =>
      left
      obtain ⟨field, hfield, rfl⟩ := Record.has_eq_true_iff.1 hname
      simp only [record, List.mem_cons, List.not_mem_nil, or_false] at hfield
      rcases hfield with rfl | rfl
      · exact ⟨.defaults, rfl⟩
      · exact ⟨.values, rfl⟩

/-- Whether a member can be read depends on the names read before, not on what was read. -/
theorem exists_readMember {seen : List String} {first : Preferences} (second : Preferences)
    (h : record.readMember origin ⟨first, seen⟩ (.name name) tree = .ok result) :
    ∃ read, record.readMember origin ⟨second, seen⟩ (.name name) tree = .ok ⟨read, result.seen⟩ := by
  rcases readMember_cases name tree with ⟨stratum, rfl⟩ | hpassed
  · rw [readMember_stratum] at h ⊢
    split at h
    · cases h
    · rename_i hnew
      obtain ⟨layer, hlayer, rfl⟩ := map_eq_ok_iff.1 h
      rw [if_neg hnew, hlayer]
      exact ⟨_, rfl⟩
  · rw [hpassed] at h ⊢
    obtain ⟨_, hrefuse, rfl⟩ := map_eq_ok_iff.1 h
    rw [hrefuse]
    exact ⟨second, rfl⟩

/-- A layer that has been read stays as it is. -/
theorem keeps_of_readMember (hseen : stratum.name ∈ progress.seen)
    (h : record.readMember origin progress (.name name) tree = .ok result) :
    stratum.name ∈ result.seen ∧ stratum.layer result.record = stratum.layer progress.record := by
  rcases readMember_cases name tree with ⟨other, rfl⟩ | hpassed
  · rw [readMember_stratum] at h
    split at h
    · cases h
    · rename_i hnew
      obtain ⟨layer, _, rfl⟩ := map_eq_ok_iff.1 h
      -- It is the other layer that is read now.
      have hother : stratum ≠ other := by
        rintro rfl
        exact hnew hseen
      exact ⟨List.mem_cons_of_mem _ hseen, Stratum.layer_put_of_ne hother layer progress.record⟩
  · rw [hpassed] at h
    obtain ⟨_, _, rfl⟩ := map_eq_ok_iff.1 h
    exact ⟨hseen, rfl⟩

/-- Reads spelled members of a document one after the other. -/
def readSections (origin : Origin) (progress : Progress Preferences) :
    List Member → Except DecodeError (Progress Preferences)
  | [] => .ok progress
  | member :: rest => do
      let next ← record.readMember origin progress (.name member.key) member.value.tree
      readSections origin next rest

theorem readSections_cons_eq_ok_iff {member : Member} {rest : List Member} :
    readSections origin progress (member :: rest) = .ok result ↔
      ∃ next, record.readMember origin progress (.name member.key) member.value.tree = .ok next ∧
        readSections origin next rest = .ok result :=
  bind_eq_ok_iff

theorem readSections_append_eq_ok_iff {first second : List Member} :
    readSections origin progress (first ++ second) = .ok result ↔
      ∃ next, readSections origin progress first = .ok next ∧
        readSections origin next second = .ok result := by
  induction first generalizing progress with
  | nil =>
      constructor
      · intro h
        exact ⟨progress, rfl, h⟩
      · rintro ⟨next, hnext, h⟩
        cases hnext
        exact h
  | cons member rest ih =>
      rw [List.cons_append, readSections_cons_eq_ok_iff]
      constructor
      · rintro ⟨next, hnext, h⟩
        obtain ⟨last, hlast, h⟩ := ih.1 h
        exact ⟨last, readSections_cons_eq_ok_iff.2 ⟨next, hnext, hlast⟩, h⟩
      · rintro ⟨last, hlast, h⟩
        obtain ⟨next, hnext, hrest⟩ := readSections_cons_eq_ok_iff.1 hlast
        exact ⟨next, hnext, ih.2 ⟨last, hrest, h⟩⟩

theorem exists_readSections {members : List Member} {seen : List String} {first : Preferences}
    (second : Preferences) (h : readSections origin ⟨first, seen⟩ members = .ok result) :
    ∃ read, readSections origin ⟨second, seen⟩ members = .ok ⟨read, result.seen⟩ := by
  induction members generalizing seen first second with
  | nil =>
      cases h
      exact ⟨second, rfl⟩
  | cons member rest ih =>
      obtain ⟨⟨next, names⟩, hnext, hrest⟩ := readSections_cons_eq_ok_iff.1 h
      obtain ⟨other, hother⟩ := exists_readMember second hnext
      obtain ⟨read, hread⟩ := ih other hrest
      exact ⟨read, readSections_cons_eq_ok_iff.2 ⟨_, hother, hread⟩⟩

theorem keeps_of_readSections {members : List Member} (hseen : stratum.name ∈ progress.seen)
    (h : readSections origin progress members = .ok result) :
    stratum.layer result.record = stratum.layer progress.record := by
  induction members generalizing progress with
  | nil =>
      cases h
      rfl
  | cons member rest ih =>
      obtain ⟨next, hnext, hrest⟩ := readSections_cons_eq_ok_iff.1 h
      obtain ⟨hstill, hlayer⟩ := keeps_of_readMember hseen hnext
      exact (ih hstill hrest).trans hlayer

/-- A document is read section by section; no section is wanted. -/
theorem read_document (origin : Origin) (members : List Member) :
    record.read origin (.object (members.map Member.entry) none) =
      (readSections origin ⟨empty, []⟩ members).map (·.record) := by
  have hfold : ∀ progress : Progress Preferences,
      (members.map Member.entry).foldlM
        (fun progress member => record.readMember origin progress member.1 member.2) progress =
          readSections origin progress members := by
    induction members with
    | nil => exact fun _ => rfl
    | cons member rest ih =>
        intro progress
        rw [List.map_cons, List.foldlM_cons, readSections]
        congr 1
        funext next
        exact ih next
  have hmissing : ∀ seen, record.missing? seen = none := by
    intro seen
    simp [Record.missing?, record, RecordField.defaulted]
  have hblank : record.blank = empty := rfl
  simp only [Record.read, Record.readMembers, hfold, hblank, hmissing, refuse]
  cases readSections origin ⟨empty, []⟩ members <;> rfl

/-- Around a section of a layer, the document can be read if the sections in front can and the ones
behind can, and what is read of the section is the layer. -/
theorem read_document_eq_ok_iff {before after : List Member} {member : Member}
    {preferences : Preferences} (hkey : member.key = stratum.name) :
    record.read origin (.object ((before ++ member :: after).map Member.entry) none) =
        .ok preferences ↔
      ∃ front layer back, readSections origin ⟨empty, []⟩ before = .ok front ∧
        stratum.name ∉ front.seen ∧ Layer.codec.read origin member.value.tree = .ok layer ∧
        readSections origin ⟨stratum.put layer front.record, stratum.name :: front.seen⟩ after =
          .ok back ∧ preferences = back.record := by
  rw [read_document, map_eq_ok_iff]
  constructor
  · rintro ⟨back, hback, rfl⟩
    obtain ⟨front, hfront, hothers⟩ := readSections_append_eq_ok_iff.1 hback
    obtain ⟨next, hnext, hafter⟩ := readSections_cons_eq_ok_iff.1 hothers
    rw [hkey, readMember_stratum] at hnext
    split at hnext
    · cases hnext
    · rename_i hnew
      obtain ⟨layer, hlayer, rfl⟩ := map_eq_ok_iff.1 hnext
      exact ⟨front, layer, back, hfront, hnew, hlayer, hafter, rfl⟩
  · rintro ⟨front, layer, back, hfront, hnew, hlayer, hafter, rfl⟩
    refine ⟨back, readSections_append_eq_ok_iff.2 ⟨front, hfront, ?_⟩, rfl⟩
    refine readSections_cons_eq_ok_iff.2 ⟨_, ?_, hafter⟩
    rw [hkey, readMember_stratum, if_neg hnew, hlayer]
    rfl

/-!
### Documents that are arrays
-/

/-- What is read of the entry of an array for a layer; the layer is empty if the array ends in front
of that entry. -/
def readPlaced (origin : Origin) : Option Tree → Except DecodeError Layer
  | none => .ok .empty
  | some tree => Layer.codec.read origin tree

/-- A document that is an array has at most one entry for each layer. -/
theorem read_array (origin : Origin) (entries : List Tree) :
    record.read origin (.array entries none) = (do
      let defaults ← readPlaced origin entries[0]?
      let values ← readPlaced origin entries[1]?
      if entries.length ≤ 2 then pure ⟨defaults, values⟩
      else .error (origin.excess entries.length)) := by
  simp only [Record.read, record, RecordField.defaulted, RecordField.required]
  match entries with
  | [] => rfl
  | [first] =>
      simp only [Record.readFields, List.getElem?_cons_zero, readPlaced]
      cases Layer.codec.read origin first <;> rfl
  | [first, second] =>
      simp only [Record.readFields, List.getElem?_cons_zero, List.getElem?_cons_succ, readPlaced]
      cases Layer.codec.read origin first with
      | error failure => rfl
      | ok defaults => cases Layer.codec.read origin second <;> rfl
  | first :: second :: third :: others =>
      have hlength : ¬ (first :: second :: third :: others).length ≤ 2 := by
        simp only [List.length_cons]
        omega
      have hexcess : 2 + (third :: others).length = (first :: second :: third :: others).length := by
        simp only [List.length_cons]
        omega
      simp only [Record.readFields, List.getElem?_cons_zero, List.getElem?_cons_succ, readPlaced,
        if_neg hlength]
      rw [← hexcess]
      cases Layer.codec.read origin first with
      | error failure => rfl
      | ok defaults => cases Layer.codec.read origin second <;> rfl

theorem read_array_eq_ok_iff {entries : List Tree} {preferences : Preferences} :
    record.read origin (.array entries none) = .ok preferences ↔
      entries.length ≤ 2 ∧ ∀ stratum : Stratum,
        readPlaced origin entries[stratum.place]? = .ok (stratum.layer preferences) := by
  rw [Stratum.forall_iff, read_array, Stratum.place, Stratum.place, Stratum.layer, Stratum.layer]
  cases readPlaced origin entries[0]? with
  | error failure => simp [bind, Except.bind]
  | ok defaults =>
      cases readPlaced origin entries[1]? with
      | error failure => simp [bind, Except.bind]
      | ok values =>
          obtain ⟨first, second⟩ := preferences
          by_cases hlength : entries.length ≤ 2 <;>
            simp [bind, Except.bind, pure, Except.pure, hlength]

/-- An entry of an array makes no difference to what stands at other places. -/
theorem getElem?_append_cons_of_ne {α : Type} {front back : List α} {place : Nat}
    (first second : α) (h : place ≠ front.length) :
    (front ++ first :: back)[place]? = (front ++ second :: back)[place]? := by
  rcases Nat.lt_or_gt_of_ne h with hfront | hback
  · rw [List.getElem?_append_left hfront, List.getElem?_append_left hfront]
  · obtain ⟨further, rfl⟩ := Nat.exists_eq_add_of_lt hback
    rw [List.getElem?_append_right (Nat.le_of_lt hback),
      List.getElem?_append_right (Nat.le_of_lt hback), Nat.add_assoc, Nat.add_sub_cancel_left,
      List.getElem?_cons_succ, List.getElem?_cons_succ]

/-!
### Documents
-/

/-- What stands around the section of a layer in a document. -/
inductive Setting (stratum : Stratum) where
  /-- The document is an object, in which the section has its name. -/
  | named (before : List Member) (label : Label) (after : List Member)
      (names : label.name.name = stratum.name)
  /-- The document is an array, in which the section has its place. -/
  | placed (before : List Item) (lead trail : Gap) (after : List Item)
      (places : before.length = stratum.place)

namespace Setting

/-- The document with a section. -/
def document : Setting stratum → Spelling → Spelling
  | named before label after _, spelled => .object .none (before ++ ⟨label, spelled⟩ :: after)
  | placed before lead trail after _, spelled =>
      .array .none (before ++ ⟨lead, spelled, trail⟩ :: after)

variable {setting : Setting stratum} {preferences : Preferences}

/-- In an array the section stands in its place. -/
theorem getElem?_place {before after : List Item} (item : Item)
    (places : before.length = stratum.place) :
    ((before ++ item :: after).map Item.tree)[stratum.place]? = some item.tree := by
  rw [List.getElem?_map, ← places, List.getElem?_append_right (Nat.le_refl _), Nat.sub_self]
  rfl

/-- The layer of a document is what is read of its section. -/
theorem layer_of_read {spelled : Spelling}
    (h : record.read origin (setting.document spelled).tree = .ok preferences) :
    Layer.codec.read origin spelled.tree = .ok (stratum.layer preferences) := by
  cases setting with
  | named before label after names =>
      have hkey : (Member.mk label spelled).key = stratum.name := names
      obtain ⟨front, layer, back, _, _, hlayer, hafter, rfl⟩ := (read_document_eq_ok_iff hkey).1 h
      rw [keeps_of_readSections List.mem_cons_self hafter, Stratum.layer_put]
      exact hlayer
  | placed before lead trail after places =>
      have hlayer := (read_array_eq_ok_iff.1 h).2 stratum
      rw [getElem?_place _ places] at hlayer
      exact hlayer

/-- A section that can be read may take the place of another one that can. -/
theorem exists_read {first second : Spelling} {layer : Layer}
    (hlayer : Layer.codec.read origin second.tree = .ok layer)
    (h : record.read origin (setting.document first).tree = .ok preferences) :
    ∃ preferences, record.read origin (setting.document second).tree = .ok preferences := by
  cases setting with
  | named before label after names =>
      have hfirst : (Member.mk label first).key = stratum.name := names
      have hsecond : (Member.mk label second).key = stratum.name := names
      obtain ⟨front, _, back, hfront, hnew, _, hafter, _⟩ := (read_document_eq_ok_iff hfirst).1 h
      obtain ⟨read, hread⟩ := exists_readSections (stratum.put layer front.record) hafter
      exact ⟨_, (read_document_eq_ok_iff hsecond).2
        ⟨front, layer, _, hfront, hnew, hlayer, hread, rfl⟩⟩
  | placed before lead trail after places =>
      obtain ⟨hlength, hplaced⟩ := read_array_eq_ok_iff.1 h
      refine ⟨stratum.put layer preferences, read_array_eq_ok_iff.2 ⟨?_, ?_⟩⟩
      · simpa only [List.length_map, List.length_append, List.length_cons] using hlength
      · intro other
        by_cases hother : other = stratum
        · subst hother
          rw [getElem?_place _ places, Stratum.layer_put]
          exact hlayer
        · have hplace : other.place ≠ before.length := by
            rw [places]
            exact fun heq => hother (Stratum.place_injective heq)
          have hsame := hplaced other
          rw [List.getElem?_map, getElem?_append_cons_of_ne _ ⟨lead, second, trail⟩ hplace,
            ← List.getElem?_map] at hsame
          rw [Stratum.layer_put_of_ne hother]
          exact hsame

end Setting

/-- The text of a document is read as what is spelled there. -/
theorem ofJson_spelled (lead : Gap) (document : Spelling) (trail : Gap) :
    ofJson (document.text lead trail) = record.read .text document.tree := by
  change record.codec.ofText _ = _
  rw [Codec.ofText, Parsed.ofText_spelled]
  change (do
    let preferences ← record.read .text document.tree
    if false = true then .error (.malformed .illFormed) else pure preferences) = _
  cases record.read .text document.tree <;> rfl

/-- A document of preferences, but for the entries of one of its sections. -/
structure DocumentContext where
  stratum : Stratum
  lead : Gap
  setting : Setting stratum
  /-- The white space in the section if it has no entries. -/
  inside : Gap
  trail : Gap

namespace DocumentContext

/-- The document with the entries of the section. -/
def document (context : DocumentContext) (entries : List Member) : Spelling :=
  context.setting.document (.object context.inside entries)

/-- The text of the document. -/
def text (context : DocumentContext) (entries : List Member) : String :=
  (context.document entries).text context.lead context.trail

end DocumentContext

open Preference (Accepts ofLiteral)

theorem toInt_ofInt {n : Int} (h : Accepts n) :
    (Int64.ofInt (max n Int64.minValue.toInt)).toInt = max n Int64.minValue.toInt := by
  have hhigh := h.2
  rw [Preference.maxValue_toInt] at hhigh
  rw [Preference.minValue_toInt]
  exact Int64.toInt_ofInt_of_le (by omega) (by omega)

/-- The integer of a key is that of its layer, unless a value that was set lies over a default. -/
theorem integer_of_layer {preferences : Preferences} {key : String} {value : Int64}
    (h : (stratum.layer preferences).get? key = some (.integer value))
    (hover : stratum = .defaults →
      (preferences.values.get? key).bind Preference.asInteger? = none) :
    preferences.integer key = value := by
  rw [integer, lookup?]
  cases stratum with
  | values =>
      have hvalue : preferences.values.get? key = some (.integer value) := h
      rw [hvalue]
      rfl
  | defaults =>
      have hdefault : preferences.defaults.get? key = some (.integer value) := h
      rw [hover rfl, hdefault]
      rfl

/-- An integer literal among the entries of a layer is accepted exactly from the least literal to the
greatest integer of 64 bits.  If it is not, the document cannot be read; if it is, the document can
be read whenever it can be read without that entry.  The last entry of a key is then stored as the
integer itself, or as the least integer of 64 bits for a literal below it, and is given out as the
integer of the key unless a value that was set lies over a default. -/
theorem ofJson_literal (context : DocumentContext) (front back : List Member) (label : Label)
    (n : Int) :
    (¬ Accepts n →
        ∃ failure, ofJson (context.text (front ++ ⟨label, .ofInt n⟩ :: back)) = .error failure) ∧
      (Accepts n →
        ((∃ preferences,
            ofJson (context.text (front ++ ⟨label, .ofInt n⟩ :: back)) = .ok preferences) ↔
          ∃ preferences, ofJson (context.text (front ++ back)) = .ok preferences) ∧
        ∀ preferences,
          ofJson (context.text (front ++ ⟨label, .ofInt n⟩ :: back)) = .ok preferences →
          label.name.name ∉ back.map Member.key →
            ∃ value : Int64, value.toInt = max n Int64.minValue.toInt ∧
              (context.stratum.layer preferences).get? label.name.name = some (.integer value) ∧
              ((context.stratum = .defaults →
                  (preferences.values.get? label.name.name).bind Preference.asInteger? = none) →
                preferences.integer label.name.name = value)) := by
  obtain ⟨hread, hfails⟩ := Layer.readEntry_ofInt .text n
  simp only [DocumentContext.text, ofJson_spelled]
  constructor
  · intro hrejects
    obtain ⟨failure, hfailure⟩ := hfails hrejects
    cases hdocument : record.read .text
        (context.document (front ++ ⟨label, .ofInt n⟩ :: back)).tree with
    | error failure => exact ⟨failure, rfl⟩
    | ok preferences =>
        have hlayer := Setting.layer_of_read hdocument
        obtain ⟨_, _, _, _, hentry, _, _⟩ := Layer.read_object_eq_ok_iff.1 hlayer
        obtain ⟨value, hvalue, _⟩ := map_eq_ok_iff.1 hentry
        cases hfailure.symm.trans hvalue
  · intro haccepts
    have hentry : Layer.readSpelled .text ⟨label, .ofInt n⟩ =
        .ok (label.name.name, some (ofLiteral n)) :=
      congrArg (Except.map (label.name.name, ·)) (hread haccepts)
    have hlayers := Layer.exists_read_object_iff front back hentry
    refine ⟨⟨?_, ?_⟩, ?_⟩
    · rintro ⟨preferences, hdocument⟩
      obtain ⟨layer, hlayer⟩ := hlayers.1 ⟨_, Setting.layer_of_read hdocument⟩
      exact Setting.exists_read hlayer hdocument
    · rintro ⟨preferences, hdocument⟩
      obtain ⟨layer, hlayer⟩ := hlayers.2 ⟨_, Setting.layer_of_read hdocument⟩
      exact Setting.exists_read hlayer hdocument
    · intro preferences hdocument hlast
      have hlayer := Setting.layer_of_read hdocument
      have hvalue := Layer.get?_of_last hlayer (hread haccepts) hlast
      exact ⟨_, toInt_ofInt haccepts, hvalue, integer_of_layer hvalue⟩

/-- A document with one section and no white space. -/
def valuesDocument : DocumentContext where
  stratum := .values
  lead := .none
  setting := .named [] ⟨.none, .quoted "values", .none, .none, .none⟩ [] rfl
  inside := .none
  trail := .none

/-- The entry of a literal one below the least integer of 64 bits. -/
def belowLeast : Member :=
  ⟨⟨.none, .quoted "k", .none, .none, .none⟩, .ofInt (-9223372036854775809)⟩

/-- One below the least integer of 64 bits is read as that integer. -/
theorem ofJson_literal_below_least :
    ∃ preferences,
      ofJson "\x7b\"values\":\x7b\"k\":-9223372036854775809\x7d\x7d" = .ok preferences ∧
        preferences.value? "k" = some (.integer Int64.minValue) ∧
        (preferences.integer "k").toInt = -9223372036854775808 := by
  have htext : "\x7b\"values\":\x7b\"k\":-9223372036854775809\x7d\x7d" =
      valuesDocument.text [belowLeast] := by decide +kernel
  have hliteral : ofLiteral (-9223372036854775809) = .integer Int64.minValue := by decide
  have hentry : Layer.readSpelled .text belowLeast = .ok ("k", some (.integer Int64.minValue)) := by
    have hread := (Layer.readEntry_ofInt .text (-9223372036854775809)).1 (by decide)
    rw [hliteral] at hread
    exact congrArg (Except.map ("k", ·)) hread
  have hlayer : Layer.codec.read .text (.object ([belowLeast].map Member.entry) none) =
      .ok ((Dictionary.ofList [("k", some (.integer Int64.minValue))]).filterMap id) := by
    rw [Layer.read_object, List.mapM_cons, hentry]
    rfl
  have hname : (Member.mk ⟨.none, .quoted "values", .none, .none, .none⟩
      (.object .none [belowLeast])).key = Stratum.values.name := rfl
  rw [htext, DocumentContext.text, ofJson_spelled]
  exact ⟨_, (read_document_eq_ok_iff hname).2
    ⟨⟨empty, []⟩, _, _, rfl, List.not_mem_nil, hlayer, rfl, rfl⟩, rfl, by decide⟩

end Preferences

end TextEditing
