/-
Module: TextEditing.Proofs.DocumentLayers
Purpose: The layers that a document of preferences stands for.
Main exports: WrittenValue, WrittenEntry, WrittenSection, WrittenDocument, LastSays, Denotes,
  Preferences.ofJson_document
-/
import TextEditing.Proofs.LiteralEntries
import TextEditing.Proofs.PlainSpellings

namespace TextEditing

open Json

/-!
A document is written down section by section and entry by entry.  Each section of a layer is read
alone, and foreign ones are passed over; in a section all entries are read, also those that others
follow with the same key, and only then those that unset their key are left out.
-/

/-! ### Documents -/

/-- What is written as the value of an entry. -/
inductive WrittenValue where
  | null
  | boolean (value : Bool)
  | integer (value : Int64)
  | minusZero
  | text (name : Name)
  | array (inside : Gap) (items : List Item)
  | object (inside : Gap) (members : List Member)
  | other (spelling : Spelling)

namespace WrittenValue

/-- How the value is spelled. -/
def spelling : WrittenValue → Spelling
  | null => .null
  | boolean value => .boolean value
  | integer value => .ofInt value.toInt
  | minusZero => .minusZero
  | text name => .string name
  | array inside items => .array inside items
  | object inside members => .object inside members
  | other spelling => spelling

/-- What a plain value says about its key: a preference, or that the key is unset. -/
inductive Says : WrittenValue → Option Preference → Prop
  | null : Says null none
  | boolean (value : Bool) : Says (boolean value) (some (.boolean value))
  | integer (value : Int64) : Says (integer value) (some (.integer value))
  | minusZero : Says minusZero (some (.integer 0))
  | text (name : Name) : Says (text name) (some (.text name.name))

/-- An array or an object. -/
inductive Nested : WrittenValue → Prop
  | array (inside : Gap) (items : List Item) : Nested (array inside items)
  | object (inside : Gap) (members : List Member) : Nested (object inside members)

end WrittenValue

/-- An entry of a section. -/
structure WrittenEntry where
  label : Label
  written : WrittenValue

namespace WrittenEntry

/-- The key of the entry. -/
def key (entry : WrittenEntry) : String := entry.label.name.name

/-- The entry as a member of the object of its section. -/
def member (entry : WrittenEntry) : Member := ⟨entry.label, entry.written.spelling⟩

end WrittenEntry

/-- A section of a document. -/
inductive WrittenSection where
  /-- The section of a layer has its name. -/
  | layer (stratum : Stratum) (label : Label) (names : label.name.name = stratum.name)
      (inside : Gap) (entries : List WrittenEntry)
  /-- Any other member of the document. -/
  | foreign (member : Member) (names : ∀ stratum : Stratum, member.key ≠ stratum.name)

namespace WrittenSection

/-- The layer of the section. -/
def stratum? : WrittenSection → Option Stratum
  | layer stratum _ _ _ _ => some stratum
  | foreign _ _ => none

/-- The section as a member of the document. -/
def member : WrittenSection → Member
  | layer _ label _ inside entries => ⟨label, .object inside (entries.map WrittenEntry.member)⟩
  | foreign member _ => member

/-- The entries of the section for a layer. -/
def entries (stratum : Stratum) : WrittenSection → List WrittenEntry
  | layer other _ _ _ entries => if other = stratum then entries else []
  | foreign _ _ => []

end WrittenSection

/-- The entries of sections for a layer. -/
def entriesOf (stratum : Stratum) (sections : List WrittenSection) : List WrittenEntry :=
  sections.flatMap (WrittenSection.entries stratum)

/-- A document in which each layer has at most one section. -/
structure WrittenDocument where
  lead : Gap
  inside : Gap
  sections : List WrittenSection
  trail : Gap
  once : (sections.filterMap WrittenSection.stratum?).Nodup

namespace WrittenDocument

/-- The entries for a layer. -/
def entries (document : WrittenDocument) (stratum : Stratum) : List WrittenEntry :=
  entriesOf stratum document.sections

/-- The text of the document. -/
def text (document : WrittenDocument) : String :=
  (Spelling.object document.inside (document.sections.map WrittenSection.member)).text document.lead
    document.trail

end WrittenDocument

/-- The last entry of the key says this about it. -/
inductive LastSays (key : String) (said : Option Preference) : List WrittenEntry → Prop
  | here {entry : WrittenEntry} {rest : List WrittenEntry} (hkey : entry.key = key)
      (hrest : ∀ other ∈ rest, other.key ≠ key) (hvalue : entry.written.Says said) :
      LastSays key said (entry :: rest)
  | later {entry : WrittenEntry} {rest : List WrittenEntry} (h : LastSays key said rest) :
      LastSays key said (entry :: rest)

/-- The layer has for a key what the last entry of the key says, and nothing for other keys. -/
structure Denotes (entries : List WrittenEntry) (layer : Layer) : Prop where
  value : ∀ key preference,
    layer.get? key = some preference ↔ LastSays key (some preference) entries
  unset : ∀ key,
    layer.get? key = none ↔ (∀ entry ∈ entries, entry.key ≠ key) ∨ LastSays key none entries

/-! ### Entries -/

namespace WrittenValue

variable {written : WrittenValue} {said other : Option Preference} {origin : Origin}

/-- Zero with a minus sign is read as a binary64 number, and that as the integer. -/
theorem readEntry_minusZero :
    Layer.readEntry origin Spelling.minusZero.tree = .ok (some (.integer 0)) := by
  have hvalue : (Numeral.mk true [0] none none).value? = some (.double ⟨true, ⟨0, -1074⟩⟩) := by
    decide +kernel
  have hnumber : Preference.ofNumber (.double ⟨true, ⟨0, -1074⟩⟩) = .ok (.integer 0) := by
    decide +kernel
  have htree : Spelling.minusZero.tree = .number (.double ⟨true, ⟨0, -1074⟩⟩) := by
    simp only [Spelling.minusZero, Numeral.toTree, hvalue]
  rw [htree, Layer.readEntry_number, hnumber]
  rfl

theorem Says.readEntry_eq (h : written.Says said) :
    Layer.readEntry origin written.spelling.tree = .ok said := by
  cases h with
  | null => rfl
  | boolean value => rfl
  | integer value =>
      have haccepts : Preference.Accepts value.toInt := by
        have hlow := value.minValue_le_toInt
        have hhigh := value.toInt_le
        rw [Preference.minValue_toInt] at hlow
        exact ⟨by rw [Preference.leastLiteral]; omega, hhigh⟩
      have hliteral : Preference.ofLiteral value.toInt = .integer value := by
        rw [Preference.ofLiteral, max_eq_left value.minValue_le_toInt, Int64.ofInt_toInt]
      rw [← hliteral]
      exact (Layer.readEntry_ofInt origin value.toInt).1 haccepts
  | minusZero => exact readEntry_minusZero
  | text name => rfl

theorem Says.unique (h : written.Says said) (hother : written.Says other) : said = other := by
  have hread : Layer.readEntry .text written.spelling.tree = _ := h.readEntry_eq
  exact Except.ok.inj (hread.symm.trans hother.readEntry_eq)

theorem readEntry_of_nested (h : written.Nested) (origin : Origin) :
    ∃ failure, Layer.readEntry origin written.spelling.tree = .error failure := by
  cases h with
  | array inside items => exact ⟨_, rfl⟩
  | object inside members => exact ⟨_, rfl⟩

end WrittenValue

/-- What the entries of a section say about their keys. -/
def SayEach (entries : List WrittenEntry) (said : List (String × Option Preference)) : Prop :=
  List.Forall₂ (fun entry pair => entry.key = pair.1 ∧ entry.written.Says pair.2) entries said

section

variable {entries : List WrittenEntry} {said : List (String × Option Preference)} {key : String}

theorem exists_sayEach (h : ∀ entry ∈ entries, ∃ said, entry.written.Says said) :
    ∃ said, SayEach entries said := by
  induction entries with
  | nil => exact ⟨[], .nil⟩
  | cons entry rest ih =>
      obtain ⟨⟨value, hvalue⟩, hrest⟩ := List.forall_mem_cons.1 h
      obtain ⟨others, hothers⟩ := ih hrest
      exact ⟨(entry.key, value) :: others, .cons ⟨rfl, hvalue⟩ hothers⟩

/-- The section of a layer is read entry by entry. -/
theorem SayEach.read (h : SayEach entries said) (origin : Origin) :
    Layer.codec.read origin (.object ((entries.map WrittenEntry.member).map Member.entry) none) =
      .ok ((Dictionary.ofList said).filterMap id) := by
  rw [Layer.read_object, map_eq_ok_iff]
  refine ⟨said, mapM_eq_ok_iff.2 ?_, rfl⟩
  rw [List.forall₂_map_left_iff]
  refine h.imp ?_
  rintro entry ⟨key, value⟩ ⟨hkey, hvalue⟩
  rw [Layer.readSpelled]
  exact map_eq_ok_iff.2 ⟨value, hvalue.readEntry_eq, congrArg (·, value) hkey.symm⟩

theorem SayEach.map_key (h : SayEach entries said) :
    said.map Prod.fst = entries.map WrittenEntry.key := by
  induction h with
  | nil => rfl
  | cons hentry _ ih => rw [List.map_cons, List.map_cons, ih, hentry.1]

theorem SayEach.last?_eq_none_iff (h : SayEach entries said) :
    Dictionary.last? key said = none ↔ ∀ entry ∈ entries, entry.key ≠ key := by
  rw [Dictionary.last?_eq_none_iff, h.map_key, List.mem_map]
  constructor
  · intro hnone entry hentry hkey
    exact hnone ⟨entry, hentry, hkey⟩
  · rintro hnone ⟨entry, hentry, hkey⟩
    exact hnone entry hentry hkey

/-- The last entry of a key is the last thing that is said about it. -/
theorem SayEach.last?_eq_some_iff (h : SayEach entries said) {value : Option Preference} :
    Dictionary.last? key said = some value ↔ LastSays key value entries := by
  induction h with
  | nil =>
      constructor
      · intro h
        cases h
      · rintro ⟨⟩
  | @cons entry pair entries said hentry hrest ih =>
      obtain ⟨hkey, hvalue⟩ := hentry
      rw [Dictionary.last?_cons]
      constructor
      · intro h
        cases hlast : Dictionary.last? key said with
        | some other =>
            rw [hlast, Option.some_or] at h
            exact .later (ih.1 (hlast.trans h))
        | none =>
            rw [hlast, Option.none_or] at h
            split at h
            · rename_i hpair
              cases h
              exact .here (hkey.trans hpair) ((SayEach.last?_eq_none_iff hrest).1 hlast) hvalue
            · cases h
      · intro h
        cases h with
        | here hentry hothers hsaid =>
            have hlast := (SayEach.last?_eq_none_iff hrest).2 hothers
            rw [hlast, Option.none_or, if_pos (hkey.symm.trans hentry), hvalue.unique hsaid]
        | later hlater => rw [ih.2 hlater, Option.some_or]

theorem SayEach.denotes (h : SayEach entries said) :
    Denotes entries ((Dictionary.ofList said).filterMap id) := by
  have hget (key : String) : ((Dictionary.ofList said).filterMap id).get? key =
      (Dictionary.last? key said).join := by
    rw [Dictionary.get?_filterMap, Dictionary.get?_ofList]
    cases Dictionary.last? key said <;> rfl
  constructor
  · intro key preference
    rw [hget, Option.join_eq_some_iff, h.last?_eq_some_iff]
  · intro key
    rw [hget, Option.join_eq_none_iff, h.last?_eq_none_iff, h.last?_eq_some_iff]

/-- A section of plain entries is read as the layer that it stands for. -/
theorem exists_read_entries (h : ∀ entry ∈ entries, ∃ said, entry.written.Says said)
    (origin : Origin) :
    ∃ layer, Layer.codec.read origin
        (.object ((entries.map WrittenEntry.member).map Member.entry) none) = .ok layer ∧
      Denotes entries layer := by
  obtain ⟨said, hsaid⟩ := exists_sayEach h
  exact ⟨_, hsaid.read origin, hsaid.denotes⟩

end

/-! ### Sections -/

section

open Json.Record (Progress)

variable {stratum : Stratum} {done rest : List WrittenSection} {progress : Progress Preferences}

theorem entriesOf_append (stratum : Stratum) (first second : List WrittenSection) :
    entriesOf stratum (first ++ second) = entriesOf stratum first ++ entriesOf stratum second :=
  List.flatMap_append

/-- A layer without a section has no entries. -/
theorem entriesOf_eq_nil (h : stratum ∉ done.filterMap WrittenSection.stratum?) :
    entriesOf stratum done = [] := by
  refine List.flatMap_eq_nil_iff.2 fun part hpart => ?_
  cases part with
  | layer other label names inside entries =>
      refine if_neg ?_
      rintro rfl
      exact h (List.mem_filterMap.2 ⟨_, hpart, rfl⟩)
  | foreign member names => rfl

theorem Stratum.name_injective : Function.Injective name := by
  intro stratum other h
  cases stratum <;> cases other <;> first | rfl | exact absurd h (by decide)

/-- What has been read when these sections are done. -/
structure ReadSoFar (done : List WrittenSection) (progress : Progress Preferences) : Prop where
  seen : ∀ stratum : Stratum, stratum.name ∈ progress.seen →
    stratum ∈ done.filterMap WrittenSection.stratum?
  layers : ∀ stratum : Stratum, Denotes (entriesOf stratum done) (stratum.layer progress.record)

theorem ReadSoFar.start : ReadSoFar [] ⟨Preferences.empty, []⟩ where
  seen _ h := absurd h List.not_mem_nil
  layers stratum := by
    have hdenotes : Denotes [] ((Dictionary.ofList []).filterMap id) := SayEach.denotes .nil
    cases stratum <;> exact hdenotes

/-- One more section of a layer is read. -/
theorem ReadSoFar.step_layer (h : ReadSoFar done progress) {label : Label}
    (names : label.name.name = stratum.name) (inside : Gap) {entries : List WrittenEntry}
    (hplain : ∀ entry ∈ entries, ∃ said, entry.written.Says said)
    (hnone : stratum ∉ done.filterMap WrittenSection.stratum?) (origin : Origin) :
    ∃ next, Preferences.record.readMember origin progress (.name stratum.name)
        (Spelling.object inside (entries.map WrittenEntry.member)).tree = .ok next ∧
      ReadSoFar (done ++ [.layer stratum label names inside entries]) next := by
  have hnew : stratum.name ∉ progress.seen := fun hseen => hnone (h.seen stratum hseen)
  obtain ⟨layer, hread, hdenotes⟩ := exists_read_entries hplain origin
  refine ⟨⟨stratum.put layer progress.record, stratum.name :: progress.seen⟩, ?_, ?_, ?_⟩
  · rw [Preferences.readMember_stratum, if_neg hnew]
    exact map_eq_ok_iff.2 ⟨layer, hread, rfl⟩
  · intro other hother
    rw [List.filterMap_append]
    rcases List.mem_cons.1 hother with heq | hseen
    · rw [Stratum.name_injective heq]
      exact List.mem_append_right _ List.mem_cons_self
    · exact List.mem_append_left _ (h.seen other hseen)
  · intro other
    have hentries : entriesOf other [.layer stratum label names inside entries] =
        if stratum = other then entries else [] := List.append_nil _
    rw [entriesOf_append, hentries]
    by_cases hother : stratum = other
    · subst hother
      rw [entriesOf_eq_nil hnone, if_pos rfl, Stratum.layer_put]
      exact hdenotes
    · rw [if_neg hother, List.append_nil, Stratum.layer_put_of_ne (Ne.symm hother)]
      exact h.layers other

/-- A foreign member is passed over. -/
theorem ReadSoFar.step_foreign (h : ReadSoFar done progress) {member : Member}
    (names : ∀ stratum : Stratum, member.key ≠ stratum.name) (origin : Origin) :
    Preferences.record.readMember origin progress (.name member.key) member.value.tree =
        .ok progress ∧
      ReadSoFar (done ++ [.foreign member names]) progress := by
  refine ⟨?_, ?_, ?_⟩
  · rcases Preferences.readMember_cases member.key member.value.tree with ⟨other, hother⟩ | hpassed
    · exact absurd hother (names other)
    · rw [hpassed, member.value.pass_tree]
      rfl
  · intro stratum hseen
    rw [List.filterMap_append]
    exact List.mem_append_left _ (h.seen stratum hseen)
  · intro stratum
    have hentries : entriesOf stratum [.foreign member names] = [] := rfl
    rw [entriesOf_append, hentries, List.append_nil]
    exact h.layers stratum

/-- One more section is read, unless it is a second one for its layer. -/
theorem ReadSoFar.step (h : ReadSoFar done progress) {part : WrittenSection}
    (hplain : ∀ stratum, ∀ entry ∈ part.entries stratum, ∃ said, entry.written.Says said)
    (honce : ((done ++ [part]).filterMap WrittenSection.stratum?).Nodup) (origin : Origin) :
    ∃ next, Preferences.record.readMember origin progress (.name part.member.key)
        part.member.value.tree = .ok next ∧
      ReadSoFar (done ++ [part]) next := by
  cases part with
  | layer stratum label names inside entries =>
      have hentries : (WrittenSection.layer stratum label names inside entries).entries stratum =
          entries := if_pos rfl
      have hkey : (WrittenSection.layer stratum label names inside entries).member.key =
          stratum.name := names
      have hnone : stratum ∉ done.filterMap WrittenSection.stratum? := by
        intro hmem
        rw [List.filterMap_append] at honce
        exact List.disjoint_of_nodup_append honce hmem List.mem_cons_self
      rw [hkey]
      exact h.step_layer names inside (hentries ▸ hplain stratum) hnone origin
  | foreign member names => exact ⟨progress, h.step_foreign names origin⟩

/-- Sections of plain entries are read one after the other. -/
theorem ReadSoFar.run (h : ReadSoFar done progress)
    (hplain : ∀ stratum, ∀ entry ∈ entriesOf stratum rest, ∃ said, entry.written.Says said)
    (honce : ((done ++ rest).filterMap WrittenSection.stratum?).Nodup) (origin : Origin) :
    ∃ result,
      Preferences.readSections origin progress (rest.map WrittenSection.member) = .ok result ∧
        ReadSoFar (done ++ rest) result := by
  induction rest generalizing done progress with
  | nil =>
      rw [List.append_nil]
      exact ⟨progress, rfl, h⟩
  | cons part rest ih =>
      have hpart (stratum : Stratum) : ∀ entry ∈ part.entries stratum,
          ∃ said, entry.written.Says said :=
        fun entry hentry => hplain stratum entry (List.mem_append_left _ hentry)
      have hrest (stratum : Stratum) : ∀ entry ∈ entriesOf stratum rest,
          ∃ said, entry.written.Says said :=
        fun entry hentry => hplain stratum entry (List.mem_append_right _ hentry)
      rw [← List.singleton_append, ← List.append_assoc] at honce ⊢
      have hfront : ((done ++ [part]).filterMap WrittenSection.stratum?).Nodup := by
        rw [List.filterMap_append] at honce
        exact honce.of_append_left
      obtain ⟨next, hnext, hsofar⟩ := h.step hpart hfront origin
      obtain ⟨result, hresult, hlast⟩ := ih hsofar hrest honce
      exact ⟨result, Preferences.readSections_cons_eq_ok_iff.2 ⟨next, hnext, hresult⟩, hlast⟩

end

namespace Preferences

theorem ofJson_text (document : WrittenDocument) :
    ofJson document.text =
      (readSections .text ⟨empty, []⟩ (document.sections.map WrittenSection.member)).map
        (·.record) :=
  (ofJson_spelled _ _ _).trans (read_document _ _)

/-- Whatever else stands in a section, none of its entries is an array or an object. -/
theorem not_nested_of_read {entries : List WrittenEntry} {entry : WrittenEntry} {layer : Layer}
    {origin : Origin} (hentry : entry ∈ entries)
    (h : Layer.codec.read origin
      (.object ((entries.map WrittenEntry.member).map Member.entry) none) = .ok layer) :
    ¬ entry.written.Nested := by
  intro hnested
  obtain ⟨front, back, rfl⟩ := List.append_of_mem hentry
  rw [List.map_append, List.map_cons] at h
  obtain ⟨_, _, _, _, hspelled, _, _⟩ := Layer.read_object_eq_ok_iff.1 h
  obtain ⟨said, hsaid, _⟩ := map_eq_ok_iff.1 hspelled
  obtain ⟨failure, hfailure⟩ := WrittenValue.readEntry_of_nested hnested origin
  cases hsaid.symm.trans hfailure

/-- A document that can be read has no entry that is an array or an object. -/
theorem not_nested_of_ofJson {document : WrittenDocument} {preferences : Preferences}
    {stratum : Stratum} {entry : WrittenEntry} (hentry : entry ∈ document.entries stratum)
    (h : ofJson document.text = .ok preferences) : ¬ entry.written.Nested := by
  obtain ⟨part, hpart, hmem⟩ := List.mem_flatMap.1 hentry
  cases part with
  | foreign member names => cases hmem
  | layer other label names inside entries =>
      rw [WrittenSection.entries] at hmem
      split at hmem
      · obtain ⟨before, after, hsections⟩ := List.append_of_mem hpart
        rw [WrittenDocument.text, ofJson_spelled, hsections, List.map_append, List.map_cons] at h
        have hkey : (WrittenSection.layer other label names inside entries).member.key =
            other.name := names
        obtain ⟨_, _, _, _, _, hlayer, _⟩ := (read_document_eq_ok_iff hkey).1 h
        exact not_nested_of_read hmem hlayer
      · cases hmem

/-- A document stands for the layers that its last entries describe. -/
theorem ofJson_document (document : WrittenDocument) :
    ((∀ stratum, ∀ entry ∈ document.entries stratum, ∃ said, entry.written.Says said) →
        ∃ preferences, ofJson document.text = .ok preferences ∧
          ∀ stratum : Stratum,
            Denotes (document.entries stratum) (stratum.layer preferences)) ∧
      ((∃ stratum, ∃ entry ∈ document.entries stratum, entry.written.Nested) →
        ∃ failure, ofJson document.text = .error failure) := by
  constructor
  · intro hplain
    obtain ⟨result, hresult, hsofar⟩ := ReadSoFar.start.run hplain document.once .text
    exact ⟨result.record, ofJson_text document ▸ map_eq_ok_iff.2 ⟨result, hresult, rfl⟩,
      hsofar.layers⟩
  · rintro ⟨stratum, entry, hentry, hnested⟩
    cases hread : ofJson document.text with
    | error failure => exact ⟨failure, rfl⟩
    | ok preferences => exact absurd hnested (not_nested_of_ofJson hentry hread)

/-- A name with no white space around it. -/
def compactLabel (name : String) : Label := ⟨.none, .quoted name, .none, .none, .none⟩

/-- The values come first; one is unset by its last entry, and one is unset only for a while. -/
def overwritten : WrittenDocument where
  lead := .none
  inside := .none
  sections :=
    [.layer .values (compactLabel "values") rfl .none
        [⟨compactLabel "a", .integer 1⟩, ⟨compactLabel "a", .null⟩, ⟨compactLabel "b", .null⟩,
          ⟨compactLabel "b", .boolean true⟩],
      .foreign ⟨compactLabel "notes", .array .none []⟩ (by intro stratum; cases stratum <;> decide),
      .layer .defaults (compactLabel "defaults") rfl .none [⟨compactLabel "a", .minusZero⟩]]
  trail := .none
  once := by decide

/-- An array gives way to an integer. -/
def nested : WrittenDocument where
  lead := .none
  inside := .none
  sections :=
    [.layer .values (compactLabel "values") rfl .none
      [⟨compactLabel "a", .array .none []⟩, ⟨compactLabel "a", .integer 1⟩]]
  trail := .none
  once := by decide

/-- What is overwritten does not count, unless it cannot be read. -/
theorem ofJson_document_overwritten :
    (∃ preferences,
      ofJson ("\x7b\"values\":\x7b\"a\":1,\"a\":null,\"b\":null,\"b\":true\x7d,\"notes\":[]," ++
          "\"defaults\":\x7b\"a\":-0\x7d\x7d") = .ok preferences ∧
        preferences.values.get? "a" = none ∧
        preferences.values.get? "b" = some (.boolean true) ∧
        preferences.defaults.get? "a" = some (.integer 0)) ∧
      ∃ failure, ofJson "\x7b\"values\":\x7b\"a\":[],\"a\":1\x7d\x7d" = .error failure := by
  have htext : "\x7b\"values\":\x7b\"a\":1,\"a\":null,\"b\":null,\"b\":true\x7d,\"notes\":[]," ++
      "\"defaults\":\x7b\"a\":-0\x7d\x7d" = overwritten.text := by
    decide +kernel
  have hnested : "\x7b\"values\":\x7b\"a\":[],\"a\":1\x7d\x7d" = nested.text := by decide +kernel
  rw [htext, hnested]
  constructor
  · have hvalues : overwritten.entries .values =
        [⟨compactLabel "a", .integer 1⟩, ⟨compactLabel "a", .null⟩, ⟨compactLabel "b", .null⟩,
          ⟨compactLabel "b", .boolean true⟩] := rfl
    have hdefaults : overwritten.entries .defaults = [⟨compactLabel "a", .minusZero⟩] := rfl
    have hplain : ∀ stratum, ∀ entry ∈ overwritten.entries stratum,
        ∃ said, entry.written.Says said := by
      intro stratum entry hentry
      cases stratum with
      | defaults =>
          rw [hdefaults] at hentry
          cases List.mem_singleton.1 hentry
          exact ⟨_, .minusZero⟩
      | values =>
          simp only [hvalues, List.mem_cons, List.not_mem_nil, or_false] at hentry
          rcases hentry with rfl | rfl | rfl | rfl
          · exact ⟨_, .integer 1⟩
          · exact ⟨_, .null⟩
          · exact ⟨_, .null⟩
          · exact ⟨_, .boolean true⟩
    obtain ⟨preferences, hread, hdenotes⟩ := (ofJson_document overwritten).1 hplain
    have hlayer := hdenotes .values
    have hdefault := hdenotes .defaults
    rw [hvalues] at hlayer
    rw [hdefaults] at hdefault
    refine ⟨preferences, hread, ?_, ?_, ?_⟩
    · refine (hlayer.unset "a").2 (.inr (.later (.here rfl ?_ .null)))
      simp [WrittenEntry.key, compactLabel, Name.quoted]
    · exact (hlayer.value "b" _).2
        (.later (.later (.later (.here rfl (by simp) (.boolean true)))))
    · exact (hdefault.value "a" _).2 (.here rfl (by simp) .minusZero)
  · exact (ofJson_document nested).2 ⟨.values, ⟨compactLabel "a", .array .none []⟩,
      List.mem_cons_self, .array .none []⟩

end Preferences

end TextEditing
