/-
Module: TextEditing.Options.Preferences
Purpose: Preferences in two layers, values over defaults, and their document.
Main exports: Preferences, Preferences.set, Preferences.setDefault, Preferences.reset,
  Preferences.boolean, Preferences.integer, Preferences.text, Preferences.ofJson,
  Preferences.toJson
-/
import TextEditing.Dictionary
import TextEditing.Json.Printer
import TextEditing.Json.Record
import TextEditing.Options.Preference

namespace TextEditing

/-!
A key is looked up among the values first and then among the defaults.  A value of the wrong kind
counts as absent, and a key without any usable value has the blank value of its kind: `false`, 0 or
the empty text.
-/

/-- Preferences by key. -/
abbrev Layer := Dictionary Preference

/-- Values that were set, over defaults that were registered. -/
structure Preferences where
  defaults : Layer
  values : Layer
deriving Inhabited, DecidableEq

namespace Preferences

/-- No key has a value or a default. -/
def empty : Preferences := ⟨.empty, .empty⟩

/-- Sets a value. -/
def set (preferences : Preferences) (key : String) (value : Preference) : Preferences :=
  { preferences with values := preferences.values.insert key value }

/-- Registers a default. -/
def setDefault (preferences : Preferences) (key : String) (value : Preference) : Preferences :=
  { preferences with defaults := preferences.defaults.insert key value }

/-- Takes a value away, so that the default counts again. -/
def reset (preferences : Preferences) (key : String) : Preferences :=
  { preferences with values := preferences.values.erase key }

/-- The value that was set for a key. -/
def value? (preferences : Preferences) (key : String) : Option Preference :=
  preferences.values.get? key

/-- A value was set for the key. -/
def contains (preferences : Preferences) (key : String) : Bool :=
  preferences.values.contains key

section
variable {α : Type}

/-- The first of value and default that has the wanted reading. -/
def lookup? (preferences : Preferences) (key : String) (read : Preference → Option α) : Option α :=
  ((preferences.values.get? key).bind read).or ((preferences.defaults.get? key).bind read)

end

/-- The truth value of a key. -/
def boolean (preferences : Preferences) (key : String) : Bool :=
  (preferences.lookup? key Preference.asBoolean?).getD false

/-- The integer of a key. -/
def integer (preferences : Preferences) (key : String) : Int64 :=
  (preferences.lookup? key Preference.asInteger?).getD 0

/-- The text of a key. -/
def text (preferences : Preferences) (key : String) : String :=
  (preferences.lookup? key fun preference => some preference.asText).getD ""

end Preferences

/-!
The document of preferences is an object with the two layers as its members, each of which may be
left out.  In a layer the last entry of a key counts, and a key whose last entry is `null` is
absent.
-/

namespace Layer

open Json

/-- The entry of a layer; `null` unsets the key. -/
def readEntry (origin : Origin) (tree : Tree) : Except DecodeError (Option Preference) :=
  match tree with
  | .null => .ok none
  | tree => (Preference.codec.read origin tree).map some

/-- Layers as objects. -/
def codec : Codec Layer where
  read origin tree :=
    match tree with
    | .object members defect => do
        let entries ← members.mapM fun (key, tree) => do
          let name ← key.toName.mapError DecodeError.malformed
          let entry ← readEntry origin tree
          pure (name, entry)
        refuse defect
        pure ((Dictionary.ofList entries).filterMap id)
    | tree => .error (tree.head.unexpected "a map")
  write layer := .object (layer.entries.map fun entry => (entry.1, Preference.codec.write entry.2))

end Layer

namespace Preferences

open Json

/-- The document of preferences. -/
def record : Record Preferences where
  title := "PreferenceDocument"
  blank := empty
  fields :=
    [.defaulted "defaults" Layer.codec (·.defaults) fun defaults preferences =>
        { preferences with defaults },
      .defaulted "values" Layer.codec (·.values) fun values preferences =>
        { preferences with values }]

/-- The preferences in the text of a document. -/
def ofJson (text : String) : Except DecodeError Preferences :=
  record.codec.ofText text

/-- The text of the document, both layers in ascending order of keys. -/
def toJson (preferences : Preferences) : String :=
  (record.codec.write preferences).pretty

/-- The wording of the error of a document, if there is one. -/
def documentMessage? (failure : DecodeError) : Option String :=
  failure.message?.map ("preference JSON error: " ++ ·)

end Preferences

end TextEditing
