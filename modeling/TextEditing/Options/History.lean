/-
Module: TextEditing.Options.History
Purpose: Preferences at work: keys are set, given defaults and reset, in any order.
Main exports: Preferences.Change, Preferences.Action, Preferences.run, Preferences.Answers,
  Preferences.lastSet, Preferences.lastDefault
-/
import TextEditing.Options.Defaults

namespace TextEditing.Preferences

/-!
What preferences answer about a key is a matter of their history: the value is the last one that was
set since the last reset, the default the last one that was registered.
-/

/-- A change at one key. -/
inductive Change where
  | set (value : Preference)
  | setDefault (value : Preference)
  | reset
deriving Repr, Inhabited, DecidableEq

/-- What may happen next to preferences. -/
inductive Action where
  | change (key : String) (change : Change)
  | registerDefaults
deriving Repr, Inhabited, DecidableEq

/-- The value that a reset takes away, and the preferences without it. -/
def takeValue (preferences : Preferences) (key : String) : Option Preference × Preferences :=
  (preferences.value? key, preferences.reset key)

/-- The preferences after a change at a key. -/
def changed (preferences : Preferences) (key : String) : Change → Preferences
  | .set value => preferences.set key value
  | .setDefault value => preferences.setDefault key value
  | .reset => (preferences.takeValue key).2

/-- The preferences after an action. -/
def step (preferences : Preferences) : Action → Preferences
  | .change key change => preferences.changed key change
  | .registerDefaults => preferences.registerDefaults

/-- The preferences after the actions of a history, the first one first. -/
def run (preferences : Preferences) (history : List Action) : Preferences :=
  history.foldl step preferences

/-- What preferences answer about a key. -/
structure Answers where
  boolean : Bool
  integer : Int64
  text : String
  contains : Bool
  /-- What a reset gives back. -/
  removed : Option Preference
deriving Repr, Inhabited, DecidableEq

/-- The answers about a key. -/
def answers (preferences : Preferences) (key : String) : Answers where
  boolean := preferences.boolean key
  integer := preferences.integer key
  text := preferences.text key
  contains := preferences.contains key
  removed := (preferences.takeValue key).1

/-!
### What a history says
-/

namespace Action

/-- The keys whose value is put or taken away. -/
def assignments : Action → List (String × Option Preference)
  | .change key (.set value) => [(key, some value)]
  | .change key .reset => [(key, none)]
  | _ => []

/-- The keys whose default is registered. -/
def registrations : Action → List (String × Preference)
  | .change key (.setDefault value) => [(key, value)]
  | .registerDefaults => registered
  | _ => []

/-- The action is about the key. -/
def concerns (key : String) : Action → Bool
  | .change other _ => other = key
  | .registerDefaults => registered.any (·.1 = key)

end Action

/-- The last value that was set for a key since it was last reset. -/
def lastSet (key : String) (history : List Action) : Option Preference :=
  (Dictionary.last? key (history.flatMap Action.assignments)).join

/-- The last default that was registered for a key. -/
def lastDefault (key : String) (history : List Action) : Option Preference :=
  Dictionary.last? key (history.flatMap Action.registrations)

/-- The last value or else the last default of a key, whichever has the wanted reading; otherwise the
blank value of the kind. -/
def lastReading {α : Type} (read : Preference → Option α) (blank : α) (key : String)
    (history : List Action) : α :=
  match (lastSet key history).bind read, (lastDefault key history).bind read with
  | some value, _ => value
  | none, some value => value
  | none, none => blank

/-- The answers about a key that a history calls for. -/
def Answers.ofHistory (key : String) (history : List Action) : Answers where
  boolean := lastReading Preference.asBoolean? false key history
  integer := lastReading Preference.asInteger? 0 key history
  text := lastReading (fun preference => some preference.asText) "" key history
  contains := (lastSet key history).isSome
  removed := lastSet key history

end TextEditing.Preferences
