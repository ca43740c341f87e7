/-
Module: TextEditing.Options.Choice
Purpose: Closed sets of alternatives, each with a name and a number.
Main exports: Choice, Choice.normalized, Choice.ofText, Choice.codec
-/
import TextEditing.Json.Codec
import TextEditing.Options.Failure
import TextEditing.Text.Blank

namespace TextEditing

/-!
Preferences hold a choice by name.  White space around a name, the case of ASCII letters, and
underscores and hyphens do not count.  A service is told the number.
-/

/-- A set of alternatives of which one is chosen. -/
class Choice (α : Type) where
  /-- What is chosen, for messages. -/
  title : String
  /-- The alternatives by number. -/
  members : List α
  number : α → Nat
  /-- The name by which an alternative is written. -/
  name : α → String
  /-- The normalized names by which the alternatives are read. -/
  spellings : List (String × α)
  /-- The choice where none is made. -/
  standard : α

namespace Choice

/-- A character without any meaning in a name. -/
def isSeparator (c : Char) : Bool := c == '_' || c == '-'

/-- A name as it stands in the list of spellings. -/
def normalized (name : String) : String :=
  String.ofList (((stripped isBlank name.toList).filter (!isSeparator ·)).map Char.toUpper)

variable {α : Type} [Choice α]

/-- The alternative with the given name. -/
def ofText (text : String) : Except OptionsError α :=
  match (spellings : List (String × α)).lookup (normalized text) with
  | some member => .ok member
  | none => .error (.unknownValue (title α) text)

/-- Choices by number. -/
def codec : Json.Codec α :=
  .numbered (members.map fun member => (number member, member)) number

end Choice

end TextEditing
