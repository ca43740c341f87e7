/-
Module: TextEditing.Options.EditorOptions
Purpose: White space settings, their preferences and their JSON form.
Main exports: EditorOptions, EditorOptions.ofPreferences, EditorOptions.withLineEnding,
  EditorOptions.record
-/
import TextEditing.Options.Choices
import TextEditing.Options.Preferences

namespace TextEditing

/-- How white space is laid out. -/
structure EditorOptions where
  /-- Columns of one level of indentation. -/
  indentSize : UInt32 := 4
  /-- Columns of a tabulator. -/
  tabSize : UInt32 := 4
  newLine : String := LineEnding.lf.sequence
  spacesForTabs : Bool := true
  indentStyle : IndentStyle := .smart
deriving Repr, Inhabited, DecidableEq

namespace EditorOptions

/-- The key of the columns of a level of indentation. -/
def indentSizeKey : String := "editor.indentSize"

/-- The key of the columns of a tabulator. -/
def tabSizeKey : String := "tabWidth"

/-- The key of the choice of spaces. -/
def spacesForTabsKey : String := "spacesForTabs"

/-- The key of the indentation of new lines. -/
def indentStyleKey : String := "editor.indentStyle"

/-- The defaults to be registered. -/
def registered : List (String × Preference) :=
  [(indentSizeKey, .integer 4), (tabSizeKey, .integer 4), (spacesForTabsKey, .boolean true),
    (indentStyleKey, .text "SMART")]

/-- The number of columns in a preference. -/
def columns (preferences : Preferences) (key : String) : Except OptionsError UInt32 :=
  let value := preferences.integer key
  if 0 ≤ value.toInt ∧ value.toInt < UInt32.size then
    .ok (.ofNat value.toInt.toNat)
  else
    .error (.invalidNumber key value)

/-- The settings in the preferences; lines end in a line feed. -/
def ofPreferences (preferences : Preferences) : Except OptionsError EditorOptions := do
  let indentSize ← columns preferences indentSizeKey
  let tabSize ← columns preferences tabSizeKey
  let indentStyle ← Choice.ofText (preferences.text indentStyleKey)
  pure
    { indentSize, tabSize, indentStyle
      spacesForTabs := preferences.boolean spacesForTabsKey }

/-- The settings with another ending of lines. -/
def withLineEnding (options : EditorOptions) (ending : LineEnding) : EditorOptions :=
  { options with newLine := ending.sequence }

open Json in
/-- The settings as they are sent to a service. -/
def record : Record EditorOptions where
  title := "EditorOptions"
  blank := {}
  fields :=
    [.required "IndentSize" .word32 (·.indentSize) fun indentSize options =>
        { options with indentSize },
      .required "TabSize" .word32 (·.tabSize) fun tabSize options => { options with tabSize },
      .required "NewLineCharacter" .string (·.newLine) fun newLine options =>
        { options with newLine },
      .required "ConvertTabsToSpaces" .boolean (·.spacesForTabs) fun spacesForTabs options =>
        { options with spacesForTabs },
      .required "IndentStyle" Choice.codec (·.indentStyle) fun indentStyle options =>
        { options with indentStyle }]

end EditorOptions

end TextEditing
