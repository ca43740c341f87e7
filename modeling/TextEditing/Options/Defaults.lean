/-
Module: TextEditing.Options.Defaults
Purpose: The defaults that all options are built on.
Main exports: Preferences.registerDefaults, Preferences.withDefaults
-/
import TextEditing.Options.CompilerOptions
import TextEditing.Options.FormatOptions

namespace TextEditing.Preferences

/-- The defaults of formatting and compiling. -/
def registered : List (String × Preference) :=
  EditorOptions.registered ++ FormatOptions.registered ++ CompilerOptions.registered

/-- Registers the defaults of formatting and compiling. -/
def registerDefaults (preferences : Preferences) : Preferences :=
  registered.foldl (fun preferences entry => preferences.setDefault entry.1 entry.2) preferences

/-- Preferences with all defaults and no values. -/
def withDefaults : Preferences := empty.registerDefaults

end TextEditing.Preferences
