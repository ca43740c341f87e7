/-
Module: TextEditing.Options.FormatOptions
Purpose: Settings of a formatting request: white space, and rules to be switched on.
Main exports: FormatRule, FormatRule.key, FormatOptions, FormatOptions.ofPreferences,
  FormatOptions.withLineEnding, FormatOptions.codec
-/
import TextEditing.Json.Flattened
import TextEditing.Options.EditorOptions

namespace TextEditing

/-- A formatting rule that can be switched on. -/
inductive FormatRule where
  /-- `f(a,b)` becomes `f(a, b)`. -/
  | spaceAfterComma
  /-- A space stands after each semicolon in the head of a loop. -/
  | spaceAfterSemicolon
  /-- `a+b` becomes `a + b`. -/
  | spaceAroundOperator
  /-- `if(x)` becomes `if (x)`. -/
  | spaceAfterKeyword
  /-- `function()` becomes `function ()`. -/
  | spaceAfterFunction
  /-- `(a)` becomes `( a )`. -/
  | spaceInsideParentheses
  /-- The body of a function opens on a line of its own. -/
  | functionBraceBelow
  /-- A control block opens on a line of its own. -/
  | blockBraceBelow
deriving Repr, Inhabited, DecidableEq

namespace FormatRule

/-- Every rule, in the order of the messages about missing ones. -/
def all : List FormatRule :=
  [spaceAfterComma, spaceAfterSemicolon, spaceAroundOperator, spaceAfterKeyword,
    spaceAfterFunction, spaceInsideParentheses, functionBraceBelow, blockBraceBelow]

theorem mem_all (rule : FormatRule) : rule ∈ all := by
  cases rule <;> decide

/-- The name of the rule for a service. -/
def name : FormatRule → String
  | spaceAfterComma => "InsertSpaceAfterCommaDelimiter"
  | spaceAfterSemicolon => "InsertSpaceAfterSemicolonInForStatements"
  | spaceAroundOperator => "InsertSpaceBeforeAndAfterBinaryOperators"
  | spaceAfterKeyword => "InsertSpaceAfterKeywordsInControlFlowStatements"
  | spaceAfterFunction => "InsertSpaceAfterFunctionKeywordForAnonymousFunctions"
  | spaceInsideParentheses => "InsertSpaceAfterOpeningAndBeforeClosingNonemptyParenthesis"
  | functionBraceBelow => "PlaceOpenBraceOnNewLineForFunctions"
  | blockBraceBelow => "PlaceOpenBraceOnNewLineForControlBlocks"

/-- The key of the rule in the preferences. -/
def key : FormatRule → String
  | spaceAfterComma => "formatter.insertSpaceAfterCommaDelimiter"
  | spaceAfterSemicolon => "formatter.insertSpaceAfterSemicolonInForStatements"
  | spaceAroundOperator => "formatter.insertSpaceBeforeAndAfterBinaryOperators"
  | spaceAfterKeyword => "formatter.insertSpaceAfterKeywordsInControlFlowStatements"
  | spaceAfterFunction => "formatter.insertSpaceAfterFunctionKeywordForAnonymousFunctions"
  | spaceInsideParentheses =>
      "formatter.insertSpaceAfterOpeningAndBeforeClosingNonemptyParenthesis"
  | functionBraceBelow => "formatter.placeOpenBraceOnNewLineForFunctions"
  | blockBraceBelow => "formatter.placeOpenBraceOnNewLineForControlBlocks"

/-- The rules that are on by default. -/
def standard : FormatRule → Bool
  | spaceAfterComma | spaceAfterSemicolon | spaceAroundOperator | spaceAfterKeyword => true
  | spaceAfterFunction | spaceInsideParentheses | functionBraceBelow | blockBraceBelow => false

end FormatRule

/-- Settings of a formatting request. -/
structure FormatOptions where
  editor : EditorOptions := {}
  /-- The rules that are on. -/
  rules : FormatRule → Bool := fun _ => false
deriving Inhabited

namespace FormatOptions

/-- Switches a rule on or off. -/
def setRule (rule : FormatRule) (on : Bool) (options : FormatOptions) : FormatOptions :=
  { options with rules := fun other => if other = rule then on else options.rules other }

/-- The defaults to be registered. -/
def registered : List (String × Preference) :=
  FormatRule.all.map fun rule => (rule.key, .boolean rule.standard)

/-- The settings in the preferences. -/
def ofPreferences (preferences : Preferences) : Except OptionsError FormatOptions := do
  let editor ← EditorOptions.ofPreferences preferences
  pure { editor, rules := fun rule => preferences.boolean rule.key }

/-- The settings with another ending of lines. -/
def withLineEnding (options : FormatOptions) (ending : LineEnding) : FormatOptions :=
  { options with editor := options.editor.withLineEnding ending }

open Json in
/-- The settings as they are sent to a service, the white space settings among the rules. -/
def record : Flattened FormatOptions EditorOptions where
  whole :=
    { title := "FormatCodeOptions"
      blank := {}
      fields := FormatRule.all.map fun rule =>
        .required rule.name .boolean (·.rules rule) (setRule rule) }
  part := EditorOptions.record
  getPart := (·.editor)
  setPart editor options := { options with editor }

/-- The settings as JSON objects. -/
def codec : Json.Codec FormatOptions := record.codec

end FormatOptions

end TextEditing
