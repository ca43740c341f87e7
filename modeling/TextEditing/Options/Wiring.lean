/-
Module: TextEditing.Options.Wiring
Purpose: Which keys of the preferences each part of the options comes from.
Main exports: Toggle, Wiring, Wiring.Sound, FormatOptions.Part, FormatOptions.wiring,
  CompilerOptions.Part, CompilerOptions.wiring
-/
import TextEditing.Options.History

namespace TextEditing

/-!
Options are made of parts, and every part is read from keys of its own.  A change at a key therefore
shows in no part but the one that is read from the key.  Only the file and the folder of the output of
a compiler are read from two keys, which they have in common.

The keys and the parts that are on or off are written out here once more: this is what is to be read,
whatever the options are built from.
-/

/-- A part that is on or off. -/
structure Toggle (ρ π : Type) where
  part : π
  /-- Whether it is on, unless that is left open. -/
  get : ρ → Option Bool
  put : Bool → ρ → ρ

/-- The parts of options and the keys that they are read from. -/
structure Wiring (ρ π : Type) where
  /-- The part is the same in both options. -/
  Agree : π → ρ → ρ → Prop
  keys : π → List String
  /-- The parts that a key turns on and off. -/
  toggles : List (Toggle ρ π)

/-- Options are built as the wiring says. -/
structure Wiring.Sound {ρ π : Type} (wiring : Wiring ρ π)
    (build : Preferences → Except OptionsError ρ) : Prop where
  /-- There is nothing in the options beside the parts. -/
  ext : ∀ first second, (∀ part, wiring.Agree part first second) → first = second
  /-- A change at a key leaves the parts that are not read from it as they are. -/
  frame : ∀ preferences key change before after, build preferences = .ok before →
    build (Preferences.changed preferences key change) = .ok after →
      ∀ part, key ∉ wiring.keys part → wiring.Agree part before after
  /-- A change at a key that no part is read from makes no difference, not even to an error. -/
  unread : ∀ preferences key change, (∀ part, key ∉ wiring.keys part) →
    build (Preferences.changed preferences key change) = build preferences
  /-- A toggle has one key, and a truth value at this key is put into the options. -/
  toggled : ∀ toggle ∈ wiring.toggles, ∃ key, wiring.keys toggle.part = [key] ∧
    ∀ preferences value, build (Preferences.set preferences key (.boolean value)) =
      (build preferences).map (toggle.put value)
  /-- A truth value that is put into the options stands in its part and in no other one. -/
  exact : ∀ toggle ∈ wiring.toggles, ∀ value options,
    toggle.get (toggle.put value options) = some value ∧
      ∀ other, other ≠ toggle.part → wiring.Agree other options (toggle.put value options)
  /-- Options agree in the part of a toggle exactly if it shows the same in both. -/
  shows : ∀ toggle ∈ wiring.toggles, ∀ first second,
    wiring.Agree toggle.part first second ↔ toggle.get first = toggle.get second

namespace FormatOptions

/-- A part of the settings of a formatting request. -/
inductive Part where
  | indentSize
  | tabSize
  | newLine
  | spacesForTabs
  | indentStyle
  | rule (rule : FormatRule)
deriving Repr, DecidableEq

/-- The choice of spaces. -/
def spacesToggle : Toggle FormatOptions Part where
  part := .spacesForTabs
  get options := some options.editor.spacesForTabs
  put on options := { options with editor := { options.editor with spacesForTabs := on } }

/-- A rule that is on or off. -/
def ruleToggle (rule : FormatRule) : Toggle FormatOptions Part where
  part := .rule rule
  get options := some (options.rules rule)
  put := setRule rule

/-- Where the settings of a formatting request come from; the ending of lines does not depend on
preferences. -/
def wiring : Wiring FormatOptions Part where
  Agree part first second :=
    match part with
    | .indentSize => first.editor.indentSize = second.editor.indentSize
    | .tabSize => first.editor.tabSize = second.editor.tabSize
    | .newLine => first.editor.newLine = second.editor.newLine
    | .spacesForTabs => first.editor.spacesForTabs = second.editor.spacesForTabs
    | .indentStyle => first.editor.indentStyle = second.editor.indentStyle
    | .rule rule => first.rules rule = second.rules rule
  keys
    | .indentSize => ["editor.indentSize"]
    | .tabSize => ["tabWidth"]
    | .newLine => []
    | .spacesForTabs => ["spacesForTabs"]
    | .indentStyle => ["editor.indentStyle"]
    | .rule .spaceAfterComma => ["formatter.insertSpaceAfterCommaDelimiter"]
    | .rule .spaceAfterSemicolon => ["formatter.insertSpaceAfterSemicolonInForStatements"]
    | .rule .spaceAroundOperator => ["formatter.insertSpaceBeforeAndAfterBinaryOperators"]
    | .rule .spaceAfterKeyword => ["formatter.insertSpaceAfterKeywordsInControlFlowStatements"]
    | .rule .spaceAfterFunction =>
        ["formatter.insertSpaceAfterFunctionKeywordForAnonymousFunctions"]
    | .rule .spaceInsideParentheses =>
        ["formatter.insertSpaceAfterOpeningAndBeforeClosingNonemptyParenthesis"]
    | .rule .functionBraceBelow => ["formatter.placeOpenBraceOnNewLineForFunctions"]
    | .rule .blockBraceBelow => ["formatter.placeOpenBraceOnNewLineForControlBlocks"]
  toggles :=
    [spacesToggle, ruleToggle .spaceAfterComma, ruleToggle .spaceAfterSemicolon,
      ruleToggle .spaceAroundOperator, ruleToggle .spaceAfterKeyword,
      ruleToggle .spaceAfterFunction, ruleToggle .spaceInsideParentheses,
      ruleToggle .functionBraceBelow, ruleToggle .blockBraceBelow]

end FormatOptions

namespace CompilerOptions

/-- A part of the settings of a compile request. -/
inductive Part where
  | flag (flag : CompilerFlag)
  | text (text : CompilerText)
  | jsx
  | moduleKind
  | moduleResolution
  | newLine
  | target
deriving Repr, DecidableEq

/-- The file or the folder of the output. -/
def Part.isOutput : Part → Bool
  | .text .out | .text .outDir => true
  | _ => false

/-- A setting that is on or off. -/
def flagToggle (flag : CompilerFlag) : Toggle CompilerOptions Part where
  part := .flag flag
  get options := options.flags flag
  put on := setFlag flag (some on)

/-- Where the settings of a compile request come from; the others do not depend on preferences. -/
def wiring : Wiring CompilerOptions Part where
  Agree part first second :=
    match part with
    | .flag flag => first.flags flag = second.flags flag
    | .text text => first.texts text = second.texts text
    | .jsx => first.jsx = second.jsx
    | .moduleKind => first.moduleKind = second.moduleKind
    | .moduleResolution => first.moduleResolution = second.moduleResolution
    | .newLine => first.newLine = second.newLine
    | .target => first.target = second.target
  keys
    | .flag .declaration => ["compiler.declaration"]
    | .flag .experimentalDecorators => ["compiler.experimentalDecorators"]
    | .flag .inlineSourceMap => ["compiler.inlineSourceMap"]
    | .flag .inlineSources => ["compiler.inlineSources"]
    | .flag .noEmitOnError => ["compiler.noEmitOnError"]
    | .flag .noImplicitAny => ["compiler.noImplicitAny"]
    | .flag .noLib => ["compiler.noLib"]
    | .flag .removeComments => ["compiler.removeComments"]
    | .flag .sourceMap => ["compiler.sourceMap"]
    | .flag .suppressExcessPropertyErrors => ["compiler.suppressExcessPropertyErrors"]
    | .flag .suppressImplicitAnyIndexErrors => ["compiler.suppressImplicitAnyIndexErrors"]
    | .text .out | .text .outDir => ["compiler.outDir", "compiler.outFile"]
    | .jsx => ["compiler.jsx"]
    | .moduleKind => ["compiler.module"]
    | .target => ["compiler.target"]
    | _ => []
  toggles :=
    [flagToggle .declaration, flagToggle .experimentalDecorators, flagToggle .inlineSourceMap,
      flagToggle .inlineSources, flagToggle .noEmitOnError, flagToggle .noImplicitAny,
      flagToggle .noLib, flagToggle .removeComments, flagToggle .sourceMap,
      flagToggle .suppressExcessPropertyErrors, flagToggle .suppressImplicitAnyIndexErrors]

end CompilerOptions

end TextEditing
