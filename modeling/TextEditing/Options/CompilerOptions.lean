/-
Module: TextEditing.Options.CompilerOptions
Purpose: Settings of a compile request, all of them optional.
Main exports: CompilerFlag, CompilerText, CompilerOptions, CompilerOptions.ofPreferences,
  CompilerOptions.record
-/
import TextEditing.Options.Choices
import TextEditing.Options.Preferences
import TextEditing.Options.ProjectLayout

namespace TextEditing

/-- A compiler setting that is on or off. -/
inductive CompilerFlag where
  | allowNonTsExtensions
  | declaration
  | diagnostics
  | emitBom
  | emitDecoratorMetadata
  | experimentalAsyncFunctions
  | experimentalDecorators
  | help
  | init
  | inlineSourceMap
  | inlineSources
  | isolatedModules
  | listFiles
  | noEmit
  | noEmitHelpers
  | noEmitOnError
  | noErrorTruncation
  | noImplicitAny
  | noLib
  | noResolve
  | preserveConstEnums
  | removeComments
  | sourceMap
  | suppressExcessPropertyErrors
  | suppressImplicitAnyIndexErrors
  | version
  | watch
deriving Repr, Inhabited, DecidableEq

/-- The name of the setting for a service. -/
def CompilerFlag.name : CompilerFlag → String
  | allowNonTsExtensions => "allowNonTsExtensions"
  | declaration => "declaration"
  | diagnostics => "diagnostics"
  | emitBom => "emitBOM"
  | emitDecoratorMetadata => "emitDecoratorMetadata"
  | experimentalAsyncFunctions => "experimentalAsyncFunctions"
  | experimentalDecorators => "experimentalDecorators"
  | help => "help"
  | init => "init"
  | inlineSourceMap => "inlineSourceMap"
  | inlineSources => "inlineSources"
  | isolatedModules => "isolatedModules"
  | listFiles => "listFiles"
  | noEmit => "noEmit"
  | noEmitHelpers => "noEmitHelpers"
  | noEmitOnError => "noEmitOnError"
  | noErrorTruncation => "noErrorTruncation"
  | noImplicitAny => "noImplicitAny"
  | noLib => "noLib"
  | noResolve => "noResolve"
  | preserveConstEnums => "preserveConstEnums"
  | removeComments => "removeComments"
  | sourceMap => "sourceMap"
  | suppressExcessPropertyErrors => "suppressExcessPropertyErrors"
  | suppressImplicitAnyIndexErrors => "suppressImplicitAnyIndexErrors"
  | version => "version"
  | watch => "watch"

/-- The key of the setting in the preferences, if it is read from them. -/
def CompilerFlag.key? : CompilerFlag → Option String
  | declaration => some "compiler.declaration"
  | experimentalDecorators => some "compiler.experimentalDecorators"
  | inlineSourceMap => some "compiler.inlineSourceMap"
  | inlineSources => some "compiler.inlineSources"
  | noEmitOnError => some "compiler.noEmitOnError"
  | noImplicitAny => some "compiler.noImplicitAny"
  | noLib => some "compiler.noLib"
  | removeComments => some "compiler.removeComments"
  | sourceMap => some "compiler.sourceMap"
  | suppressExcessPropertyErrors => some "compiler.suppressExcessPropertyErrors"
  | suppressImplicitAnyIndexErrors => some "compiler.suppressImplicitAnyIndexErrors"
  | _ => none

/-- A compiler setting that holds a text. -/
inductive CompilerText where
  | charset
  | locale
  | mapRoot
  | out
  | outDir
  | outFile
  | project
  | rootDir
  | sourceRoot
deriving Repr, Inhabited, DecidableEq

/-- The name of the setting for a service. -/
def CompilerText.name : CompilerText → String
  | charset => "charset"
  | locale => "locale"
  | mapRoot => "mapRoot"
  | out => "out"
  | outDir => "outDir"
  | outFile => "outFile"
  | project => "project"
  | rootDir => "rootDir"
  | sourceRoot => "sourceRoot"

/-- Settings of a compile request.  Only those that are set are sent. -/
structure CompilerOptions where
  flags : CompilerFlag → Option Bool := fun _ => none
  texts : CompilerText → Option String := fun _ => none
  jsx : Option JsxEmit := none
  moduleKind : Option ModuleKind := none
  moduleResolution : Option ModuleResolution := none
  newLine : Option LineEnding := none
  target : Option ScriptTarget := none
deriving Inhabited

namespace CompilerOptions

/-- Sets a flag, or unsets it. -/
def setFlag (flag : CompilerFlag) (value : Option Bool) (options : CompilerOptions) :
    CompilerOptions :=
  { options with flags := fun other => if other = flag then value else options.flags other }

/-- Sets a text, or unsets it. -/
def setText (text : CompilerText) (value : Option String) (options : CompilerOptions) :
    CompilerOptions :=
  { options with texts := fun other => if other = text then value else options.texts other }

/-- The key of the treatment of JSX. -/
def jsxKey : String := "compiler.jsx"

/-- The key of the module system. -/
def moduleKey : String := "compiler.module"

/-- The key of the version that is put out. -/
def targetKey : String := "compiler.target"

/-- The key of the folder for the output. -/
def outDirKey : String := "compiler.outDir"

/-- The key of the one file that all output goes to. -/
def outFileKey : String := "compiler.outFile"

/-- The defaults to be registered. -/
def registered : List (String × Preference) :=
  [(jsxKey, .text "NONE"), (moduleKey, .text "NONE"), (targetKey, .text "ES5"),
    (outDirKey, .text ""), (outFileKey, .text "")]

/-- Where the output goes: to a file in a folder, to a folder, or to no place of its own.  A file
without a folder stands in the container of the project. -/
def outputPlace (layout : ProjectLayout) (folder file : String) : Option (CompilerText × String) :=
  if file ≠ "" then
    let container := if folder = "" then layout.container else layout.folderContainer folder
    some (.out, container ++ file)
  else if folder ≠ "" then
    some (.outDir, layout.folderContainer folder)
  else
    none

/-- The settings in the preferences, for a project.  Modules are always found in the classic
way. -/
def ofPreferences (preferences : Preferences) (layout : ProjectLayout) :
    Except OptionsError CompilerOptions := do
  let jsx : JsxEmit ← Choice.ofText (preferences.text jsxKey)
  let moduleKind : ModuleKind ← Choice.ofText (preferences.text moduleKey)
  let target : ScriptTarget ← Choice.ofText (preferences.text targetKey)
  let place := outputPlace layout (trimmed (preferences.text outDirKey))
    (trimmed (preferences.text outFileKey))
  pure
    { flags := fun flag => flag.key?.map preferences.boolean
      texts := fun text => (place.filter (·.1 = text)).map (·.2)
      jsx := some jsx
      moduleKind := some moduleKind
      moduleResolution := some .classic
      target := some target }

open Json

/-- The member that holds a flag. -/
def flagField (flag : CompilerFlag) : RecordField CompilerOptions :=
  .optional flag.name .boolean (·.flags flag) (setFlag flag)

/-- The member that holds a text. -/
def textField (text : CompilerText) : RecordField CompilerOptions :=
  .optional text.name .string (·.texts text) (setText text)

/-- The settings as JSON objects. -/
def record : Record CompilerOptions where
  title := "CompilerOptions"
  blank := {}
  fields :=
    [flagField .allowNonTsExtensions,
      textField .charset,
      flagField .declaration,
      flagField .diagnostics,
      flagField .emitBom,
      flagField .emitDecoratorMetadata,
      flagField .experimentalAsyncFunctions,
      flagField .experimentalDecorators,
      flagField .help,
      flagField .init,
      flagField .inlineSourceMap,
      flagField .inlineSources,
      flagField .isolatedModules,
      .optional "jsx" Choice.codec (·.jsx) fun jsx options =>
        { options with jsx },
      flagField .listFiles,
      textField .locale,
      textField .mapRoot,
      .optional "module" Choice.codec (·.moduleKind) fun moduleKind options =>
        { options with moduleKind },
      .optional "moduleResolution" Choice.codec (·.moduleResolution) fun moduleResolution options =>
        { options with moduleResolution },
      .optional "newLine" Choice.codec (·.newLine) fun newLine options =>
        { options with newLine },
      flagField .noEmit,
      flagField .noEmitHelpers,
      flagField .noEmitOnError,
      flagField .noErrorTruncation,
      flagField .noImplicitAny,
      flagField .noLib,
      flagField .noResolve,
      textField .out,
      textField .outDir,
      textField .outFile,
      flagField .preserveConstEnums,
      textField .project,
      flagField .removeComments,
      textField .rootDir,
      flagField .sourceMap,
      textField .sourceRoot,
      flagField .suppressExcessPropertyErrors,
      flagField .suppressImplicitAnyIndexErrors,
      .optional "target" Choice.codec (·.target) fun target options =>
        { options with target },
      flagField .version,
      flagField .watch]

end CompilerOptions

end TextEditing
