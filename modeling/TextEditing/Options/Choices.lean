/-
Module: TextEditing.Options.Choices
Purpose: The choices to be made for formatting and compiling.
Main exports: IndentStyle, JsxEmit, ModuleKind, ModuleResolution, LineEnding, ScriptTarget
-/
import TextEditing.Options.Choice

namespace TextEditing

/-- How new lines are indented. -/
inductive IndentStyle where
  /-- Not at all. -/
  | none
  /-- As the line before. -/
  | block
  /-- As the structure of the program asks for. -/
  | smart
deriving Repr, Inhabited, DecidableEq

instance : Choice IndentStyle where
  title := "indent style"
  members := [.none, .block, .smart]
  number
    | .none => 0
    | .block => 1
    | .smart => 2
  name
    | .none => "NONE"
    | .block => "BLOCK"
    | .smart => "SMART"
  spellings := [("NONE", .none), ("BLOCK", .block), ("SMART", .smart)]
  standard := .smart

/-- What becomes of JSX in the output. -/
inductive JsxEmit where
  /-- JSX is not allowed. -/
  | none
  | preserve
  /-- JSX becomes calls. -/
  | react
deriving Repr, Inhabited, DecidableEq

instance : Choice JsxEmit where
  title := "jsx emit"
  members := [.none, .preserve, .react]
  number
    | .none => 0
    | .preserve => 1
    | .react => 2
  name
    | .none => "NONE"
    | .preserve => "PRESERVE"
    | .react => "REACT"
  spellings := [("NONE", .none), ("PRESERVE", .preserve), ("REACT", .react)]
  standard := .none

/-- The module system of the output.  An empty name stands for none. -/
inductive ModuleKind where
  | none
  | commonJs
  | amd
  | umd
  | system
  | es2015
deriving Repr, Inhabited, DecidableEq

instance : Choice ModuleKind where
  title := "module kind"
  members := [.none, .commonJs, .amd, .umd, .system, .es2015]
  number
    | .none => 0
    | .commonJs => 1
    | .amd => 2
    | .umd => 3
    | .system => 4
    | .es2015 => 5
  name
    | .none => "NONE"
    | .commonJs => "COMMONJS"
    | .amd => "AMD"
    | .umd => "UMD"
    | .system => "SYSTEM"
    | .es2015 => "ES2015"
  spellings :=
    [("", .none), ("NONE", .none), ("COMMONJS", .commonJs), ("AMD", .amd), ("UMD", .umd),
      ("SYSTEM", .system), ("ES6", .es2015), ("ES2015", .es2015)]
  standard := .none

/-- How imported modules are found. -/
inductive ModuleResolution where
  | classic
  /-- In the folders of installed packages. -/
  | nodeJs
deriving Repr, Inhabited, DecidableEq

instance : Choice ModuleResolution where
  title := "module resolution kind"
  members := [.classic, .nodeJs]
  number
    | .classic => 1
    | .nodeJs => 2
  name
    | .classic => "CLASSIC"
    | .nodeJs => "NODE_JS"
  spellings := [("CLASSIC", .classic), ("NODE", .nodeJs), ("NODEJS", .nodeJs)]
  standard := .classic

/-- What ends a line. -/
inductive LineEnding where
  | crlf
  | lf
deriving Repr, Inhabited, DecidableEq

instance : Choice LineEnding where
  title := "newline kind"
  members := [.crlf, .lf]
  number
    | .crlf => 0
    | .lf => 1
  name
    | .crlf => "CRLF"
    | .lf => "LF"
  spellings :=
    [("CRLF", .crlf), ("CARRIAGERETURNLINEFEED", .crlf), ("LF", .lf), ("LINEFEED", .lf)]
  standard := .lf

namespace LineEnding

/-- The characters that end a line. -/
def sequence : LineEnding → String
  | crlf => "\r\n"
  | lf => "\n"

/-- Somewhere in the text a carriage return stands in front of a line feed. -/
def hasReturn : List Char → Bool
  | '\r' :: '\n' :: _ => true
  | _ :: rest => hasReturn rest
  | [] => false

/-- The ending in use in a text: one line feed with a carriage return in front of it decides. -/
def detect (text : String) : LineEnding :=
  if hasReturn text.toList then crlf else lf

end LineEnding

/-- The version of the language that is put out. -/
inductive ScriptTarget where
  | es3
  | es5
  /-- The latest one. -/
  | es2015
deriving Repr, Inhabited, DecidableEq

instance : Choice ScriptTarget where
  title := "script target"
  members := [.es3, .es5, .es2015]
  number
    | .es3 => 0
    | .es5 => 1
    | .es2015 => 2
  name
    | .es3 => "ES3"
    | .es5 => "ES5"
    | .es2015 => "ES2015"
  spellings :=
    [("ES3", .es3), ("ES5", .es5), ("ES6", .es2015), ("ES2015", .es2015), ("LATEST", .es2015)]
  standard := .es5

end TextEditing
