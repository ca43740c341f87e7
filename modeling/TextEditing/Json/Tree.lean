/-
Module: TextEditing.Json.Tree
Purpose: JSON texts as trees that keep the defects of the text in their places.
Main exports: Tree, Key, Tree.pass, Tree.head, Parsed, Parsed.ofText
-/
import TextEditing.Json.Token

namespace TextEditing.Json

/-!
A decoder goes through a text from left to right and stops at the first problem, be it a defect of
the text or a value of the wrong kind.  The tree of a text holds all that such a walk may meet: an
array or object has the entries that were begun and, unless it was closed properly, the defect met
behind them.  Whether a whole value can be passed over is written at its root, so the depth of
what lies below does not matter.

The reader keeps the arrays and objects still open on a stack and takes one token at a time.  At a
token that cannot be passed over it closes everything that is open with that defect.
-/

/-- The kind of a value, as its first token shows it. -/
inductive Head where
  | null
  | boolean (value : Bool)
  | number (value : Number)
  | string (value : String)
  | array
  | object
  /-- No value begins here, or an unsound one. -/
  | defective (defect : Defect)
deriving Repr, Inhabited, DecidableEq

/-- What stands in the place of a key. -/
inductive Key where
  | name (name : String)
  /-- A string that cannot be read, something other than a string, or nothing. -/
  | unsound (defect : Defect)
deriving Repr, Inhabited, DecidableEq

/-- A value of a JSON text. -/
inductive Tree where
  | null
  | boolean (value : Bool)
  | number (value : Number)
  | string (value : String)
  /-- The entries begun, and the defect behind the last one if there is no closing bracket. -/
  | array (entries : List Tree) (defect : Option Defect)
  /-- The members begun, and the defect behind the last one if there is no closing brace. -/
  | object (members : List (Key × Tree)) (defect : Option Defect)
  /-- An unsound token, or one that begins no value. -/
  | unsound (scrap : Scrap) (read : Defect) (pass : Option Defect)
  /-- The text ends where a value must stand. -/
  | missing
deriving Inhabited

namespace Tree

/-- The kind of the value. -/
def head : Tree → Head
  | null => .null
  | boolean value => .boolean value
  | number value => .number value
  | string value => .string value
  | array _ _ => .array
  | object _ _ => .object
  | unsound _ read _ => .defective read
  | missing => .defective .cutOff

/-- The defect met when the value is passed over. -/
def pass : Tree → Option Defect
  | array _ defect => defect
  | object _ defect => defect
  | unsound _ _ pass => pass
  | missing => some .cutOff
  | _ => none

end Tree

/-- A JSON text: its value, and whether something other than white space follows it. -/
structure Parsed where
  root : Tree
  trailing : Bool
deriving Inhabited

/-- An array or object that is still open, with the entries in front of the present one. -/
inductive Frame where
  | array (entries : List Tree)
  | object (members : List (Key × Tree)) (key : Key)

/-- What has to come next inside the innermost frame. -/
inductive Stage where
  /-- A value. -/
  | value
  /-- The first entry of an array, or its end. -/
  | firstEntry
  /-- The first key of an object, or its end. -/
  | firstKey
  /-- A key, behind these members. -/
  | key (members : List (Key × Tree))
  /-- The colon behind a key. -/
  | colon (members : List (Key × Tree)) (key : Key)
  /-- A comma or the end, behind a value. -/
  | after (value : Tree)

namespace Frame

/-- The array or object of a frame that ends with this value. -/
def close (value : Tree) (defect : Option Defect) : Frame → Tree
  | array entries => .array (value :: entries).reverse defect
  | object members key => .object ((key, value) :: members).reverse defect

/-- Closes all frames around a value at which reading ends. -/
def abandon (defect : Defect) (value : Tree) (frames : List Frame) : Parsed :=
  ⟨frames.foldl (fun value frame => frame.close value (some defect)) value, false⟩

end Frame

/-- What reading a token leads to: a stage with the frames then open, or the end of reading. -/
inductive Step where
  | on (stage : Stage) (frames : List Frame)
  | done (parsed : Parsed)

namespace Step

/-- The value is not complete, and reading ends inside it. -/
def abandon (defect : Defect) (value : Tree) (frames : List Frame) : Step :=
  .done (Frame.abandon defect value frames)

/-- Reading ends inside the object with the given members, the last one first. -/
def abandonObject (defect : Defect) (members : List (Key × Tree)) (frames : List Frame) : Step :=
  .done (Frame.abandon defect (.object members.reverse (some defect)) frames)

/-- Takes the token in the place of a value. -/
def value (token : Token) (frames : List Frame) : Step :=
  match token with
  | .null => .on (.after .null) frames
  | .boolean value => .on (.after (.boolean value)) frames
  | .number value => .on (.after (.number value)) frames
  | .string value => .on (.after (.string value)) frames
  | .openArray => .on .firstEntry frames
  | .openObject => .on .firstKey frames
  | .unsound scrap read none => .on (.after (.unsound scrap read none)) frames
  | .unsound scrap read (some pass) => abandon pass (.unsound scrap read (some pass)) frames
  | .closeArray | .closeObject | .colon | .comma =>
      abandon .illFormed (.unsound .other .illFormed (some .illFormed)) frames

/-- Takes the token in the place of a key. -/
def key (token : Token) (members : List (Key × Tree)) (frames : List Frame) : Step :=
  match token with
  | .string name => .on (.colon members (.name name)) frames
  | .unsound .string read none => .on (.colon members (.unsound read)) frames
  | .unsound .string read (some pass) =>
      abandonObject pass ((.unsound read, .missing) :: members) frames
  | _ => abandonObject .illFormed ((.unsound .illFormed, .missing) :: members) frames

/-- Takes the token behind the value of a frame. -/
def separator (token : Token) (value : Tree) (frame : Frame) (frames : List Frame) : Step :=
  match token, frame with
  | .comma, .array entries => .on .value (.array (value :: entries) :: frames)
  | .comma, .object members key => .on (.key ((key, value) :: members)) frames
  | .closeArray, .array _ => .on (.after (frame.close value none)) frames
  | .closeObject, .object _ _ => .on (.after (frame.close value none)) frames
  | _, _ => abandon .illFormed (frame.close value (some .illFormed)) frames

/-- Takes one token. -/
def take (token : Token) : Stage → List Frame → Step
  | .value, frames => value token frames
  | .firstEntry, frames =>
      if token = .closeArray then .on (.after (.array [] none)) frames
      else value token (.array [] :: frames)
  | .firstKey, frames =>
      if token = .closeObject then .on (.after (.object [] none)) frames
      else key token [] frames
  | .key members, frames => key token members frames
  | .colon members key, frames =>
      if token = .colon then .on .value (.object members key :: frames)
      else
        abandonObject .illFormed
          ((key, .unsound .other .illFormed (some .illFormed)) :: members) frames
  | .after value, [] => .done ⟨value, true⟩
  | .after value, frame :: frames => separator token value frame frames

end Step

namespace Parsed

/-- The text ends at a stage. -/
def atEnd : Stage → List Frame → Parsed
  | .value, frames => Frame.abandon .cutOff .missing frames
  | .firstEntry, frames => Frame.abandon .cutOff (.array [] (some .cutOff)) frames
  | .firstKey, frames => inObject [(.unsound .cutOff, .missing)] frames
  | .key members, frames => inObject ((.unsound .cutOff, .missing) :: members) frames
  | .colon members key, frames => inObject ((key, .missing) :: members) frames
  | .after value, [] => ⟨value, false⟩
  | .after value, frame :: frames =>
      Frame.abandon .cutOff (frame.close value (some .cutOff)) frames
where
  inObject (members : List (Key × Tree)) (frames : List Frame) : Parsed :=
    Frame.abandon .cutOff (.object members.reverse (some .cutOff)) frames

/-- Reads on from a stage, with the open frames from the innermost to the outermost. -/
def read : List Token → Stage → List Frame → Parsed
  | [], stage, frames => atEnd stage frames
  | token :: rest, stage, frames =>
      match Step.take token stage frames with
      | .on stage frames => read rest stage frames
      | .done parsed => parsed

/-- The tree of a text. -/
def ofText (text : String) : Parsed :=
  read (tokens text.toList) .value []

end Parsed

end TextEditing.Json
