/-
Module: TextEditing.Json.Failure
Purpose: Why a JSON text or value could not be decoded, and the wording of it.
Main exports: DecodeError, Head.description, DecodeError.message?
-/
import TextEditing.Json.Tree
import TextEditing.Text.Quoted

namespace TextEditing.Json

/-- What was found in the place of a wanted value. -/
inductive Found where
  | null
  | boolean (value : Bool)
  | number (value : Number)
  | string (value : String)
  | array
  | object
deriving Repr, Inhabited, DecidableEq

/-- The name of what was found, with its value if it is a single token. -/
def Found.description : Found → String
  | .null => "null"
  | .boolean value => "boolean `" ++ (if value then "true" else "false") ++ "`"
  | .number (.natural n) => "integer `" ++ toString n ++ "`"
  | .number (.negative n) => "integer `-" ++ toString n ++ "`"
  | .number (.double x) => "floating point `" ++ doubleText x ++ "`"
  | .string value => "string " ++ Quoted.text value
  | .array => "sequence"
  | .object => "map"

/-- Why something could not be decoded. -/
inductive DecodeError where
  /-- The text is not JSON. -/
  | malformed (defect : Defect)
  /-- A value of another kind stands there. -/
  | wrongKind (found : Found) (expected : String)
  /-- The value is of the right kind but out of range. -/
  | wrongValue (found : Found) (expected : String)
  /-- An array has another number of entries. -/
  | wrongLength (length : Nat) (expected : String)
  /-- A number stands for none of the choices; `choices` are the numbers that do. -/
  | unlisted (number : Nat) (choices : List Nat)
  /-- A name stands for none of the choices. -/
  | unknownChoice (name : String) (choices : List String)
  | missingField (name : String)
  | duplicateField (name : String)
deriving Repr, Inhabited, DecidableEq

namespace DecodeError

/-- The alternatives of a choice between numbers. -/
def numberChoices : List Nat → String
  | [a, b] => toString a ++ " or " ++ toString b
  | choices => "one of: " ++ ", ".intercalate (choices.map toString)

/-- The alternatives of a choice between names. -/
def nameChoices (choices : List String) : String :=
  match choices.map fun name => "`" ++ name ++ "`" with
  | [a, b] => a ++ " or " ++ b
  | names => "one of " ++ ", ".intercalate names

/-- The wording of an error about a text that is JSON so far.  Malformed texts have none. -/
def message? : DecodeError → Option String
  | malformed _ => none
  | wrongKind found expected =>
      some ("invalid type: " ++ found.description ++ ", expected " ++ expected)
  | wrongValue found expected =>
      some ("invalid value: " ++ found.description ++ ", expected " ++ expected)
  | wrongLength length expected =>
      some ("invalid length " ++ toString length ++ ", expected " ++ expected)
  | unlisted number choices =>
      some ("invalid value: " ++ toString number ++ ", expected " ++ numberChoices choices)
  | unknownChoice name choices =>
      some ("unknown variant `" ++ name ++ "`, expected " ++ nameChoices choices)
  | missingField name => some ("missing field `" ++ name ++ "`")
  | duplicateField name => some ("duplicate field `" ++ name ++ "`")

end DecodeError

/-- A value of the given kind stands where another one is wanted. -/
def Head.unexpected (expected : String) : Head → DecodeError
  | .null => .wrongKind .null expected
  | .boolean value => .wrongKind (.boolean value) expected
  | .number value => .wrongKind (.number value) expected
  | .string value => .wrongKind (.string value) expected
  | .array => .wrongKind .array expected
  | .object => .wrongKind .object expected
  | .defective defect => .malformed defect

end TextEditing.Json
