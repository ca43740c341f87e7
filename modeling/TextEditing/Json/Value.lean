/-
Module: TextEditing.Json.Value
Purpose: JSON values in memory, and their relation to the trees of texts.
Main exports: Value, Value.ofMembers, Tree.toValue, Value.ofText, Value.toTree
-/
import TextEditing.Dictionary
import TextEditing.Json.Tree

namespace TextEditing.Json

/-!
A value holds each key of an object once, in ascending order of code points; of several members
with one key the last counts.  The tree of a text becomes a value when it has no defect and its
arrays and objects nest at most `Value.maxDepth` deep.
-/

/-- A JSON value. -/
inductive Value where
  | null
  | boolean (value : Bool)
  | number (value : Number)
  | string (value : String)
  | array (entries : List Value)
  /-- Members in ascending order of their keys. -/
  | object (members : List (String × Value))
deriving Inhabited

namespace Value

/-- The integer from 0 to `2 ^ 64 - 1` as a value. -/
def ofNat (n : Nat) : Value := .number (.natural n)

/-- An integer of 64 bits as a value. -/
def ofInt (n : Int) : Value :=
  .number (if 0 ≤ n then .natural n.toNat else .negative n.natAbs)

/-- The object with the given members, the last of several with one key. -/
def ofMembers (members : List (String × Value)) : Value :=
  .object (Dictionary.ofList members).entries

/-- How deep arrays and objects may nest. -/
def maxDepth : Nat := 127

mutual

/-- The tree of a value, without any defect. -/
def toTree : Value → Tree
  | .null => .null
  | .boolean value => .boolean value
  | .number value => .number value
  | .string value => .string value
  | .array entries => .array (entriesToTrees entries) none
  | .object members => .object (membersToTrees members) none

/-- The trees of the entries of an array. -/
def entriesToTrees : List Value → List Tree
  | [] => []
  | value :: rest => value.toTree :: entriesToTrees rest

/-- The trees of the members of an object. -/
def membersToTrees : List (String × Value) → List (Key × Tree)
  | [] => []
  | (name, value) :: rest => (.name name, value.toTree) :: membersToTrees rest

end

end Value

/-- The name in the place of a key. -/
def Key.toName : Key → Except Defect String
  | .name text => .ok text
  | .unsound defect => .error defect

/-- The value of a tree whose arrays and objects nest at most `depth` deep; otherwise the first
defect from left to right, a bracket that nests too deep being one. -/
def Tree.toValue : Nat → Tree → Except Defect Value
  | _, .null => .ok .null
  | _, .boolean value => .ok (.boolean value)
  | _, .number value => .ok (.number value)
  | _, .string value => .ok (.string value)
  | _, .unsound _ read _ => .error read
  | _, .missing => .error .cutOff
  | 0, .array _ _ => .error .illFormed
  | 0, .object _ _ => .error .illFormed
  | depth + 1, .array entries defect => do
      let values ← entries.mapM (toValue depth)
      match defect with
      | some defect => .error defect
      | none => pure (.array values)
  | depth + 1, .object members defect => do
      let values ← members.mapM fun (key, tree) => do
        let name ← key.toName
        let value ← toValue depth tree
        pure (name, value)
      match defect with
      | some defect => .error defect
      | none => pure (Value.ofMembers values)

/-- The value of a text. -/
def Value.ofText (text : String) : Except Defect Value := do
  let parsed := Parsed.ofText text
  let value ← parsed.root.toValue maxDepth
  if parsed.trailing then .error .illFormed else pure value

end TextEditing.Json
