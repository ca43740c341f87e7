/-
Module: TextEditing.Json.Codec
Purpose: Decoding trees into typed data, and writing such data as values.
Main exports: Origin, Codec, Codec.boolean, Codec.string, Codec.natural, Codec.list, Codec.named,
  Codec.ofText, Codec.ofValue
-/
import TextEditing.Json.Failure
import TextEditing.Json.Value

namespace TextEditing.Json

/-!
A codec says how data of a type is read from a tree and written as a value.  Reading reports the
first problem on the way through the tree from left to right.  A tree comes either straight from a
text or from a value in memory; the difference shows only where an array has more entries than are
wanted, because in a text the number of its entries is not yet known.
-/

/-- Where a tree comes from. -/
inductive Origin where
  | text
  | value
deriving Repr, Inhabited, DecidableEq

/-- The error of an array of this length that has more entries than are wanted. -/
def Origin.excess : Origin → Nat → DecodeError
  | .text, _ => .malformed .illFormed
  | .value, length => .wrongLength length "fewer elements in array"

/-- How data of a type is read and written. -/
structure Codec (α : Type) where
  read : Origin → Tree → Except DecodeError α
  write : α → Value

/-- Fails if there is a defect. -/
def refuse : Option Defect → Except DecodeError Unit
  | none => .ok ()
  | some defect => .error (.malformed defect)

namespace Codec

/-- Truth values. -/
def boolean : Codec Bool where
  read _ tree :=
    match tree with
    | .boolean value => .ok value
    | tree => .error (tree.head.unexpected "a boolean")
  write := .boolean

/-- Strings. -/
def string : Codec String where
  read _ tree :=
    match tree with
    | .string value => .ok value
    | tree => .error (tree.head.unexpected "a string")
  write := .string

/-- Integers from 0 up to a limit; `expected` names their type in messages. -/
def natural (limit : Nat) (expected : String) : Codec Nat where
  read _ tree :=
    match tree with
    | .number (.natural n) =>
        if n ≤ limit then .ok n else .error (.wrongValue (.number (.natural n)) expected)
    | .number (.negative n) => .error (.wrongValue (.number (.negative n)) expected)
    | tree => .error (tree.head.unexpected expected)
  write := .ofNat

/-- Integers of 32 bits without a sign. -/
def word32 : Codec UInt32 where
  read origin tree := ((natural 0xFFFFFFFF "u32").read origin tree).map .ofNat
  write n := .ofNat n.toNat

/-- The entries of an array. -/
def list {α : Type} (entry : Codec α) : Codec (List α) where
  read origin tree :=
    match tree with
    | .array entries defect => do
        let values ← entries.mapM (entry.read origin)
        refuse defect
        pure values
    | tree => .error (tree.head.unexpected "a sequence")
  write values := .array (values.map entry.write)

/-- The choice with the given name. -/
def choose {α : Type} (choices : List (String × α)) (name : String) : Except DecodeError α :=
  match choices.lookup name with
  | some choice => .ok choice
  | none => .error (.unknownChoice name (choices.map (·.1)))

/-- A choice given by its name, or by an object with the name as its only key and `null` for its
value.  Any other value counts as ill-formed. -/
def named {α : Type} (choices : List (String × α)) (name : α → String) : Codec α where
  read _ tree :=
    match tree with
    | .string text => choose choices text
    | .unsound .string read _ => .error (.malformed read)
    | .missing => .error (.malformed .cutOff)
    | .object ((.name text, value) :: others) defect => do
        let choice ← choose choices text
        match value with
        | .null => pure ()
        | value => .error (value.head.unexpected "unit")
        if others.isEmpty then refuse defect else refuse (some .illFormed)
        pure choice
    | .object ((.unsound defect, _) :: _) _ => .error (.malformed defect)
    | _ => .error (.malformed .illFormed)
  write choice := .string (name choice)

/-- A choice given by its number, at most 255. -/
def numbered {α : Type} (choices : List (Nat × α)) (number : α → Nat) : Codec α where
  read origin tree := do
    let n ← (natural 255 "u8").read origin tree
    match choices.lookup n with
    | some choice => pure choice
    | none => .error (.unlisted n (choices.map (·.1)))
  write choice := .ofNat (number choice)

/-- Reads a whole text. -/
def ofText {α : Type} (codec : Codec α) (text : String) : Except DecodeError α := do
  let parsed := Parsed.ofText text
  let data ← codec.read .text parsed.root
  if parsed.trailing then .error (.malformed .illFormed) else pure data

/-- Reads a value. -/
def ofValue {α : Type} (codec : Codec α) (value : Value) : Except DecodeError α :=
  codec.read .value value.toTree

end Codec

end TextEditing.Json
