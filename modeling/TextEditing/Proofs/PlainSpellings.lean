/-
Module: TextEditing.Proofs.PlainSpellings
Purpose: Spelled values without entries, and how a spelled value is passed over.
Main exports: Spelling.null, Spelling.boolean, Spelling.string, Spelling.minusZero,
  Spelling.pass_tree
-/
import TextEditing.Proofs.Spellings

namespace TextEditing.Json

/-!
What follows a complete value does not belong to it, so the reader has come to the end of the value
before it stops there.  It cannot have met a defect on the way that would keep the value from being
passed over: such a defect ends all reading at once.
-/

namespace Spelling

/-- The literal for no value. -/
def null : Spelling where
  chars := ['n', 'u', 'l', 'l']
  tokens := [.null]
  tree := .null
  scans _ _ := tokens_of_scan rfl rfl
  reads _ _ := rfl

/-- The literals for truth values. -/
def boolean (value : Bool) : Spelling where
  chars := if value then ['t', 'r', 'u', 'e'] else ['f', 'a', 'l', 's', 'e']
  tokens := [.boolean value]
  tree := .boolean value
  scans _ _ := by cases value <;> exact tokens_of_scan rfl rfl
  reads _ _ := rfl

/-- A string, with or without escapes. -/
def string (name : Name) : Spelling where
  chars := name.chars
  tokens := [.string name.name]
  tree := .string name.name
  scans rest _ := name.scans rest
  reads _ _ := rfl

/-- The numeral of zero with a minus sign. -/
def minusZero : Spelling where
  chars := ['-', '0']
  tokens := [numeralToken ⟨true, [0], none, none⟩]
  tree := (Numeral.mk true [0] none none).toTree
  scans _ h := tokens_of_scan rfl (scanNumeral_toDigits true 0 h)
  reads rest frames := by
    rw [numeralToken, Numeral.toTree]
    cases (Numeral.mk true [0] none none).value? <;> rfl

end Spelling

/-! ### Passing over a value -/

/-- A value that is complete can be passed over. -/
def Stage.Passable : Stage → Prop
  | .after tree => tree.pass = none
  | _ => True

/-- What stands in front of the rest of a text can be passed over. -/
def Parsed.Passable (parsed : Parsed) : Prop :=
  parsed.trailing = true → parsed.root.pass = none

/-- A complete value, or one with something behind it, can be passed over. -/
def Step.Passable : Step → Prop
  | .on stage _ => stage.Passable
  | .done parsed => parsed.Passable

/-- Where reading ends inside a value, nothing is said of the rest of the text. -/
theorem Frame.passable_abandon (defect : Defect) (value : Tree) (frames : List Frame) :
    (abandon defect value frames).Passable :=
  fun htrailing => absurd htrailing Bool.false_ne_true

namespace Step

theorem passable_value (token : Token) (frames : List Frame) : (value token frames).Passable := by
  cases token with
  | unsound scrap read pass =>
      cases pass with
      | none => exact rfl
      | some defect => exact Frame.passable_abandon _ _ _
  | null | boolean _ | number _ | string _ => exact rfl
  | openArray | openObject => exact trivial
  | closeArray | closeObject | colon | comma => exact Frame.passable_abandon _ _ _

theorem passable_key (token : Token) (members : List (Key × Tree)) (frames : List Frame) :
    (key token members frames).Passable := by
  unfold key
  split
  · exact trivial
  · exact trivial
  · exact Frame.passable_abandon _ _ _
  · exact Frame.passable_abandon _ _ _

theorem passable_separator (token : Token) (tree : Tree) (frame : Frame) (frames : List Frame) :
    (separator token tree frame frames).Passable := by
  unfold separator
  split
  · exact trivial
  · exact trivial
  · exact rfl
  · exact rfl
  · exact Frame.passable_abandon _ _ _

theorem passable_take (token : Token) {stage : Stage} (h : stage.Passable) (frames : List Frame) :
    (take token stage frames).Passable := by
  cases stage with
  | value => exact passable_value token frames
  | firstEntry =>
      rw [take]
      split
      · exact rfl
      · exact passable_value token _
  | firstKey =>
      rw [take]
      split
      · exact rfl
      · exact passable_key token _ _
  | key members => exact passable_key token members frames
  | colon members name =>
      rw [take]
      split
      · exact trivial
      · exact Frame.passable_abandon _ _ _
  | after tree =>
      cases frames with
      | nil => exact fun _ => h
      | cons frame frames => exact passable_separator token tree frame frames

end Step

theorem Parsed.passable_atEnd (stage : Stage) (frames : List Frame) :
    (atEnd stage frames).Passable := by
  intro htrailing
  cases stage with
  | after tree => cases frames <;> cases htrailing
  | _ => cases htrailing

theorem Parsed.passable_read (tokens : List Token) {stage : Stage} (h : stage.Passable)
    (frames : List Frame) : (read tokens stage frames).Passable := by
  induction tokens generalizing stage frames with
  | nil => exact passable_atEnd stage frames
  | cons token rest ih =>
      have hstep := Step.passable_take token h frames
      rw [read]
      cases htake : Step.take token stage frames with
      | on next others =>
          rw [htake] at hstep
          exact ih hstep others
      | done parsed =>
          rw [htake] at hstep
          exact hstep

/-- A spelled value can be passed over: it is read to its end, whatever follows. -/
theorem Spelling.pass_tree (spelling : Spelling) : spelling.tree.pass = none := by
  have hread := spelling.reads [.null] []
  have hstart : Stage.value.Passable := trivial
  have hpassable := Parsed.passable_read (spelling.tokens ++ [.null]) hstart []
  rw [hread] at hpassable
  exact hpassable rfl

end TextEditing.Json
