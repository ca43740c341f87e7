/-
Module: TextEditing.Buffer.Plain
Purpose: A string as a text buffer.
Main exports: Plain.position?, Plain.between?, the TextBuffer instance of String
-/
import TextEditing.Buffer.Basic

namespace TextEditing

namespace Plain

/-!
A string is stored as bytes, so a character offset is first turned into a position, by walking
from the start.  Positions of a string always lie on character boundaries: a cut made at one never
splits a character.
-/

/-- The position `n` characters further on, if the text is that long. -/
def advance? {text : String} (position : text.Pos) : Nat → Option text.Pos
  | 0 => some position
  | n + 1 =>
      if inside : position ≠ text.endPos then advance? (position.next inside) n else none

/-- The position in front of the character at `offset`, or the end of the text for its length. -/
def position? (text : String) (offset : Nat) : Option text.Pos :=
  advance? text.startPos offset

/-- The characters from one offset up to another. -/
def between? (text : String) (start stop : Nat) : Option String := do
  let before ← position? text start
  let after ← position? text stop
  if inOrder : before ≤ after then
    pure (text.slice before after inOrder).copy
  else
    none

/-- The text with the characters from one offset up to another replaced. -/
def spliced? (text : String) (start stop : Nat) (newText : String) : Option String := do
  let before ← position? text start
  let after ← position? text stop
  pure ((text.sliceTo before).copy ++ newText ++ (text.sliceFrom after).copy)

end Plain

instance : TextBuffer String where
  length text := text.length
  slice? text start length := do
    let stop ← Span.stop? ⟨start, length⟩
    Plain.between? text start stop
  replace text start length newText := do
    let stop ← stopWithin start length text.length
    match Plain.spliced? text start stop newText with
    | some spliced => .ok spliced
    | none => .error (.outOfBounds start stop text.length)
  contents text := text

end TextEditing
