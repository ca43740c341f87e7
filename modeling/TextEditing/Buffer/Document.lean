/-
Module: TextEditing.Buffer.Document
Purpose: Documents: a rope with a modification stamp and a guard against changes.
Main exports: Document, Document.ofString, Document.setReadOnly, the TextBuffer instance
-/
import TextEditing.Buffer.Rope

namespace TextEditing

/-- A text with the number of replacements made on it, and a guard. -/
structure Document where
  rope : Rope
  version : Nat
  readOnly : Bool
deriving Inhabited

namespace Document

/-- The highest stamp; a document that reaches it keeps it. -/
def maxVersion : Nat := 0xFFFFFFFFFFFFFFFF

/-- A writable document on which nothing has been replaced yet. -/
def ofString (text : String) : Document := ⟨.ofString text, 0, false⟩

/-- The text of the document. -/
def text (document : Document) : String := document.rope.toString

/-- Sets or lifts the guard. -/
def setReadOnly (document : Document) (on : Bool) : Document :=
  { document with readOnly := on }

/-- The same document with another text, stamped as one replacement further. -/
def stamp (document : Document) (rope : Rope) : Document :=
  { document with rope, version := min (document.version + 1) maxVersion }

end Document

instance : TextBuffer Document where
  length document := document.rope.length
  slice? document := TextBuffer.slice? document.rope
  replace document start length newText :=
    if document.readOnly then
      .error .readOnly
    else
      (TextBuffer.replace document.rope start length newText).map document.stamp
  contents document := document.text

end TextEditing
