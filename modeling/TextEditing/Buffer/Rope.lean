/-
Module: TextEditing.Buffer.Rope
Purpose: Texts as binary trees of chunks, so that a replacement copies chunks and not the text.
Main exports: Rope, Rope.ofString, Rope.toString, Rope.append, Rope.split, the TextBuffer
  instance of Rope
-/
import TextEditing.Buffer.Basic

namespace TextEditing

/-!
A rope is a tree with chunks of text at its leaves.  A join carries its weight, the number of
characters to its left, which tells in which half an offset lies.  That weights are right is part
of the type `Rope`; the trees themselves are in `Rope.Tree`.
-/

/-- Chunks joined in order. -/
inductive Rope.Tree where
  | chunk (text : String)
  | join (weight : Nat) (left right : Rope.Tree)
deriving Repr, Inhabited, DecidableEq

namespace Rope.Tree

/-- The text of the tree. -/
def text : Tree → String
  | chunk text => text
  | join _ left right => left.text ++ right.text

/-- The number of characters, read off the weights. -/
def length : Tree → Nat
  | chunk text => text.length
  | join weight _ right => weight + right.length

/-- Every join carries the length of its left half. -/
def Weighted : Tree → Prop
  | chunk _ => True
  | join weight left right => weight = left.text.length ∧ left.Weighted ∧ right.Weighted

/-- Joins two trees; an empty half adds nothing. -/
def append (left right : Tree) : Tree :=
  if left.length = 0 then right
  else if right.length = 0 then left
  else join left.length left right

/-- Cuts the tree in two; the first part holds the first `n` characters. -/
def split (n : Nat) : Tree → Tree × Tree
  | chunk text => (chunk (text.take n).copy, chunk (text.drop n).copy)
  | join weight left right =>
      if n ≤ weight then
        let (before, after) := left.split n
        (before, after.append right)
      else
        let (before, after) := right.split (n - weight)
        (left.append before, after)

theorem length_eq {tree : Tree} (h : tree.Weighted) : tree.length = tree.text.length := by
  induction tree with
  | chunk text => rfl
  | join weight left right _ ihr =>
    obtain ⟨hw, _, hr⟩ := h
    simp [length, text, hw, ihr hr]

theorem text_append {left right : Tree} (hl : left.Weighted) (hr : right.Weighted) :
    (left.append right).text = left.text ++ right.text := by
  unfold append
  split
  · rename_i h
    rw [length_eq hl, String.length_eq_zero_iff] at h
    simp [h]
  · split
    · rename_i h
      rw [length_eq hr, String.length_eq_zero_iff] at h
      simp [h]
    · rfl

theorem weighted_append {left right : Tree} (hl : left.Weighted) (hr : right.Weighted) :
    (left.append right).Weighted := by
  unfold append
  split
  · exact hr
  · split
    · exact hl
    · exact ⟨length_eq hl, hl, hr⟩

theorem weighted_split {tree : Tree} (h : tree.Weighted) (n : Nat) :
    (tree.split n).1.Weighted ∧ (tree.split n).2.Weighted := by
  induction tree generalizing n with
  | chunk text => exact ⟨trivial, trivial⟩
  | join weight left right ihl ihr =>
    obtain ⟨_, hl, hr⟩ := h
    simp only [Tree.split]
    split
    · exact ⟨(ihl hl n).1, weighted_append (ihl hl n).2 hr⟩
    · exact ⟨weighted_append hl (ihr hr _).1, (ihr hr _).2⟩

/-- The two parts of a cut hold the first `n` characters and the others. -/
theorem toList_text_split {tree : Tree} (h : tree.Weighted) (n : Nat) :
    (tree.split n).1.text.toList = tree.text.toList.take n ∧
      (tree.split n).2.text.toList = tree.text.toList.drop n := by
  induction tree generalizing n with
  | chunk text => simp [Tree.split, Tree.text]
  | join weight left right ihl ihr =>
    obtain ⟨hw, hl, hr⟩ := h
    have hlen : left.text.toList.length = weight := by rw [String.length_toList, hw]
    simp only [Tree.split]
    split
    · rename_i hn
      obtain ⟨h₁, h₂⟩ := ihl hl n
      rw [text_append (weighted_split hl n).2 hr]
      simp only [Tree.text, String.toList_append, h₁, h₂]
      constructor
      · rw [List.take_append_of_le_length (by omega)]
      · rw [List.drop_append_of_le_length (by omega)]
    · rename_i hn
      obtain ⟨h₁, h₂⟩ := ihr hr (n - weight)
      rw [text_append hl (weighted_split hr _).1]
      simp only [Tree.text, String.toList_append, h₁, h₂]
      constructor
      · have whole : left.text.toList.take n = left.text.toList :=
          List.take_of_length_le (by omega)
        rw [List.take_append, whole, hlen]
      · have nothing : left.text.toList.drop n = [] := List.drop_eq_nil_of_le (by omega)
        rw [List.drop_append, nothing, hlen, List.nil_append]

end Rope.Tree

/-- A text held as a tree of chunks. -/
structure Rope where
  tree : Rope.Tree
  weighted : tree.Weighted

namespace Rope

/-- The rope of a text, in one chunk. -/
def ofString (text : String) : Rope := ⟨.chunk text, trivial⟩

instance : Inhabited Rope := ⟨ofString ""⟩

/-- The text of the rope. -/
def toString (rope : Rope) : String := rope.tree.text

/-- The number of characters. -/
def length (rope : Rope) : Nat := rope.tree.length

/-- One rope after the other. -/
def append (left right : Rope) : Rope :=
  ⟨left.tree.append right.tree, Tree.weighted_append left.weighted right.weighted⟩

/-- The first `n` characters. -/
def take (rope : Rope) (n : Nat) : Rope :=
  ⟨(rope.tree.split n).1, (Tree.weighted_split rope.weighted n).1⟩

/-- All but the first `n` characters. -/
def drop (rope : Rope) (n : Nat) : Rope :=
  ⟨(rope.tree.split n).2, (Tree.weighted_split rope.weighted n).2⟩

@[simp] theorem toString_ofString (text : String) : (ofString text).toString = text := rfl

@[simp] theorem length_eq (rope : Rope) : rope.length = rope.toString.length :=
  Tree.length_eq rope.weighted

@[simp] theorem toString_append (left right : Rope) :
    (left.append right).toString = left.toString ++ right.toString :=
  Tree.text_append left.weighted right.weighted

@[simp] theorem toList_take (rope : Rope) (n : Nat) :
    (rope.take n).toString.toList = rope.toString.toList.take n :=
  (Tree.toList_text_split rope.weighted n).1

@[simp] theorem toList_drop (rope : Rope) (n : Nat) :
    (rope.drop n).toString.toList = rope.toString.toList.drop n :=
  (Tree.toList_text_split rope.weighted n).2

/-- The rope without the characters from one offset up to another. -/
def remove (rope : Rope) (start stop : Nat) : Rope :=
  (rope.take start).append (rope.drop stop)

/-- The rope with a text put in front of the character at `offset`. -/
def insert (rope : Rope) (offset : Nat) (newText : String) : Rope :=
  ((rope.take offset).append (ofString newText)).append (rope.drop offset)

end Rope

instance : TextBuffer Rope where
  length rope := rope.length
  slice? rope start length := do
    let stop ← Span.stop? ⟨start, length⟩
    if stop ≤ rope.length then
      pure ((rope.drop start).take length).toString
    else
      none
  replace rope start length newText := do
    let stop ← stopWithin start length rope.length
    let shortened := if 0 < length then rope.remove start stop else rope
    pure (if newText.isEmpty then shortened else shortened.insert start newText)

end TextEditing
