/-
Module: TextEditing.Proofs.StrippedEnds
Purpose: What is left of a text when characters are dropped at its ends.
Main exports: Bare, stripped_append, exists_stripped, stripped_of_bare, bare_stripped, stripped_map,
  isBlank_of_visible
-/
import Mathlib.Data.List.TakeWhile
import TextEditing.Text.Blank

namespace TextEditing

/-!
Dropping characters at the ends of a text leaves its bare core: the text is the core with characters
to be dropped on both sides of it.  The core does not depend on how many of them there are.
-/

/-- Neither the first nor the last character of the text is to be dropped. -/
structure Bare (drop : Char → Bool) (text : List Char) : Prop where
  first : ∀ c ∈ text.head?, drop c = false
  last : ∀ c ∈ text.getLast?, drop c = false

theorem bare_iff {drop : Char → Bool} {text : List Char} :
    Bare drop text ↔ (text.head?.any drop || text.getLast?.any drop) = false := by
  rw [Bool.or_eq_false_iff, Option.any_eq_false, Option.any_eq_false]
  exact ⟨fun h => ⟨h.first, h.last⟩, fun h => ⟨h.1, h.2⟩⟩

instance (drop : Char → Bool) (text : List Char) : Decidable (Bare drop text) :=
  decidable_of_iff _ bare_iff.symm

section

variable {drop : Char → Bool} {lead text trail : List Char}

theorem Bare.reverse (h : Bare drop text) : Bare drop text.reverse where
  first := by simpa using h.last
  last := by simpa using h.first

/-- A text of which no character is to be dropped. -/
theorem Bare.of_forall (h : ∀ c ∈ text, drop c = false) : Bare drop text where
  first c hc := h c (List.mem_of_head? hc)
  last c hc := h c (List.mem_of_getLast? hc)

theorem head?_append_not {first second : List Char} (hfirst : ∀ c ∈ first.head?, drop c = false)
    (hsecond : ∀ c ∈ second.head?, drop c = false) :
    ∀ c ∈ (first ++ second).head?, drop c = false := by
  cases first with
  | nil => exact hsecond
  | cons c rest => exact hfirst

/-- What is not to be dropped may be put around a text. -/
theorem Bare.append {first second : List Char} (hfirst : Bare drop first)
    (hsecond : Bare drop second) : Bare drop (first ++ second) where
  first := head?_append_not hfirst.first hsecond.first
  last := by
    have hlast := head?_append_not hsecond.reverse.first hfirst.reverse.first
    rwa [← List.reverse_append, List.head?_reverse] at hlast

theorem dropWhile_eq_self (h : ∀ c ∈ text.head?, drop c = false) : text.dropWhile drop = text := by
  cases text with
  | nil => rfl
  | cons c rest =>
      have hc : drop c = false := h c rfl
      simp [hc]

theorem stripped_of_bare (h : Bare drop text) : stripped drop text = text := by
  unfold stripped
  rw [dropWhile_eq_self h.first, dropWhile_eq_self h.reverse.first, List.reverse_reverse]

theorem stripped_of_forall (h : ∀ c ∈ text, drop c = true) : stripped drop text = [] := by
  have hnone : text.dropWhile drop = [] := by simpa [List.dropWhile_eq_nil_iff] using h
  simp [stripped, hnone]

/-- What is to be dropped at the ends makes no difference. -/
theorem stripped_append (text : List Char) (hlead : ∀ c ∈ lead, drop c = true)
    (htrail : ∀ c ∈ trail, drop c = true) :
    stripped drop (lead ++ (text ++ trail)) = stripped drop text := by
  unfold stripped
  rw [List.dropWhile_append_of_pos hlead, List.dropWhile_append]
  cases hcore : text.dropWhile drop with
  | nil =>
      have hnone : trail.dropWhile drop = [] := by simpa [List.dropWhile_eq_nil_iff] using htrail
      simp [hnone]
  | cons c rest =>
      have hreverse : ∀ d ∈ trail.reverse, drop d = true := by simpa using htrail
      simp only [List.isEmpty_cons, Bool.false_eq_true, if_false, List.reverse_append]
      rw [List.dropWhile_append_of_pos hreverse]

theorem head?_dropWhile (text : List Char) : ∀ c ∈ (text.dropWhile drop).head?, drop c = false := by
  intro c hc
  have hstop := List.head?_dropWhile_not drop text
  rw [hc] at hstop
  simpa using hstop

/-- A text is its bare core with what is to be dropped on both sides. -/
theorem exists_stripped (drop : Char → Bool) (text : List Char) :
    ∃ lead trail, text = lead ++ (stripped drop text ++ trail) ∧ (∀ c ∈ lead, drop c = true) ∧
      (∀ c ∈ trail, drop c = true) ∧ Bare drop (stripped drop text) := by
  obtain ⟨rest, hrest⟩ : ∃ rest, rest = text.dropWhile drop := ⟨_, rfl⟩
  have hlead : text = text.takeWhile drop ++ rest := by
    rw [hrest, List.takeWhile_append_dropWhile]
  have htrail : rest = stripped drop text ++ (rest.reverse.takeWhile drop).reverse := by
    unfold stripped
    rw [← hrest, ← List.reverse_append, List.takeWhile_append_dropWhile, List.reverse_reverse]
  refine ⟨text.takeWhile drop, (rest.reverse.takeWhile drop).reverse, ?_, ?_, ?_, ?_, ?_⟩
  · rw [← htrail, ← hlead]
  · exact fun c hc => List.mem_takeWhile_imp hc
  · exact fun c hc => List.mem_takeWhile_imp (List.mem_reverse.1 hc)
  · -- The core stands in front of what is left behind the leading characters.
    intro c hc
    refine head?_dropWhile text c ?_
    rw [← hrest, htrail, List.head?_append, hc]
    rfl
  · intro c hc
    refine head?_dropWhile (text.dropWhile drop).reverse c ?_
    rw [← List.getLast?_reverse]
    exact hc

theorem bare_stripped (drop : Char → Bool) (text : List Char) : Bare drop (stripped drop text) := by
  obtain ⟨_, _, _, _, _, hbare⟩ := exists_stripped drop text
  exact hbare

theorem mem_of_mem_stripped {c : Char} (h : c ∈ stripped drop text) : c ∈ text := by
  obtain ⟨lead, trail, htext, _, _, _⟩ := exists_stripped drop text
  rw [htext]
  exact List.mem_append_right _ (List.mem_append_left _ h)

/-- A map that makes no difference to what is to be dropped may come before or after. -/
theorem stripped_map {change : Char → Char} (h : ∀ c, drop (change c) = drop c) (text : List Char) :
    stripped drop (text.map change) = (stripped drop text).map change := by
  have hsame : drop ∘ change = drop := funext h
  simp only [stripped, List.dropWhile_map, ← List.map_reverse, hsame]

end

/-- Visible characters below the second block of control characters are not blank. -/
theorem isBlank_of_visible {c : Char} (hlow : 0x20 < c.toNat) (hhigh : c.toNat < 0x85) :
    isBlank c = false := by
  simp [isBlank, blankRanges]
  omega

theorem trimmed_of_bare {text : String} (h : Bare isBlank text.toList) : trimmed text = text := by
  rw [trimmed, stripped_of_bare h, String.ofList_toList]

end TextEditing
