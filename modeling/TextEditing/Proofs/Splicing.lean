/-
Module: TextEditing.Proofs.Splicing
Purpose: One replacement in a list, and many replacements at once.
Main exports: excerpt, splice, Patch, substitute, Range.Chain, substitute_cons, gaps, weave,
  substituteFrom_eq_weave, weave_gapsFrom, landings, gapsFrom_landings, map_excerpt_landings
-/
import TextEditing.Edit.Delta

namespace TextEditing

/-!
Patches that all refer to one list and follow one another in it are carried out at once by copying
what lies between them and writing each new text in its place.  The main fact, `substitute_cons`,
is that the same list results from making the replacements one at a time, from the last to the
first.

A list cut at ranges that follow one another falls into the gaps between them and the excerpts at
them.  Weaving gaps and pieces gives the list back, and carrying out patches is weaving the same
gaps with other pieces, so the result can be cut at the places where the new texts have landed.
-/

variable {α : Type}

/-- The items from `start` up to `stop`. -/
def excerpt (items : List α) (start stop : Nat) : List α :=
  (items.drop start).take (stop - start)

theorem length_excerpt {items : List α} (start : Nat) {stop : Nat} (h : stop ≤ items.length) :
    (excerpt items start stop).length = stop - start := by
  simp only [excerpt, List.length_take, List.length_drop]
  omega

theorem excerpt_append_drop {items : List α} {start stop : Nat} (h : start ≤ stop) :
    excerpt items start stop ++ items.drop stop = items.drop start := by
  have hdrop : items.drop stop = (items.drop start).drop (stop - start) := by
    rw [List.drop_drop, Nat.add_sub_cancel' h]
  rw [excerpt, hdrop, List.take_append_drop]

theorem excerpt_append_excerpt {items : List α} {a b c : Nat} (hab : a ≤ b) (hbc : b ≤ c) :
    excerpt items a b ++ excerpt items b c = excerpt items a c := by
  have hsplit : c - a = (b - a) + (c - b) := by omega
  have hdrop : items.drop b = (items.drop a).drop (b - a) := by
    rw [List.drop_drop, Nat.add_sub_cancel' hab]
  rw [excerpt, excerpt, excerpt, hsplit, List.take_add, hdrop]

theorem excerpt_zero (items : List α) (stop : Nat) : excerpt items 0 stop = items.take stop := by
  simp only [excerpt, List.drop_zero, Nat.sub_zero]

/-- The beginning of a list is read off what it begins with. -/
theorem excerpt_of_drop {items head tail : List α} {start : Nat}
    (h : items.drop start = head ++ tail) :
    excerpt items start (start + head.length) = head ∧
      items.drop (start + head.length) = tail := by
  constructor
  · rw [excerpt, h, Nat.add_sub_cancel_left, List.take_left]
  · rw [← List.drop_drop, h, List.drop_left]

/-- The list with the items from `start` up to `stop` replaced. -/
def splice (items : List α) (start stop : Nat) (put : List α) : List α :=
  items.take start ++ put ++ items.drop stop

theorem length_splice {items put : List α} {start stop : Nat} (horder : start ≤ stop)
    (h : stop ≤ items.length) :
    (splice items start stop put).length = items.length - (stop - start) + put.length := by
  simp only [splice, List.length_append, List.length_take, List.length_drop]
  omega

theorem excerpt_splice {items put : List α} {start stop : Nat} (h : start ≤ items.length) :
    excerpt (splice items start stop put) start (start + put.length) = put := by
  have hdrop : (splice items start stop put).drop start = put ++ items.drop stop := by
    rw [splice, List.append_assoc, List.drop_left' (List.length_take_of_le h)]
  exact (excerpt_of_drop hdrop).1

/-- What was taken out, put back in the place of what was put in, gives the list again. -/
theorem splice_excerpt_splice {items put : List α} {start stop : Nat} (horder : start ≤ stop)
    (h : stop ≤ items.length) :
    splice (splice items start stop put) start (start + put.length)
      (excerpt items start stop) = items := by
  have hstart : start ≤ items.length := Nat.le_trans horder h
  have hdrop : (splice items start stop put).drop start = put ++ items.drop stop := by
    rw [splice, List.append_assoc, List.drop_left' (List.length_take_of_le hstart)]
  have htake : (splice items start stop put).take start = items.take start := by
    rw [splice, List.append_assoc, List.take_left' (List.length_take_of_le hstart)]
  calc splice (splice items start stop put) start (start + put.length)
        (excerpt items start stop)
      = items.take start ++ (excerpt items start stop ++ items.drop stop) := by
        rw [splice, htake, (excerpt_of_drop hdrop).2, List.append_assoc]
    _ = items := by rw [excerpt_append_drop horder, List.take_append_drop]

/-- Puts `put` in the place of the items of a range. -/
structure Patch (α : Type) extends Range where
  put : List α

/-- Carries out patches that follow one another; what lies in front of `position` is done. -/
def substituteFrom (items : List α) (position : Nat) : List (Patch α) → List α
  | [] => items.drop position
  | patch :: rest =>
      excerpt items position patch.start ++ patch.put ++ substituteFrom items patch.stop rest

/-- Carries out patches that follow one another, all at once: every range refers to `items`. -/
def substitute (items : List α) (patches : List (Patch α)) : List α :=
  substituteFrom items 0 patches

/-- The ranges follow one another between `low` and `high`; they may touch. -/
def Range.Chain (low high : Nat) : List Range → Prop
  | [] => low ≤ high
  | range :: rest => low ≤ range.start ∧ range.start ≤ range.stop ∧ Chain range.stop high rest

namespace Range.Chain

theorem low_le_high {low high : Nat} {ranges : List Range} (h : Range.Chain low high ranges) :
    low ≤ high := by
  induction ranges generalizing low with
  | nil => exact h
  | cons range rest ih =>
      obtain ⟨hlow, horder, hrest⟩ := h
      have := ih hrest
      omega

theorem mono {low low' high : Nat} {ranges : List Range} (hle : low' ≤ low)
    (h : Range.Chain low high ranges) : Range.Chain low' high ranges := by
  cases ranges with
  | nil => exact Nat.le_trans hle h
  | cons range rest => exact ⟨Nat.le_trans hle h.1, h.2.1, h.2.2⟩

/-- Every range of a chain lies between its bounds. -/
theorem bounds {low high : Nat} {ranges : List Range} (h : Range.Chain low high ranges) :
    ∀ range ∈ ranges, low ≤ range.start ∧ range.start ≤ range.stop ∧ range.stop ≤ high := by
  induction ranges generalizing low with
  | nil => simp
  | cons range rest ih =>
      obtain ⟨hlow, horder, hrest⟩ := h
      intro other hother
      rcases List.mem_cons.1 hother with rfl | hmem
      · exact ⟨hlow, horder, hrest.low_le_high⟩
      · obtain ⟨h₁, h₂, h₃⟩ := ih hrest other hmem
        exact ⟨by omega, h₂, h₃⟩

/-- The ranges of a chain come in order and do not cross. -/
theorem pairwise {low high : Nat} {ranges : List Range} (h : Range.Chain low high ranges) :
    ranges.Pairwise fun a b => a.stop ≤ b.start := by
  induction ranges generalizing low with
  | nil => exact .nil
  | cons range rest ih =>
      exact .cons (fun other hother => (h.2.2.bounds other hother).1) (ih h.2.2)

/-- Ranges inside bounds that come in order and do not cross form a chain. -/
theorem of_pairwise {low high : Nat} {ranges : List Range} (hle : low ≤ high)
    (hin : ∀ range ∈ ranges,
      low ≤ range.start ∧ range.start ≤ range.stop ∧ range.stop ≤ high)
    (h : ranges.Pairwise fun a b => a.stop ≤ b.start) : Range.Chain low high ranges := by
  induction ranges generalizing low with
  | nil => exact hle
  | cons range rest ih =>
      obtain ⟨hfirst, hrest⟩ := List.pairwise_cons.1 h
      obtain ⟨hlow, horder, hstop⟩ := hin range List.mem_cons_self
      refine ⟨hlow, horder, ih hstop ?_ hrest⟩
      intro other hother
      exact ⟨hfirst other hother, (hin other (List.mem_cons_of_mem _ hother)).2⟩

/-- Ranges of a chain that all lie between closer bounds are a chain between these. -/
theorem narrow {low high low' high' : Nat} {ranges : List Range}
    (h : Range.Chain low high ranges) (hle : low' ≤ high')
    (hin : ∀ range ∈ ranges, low' ≤ range.start ∧ range.stop ≤ high') :
    Range.Chain low' high' ranges := by
  refine of_pairwise hle ?_ h.pairwise
  intro range hrange
  obtain ⟨hstart, hstop⟩ := hin range hrange
  exact ⟨hstart, (h.bounds range hrange).2.1, hstop⟩

end Range.Chain

/-- What lies in front of the first patch is copied. -/
theorem substituteFrom_eq_append (items : List α) {low position high : Nat}
    {patches : List (Patch α)} (hle : low ≤ position)
    (h : Range.Chain position high (patches.map Patch.toRange)) :
    substituteFrom items low patches =
      excerpt items low position ++ substituteFrom items position patches := by
  cases patches with
  | nil => exact (excerpt_append_drop hle).symm
  | cons patch rest =>
      simp only [substituteFrom, ← List.append_assoc]
      rw [excerpt_append_excerpt hle h.1]

/-- What lies behind the last patch is copied. -/
theorem exists_substituteFrom_eq_append {items : List α} {position high : Nat}
    {patches : List (Patch α)} (h : Range.Chain position high (patches.map Patch.toRange)) :
    ∃ middle, substituteFrom items position patches = middle ++ items.drop high := by
  induction patches generalizing position with
  | nil => exact ⟨excerpt items position high, (excerpt_append_drop h).symm⟩
  | cons patch rest ih =>
      obtain ⟨middle, hrest⟩ := ih h.2.2
      refine ⟨excerpt items position patch.start ++ patch.put ++ middle, ?_⟩
      rw [substituteFrom, hrest, List.append_assoc _ middle]

/-- Patches between two bounds leave alone what lies in front of the one and behind the other. -/
theorem exists_substitute_eq_append {items : List α} {low high : Nat} {patches : List (Patch α)}
    (h : Range.Chain low high (patches.map Patch.toRange)) :
    ∃ middle, substitute items patches = items.take low ++ middle ++ items.drop high := by
  obtain ⟨middle, hmiddle⟩ := exists_substituteFrom_eq_append h
  refine ⟨middle, ?_⟩
  rw [substitute, substituteFrom_eq_append items (Nat.zero_le low) h, excerpt_zero, hmiddle,
    List.append_assoc]

/-- The result holds at least the items in front of the first patch. -/
theorem le_length_substitute {items : List α} {position : Nat} {patches : List (Patch α)}
    (h : Range.Chain position items.length (patches.map Patch.toRange)) :
    position ≤ (substitute items patches).length := by
  rw [substitute, substituteFrom_eq_append items (Nat.zero_le position) h, List.length_append,
    length_excerpt 0 h.low_le_high]
  omega

/-- Up to the first patch the result reads as the list itself. -/
theorem excerpt_substitute {items : List α} {position start stop : Nat}
    {patches : List (Patch α)} (hle : stop ≤ position)
    (h : Range.Chain position items.length (patches.map Patch.toRange)) :
    excerpt (substitute items patches) start stop = excerpt items start stop := by
  have hlen := length_excerpt 0 h.low_le_high
  have htake : (substitute items patches).take position = items.take position := by
    rw [substitute, substituteFrom_eq_append items (Nat.zero_le position) h,
      List.take_left' (by omega), excerpt_zero]
  have hread (whole : List α) :
      excerpt whole start stop = ((whole.take position).drop start).take (stop - start) := by
    rw [excerpt, List.drop_take, List.take_take]
    congr 1
    omega
  rw [hread, htake, ← hread]

/-- The first of several patches may be carried out after all others: one replacement, at the
place that it names in the original list, finishes the substitution. -/
theorem substitute_cons {items : List α} {patch : Patch α} {rest : List (Patch α)}
    (h : Range.Chain 0 items.length ((patch :: rest).map Patch.toRange)) :
    substitute items (patch :: rest) =
      splice (substitute items rest) patch.start patch.stop patch.put := by
  obtain ⟨_, horder, hrest⟩ := h
  have hcopy := substituteFrom_eq_append items (Nat.zero_le patch.stop) hrest
  have hlen := length_excerpt 0 hrest.low_le_high
  have htake : (substitute items rest).take patch.start = items.take patch.start := by
    rw [← excerpt_zero, ← excerpt_zero, excerpt_substitute horder hrest]
  have hdrop :
      (substitute items rest).drop patch.stop = substituteFrom items patch.stop rest := by
    rw [substitute, hcopy, List.drop_left' (by omega)]
  rw [splice, htake, hdrop, substitute, substituteFrom, excerpt_zero]

/-!
### Cutting and weaving
-/

/-- What lies between the ranges, from `position` to the end of the list. -/
def gapsFrom (items : List α) (position : Nat) : List Range → List (List α)
  | [] => [items.drop position]
  | range :: rest => excerpt items position range.start :: gapsFrom items range.stop rest

/-- What lies in front of the first range, between consecutive ranges, and behind the last. -/
def gaps (items : List α) (ranges : List Range) : List (List α) :=
  gapsFrom items 0 ranges

/-- Gaps and pieces in turn. -/
def weave : List (List α) → List (List α) → List α
  | gap :: others, piece :: pieces => gap ++ piece ++ weave others pieces
  | others, _ => others.flatten

/-- Carrying out patches is weaving the gaps with the new texts. -/
theorem substituteFrom_eq_weave (items : List α) (position : Nat) (patches : List (Patch α)) :
    substituteFrom items position patches =
      weave (gapsFrom items position (patches.map Patch.toRange)) (patches.map Patch.put) := by
  induction patches generalizing position with
  | nil => exact (List.append_nil _).symm
  | cons patch rest ih =>
      simp only [substituteFrom, List.map_cons, gapsFrom, weave, ih]

/-- A list is woven of its gaps and of what its ranges hold. -/
theorem weave_gapsFrom {items : List α} {position : Nat} {ranges : List Range}
    (h : Range.Chain position items.length ranges) :
    weave (gapsFrom items position ranges)
      (ranges.map fun range => excerpt items range.start range.stop) = items.drop position := by
  induction ranges generalizing position with
  | nil => exact List.append_nil _
  | cons range rest ih =>
      obtain ⟨hlow, horder, hrest⟩ := h
      simp only [List.map_cons, gapsFrom, weave, ih hrest]
      rw [excerpt_append_excerpt hlow horder,
        excerpt_append_drop (Nat.le_trans hlow horder)]

/-- Where the new texts of patches stand in the result, when `position` in the list has become
`place` in the result. -/
def landings (position place : Nat) : List (Patch α) → List Range
  | [] => []
  | patch :: rest =>
      let start := place + (patch.start - position)
      ⟨start, start + patch.put.length⟩
        :: landings patch.stop (start + patch.put.length) rest

section Landing

variable {items result : List α} {position place : Nat} {patches : List (Patch α)}

/-- The result falls into what was copied up to the first patch, its new text, and the rest. -/
theorem drop_landing {patch : Patch α} {rest : List (Patch α)}
    (h : Range.Chain position items.length ((patch :: rest).map Patch.toRange))
    (hresult : result.drop place = substituteFrom items position (patch :: rest)) :
    let start := place + (patch.start - position)
    excerpt result place start = excerpt items position patch.start ∧
      excerpt result start (start + patch.put.length) = patch.put ∧
      result.drop (start + patch.put.length) = substituteFrom items patch.stop rest := by
  obtain ⟨_, horder, hrest⟩ := h
  have hcopied : (excerpt items position patch.start).length = patch.start - position :=
    length_excerpt position (Nat.le_trans horder hrest.low_le_high)
  rw [substituteFrom, List.append_assoc] at hresult
  obtain ⟨hgap, htail⟩ := excerpt_of_drop hresult
  rw [hcopied] at hgap htail
  obtain ⟨hput, hdrop⟩ := excerpt_of_drop htail
  exact ⟨hgap, hput, hdrop⟩

/-- Between the new texts the result reads as the list between the patches. -/
theorem gapsFrom_landings
    (h : Range.Chain position items.length (patches.map Patch.toRange))
    (hresult : result.drop place = substituteFrom items position patches) :
    gapsFrom result place (landings position place patches) =
      gapsFrom items position (patches.map Patch.toRange) := by
  induction patches generalizing position place with
  | nil => simpa [gapsFrom, landings, substituteFrom] using hresult
  | cons patch rest ih =>
      obtain ⟨hgap, _, hdrop⟩ := drop_landing h hresult
      simp only [List.map_cons, landings, gapsFrom, hgap, ih h.2.2 hdrop]

/-- At its landing place every new text is read. -/
theorem map_excerpt_landings
    (h : Range.Chain position items.length (patches.map Patch.toRange))
    (hresult : result.drop place = substituteFrom items position patches) :
    (landings position place patches).map (fun range => excerpt result range.start range.stop) =
      patches.map Patch.put := by
  induction patches generalizing position place with
  | nil => rfl
  | cons patch rest ih =>
      obtain ⟨_, hput, hdrop⟩ := drop_landing h hresult
      simp only [List.map_cons, landings, hput, ih h.2.2 hdrop]

/-- The landing places follow one another inside the result. -/
theorem chain_landings
    (h : Range.Chain position items.length (patches.map Patch.toRange))
    (hplace : place ≤ result.length)
    (hresult : result.drop place = substituteFrom items position patches) :
    Range.Chain place result.length (landings position place patches) := by
  induction patches generalizing position place with
  | nil => exact hplace
  | cons patch rest ih =>
      obtain ⟨hgap, hput, hdrop⟩ := drop_landing h hresult
      have hcopied : (excerpt items position patch.start).length = patch.start - position :=
        length_excerpt position (Nat.le_trans h.2.1 h.2.2.low_le_high)
      have hlength := congrArg List.length hresult
      rw [substituteFrom, List.length_drop, List.length_append, List.length_append, hcopied]
        at hlength
      have hstop : place + (patch.start - position) + patch.put.length ≤ result.length := by
        omega
      exact ⟨Nat.le_add_right _ _, Nat.le_add_right _ _, ih h.2.2 hstop hdrop⟩

end Landing

end TextEditing
