/-
Module: TextEditing.Proofs.OutputLocation
Purpose: Where the output of a compiler goes, and which spellings of a folder make no difference.
Main exports: ProjectLayout.Locates, ProjectLayout.locates_iff, ProjectLayout.Respelled,
  CompilerOptions.Placed, CompilerOptions.output_located
-/
import Mathlib.Data.List.Forall2
import TextEditing.Proofs.PreferenceReadings

namespace TextEditing

/-!
A folder is given with separators of two kinds, and with any number of them at its ends.  Its
container begins with that of the project and has only slashes behind it.  White space is dropped at
the ends of what is stored, and nowhere else: next to a separator at an end it belongs to the name of
the folder.
-/

namespace ProjectLayout

/-- A backslash becomes a slash. -/
def slashed (c : Char) : Char := if c = '\\' then '/' else c

/-- The container of a folder.  A folder of nothing but separators is the project itself. -/
inductive Locates (layout : ProjectLayout) : List Char → String → Prop
  | project {folder : List Char} (hfolder : ∀ c ∈ folder, isSeparator c = true) :
      Locates layout folder layout.container
  | inner {lead inner trail : List Char} (hlead : ∀ c ∈ lead, isSeparator c = true)
      (htrail : ∀ c ∈ trail, isSeparator c = true) (hne : inner ≠ [])
      (hbare : Bare isSeparator inner) :
      Locates layout (lead ++ (inner ++ trail))
        (layout.container ++ String.ofList (inner.map slashed) ++ "/")

/-- A backslash may have become a slash. -/
def Exchanged (before after : Char) : Prop :=
  after = before ∨ before = '\\' ∧ after = '/'

/-- Some backslashes of a folder may have become slashes, and separators may have been put in front
of it and behind it. -/
inductive Respelled (folder : List Char) : List Char → Prop
  | intro {lead exchanged trail : List Char} (hlead : ∀ c ∈ lead, isSeparator c = true)
      (hexchanged : List.Forall₂ Exchanged folder exchanged)
      (htrail : ∀ c ∈ trail, isSeparator c = true) :
      Respelled folder (lead ++ (exchanged ++ trail))

section

variable {layout : ProjectLayout} {folder respelled exchanged : List Char} {container : String}

/-! ### Containers -/

theorem folderContainer_eq (layout : ProjectLayout) (folder : List Char) :
    layout.folderContainer (String.ofList folder) =
      if (stripped isSeparator folder).map slashed = [] then layout.container
      else
        layout.container ++ String.ofList ((stripped isSeparator folder).map slashed) ++ "/" := by
  rw [folderContainer, String.toList_ofList]
  cases stripped isSeparator folder with
  | nil => rfl
  | cons c rest => rfl

/-- The program finds the container of a folder, and there is no other one. -/
theorem locates_iff :
    layout.Locates folder container ↔
      container = layout.folderContainer (String.ofList folder) := by
  rw [folderContainer_eq]
  constructor
  · intro h
    cases h with
    | project hfolder => rw [stripped_of_forall hfolder, List.map_nil, if_pos rfl]
    | inner hlead htrail hne hbare =>
        rw [stripped_append _ hlead htrail, stripped_of_bare hbare, if_neg (by simpa using hne)]
  · rintro rfl
    obtain ⟨lead, trail, hfolder, hlead, htrail, hbare⟩ := exists_stripped isSeparator folder
    by_cases hinner : stripped isSeparator folder = []
    · rw [hinner, List.map_nil, if_pos rfl]
      refine .project fun c hc => ?_
      rw [hfolder, hinner, List.nil_append] at hc
      exact (List.mem_append.1 hc).elim (hlead c) (htrail c)
    · rw [if_neg (by simpa using hinner)]
      have hlocates : layout.Locates (lead ++ (stripped isSeparator folder ++ trail)) _ :=
        .inner hlead htrail hinner hbare
      rwa [← hfolder] at hlocates

theorem not_mem_map_slashed (text : List Char) : '\\' ∉ text.map slashed := by
  intro h
  obtain ⟨c, _, hc⟩ := List.mem_map.1 h
  rw [slashed] at hc
  split at hc
  · cases hc
  · contradiction

/-- The container of a folder begins with that of the project. -/
theorem Locates.opens (h : layout.Locates folder container) :
    ∃ rest, container = layout.container ++ rest ∧ '\\' ∉ rest.toList := by
  cases h with
  | project hfolder => exact ⟨"", String.append_empty.symm, List.not_mem_nil⟩
  | @inner lead inner trail hlead htrail hne hbare =>
      refine ⟨String.ofList (inner.map slashed) ++ "/", String.append_assoc, ?_⟩
      rw [String.toList_append, String.toList_ofList, List.mem_append]
      rintro (hinner | hend)
      · exact not_mem_map_slashed inner hinner
      · cases List.mem_singleton.1 hend

theorem getLast?_append_slash (text : String) : (text ++ "/").toList.getLast? = some '/' := by
  rw [String.toList_append]
  exact List.getLast?_concat

theorem Locates.closes (h : layout.Locates folder container) :
    container.toList.getLast? = some '/' := by
  cases h with
  | project hfolder => exact getLast?_append_slash _
  | inner hlead htrail hne hbare => exact getLast?_append_slash _

/-- The backslashes in the container of the project are those of its name. -/
theorem count_container (layout : ProjectLayout) :
    layout.container.toList.count '\\' = layout.name.toList.count '\\' := by
  obtain ⟨lead, trail, hname, hlead, htrail, _⟩ := exists_stripped (· == '/') layout.name.toList
  have hslashes {text : List Char} (h : ∀ c ∈ text, (c == '/') = true) : text.count '\\' = 0 := by
    refine List.count_eq_zero.2 fun hmem => ?_
    exact absurd (h _ hmem) (by decide)
  have hcount := congrArg (List.count '\\') hname
  rw [List.count_append, List.count_append, hslashes hlead, hslashes htrail] at hcount
  rw [hcount, container, String.toList_append, String.toList_append, String.toList_ofList,
    List.count_append, List.count_append]
  simp

theorem Locates.count_eq (h : layout.Locates folder container) :
    container.toList.count '\\' = layout.name.toList.count '\\' := by
  obtain ⟨rest, rfl, hrest⟩ := h.opens
  rw [String.toList_append, List.count_append, List.count_eq_zero.2 hrest, count_container,
    Nat.add_zero]

/-! ### Other spellings of a folder -/

theorem isBlank_of_isSeparator {c : Char} (h : isSeparator c = true) : isBlank c = false := by
  rw [isSeparator, Bool.or_eq_true, beq_iff_eq, beq_iff_eq] at h
  rcases h with rfl | rfl <;> decide

theorem isSeparator_slashed (c : Char) : isSeparator (slashed c) = isSeparator c := by
  rw [slashed]
  split
  · rename_i hc
    rw [hc]
    rfl
  · rfl

theorem Exchanged.slashed_eq {before after : Char} (h : Exchanged before after) :
    slashed after = slashed before := by
  obtain rfl | ⟨rfl, rfl⟩ := h
  · rfl
  · rfl

theorem map_slashed_eq (h : List.Forall₂ Exchanged folder exchanged) :
    exchanged.map slashed = folder.map slashed := by
  induction h with
  | nil => rfl
  | cons hfirst hrest ih => rw [List.map_cons, List.map_cons, hfirst.slashed_eq, ih]

theorem Exchanged.isBlank_eq_false {before after : Char} (h : Exchanged before after)
    (hbefore : isBlank before = false) : isBlank after = false := by
  obtain rfl | ⟨rfl, rfl⟩ := h
  · exact hbefore
  · decide

theorem head?_exchanged (h : List.Forall₂ Exchanged folder exchanged)
    (hfirst : ∀ c ∈ folder.head?, isBlank c = false) :
    ∀ c ∈ exchanged.head?, isBlank c = false := by
  cases h with
  | nil => exact hfirst
  | cons hexchanged hrest =>
      rintro c ⟨⟩
      exact hexchanged.isBlank_eq_false (hfirst _ rfl)

/-- Other separators at its ends keep a folder free of white space there. -/
theorem Respelled.bare (h : Respelled folder respelled) (hfolder : Bare isBlank folder) :
    Bare isBlank respelled := by
  obtain ⟨hlead, hexchanged, htrail⟩ := h
  have hbare : Bare isBlank _ :=
    { first := head?_exchanged hexchanged hfolder.first
      last := by
        have hlast := head?_exchanged (List.rel_reverse hexchanged) hfolder.reverse.first
        rwa [List.head?_reverse] at hlast }
  exact (Bare.of_forall fun c hc => isBlank_of_isSeparator (hlead c hc)).append
    (hbare.append (.of_forall fun c hc => isBlank_of_isSeparator (htrail c hc)))

theorem Respelled.folderContainer_eq (h : Respelled folder respelled) (layout : ProjectLayout) :
    layout.folderContainer (String.ofList respelled) =
      layout.folderContainer (String.ofList folder) := by
  obtain ⟨hlead, hexchanged, htrail⟩ := h
  rw [ProjectLayout.folderContainer_eq, ProjectLayout.folderContainer_eq,
    stripped_append _ hlead htrail, ← stripped_map isSeparator_slashed, map_slashed_eq hexchanged,
    stripped_map isSeparator_slashed]

theorem Respelled.ne_nil (h : Respelled folder respelled) (hne : folder ≠ []) :
    respelled ≠ [] := by
  obtain ⟨_, hexchanged, _⟩ := h
  cases hexchanged with
  | nil => exact absurd rfl hne
  | cons => simp

end

end ProjectLayout

namespace CompilerOptions

/-- The folder of the output as it is given, without white space at its ends. -/
def givenFolder (preferences : Preferences) : String := trimmed (preferences.text outDirKey)

/-- The file of the output as it is given, without white space at its ends. -/
def givenFile (preferences : Preferences) : String := trimmed (preferences.text outFileKey)

/-- Where the output goes, for a folder with its container and for a file. -/
structure Placed (folder file container : String) (options : CompilerOptions) : Prop where
  outFile : options.texts .outFile = none
  exclusive : options.texts .out = none ∨ options.texts .outDir = none
  nowhere : options.texts .out = none ∧ options.texts .outDir = none ↔ folder = "" ∧ file = ""
  out : ∀ path, options.texts .out = some path ↔ file ≠ "" ∧ path = container ++ file
  outDir : ∀ path, options.texts .outDir = some path ↔ file = "" ∧ folder ≠ "" ∧ path = container

variable {preferences : Preferences} {layout : ProjectLayout} {options : CompilerOptions}

theorem placed_of_outputPlace {folder file : String}
    (h : ∀ text, options.texts text =
      ((outputPlace layout folder file).filter (·.1 = text)).map (·.2)) :
    Placed folder file (layout.folderContainer folder) options := by
  by_cases hfile : file = ""
  · by_cases hfolder : folder = ""
    · have hplace : outputPlace layout folder file = none := by simp [outputPlace, hfile, hfolder]
      simp only [hplace, Option.filter_none, Option.map_none] at h
      constructor <;> simp [h, hfile, hfolder]
    · have hplace : outputPlace layout folder file =
          some (.outDir, layout.folderContainer folder) := by
        simp [outputPlace, hfile, hfolder]
      simp only [hplace] at h
      constructor <;> simp [h, hfile, hfolder, Option.filter, eq_comm]
  · have hcontainer :
        (if folder = "" then layout.container else layout.folderContainer folder) =
          layout.folderContainer folder := by
      split
      · rename_i hfolder
        rw [hfolder]
        rfl
      · rfl
    have hplace : outputPlace layout folder file =
        some (.out, layout.folderContainer folder ++ file) := by
      simp [outputPlace, hfile, hcontainer]
    simp only [hplace] at h
    constructor <;> simp [h, hfile, Option.filter, eq_comm]

theorem placed (h : ofPreferences preferences layout = .ok options) :
    Placed (givenFolder preferences) (givenFile preferences)
      (layout.folderContainer (givenFolder preferences)) options :=
  placed_of_outputPlace fun text => ofPreferences_eq_ok_iff.1 h (.text text)

/-- Separators at the ends of the folder and their kind do not show. -/
theorem outputPlace_respelled {folder respelled : List Char}
    (h : ProjectLayout.Respelled folder respelled) (hne : folder ≠ []) (layout : ProjectLayout)
    (file : String) :
    outputPlace layout (String.ofList respelled) file =
      outputPlace layout (String.ofList folder) file := by
  have hfolder : String.ofList folder ≠ "" := by simpa using hne
  have hrespelled : String.ofList respelled ≠ "" := by simpa using h.ne_nil hne
  simp only [outputPlace, if_neg hfolder, if_neg hrespelled, if_pos hfolder, if_pos hrespelled,
    h.folderContainer_eq layout]

/-- The folder may be stored in another spelling, in either layer. -/
theorem ofPreferences_store_respelled {respelled : List Char} (stratum : Stratum)
    (h : ProjectLayout.Respelled (givenFolder preferences).toList respelled)
    (hne : givenFolder preferences ≠ "") :
    ofPreferences (stratum.store outDirKey (.text (String.ofList respelled)) preferences) layout =
      ofPreferences preferences layout := by
  refine ofPreferences_eq_of_place ?_ fun key hkey => (Preferences.sameAt_store hkey).readsAs
  have hfile : outFileKey ≠ outDirKey := by decide
  rw [place, place, (Preferences.sameAt_store hfile).text_eq]
  rcases Preferences.text_store stratum outDirKey (.text (String.ofList respelled)) preferences with
    hstored | hhidden
  · have hfolder : Bare isBlank (givenFolder preferences).toList := by
      rw [givenFolder, trimmed, String.toList_ofList]
      exact bare_stripped isBlank _
    have hbare : Bare isBlank (String.ofList respelled).toList := by
      rw [String.toList_ofList]
      exact h.bare hfolder
    rw [hstored, Preference.asText, trimmed_of_bare hbare,
      outputPlace_respelled h (by simpa using hne), String.ofList_toList, givenFolder]
  · rw [hhidden]

/-- The output goes to a file or to a folder of the project, or to no place of its own.  The
container of the folder does not depend on how many separators stand at the ends of its name, nor on
their kind anywhere in it. -/
theorem output_located (preferences : Preferences) (layout : ProjectLayout)
    (options : CompilerOptions) (h : ofPreferences preferences layout = .ok options) :
    ∃ container,
      (∀ other, layout.Locates (givenFolder preferences).toList other ↔ other = container) ∧
      (∃ rest, container = layout.container ++ rest ∧ '\\' ∉ rest.toList) ∧
      container.toList.getLast? = some '/' ∧
      container.toList.count '\\' = layout.name.toList.count '\\' ∧
      Placed (givenFolder preferences) (givenFile preferences) container options ∧
      (givenFolder preferences ≠ "" →
        ∀ respelled, ProjectLayout.Respelled (givenFolder preferences).toList respelled →
          ∀ stratum : Stratum,
            ofPreferences
                (stratum.store outDirKey (.text (String.ofList respelled)) preferences) layout =
              .ok options) := by
  have hlocates (other : String) : layout.Locates (givenFolder preferences).toList other ↔
      other = layout.folderContainer (givenFolder preferences) := by
    rw [ProjectLayout.locates_iff, String.ofList_toList]
  have hcontainer := (hlocates _).2 rfl
  refine ⟨_, hlocates, hcontainer.opens, hcontainer.closes, hcontainer.count_eq, placed h, ?_⟩
  intro hne respelled hrespelled stratum
  exact (ofPreferences_store_respelled stratum hrespelled hne).trans h

/-- A file in a folder with a blank in its name, between backslashes. -/
def bundled : Preferences :=
  (({ Preferences.empty with defaults := .ofList registered }).set outDirKey
    (.text "\\build\\ js\\ ")).set outFileKey (.text " all.js")

/-- The folder is located, and may be stored with slashes and with more separators. -/
theorem output_located_of_bundled :
    ∃ options, ofPreferences bundled ⟨"app"⟩ = .ok options ∧
      options.texts .out = some "/app/build/ js/all.js" ∧ options.texts .outDir = none ∧
      ofPreferences (bundled.set outDirKey (.text "/\\build/ js\\/")) ⟨"app"⟩ = .ok options := by
  obtain ⟨options, h⟩ : ∃ options, ofPreferences bundled ⟨"app"⟩ = .ok options := ⟨_, rfl⟩
  obtain ⟨container, hlocates, _, _, _, hplaced, hrespelled⟩ :=
    output_located bundled ⟨"app"⟩ options h
  have hfolder : givenFolder bundled = "\\build\\ js\\" := by decide
  have hfile : givenFile bundled = "all.js" := by decide
  rw [hfolder] at hlocates hplaced hrespelled
  rw [hfile] at hplaced
  have hbackslash : ∀ c ∈ ['\\'], ProjectLayout.isSeparator c = true := by
    simp [ProjectLayout.isSeparator]
  have hslash : ∀ c ∈ ['/'], ProjectLayout.isSeparator c = true := by
    simp [ProjectLayout.isSeparator]
  have hlocated : ProjectLayout.Locates ⟨"app"⟩ (['\\'] ++ ("build\\ js".toList ++ ['\\']))
      (ProjectLayout.container ⟨"app"⟩ ++ String.ofList ("build\\ js".toList.map
        ProjectLayout.slashed) ++ "/") :=
    .inner hbackslash hbackslash (by decide) (by decide)
  obtain rfl := (hlocates _).1 hlocated
  have hout : options.texts .out = some "/app/build/ js/all.js" :=
    (hplaced.out _).2 ⟨by decide, by decide⟩
  have hone : options.texts .outDir = none := by
    rcases hplaced.exclusive with hnone | hnone
    · rw [hout] at hnone
      cases hnone
    · exact hnone
  refine ⟨options, h, hout, hone, hrespelled (by decide) "/\\build/ js\\/".toList ?_ .values⟩
  have hexchanged : List.Forall₂ ProjectLayout.Exchanged "\\build\\ js\\".toList
      "\\build/ js\\".toList := by
    simp [ProjectLayout.Exchanged]
  exact .intro hslash hexchanged hslash

end CompilerOptions

end TextEditing
