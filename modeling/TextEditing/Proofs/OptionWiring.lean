/-
Module: TextEditing.Proofs.OptionWiring
Purpose: Options are built from the keys of their parts and from nothing else.
Main exports: Preferences.SameAt, Preferences.sameAt_changed, Wiring.Reads, options_wired
-/
import Mathlib.Data.List.Pairwise
import TextEditing.Options.Wiring
import TextEditing.Proofs.Traversals

namespace TextEditing

/-!
Preferences that have the same value and default at a key give the same readings of it.  So once it is
said of every part what it must be, given the readings of its keys, the part is bound to stay the same
while other keys change.
-/

namespace Preferences

/-- Both preferences have the same value and the same default at the key. -/
structure SameAt (first second : Preferences) (key : String) : Prop where
  values : first.values.get? key = second.values.get? key
  defaults : first.defaults.get? key = second.defaults.get? key

variable {first second preferences : Preferences} {key : String}

theorem SameAt.lookup?_eq {α : Type} (h : first.SameAt second key) (read : Preference → Option α) :
    first.lookup? key read = second.lookup? key read := by
  rw [lookup?, lookup?, h.values, h.defaults]

theorem SameAt.boolean_eq (h : first.SameAt second key) : first.boolean key = second.boolean key := by
  rw [boolean, boolean, h.lookup?_eq]

theorem SameAt.integer_eq (h : first.SameAt second key) : first.integer key = second.integer key := by
  rw [integer, integer, h.lookup?_eq]

theorem SameAt.text_eq (h : first.SameAt second key) : first.text key = second.text key := by
  rw [text, text, h.lookup?_eq]

/-- A change at one key leaves all other keys. -/
theorem sameAt_changed {other : String} (change : Change) (h : other ≠ key) :
    (preferences.changed key change).SameAt preferences other := by
  cases change with
  | set value => exact ⟨(Dictionary.get?_insert _ _ _ _).trans (if_neg h), rfl⟩
  | setDefault value => exact ⟨rfl, (Dictionary.get?_insert _ _ _ _).trans (if_neg h)⟩
  | reset => exact ⟨(Dictionary.get?_erase _ _ _).trans (if_neg h), rfl⟩

theorem sameAt_changed_of_not_mem {keys : List String} (change : Change) (h : key ∉ keys) :
    ∀ other ∈ keys, (preferences.changed key change).SameAt preferences other :=
  fun _ hother => sameAt_changed change fun heq => h (heq ▸ hother)

/-- A truth value that is set is read. -/
theorem boolean_set_self (value : Bool) :
    (preferences.set key (.boolean value)).boolean key = value := by
  rw [boolean, lookup?, set, Dictionary.get?_insert, if_pos rfl]
  rfl

end Preferences

namespace Wiring

variable {ρ π : Type} {wiring : Wiring ρ π} {build : Preferences → Except OptionsError ρ}

/-- What each part must be, given the readings of its keys. -/
structure Reads (wiring : Wiring ρ π) (build : Preferences → Except OptionsError ρ)
    (Holds : π → Preferences → ρ → Prop) : Prop where
  build_eq_ok_iff : ∀ {preferences options},
    build preferences = .ok options ↔ ∀ part, Holds part preferences options
  congr : ∀ {part first second options}, (∀ key ∈ wiring.keys part, first.SameAt second key) →
    Holds part first options → Holds part second options
  agree : ∀ {part preferences first second}, Holds part preferences first →
    Holds part preferences second → wiring.Agree part first second
  build_congr : ∀ {first second}, (∀ part, ∀ key ∈ wiring.keys part, first.SameAt second key) →
    build first = build second

variable {Holds : π → Preferences → ρ → Prop} {preferences : Preferences} {key : String}
  {change : Preferences.Change}

/-- A part stays the same if its keys do. -/
theorem Reads.frame (h : wiring.Reads build Holds) {before after : ρ}
    (hbefore : build preferences = .ok before)
    (hafter : build (preferences.changed key change) = .ok after) {part : π}
    (hkey : key ∉ wiring.keys part) : wiring.Agree part before after := by
  have hholds : Holds part preferences after :=
    h.congr (Preferences.sameAt_changed_of_not_mem change hkey) (h.build_eq_ok_iff.1 hafter part)
  exact h.agree (h.build_eq_ok_iff.1 hbefore part) hholds

/-- All options stay the same if all keys that are read do. -/
theorem Reads.unread (h : wiring.Reads build Holds) (hkey : ∀ part, key ∉ wiring.keys part) :
    build (preferences.changed key change) = build preferences := by
  exact h.build_congr fun part => Preferences.sameAt_changed_of_not_mem change (hkey part)

/-- The parts have no key in common. -/
def Apart (wiring : Wiring ρ π) (first second : π) : Prop :=
  ∀ key ∈ wiring.keys first, key ∉ wiring.keys second

instance (first second : π) : Decidable (wiring.Apart first second) :=
  inferInstanceAs (Decidable (∀ key ∈ wiring.keys first, key ∉ wiring.keys second))

instance : Std.Symm wiring.Apart where
  symm _ _ h key hkey hother := h key hother hkey

/-- Among parts that are apart a key has only one. -/
theorem eq_of_apart {parts : List π} (hparts : parts.Pairwise wiring.Apart) {first second : π}
    (hfirst : first ∈ parts) (hsecond : second ∈ parts) {key : String}
    (hkey : key ∈ wiring.keys first) (hkey' : key ∈ wiring.keys second) : first = second := by
  by_contra hne
  exact hparts.forall hfirst hsecond hne key hkey hkey'

end Wiring

namespace EditorOptions

theorem columns_congr {first second : Preferences} {key : String} (h : first.SameAt second key) :
    columns first key = columns second key := by
  rw [columns, columns, h.integer_eq]

theorem ofPreferences_eq_ok_iff {preferences : Preferences} {options : EditorOptions} :
    ofPreferences preferences = .ok options ↔
      columns preferences indentSizeKey = .ok options.indentSize ∧
        columns preferences tabSizeKey = .ok options.tabSize ∧
        Choice.ofText (preferences.text indentStyleKey) = .ok options.indentStyle ∧
        options.newLine = LineEnding.lf.sequence ∧
        options.spacesForTabs = preferences.boolean spacesForTabsKey := by
  simp only [ofPreferences, bind_eq_ok_iff]
  constructor
  · intro h
    obtain ⟨_, hindent, _, htab, _, hstyle, h⟩ := h
    cases h
    exact ⟨hindent, htab, hstyle, rfl, rfl⟩
  · intro h
    obtain ⟨hindent, htab, hstyle, hline, hspaces⟩ := h
    obtain ⟨_, _, _, _, _⟩ := options
    cases hline
    cases hspaces
    exact ⟨_, hindent, _, htab, _, hstyle, rfl⟩

theorem ofPreferences_congr {first second : Preferences}
    (hindent : first.SameAt second indentSizeKey) (htab : first.SameAt second tabSizeKey)
    (hspaces : first.SameAt second spacesForTabsKey)
    (hstyle : first.SameAt second indentStyleKey) :
    ofPreferences first = ofPreferences second := by
  rw [ofPreferences, ofPreferences, columns_congr hindent, columns_congr htab, hspaces.boolean_eq,
    hstyle.text_eq]

end EditorOptions

namespace FormatOptions

/-- The keys that a part is built from. -/
def sources : Part → List String
  | .indentSize => [EditorOptions.indentSizeKey]
  | .tabSize => [EditorOptions.tabSizeKey]
  | .newLine => []
  | .spacesForTabs => [EditorOptions.spacesForTabsKey]
  | .indentStyle => [EditorOptions.indentStyleKey]
  | .rule rule => [rule.key]

/-- Parts are built from the keys that are to be read. -/
theorem keys_eq (part : Part) : wiring.keys part = sources part := by
  cases part with
  | rule rule => cases rule <;> rfl
  | _ => rfl

/-- What a part is, given the readings of its key. -/
def Holds (part : Part) (preferences : Preferences) (options : FormatOptions) : Prop :=
  match part with
  | .indentSize =>
      EditorOptions.columns preferences EditorOptions.indentSizeKey = .ok options.editor.indentSize
  | .tabSize =>
      EditorOptions.columns preferences EditorOptions.tabSizeKey = .ok options.editor.tabSize
  | .newLine => options.editor.newLine = LineEnding.lf.sequence
  | .spacesForTabs =>
      options.editor.spacesForTabs = preferences.boolean EditorOptions.spacesForTabsKey
  | .indentStyle =>
      Choice.ofText (preferences.text EditorOptions.indentStyleKey) = .ok options.editor.indentStyle
  | .rule rule => options.rules rule = preferences.boolean rule.key

theorem ofPreferences_eq_ok_iff {preferences : Preferences} {options : FormatOptions} :
    ofPreferences preferences = .ok options ↔ ∀ part, Holds part preferences options := by
  simp only [ofPreferences, bind_eq_ok_iff]
  constructor
  · intro h part
    obtain ⟨editor, heditor, h⟩ := h
    cases h
    obtain ⟨hindent, htab, hstyle, hline, hspaces⟩ := EditorOptions.ofPreferences_eq_ok_iff.1 heditor
    cases part with
    | indentSize => exact hindent
    | tabSize => exact htab
    | newLine => exact hline
    | spacesForTabs => exact hspaces
    | indentStyle => exact hstyle
    | rule rule => rfl
  · intro h
    obtain ⟨editor, rules⟩ := options
    have heditor : EditorOptions.ofPreferences preferences = .ok editor :=
      EditorOptions.ofPreferences_eq_ok_iff.2
        ⟨h .indentSize, h .tabSize, h .indentStyle, h .newLine, h .spacesForTabs⟩
    obtain rfl : rules = fun rule => preferences.boolean rule.key :=
      funext fun rule => h (.rule rule)
    exact ⟨editor, heditor, rfl⟩

/-- Preferences that are the same at the keys of all parts give the same settings or error. -/
theorem ofPreferences_congr {first second : Preferences}
    (h : ∀ part, ∀ key ∈ wiring.keys part, first.SameAt second key) :
    ofPreferences first = ofPreferences second := by
  simp only [keys_eq] at h
  have heditor : EditorOptions.ofPreferences first = EditorOptions.ofPreferences second :=
    EditorOptions.ofPreferences_congr (h .indentSize _ List.mem_cons_self)
      (h .tabSize _ List.mem_cons_self) (h .spacesForTabs _ List.mem_cons_self)
      (h .indentStyle _ List.mem_cons_self)
  have hrules : (fun rule : FormatRule => first.boolean rule.key) =
      fun rule => second.boolean rule.key :=
    funext fun rule => (h (.rule rule) _ List.mem_cons_self).boolean_eq
  rw [ofPreferences, ofPreferences, heditor, hrules]

theorem wiring_reads : wiring.Reads ofPreferences Holds where
  build_eq_ok_iff := ofPreferences_eq_ok_iff
  congr := by
    intro part first second options h hfirst
    rw [keys_eq] at h
    cases part with
    | indentSize =>
        exact (EditorOptions.columns_congr (h _ List.mem_cons_self)).symm.trans hfirst
    | tabSize => exact (EditorOptions.columns_congr (h _ List.mem_cons_self)).symm.trans hfirst
    | newLine => exact hfirst
    | spacesForTabs => exact hfirst.trans (h _ List.mem_cons_self).boolean_eq
    | indentStyle => exact (congrArg Choice.ofText (h _ List.mem_cons_self).text_eq).symm.trans hfirst
    | rule rule => exact hfirst.trans (h _ List.mem_cons_self).boolean_eq
  agree := by
    intro part preferences first second hfirst hsecond
    cases part with
    | indentSize => exact Except.ok.inj (hfirst.symm.trans hsecond)
    | tabSize => exact Except.ok.inj (hfirst.symm.trans hsecond)
    | newLine => exact hfirst.trans hsecond.symm
    | spacesForTabs => exact hfirst.trans hsecond.symm
    | indentStyle => exact Except.ok.inj (hfirst.symm.trans hsecond)
    | rule rule => exact hfirst.trans hsecond.symm
  build_congr := ofPreferences_congr

/-- All parts. -/
def Part.all : List Part :=
  [.indentSize, .tabSize, .newLine, .spacesForTabs, .indentStyle] ++ FormatRule.all.map .rule

theorem Part.mem_all (part : Part) : part ∈ all := by
  cases part with
  | rule rule => exact List.mem_append_right _ (List.mem_map_of_mem (FormatRule.mem_all rule))
  | _ => decide

/-- No key belongs to two parts. -/
theorem eq_of_mem_keys {first second : Part} {key : String} (hfirst : key ∈ wiring.keys first)
    (hsecond : key ∈ wiring.keys second) : first = second := by
  have hparts : Part.all.Pairwise wiring.Apart := by decide +kernel
  exact Wiring.eq_of_apart hparts first.mem_all second.mem_all hfirst hsecond

theorem ofPreferences_eq_map (preferences : Preferences) :
    ofPreferences preferences = (EditorOptions.ofPreferences preferences).map
      fun editor => ⟨editor, fun rule => preferences.boolean rule.key⟩ := by
  rw [ofPreferences]
  cases EditorOptions.ofPreferences preferences <;> rfl

/-- A value at a key of a part leaves the keys of all other parts. -/
theorem sameAt_set (part : Part) {key : String} (hkey : key ∈ sources part)
    (preferences : Preferences) (value : Preference) (other : Part) (hother : other ≠ part) :
    ∀ place ∈ sources other, (preferences.set key value).SameAt preferences place := by
  refine Preferences.sameAt_changed_of_not_mem (.set value) ?_
  intro hmem
  rw [← keys_eq] at hkey hmem
  exact hother (eq_of_mem_keys hmem hkey)

theorem ofPreferences_set_spaces (preferences : Preferences) (value : Bool) :
    ofPreferences (preferences.set EditorOptions.spacesForTabsKey (.boolean value)) =
      (ofPreferences preferences).map (spacesToggle.put value) := by
  have hsame := sameAt_set .spacesForTabs List.mem_cons_self preferences (.boolean value)
  have hindent := hsame .indentSize nofun _ List.mem_cons_self
  have htab := hsame .tabSize nofun _ List.mem_cons_self
  have hstyle := hsame .indentStyle nofun _ List.mem_cons_self
  have hrules := funext fun rule : FormatRule =>
    (hsame (.rule rule) nofun _ List.mem_cons_self).boolean_eq
  rw [ofPreferences_eq_map, ofPreferences_eq_map, EditorOptions.ofPreferences,
    EditorOptions.columns_congr hindent, EditorOptions.columns_congr htab, hstyle.text_eq,
    Preferences.boolean_set_self, hrules, EditorOptions.ofPreferences]
  cases EditorOptions.columns preferences EditorOptions.indentSizeKey <;>
    cases EditorOptions.columns preferences EditorOptions.tabSizeKey <;>
    cases (Choice.ofText (preferences.text EditorOptions.indentStyleKey) :
      Except OptionsError IndentStyle) <;> rfl

theorem ofPreferences_set_rule (preferences : Preferences) (rule : FormatRule) (value : Bool) :
    ofPreferences (preferences.set rule.key (.boolean value)) =
      (ofPreferences preferences).map (setRule rule value) := by
  have hsame := sameAt_set (.rule rule) List.mem_cons_self preferences (.boolean value)
  have heditor := EditorOptions.ofPreferences_congr
    (hsame .indentSize nofun _ List.mem_cons_self) (hsame .tabSize nofun _ List.mem_cons_self)
    (hsame .spacesForTabs nofun _ List.mem_cons_self)
    (hsame .indentStyle nofun _ List.mem_cons_self)
  have hrules : (fun other : FormatRule =>
      (preferences.set rule.key (.boolean value)).boolean other.key) =
      fun other => if other = rule then value else preferences.boolean other.key := by
    funext other
    by_cases h : other = rule
    · rw [if_pos h, h, Preferences.boolean_set_self]
    · rw [if_neg h]
      exact (hsame (.rule other) (by simpa using h) _ List.mem_cons_self).boolean_eq
  rw [ofPreferences_eq_map, ofPreferences_eq_map, heditor, hrules]
  cases EditorOptions.ofPreferences preferences <;> rfl

theorem toggle_cases {toggle : Toggle FormatOptions Part} (h : toggle ∈ wiring.toggles) :
    toggle = spacesToggle ∨ ∃ rule, toggle = ruleToggle rule := by
  rcases List.mem_cons.1 h with hspaces | hrule
  · exact .inl hspaces
  · have hrules : toggle ∈ FormatRule.all.map ruleToggle := hrule
    obtain ⟨rule, _, hrule⟩ := List.mem_map.1 hrules
    exact .inr ⟨rule, hrule.symm⟩

theorem toggle_exact {toggle : Toggle FormatOptions Part} (h : toggle ∈ wiring.toggles)
    (value : Bool) (options : FormatOptions) :
    toggle.get (toggle.put value options) = some value ∧
      ∀ other, other ≠ toggle.part → wiring.Agree other options (toggle.put value options) := by
  rcases toggle_cases h with rfl | ⟨rule, rfl⟩
  · refine ⟨rfl, fun other hother => ?_⟩
    cases other with
    | spacesForTabs => exact absurd rfl hother
    | _ => rfl
  · refine ⟨congrArg some (if_pos rfl), fun other hother => ?_⟩
    cases other with
    | rule other => exact (if_neg fun h => hother (congrArg Part.rule h)).symm
    | _ => rfl

theorem wiring_sound : wiring.Sound ofPreferences where
  ext first second h := by
    obtain ⟨⟨_, _, _, _, _⟩, rules⟩ := first
    obtain ⟨⟨_, _, _, _, _⟩, rules'⟩ := second
    cases h .indentSize
    cases h .tabSize
    cases h .newLine
    cases h .spacesForTabs
    cases h .indentStyle
    obtain rfl : rules = rules' := funext fun rule => h (.rule rule)
    rfl
  frame _ _ _ _ _ hbefore hafter _ hkey := wiring_reads.frame hbefore hafter hkey
  unread _ _ _ hkey := wiring_reads.unread hkey
  toggled toggle h := by
    rcases toggle_cases h with rfl | ⟨rule, rfl⟩
    · exact ⟨_, rfl, ofPreferences_set_spaces⟩
    · exact ⟨_, keys_eq (.rule rule), fun preferences => ofPreferences_set_rule preferences rule⟩
  exact _ h := toggle_exact h
  shows toggle h first second := by
    rcases toggle_cases h with rfl | ⟨rule, rfl⟩
    · exact Option.some_inj.symm
    · exact Option.some_inj.symm

end FormatOptions

namespace CompilerOptions

/-- The keys that a part is built from. -/
def sources : Part → List String
  | .flag flag => flag.key?.toList
  | .text .out | .text .outDir => [outDirKey, outFileKey]
  | .jsx => [jsxKey]
  | .moduleKind => [moduleKey]
  | .target => [targetKey]
  | _ => []

/-- Parts are built from the keys that are to be read. -/
theorem keys_eq (part : Part) : wiring.keys part = sources part := by
  cases part with
  | flag flag => cases flag <;> rfl
  | text text => cases text <;> rfl
  | _ => rfl

/-- The output as it is read from the preferences. -/
def place (preferences : Preferences) (layout : ProjectLayout) : Option (CompilerText × String) :=
  outputPlace layout (trimmed (preferences.text outDirKey)) (trimmed (preferences.text outFileKey))

/-- What a part is, given the readings of its keys. -/
def Holds (layout : ProjectLayout) (part : Part) (preferences : Preferences)
    (options : CompilerOptions) : Prop :=
  match part with
  | .flag flag => options.flags flag = flag.key?.map preferences.boolean
  | .text text => options.texts text = ((place preferences layout).filter (·.1 = text)).map (·.2)
  | .jsx => (Choice.ofText (preferences.text jsxKey)).map some = .ok options.jsx
  | .moduleKind => (Choice.ofText (preferences.text moduleKey)).map some = .ok options.moduleKind
  | .moduleResolution => options.moduleResolution = some .classic
  | .newLine => options.newLine = none
  | .target => (Choice.ofText (preferences.text targetKey)).map some = .ok options.target

variable {layout : ProjectLayout}

theorem ofPreferences_eq_ok_iff {preferences : Preferences} {options : CompilerOptions} :
    ofPreferences preferences layout = .ok options ↔ ∀ part, Holds layout part preferences options := by
  simp only [ofPreferences, bind_eq_ok_iff]
  constructor
  · intro h part
    obtain ⟨jsx, hjsx, moduleKind, hmodule, target, htarget, h⟩ := h
    cases h
    cases part with
    | flag flag => rfl
    | text text => rw [Holds, place]
    | jsx => exact congrArg (Except.map some) hjsx
    | moduleKind => exact congrArg (Except.map some) hmodule
    | moduleResolution => rfl
    | newLine => rfl
    | target => exact congrArg (Except.map some) htarget
  · intro h
    obtain ⟨flags, texts, _, _, _, _, _⟩ := options
    obtain ⟨jsx, hjsx, rfl⟩ := map_eq_ok_iff.1 (h .jsx)
    obtain ⟨moduleKind, hmodule, rfl⟩ := map_eq_ok_iff.1 (h .moduleKind)
    obtain ⟨target, htarget, rfl⟩ := map_eq_ok_iff.1 (h .target)
    refine ⟨jsx, hjsx, moduleKind, hmodule, target, htarget, ?_⟩
    cases h .moduleResolution
    cases h .newLine
    obtain rfl := funext fun flag => h (.flag flag)
    obtain rfl := funext fun text => h (.text text)
    rfl

/-- Only the file and the folder of the output hold a text. -/
theorem filter_place_eq_none {preferences : Preferences} {text : CompilerText}
    (hfile : text ≠ .out) (hfolder : text ≠ .outDir) :
    (place preferences layout).filter (·.1 = text) = none := by
  rw [place, outputPlace]
  split
  · exact Option.filter_some_neg (by simpa using hfile.symm)
  · split
    · exact Option.filter_some_neg (by simpa using hfolder.symm)
    · rfl

theorem place_congr {first second : Preferences} (hfolder : first.SameAt second outDirKey)
    (hfile : first.SameAt second outFileKey) : place first layout = place second layout := by
  rw [place, place, hfolder.text_eq, hfile.text_eq]

theorem filter_place_congr {first second : Preferences} {text : CompilerText}
    (h : ∀ key ∈ sources (.text text), first.SameAt second key) :
    (place first layout).filter (·.1 = text) = (place second layout).filter (·.1 = text) := by
  cases text with
  | out =>
      rw [place_congr (h _ List.mem_cons_self) (h _ (List.mem_cons_of_mem _ List.mem_cons_self))]
  | outDir =>
      rw [place_congr (h _ List.mem_cons_self) (h _ (List.mem_cons_of_mem _ List.mem_cons_self))]
  | _ =>
      exact (filter_place_eq_none (by decide) (by decide)).trans
        (filter_place_eq_none (by decide) (by decide)).symm

theorem flags_congr {first second : Preferences} {flag : CompilerFlag}
    (h : ∀ key ∈ sources (.flag flag), first.SameAt second key) :
    flag.key?.map first.boolean = flag.key?.map second.boolean := by
  cases hkey : flag.key? with
  | none => rfl
  | some key => exact congrArg some (h key (Option.mem_toList.2 hkey)).boolean_eq

/-- Preferences that are the same at the keys of all parts give the same settings or error. -/
theorem ofPreferences_congr {first second : Preferences}
    (h : ∀ part, ∀ key ∈ wiring.keys part, first.SameAt second key) :
    ofPreferences first layout = ofPreferences second layout := by
  simp only [keys_eq] at h
  have hplace : place first layout = place second layout :=
    place_congr (h (.text .out) _ List.mem_cons_self)
      (h (.text .out) _ (List.mem_cons_of_mem _ List.mem_cons_self))
  have hflags := funext fun flag => flags_congr (h (.flag flag))
  rw [place, place] at hplace
  rw [ofPreferences, ofPreferences, (h .jsx _ List.mem_cons_self).text_eq,
    (h .moduleKind _ List.mem_cons_self).text_eq, (h .target _ List.mem_cons_self).text_eq]
  simp only [hplace, hflags]

theorem wiring_reads : wiring.Reads (ofPreferences · layout) (Holds layout) where
  build_eq_ok_iff := ofPreferences_eq_ok_iff
  congr := by
    intro part first second options h hfirst
    rw [keys_eq] at h
    cases part with
    | flag flag => exact hfirst.trans (flags_congr h)
    | text text =>
        rw [Holds, ← filter_place_congr h]
        exact hfirst
    | jsx =>
        rw [Holds, ← (h _ List.mem_cons_self).text_eq]
        exact hfirst
    | moduleKind =>
        rw [Holds, ← (h _ List.mem_cons_self).text_eq]
        exact hfirst
    | moduleResolution => exact hfirst
    | newLine => exact hfirst
    | target =>
        rw [Holds, ← (h _ List.mem_cons_self).text_eq]
        exact hfirst
  agree := by
    intro part preferences first second hfirst hsecond
    cases part with
    | flag flag => exact hfirst.trans hsecond.symm
    | text text => exact hfirst.trans hsecond.symm
    | jsx => exact Except.ok.inj (hfirst.symm.trans hsecond)
    | moduleKind => exact Except.ok.inj (hfirst.symm.trans hsecond)
    | moduleResolution => exact hfirst.trans hsecond.symm
    | newLine => exact hfirst.trans hsecond.symm
    | target => exact Except.ok.inj (hfirst.symm.trans hsecond)
  build_congr := ofPreferences_congr

/-- The parts that are read from preferences, the folder of the output with its file. -/
def Part.read : List Part :=
  [.flag .declaration, .flag .experimentalDecorators, .flag .inlineSourceMap,
    .flag .inlineSources, .flag .noEmitOnError, .flag .noImplicitAny, .flag .noLib,
    .flag .removeComments, .flag .sourceMap, .flag .suppressExcessPropertyErrors,
    .flag .suppressImplicitAnyIndexErrors, .text .out, .jsx, .moduleKind, .target]

theorem Part.mem_read {part : Part} {key : String} (h : key ∈ wiring.keys part) :
    part ∈ Part.read ∨ part = .text .outDir := by
  cases part with
  | flag flag =>
      cases flag <;> first | exact .inl (by decide) | cases h
  | text text =>
      cases text <;> first | exact .inl (by decide) | exact .inr rfl | cases h
  | moduleResolution => cases h
  | newLine => cases h
  | _ => exact .inl (by decide)

/-- No key belongs to two parts, but for those of the output. -/
theorem eq_or_isOutput_of_mem_keys {first second : Part} {key : String}
    (hfirst : key ∈ wiring.keys first) (hsecond : key ∈ wiring.keys second) :
    first = second ∨ first.isOutput ∧ second.isOutput := by
  have hparts : Part.read.Pairwise wiring.Apart := by decide +kernel
  have hfile : ∀ part ∈ Part.read, key ∈ wiring.keys part → key ∈ wiring.keys (.text .out) →
      part = .text .out := by
    intro part hpart hkey hout
    exact Wiring.eq_of_apart hparts hpart (by decide) hkey hout
  rcases Part.mem_read hfirst with hmem | rfl
  · rcases Part.mem_read hsecond with hmem' | rfl
    · exact .inl (Wiring.eq_of_apart hparts hmem hmem' hfirst hsecond)
    · cases hfile first hmem hfirst hsecond
      exact .inr ⟨rfl, rfl⟩
  · rcases Part.mem_read hsecond with hmem' | rfl
    · cases hfile second hmem' hsecond hfirst
      exact .inr ⟨rfl, rfl⟩
    · exact .inl rfl

theorem ofPreferences_set_flag {flag : CompilerFlag} {key : String} (hkey : flag.key? = some key)
    (preferences : Preferences) (value : Bool) :
    ofPreferences (preferences.set key (.boolean value)) layout =
      (ofPreferences preferences layout).map (setFlag flag (some value)) := by
  have hmem : key ∈ wiring.keys (.flag flag) := by
    rw [keys_eq]
    exact Option.mem_toList.2 hkey
  have hsame : ∀ other : Part, other ≠ .flag flag → ∀ place ∈ sources other,
      (preferences.set key (.boolean value)).SameAt preferences place := by
    intro other hne
    refine Preferences.sameAt_changed_of_not_mem (.set (.boolean value)) ?_
    intro hother
    rw [← keys_eq] at hother
    rcases eq_or_isOutput_of_mem_keys hother hmem with hother | ⟨_, houtput⟩
    · exact hne hother
    · cases houtput
  have hplace : place (preferences.set key (.boolean value)) layout = place preferences layout :=
    place_congr (hsame (.text .out) nofun _ List.mem_cons_self)
      (hsame (.text .out) nofun _ (List.mem_cons_of_mem _ List.mem_cons_self))
  have hflags : (fun other : CompilerFlag =>
      other.key?.map (preferences.set key (.boolean value)).boolean) =
      fun other => if other = flag then some value else other.key?.map preferences.boolean := by
    funext other
    by_cases h : other = flag
    · rw [if_pos h, h, hkey, Option.map_some, Preferences.boolean_set_self]
    · rw [if_neg h]
      exact flags_congr (hsame (.flag other) (by simpa using h))
  rw [place, place] at hplace
  simp only [ofPreferences, hplace, hflags, (hsame .jsx nofun _ List.mem_cons_self).text_eq,
    (hsame .moduleKind nofun _ List.mem_cons_self).text_eq,
    (hsame .target nofun _ List.mem_cons_self).text_eq]
  generalize outputPlace layout (trimmed (preferences.text outDirKey))
    (trimmed (preferences.text outFileKey)) = output
  cases (Choice.ofText (preferences.text jsxKey) : Except OptionsError JsxEmit) <;>
    cases (Choice.ofText (preferences.text moduleKey) : Except OptionsError ModuleKind) <;>
    cases (Choice.ofText (preferences.text targetKey) : Except OptionsError ScriptTarget) <;> rfl

theorem toggle_cases {toggle : Toggle CompilerOptions Part} (h : toggle ∈ wiring.toggles) :
    ∃ flag key, flag.key? = some key ∧ toggle = flagToggle flag := by
  simp only [wiring, List.mem_cons, List.not_mem_nil, or_false] at h
  rcases h with rfl | rfl | rfl | rfl | rfl | rfl | rfl | rfl | rfl | rfl | rfl <;>
    exact ⟨_, _, rfl, rfl⟩

theorem toggle_exact (flag : CompilerFlag) (value : Bool) (options : CompilerOptions) :
    (flagToggle flag).get ((flagToggle flag).put value options) = some value ∧
      ∀ other, other ≠ .flag flag →
        wiring.Agree other options ((flagToggle flag).put value options) := by
  refine ⟨if_pos rfl, fun other hother => ?_⟩
  cases other with
  | flag other => exact (if_neg fun h => hother (congrArg Part.flag h)).symm
  | _ => rfl

theorem wiring_sound (layout : ProjectLayout) : wiring.Sound (ofPreferences · layout) where
  ext first second h := by
    obtain ⟨flags, texts, _, _, _, _, _⟩ := first
    obtain ⟨flags', texts', _, _, _, _, _⟩ := second
    cases h .jsx
    cases h .moduleKind
    cases h .moduleResolution
    cases h .newLine
    cases h .target
    obtain rfl : flags = flags' := funext fun flag => h (.flag flag)
    obtain rfl : texts = texts' := funext fun text => h (.text text)
    rfl
  frame _ _ _ _ _ hbefore hafter _ hkey := wiring_reads.frame hbefore hafter hkey
  unread _ _ _ hkey := wiring_reads.unread hkey
  toggled toggle h := by
    obtain ⟨flag, key, hkey, rfl⟩ := toggle_cases h
    refine ⟨key, ?_, ofPreferences_set_flag hkey⟩
    exact (keys_eq (.flag flag)).trans (congrArg Option.toList hkey)
  exact toggle h := by
    obtain ⟨flag, _, _, rfl⟩ := toggle_cases h
    exact toggle_exact flag
  shows toggle h first second := by
    obtain ⟨flag, _, _, rfl⟩ := toggle_cases h
    exact Iff.rfl

end CompilerOptions

/-- The settings of formatting and of compiling come from the keys of their parts alone, and each key
belongs to one part, but for the two keys of the output. -/
theorem options_wired :
    FormatOptions.wiring.Sound FormatOptions.ofPreferences ∧
      (∀ first second key, key ∈ FormatOptions.wiring.keys first →
        key ∈ FormatOptions.wiring.keys second → first = second) ∧
      (∀ layout, CompilerOptions.wiring.Sound (CompilerOptions.ofPreferences · layout)) ∧
      ∀ first second key, key ∈ CompilerOptions.wiring.keys first →
        key ∈ CompilerOptions.wiring.keys second →
          first = second ∨ first.isOutput ∧ second.isOutput :=
  ⟨FormatOptions.wiring_sound, fun _ _ _ => FormatOptions.eq_of_mem_keys,
    CompilerOptions.wiring_sound, fun _ _ _ => CompilerOptions.eq_or_isOutput_of_mem_keys⟩

/-- Preferences that say how to indent and what to compile for, and nothing else. -/
def sparse : Preferences :=
  (((Preferences.empty.set "editor.indentStyle" (.text " block")).set "compiler.jsx"
    (.text "react")).set "compiler.module" (.text "amd")).set "compiler.target" (.text "es6")

/-- Tabulators grow wider, a rule and a compiler setting are switched on, and a key is set that nothing
is read from. -/
theorem options_wired_over_sparse_preferences :
    ∃ before after compiled, FormatOptions.ofPreferences sparse = .ok before ∧
      FormatOptions.ofPreferences (sparse.changed "tabWidth" (.set (.text "8"))) = .ok after ∧
      before.editor.tabSize = 0 ∧ after.editor.tabSize = 8 ∧
      (∀ part, part ≠ .tabSize → FormatOptions.wiring.Agree part before after) ∧
      before.rules .spaceAfterComma = false ∧
      FormatOptions.ofPreferences
          (sparse.set "formatter.insertSpaceAfterCommaDelimiter" (.boolean true)) =
        .ok (FormatOptions.setRule .spaceAfterComma true before) ∧
      CompilerOptions.ofPreferences sparse ⟨"app"⟩ = .ok compiled ∧
      compiled.flags .noLib = some false ∧
      CompilerOptions.ofPreferences (sparse.set "compiler.noLib" (.boolean true)) ⟨"app"⟩ =
        .ok (CompilerOptions.setFlag .noLib (some true) compiled) ∧
      ∀ layout, CompilerOptions.ofPreferences
        (sparse.changed "compiler.outfile" (.setDefault (.text "all.js"))) layout =
          CompilerOptions.ofPreferences sparse layout := by
  obtain ⟨hformat, hkeys, hcompile, _⟩ := options_wired
  have hbefore : EditorOptions.ofPreferences sparse = .ok
      { indentSize := 0, tabSize := 0, spacesForTabs := false, indentStyle := .block } := by
    decide
  have hafter : EditorOptions.ofPreferences
      (sparse.changed "tabWidth" (.set (.text "8"))) = .ok
      { indentSize := 0, tabSize := 8, spacesForTabs := false, indentStyle := .block } := by
    decide
  have hbuilt := FormatOptions.ofPreferences_eq_map sparse
  have hrebuilt := FormatOptions.ofPreferences_eq_map (sparse.changed "tabWidth" (.set (.text "8")))
  rw [hbefore] at hbuilt
  rw [hafter] at hrebuilt
  have hcompiled : CompilerOptions.ofPreferences sparse ⟨"app"⟩ = .ok
      { flags := fun flag => flag.key?.map sparse.boolean
        jsx := some .react
        moduleKind := some .amd
        moduleResolution := some .classic
        target := some .es2015 } := by
    rfl
  refine ⟨_, _, _, hbuilt, hrebuilt, rfl, rfl, ?_, by decide, ?_, hcompiled, by decide, ?_, ?_⟩
  · intro part hpart
    refine hformat.frame _ _ _ _ _ hbuilt hrebuilt part ?_
    exact fun hkey => hpart (hkeys part .tabSize _ hkey List.mem_cons_self)
  · obtain ⟨key, hkey, hset⟩ := hformat.toggled (FormatOptions.ruleToggle .spaceAfterComma)
      (List.mem_cons_of_mem _ List.mem_cons_self)
    obtain rfl : "formatter.insertSpaceAfterCommaDelimiter" = key := List.singleton_inj.1 hkey
    rw [hset, hbuilt]
    rfl
  · obtain ⟨key, hkey, hset⟩ := (hcompile ⟨"app"⟩).toggled (CompilerOptions.flagToggle .noLib)
      (by simp [CompilerOptions.wiring])
    obtain rfl : "compiler.noLib" = key := List.singleton_inj.1 hkey
    rw [hset, hcompiled]
    rfl
  · intro layout
    refine (hcompile layout).unread _ _ _ ?_
    have hread : ∀ part ∈ CompilerOptions.Part.read,
        "compiler.outfile" ∉ CompilerOptions.wiring.keys part := by
      decide
    intro part hkey
    rcases CompilerOptions.Part.mem_read hkey with hmem | rfl
    · exact hread part hmem hkey
    · exact hread (.text .out) (by decide) hkey

end TextEditing
