/-
Module: TextEditing.Proofs.ExchangedOptions
Purpose: Settings that are sent to a service come back as they are, whatever becomes of the order of
  their members and whatever is added to them.
Main exports: EditorOptions.exchanges, FormatOptions.exchanges, CompilerOptions.Part.sent?,
  CompilerOptions.mem_members_iff, CompilerOptions.exchanges, options_exchanged
-/
import Mathlib.Data.Option.Basic
import TextEditing.Options.FormatOptions
import TextEditing.Options.Wiring
import TextEditing.Proofs.FlattenedMembers

namespace TextEditing

open Json
open RecordField (Carries Sets)

/-!
White space settings are five members, each of them wanted; the settings of a formatting request are
these five and one for each rule.  Settings of a compile request have a member for each part that is
set.  To see that such settings are built up again from blank ones it is enough to look at one part
after the other: the member of a part sets what is sent of that part and leaves the others alone.
-/

/-- Values of a function at different places may be replaced in any order. -/
theorem ite_comm_of_ne {α β : Type} [DecidableEq α] {a b : α} (h : a ≠ b) (x y : β) (f : α → β) :
    (fun other => if other = a then x else if other = b then y else f other) =
      fun other => if other = b then y else if other = a then x else f other := by
  funext other
  by_cases ha : other = a
  · rw [if_pos ha, if_pos ha, if_neg fun hb => h (ha.symm.trans hb)]
  · rw [if_neg ha, if_neg ha]

theorem Choice.codec_scalar {α : Type} [Choice α]
    (h : ∀ choice : α, number choice ≤ 255 ∧
      ((members : List α).map fun member => (number member, member)).lookup (number choice) =
        some choice) : (codec : Codec α).Scalar :=
  Codec.numbered_scalar h

theorem IndentStyle.codec_scalar : (Choice.codec : Codec IndentStyle).Scalar :=
  Choice.codec_scalar fun style => by cases style <;> exact ⟨by decide, rfl⟩

theorem JsxEmit.codec_scalar : (Choice.codec : Codec JsxEmit).Scalar :=
  Choice.codec_scalar fun jsx => by cases jsx <;> exact ⟨by decide, rfl⟩

theorem ModuleKind.codec_scalar : (Choice.codec : Codec ModuleKind).Scalar :=
  Choice.codec_scalar fun kind => by cases kind <;> exact ⟨by decide, rfl⟩

theorem ModuleResolution.codec_scalar : (Choice.codec : Codec ModuleResolution).Scalar :=
  Choice.codec_scalar fun resolution => by cases resolution <;> exact ⟨by decide, rfl⟩

theorem LineEnding.codec_scalar : (Choice.codec : Codec LineEnding).Scalar :=
  Choice.codec_scalar fun ending => by cases ending <;> exact ⟨by decide, rfl⟩

theorem ScriptTarget.codec_scalar : (Choice.codec : Codec ScriptTarget).Scalar :=
  Choice.codec_scalar fun target => by cases target <;> exact ⟨by decide, rfl⟩

namespace EditorOptions

theorem record_independent : record.Independent where
  names := by
    simp only [record, List.pairwise_cons, List.forall_mem_cons]
    decide
  commutes := by
    simp only [record, List.pairwise_cons, List.forall_mem_cons, List.not_mem_nil, false_implies,
      implies_true, List.Pairwise.nil, and_true]
    refine ⟨⟨?_, ?_, ?_, ?_⟩, ⟨?_, ?_, ?_⟩, ⟨?_, ?_⟩, ?_⟩ <;>
      exact Sets.required.commutes .required fun _ _ _ => rfl

/-- The settings as they are read, field by field. -/
def puts (options : EditorOptions) : List (EditorOptions → EditorOptions) :=
  [fun former => { former with indentSize := options.indentSize },
    fun former => { former with tabSize := options.tabSize },
    fun former => { former with newLine := options.newLine },
    fun former => { former with spacesForTabs := options.spacesForTabs },
    fun former => { former with indentStyle := options.indentStyle }]

theorem record_carries (options : EditorOptions) :
    List.Forall₂ (fun field put => Carries field options put) record.fields options.puts :=
  .cons (.required "IndentSize" _ Codec.word32_scalar)
    (.cons (.required "TabSize" _ Codec.word32_scalar)
      (.cons (.required "NewLineCharacter" _ Codec.string_scalar)
        (.cons (.required "ConvertTabsToSpaces" _ Codec.boolean_scalar)
          (.cons (.required "IndentStyle" _ IndentStyle.codec_scalar) .nil))))

theorem exchanges (options : EditorOptions) :
    record.codec.Exchanges record.names options (record.members options) :=
  Record.exchanges record_independent options.record_carries rfl

end EditorOptions

namespace FormatOptions

theorem setRule_comm {first second : FormatRule} (h : first ≠ second) (on on' : Bool)
    (options : FormatOptions) :
    setRule first on (setRule second on' options) = setRule second on' (setRule first on options) :=
  congrArg (mk options.editor) (ite_comm_of_ne h on on' options.rules)

theorem record_independent : record.Independent where
  whole := by
    have hrules : FormatRule.all.Pairwise (· ≠ ·) := by decide
    constructor
    · exact List.pairwise_map.2 (by decide +kernel)
    · refine List.pairwise_map.2 (hrules.imp ?_)
      exact fun hne => Sets.required.commutes .required fun on on' options =>
        setRule_comm hne on on' options
  part := EditorOptions.record_independent
  apart := by decide +kernel

/-- Every rule is set to what it is. -/
theorem foldl_setRule (options : FormatOptions) :
    (FormatRule.all.map fun rule => setRule rule (options.rules rule)).foldl
      (fun former put => put former) {} = { editor := {}, rules := options.rules } := by
  simp only [FormatRule.all, List.map_cons, List.map_nil, List.foldl_cons, List.foldl_nil, setRule,
    mk.injEq, true_and]
  funext rule
  cases rule <;> rfl

theorem record_carries (options : FormatOptions) :
    record.Carries options (FormatRule.all.map fun rule => setRule rule (options.rules rule))
      options.editor.puts where
  whole := by
    rw [List.forall₂_map_right_iff]
    refine List.forall₂_map_left_iff.2 (List.forall₂_same.2 fun rule _ => ?_)
    exact .required rule.name _ Codec.boolean_scalar
  part := options.editor.record_carries
  part_eq := rfl
  whole_eq := by
    have hrules := congrArg (record.setPart options.editor) options.foldl_setRule
    exact hrules

theorem exchanges (options : FormatOptions) :
    codec.Exchanges (EditorOptions.record.names ++ record.whole.names) options
      (EditorOptions.record.members options.editor ++ record.whole.members options) :=
  Flattened.exchanges record_independent options.record_carries

end FormatOptions

namespace CompilerOptions

namespace Part

/-- All parts, in the order in which they are sent. -/
def inOrder : List Part :=
  [.flag .allowNonTsExtensions, .text .charset, .flag .declaration, .flag .diagnostics,
    .flag .emitBom, .flag .emitDecoratorMetadata, .flag .experimentalAsyncFunctions,
    .flag .experimentalDecorators, .flag .help, .flag .init, .flag .inlineSourceMap,
    .flag .inlineSources, .flag .isolatedModules, .jsx, .flag .listFiles, .text .locale,
    .text .mapRoot, .moduleKind, .moduleResolution, .newLine, .flag .noEmit,
    .flag .noEmitHelpers, .flag .noEmitOnError, .flag .noErrorTruncation, .flag .noImplicitAny,
    .flag .noLib, .flag .noResolve, .text .out, .text .outDir, .text .outFile,
    .flag .preserveConstEnums, .text .project, .flag .removeComments, .text .rootDir,
    .flag .sourceMap, .text .sourceRoot, .flag .suppressExcessPropertyErrors,
    .flag .suppressImplicitAnyIndexErrors, .target, .flag .version, .flag .watch]

theorem mem_inOrder (part : Part) : part ∈ inOrder := by
  cases part with
  | flag which => cases which <;> decide
  | text which => cases which <;> decide
  | _ => decide

/-- The name of the part for a service. -/
def name : Part → String
  | .flag which => which.name
  | .text which => which.name
  | .jsx => "jsx"
  | .moduleKind => "module"
  | .moduleResolution => "moduleResolution"
  | .newLine => "newLine"
  | .target => "target"

/-- What is sent of the part, if it is set. -/
def sent? (options : CompilerOptions) : Part → Option Value
  | .flag which => (options.flags which).map .boolean
  | .text which => (options.texts which).map .string
  | .jsx => options.jsx.map fun jsx => .ofNat (Choice.number jsx)
  | .moduleKind => options.moduleKind.map fun kind => .ofNat (Choice.number kind)
  | .moduleResolution =>
      options.moduleResolution.map fun resolution => .ofNat (Choice.number resolution)
  | .newLine => options.newLine.map fun ending => .ofNat (Choice.number ending)
  | .target => options.target.map fun target => .ofNat (Choice.number target)

/-- The member that holds the part. -/
def field : Part → RecordField CompilerOptions
  | .flag which => flagField which
  | .text which => textField which
  | .jsx => .optional "jsx" Choice.codec (·.jsx) fun jsx options => { options with jsx }
  | .moduleKind => .optional "module" Choice.codec (·.moduleKind) fun moduleKind options =>
      { options with moduleKind }
  | .moduleResolution => .optional "moduleResolution" Choice.codec (·.moduleResolution)
      fun moduleResolution options => { options with moduleResolution }
  | .newLine => .optional "newLine" Choice.codec (·.newLine) fun newLine options =>
      { options with newLine }
  | .target => .optional "target" Choice.codec (·.target) fun target options =>
      { options with target }

/-- Puts what the part has in the options into former ones, if it is set. -/
def put (options : CompilerOptions) : Part → CompilerOptions → CompilerOptions
  | .flag which => RecordField.fill (setFlag which) (options.flags which)
  | .text which => RecordField.fill (setText which) (options.texts which)
  | .jsx => RecordField.fill (fun jsx former => { former with jsx }) options.jsx
  | .moduleKind =>
      RecordField.fill (fun moduleKind former => { former with moduleKind }) options.moduleKind
  | .moduleResolution =>
      RecordField.fill (fun moduleResolution former => { former with moduleResolution })
        options.moduleResolution
  | .newLine => RecordField.fill (fun newLine former => { former with newLine }) options.newLine
  | .target => RecordField.fill (fun target former => { former with target }) options.target

variable {part other : Part} {options former : CompilerOptions}

theorem name_field (part : Part) : part.field.name = part.name := by
  cases part <;> rfl

theorem write_field (part : Part) (options : CompilerOptions) :
    part.field.write options = part.sent? options := by
  cases part <;> rfl

theorem field_carries (part : Part) (options : CompilerOptions) :
    part.field.Carries options (part.put options) := by
  unfold field put
  cases part with
  | flag which => exact .optional which.name _ Codec.boolean_scalar
  | text which => exact .optional which.name _ Codec.string_scalar
  | jsx => exact .optional "jsx" _ JsxEmit.codec_scalar
  | moduleKind => exact .optional "module" _ ModuleKind.codec_scalar
  | moduleResolution => exact .optional "moduleResolution" _ ModuleResolution.codec_scalar
  | newLine => exact .optional "newLine" _ LineEnding.codec_scalar
  | target => exact .optional "target" _ ScriptTarget.codec_scalar

/-- The part is sent as it was, if it is set. -/
theorem sent?_put_self (part : Part) (options former : CompilerOptions) :
    part.sent? (part.put options former) = (part.sent? options).or (part.sent? former) := by
  cases part with
  | flag which => cases hflag : options.flags which <;> simp [put, sent?, setFlag, hflag]
  | text which => cases htext : options.texts which <;> simp [put, sent?, setText, htext]
  | jsx => cases hjsx : options.jsx <;> simp [put, sent?, hjsx]
  | moduleKind => cases hkind : options.moduleKind <;> simp [put, sent?, hkind]
  | moduleResolution =>
      cases hresolution : options.moduleResolution <;> simp [put, sent?, hresolution]
  | newLine => cases hline : options.newLine <;> simp [put, sent?, hline]
  | target => cases htarget : options.target <;> simp [put, sent?, htarget]

/-- Options of which the same is sent are the same. -/
theorem ext_of_sent? {first second : CompilerOptions}
    (h : ∀ part : Part, part.sent? first = part.sent? second) : first = second := by
  obtain ⟨flags, texts, jsx, moduleKind, moduleResolution, newLine, target⟩ := first
  obtain ⟨flags', texts', jsx', moduleKind', moduleResolution', newLine', target'⟩ := second
  have hflags : flags = flags' := funext fun which =>
    Option.map_injective Codec.boolean_scalar.injective (h (.flag which))
  have htexts : texts = texts' := funext fun which =>
    Option.map_injective Codec.string_scalar.injective (h (.text which))
  have hjsx : jsx = jsx' := Option.map_injective JsxEmit.codec_scalar.injective (h .jsx)
  have hkind : moduleKind = moduleKind' :=
    Option.map_injective ModuleKind.codec_scalar.injective (h .moduleKind)
  have hresolution : moduleResolution = moduleResolution' :=
    Option.map_injective ModuleResolution.codec_scalar.injective (h .moduleResolution)
  have hline : newLine = newLine' :=
    Option.map_injective LineEnding.codec_scalar.injective (h .newLine)
  have htarget : target = target' :=
    Option.map_injective ScriptTarget.codec_scalar.injective (h .target)
  rw [hflags, htexts, hjsx, hkind, hresolution, hline, htarget]

/-- Filling in some other part makes no difference. -/
theorem sent?_fill {α : Type} {set : Option α → CompilerOptions → CompilerOptions}
    (h : ∀ value former, other.sent? (set value former) = other.sent? former) (value : Option α)
    (former : CompilerOptions) :
    other.sent? (RecordField.fill set value former) = other.sent? former := by
  cases value with
  | none => rfl
  | some value => exact h (some value) former

/-- All other parts are sent as before. -/
theorem sent?_put_of_ne (h : other ≠ part) (options former : CompilerOptions) :
    other.sent? (part.put options former) = other.sent? former := by
  unfold put
  cases part with
  | flag which =>
      refine sent?_fill (fun value former => ?_) _ _
      cases other with
      | flag another =>
          have hne : another ≠ which := fun heq => h (congrArg flag heq)
          exact congrArg (Option.map _) (if_neg hne)
      | _ => rfl
  | text which =>
      refine sent?_fill (fun value former => ?_) _ _
      cases other with
      | text another =>
          have hne : another ≠ which := fun heq => h (congrArg text heq)
          exact congrArg (Option.map _) (if_neg hne)
      | _ => rfl
  | jsx | moduleKind | moduleResolution | newLine | target =>
      refine sent?_fill (fun value former => ?_) _ _
      cases other <;> first | rfl | exact absurd rfl h

/-- Setting one part does not interfere with setting another one. -/
theorem field_commutes (h : part ≠ other) : part.field.Commutes other.field := by
  unfold field
  cases part with
  | flag which =>
      cases other with
      | flag another =>
          have hne : which ≠ another := fun heq => h (congrArg flag heq)
          exact Sets.optional.commutes .optional fun value value' options =>
            congrArg (fun flags => { options with flags })
              (ite_comm_of_ne hne value value' options.flags)
      | _ => exact Sets.optional.commutes .optional fun _ _ _ => rfl
  | text which =>
      cases other with
      | text another =>
          have hne : which ≠ another := fun heq => h (congrArg text heq)
          exact Sets.optional.commutes .optional fun value value' options =>
            congrArg (fun texts => { options with texts })
              (ite_comm_of_ne hne value value' options.texts)
      | _ => exact Sets.optional.commutes .optional fun _ _ _ => rfl
  | jsx | moduleKind | moduleResolution | newLine | target =>
      cases other <;>
        first | exact absurd rfl h | exact Sets.optional.commutes .optional fun _ _ _ => rfl

/-- Behind several parts, each of them is sent as it was if it is set. -/
theorem sent?_foldl_put (part : Part) (options former : CompilerOptions) (parts : List Part) :
    part.sent? ((parts.map (put options)).foldl (fun former put => put former) former) =
      if part ∈ parts then (part.sent? options).or (part.sent? former) else part.sent? former := by
  induction parts generalizing former with
  | nil => rfl
  | cons first rest ih =>
      rw [List.map_cons, List.foldl_cons, ih]
      by_cases hfirst : part = first
      · subst hfirst
        -- The part may come again further on; filling it in twice is the same as once.
        rw [sent?_put_self, if_pos List.mem_cons_self]
        cases part.sent? options <;> simp
      · simp only [sent?_put_of_ne hfirst, List.mem_cons, hfirst, false_or]

end Part

theorem fields_eq : record.fields = Part.inOrder.map Part.field := rfl

theorem record_independent : record.Independent where
  names := by
    have hnames : Part.inOrder.Pairwise fun first second => first.name ≠ second.name := by
      decide +kernel
    rw [fields_eq, List.pairwise_map]
    simpa only [Part.name_field] using hnames
  commutes := by
    have hparts : Part.inOrder.Pairwise (· ≠ ·) := by decide +kernel
    exact List.pairwise_map.2 (hparts.imp Part.field_commutes)

/-- From blank settings all parts together make up the settings. -/
theorem foldl_put (options : CompilerOptions) :
    (Part.inOrder.map (Part.put options)).foldl (fun former put => put former) {} = options := by
  refine Part.ext_of_sent? fun part => ?_
  have hblank : part.sent? {} = none := by cases part <;> rfl
  rw [Part.sent?_foldl_put, if_pos part.mem_inOrder, hblank, Option.or_none]

theorem record_carries (options : CompilerOptions) :
    List.Forall₂ (fun field put => Carries field options put) record.fields
      (Part.inOrder.map (Part.put options)) := by
  rw [fields_eq, List.forall₂_map_right_iff, List.forall₂_map_left_iff, List.forall₂_same]
  exact fun part _ => part.field_carries options

/-- What is sent are the parts that are set. -/
theorem mem_members_iff {options : CompilerOptions} {name : String} {value : Value} :
    (name, value) ∈ record.members options ↔
      ∃ part : Part, part.name = name ∧ part.sent? options = some value := by
  simp only [Record.members, fields_eq, List.filterMap_map, List.mem_filterMap, Function.comp_apply,
    Part.name_field, Part.write_field, Option.map_eq_some_iff, Prod.mk.injEq]
  constructor
  · rintro ⟨part, _, _, hsent, hname, rfl⟩
    exact ⟨part, hname, hsent⟩
  · rintro ⟨part, hname, hsent⟩
    exact ⟨part, part.mem_inOrder, value, hsent, hname, rfl⟩

theorem exchanges (options : CompilerOptions) :
    record.codec.Exchanges record.names options (record.members options) :=
  Record.exchanges record_independent options.record_carries options.foldl_put

end CompilerOptions

/-- Settings come back from the objects that they are sent as, with the entries in any order and
among foreign ones with plain values; the objects have no key twice and hold no `null`, and those for
a compiler have exactly the parts that are set. -/
theorem options_exchanged :
    (∀ options : EditorOptions, EditorOptions.record.codec.Exchanges EditorOptions.record.names
      options (EditorOptions.record.members options)) ∧
    (∀ options : FormatOptions, FormatOptions.codec.Exchanges
      (EditorOptions.record.names ++ FormatOptions.record.whole.names) options
      (EditorOptions.record.members options.editor ++ FormatOptions.record.whole.members options)) ∧
    ∀ options : CompilerOptions,
      CompilerOptions.record.codec.Exchanges CompilerOptions.record.names options
        (CompilerOptions.record.members options) ∧
      ∀ name value, (name, value) ∈ CompilerOptions.record.members options ↔
        ∃ part : CompilerOptions.Part, part.name = name ∧ part.sent? options = some value :=
  ⟨EditorOptions.exchanges, FormatOptions.exchanges, fun options =>
    ⟨options.exchanges, fun _ _ => CompilerOptions.mem_members_iff⟩⟩

/-- Settings of a compile request of which three are set. -/
def fewSettings : CompilerOptions where
  flags flag := if flag = .emitBom then some false else none
  texts text := if text = .outDir then some "a\"é" else none
  moduleKind := some .commonJs

/-- Entries under keys that are almost those of settings, one of them twice. -/
def similarEntries : List (String × Value) :=
  [("emitBom", .boolean true), ("Module", .null), ("emitBom", .ofInt (-9223372036854775808)),
    ("outdir", .string "b")]

/-- The few settings among the similar entries. -/
def similarText : String :=
  "\x7b\"outDir\":\"a\\\"é\",\"module\":1,\"emitBOM\":false,\"outdir\":\"b\"," ++
    "\"emitBom\":-9223372036854775808,\"Module\":null,\"emitBom\":true\x7d"

theorem options_exchanged_among_similar_entries :
    CompilerOptions.record.members fewSettings =
        [("emitBOM", .boolean false), ("module", .ofNat 1), ("outDir", .string "a\"é")] ∧
      CompilerOptions.record.codec.ofText similarText = .ok fewSettings ∧
      FormatOptions.codec.ReadsFrom (EditorOptions.record.members {} ++
        FormatOptions.record.whole.members {} ++ similarEntries).reverse {} := by
  obtain ⟨_, hformat, hcompiler⟩ := options_exchanged
  have hplain : ∀ entry ∈ similarEntries, entry.2.Plain := by
    simp only [similarEntries, List.forall_mem_cons, List.not_mem_nil, false_implies, implies_true,
      and_true]
    exact ⟨.boolean true, .null, .integer _ (by decide) (by decide), .string "b"⟩
  have hnames : ∀ entry ∈ similarEntries, entry.1 ∉ CompilerOptions.record.names := by
    decide +kernel
  have hnames' : ∀ entry ∈ similarEntries,
      entry.1 ∉ EditorOptions.record.names ++ FormatOptions.record.whole.names := by decide +kernel
  refine ⟨by rfl, ?_, ?_⟩
  · have hread := (hcompiler fewSettings).1.read similarEntries
      (similarEntries ++ CompilerOptions.record.members fewSettings).reverse
      (fun entry hentry => ⟨hnames entry hentry, hplain entry hentry⟩)
      ((List.reverse_perm _).trans List.perm_append_comm)
    have htext : (Value.object (similarEntries ++
        CompilerOptions.record.members fewSettings).reverse).compact = similarText := by
      decide +kernel
    rw [← htext]
    exact hread.ofText_compact
  · exact (hformat {}).read similarEntries _
      (fun entry hentry => ⟨hnames' entry hentry, hplain entry hentry⟩) (List.reverse_perm _)

end TextEditing
