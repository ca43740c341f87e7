/-
Module: TextEditing.Proofs.RecordMembers
Purpose: A record is read from the members that its fields have in an object, in whatever order they
  stand there.
Main exports: RecordField.readFound, RecordField.Commutes, Record.Independent, Record.filled,
  Record.Suits, Record.readMembers_eq_ok_iff
-/
import Mathlib.Data.List.Induction
import TextEditing.Json.Record
import TextEditing.Proofs.Dictionaries
import TextEditing.Proofs.Traversals
import TextEditing.Proofs.TreeValues

namespace TextEditing.Json

/-!
The members of an object are read one after the other, and each one that belongs to a field sets that
field.  If setting one field leaves the others alone, the order of the members makes no difference:
the record is the same as if the fields were gone through in the order of the description, and each
were looked up among the members.
-/

variable {ρ : Type}

theorem refuse_eq_ok_iff {defect : Option Defect} {done : Unit} :
    refuse defect = .ok done ↔ defect = none := by
  cases defect <;> simp [refuse]

namespace RecordField

/-- What the tree found for a field does to the record; without one the record stays as it is. -/
def readFound (field : RecordField ρ) (origin : Origin) :
    Option Tree → Except DecodeError (ρ → ρ)
  | none => .ok id
  | some tree => field.read origin tree

@[simp] theorem readFound_none (field : RecordField ρ) (origin : Origin) :
    field.readFound origin none = .ok id := rfl

@[simp] theorem readFound_some (field : RecordField ρ) (origin : Origin) (tree : Tree) :
    field.readFound origin (some tree) = field.read origin tree := rfl

/-- Whichever of two fields is set first, the record is the same. -/
def Commutes (first second : RecordField ρ) : Prop :=
  ∀ origin other tree tree' put put', first.read origin tree = .ok put →
    second.read other tree' = .ok put' → ∀ record, put (put' record) = put' (put record)

theorem Commutes.symm {first second : RecordField ρ} (h : first.Commutes second) :
    second.Commutes first := by
  intro origin other tree tree' put put' hput hput' record
  exact (h other origin tree' tree put' put hput' hput record).symm

/-- Whatever the field is read from, it is set in this way. -/
def Sets {α : Type} (field : RecordField ρ) (set : α → ρ → ρ) : Prop :=
  ∀ origin tree put, field.read origin tree = .ok put → ∃ value, put = set value

section Sets

variable {α β : Type} {name : String} {codec : Codec α} {get : ρ → α} {set : α → ρ → ρ}

theorem Sets.required : (RecordField.required name codec get set).Sets set := by
  intro origin tree put hput
  obtain ⟨value, _, rfl⟩ := map_eq_ok_iff.1 hput
  exact ⟨value, rfl⟩

theorem Sets.defaulted : (RecordField.defaulted name codec get set).Sets set :=
  fun _ _ _ hput => (map_eq_ok_iff.1 hput).imp fun _ h => h.2

/-- Fields commute if their setters do. -/
theorem Sets.commutes {first second : RecordField ρ} {set' : β → ρ → ρ} (h : first.Sets set)
    (h' : second.Sets set')
    (hset : ∀ value value' record, set value (set' value' record) = set' value' (set value record)) :
    first.Commutes second := by
  intro origin other tree tree' put put' hput hput' record
  obtain ⟨value, rfl⟩ := h origin tree put hput
  obtain ⟨value', rfl⟩ := h' other tree' put' hput'
  exact hset value value' record

end Sets

end RecordField

namespace Record

/-- The fields of a record have different names and do not interfere with one another. -/
structure Independent (kind : Record ρ) : Prop where
  names : kind.fields.Pairwise fun first second => first.name ≠ second.name
  commutes : kind.fields.Pairwise RecordField.Commutes

/-- The record with each field set to what is found under its name. -/
def filled (kind : Record ρ) (origin : Origin) (find : String → Option Tree) :
    Except DecodeError ρ := do
  let changes ← kind.fields.mapM fun field => field.readFound origin (find field.name)
  pure (changes.foldl (fun record change => change record) kind.blank)

/-- The members are those of a record, whatever their values are read as: no field comes twice, what
is no field can be passed over, and every field that is wanted is there. -/
structure Suits (kind : Record ρ) (members : List (String × Tree)) : Prop where
  once : ∀ field ∈ kind.fields, (members.map Prod.fst).count field.name ≤ 1
  passed : ∀ member ∈ members, (∀ field ∈ kind.fields, field.name ≠ member.1) →
    member.2.pass = none
  complete : ∀ field ∈ kind.fields, field.absence = .never →
    (members.lookup field.name).isSome

variable {kind : Record ρ} {origin : Origin}

theorem filled_eq_ok_iff {find : String → Option Tree} {record : ρ} :
    kind.filled origin find = .ok record ↔
      ∃ changes, kind.fields.mapM (fun field => field.readFound origin (find field.name)) =
          .ok changes ∧
        record = changes.foldl (fun record change => change record) kind.blank :=
  map_eq_ok_iff

/-- Without any member the record stays blank. -/
theorem filled_none (kind : Record ρ) (origin : Origin) :
    kind.filled origin (fun _ => none) = .ok kind.blank := by
  have hchanges : kind.fields.mapM (fun field => field.readFound origin none) =
      .ok (kind.fields.map fun _ => id) := List.mapM_pure
  refine filled_eq_ok_iff.2 ⟨_, hchanges, ?_⟩
  induction kind.fields with
  | nil => rfl
  | cons field rest ih => exact ih

/-- What is found matters only under the names of fields. -/
theorem filled_congr {find find' : String → Option Tree}
    (h : ∀ field ∈ kind.fields, find field.name = find' field.name) :
    kind.filled origin find = kind.filled origin find' := by
  have hfields : kind.fields.mapM (fun field => field.readFound origin (find field.name)) =
      kind.fields.mapM fun field => field.readFound origin (find' field.name) :=
    mapM_congr_left fun field hfield => congrArg (field.readFound origin) (h field hfield)
  rw [filled, filled, hfields]

/-- What is found for the fields may be replaced by what is read in the same way. -/
theorem filled_transfer {other : Origin} {find find' : String → Option Tree}
    (h : ∀ field ∈ kind.fields, ∀ put, field.readFound origin (find field.name) = .ok put →
      field.readFound other (find' field.name) = .ok put) {record : ρ}
    (hfilled : kind.filled origin find = .ok record) : kind.filled other find' = .ok record := by
  obtain ⟨changes, hchanges, hrecord⟩ := filled_eq_ok_iff.1 hfilled
  exact filled_eq_ok_iff.2 ⟨changes, mapM_transfer (List.forall₂_same.2 h) hchanges, hrecord⟩

/-- A change of one field may as well be made in front of the changes of others. -/
theorem foldl_of_commutes {field : RecordField ρ} {other : Origin} {tree : Tree} {put : ρ → ρ}
    (hput : field.read other tree = .ok put) {fields : List (RecordField ρ)}
    (hcommutes : ∀ second ∈ fields, field.Commutes second) {find : String → Option Tree}
    {changes : List (ρ → ρ)}
    (hchanges : fields.mapM (fun field => field.readFound origin (find field.name)) = .ok changes)
    (record : ρ) :
    put (changes.foldl (fun record change => change record) record) =
      changes.foldl (fun record change => change record) (put record) := by
  induction fields generalizing changes record with
  | nil =>
      cases hchanges
      rfl
  | cons second rest ih =>
      obtain ⟨hsecond, hrest⟩ := List.forall_mem_cons.1 hcommutes
      obtain ⟨change, others, hchange, hothers, rfl⟩ := mapM_cons_eq_ok_iff.1 hchanges
      have hswap : put (change record) = change (put record) := by
        cases hfound : find second.name with
        | none =>
            rw [hfound] at hchange
            cases hchange
            rfl
        | some found =>
            rw [hfound] at hchange
            exact hsecond other origin tree found put change hput hchange record
      rw [List.foldl_cons, List.foldl_cons, ih hrest hothers, hswap]

/-- A tree that is found in addition makes the change that its field makes of it. -/
theorem filled_found (hkind : kind.Independent) {field : RecordField ρ}
    (hfield : field ∈ kind.fields) {find find' : String → Option Tree} {tree : Tree}
    (hnone : find field.name = none) (hsome : find' field.name = some tree)
    (hothers : ∀ name, name ≠ field.name → find' name = find name) {result : ρ} :
    kind.filled origin find' = .ok result ↔
      ∃ record put, kind.filled origin find = .ok record ∧ field.read origin tree = .ok put ∧
        result = put record := by
  obtain ⟨front, back, hfields⟩ := List.append_of_mem hfield
  have hnames := hkind.names
  have hcommutes := hkind.commutes
  rw [hfields] at hnames hcommutes
  obtain ⟨_, hback, hfront⟩ := List.pairwise_append.1 hnames
  have hbehind := (List.pairwise_cons.1 (List.pairwise_append.1 hcommutes).2.1).1
  -- Only this field finds something else.
  have hfrontSame : front.mapM (fun other => other.readFound origin (find' other.name)) =
      front.mapM fun other => other.readFound origin (find other.name) :=
    mapM_congr_left fun other hother => congrArg (other.readFound origin)
      (hothers other.name (hfront other hother field List.mem_cons_self))
  have hbackSame : back.mapM (fun other => other.readFound origin (find' other.name)) =
      back.mapM fun other => other.readFound origin (find other.name) :=
    mapM_congr_left fun other hother => congrArg (other.readFound origin)
      (hothers other.name ((List.pairwise_cons.1 hback).1 other hother).symm)
  simp only [filled_eq_ok_iff, hfields, mapM_append_eq_ok_iff, mapM_cons_eq_ok_iff, hfrontSame,
    hbackSame, hnone, hsome, RecordField.readFound_none, RecordField.readFound_some]
  constructor
  · rintro ⟨_, ⟨former, _, hformer, ⟨put, latter, hput, hlatter, rfl⟩, rfl⟩, rfl⟩
    refine ⟨_, put, ⟨_, ⟨former, _, hformer, ⟨id, latter, rfl, hlatter, rfl⟩, rfl⟩, rfl⟩, hput, ?_⟩
    simp only [List.foldl_append, List.foldl_cons, id]
    exact (foldl_of_commutes hput hbehind hlatter _).symm
  · rintro ⟨_, put, ⟨_, ⟨former, _, hformer, ⟨_, latter, hid, hlatter, rfl⟩, rfl⟩, rfl⟩, hput, rfl⟩
    cases hid
    refine ⟨_, ⟨former, _, hformer, ⟨put, latter, hput, hlatter, rfl⟩, rfl⟩, ?_⟩
    simp only [List.foldl_append, List.foldl_cons, id]
    exact foldl_of_commutes hput hbehind hlatter _

/-!
### One member after the other
-/

/-- There is a field of the name. -/
def has (kind : Record ρ) (name : String) : Bool := kind.fields.any (·.name = name)

theorem has_eq_true_iff {name : String} :
    kind.has name = true ↔ ∃ field ∈ kind.fields, field.name = name := by
  simp only [has, List.any_eq_true, decide_eq_true_eq]

theorem has_eq_false_iff {name : String} :
    kind.has name = false ↔ ∀ field ∈ kind.fields, field.name ≠ name := by
  rw [← Bool.not_eq_true, has_eq_true_iff]
  simp only [not_exists, not_and, ne_eq]

theorem readMember_of_has_false {name : String} (h : kind.has name = false)
    (progress : Progress ρ) (tree : Tree) :
    kind.readMember origin progress (.name name) tree =
      (refuse tree.pass).map fun _ => progress := by
  have hnone : kind.fields.find? (·.name = name) = none := by
    rw [List.find?_eq_none]
    intro field hfield
    simpa only [decide_eq_true_eq] using has_eq_false_iff.1 h field hfield
  simp only [readMember, hnone]
  cases refuse tree.pass <;> rfl

theorem readMember_of_field (hkind : kind.Independent) {field : RecordField ρ}
    (hfield : field ∈ kind.fields) (progress : Progress ρ) (tree : Tree) :
    kind.readMember origin progress (.name field.name) tree =
      if field.name ∈ progress.seen then .error (.duplicateField field.name)
      else (field.read origin tree).map fun put =>
        ⟨put progress.record, field.name :: progress.seen⟩ := by
  have hsome : kind.fields.find? (·.name = field.name) = some field := by
    obtain ⟨front, back, hfields⟩ := List.append_of_mem hfield
    have hnames := hkind.names
    rw [hfields] at hnames ⊢
    have hfront := (List.pairwise_append.1 hnames).2.2
    rw [List.find?_append, List.find?_eq_none.2, Option.none_or, List.find?_cons_of_pos]
    · exact decide_eq_true rfl
    · intro other hother
      simpa only [decide_eq_true_eq] using hfront other hother field List.mem_cons_self
  simp only [readMember, hsome]
  split
  · rfl
  · cases field.read origin tree <;> rfl

/-- Reads members with sound keys, the first one first. -/
def readAll (kind : Record ρ) (origin : Origin) (members : List (String × Tree)) :
    Except DecodeError (Progress ρ) :=
  (Tree.named members).foldlM
    (fun progress member => kind.readMember origin progress member.1 member.2) ⟨kind.blank, []⟩

theorem readAll_append_eq_ok_iff {members : List (String × Tree)} {name : String} {tree : Tree}
    {result : Progress ρ} :
    kind.readAll origin (members ++ [(name, tree)]) = .ok result ↔
      ∃ progress, kind.readAll origin members = .ok progress ∧
        kind.readMember origin progress (.name name) tree = .ok result := by
  rw [readAll, Tree.named, List.map_append, List.foldlM_append, bind_eq_ok_iff]
  simp only [List.map_cons, List.map_nil, List.foldlM_cons, List.foldlM_nil, bind_pure]
  rfl

/-- How far reading has come behind these members. -/
structure Reached (kind : Record ρ) (origin : Origin) (members : List (String × Tree))
    (progress : Progress ρ) : Prop where
  once : ∀ field ∈ kind.fields, (members.map Prod.fst).count field.name ≤ 1
  passed : ∀ member ∈ members, kind.has member.1 = false → member.2.pass = none
  record : kind.filled origin (members.lookup ·) = .ok progress.record
  seen : progress.seen = ((members.map Prod.fst).filter kind.has).reverse

theorem Reached.mem_seen_iff {members : List (String × Tree)} {progress : Progress ρ}
    (h : kind.Reached origin members progress) {field : RecordField ρ}
    (hfield : field ∈ kind.fields) :
    field.name ∈ progress.seen ↔ field.name ∈ members.map Prod.fst := by
  have hhas : kind.has field.name = true := has_eq_true_iff.2 ⟨field, hfield, rfl⟩
  simp only [h.seen, List.mem_reverse, List.mem_filter, hhas, and_true]

theorem reached_append_of_has_false {members : List (String × Tree)} {name : String} {tree : Tree}
    {progress : Progress ρ} (h : kind.has name = false) :
    kind.Reached origin (members ++ [(name, tree)]) progress ↔
      kind.Reached origin members progress ∧ tree.pass = none := by
  have hname := has_eq_false_iff.1 h
  have hkeys : (members ++ [(name, tree)]).map Prod.fst = members.map Prod.fst ++ [name] :=
    List.map_append
  have hcount : ∀ field ∈ kind.fields,
      ((members ++ [(name, tree)]).map Prod.fst).count field.name =
        (members.map Prod.fst).count field.name := by
    intro field hfield
    rw [hkeys, List.count_append, List.count_singleton,
      if_neg (by simpa using (hname field hfield).symm), Nat.add_zero]
  have hfilled : kind.filled origin ((members ++ [(name, tree)]).lookup ·) =
      kind.filled origin (members.lookup ·) := by
    refine filled_congr fun field hfield => ?_
    rw [List.lookup_append, Dictionary.lookup_cons, if_neg (hname field hfield), List.lookup_nil,
      Option.or_none]
  have hseen : ((members ++ [(name, tree)]).map Prod.fst).filter kind.has =
      (members.map Prod.fst).filter kind.has := by
    rw [hkeys, List.filter_append, List.filter_cons_of_neg (by simp [h]), List.filter_nil,
      List.append_nil]
  constructor
  · rintro ⟨honce, hpassed, hrecord, hpresent⟩
    refine ⟨⟨fun field hfield => hcount field hfield ▸ honce field hfield, ?_, hfilled ▸ hrecord,
      hseen ▸ hpresent⟩, hpassed (name, tree) (by simp) h⟩
    intro member hmember
    exact hpassed member (List.mem_append_left _ hmember)
  · rintro ⟨⟨honce, hpassed, hrecord, hpresent⟩, hpass⟩
    refine ⟨fun field hfield => (hcount field hfield).symm ▸ honce field hfield, ?_,
      hfilled.symm ▸ hrecord, hseen.symm ▸ hpresent⟩
    intro member hmember hother
    rcases List.mem_append.1 hmember with hmember | hmember
    · exact hpassed member hmember hother
    · rw [List.mem_singleton.1 hmember]
      exact hpass

theorem reached_append_field (hkind : kind.Independent) {members : List (String × Tree)}
    {field : RecordField ρ} (hfield : field ∈ kind.fields) {tree : Tree} {result : Progress ρ} :
    kind.Reached origin (members ++ [(field.name, tree)]) result ↔
      ∃ progress put, kind.Reached origin members progress ∧ field.name ∉ progress.seen ∧
        field.read origin tree = .ok put ∧
        result = ⟨put progress.record, field.name :: progress.seen⟩ := by
  have hhas : kind.has field.name = true := has_eq_true_iff.2 ⟨field, hfield, rfl⟩
  have hkeys : (members ++ [(field.name, tree)]).map Prod.fst =
      members.map Prod.fst ++ [field.name] := List.map_append
  have hseen : (((members ++ [(field.name, tree)]).map Prod.fst).filter kind.has).reverse =
      field.name :: ((members.map Prod.fst).filter kind.has).reverse := by
    rw [hkeys, List.filter_append, List.filter_cons_of_pos hhas, List.filter_nil,
      List.reverse_append, List.reverse_singleton, List.singleton_append]
  have hfound : field.name ∉ members.map Prod.fst → ∀ record,
      (kind.filled origin ((members ++ [(field.name, tree)]).lookup ·) = .ok record ↔
        ∃ former put, kind.filled origin (members.lookup ·) = .ok former ∧
          field.read origin tree = .ok put ∧ record = put former) := by
    intro hnew record
    have hnone : members.lookup field.name = none := Dictionary.lookup_eq_none_iff.2 hnew
    refine filled_found hkind hfield hnone ?_ ?_
    · rw [List.lookup_append, hnone, Option.none_or, List.lookup_cons_self]
    · intro name hname
      rw [List.lookup_append, Dictionary.lookup_cons, if_neg hname, List.lookup_nil,
        Option.or_none]
  constructor
  · intro hresult
    have hnew : field.name ∉ members.map Prod.fst := by
      have honce := hresult.once field hfield
      rw [hkeys, List.count_append, List.count_singleton_self] at honce
      exact List.count_eq_zero.1 (by omega)
    obtain ⟨former, put, hformer, hput, hrecord⟩ := (hfound hnew result.record).1 hresult.record
    have hreached : kind.Reached origin members
        ⟨former, ((members.map Prod.fst).filter kind.has).reverse⟩ := by
      refine ⟨fun other hother => ?_, fun member hmember => ?_, hformer, rfl⟩
      · have honce := hresult.once other hother
        rw [hkeys, List.count_append] at honce
        omega
      · exact hresult.passed member (List.mem_append_left _ hmember)
    refine ⟨_, put, hreached, mt (hreached.mem_seen_iff hfield).1 hnew, hput, ?_⟩
    obtain ⟨record, seen⟩ := result
    cases hrecord
    cases hresult.seen.trans hseen
    rfl
  · rintro ⟨progress, put, hprogress, hnew, hput, rfl⟩
    rw [hprogress.mem_seen_iff hfield] at hnew
    refine ⟨fun other hother => ?_, fun member hmember hother => ?_,
      (hfound hnew _).2 ⟨_, put, hprogress.record, hput, rfl⟩, ?_⟩
    · have honce := hprogress.once other hother
      rw [hkeys, List.count_append]
      by_cases hname : field.name = other.name
      · have hnone : (members.map Prod.fst).count other.name = 0 := hname ▸ List.count_eq_zero.2 hnew
        have hone : [field.name].count other.name ≤ 1 := List.count_le_length
        omega
      · rw [List.count_singleton, if_neg (by simpa using hname)]
        exact honce
    · rcases List.mem_append.1 hmember with hmember | hmember
      · exact hprogress.passed member hmember hother
      · rw [List.mem_singleton.1 hmember, hhas] at hother
        cases hother
    · rw [hseen, ← hprogress.seen]

/-- Reading members succeeds exactly in the way that looking up the fields among them does. -/
theorem readAll_eq_ok_iff (hkind : kind.Independent) {members : List (String × Tree)}
    {progress : Progress ρ} :
    kind.readAll origin members = .ok progress ↔ kind.Reached origin members progress := by
  induction members using List.reverseRecOn generalizing progress with
  | nil =>
      have hblank := filled_none kind origin
      constructor
      · intro h
        cases h
        exact ⟨fun _ _ => Nat.zero_le 1, fun _ h => absurd h List.not_mem_nil, hblank, rfl⟩
      · intro h
        obtain ⟨record, seen⟩ := progress
        cases hblank.symm.trans h.record
        cases h.seen
        rfl
  | append_singleton members member ih =>
      obtain ⟨name, tree⟩ := member
      rw [readAll_append_eq_ok_iff]
      simp only [ih]
      cases hname : kind.has name with
      | false =>
          rw [reached_append_of_has_false hname]
          simp only [readMember_of_has_false hname, map_eq_ok_iff]
          constructor
          · rintro ⟨_, hreached, _, hpass, rfl⟩
            exact ⟨hreached, refuse_eq_ok_iff.1 hpass⟩
          · rintro ⟨hreached, hpass⟩
            exact ⟨progress, hreached, (), refuse_eq_ok_iff.2 hpass, rfl⟩
      | true =>
          obtain ⟨field, hfield, rfl⟩ := has_eq_true_iff.1 hname
          rw [reached_append_field hkind hfield]
          simp only [readMember_of_field hkind hfield]
          constructor
          · rintro ⟨former, hreached, hstep⟩
            split at hstep
            · cases hstep
            · rename_i hnew
              obtain ⟨put, hput, rfl⟩ := map_eq_ok_iff.1 hstep
              exact ⟨former, put, hreached, hnew, hput, rfl⟩
          · rintro ⟨former, put, hreached, hnew, hput, rfl⟩
            refine ⟨former, hreached, ?_⟩
            rw [if_neg hnew, hput]
            rfl

/-- Reading an object ends with the record unless a field that is wanted is missing. -/
theorem readMembers_eq_ok_iff_readAll {members : List (String × Tree)} {record : ρ} :
    kind.readMembers origin (Tree.named members) none = .ok record ↔
      ∃ progress, kind.readAll origin members = .ok progress ∧
        kind.missing? progress.seen = none ∧ progress.record = record := by
  rw [readMembers, ← readAll]
  cases kind.readAll origin members with
  | error failure => simp [bind, Except.bind]
  | ok progress =>
      cases hmissing : kind.missing? progress.seen <;>
        simp [bind, Except.bind, pure, Except.pure, refuse, hmissing]

/-- A record is read from an object exactly if its members suit the fields and each field can be read
from what is found under its name; the order of the members makes no difference. -/
theorem readMembers_eq_ok_iff (hkind : kind.Independent) {members : List (String × Tree)}
    {record : ρ} :
    kind.readMembers origin (Tree.named members) none = .ok record ↔
      kind.Suits members ∧ kind.filled origin (members.lookup ·) = .ok record := by
  have hmissing : ∀ progress : Progress ρ, kind.Reached origin members progress →
      (kind.missing? progress.seen = none ↔ ∀ field ∈ kind.fields, field.absence = .never →
        (members.lookup field.name).isSome) := by
    intro progress hreached
    have hfound : ∀ field ∈ kind.fields,
        (field.name ∈ progress.seen ↔ (members.lookup field.name).isSome) := by
      intro field hfield
      exact (hreached.mem_seen_iff hfield).trans Dictionary.isSome_lookup_iff.symm
    simp only [missing?, Option.map_eq_none_iff, List.find?_eq_none, decide_eq_true_eq, not_and,
      not_not]
    exact forall₂_congr fun field hfield => imp_congr_right fun _ => hfound field hfield
  rw [readMembers_eq_ok_iff_readAll]
  simp only [readAll_eq_ok_iff hkind]
  constructor
  · rintro ⟨progress, hreached, hcomplete, rfl⟩
    refine ⟨⟨hreached.once, ?_, (hmissing progress hreached).1 hcomplete⟩, hreached.record⟩
    intro member hmember hother
    exact hreached.passed member hmember (has_eq_false_iff.2 hother)
  · rintro ⟨⟨honce, hpassed, hcomplete⟩, hrecord⟩
    have hreached : kind.Reached origin members
        ⟨record, ((members.map Prod.fst).filter kind.has).reverse⟩ := by
      refine ⟨honce, fun member hmember hother => ?_, hrecord, rfl⟩
      exact hpassed member hmember (has_eq_false_iff.1 hother)
    exact ⟨_, hreached, (hmissing _ hreached).2 hcomplete, rfl⟩

end Record

end TextEditing.Json
