/-
Module: TextEditing.Proofs.FlattenedMembers
Purpose: Of an object with the fields of a record and of its part, each field reaches the record
  that it belongs to.
Main exports: Tree.toValue_of_isAtom, Flattened.foldlM_takeMember, Flattened.read_eq_of_shows,
  Flattened.exchanges
-/
import TextEditing.Json.Flattened
import TextEditing.Proofs.ShuffledMembers

namespace TextEditing.Json

/-!
Going through an object, the members of the whole are read and the others are kept as they are, each
in their order, so the result is that of two objects which have been told apart beforehand.  What is
no field of the part either is kept all the same, and passed over when the part is read.
-/

/-- A value that holds no others is kept as it is. -/
theorem Tree.toValue_of_isAtom {tree : Tree} (h : tree.isAtom = true) (depth : Nat) :
    ∃ value, tree.toValue depth = .ok value ∧ value.toTree = tree := by
  cases tree with
  | null | boolean _ | number _ | string _ =>
      rw [toValue]
      exact ⟨_, rfl, rfl⟩
  | array _ _ | object _ _ | unsound _ _ _ | missing => cases h

namespace Record

variable {ρ : Type} {kind : Record ρ} {record : ρ}

theorem has_iff_mem_names {name : String} : kind.has name = true ↔ name ∈ kind.names := by
  rw [has_eq_true_iff, names, List.mem_map]

/-- A record is still shown if only members under other keys are left out. -/
theorem Shows.filter {members : List (String × Tree)} (h : kind.Shows record members)
    {kept : String → Bool} (hkept : ∀ name ∈ kind.names, kept name = true) :
    kind.Shows record (members.filter (kept ·.1)) where
  once field hfield := by
    have hsublist : ((members.filter (kept ·.1)).map Prod.fst).Sublist (members.map Prod.fst) :=
      List.filter_sublist.map Prod.fst
    exact Nat.le_trans (hsublist.count_le field.name) (h.once field hfield)
  passed member hmember := h.passed member (List.mem_filter.1 hmember).1
  found field hfield := by
    rw [Dictionary.lookup_filter_of_pos (hkept field.name (List.mem_map_of_mem hfield)),
      h.found field hfield]

end Record

namespace Flattened

variable {ρ π : Type} {kind : Flattened ρ π} {origin : Origin} {members : List (String × Tree)}
  {record : ρ}

/-- A member of the whole is read, and its errors are errors of the whole. -/
theorem takeMember_of_has {name : String} (h : kind.whole.has name = true)
    (progress : Progress ρ) (tree : Tree) :
    kind.takeMember origin progress (.name name) tree =
      (kind.whole.readMember origin progress.whole (.name name) tree).map
        fun whole => { progress with whole } := by
  have hany : kind.whole.fields.any (·.name = name) = true := h
  simp only [takeMember, Key.toName, Except.mapError, bind, Except.bind, hany, if_true]
  cases kind.whole.readMember origin progress.whole (.name name) tree <;> rfl

/-- Any other member is kept as it is. -/
theorem takeMember_of_has_false {name : String} (h : kind.whole.has name = false)
    (progress : Progress ρ) {tree : Tree} (hatom : tree.isAtom = true) :
    kind.takeMember origin progress (.name name) tree =
      .ok { progress with kept := (.name name, tree) :: progress.kept } := by
  have hany : kind.whole.fields.any (·.name = name) = false := h
  obtain ⟨value, hvalue, hsame⟩ := Tree.toValue_of_isAtom hatom (Value.maxDepth - 1)
  simp only [takeMember, Key.toName, Except.mapError, bind, Except.bind, hany, hvalue, hsame,
    Bool.false_eq_true, if_false, pure, Except.pure]

/-- The members of the whole are read by themselves, and the others are kept in front. -/
theorem foldlM_takeMember (hatoms : ∀ member ∈ members, member.2.isAtom = true)
    (progress : Progress ρ) :
    (Tree.named members).foldlM
        (fun progress member => kind.takeMember origin progress member.1 member.2) progress =
      ((Tree.named (members.filter (kind.whole.has ·.1))).foldlM
          (fun progress member => kind.whole.readMember origin progress member.1 member.2)
          progress.whole).map fun whole =>
        ⟨whole, (Tree.named (members.filter (!kind.whole.has ·.1))).reverse ++ progress.kept⟩ := by
  induction members generalizing progress with
  | nil => rfl
  | cons member rest ih =>
      obtain ⟨name, tree⟩ := member
      obtain ⟨hatom, hrest⟩ := List.forall_mem_cons.1 hatoms
      cases hhas : kind.whole.has name with
      | true =>
          simp only [Tree.named, List.map_cons, List.foldlM_cons, List.filter_cons, hhas,
            takeMember_of_has hhas, if_true, Bool.not_true, Bool.false_eq_true, if_false] at ih ⊢
          -- An error of the whole ends both loops, whatever was kept.
          cases kind.whole.readMember origin progress.whole (.name name) tree with
          | error failure => rfl
          | ok whole => exact ih hrest { progress with whole }
      | false =>
          simp only [Tree.named, List.map_cons, List.foldlM_cons, List.filter_cons, hhas,
            takeMember_of_has_false hhas progress hatom, Bool.not_false, Bool.false_eq_true,
            if_true, if_false, List.reverse_cons, List.append_assoc, List.singleton_append] at ih ⊢
          exact ih hrest { progress with kept := (.name name, tree) :: progress.kept }

/-- The whole and its part are read from what each of them has of the members. -/
theorem read_eq (hatoms : ∀ member ∈ members, member.2.isAtom = true) {whole : ρ} {part : π}
    (hwhole : kind.whole.readMembers origin
      (Tree.named (members.filter (kind.whole.has ·.1))) none = .ok whole)
    (hpart : kind.part.readMembers .value
      (Tree.named (members.filter (!kind.whole.has ·.1))) none = .ok part) :
    kind.read origin (.object (Tree.named members) none) = .ok (kind.setPart part whole) := by
  obtain ⟨progress, hprogress, hcomplete, rfl⟩ := Record.readMembers_eq_ok_iff_readAll.1 hwhole
  rw [Record.readAll] at hprogress
  simp only [read, foldlM_takeMember hatoms, hprogress, Except.map, bind, Except.bind, refuse,
    hcomplete, pure, Except.pure, List.append_nil, List.reverse_reverse, hpart]

variable {puts : List (ρ → ρ)} {puts' : List (π → π)}

/-- What is written for the fields of a record, and for those of the part. -/
structure Carries (kind : Flattened ρ π) (record : ρ) (puts : List (ρ → ρ))
    (puts' : List (π → π)) : Prop where
  whole : List.Forall₂ (fun field put => field.Carries record put) kind.whole.fields puts
  part : List.Forall₂ (fun field put => field.Carries (kind.getPart record) put)
    kind.part.fields puts'
  part_eq : puts'.foldl (fun former put => put former) kind.part.blank = kind.getPart record
  whole_eq : kind.setPart (kind.getPart record)
    (puts.foldl (fun former put => put former) kind.whole.blank) = record

/-- The fields of the whole do not interfere, nor do those of the part, and no two have one name. -/
structure Independent (kind : Flattened ρ π) : Prop where
  whole : kind.whole.Independent
  part : kind.part.Independent
  apart : ∀ name ∈ kind.part.names, name ∉ kind.whole.names

/-- A record is read from members that show the whole and the part. -/
theorem read_eq_of_shows (hkind : kind.Independent) (hcarries : kind.Carries record puts puts')
    (hatoms : ∀ member ∈ members, member.2.isAtom = true)
    (hwhole : kind.whole.Shows record members)
    (hpart : kind.part.Shows (kind.getPart record) members) :
    kind.read origin (.object (Tree.named members) none) = .ok record := by
  have hkept : ∀ name ∈ kind.part.names, (!kind.whole.has name) = true := by
    intro name hname
    rw [Bool.not_eq_true', Bool.eq_false_iff, ne_eq, Record.has_iff_mem_names]
    exact hkind.apart name hname
  have hread := (hwhole.filter fun _ hname => Record.has_iff_mem_names.2 hname).readMembers_eq
    hkind.whole (hcarries.whole.imp fun _ _ hfield => hfield.toRestores) origin
  have hread' := (hpart.filter hkept).readMembers_eq hkind.part
    (hcarries.part.imp fun _ _ hfield => hfield.toRestores) .value
  rw [read_eq hatoms hread hread', hcarries.part_eq, hcarries.whole_eq]

theorem isAtom_of_mem_entryTrees {entries : List (String × Value)}
    (hplain : ∀ entry ∈ entries, entry.2.Plain) :
    ∀ member ∈ entryTrees entries, member.2.isAtom = true := by
  intro member hmember
  obtain ⟨entry, hentry, rfl⟩ := List.mem_map.1 hmember
  exact (hplain entry hentry).isAtom

/-- A record with a part is exchanged as one object if its fields carry it. -/
theorem exchanges (hkind : kind.Independent) (hcarries : kind.Carries record puts puts') :
    kind.codec.Exchanges (kind.part.names ++ kind.whole.names) record
      (kind.part.members (kind.getPart record) ++ kind.whole.members record) where
  write := rfl
  nodup := by
    rw [List.map_append]
    refine List.nodup_append'.2 ⟨Record.nodup_members hkind.part.names,
      Record.nodup_members hkind.whole.names, ?_⟩
    intro name hpart hwhole
    exact hkind.apart name (Record.mem_names_of_mem_keys hpart)
      (Record.mem_names_of_mem_keys hwhole)
  known member hmember := by
    rcases List.mem_append.1 hmember with hmem | hmem
    · exact List.mem_append_left _ (Record.mem_names_of_mem_members hmem)
    · exact List.mem_append_right _ (Record.mem_names_of_mem_members hmem)
  ne_null member hmember := by
    rcases List.mem_append.1 hmember with hmem | hmem
    · exact (Record.plain_of_mem_members hcarries.part hmem).2
    · exact (Record.plain_of_mem_members hcarries.whole hmem).2
  read others entries hothers hperm := by
    have hplain : ∀ entry ∈ entries, entry.2.Plain := by
      refine hothers.plain_of_perm ?_ hperm
      intro member hmember
      rcases List.mem_append.1 hmember with hmem | hmem
      · exact (Record.plain_of_mem_members hcarries.part hmem).1
      · exact (Record.plain_of_mem_members hcarries.whole hmem).1
    have hpart : kind.part.Shows (kind.getPart record) (entryTrees entries) := by
      rw [List.append_assoc] at hperm
      refine Record.shows_of_perm hkind.part hperm fun name hname => ?_
      rw [List.map_append, List.mem_append, not_or]
      exact ⟨fun hmem => hkind.apart name hname (Record.mem_names_of_mem_keys hmem),
        hothers.not_mem name (List.mem_append_left _ hname)⟩
    have hwhole : kind.whole.Shows record (entryTrees entries) := by
      have hperm' := hperm.trans (List.perm_append_comm.append_right others)
      rw [List.append_assoc] at hperm'
      refine Record.shows_of_perm hkind.whole hperm' fun name hname => ?_
      rw [List.map_append, List.mem_append, not_or]
      exact ⟨fun hmem => hkind.apart name (Record.mem_names_of_mem_keys hmem) hname,
        hothers.not_mem name (List.mem_append_right _ hname)⟩
    have hkept : ∀ entry ∈ (Dictionary.ofList entries).entries, entry.2.Plain :=
      fun entry hentry => hplain entry (Dictionary.mem_of_mem_ofList hentry)
    exact Codec.readsFrom hplain
      (read_eq_of_shows hkind hcarries (isAtom_of_mem_entryTrees hplain) hwhole hpart)
      (read_eq_of_shows hkind hcarries (isAtom_of_mem_entryTrees hkept) hwhole.valueMembers
        hpart.valueMembers)

end Flattened

end TextEditing.Json
