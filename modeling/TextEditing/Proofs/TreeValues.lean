/-
Module: TextEditing.Proofs.TreeValues
Purpose: Which value a sound tree has.
Main exports: Tree.DistinctKeys, Tree.named, Tree.toValue_array_eq_ok_iff,
  Tree.toValue_object_eq_ok_iff, Tree.toValue_cases, Tree.pass_of_toValue, Value.sorted,
  Value.nesting, Value.toValue_toTree
-/
import TextEditing.Json.Value
import TextEditing.Proofs.Traversals

namespace TextEditing.Json

/-!
A tree has a value if it is sound and not too deep.  The value has what the tree has, but for the
members of objects: they come in ascending order of their keys, and of several with one key only the
last is there.
-/

namespace Tree

mutual

/-- No object in the tree has two members with one key. -/
def DistinctKeys : Tree → Prop
  | .array entries _ => DistinctEntries entries
  | .object members _ => (members.map Prod.fst).Nodup ∧ DistinctMembers members
  | _ => True

/-- No object in the entries of an array has two members with one key. -/
def DistinctEntries : List Tree → Prop
  | [] => True
  | tree :: rest => tree.DistinctKeys ∧ DistinctEntries rest

/-- No object in the values of an object has two members with one key. -/
def DistinctMembers : List (Key × Tree) → Prop
  | [] => True
  | (_, tree) :: rest => tree.DistinctKeys ∧ DistinctMembers rest

end

theorem distinctKeys_array_iff {entries : List Tree} {defect : Option Defect} :
    (array entries defect).DistinctKeys ↔ ∀ tree ∈ entries, tree.DistinctKeys := by
  rw [DistinctKeys]
  induction entries with
  | nil => simp [DistinctEntries]
  | cons tree rest ih => simp [DistinctEntries, ih]

theorem distinctKeys_object_iff {members : List (Key × Tree)} {defect : Option Defect} :
    (object members defect).DistinctKeys ↔
      (members.map Prod.fst).Nodup ∧ ∀ member ∈ members, member.2.DistinctKeys := by
  have hmembers : DistinctMembers members ↔ ∀ member ∈ members, member.2.DistinctKeys := by
    induction members with
    | nil => simp [DistinctMembers]
    | cons member rest ih => simp only [DistinctMembers, ih, List.forall_mem_cons]
  rw [DistinctKeys, hmembers]

variable {depth : Nat} {value : Value}

/-- The value built from the contents of an array or object, unless a defect stands behind them. -/
def closed {α : Type} (contents : Except Defect α) (defect : Option Defect) (build : α → Value) :
    Except Defect Value := do
  let values ← contents
  match defect with
  | some defect => .error defect
  | none => pure (build values)

theorem closed_eq_ok_iff {α : Type} {contents : Except Defect α} {defect : Option Defect}
    {build : α → Value} :
    closed contents defect build = .ok value ↔
      ∃ values, contents = .ok values ∧ defect = none ∧ value = build values := by
  cases contents <;> cases defect <;>
    simp [closed, bind, Except.bind, pure, Except.pure, eq_comm]

/-- The name and the value of a member. -/
def memberValue (depth : Nat) (member : Key × Tree) : Except Defect (String × Value) := do
  let name ← member.1.toName
  let value ← member.2.toValue depth
  pure (name, value)

theorem memberValue_eq_ok_iff {member : Key × Tree} {result : String × Value} :
    memberValue depth member = .ok result ↔
      member.1 = .name result.1 ∧ member.2.toValue depth = .ok result.2 := by
  obtain ⟨key, tree⟩ := member
  obtain ⟨name, value⟩ := result
  cases key with
  | name text =>
      cases htree : tree.toValue depth <;>
        simp [memberValue, Key.toName, htree, bind, Except.bind, pure, Except.pure]
  | unsound defect => simp [memberValue, Key.toName, bind, Except.bind]

theorem toValue_array (entries : List Tree) (defect : Option Defect) :
    (array entries defect).toValue (depth + 1) =
      closed (entries.mapM (toValue depth)) defect .array := by
  rw [toValue]
  rfl

theorem toValue_object (members : List (Key × Tree)) (defect : Option Defect) :
    (object members defect).toValue (depth + 1) =
      closed (members.mapM (memberValue depth)) defect .ofMembers := by
  rw [toValue]
  rfl

/-- The values of sound entries, in their order. -/
theorem toValue_array_eq_ok_iff {entries : List Tree} {defect : Option Defect} :
    (array entries defect).toValue depth = .ok value ↔
      ∃ below values, depth = below + 1 ∧
        List.Forall₂ (fun tree value => tree.toValue below = .ok value) entries values ∧
        defect = none ∧ value = .array values := by
  cases depth with
  | zero => simp [toValue]
  | succ below => simp [toValue_array, closed_eq_ok_iff, mapM_eq_ok_iff]

/-- Members with sound keys. -/
def named (members : List (String × Tree)) : List (Key × Tree) :=
  members.map fun member => (.name member.1, member.2)

/-- Members of a tree and of a value that have the same names, with the values of the trees. -/
def Members (depth : Nat) : List (String × Tree) → List (String × Value) → Prop :=
  List.Forall₂ fun member value => member.1 = value.1 ∧ member.2.toValue depth = .ok value.2

theorem mapM_memberValue_eq_ok_iff {members : List (Key × Tree)}
    {values : List (String × Value)} :
    members.mapM (memberValue depth) = .ok values ↔
      ∃ trees, members = named trees ∧ Members depth trees values := by
  simp only [mapM_eq_ok_iff, memberValue_eq_ok_iff]
  constructor
  · intro h
    induction h with
    | nil => exact ⟨[], rfl, .nil⟩
    | @cons member value _ _ hmember _ ih =>
        obtain ⟨trees, rfl, hvalues⟩ := ih
        obtain ⟨key, tree⟩ := member
        obtain ⟨rfl, hvalue⟩ := hmember
        exact ⟨(value.1, tree) :: trees, rfl, .cons ⟨rfl, hvalue⟩ hvalues⟩
  · rintro ⟨trees, rfl, hvalues⟩
    rw [named, List.forall₂_map_left_iff]
    exact hvalues.imp fun member value h => ⟨congrArg Key.name h.1, h.2⟩

/-- The values of sound members, in the order of their keys. -/
theorem toValue_object_eq_ok_iff {members : List (Key × Tree)} {defect : Option Defect} :
    (object members defect).toValue depth = .ok value ↔
      ∃ below trees values, depth = below + 1 ∧ members = named trees ∧
        Members below trees values ∧ defect = none ∧ value = .ofMembers values := by
  cases depth with
  | zero => simp [toValue]
  | succ below =>
      simp only [toValue_object, closed_eq_ok_iff, mapM_memberValue_eq_ok_iff]
      constructor
      · rintro ⟨values, ⟨trees, hmembers, hvalues⟩, hdefect, hvalue⟩
        exact ⟨below, trees, values, rfl, hmembers, hvalues, hdefect, hvalue⟩
      · rintro ⟨_, trees, values, hdepth, hmembers, hvalues, hdefect, hvalue⟩
        cases hdepth
        exact ⟨values, ⟨trees, hmembers, hvalues⟩, hdefect, hvalue⟩

/-- The tree is one sound token. -/
def isAtom : Tree → Bool
  | null | boolean _ | number _ | string _ => true
  | _ => false

/-- What can have a value: an atom is the tree of its value, an array or object has it from what it
holds. -/
theorem toValue_cases {tree : Tree} (h : tree.toValue depth = .ok value) :
    (tree.isAtom = true ∧ value.toTree = tree) ∨
      (∃ below entries values, tree = .array entries none ∧
        List.Forall₂ (fun tree value => tree.toValue below = .ok value) entries values ∧
        value = .array values) ∨
      ∃ below trees values, tree = .object (named trees) none ∧ Members below trees values ∧
        value = .ofMembers values := by
  cases tree with
  | array entries defect =>
      obtain ⟨below, values, _, hvalues, rfl, rfl⟩ := toValue_array_eq_ok_iff.1 h
      exact .inr (.inl ⟨below, entries, values, rfl, hvalues, rfl⟩)
  | object members defect =>
      obtain ⟨below, trees, values, _, rfl, hvalues, rfl, rfl⟩ := toValue_object_eq_ok_iff.1 h
      exact .inr (.inr ⟨below, trees, values, rfl, hvalues, rfl⟩)
  | null | boolean _ | number _ | string _ =>
      rw [toValue] at h
      cases h
      exact .inl ⟨rfl, rfl⟩
  | unsound _ _ _ | missing =>
      rw [toValue] at h
      cases h

/-- A sound tree can be passed over. -/
theorem pass_of_toValue {tree : Tree} (h : tree.toValue depth = .ok value) : tree.pass = none := by
  rcases toValue_cases h with ⟨hatom, _⟩ | ⟨_, _, _, rfl, _⟩ | ⟨_, _, _, rfl, _⟩
  · cases tree <;> first | rfl | cases hatom
  · rfl
  · rfl

end Tree

namespace Value

/-- The tree of a value can be passed over. -/
theorem pass_toTree (value : Value) : value.toTree.pass = none := by
  cases value <;> rfl

/-!
### Values as they are held in memory

Data are written with the members of objects in the order of the fields.  In memory they stand in the
order of their keys, and so they do when they come from a text.
-/

mutual

/-- The value with the members of its objects in ascending order of their keys. -/
def sorted : Value → Value
  | .array entries => .array (sortedEntries entries)
  | .object members => .ofMembers (sortedMembers members)
  | .null => .null
  | .boolean value => .boolean value
  | .number value => .number value
  | .string value => .string value

/-- The entries of an array with their objects in order. -/
def sortedEntries : List Value → List Value
  | [] => []
  | value :: rest => value.sorted :: sortedEntries rest

/-- The members of an object with the objects in their values in order. -/
def sortedMembers : List (String × Value) → List (String × Value)
  | [] => []
  | (name, value) :: rest => (name, value.sorted) :: sortedMembers rest

end

mutual

/-- How deep arrays and objects nest in the value. -/
def nesting : Value → Nat
  | .array entries => nestingOfEntries entries + 1
  | .object members => nestingOfMembers members + 1
  | _ => 0

/-- How deep arrays and objects nest in the entries of an array. -/
def nestingOfEntries : List Value → Nat
  | [] => 0
  | value :: rest => max value.nesting (nestingOfEntries rest)

/-- How deep arrays and objects nest in the members of an object. -/
def nestingOfMembers : List (String × Value) → Nat
  | [] => 0
  | (_, value) :: rest => max value.nesting (nestingOfMembers rest)

end

theorem nestingOfEntries_le_of_forall {entries : List Value} {depth : Nat}
    (h : ∀ value ∈ entries, value.nesting ≤ depth) : nestingOfEntries entries ≤ depth := by
  induction entries with
  | nil => exact Nat.zero_le depth
  | cons value rest ih =>
      obtain ⟨hvalue, hrest⟩ := List.forall_mem_cons.1 h
      exact Nat.max_le.2 ⟨hvalue, ih hrest⟩

theorem sortedEntries_eq_map (entries : List Value) : sortedEntries entries = entries.map sorted := by
  induction entries with
  | nil => rfl
  | cons value rest ih => rw [sortedEntries, ih, List.map_cons]

mutual

/-- The tree of a value has the value, in order. -/
theorem toValue_toTree : ∀ (value : Value) {depth : Nat}, value.nesting ≤ depth →
    value.toTree.toValue depth = .ok value.sorted
  | .null, _, _ => by rw [toTree, Tree.toValue, sorted]
  | .boolean _, _, _ => by rw [toTree, Tree.toValue, sorted]
  | .number _, _, _ => by rw [toTree, Tree.toValue, sorted]
  | .string _, _, _ => by rw [toTree, Tree.toValue, sorted]
  | .array entries, depth, h => by
      rw [nesting] at h
      obtain ⟨below, rfl⟩ := Nat.exists_eq_add_of_le' (Nat.le_of_add_left_le h)
      have hentries := toValue_entriesToTrees entries (Nat.le_of_add_le_add_right h)
      rw [toTree, Tree.toValue_array, hentries, sorted]
      rfl
  | .object members, depth, h => by
      rw [nesting] at h
      obtain ⟨below, rfl⟩ := Nat.exists_eq_add_of_le' (Nat.le_of_add_left_le h)
      have hmembers := memberValue_membersToTrees members (Nat.le_of_add_le_add_right h)
      rw [toTree, Tree.toValue_object, hmembers, sorted]
      rfl

theorem toValue_entriesToTrees : ∀ (entries : List Value) {depth : Nat},
    nestingOfEntries entries ≤ depth →
      (entriesToTrees entries).mapM (Tree.toValue depth) = .ok (sortedEntries entries)
  | [], _, _ => rfl
  | value :: rest, depth, h => by
      rw [nestingOfEntries] at h
      have hvalue := toValue_toTree value (Nat.le_trans (Nat.le_max_left _ _) h)
      have hrest := toValue_entriesToTrees rest (Nat.le_trans (Nat.le_max_right _ _) h)
      exact mapM_cons_eq_ok_iff.2 ⟨_, _, hvalue, hrest, rfl⟩

theorem memberValue_membersToTrees : ∀ (members : List (String × Value)) {depth : Nat},
    nestingOfMembers members ≤ depth →
      (membersToTrees members).mapM (Tree.memberValue depth) = .ok (sortedMembers members)
  | [], _, _ => rfl
  | (name, value) :: rest, depth, h => by
      rw [nestingOfMembers] at h
      have hvalue := toValue_toTree value (Nat.le_trans (Nat.le_max_left _ _) h)
      have hrest := memberValue_membersToTrees rest (Nat.le_trans (Nat.le_max_right _ _) h)
      exact mapM_cons_eq_ok_iff.2
        ⟨_, _, Tree.memberValue_eq_ok_iff.2 ⟨rfl, hvalue⟩, hrest, rfl⟩

end

end Value

end TextEditing.Json
