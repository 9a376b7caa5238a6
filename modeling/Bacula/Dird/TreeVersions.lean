import Bacula.Lib.TreeInsert
import Bacula.Dird.UaTree

/-! What the names of the restore tree hold after some rows, and where the hard links lead, as the rows
say it: without nodes, without the cache of the last path and without marks. The tree that
`insert_tree_handler` builds from the rows agrees with it. -/
namespace Bacula.UaTree
open Bacula.Tree

def build (all noAutoParent : Bool) (rows : List CatalogRow) : TreeCtx :=
  rows.foldl insertTreeHandler (TreeCtx.start all noAutoParent)

/-- The names that the full name of a row is split into. -/
def rowKey (row : CatalogRow) : List Name := entryKey row.path row.fname

/-- What a name holds: the row that has it, and the delta parts before it. -/
structure Version where
  type : NodeType
  fileIndex : Int32
  jobId : UInt32
  deltaSeq : Int32
  hardLink : Bool
  softLink : Bool
  linkFI : Int32
  deltaList : List (UInt32 × Int32)
  deriving DecidableEq, Repr

namespace Version

/-- A name that no row has. -/
def blank (type : NodeType) : Version := ⟨type, 0, 0, -1, false, false, 0, []⟩

def fill (v : Version) (row : CatalogRow) : Version :=
  ⟨rowType row, row.fileIndex, row.jobId, row.deltaSeq, row.linkFI ≠ 0, row.isLnk, row.linkFI,
    v.deltaList⟩

/-- In the same job the first copy of a hard-linked file and the last copy of any other is kept. -/
def outdates (v : Version) (row : CatalogRow) : Bool :=
  row.jobId = v.jobId &&
    ((row.linkFI ≠ 0 && row.fileIndex > v.fileIndex) || (row.linkFI = 0 && row.fileIndex < v.fileIndex))

/-- Whether the row gets its name: a delta part only behind its base. -/
def taken (before : Option Version) (row : CatalogRow) : Bool :=
  match before with
  | none => row.deltaSeq ≤ 0
  | some v => (row.deltaSeq ≤ 0 || row.deltaSeq = v.deltaSeq + 1) && !v.outdates row

/-- The name with the delta part that the row goes on from. -/
def parts (v : Version) (row : CatalogRow) : Version :=
  if row.deltaSeq > 0 ∧ row.deltaSeq = v.deltaSeq + 1 then
    { v with deltaList := (v.jobId, v.fileIndex) :: v.deltaList }
  else v

/-- The name after a row of its own. -/
def next (before : Option Version) (row : CatalogRow) : Version :=
  let v := (before.getD (blank .none)).parts row
  if taken before row then v.fill row else v

/-- The files that the name restores: its delta parts, the oldest first, and its row. -/
def files (v : Version) : List (UInt32 × Int32) := v.deltaList.reverse ++ [(v.jobId, v.fileIndex)]

end Version

/-- A name after one more row. -/
def hold (key : List Name) (row : CatalogRow) (before : Option Version) : Option Version :=
  if rowKey row = key then some (Version.next before row)
  else if key <+: rowKey row then some (before.getD (.blank (wayType row.path key)))
  else before

/-- What a name holds after some rows, of which the last one stands first. -/
def version (key : List Name) : List CatalogRow → Option Version
  | [] => none
  | row :: before => hold key row (version key before)

/-! ## Hard links -/

/-- The names that the files with several links were first seen under. -/
abbrev Links := List ((UInt32 × Int32) × List Name)

def Links.name (links : Links) (file : UInt32 × Int32) : Option (List Name) :=
  (links.find? fun entry => entry.1 = file).map Prod.snd

/-- An entry that is there is kept. -/
def Links.add (links : Links) (file : UInt32 × Int32) (name : List Name) : Links :=
  if (links.name file).isSome then links else (file, name) :: links

/-- A file with several links that gets its name, and is no directory: a first occurrence leads to its
own name, another one to the name of the first. -/
def Links.row (links : Links) (row : CatalogRow) : Links :=
  if row.linkFI = 0 then links.add (row.jobId, row.fileIndex) (rowKey row)
  else
    match links.name (row.jobId, row.linkFI) with
    | some first => links.add (row.jobId, row.fileIndex) first
    | none => links

/-- After some rows, of which the last one stands first. -/
def links : List CatalogRow → Links
  | [] => []
  | row :: before =>
      if Version.taken (version (rowKey row) before) row && row.stNlink > 1 && row.fname ≠ [] then
        (links before).row row
      else links before

/-! ## The nodes -/

def versionOf (node : TreeNode) : Version :=
  ⟨node.type, node.fileIndex, node.jobId, node.deltaSeq, node.hardLink, node.softLink, node.linkFI,
    node.deltaList⟩

theorem versionOf_congr {a b : TreeNode} (same : a.data = b.data) : versionOf a = versionOf b := by
  have versions := congrArg versionOf same
  exact versions

/-- A file leads to the node of the name that it leads to. -/
def LinksAgree (links : Links) (root : TreeRoot) : Prop :=
  ∀ file : UInt32 × Int32, match links.name file with
    | some name => ∃ n, 0 < n ∧ HasKey root n name ∧ root.lookup (hlKey file.1 file.2) = some n
    | none => root.lookup (hlKey file.1 file.2) = none

/-- The tree after some rows, of which the last one stands first. -/
structure Agrees (before : List CatalogRow) (root : TreeRoot) : Prop where
  shaped : Shaped root
  cached : Cached root
  node : ∀ n, 0 < n → n < root.nodes.length →
    ∃ key, HasKey root n key ∧ version key before = some (versionOf (root.node n))
  name : ∀ key v, key ≠ [] → version key before = some v → ∃ n, HasKey root n key
  links : LinksAgree (links before) root
  top : (root.node 0).data = (newTreeNode [] .root none).data

theorem hlKey_toInt (jobId : UInt32) (fileIndex : Int32) :
    ((hlKey jobId fileIndex).toNat : ℤ) = ((jobId.toNat : ℤ) * 2 ^ 32 + fileIndex.toInt) % 2 ^ 64 := by
  have small := jobId.toNat_lt
  have job : (jobId.toUInt64 <<< 32).toNat = jobId.toNat * 2 ^ 32 := by
    rw [UInt64.toNat_shiftLeft]
    simp [Nat.shiftLeft_eq]
    omega
  have file : (fileIndex.toInt64.toUInt64.toNat : ℤ) = fileIndex.toInt % 2 ^ 64 := by
    rw [← fileIndex.toInt_toInt64]
    have cond := fileIndex.toInt64.toBitVec.toInt_eq_toNat_cond
    have below := fileIndex.toInt64.toBitVec.isLt
    change (fileIndex.toInt64.toBitVec.toNat : ℤ) = fileIndex.toInt64.toBitVec.toInt % _
    rw [cond]
    split <;> omega
  rw [hlKey, UInt64.toNat_add, job]
  push_cast
  rw [file]
  omega

theorem hlKey_inj {a b : UInt32 × Int32} : hlKey a.1 a.2 = hlKey b.1 b.2 ↔ a = b := by
  refine ⟨fun same => ?_, fun same => same ▸ rfl⟩
  have ints := congrArg (fun key : UInt64 => (key.toNat : ℤ)) same
  rw [hlKey_toInt, hlKey_toInt] at ints
  have jobs := a.1.toNat_lt
  have jobs' := b.1.toNat_lt
  have files := a.2.toInt_lt
  have files' := b.2.toInt_lt
  have above := a.2.le_toInt
  have above' := b.2.le_toInt
  have job : a.1.toNat = b.1.toNat := by omega
  have file : a.2.toInt = b.2.toInt := by omega
  exact Prod.ext (UInt32.toNat_inj.mp job) (Int32.toInt_inj.mp file)

/-! ## One row -/

theorem modify_self {root : TreeRoot} {n : ℕ} (inside : n < root.nodes.length)
    (f : TreeNode → TreeNode) :
    (root.modify n f).node n = f (root.node n) := by
  rw [TreeRoot.node, List.getD_eq_getElem?_getD, TreeRoot.modify_getElem?,
    List.getElem?_eq_getElem inside, TreeRoot.node, List.getD_eq_getElem _ _ inside]
  simp

theorem modify_other {root : TreeRoot} {n m : ℕ} (other : m ≠ n) (f : TreeNode → TreeNode) :
    (root.modify n f).node m = root.node m := by
  rw [TreeRoot.node, List.getD_eq_getElem?_getD, TreeRoot.modify_getElem?, TreeRoot.node,
    List.getD_eq_getElem?_getD]
  simp [other]

/-- Removing a node changes nothing. -/
theorem treeRemoveNode_eq (root : TreeRoot) (n : ℕ) : treeRemoveNode root n = root := by
  have same : (fun node : TreeNode => { node with child := rblistRemove node.child n }) = id := rfl
  rw [treeRemoveNode, TreeRoot.modify, same, List.modify_id]

theorem deltaPart_eq (root : TreeRoot) (row : CatalogRow) (n : ℕ) :
    deltaPart root row n = if row.deltaSeq > 0 then
      if row.deltaSeq = (root.node n).deltaSeq + 1 then
        (treeAddDeltaPart root n (root.node n).jobId (root.node n).fileIndex, true)
      else (root, false)
    else (root, true) := by
  rw [deltaPart, treeRemoveNode_eq]
  split_ifs <;> rfl

theorem isDir_rowType (row : CatalogRow) : NodeType.isDir (rowType row) = decide (row.fname = []) := by
  unfold rowType
  split
  case isTrue dir =>
    rw [decide_eq_true dir]
    split <;> rfl
  case isFalse file =>
    rw [decide_eq_false file]
    rfl

/-- What the caller does with the node of a row: nothing else changes in the tree. -/
structure Handled (root root' : TreeRoot) (n : ℕ) : Prop where
  shaped : Shaped root'
  later : Extends root root'
  length : root'.nodes.length = root.nodes.length
  others : ∀ m, m ≠ n → root'.node m = root.node m
  path : root'.cachedPath = root.cachedPath
  parent : root'.cachedParent = root.cachedParent

namespace Handled

variable {root : TreeRoot} {n : ℕ}

theorem refl (shaped : Shaped root) (n : ℕ) : Handled root root n :=
  ⟨shaped, Extends.refl root, rfl, fun _ _ => rfl, rfl, rfl⟩

theorem trans {root' root'' : TreeRoot} (first : Handled root root' n)
    (second : Handled root' root'' n) :
    Handled root root'' n where
  shaped := second.shaped
  later := first.later.trans second.later
  length := second.length.trans first.length
  others m other := (second.others m other).trans (first.others m other)
  path := second.path.trans first.path
  parent := second.parent.trans first.parent

theorem modify (shaped : Shaped root) (n : ℕ) {f : TreeNode → TreeNode}
    (fname : ∀ node, (f node).fname = node.fname) (parent : ∀ node, (f node).parent = node.parent)
    (child : ∀ node, (f node).child = node.child) : Handled root (root.modify n f) n := by
  obtain ⟨shaped', later⟩ := shaped.modify (n := n) fname parent child
  exact ⟨shaped', later, root.modify_length n f, fun m other => modify_other other f, rfl, rfl⟩

theorem hardlinks (shaped : Shaped root) (n : ℕ) (links : List (UInt64 × ℕ)) :
    Handled root { root with hardlinks := links } n :=
  ⟨⟨shaped.rooted, shaped.parents, shaped.unique⟩, ⟨fun _ => rfl, id, le_refl _⟩, rfl,
    fun _ _ => rfl, rfl, rfl⟩

end Handled

theorem insertHardlink_links (root : TreeRoot) (row : CatalogRow) (n : ℕ) :
    ∃ links, insertHardlink root row n = { root with hardlinks := links } := by
  have insert (key : UInt64) (m : ℕ) : ∃ links,
      root.insertLink key m = { root with hardlinks := links } := by
    rw [TreeRoot.insertLink]
    split
    · exact ⟨root.hardlinks, rfl⟩
    · exact ⟨_, rfl⟩
  rw [insertHardlink]
  split
  · split
    · exact insert _ _
    · split
      · exact insert _ _
      · exact ⟨root.hardlinks, rfl⟩
  · exact ⟨root.hardlinks, rfl⟩

/-! ## The table of hard links -/

theorem Links.name_add (links : Links) (file : UInt32 × Int32) (name : List Name)
    (other : UInt32 × Int32) :
    (links.add file name).name other =
      if other = file ∧ links.name file = none then some name else links.name other := by
  unfold Links.add
  cases there : links.name file with
  | some old => simp
  | none =>
      rw [Option.isSome_none, if_neg Bool.false_ne_true, Links.name, List.find?_cons]
      by_cases same : other = file
      · subst same
        simp
      · rw [decide_eq_false (Ne.symm same), if_neg fun both => same both.1]
        rfl

theorem lookup_insertLink (root : TreeRoot) (file : UInt32 × Int32) (n : ℕ) (other : UInt32 × Int32) :
    (root.insertLink (hlKey file.1 file.2) n).lookup (hlKey other.1 other.2) =
      if other = file ∧ root.lookup (hlKey file.1 file.2) = none then some n
      else root.lookup (hlKey other.1 other.2) := by
  unfold TreeRoot.insertLink
  cases there : root.lookup (hlKey file.1 file.2) with
  | some old => simp
  | none =>
      rw [Option.isSome_none, if_neg Bool.false_ne_true, TreeRoot.lookup, List.find?_cons]
      by_cases same : other = file
      · subst same
        simp
      · rw [decide_eq_false fun eq => same (hlKey_inj.mp eq).symm, if_neg fun both => same both.1]
        rfl

section Table

variable {ls : Links} {root : TreeRoot}

theorem LinksAgree.later (agree : LinksAgree ls root) (shaped : Shaped root) {root' : TreeRoot}
    (later : Extends root root') (same : root'.hardlinks = root.hardlinks) : LinksAgree ls root' := by
  intro file
  have lookup : root'.lookup (hlKey file.1 file.2) = root.lookup (hlKey file.1 file.2) := by
    rw [TreeRoot.lookup, same, TreeRoot.lookup]
  have here := agree file
  cases name : ls.name file with
  | none =>
      rw [name] at here
      exact lookup.trans here
  | some name' =>
      rw [name] at here
      obtain ⟨n, positive, has, found⟩ := here
      exact ⟨n, positive, has.mono shaped later, lookup.trans found⟩

theorem LinksAgree.none_iff (agree : LinksAgree ls root) (file : UInt32 × Int32) :
    ls.name file = none ↔ root.lookup (hlKey file.1 file.2) = none := by
  have here := agree file
  cases name : ls.name file with
  | none =>
      rw [name] at here
      exact iff_of_true rfl here
  | some name' =>
      rw [name] at here
      obtain ⟨n, -, -, found⟩ := here
      rw [found]
      exact iff_of_false (Option.some_ne_none _) (Option.some_ne_none _)

/-- An entry for a name and for its node. -/
theorem LinksAgree.add (agree : LinksAgree ls root) (shaped : Shaped root) {n : ℕ} {name : List Name}
    (positive : 0 < n) (has : HasKey root n name) (file : UInt32 × Int32) :
    LinksAgree (ls.add file name) (root.insertLink (hlKey file.1 file.2) n) := by
  have stays {m : ℕ} {k : List Name} (has : HasKey root m k) :
      HasKey (root.insertLink (hlKey file.1 file.2) n) m k := by
    unfold TreeRoot.insertLink
    split
    · exact has
    · have later : Extends root { root with hardlinks := (hlKey file.1 file.2, n) :: root.hardlinks } :=
        ⟨fun _ => rfl, id, le_refl _⟩
      exact has.mono shaped later
  intro other
  rw [Links.name_add, lookup_insertLink]
  by_cases new : other = file ∧ ls.name file = none
  · rw [if_pos new, if_pos ⟨new.1, (agree.none_iff file).mp new.2⟩]
    exact ⟨n, positive, stays has, rfl⟩
  · rw [if_neg new, if_neg fun both => new ⟨both.1, (agree.none_iff file).mpr both.2⟩]
    have here := agree other
    cases there : ls.name other with
    | none =>
        rw [there] at here
        exact here
    | some name' =>
        rw [there] at here
        obtain ⟨m, positive, has, found⟩ := here
        exact ⟨m, positive, stays has, found⟩

/-- The row of a name goes into the table as into that of the names. -/
theorem LinksAgree.insertHardlink (agree : LinksAgree ls root) (shaped : Shaped root)
    {row : CatalogRow} {n : ℕ} (positive : 0 < n) (has : HasKey root n (rowKey row)) :
    LinksAgree (if row.stNlink > 1 && row.fname ≠ [] then ls.row row else ls)
      (insertHardlink root row n) := by
  unfold UaTree.insertHardlink Links.row
  rw [isDir_rowType, decide_not]
  by_cases several : (decide (row.stNlink > 1) && !decide (row.fname = [])) = true
  · rw [if_pos several, if_pos several]
    by_cases first : row.linkFI = 0
    · rw [if_pos first, if_pos first]
      exact agree.add shaped positive has (row.jobId, row.fileIndex)
    · rw [if_neg first, if_neg first]
      have here := agree (row.jobId, row.linkFI)
      cases there : ls.name (row.jobId, row.linkFI) with
      | none =>
          rw [there] at here
          dsimp only at here
          rw [here]
          exact agree
      | some name =>
          rw [there] at here
          obtain ⟨m, positive, has, found⟩ := here
          dsimp only at found ⊢
          rw [found]
          exact agree.add shaped positive has (row.jobId, row.fileIndex)
  · rw [if_neg several, if_neg several]
    exact agree

end Table

/-! ## The row and its node -/

theorem taken_eq (before : Option Version) (row : CatalogRow) : Version.taken before row =
    ((row.deltaSeq ≤ 0 || row.deltaSeq = (before.getD (.blank .none)).deltaSeq + 1) &&
      !(before.isSome && (before.getD (.blank .none)).outdates row)) := by
  cases before with
  | some v => rfl
  | none =>
      have start : row.deltaSeq = (-1 : Int32) + 1 → row.deltaSeq ≤ 0 := by
        intro zero
        rw [zero]
        decide
      change decide (row.deltaSeq ≤ 0) =
        ((decide (row.deltaSeq ≤ 0) || decide (row.deltaSeq = (-1 : Int32) + 1)) && true)
      rw [Bool.and_true]
      by_cases none : row.deltaSeq ≤ 0
      · rw [decide_eq_true none, Bool.true_or]
      · rw [decide_eq_false none, decide_eq_false fun zero => none (start zero), Bool.or_false]

/-- A node that says of its name what the rows say. -/
structure Shows (node : TreeNode) (before : Option Version) : Prop where
  version : before.getD (.blank .none) = versionOf node
  inserted : node.inserted = before.isNone

theorem Shows.accepts {node : TreeNode} {before : Option Version} (shows : Shows node before)
    (row : CatalogRow) :
    accepts row node = !(before.isSome && (before.getD (.blank .none)).outdates row) := by
  rw [shows.version, UaTree.accepts, shows.inserted, ← Option.not_isSome, Bool.not_not,
    Version.outdates, Bool.and_assoc]
  rfl

section Node

variable {root : TreeRoot} {n : ℕ} {before : Option Version} {row : CatalogRow}

/-- The delta part, if the row is one. -/
theorem deltaPart_shows (shaped : Shaped root) (inside : n < root.nodes.length)
    (shows : Shows (root.node n) before) (row : CatalogRow) :
    Handled root (deltaPart root row n).1 n ∧ (deltaPart root row n).1.hardlinks = root.hardlinks ∧
      versionOf ((deltaPart root row n).1.node n) = (before.getD (.blank .none)).parts row ∧
      ((deltaPart root row n).2 && accepts row ((deltaPart root row n).1.node n)) =
    Version.taken before row := by
  have seq : (before.getD (.blank .none)).deltaSeq = (root.node n).deltaSeq :=
    congrArg Version.deltaSeq shows.version
  rw [deltaPart_eq, taken_eq, ← shows.accepts row, Version.parts, seq]
  by_cases part : row.deltaSeq > 0
  · have notStart : ¬row.deltaSeq ≤ 0 := Int32.not_le.mpr part
    rw [if_pos part, decide_eq_false notStart, Bool.false_or]
    by_cases next : row.deltaSeq = (root.node n).deltaSeq + 1
    · rw [if_pos next, if_pos ⟨part, next⟩, decide_eq_true next]
      dsimp only
      refine ⟨Handled.modify shaped n (fun _ => rfl) (fun _ => rfl) fun _ => rfl, rfl, ?_, ?_⟩
      · rw [treeAddDeltaPart, modify_self inside, shows.version]
        rfl
      · rw [treeAddDeltaPart, modify_self inside]
        rfl
    · rw [if_neg next, if_neg fun both => next both.2, decide_eq_false next]
      exact ⟨Handled.refl shaped n, rfl, shows.version.symm, rfl⟩
  · have start : row.deltaSeq ≤ 0 := Int32.not_lt.mp part
    rw [if_neg part, if_neg fun both => part both.1, decide_eq_true start, Bool.true_or]
    exact ⟨Handled.refl shaped n, rfl, shows.version.symm, rfl⟩

/-- What `insert_tree_handler` does with the node that the row has got. -/
theorem handled_row (tree : TreeCtx) (shaped : Shaped root) (has : HasKey root n (rowKey row))
    (positive : 0 < n) (shows : Shows (root.node n) before) {ls : Links} (agree : LinksAgree ls root) :
    ∀ root', root' = (if (deltaPart root row n).2 && accepts row ((deltaPart root row n).1.node n) then
      { tree with root := insertHardlink ((deltaPart root row n).1.modify n (fillNode row)) row n,
                  marks := markAll tree row n }
      else { tree with root := (deltaPart root row n).1 }).root →
    Handled root root' n ∧ versionOf (root'.node n) = Version.next before row ∧
      LinksAgree
        (if Version.taken before row && row.stNlink > 1 && row.fname ≠ [] then ls.row row else ls)
        root' := by
  have inside := has.isNode shaped
  obtain ⟨part, links, parts, taken⟩ := deltaPart_shows shaped inside shows row
  generalize deltaPart root row n = result at part links parts taken ⊢
  obtain ⟨root1, goesOn⟩ := result
  dsimp only at part links parts taken ⊢
  have inside1 : n < root1.nodes.length := part.length ▸ inside
  have agree1 := agree.later shaped part.later links
  rintro root' rfl
  rw [taken, Version.next]
  cases Version.taken before row with
  | false => exact ⟨part, parts, agree1⟩
  | true =>
      have filled : Handled root1 (root1.modify n (fillNode row)) n :=
        Handled.modify part.shaped n (fun _ => rfl) (fun _ => rfl) fun _ => rfl
      have hasKey := (has.mono shaped part.later).mono part.shaped filled.later
      have agree2 :=
        (agree1.later part.shaped filled.later rfl).insertHardlink filled.shaped positive hasKey
      obtain ⟨table, eq⟩ := insertHardlink_links (root1.modify n (fillNode row)) row n
      rw [if_pos rfl, if_pos rfl, Bool.true_and]
      refine ⟨part.trans (filled.trans ?_), ?_, agree2⟩
      · dsimp only
        rw [eq]
        exact Handled.hardlinks filled.shaped n table
      · dsimp only
        rw [eq, ← parts]
        change versionOf ((root1.modify n (fillNode row)).node n) = _
        rw [modify_self inside1]
        rfl

end Node

/-! ## All rows -/

theorem rowKey_ne_nil (row : CatalogRow) : rowKey row ≠ [] := by
  rw [rowKey, entryKey]
  generalize (if row.fname = [] then
    (lastPathSeparator (stripTrailing row.path)).getD (stripTrailing row.path, [])
    else (stripTrailing row.path, row.fname)) = parts
  dsimp only
  split
  · exact List.append_ne_nil_of_right_ne_nil _ (List.cons_ne_nil _ _)
  · exact List.cons_ne_nil _ _

section Rows

variable {before : List CatalogRow} {root : TreeRoot}

theorem newTree_agrees : Agrees [] newTree where
  shaped := newTree_shaped
  cached path eq := by cases eq
  node n positive inside := absurd inside (by simp [newTree]; omega)
  name key v _ none := by cases none
  links file := rfl
  top := rfl

/-- A name and its node. -/
theorem Agrees.version (agrees : Agrees before root) {n : ℕ} {key : List Name} (some : key ≠ [])
    (has : HasKey root n key) : UaTree.version key before = Option.some (versionOf (root.node n)) := by
  obtain ⟨key', has', here⟩ :=
    agrees.node n (has.positive agrees.shaped some) (has.isNode agrees.shaped)
  exact has.unique_key agrees.shaped has' ▸ here

/-- The node that the row gets shows what the rows before it have left at its name. -/
theorem Agrees.shows (agrees : Agrees before root) (row : CatalogRow) :
    Shows ((insertTreeNode root row.path row.fname).1.node (insertTreeNode root row.path row.fname).2)
      (UaTree.version (rowKey row) before) := by
  obtain ⟨located, inserted⟩ := insertTreeNode_located agrees.shaped agrees.cached row.path row.fname
  generalize insertTreeNode root row.path row.fname = result at located inserted
  obtain ⟨root', n⟩ := result
  dsimp only at inserted ⊢
  have isNode := located.hasKey.isNode located.shaped
  rcases Nat.lt_or_ge n root.nodes.length with old | new
  · have positive := located.hasKey.positive located.shaped (rowKey_ne_nil row)
    obtain ⟨key, has, here⟩ := agrees.node n positive old
    have same := (has.mono agrees.shaped located.later).unique_key located.shaped located.hasKey
    have version : UaTree.version (rowKey row) before = some (versionOf (root'.node n)) := by
      rw [versionOf_congr (located.old n old), ← here, same]
      rfl
    refine ⟨by rw [version]; rfl, ?_⟩
    rw [version]
    exact Bool.eq_false_iff.mpr fun marked => absurd (inserted.mp marked) (Nat.not_le.mpr old)
  · have version : UaTree.version (rowKey row) before = none := by
      cases here : UaTree.version (rowKey row) before with
      | none => rfl
      | some v =>
          obtain ⟨m, has⟩ := agrees.name _ v (rowKey_ne_nil row) here
          have same := (has.mono agrees.shaped located.later).unique_node located.shaped located.hasKey
          have old := has.isNode agrees.shaped
          rw [same] at old
          exact absurd old (Nat.not_lt.mpr new)
    obtain ⟨k, fname, parent, some, start, has, data⟩ := located.new n new isNode
    have own := has.unique_key located.shaped located.hasKey
    refine ⟨?_, ?_⟩
    · rw [version, versionOf_congr data, entryType, if_pos own]
      rfl
    · rw [version]
      exact inserted.mpr new

theorem hold_own (row : CatalogRow) (v : Option Version) :
    hold (rowKey row) row v = some (Version.next v row) :=
  if_pos rfl

theorem hold_way {key : List Name} {row : CatalogRow} (other : rowKey row ≠ key)
    (start : key <+: rowKey row) (v : Option Version) :
    hold key row v = some (v.getD (.blank (wayType row.path key))) := by
  rw [hold, if_neg other, if_pos start]

theorem hold_some {key : List Name} {row : CatalogRow} (other : rowKey row ≠ key) (v : Version) :
    hold key row (some v) = some v := by
  rw [hold, if_neg other]
  exact ite_self _

/-- One row. -/
theorem insertTreeHandler_agrees {tree : TreeCtx} (agrees : Agrees before tree.root)
    (row : CatalogRow) :
    Agrees (row :: before) (insertTreeHandler tree row).root ∧
      Extends tree.root (insertTreeHandler tree row).root ∧
      HasKey (insertTreeHandler tree row).root (insertTreeNode tree.root row.path row.fname).2
        (rowKey row) := by
  have shows := agrees.shows row
  have located := (insertTreeNode_located agrees.shaped agrees.cached row.path row.fname).1
  have cached := (insertTreeNode_placed agrees.shaped agrees.cached row.path row.fname).2
  have links := agrees.links.later agrees.shaped located.later located.links
  have handled := handled_row tree located.shaped located.hasKey
    (located.hasKey.positive located.shaped (rowKey_ne_nil row)) shows links
      (insertTreeHandler tree row).root rfl
  generalize (insertTreeHandler tree row).root = root' at handled
  generalize insertTreeNode tree.root row.path row.fname = result at located cached shows handled
  obtain ⟨root1, n⟩ := result
  obtain ⟨handled, own, links⟩ := handled
  dsimp only at cached handled own links
  have later := located.later.trans handled.later
  have hasKey := located.hasKey.mono located.shaped handled.later
  have positive := hasKey.positive handled.shaped (rowKey_ne_nil row)
  refine ⟨⟨handled.shaped, cached.later located.shaped handled.later handled.path handled.parent,
    ?_, ?_, links, ?_⟩, later, hasKey⟩
  · intro m positive inside
    rw [handled.length] at inside
    by_cases self : m = n
    · subst self
      refine ⟨rowKey row, hasKey, ?_⟩
      rw [UaTree.version, hold_own, own]
    · rw [handled.others m self]
      rcases Nat.lt_or_ge m tree.root.nodes.length with old | new
      · obtain ⟨key, has, here⟩ := agrees.node m positive old
        have has' := has.mono agrees.shaped later
        have other : rowKey row ≠ key := by
          rintro rfl
          exact self (has'.unique_node handled.shaped hasKey)
        refine ⟨key, has', ?_⟩
        rw [UaTree.version, here, hold_some other, versionOf_congr (located.old m old)]
      · obtain ⟨key, fname, parent, some, start, has, data⟩ := located.new m new inside
        have other : rowKey row ≠ key := by
          rintro rfl
          exact self (has.unique_node located.shaped located.hasKey)
        have fresh : UaTree.version key before = none := by
          cases here : UaTree.version key before with
          | none => rfl
          | some v =>
              obtain ⟨m', has'⟩ := agrees.name key v some here
              have same := (has'.mono agrees.shaped located.later).unique_node located.shaped has
              have old := has'.isNode agrees.shaped
              rw [same] at old
              exact absurd old (Nat.not_lt.mpr new)
        refine ⟨key, has.mono located.shaped handled.later, ?_⟩
        have way : entryType row.path row.fname key = wayType row.path key := if_neg (Ne.symm other)
        rw [UaTree.version, fresh, hold_way other start, versionOf_congr data, way]
        rfl
  · intro key v some here
    by_cases start : key <+: rowKey row
    · exact hasKey.above start
    · have other : rowKey row ≠ key := fun same => start (same ▸ List.prefix_refl _)
      rw [UaTree.version, hold, if_neg other, if_neg start] at here
      obtain ⟨m, has⟩ := agrees.name key v some here
      exact ⟨m, has.mono agrees.shaped later⟩
  · rw [handled.others 0 positive.ne, located.old 0 agrees.shaped.rooted]
    exact agrees.top

/-- The tree that the rows build agrees with the rows. -/
theorem build_agrees (all noAutoParent : Bool) (rows : List CatalogRow) :
    Agrees rows.reverse (build all noAutoParent rows).root := by
  induction rows using List.reverseRecOn with
  | nil => exact newTree_agrees
  | append_singleton rows row ih =>
      rw [build, List.foldl_append, List.reverse_append]
      exact (insertTreeHandler_agrees ih row).1

end Rows

/-! ## What the names hold -/

section Names

variable {key : List Name} {before : List CatalogRow} {v : Version}

/-- A name is on the way of a row. -/
theorem version_origin (here : version key before = some v) : ∃ row ∈ before, key <+: rowKey row := by
  induction before generalizing v with
  | nil => cases here
  | cons row before ih =>
      by_cases start : key <+: rowKey row
      · exact ⟨row, List.mem_cons_self, start⟩
      · have other : rowKey row ≠ key := fun same => start (same ▸ List.prefix_refl _)
        rw [version, hold, if_neg other, if_neg start] at here
        obtain ⟨row', inside, start'⟩ := ih here
        exact ⟨row', List.mem_cons_of_mem _ inside, start'⟩

theorem version_isSome {row : CatalogRow} (inside : row ∈ before) (start : key <+: rowKey row) :
    (version key before).isSome := by
  induction before with
  | nil => cases inside
  | cons row' before ih =>
      rw [version, hold]
      split
      · rfl
      · split
        · rfl
        case isFalse none =>
          rcases List.mem_cons.mp inside with rfl | later
          · exact absurd start none
          · exact ih later

/-- What a row of its own does to the type and the flag of a name. -/
theorem next_cases (v : Option Version) (row : CatalogRow) :
    (Version.next v row).type = rowType row ∧ (Version.next v row).softLink = row.isLnk ∨
      (Version.next v row).type = (v.getD (.blank .none)).type ∧
        (Version.next v row).softLink = (v.getD (.blank .none)).softLink := by
  unfold Version.next Version.parts
  dsimp only
  split
  · exact .inl ⟨rfl, rfl⟩
  · right
    split <;> exact ⟨rfl, rfl⟩

/-- The type of a name is that of one of its rows, or of a directory on the way of another one; the
name of a row that was dropped has none. -/
theorem version_type (here : version key before = some v) : v.type = .none ∨
    (∃ row ∈ before, rowKey row = key ∧ v.type = rowType row) ∨
      ∃ row ∈ before, key <+: rowKey row ∧ rowKey row ≠ key ∧ v.type = wayType row.path key := by
  induction before generalizing v with
  | nil => cases here
  | cons row before ih =>
      have earlier {w : Version} (old : version key before = some w) (same : v.type = w.type) :
        v.type = .none ∨
          (∃ r ∈ row :: before, rowKey r = key ∧ v.type = rowType r) ∨
            ∃ r ∈ row :: before, key <+: rowKey r ∧ rowKey r ≠ key ∧ v.type = wayType r.path key := by
        rw [same]
        refine (ih old).imp_right (Or.imp ?_ ?_)
        · exact fun ⟨r, inside, rest⟩ => ⟨r, List.mem_cons_of_mem _ inside, rest⟩
        · exact fun ⟨r, inside, rest⟩ => ⟨r, List.mem_cons_of_mem _ inside, rest⟩
      by_cases own : rowKey row = key
      · subst own
        rw [version, hold_own] at here
        have cases' := next_cases (version (rowKey row) before) row
        rw [Option.some_inj.mp here] at cases'
        rcases cases' with ⟨type, -⟩ | ⟨type, -⟩
        · exact .inr (.inl ⟨row, List.mem_cons_self, rfl, type⟩)
        · cases old : version (rowKey row) before with
          | none => exact .inl (by rw [type, old]; rfl)
          | some w => exact earlier old (by rw [type, old]; rfl)
      · by_cases start : key <+: rowKey row
        · rw [version, hold_way own start] at here
          have eq := Option.some_inj.mp here
          cases old : version key before with
          | none => exact .inr (.inr ⟨row, List.mem_cons_self, start, own, by rw [← eq, old]; rfl⟩)
          | some w => exact earlier old (by rw [← eq, old]; rfl)
        · rw [version, hold, if_neg own, if_neg start] at here
          exact earlier here rfl

theorem version_soft (here : version key before = some v) (soft : v.softLink = true) :
    ∃ row ∈ before, rowKey row = key ∧ row.isLnk = true := by
  induction before generalizing v with
  | nil => cases here
  | cons row before ih =>
      have earlier {w : Version} (old : version key before = some w) (same : w.softLink = true) :
          ∃ r ∈ row :: before, rowKey r = key ∧ r.isLnk = true := by
        obtain ⟨r, inside, rest⟩ := ih old same
        exact ⟨r, List.mem_cons_of_mem _ inside, rest⟩
      by_cases own : rowKey row = key
      · subst own
        rw [version, hold_own] at here
        obtain rfl := Option.some_inj.mp here
        rcases next_cases (version (rowKey row) before) row with ⟨-, flag⟩ | ⟨-, flag⟩
        · exact ⟨row, List.mem_cons_self, rfl, flag.symm.trans soft⟩
        · rw [flag] at soft
          cases old : version (rowKey row) before with
          | none =>
              rw [old] at soft
              cases soft
          | some w =>
              rw [old] at soft
              exact earlier old soft
      · by_cases start : key <+: rowKey row
        · rw [version, hold_way own start] at here
          obtain rfl := Option.some_inj.mp here
          cases old : version key before with
          | none =>
              rw [old] at soft
              cases soft
          | some w =>
              rw [old] at soft
              exact earlier old soft
        · rw [version, hold, if_neg own, if_neg start] at here
          exact earlier here soft

end Names

end Bacula.UaTree
