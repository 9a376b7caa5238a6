import Bacula.Lib.Tree

/-! The file selection of a restore, `dird/ua_tree.c`, with the hard links kept in memory: rows of
the catalog become nodes of the tree, mark commands select nodes, and what is selected is what
`build_directory_tree` puts into the restore list. Access is never denied in this edition. -/
namespace Bacula.UaTree
open Bacula.Tree

/-- A row of the catalog with the decoded attributes that are used. -/
structure CatalogRow where
  path : Name
  fname : Name
  fileIndex : Int32
  jobId : UInt32
  deltaSeq : Int32
  stNlink : ℕ
  isLnk : Bool
  linkFI : Int32
  deriving DecidableEq, Repr

/-- The flags `extract` and `extract_dir` of the nodes. -/
structure Marks where
  extract : ℕ → Bool
  extractDir : ℕ → Bool

def noMarks : Marks := ⟨fun _ => false, fun _ => false⟩

def Marks.setExtract (marks : Marks) (n : ℕ) (v : Bool) : Marks :=
  { marks with extract := Function.update marks.extract n v }

def Marks.setExtractDir (marks : Marks) (n : ℕ) (v : Bool) : Marks :=
  { marks with extractDir := Function.update marks.extractDir n v }

structure TreeCtx where
  root : TreeRoot
  marks : Marks
  /-- Everything is marked when it is inserted. -/
  all : Bool
  noAutoParent : Bool

def TreeCtx.start (all noAutoParent : Bool) : TreeCtx := ⟨newTree, noMarks, all, noAutoParent⟩

/-- The key of a file in the table of hard links. -/
def hlKey (jobId : UInt32) (fileIndex : Int32) : UInt64 :=
  (jobId.toUInt64 <<< 32) + fileIndex.toInt64.toUInt64

def NodeType.isDir (type : NodeType) : Bool := type = .dir || type = .dirNls

/-- The type of an entry: no filename is a directory, no leading slash one of Windows. -/
def rowType (row : CatalogRow) : NodeType :=
  if row.fname = [] then if row.path.head? = some sep then .dir else .dirNls else .file

/-- The row takes over the node. -/
def fillNode (row : CatalogRow) (node : TreeNode) : TreeNode :=
  { node with
    hardLink := row.linkFI ≠ 0, fileIndex := row.fileIndex, jobId := row.jobId, type := rowType row,
    softLink := row.isLnk, deltaSeq := row.deltaSeq, linkFI := row.linkFI }

/-- In the same job the first copy of a hard-linked file and the last copy of any other is kept. -/
def accepts (row : CatalogRow) (node : TreeNode) : Bool :=
  !(!node.inserted && row.jobId = node.jobId &&
    ((row.linkFI ≠ 0 && row.fileIndex > node.fileIndex) ||
      (row.linkFI = 0 && row.fileIndex < node.fileIndex)))

/-- Files with several links go into the table: the first occurrence under its own node, the
others under the node of the first. -/
def insertHardlink (root : TreeRoot) (row : CatalogRow) (n : ℕ) : TreeRoot :=
  if row.stNlink > 1 && !NodeType.isDir (rowType row) then
    if row.linkFI = 0 then root.insertLink (hlKey row.jobId row.fileIndex) n
    else
      match root.lookup (hlKey row.jobId row.linkFI) with
      | some first => root.insertLink (hlKey row.jobId row.fileIndex) first
      | none => root
  else root

/-- A row that is part of a delta sequence, or `none` if the row is skipped, with the tree. -/
def deltaPart (root : TreeRoot) (row : CatalogRow) (n : ℕ) : TreeRoot × Bool :=
  let node := root.node n
  if row.deltaSeq > 0 then
    if row.deltaSeq = node.deltaSeq + 1 then (treeAddDeltaPart root n node.jobId node.fileIndex, true)
    else if node.deltaSeq = -1 then (treeRemoveNode root n, false)
    else (root, false)
  else (root, true)

def markAll (tree : TreeCtx) (row : CatalogRow) (n : ℕ) : Marks :=
  if tree.all then
    let marks := tree.marks.setExtract n true
    if NodeType.isDir (rowType row) then marks.setExtractDir n true else marks
  else tree.marks

def insertTreeHandler (tree : TreeCtx) (row : CatalogRow) : TreeCtx :=
  let (root, n) := insertTreeNode tree.root row.path row.fname
  let (root, goesOn) := deltaPart root row n
  if goesOn && accepts row (root.node n) then
    { tree with
      root := insertHardlink (root.modify n (fillNode row)) row n, marks := markAll tree row n }
  else { tree with root := root }

/-- The entry that a hard-linked file finds in the table. -/
def linkedEntry (root : TreeRoot) (node : TreeNode) : Option ℕ :=
  if node.hardLink && hlKey node.jobId node.fileIndex ≠ 0 then
    root.lookup (hlKey node.jobId node.fileIndex)
  else none

/-- Whether `set_extract` goes on with the children of a node. -/
def goesDown (node : TreeNode) : Bool := node.type ≠ .file || (node.softLink && node.child.length > 0)

/-- Walk up the tree marking the parents, up to one that is marked. -/
def markParents (root : TreeRoot) : ℕ → Marks → ℕ → Marks
  | 0, marks, _ => marks
  | steps+1, marks, n =>
      match (root.node n).parent with
      | some parent =>
          if marks.extractDir parent then marks
          else markParents root steps (marks.setExtractDir parent true) parent
      | none => marks

/-- The file that a hard link points to is marked as well. -/
def markLinked (root : TreeRoot) (marks : Marks) (n : ℕ) : Marks :=
  match linkedEntry root (root.node n) with
  | some first =>
      (marks.setExtract first true).setExtractDir first (NodeType.isDir (root.node first).type)
  | none => marks

def markNode (root : TreeRoot) (marks : Marks) (n : ℕ) (extract : Bool) : Marks :=
  let marks := marks.setExtract n extract
  if NodeType.isDir (root.node n).type then marks.setExtractDir n extract else marks

/-- `depth` bounds the depth of the tree below the node. -/
def setExtract (root : TreeRoot) (noAutoParent extract : Bool) : (depth : ℕ) → Marks → ℕ → Marks
  | 0, marks, _ => marks
  | depth+1, marks, n =>
      let marks := markNode root marks n extract
      if goesDown (root.node n) then
        let marks := (root.node n).child.foldl (setExtract root noAutoParent extract depth) marks
        if !noAutoParent && extract then markParents root root.nodes.length marks n else marks
      else if extract then markLinked root marks n
      else marks

/-- A node that is marked by a mark command. -/
def mark (tree : TreeCtx) (n : ℕ) : TreeCtx :=
  { tree with marks := setExtract tree.root tree.noAutoParent true tree.root.nodes.length tree.marks n }

/-- What a node puts into the restore list: its delta parts, the oldest first, and its own file. -/
def pairs (node : TreeNode) : List (UInt32 × Int32) :=
  node.deltaList.reverse ++ [(node.jobId, node.fileIndex)]

/-- The restore list of `build_directory_tree`: the files of the marked nodes behind the root. -/
def restoreList (tree : TreeCtx) : List (UInt32 × Int32) :=
  (tree.root.nodes.zipIdx.drop 1).flatMap fun entry =>
    if tree.marks.extract entry.2 || tree.marks.extractDir entry.2 then pairs entry.1 else []

theorem mem_restoreList {tree : TreeCtx} {file : UInt32 × Int32} :
    file ∈ restoreList tree ↔ ∃ (n : ℕ) (node : TreeNode), 0 < n ∧ tree.root.nodes[n]? = some node ∧
      (tree.marks.extract n || tree.marks.extractDir n) = true ∧ file ∈ pairs node := by
  simp only [restoreList, List.mem_flatMap, Prod.exists]
  constructor
  · rintro ⟨node, n, inside, file⟩
    obtain ⟨i, here⟩ := List.mem_iff_getElem?.mp inside
    rw [List.getElem?_drop, List.getElem?_zipIdx, Option.map_eq_some_iff] at here
    obtain ⟨_, there, eq⟩ := here
    obtain ⟨rfl, rfl⟩ := Prod.mk.inj eq
    split at file
    case isTrue marked => exact ⟨0 + (1 + i), _, by omega, by rwa [Nat.zero_add], marked, file⟩
    case isFalse => cases file
  · rintro ⟨n, node, positive, here, marked, file⟩
    refine ⟨node, n, ?_, by rwa [if_pos marked]⟩
    rw [List.mem_iff_getElem?]
    refine ⟨n - 1, ?_⟩
    rw [List.getElem?_drop, List.getElem?_zipIdx, Nat.add_sub_cancel' positive, here]
    simp

end Bacula.UaTree
