import Bacula.Dird.TreeVersions

/-! When a restore selection is closed under hard links: each name that a hard link has must find,
in its own versions or in those of the name that the link leads to, the file of its job that it is a
link to. -/
namespace Bacula.UaTree
open Bacula.Tree

/-- The File daemon saves as links only what has a name and is no directory and no soft link. -/
def FileLink (row : CatalogRow) : Prop := row.linkFI ≠ 0 → row.fname ≠ [] ∧ row.isLnk = false

/-- The files in the reach of a hard-linked node when it is marked. -/
def reached (root : TreeRoot) (node : TreeNode) : List (UInt32 × Int32) :=
  pairs node ++ match linkedEntry root node with
    | some first => pairs (root.node first)
    | none => []

/-- The file that a hard-linked node is a link to. -/
def linkTarget (node : TreeNode) : UInt32 × Int32 := (node.jobId, node.linkFI)

/-- Each hard link of the tree reaches its file, and so does the node it is led to if that is a hard
link itself. -/
def Linked (root : TreeRoot) : Prop :=
  ∀ (n : ℕ) (node : TreeNode), root.nodes[n]? = some node → node.hardLink = true →
    linkTarget node ∈ reached root node ∧
      ∀ (first : ℕ) (target : TreeNode), linkedEntry root node = some first →
        root.nodes[first]? = some target → target.hardLink = true →
          linkTarget target ∈ reached root node

/-- The name that a hard link leads to, after some rows of which the last one stands first. -/
def Version.leads (v : Version) (before : List CatalogRow) : Option (List Name) :=
  if (v.jobId, v.fileIndex) ≠ (0, 0) then (links before).name (v.jobId, v.fileIndex) else none

/-- The files of a hard link's own name and of the name that it leads to. -/
def Version.reach (v : Version) (before : List CatalogRow) : List (UInt32 × Int32) :=
  v.files ++ match v.leads before with
    | some first => ((version first before).map Version.files).getD []
    | none => []

/-- Each name that a hard link has at the end is led to the file of the link, which no later row has
taken from its name; and so is the name that it is led to, if a hard link has that as well. -/
def LinksKept (rows : List CatalogRow) : Prop :=
  ∀ key v, version key rows.reverse = some v → v.hardLink = true →
    (v.jobId, v.linkFI) ∈ v.reach rows.reverse ∧
      ∀ first w, v.leads rows.reverse = some first → version first rows.reverse = some w →
        w.hardLink = true → (w.jobId, w.linkFI) ∈ v.reach rows.reverse

/-- The files of the hard links among the marked nodes will be restored. -/
def Closed (tree : TreeCtx) : Prop :=
  ∀ (n : ℕ) (node : TreeNode), tree.root.nodes[n]? = some node → tree.marks.extract n = true →
    node.hardLink = true → linkTarget node ∈ restoreList tree

/-! ## The tree after the rows -/

/-- A hard-linked node is a file behind the root. -/
def LinkNode (n : ℕ) (node : TreeNode) : Prop :=
  node.hardLink = true → 0 < n ∧ node.type = .file ∧ node.softLink = false

theorem linkNode_structural : Structural LinkNode where
  new _ _ _ _ _ link := by cases link
  child _ _ _ holds := holds
  seen _ _ holds := holds

structure Built (root : TreeRoot) : Prop where
  wellFormed : WellFormed root
  links : Holds LinkNode root

theorem newTree_built : Built newTree where
  wellFormed := newTree_wellFormed
  links := by
    refine ⟨by decide, fun n node here link => ?_⟩
    match n with
    | 0 =>
        obtain rfl := Option.some_inj.mp here
        cases link
    | n + 1 => exact absurd here (by simp [newTree])

theorem Built.modify {root : TreeRoot} (built : Built root) {n : ℕ} {f : TreeNode → TreeNode}
    (child : ∀ node c, c ∈ (f node).child → c ∈ node.child)
    (keeps : ∀ node, root.nodes[n]? = some node → LinkNode n (f node)) : Built (root.modify n f) :=
  ⟨built.wellFormed.modify child, built.links.modify keeps⟩

theorem deltaPart_built {root : TreeRoot} (built : Built root) (row : CatalogRow) (n : ℕ) :
    Built (deltaPart root row n).1 ∧ (deltaPart root row n).1.nodes.length = root.nodes.length := by
  rw [deltaPart]
  split
  · split
    · exact ⟨built.modify (fun _ _ => id) fun node here => built.links.each n node here,
        TreeRoot.modify_length ..⟩
    · split
      · exact ⟨built.modify (fun _ _ => id) fun node here => built.links.each _ node here,
          TreeRoot.modify_length ..⟩
      · exact ⟨built, rfl⟩
  · exact ⟨built, rfl⟩

theorem insertLink_built {root : TreeRoot} (built : Built root) (key : UInt64) {n : ℕ}
    (positive : 0 < n) (inside : n < root.nodes.length) : Built (root.insertLink key n) := by
  rw [TreeRoot.insertLink]
  split
  · exact built
  · refine ⟨⟨built.wellFormed.below, fun entry link => ?_, built.wellFormed.cached⟩,
      built.links.rooted, built.links.each⟩
    rcases List.mem_cons.mp link with rfl | old
    · exact ⟨positive, inside⟩
    · exact built.wellFormed.links entry old

theorem lookup_isNode {root : TreeRoot} (wf : WellFormed root) {key : UInt64} {n : ℕ}
    (found : root.lookup key = some n) : 0 < n ∧ n < root.nodes.length := by
  obtain ⟨entry, first, rfl⟩ := Option.map_eq_some_iff.mp found
  exact wf.links entry (List.mem_of_find?_eq_some first)

theorem insertHardlink_built {root : TreeRoot} (built : Built root) (row : CatalogRow) {n : ℕ}
    (positive : 0 < n) (inside : n < root.nodes.length) : Built (insertHardlink root row n) := by
  rw [insertHardlink]
  split
  · split
    · exact insertLink_built built _ positive inside
    · split
      case h_1 first found =>
        obtain ⟨positive, inside⟩ := lookup_isNode built.wellFormed found
        exact insertLink_built built _ positive inside
      case h_2 => exact built
  · exact built

/-- One row. -/
theorem insertTreeHandler_built {tree : TreeCtx} (built : Built tree.root) {row : CatalogRow}
    (fileLink : FileLink row) : Built (insertTreeHandler tree row).root := by
  have inserted := insertTreeNode_inserted built.wellFormed built.links.rooted row.path row.fname
  have links := linkNode_structural.insertTreeNode built.links row.path row.fname
  rw [insertTreeHandler]
  generalize insertTreeNode tree.root row.path row.fname = result at inserted links
  obtain ⟨root, n⟩ := result
  obtain ⟨delta, length⟩ := deltaPart_built ⟨inserted.wellFormed, links⟩ row n
  dsimp only at inserted ⊢
  generalize deltaPart root row n = part at delta length
  obtain ⟨root', goesOn⟩ := part
  have filled : Built (root'.modify n (fillNode row)) := by
    refine delta.modify (fun _ _ inside => inside) fun node _ link => ?_
    have isLink : row.linkFI ≠ 0 := by simpa [fillNode] using link
    obtain ⟨named, noLnk⟩ := fileLink isLink
    refine ⟨inserted.positive, ?_, noLnk⟩
    change rowType row = .file
    rw [rowType, if_neg named]
  dsimp only
  split
  · refine insertHardlink_built filled row inserted.positive ?_
    rw [TreeRoot.modify_length]
    exact length ▸ inserted.inside
  · exact delta

theorem insertTreeHandler_marks (tree : TreeCtx) (notAll : tree.all = false) (row : CatalogRow) :
    (insertTreeHandler tree row).marks = tree.marks ∧ (insertTreeHandler tree row).all = false := by
  rw [insertTreeHandler]
  dsimp only
  split
  · refine ⟨?_, notAll⟩
    change markAll tree row _ = tree.marks
    rw [markAll, notAll, if_neg Bool.false_ne_true]
  · exact ⟨rfl, notAll⟩

/-- The tree after the rows, before any mark. -/
theorem build_built (noAutoParent : Bool) {rows : List CatalogRow}
    (fileLinks : ∀ row ∈ rows, FileLink row) :
    Built (build false noAutoParent rows).root ∧ (build false noAutoParent rows).marks = noMarks := by
  have run : ∀ (tree : TreeCtx), Built tree.root → tree.marks = noMarks → tree.all = false →
      Built (rows.foldl insertTreeHandler tree).root ∧
        (rows.foldl insertTreeHandler tree).marks = noMarks := by
    induction rows with
    | nil => exact fun tree built none _ => ⟨built, none⟩
    | cons row rows ih =>
        intro tree built none notAll
        obtain ⟨marks, notAll'⟩ := insertTreeHandler_marks tree notAll row
        exact ih (fun row inside => fileLinks row (List.mem_cons_of_mem _ inside)) _
          (insertTreeHandler_built built (fileLinks row List.mem_cons_self)) (marks.trans none) notAll'
  exact run _ newTree_built rfl rfl

/-! ## The marks -/

theorem node_of_getElem? {root : TreeRoot} {n : ℕ} {node : TreeNode}
    (here : root.nodes[n]? = some node) :
    root.node n = node := by
  rw [TreeRoot.node, List.getD_eq_getElem?_getD, here, Option.getD_some]

/-- Only a hard link is led anywhere. -/
theorem isLink_of_linkedEntry {root : TreeRoot} {n first : ℕ}
    (led : linkedEntry root (root.node n) = some first) :
    ∃ link, root.nodes[n]? = some link ∧ link.hardLink = true := by
  have link : (root.node n).hardLink = true := by
    by_contra plain
    rw [linkedEntry, if_neg (by simp [plain])] at led
    cases led
  rcases Nat.lt_or_ge n root.nodes.length with inside | outside
  · refine ⟨root.nodes[n], List.getElem?_eq_getElem inside, ?_⟩
    rwa [TreeRoot.node, List.getD_eq_getElem _ _ inside] at link
  · rw [TreeRoot.node, List.getD_eq_default _ _ outside] at link
    cases link

theorem Built.link_stays {root : TreeRoot} (built : Built root) {n : ℕ} {node : TreeNode}
    (here : root.nodes[n]? = some node) (link : node.hardLink = true) : goesDown node = false := by
  obtain ⟨-, type, noLnk⟩ := built.links.each n node here link
  rw [goesDown, type, noLnk]
  rfl

/-- Every marked hard link was visited by `set_extract`, or a hard link that was leads to it; and
the node that a visited hard link leads to is marked. -/
def Visited (root : TreeRoot) (marks : Marks) : Prop :=
  ∀ (n : ℕ) (node : TreeNode), root.nodes[n]? = some node → node.hardLink = true →
    marks.extract n = true →
    ∃ (m : ℕ) (link : TreeNode), root.nodes[m]? = some link ∧ link.hardLink = true ∧
      marks.extract m = true ∧
        (∀ first, linkedEntry root link = some first → marks.extract first = true) ∧
      (n = m ∨ linkedEntry root link = some n)

/-- What is marked stays marked. -/
def Marks.Grows (marks marks' : Marks) : Prop := ∀ n, marks.extract n = true → marks'.extract n = true

theorem Marks.Grows.trans {a b c : Marks} (first : a.Grows b) (second : b.Grows c) : a.Grows c :=
  fun n marked => second n (first n marked)

theorem Marks.setExtract_extract (marks : Marks) (n m : ℕ) :
    (marks.setExtract n true).extract m = (decide (m = n) || marks.extract m) := by
  change Function.update marks.extract n true m = _
  rw [Function.update_apply]
  by_cases same : m = n <;> simp [same]

theorem markNode_extract (root : TreeRoot) (marks : Marks) (n m : ℕ) :
    (markNode root marks n true).extract m = (decide (m = n) || marks.extract m) := by
  rw [markNode]
  split
  · exact Marks.setExtract_extract marks n m
  · exact Marks.setExtract_extract marks n m

theorem markParents_extract (root : TreeRoot) (steps : ℕ) (marks : Marks) (n : ℕ) :
    (markParents root steps marks n).extract = marks.extract := by
  induction steps generalizing marks n with
  | zero => rfl
  | succ steps ih =>
      rw [markParents]
      split
      · split
        · rfl
        · rw [ih]
          rfl
      · rfl

theorem markLinked_extract (root : TreeRoot) (marks : Marks) (n m : ℕ) :
    (markLinked root marks n).extract m =
      (decide (linkedEntry root (root.node n) = some m) || marks.extract m) := by
  rw [markLinked]
  cases linkedEntry root (root.node n) with
  | none => simp
  | some first =>
      change (marks.setExtract first true).extract m = _
      rw [Marks.setExtract_extract]
      exact congrArg (· || _) (decide_eq_decide.mpr (eq_comm.trans Option.some_inj.symm))

/-- Marks that grow by nodes that are no hard links. -/
theorem Visited.plain {root : TreeRoot} {marks marks' : Marks} (visited : Visited root marks)
    (grows : marks.Grows marks') (plain : ∀ n node, root.nodes[n]? = some node → node.hardLink = true →
      marks'.extract n = true → marks.extract n = true) : Visited root marks' := by
  intro n node here link marked
  obtain ⟨m, mnode, there, mlink, mmarked, firsts, reach⟩ :=
    visited n node here link (plain n node here link marked)
  exact ⟨m, mnode, there, mlink, grows m mmarked, fun first eq => grows first (firsts first eq), reach⟩

/-- A file is visited. -/
theorem Visited.markLinked {root : TreeRoot} {marks : Marks} (visited : Visited root marks)
    (n : ℕ) : Visited root (markLinked root (markNode root marks n true) n) := by
  have extract (m : ℕ) : (UaTree.markLinked root (markNode root marks n true) n).extract m =
      (decide (linkedEntry root (root.node n) = some m) || (decide (m = n) || marks.extract m)) := by
    rw [markLinked_extract, markNode_extract]
  have grows : marks.Grows (UaTree.markLinked root (markNode root marks n true) n) := by
    intro m marked
    rw [extract, marked, Bool.or_true, Bool.or_true]
  intro m node here link marked
  by_cases before : marks.extract m = true
  · obtain ⟨k, knode, there, klink, kmarked, firsts, reach⟩ := visited m node here link before
    exact ⟨k, knode, there, klink, grows k kmarked, fun first eq => grows first (firsts first eq),
      reach⟩
  · rw [extract, Bool.or_eq_true, Bool.or_eq_true, decide_eq_true_eq, decide_eq_true_eq] at marked
    -- the node is visited now, or the table leads to it from the visited one
    have reach : m = n ∨ linkedEntry root (root.node n) = some m := by
      rcases marked with led | same | old
      · exact .inr led
      · exact .inl same
      · exact absurd old before
    have isLink : ∃ link, root.nodes[n]? = some link ∧ link.hardLink = true := by
      rcases reach with rfl | led
      · exact ⟨node, here, link⟩
      · exact isLink_of_linkedEntry led
    obtain ⟨nnode, there, nlink⟩ := isLink
    rw [node_of_getElem? there] at reach
    refine ⟨n, nnode, there, nlink, ?_, fun first eq => ?_, reach⟩
    · rw [extract, decide_eq_true rfl, Bool.true_or, Bool.or_true]
    · rw [extract, node_of_getElem? there, decide_eq_true eq, Bool.true_or]

theorem markLinked_grows (root : TreeRoot) (marks : Marks) (n : ℕ) :
    marks.Grows (markLinked root (markNode root marks n true) n) := by
  intro m marked
  rw [markLinked_extract, markNode_extract, marked, Bool.or_true, Bool.or_true]

/-- One call, by induction on the depth: a directory marks nothing that is a hard link itself, and
its children are visited one after the other. -/
theorem setExtract_visited {root : TreeRoot} (built : Built root) (noAutoParent : Bool) (depth : ℕ)
    {marks : Marks} (visited : Visited root marks) (n : ℕ) :
    Visited root (setExtract root noAutoParent true depth marks n) ∧
      marks.Grows (setExtract root noAutoParent true depth marks n) := by
  induction depth generalizing marks n with
  | zero => exact ⟨visited, fun _ => id⟩
  | succ depth ih =>
      have children : ∀ (list : List ℕ) {marks : Marks}, Visited root marks →
          Visited root (list.foldl (setExtract root noAutoParent true depth) marks) ∧
            marks.Grows (list.foldl (setExtract root noAutoParent true depth) marks) := by
        intro list
        induction list with
        | nil => exact fun visited => ⟨visited, fun _ => id⟩
        | cons c list ihList =>
            intro marks visited
            obtain ⟨visited', grows⟩ := ih visited c
            obtain ⟨result, grows'⟩ := ihList visited'
            exact ⟨result, grows.trans grows'⟩
      have grows : marks.Grows (markNode root marks n true) := by
        intro m marked
        rw [markNode_extract, marked, Bool.or_true]
      rw [setExtract]
      dsimp only
      by_cases down : goesDown (root.node n) = true
      · have plain : Visited root (markNode root marks n true) := by
          refine visited.plain grows fun m node here link marked => ?_
          rw [markNode_extract, Bool.or_eq_true, decide_eq_true_eq] at marked
          rcases marked with rfl | old
          · rw [node_of_getElem? here, built.link_stays here link] at down
            cases down
          · exact old
        obtain ⟨result, grows'⟩ := children (root.node n).child plain
        rw [if_pos down]
        split
        · refine ⟨?_, fun m marked => ?_⟩
          · refine result.plain (fun m marked => ?_) fun m node here link marked => ?_
            · rwa [markParents_extract]
            · rwa [markParents_extract] at marked
          · rw [markParents_extract]
            exact grows' m (grows m marked)
        · exact ⟨result, grows.trans grows'⟩
      · rw [if_neg down, if_pos rfl]
        exact ⟨visited.markLinked n, markLinked_grows root marks n⟩

/-- Any marks on the tree. -/
theorem marks_visited {tree : TreeCtx} (built : Built tree.root)
    (visited : Visited tree.root tree.marks) (marks : List ℕ) :
    Visited (marks.foldl mark tree).root (marks.foldl mark tree).marks ∧
      (marks.foldl mark tree).root = tree.root := by
  induction marks generalizing tree with
  | nil => exact ⟨visited, rfl⟩
  | cons n marks ih =>
      have builtMark : Built (mark tree n).root := built
      exact ih builtMark (setExtract_visited built _ _ visited n).1

/-- What a marked node holds is restored. -/
theorem restored_of_marked {tree : TreeCtx} {n : ℕ} {node : TreeNode} (positive : 0 < n)
    (here : tree.root.nodes[n]? = some node) (marked : tree.marks.extract n = true)
    {file : UInt32 × Int32} (inside : file ∈ pairs node) : file ∈ restoreList tree :=
  mem_restoreList.mpr ⟨n, node, positive, here, by rw [marked, Bool.true_or], inside⟩

/-- Everything in the reach of a visited link is restored. -/
theorem reached_restored {tree : TreeCtx} (built : Built tree.root) {n : ℕ} {node : TreeNode}
    (here : tree.root.nodes[n]? = some node) (link : node.hardLink = true)
    (marked : tree.marks.extract n = true)
    (firsts : ∀ first, linkedEntry tree.root node = some first → tree.marks.extract first = true)
    {file : UInt32 × Int32} (inside : file ∈ reached tree.root node) : file ∈ restoreList tree := by
  rw [reached, List.mem_append] at inside
  rcases inside with own | led
  · exact restored_of_marked (built.links.each n node here link).1 here marked own
  · cases entry : linkedEntry tree.root node with
    | none =>
        rw [entry] at led
        cases led
    | some first =>
        rw [entry] at led
        have found : tree.root.lookup (hlKey node.jobId node.fileIndex) = some first := by
          rw [linkedEntry] at entry
          split at entry
          · exact entry
          · cases entry
        obtain ⟨positive, isNode⟩ := lookup_isNode built.wellFormed found
        have there := List.getElem?_eq_getElem isNode
        change file ∈ pairs (tree.root.node first) at led
        rw [node_of_getElem? there] at led
        exact restored_of_marked positive there (firsts first entry) led

/-- A single mark of a hard link restores what is in its reach and no more. -/
theorem restoreList_mark {tree : TreeCtx} (built : Built tree.root) (none : tree.marks = noMarks)
    {n : ℕ} {node : TreeNode} (here : tree.root.nodes[n]? = some node) (link : node.hardLink = true) :
    (∀ m, (mark tree n).marks.extract m = true ↔ m = n ∨ linkedEntry tree.root node = some m) ∧
      ∀ file, file ∈ restoreList (mark tree n) → file ∈ reached tree.root node := by
  have isNode := (List.getElem?_eq_some_iff.mp here).1
  have type := (built.links.each n node here link).2.1
  obtain ⟨depth, length⟩ : ∃ depth, tree.root.nodes.length = depth + 1 :=
    ⟨_, (Nat.succ_pred_eq_of_pos (Nat.zero_lt_of_lt isNode)).symm⟩
  have marks : (mark tree n).marks = markLinked tree.root (noMarks.setExtract n true) n := by
    rw [mark, length, setExtract, none]
    dsimp only
    rw [node_of_getElem? here, built.link_stays here link, markNode, node_of_getElem? here, type]
    rfl
  have extract (m : ℕ) : (mark tree n).marks.extract m = true ↔
      m = n ∨ linkedEntry tree.root node = some m := by
    rw [marks, markLinked_extract, node_of_getElem? here, Marks.setExtract_extract]
    simp [noMarks, or_comm]
  refine ⟨extract, fun file restored => ?_⟩
  obtain ⟨m, mnode, -, there, marked, inside⟩ := mem_restoreList.mp restored
  have same : (mark tree n).root = tree.root := rfl
  rw [same] at there
  have reach : m = n ∨ linkedEntry tree.root node = some m := by
    rw [Bool.or_eq_true] at marked
    rcases marked with marked | dir
    · exact (extract m).mp marked
    · rw [marks, markLinked, node_of_getElem? here] at dir
      cases entry : linkedEntry tree.root node with
      | none =>
          rw [entry] at dir
          cases dir
      | some first =>
          rw [entry] at dir
          by_cases led : m = first
          · exact .inr (congrArg some led.symm)
          · have off : Function.update (fun _ => false) first
              (NodeType.isDir (tree.root.node first).type) m =
                true := dir
            rw [Function.update_of_ne led] at off
            cases off
  rw [reached, List.mem_append]
  rcases reach with rfl | led
  · rw [here] at there
    exact .inl (Option.some_inj.mp there ▸ inside)
  · rw [led]
    refine .inr ?_
    change file ∈ pairs (tree.root.node m)
    rw [node_of_getElem? there]
    exact inside

/-! ## The rows and the tree -/

section Rows

variable {before : List CatalogRow} {root : TreeRoot}

theorem hlKey_zero : hlKey 0 0 = 0 := by decide

theorem hlKey_ne_zero (file : UInt32 × Int32) : hlKey file.1 file.2 ≠ 0 ↔ file ≠ (0, 0) := by
  rw [← hlKey_zero]
  exact not_congr (hlKey_inj (b := (0, 0)))

/-- The top of the tree is no hard link. -/
theorem version_nil {v : Version} (here : version [] before = some v) : v.hardLink = false := by
  induction before generalizing v with
  | nil => cases here
  | cons row before ih =>
      rw [version, hold_way (rowKey_ne_nil row) List.nil_prefix] at here
      obtain rfl := Option.some_inj.mp here
      cases old : version [] before with
      | none => rfl
      | some v => exact ih old

/-- The table leads a hard link to the node of the name that the rows lead it to. -/
theorem Agrees.leads (agrees : Agrees before root) {node : TreeNode} (link : node.hardLink = true) :
    match (versionOf node).leads before with
    | some first => ∃ m, 0 < m ∧ HasKey root m first ∧ linkedEntry root node = some m
    | none => linkedEntry root node = none := by
  have here := agrees.links (node.jobId, node.fileIndex)
  rw [Version.leads, linkedEntry, link, Bool.true_and]
  change match if (node.jobId, node.fileIndex) ≠ (0, 0) then
      (UaTree.links before).name (node.jobId, node.fileIndex) else none with
    | some first => ∃ m, 0 < m ∧ HasKey root m first ∧ _ = some m
    | none => _ = none
  by_cases zero : (node.jobId, node.fileIndex) ≠ (0, 0)
  · rw [if_pos zero, if_pos (decide_eq_true ((hlKey_ne_zero (node.jobId, node.fileIndex)).mpr zero))]
    exact here
  · rw [if_neg zero, if_neg fun some => zero ((hlKey_ne_zero _).mp (of_decide_eq_true some))]

theorem Agrees.reach (agrees : Agrees before root) {node : TreeNode} (link : node.hardLink = true) :
    (versionOf node).reach before = reached root node := by
  have led := agrees.leads link
  unfold Version.reach reached
  cases here : (versionOf node).leads before with
  | none =>
      rw [here] at led
      dsimp only at led
      rw [led]
      rfl
  | some first =>
      rw [here] at led
      obtain ⟨m, positive, has, entry⟩ := led
      have name : first ≠ [] := by
        rintro rfl
        exact positive.ne' (has.unique_node agrees.shaped .root)
      rw [entry]
      dsimp only
      rw [agrees.version name has]
      rfl

theorem getElem?_node {n : ℕ} (inside : n < root.nodes.length) :
    root.nodes[n]? = some (root.node n) := by
  rw [List.getElem?_eq_getElem inside, TreeRoot.node, List.getD_eq_getElem _ _ inside]

theorem linked_iff {rows : List CatalogRow} (agrees : Agrees rows.reverse root) (built : Built root) :
    Linked root ↔ LinksKept rows := by
  constructor
  · intro linked key v here link
    have some : key ≠ [] := by
      rintro rfl
      rw [version_nil here] at link
      cases link
    obtain ⟨n, has⟩ := agrees.name key v some here
    obtain rfl := Option.some_inj.mp (here.symm.trans (agrees.version some has))
    obtain ⟨own, led⟩ := linked n _ (getElem?_node (has.isNode agrees.shaped)) link
    rw [agrees.reach link]
    refine ⟨own, fun first w leads target tlink => ?_⟩
    have entry := agrees.leads link
    rw [leads] at entry
    obtain ⟨m, positive, hasM, entry⟩ := entry
    have name : first ≠ [] := by
      rintro rfl
      exact positive.ne' (hasM.unique_node agrees.shaped .root)
    obtain rfl := Option.some_inj.mp (target.symm.trans (agrees.version name hasM))
    exact led m _ entry (getElem?_node (hasM.isNode agrees.shaped)) tlink
  · intro kept n node here link
    have positive := (built.links.each n node here link).1
    have inside := (List.getElem?_eq_some_iff.mp here).1
    obtain rfl := Option.some_inj.mp (here.symm.trans (getElem?_node inside))
    obtain ⟨key, has, holds⟩ := agrees.node n positive inside
    obtain ⟨own, led⟩ := kept key _ holds link
    rw [agrees.reach link] at own led
    refine ⟨own, fun m target entry there tlink => ?_⟩
    have leads := agrees.leads link
    cases name : (versionOf (root.node n)).leads rows.reverse with
    | none =>
        rw [name] at leads
        dsimp only at leads
        rw [leads] at entry
        cases entry
    | some first =>
        rw [name] at leads
        obtain ⟨m', positive', hasM, entry'⟩ := leads
        obtain rfl := Option.some_inj.mp (entry.symm.trans entry')
        have some : first ≠ [] := by
          rintro rfl
          exact positive'.ne' (hasM.unique_node agrees.shaped .root)
        obtain rfl := Option.some_inj.mp (there.symm.trans (getElem?_node (hasM.isNode agrees.shaped)))
        exact led first _ name (agrees.version some hasM) tlink

end Rows

/-- Every selection by mark commands on the tree of some rows is closed under hard links exactly when
the rows keep the files of the links. -/
theorem marks_closed_iff (noAutoParent : Bool) {rows : List CatalogRow}
    (fileLinks : ∀ row ∈ rows, FileLink row) :
    (∀ marks : List ℕ, Closed (marks.foldl mark (build false noAutoParent rows))) ↔ LinksKept rows := by
  obtain ⟨built, none⟩ := build_built noAutoParent fileLinks
  rw [← linked_iff (build_agrees false noAutoParent rows) built]
  generalize build false noAutoParent rows = tree at built none
  constructor
  · intro closed n node here link
    obtain ⟨extract, list⟩ := restoreList_mark built none here link
    have one := closed [n]
    refine ⟨list _ (one n node here ((extract n).mpr (.inl rfl)) link),
      fun first target led there tlink => ?_⟩
    exact list _ (one first target there ((extract first).mpr (.inr led)) tlink)
  · intro linked marks n node here marked link
    have start : Visited tree.root tree.marks := by
      rw [none]
      exact fun _ _ _ _ marked => absurd marked Bool.false_ne_true
    obtain ⟨visited, same⟩ := marks_visited built start marks
    have builtMarked : Built (marks.foldl mark tree).root := same ▸ built
    obtain ⟨m, mnode, there, mlink, mmarked, firsts, reach⟩ := visited n node here link marked
    refine reached_restored builtMarked there mlink mmarked firsts ?_
    rw [same] at here there reach ⊢
    obtain ⟨own, led⟩ := linked m mnode there mlink
    rcases reach with rfl | entry
    · rw [here] at there
      exact Option.some_inj.mp there ▸ own
    · exact led n node entry here link

/-- Two names of one file in a full backup, and the first name again in an incremental one. -/
def fullRows : List CatalogRow :=
  [⟨[47, 100, 47], [97], 1, 1, 0, 2, false, 0⟩, ⟨[47, 100, 47], [98], 2, 1, 0, 2, false, 1⟩]

def incrementalRow : CatalogRow := ⟨[47, 100, 47], [97], 5, 2, 0, 1, false, 0⟩

theorem marks_closed_full :
    (∀ marks : List ℕ, Closed (marks.foldl mark (build false false fullRows))) ↔ LinksKept fullRows :=
  marks_closed_iff false (by simp [fullRows, FileLink])

/-- The new version of the first name takes over its node: marking the second name restores the new
version and not the file that the second name is a link to. -/
theorem replaced_target_not_restored :
    ¬ ∀ marks : List ℕ,
        Closed (marks.foldl mark (build false false (fullRows ++ [incrementalRow]))) := by
  intro closed
  have second : (build false false (fullRows ++ [incrementalRow])).root.nodes[3]? =
      some ⟨[98], .file, 2, 1, 0, true, false, true, 1, some 1, [], []⟩ := by decide
  exact absurd (closed [3] 3 _ second (by decide) rfl) (by decide)

end Bacula.UaTree
