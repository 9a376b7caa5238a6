import Mathlib

/-! The restore tree of `lib/tree.c`. A node is named by its place in the chain of nodes, the root
by 0; the red-black tree of its children is the list of them in order. Nodes are never freed, so
what is left out is the memory they are cut from. -/
namespace Bacula.Tree

abbrev Name := List UInt8

/-- `IsPathSeparator` on Unix. -/
def sep : UInt8 := 47

inductive NodeType where
  | none
  | root
  | newDir
  | dir
  | dirNls
  | file
  deriving DecidableEq, Repr

/-- The flags `extract` and `extract_dir` are kept beside the tree. The link index of the row that
filled the node is a history: the code does not keep it. -/
structure TreeNode where
  fname : Name
  type : NodeType
  fileIndex : Int32
  jobId : UInt32
  deltaSeq : Int32
  hardLink : Bool
  softLink : Bool
  inserted : Bool
  linkFI : Int32
  parent : Option ℕ
  child : List ℕ
  deltaList : List (UInt32 × Int32)
  deriving DecidableEq, Repr

def newTreeNode (fname : Name) (type : NodeType) (parent : Option ℕ) : TreeNode :=
  ⟨fname, type, 0, 0, -1, false, false, true, 0, parent, [], []⟩

structure TreeRoot where
  nodes : List TreeNode
  /-- The table of hard links, from keys to nodes. -/
  hardlinks : List (UInt64 × ℕ)
  cachedPath : Option Name
  cachedParent : ℕ
  deriving DecidableEq, Repr

def newTree : TreeRoot := ⟨[newTreeNode [] .root none], [], none, 0⟩

def TreeRoot.node (root : TreeRoot) (n : ℕ) : TreeNode :=
  root.nodes.getD n (newTreeNode [] .root none)

def TreeRoot.modify (root : TreeRoot) (n : ℕ) (f : TreeNode → TreeNode) : TreeRoot :=
  { root with nodes := root.nodes.modify n f }

/-- `node_compare` puts the first name before the second: the first bytes as signed characters,
then the bytes. -/
def nodeBefore (a b : Name) : Bool :=
  let first (name : Name) : Int8 := (name.headD 0).toInt8
  first a < first b || (first a = first b && a < b)

/-- The place of a name among the children. -/
def TreeRoot.insertChild (root : TreeRoot) (children : List ℕ) (name : Name) (n : ℕ) : List ℕ :=
  let before (c : ℕ) : Bool := nodeBefore (root.node c).fname name
  children.takeWhile before ++ n :: children.dropWhile before

def TreeRoot.findChild (root : TreeRoot) (parent : ℕ) (fname : Name) : Option ℕ :=
  (root.node parent).child.find? fun c => (root.node c).fname = fname

/-- The node `n` becomes a child of `parent`. -/
def TreeRoot.link (root : TreeRoot) (parent : ℕ) (fname : Name) (n : ℕ) : TreeRoot :=
  root.modify parent fun node => { node with child := root.insertChild node.child fname n }

/-- A node goes to the end of the chain. -/
def TreeRoot.append (root : TreeRoot) (node : TreeNode) : TreeRoot :=
  { root with nodes := root.nodes ++ [node] }

/-- A node that was there before. -/
def TreeRoot.seen (root : TreeRoot) (n : ℕ) : TreeRoot :=
  root.modify n fun node => { node with inserted := false }

def searchAndInsertTreeNode (root : TreeRoot) (fname : Name) (type : NodeType) (parent : ℕ) :
    TreeRoot × ℕ :=
  match root.findChild parent fname with
  | some found => (root.seen found, found)
  | none =>
      let n := root.nodes.length
      ((root.link parent fname n).append (newTreeNode fname type parent), n)

/-- What stands before and after the last separator. -/
def lastPathSeparator : Name → Option (Name × Name)
  | [] => none
  | c :: rest =>
      match lastPathSeparator rest with
      | some (before, after) => some (c :: before, after)
      | none => if c = sep then some ([], rest) else none

/-- The directories of a path, which has at most `len` bytes. -/
def makeTreePath (root : TreeRoot) : (len : ℕ) → (path : Name) → TreeRoot × ℕ
  | _, [] => (root, 0)
  | 0, _ :: _ => (root, 0)
  | len+1, path =>
      match lastPathSeparator path with
      | some (before, fname) =>
          let (root, parent) := makeTreePath root len before
          searchAndInsertTreeNode root fname .newDir parent
      | none => searchAndInsertTreeNode root path .dirNls 0

/-- The parent of an entry; the last one is cached with its path. -/
def parentOf (root : TreeRoot) (path : Name) : TreeRoot × ℕ :=
  if root.cachedPath = some path then (root, root.cachedParent)
  else
    let (root, parent) := makeTreePath { root with cachedPath := some path } path.length path
    ({ root with cachedParent := parent }, parent)

/-- Strip a trailing slash. -/
def stripTrailing (path : Name) : Name := if path.getLast? = some sep then path.dropLast else path

/-- An entry of the tree. The node gets its type from the caller afterwards. -/
def insertTreeNode (root : TreeRoot) (path fname : Name) : TreeRoot × ℕ :=
  let path := stripTrailing path
  let (path, fname) :=
    if fname = [] then (lastPathSeparator path).getD (path, []) else (path, fname)
  if fname ≠ [] then
    let (root, parent) := parentOf root path
    searchAndInsertTreeNode root fname .none parent
  else searchAndInsertTreeNode root path .none 0

def treeAddDeltaPart (root : TreeRoot) (n : ℕ) (jobId : UInt32) (fileIndex : Int32) : TreeRoot :=
  root.modify n fun node => { node with deltaList := (jobId, fileIndex) :: node.deltaList }

/-- `rblist::remove`, whose body is empty. -/
def rblistRemove (child : List ℕ) (_item : ℕ) : List ℕ := child

/-- The memory of the node is never given back, as its name was cut behind it. -/
def treeRemoveNode (root : TreeRoot) (n : ℕ) : TreeRoot :=
  root.modify ((root.node n).parent.getD 0) fun node =>
    { node with child := rblistRemove node.child n }

def TreeRoot.lookup (root : TreeRoot) (key : UInt64) : Option ℕ :=
  (root.hardlinks.find? fun entry => entry.1 = key).map Prod.snd

/-- `htable::insert` keeps an entry that is there. -/
def TreeRoot.insertLink (root : TreeRoot) (key : UInt64) (n : ℕ) : TreeRoot :=
  if (root.lookup key).isSome then root else { root with hardlinks := (key, n) :: root.hardlinks }

/-- `bstrncat`: the buffer has room for `size` bytes with the terminator. -/
def strncat (buf text : Name) (size : ℕ) : Name := (buf ++ text).take (size - 1)

/-- `steps` is one more than the depth of the node. -/
def treeGetpath (root : TreeRoot) (size : ℕ) : (steps : ℕ) → ℕ → Name
  | 0, _ => []
  | steps+1, n =>
      let node := root.node n
      let buf := match node.parent with
        | some parent => treeGetpath root size steps parent
        | none => []
      -- win32 names don't generally start with a slash
      let buf := if node.type = .dirNls && buf = [sep] then [] else buf
      let buf := strncat buf node.fname size
      if (node.type ≠ .file && buf ≠ [sep]) || (node.softLink && node.child.length > 0) then
        strncat buf [sep] size
      else buf

/-! ## The shape of the tree -/

/-- Children and link targets are nodes behind the root. -/
structure WellFormed (root : TreeRoot) : Prop where
  below : ∀ (n : ℕ) (node : TreeNode), root.nodes[n]? = some node →
    ∀ c ∈ node.child, n < c ∧ c < root.nodes.length
  links : ∀ entry ∈ root.hardlinks, 0 < entry.2 ∧ entry.2 < root.nodes.length
  cached : root.cachedParent < root.nodes.length

theorem newTree_wellFormed : WellFormed newTree where
  below n node here := by
    match n with
    | 0 =>
        obtain rfl := Option.some_inj.mp here
        exact fun c child => absurd child List.not_mem_nil
    | n + 1 => exact absurd here (by simp [newTree])
  links entry inside := absurd inside List.not_mem_nil
  cached := by decide

theorem TreeRoot.modify_getElem? (root : TreeRoot) (n m : ℕ) (f : TreeNode → TreeNode) :
    (root.modify n f).nodes[m]? = (root.nodes[m]?).map fun node => if m = n then f node else node := by
  rw [TreeRoot.modify, List.getElem?_modify]
  by_cases same : n = m
  · simp [same]
  · simp [same, Ne.symm same]

/-- A field of the nodes that an update leaves as it is. -/
theorem TreeRoot.modify_field {α : Type} (root : TreeRoot) (n : ℕ) {f : TreeNode → TreeNode}
    (field : TreeNode → α) (keeps : ∀ node, field (f node) = field node) (m : ℕ) :
    field ((root.modify n f).node m) = field (root.node m) := by
  rw [TreeRoot.node, List.getD_eq_getElem?_getD, TreeRoot.modify_getElem?, TreeRoot.node,
    List.getD_eq_getElem?_getD]
  cases root.nodes[m]? with
  | none => rfl
  | some node =>
      rw [Option.map_some, Option.getD_some, Option.getD_some]
      split
      · exact keeps node
      · rfl

@[simp] theorem TreeRoot.modify_length (root : TreeRoot) (n : ℕ) (f : TreeNode → TreeNode) :
    (root.modify n f).nodes.length = root.nodes.length := List.length_modify ..

/-- An update of a node that leaves its children. -/
theorem WellFormed.modify {root : TreeRoot} (wf : WellFormed root) {n : ℕ} {f : TreeNode → TreeNode}
    (keeps : ∀ node c, c ∈ (f node).child → c ∈ node.child) : WellFormed (root.modify n f) where
  below m node here c child := by
    rw [TreeRoot.modify_getElem?] at here
    obtain ⟨old, there, rfl⟩ := Option.map_eq_some_iff.mp here
    rw [TreeRoot.modify_length]
    split at child
    · exact wf.below m old there c (keeps old c child)
    · exact wf.below m old there c child
  links entry inside := by
    rw [TreeRoot.modify_length]
    exact wf.links entry inside
  cached := by
    rw [TreeRoot.modify_length]
    exact wf.cached

theorem findChild_below {root : TreeRoot} (wf : WellFormed root) {parent : ℕ}
    (inside : parent < root.nodes.length) {fname : Name} {c : ℕ}
    (found : root.findChild parent fname = some c) : parent < c ∧ c < root.nodes.length := by
  have child := List.mem_of_find?_eq_some found
  rw [TreeRoot.node, List.getD_eq_getElem _ _ inside] at child
  exact wf.below parent _ (List.getElem?_eq_getElem inside) c child

theorem mem_insertChild {root : TreeRoot} {children : List ℕ} {name : Name} {n c : ℕ}
    (inside : c ∈ root.insertChild children name n) : c = n ∨ c ∈ children := by
  rw [TreeRoot.insertChild, List.mem_append, List.mem_cons] at inside
  rcases inside with first | same | last
  · exact .inr (List.takeWhile_subset _ first)
  · exact .inl same
  · exact .inr ((List.dropWhile_sublist _).subset last)

@[simp] theorem TreeRoot.link_length (root : TreeRoot) (parent : ℕ) (fname : Name) (n : ℕ) :
    (root.link parent fname n).nodes.length = root.nodes.length := TreeRoot.modify_length ..

@[simp] theorem TreeRoot.seen_length (root : TreeRoot) (n : ℕ) :
    (root.seen n).nodes.length = root.nodes.length := TreeRoot.modify_length ..

@[simp] theorem TreeRoot.append_length (root : TreeRoot) (node : TreeNode) :
    (root.append node).nodes.length = root.nodes.length + 1 := List.length_append

/-- A node of the tree after an addition is an old one, perhaps with a new child, or the new one. -/
theorem added_getElem? {root : TreeRoot} {parent : ℕ} {fname : Name} {new node : TreeNode} {m : ℕ}
    (here : ((root.link parent fname root.nodes.length).append new).nodes[m]? = some node) :
    (m = root.nodes.length ∧ node = new) ∨
      ∃ old, root.nodes[m]? = some old ∧
        node = if m = parent then
          { old with child := root.insertChild old.child fname root.nodes.length } else old := by
  rw [TreeRoot.append] at here
  rcases Nat.lt_or_ge m (root.link parent fname root.nodes.length).nodes.length with old | new
  · rw [List.getElem?_append_left old, TreeRoot.link, TreeRoot.modify_getElem?] at here
    obtain ⟨before, there, rfl⟩ := Option.map_eq_some_iff.mp here
    exact .inr ⟨before, there, rfl⟩
  · rw [List.getElem?_append_right new] at here
    rw [TreeRoot.link_length] at here new
    have first : m - root.nodes.length = 0 := by
      by_contra later
      rw [List.getElem?_eq_none (by rw [List.length_singleton]; omega)] at here
      cases here
    rw [first] at here
    exact .inl ⟨by omega, (Option.some_inj.mp here).symm⟩

/-- The tree after an entry was looked up or added: well-formed, with every node it had, and `n`
is one of its nodes but not the root. -/
structure Inserted (root root' : TreeRoot) (n : ℕ) : Prop where
  wellFormed : WellFormed root'
  positive : 0 < n
  inside : n < root'.nodes.length
  grows : root.nodes.length ≤ root'.nodes.length

theorem searchAndInsertTreeNode_inserted {root : TreeRoot} (wf : WellFormed root) {parent : ℕ}
    (inside : parent < root.nodes.length) (fname : Name) (type : NodeType) :
    Inserted root (searchAndInsertTreeNode root fname type parent).1
      (searchAndInsertTreeNode root fname type parent).2 := by
  rw [searchAndInsertTreeNode]
  cases found : root.findChild parent fname with
  | some c =>
      obtain ⟨below, isNode⟩ := findChild_below wf inside found
      exact ⟨wf.modify fun _ _ => id, Nat.zero_lt_of_lt below, by rwa [TreeRoot.seen_length],
        by rw [TreeRoot.seen_length]⟩
  | none =>
      have length : ((root.link parent fname root.nodes.length).append
          (newTreeNode fname type parent)).nodes.length = root.nodes.length + 1 := by
        rw [TreeRoot.append_length, TreeRoot.link_length]
      refine ⟨⟨?_, ?_, ?_⟩, Nat.zero_lt_of_lt inside, ?_, ?_⟩
      · intro m node here c child
        rw [length]
        rcases added_getElem? here with ⟨-, rfl⟩ | ⟨old, there, rfl⟩
        · exact absurd child List.not_mem_nil
        · have below := wf.below m old there
          split at child
          case isTrue same =>
            rcases mem_insertChild child with rfl | old
            · omega
            · have := below c old
              omega
          case isFalse =>
            have := below c child
            omega
      · intro entry link
        have := wf.links entry link
        rw [length]
        omega
      · rw [length]
        exact Nat.lt_succ_of_lt wf.cached
      · rw [length]
        exact Nat.lt_succ_self _
      · rw [length]
        exact Nat.le_succ _

theorem makeTreePath_inserted {root : TreeRoot} (wf : WellFormed root) (some : 0 < root.nodes.length)
    (len : ℕ) (path : Name) :
    WellFormed (makeTreePath root len path).1 ∧
      (makeTreePath root len path).2 < (makeTreePath root len path).1.nodes.length ∧
      root.nodes.length ≤ (makeTreePath root len path).1.nodes.length := by
  induction len generalizing path with
  | zero =>
      cases path with
      | nil => exact ⟨wf, some, le_refl _⟩
      | cons c path => exact ⟨wf, some, le_refl _⟩
  | succ len ih =>
      cases path with
      | nil => exact ⟨wf, some, le_refl _⟩
      | cons c path =>
          rw [makeTreePath]
          cases split : lastPathSeparator (c :: path) with
          | none =>
              have new := searchAndInsertTreeNode_inserted wf some (c :: path) .dirNls
              exact ⟨new.wellFormed, new.inside, new.grows⟩
          | some parts =>
              obtain ⟨wf', parent, grows⟩ := ih parts.1
              have new := searchAndInsertTreeNode_inserted wf' parent parts.2 .newDir
              exact ⟨new.wellFormed, new.inside, grows.trans new.grows⟩
          · exact fun h => absurd h (List.cons_ne_nil _ _)

theorem parentOf_inserted {root : TreeRoot} (wf : WellFormed root) (some : 0 < root.nodes.length)
    (path : Name) :
    WellFormed (parentOf root path).1 ∧ (parentOf root path).2 < (parentOf root path).1.nodes.length ∧
      root.nodes.length ≤ (parentOf root path).1.nodes.length := by
  rw [parentOf]
  split
  · exact ⟨wf, wf.cached, le_refl _⟩
  · have cached : WellFormed { root with cachedPath := .some path } := ⟨wf.below, wf.links, wf.cached⟩
    obtain ⟨wf', parent, grows⟩ := makeTreePath_inserted cached some path.length path
    exact ⟨⟨wf'.below, wf'.links, parent⟩, parent, grows⟩

/-- An entry goes below the directories of its path, or below the root. -/
theorem insertTreeNode_cases (root : TreeRoot) (path fname : Name) :
    (∃ path' fname', insertTreeNode root path fname = searchAndInsertTreeNode (parentOf root path').1
        fname' .none (parentOf root path').2) ∨
      ∃ path', insertTreeNode root path fname = searchAndInsertTreeNode root path' .none 0 := by
  rw [insertTreeNode]
  generalize (if fname = [] then (lastPathSeparator (stripTrailing path)).getD (stripTrailing path, [])
    else (stripTrailing path, fname)) = parts
  dsimp only
  split
  · exact .inl ⟨parts.1, parts.2, rfl⟩
  · exact .inr ⟨parts.1, rfl⟩

theorem insertTreeNode_inserted {root : TreeRoot} (wf : WellFormed root) (some : 0 < root.nodes.length)
    (path fname : Name) :
    Inserted root (insertTreeNode root path fname).1 (insertTreeNode root path fname).2 := by
  rcases insertTreeNode_cases root path fname with ⟨path, fname, eq⟩ | ⟨path, eq⟩
  · obtain ⟨wf', parent, grows⟩ := parentOf_inserted wf some path
    have new := searchAndInsertTreeNode_inserted wf' parent fname .none
    rw [eq]
    exact ⟨new.wellFormed, new.positive, new.inside, grows.trans new.grows⟩
  · rw [eq]
    exact searchAndInsertTreeNode_inserted wf some path .none

/-! ## What insertion leaves alone -/

/-- A property of what the caller has put into a node: insertion changes only the children of a
node and its mark, and new nodes have it. -/
structure Structural (P : ℕ → TreeNode → Prop) : Prop where
  new : ∀ n fname type parent, 0 < n → P n (newTreeNode fname type parent)
  child : ∀ n node children, P n node → P n { node with child := children }
  seen : ∀ n node, P n node → P n { node with inserted := false }

/-- The tree has a root, and all its nodes have the property. -/
structure Holds (P : ℕ → TreeNode → Prop) (root : TreeRoot) : Prop where
  rooted : 0 < root.nodes.length
  each : ∀ n node, root.nodes[n]? = some node → P n node

variable {P : ℕ → TreeNode → Prop}

theorem Holds.modify {root : TreeRoot} (holds : Holds P root) {n : ℕ} {f : TreeNode → TreeNode}
    (keeps : ∀ node, root.nodes[n]? = some node → P n (f node)) : Holds P (root.modify n f) where
  rooted := by
    rw [TreeRoot.modify_length]
    exact holds.rooted
  each m node here := by
    rw [TreeRoot.modify_getElem?] at here
    obtain ⟨old, there, rfl⟩ := Option.map_eq_some_iff.mp here
    split
    case isTrue same =>
      subst same
      exact keeps old there
    case isFalse => exact holds.each m old there

theorem Structural.searchAndInsert (structural : Structural P) {root : TreeRoot} (holds : Holds P root)
    (fname : Name) (type : NodeType) (parent : ℕ) :
    Holds P (searchAndInsertTreeNode root fname type parent).1 := by
  rw [searchAndInsertTreeNode]
  cases root.findChild parent fname with
  | some found =>
      exact holds.modify fun node here => structural.seen found node (holds.each found node here)
  | none =>
      refine ⟨?_, fun m node here => ?_⟩
      · rw [TreeRoot.append_length]
        exact Nat.succ_pos _
      · rcases added_getElem? here with ⟨rfl, rfl⟩ | ⟨old, there, rfl⟩
        · exact structural.new _ fname type parent holds.rooted
        · have before := holds.each m old there
          split
          · exact structural.child m old _ before
          · exact before

theorem Structural.makeTreePath (structural : Structural P) {root : TreeRoot} (holds : Holds P root)
    (len : ℕ) (path : Name) : Holds P (makeTreePath root len path).1 := by
  induction len generalizing path with
  | zero => cases path <;> exact holds
  | succ len ih =>
      cases path with
      | nil => exact holds
      | cons c path =>
          rw [Tree.makeTreePath]
          cases lastPathSeparator (c :: path) with
          | none => exact structural.searchAndInsert holds _ _ _
          | some parts => exact structural.searchAndInsert (ih parts.1) _ _ _
          · exact fun h => absurd h (List.cons_ne_nil _ _)

theorem Structural.insertTreeNode (structural : Structural P) {root : TreeRoot} (holds : Holds P root)
    (path fname : Name) : Holds P (insertTreeNode root path fname).1 := by
  rcases insertTreeNode_cases root path fname with ⟨path, fname, eq⟩ | ⟨path, eq⟩
  · rw [eq]
    refine structural.searchAndInsert ?_ _ _ _
    rw [parentOf]
    split
    · exact holds
    · have cached : Holds P { root with cachedPath := some path } := ⟨holds.rooted, holds.each⟩
      have made := structural.makeTreePath cached path.length path
      exact ⟨made.rooted, made.each⟩
  · rw [eq]
    exact structural.searchAndInsert holds _ _ _

end Bacula.Tree
