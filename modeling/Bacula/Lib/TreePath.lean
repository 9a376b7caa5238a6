import Bacula.Lib.Tree

/-! Which node an entry gets: the names on the way from the root to a node are its key, and an
insertion returns the node whose key the path and the name spell. -/
namespace Bacula.Tree

/-- The tree without broken links: children and parents belong together, and the names of the
children of a node are different. -/
structure Shaped (root : TreeRoot) : Prop where
  rooted : 0 < root.nodes.length
  parents : ∀ {p c : ℕ}, c ∈ (root.node p).child →
    (root.node c).parent = some p ∧ p < c ∧ c < root.nodes.length
  unique : ∀ {p c c' : ℕ}, c ∈ (root.node p).child → c' ∈ (root.node p).child →
    (root.node c).fname = (root.node c').fname → c = c'

inductive HasKey (root : TreeRoot) : ℕ → List Name → Prop where
  | root : HasKey root 0 []
  | child {p c : ℕ} {key : List Name} (parent : HasKey root p key) (child : c ∈ (root.node p).child) :
      HasKey root c (key ++ [(root.node c).fname])

theorem newTree_shaped : Shaped newTree where
  rooted := by decide
  parents {p c} child := by
    cases p <;> exact absurd child List.not_mem_nil
  unique {p c c'} child := by
    cases p <;> exact absurd child List.not_mem_nil

namespace HasKey

variable {root : TreeRoot} {n m : ℕ} {k k' : List Name}

theorem isNode (shaped : Shaped root) (has : HasKey root n k) : n < root.nodes.length := by
  cases has with
  | root => exact shaped.rooted
  | child _ child => exact (shaped.parents child).2.2

/-- A node has one key. -/
theorem unique_key (shaped : Shaped root) (has : HasKey root n k) (has' : HasKey root n k') :
    k = k' := by
  induction has generalizing k' with
  | root =>
      cases has' with
      | root => rfl
      | child _ child => exact absurd (shaped.parents child).2.1 (Nat.not_lt_zero _)
  | @child p c key _ child ih =>
      cases has' with
      | root => exact absurd (shaped.parents child).2.1 (Nat.not_lt_zero _)
      | child parent' child' =>
          have same := (shaped.parents child).1.symm.trans (shaped.parents child').1
          rw [ih (Option.some_inj.mp same ▸ parent')]

/-- A key belongs to one node. -/
theorem unique_node (shaped : Shaped root) (has : HasKey root n k) (has' : HasKey root m k) :
    n = m := by
  induction has generalizing m with
  | root =>
      generalize empty : ([] : List Name) = key at has'
      cases has' with
      | root => rfl
      | child => exact absurd empty (by simp)
  | @child p c key parent child ih =>
      generalize same : key ++ [(root.node c).fname] = key' at has'
      cases has' with
      | root => exact absurd same (by simp)
      | @child p' _ _ parent' child' =>
          obtain ⟨keys, names⟩ := List.append_inj' same rfl
          have parents := ih (keys ▸ parent')
          exact shaped.unique child (parents ▸ child') (List.cons.inj names).1

/-- The names on the way to a node have nodes. -/
theorem above (has : HasKey root n k) (start : k' <+: k) : ∃ m, HasKey root m k' := by
  induction has with
  | root =>
      obtain rfl := List.prefix_nil.mp start
      exact ⟨0, .root⟩
  | @child p c key parent child ih =>
      rcases List.prefix_concat_iff.mp start with whole | shorter
      · exact ⟨c, whole ▸ .child parent child⟩
      · exact ih shorter

theorem positive (shaped : Shaped root) (has : HasKey root n k) (some : k ≠ []) : 0 < n :=
  Nat.pos_of_ne_zero fun zero => some ((zero ▸ has).unique_key shaped .root)

end HasKey

/-- A later tree: nodes keep their names and their children. -/
structure Extends (root root' : TreeRoot) : Prop where
  fname : ∀ {n : ℕ}, n < root.nodes.length → (root'.node n).fname = (root.node n).fname
  child : ∀ {n c : ℕ}, c ∈ (root.node n).child → c ∈ (root'.node n).child
  grows : root.nodes.length ≤ root'.nodes.length

theorem Extends.refl (root : TreeRoot) : Extends root root := ⟨fun _ => rfl, id, le_refl _⟩

theorem Extends.trans {a b c : TreeRoot} (first : Extends a b) (second : Extends b c) :
    Extends a c where
  fname inside := (second.fname (inside.trans_le first.grows)).trans (first.fname inside)
  child inside := second.child (first.child inside)
  grows := first.grows.trans second.grows

theorem HasKey.mono {root root' : TreeRoot} (shaped : Shaped root) (later : Extends root root') {n : ℕ}
    {k : List Name} (has : HasKey root n k) : HasKey root' n k := by
  induction has with
  | root => exact .root
  | child _ child ih =>
      rw [← later.fname (shaped.parents child).2.2]
      exact .child ih (later.child child)

/-- An update that leaves name, parent and children. -/
theorem Shaped.modify {root : TreeRoot} (shaped : Shaped root) {n : ℕ} {f : TreeNode → TreeNode}
    (fname : ∀ node, (f node).fname = node.fname) (parent : ∀ node, (f node).parent = node.parent)
    (child : ∀ node, (f node).child = node.child) :
    Shaped (root.modify n f) ∧ Extends root (root.modify n f) := by
  have names (m : ℕ) := root.modify_field n TreeNode.fname fname m
  have parents (m : ℕ) := root.modify_field n TreeNode.parent parent m
  have children (m : ℕ) := root.modify_field n TreeNode.child child m
  refine ⟨⟨?_, ?_, ?_⟩, ⟨fun _ => names _, ?_, ?_⟩⟩
  · rw [TreeRoot.modify_length]
    exact shaped.rooted
  · intro p c inside
    rw [children] at inside
    rw [parents, TreeRoot.modify_length]
    exact shaped.parents inside
  · intro p c c' inside inside' same
    rw [children] at inside inside'
    rw [names, names] at same
    exact shaped.unique inside inside' same
  · intro m c inside
    rwa [children]
  · rw [TreeRoot.modify_length]

/-- The nodes after an addition. -/
theorem added_node {root : TreeRoot} {parent : ℕ} (isNode : parent < root.nodes.length) (fname : Name)
    (new : TreeNode) (m : ℕ) :
    ((root.link parent fname root.nodes.length).append new).node m =
      if m = root.nodes.length then new
      else if m = parent then
        { root.node parent with
          child := root.insertChild (root.node parent).child fname root.nodes.length }
      else root.node m := by
  rw [TreeRoot.node, TreeRoot.append]
  rcases Nat.lt_trichotomy m root.nodes.length with old | rfl | none
  · rw [List.getD_append _ _ _ _ (by rwa [TreeRoot.link_length]), if_neg (by omega),
      List.getD_eq_getElem?_getD, TreeRoot.link, TreeRoot.modify_getElem?, List.getElem?_eq_getElem old,
      Option.map_some, Option.getD_some]
    split
    case isTrue same =>
      subst same
      rw [TreeRoot.node, List.getD_eq_getElem _ _ old]
    case isFalse => rw [TreeRoot.node, List.getD_eq_getElem _ _ old]
  · rw [List.getD_append_right _ _ _ _ (by rw [TreeRoot.link_length]), TreeRoot.link_length,
      Nat.sub_self, if_pos rfl]
    rfl
  · rw [List.getD_eq_default _ _
      (by rw [List.length_append, TreeRoot.link_length, List.length_singleton]; omega),
      if_neg (by omega), if_neg (by omega), TreeRoot.node, List.getD_eq_default _ _ (by omega)]

theorem mem_insertChild_iff {root : TreeRoot} {children : List ℕ} {name : Name} {n c : ℕ} :
    c ∈ root.insertChild children name n ↔ c = n ∨ c ∈ children := by
  refine ⟨mem_insertChild, fun inside => ?_⟩
  rw [TreeRoot.insertChild, List.mem_append, List.mem_cons]
  rcases inside with same | old
  · exact .inr (.inl same)
  · rw [← List.takeWhile_append_dropWhile (p := fun c => nodeBefore (root.node c).fname name)
      (l := children), List.mem_append] at old
    exact old.imp_right .inr

theorem findChild_some {root : TreeRoot} {parent c : ℕ} {fname : Name}
    (found : root.findChild parent fname = some c) :
    c ∈ (root.node parent).child ∧ (root.node c).fname = fname :=
  ⟨List.mem_of_find?_eq_some found, by simpa using List.find?_some found⟩

theorem findChild_none {root : TreeRoot} {parent : ℕ} {fname : Name}
    (none : root.findChild parent fname = none) {c : ℕ} (child : c ∈ (root.node parent).child) :
    (root.node c).fname ≠ fname := by
  simpa using List.find?_eq_none.mp none c child

/-- A new child of a node that has no child of that name. -/
theorem added_shaped {root : TreeRoot} (shaped : Shaped root) {parent : ℕ}
    (isNode : parent < root.nodes.length) {fname : Name} (type : NodeType)
    (new : root.findChild parent fname = none) :
    Shaped ((root.link parent fname root.nodes.length).append (newTreeNode fname type parent)) ∧
      Extends root
        ((root.link parent fname root.nodes.length).append (newTreeNode fname type parent)) := by
  have node := added_node isNode fname (newTreeNode fname type parent)
  generalize eq :
      (root.link parent fname root.nodes.length).append (newTreeNode fname type parent) = root' at node
  have length : root'.nodes.length = root.nodes.length + 1 := by
    rw [← eq, TreeRoot.append_length, TreeRoot.link_length]
  have names {m : ℕ} (old : m < root.nodes.length) : (root'.node m).fname = (root.node m).fname := by
    rw [node, if_neg old.ne]
    split
    case isTrue same => rw [same]
    case isFalse => rfl
  have parents {m : ℕ} (old : m < root.nodes.length) : (root'.node m).parent =
      (root.node m).parent := by
    rw [node, if_neg old.ne]
    split
    case isTrue same => rw [same]
    case isFalse => rfl
  have children {m c : ℕ} : c ∈ (root'.node m).child ↔
      c ∈ (root.node m).child ∨ (m = parent ∧ c = root.nodes.length) := by
    rw [node]
    split
    case isTrue last =>
      have none : (root.node m).child = [] := by
        rw [last, TreeRoot.node, List.getD_eq_default _ _ (le_refl _)]
        rfl
      rw [none]
      simp only [newTreeNode, List.not_mem_nil, false_or, false_iff, not_and]
      omega
    case isFalse =>
      split
      case isTrue same =>
        subst same
        rw [mem_insertChild_iff]
        simp only [true_and]
        exact or_comm
      case isFalse other => simp [other]
  have last : root'.node root.nodes.length = newTreeNode fname type parent := by
    rw [node, if_pos rfl]
  refine ⟨⟨by omega, ?_, ?_⟩,
    ⟨fun old => names old, fun inside => children.mpr (.inl inside), by omega⟩⟩
  · intro p c child
    rcases children.mp child with old | ⟨rfl, rfl⟩
    · obtain ⟨back, below, inside⟩ := shaped.parents old
      exact ⟨(parents inside).trans back, below, by omega⟩
    · rw [last]
      exact ⟨rfl, isNode, by omega⟩
  · intro p c c' child child' same
    have fresh {c : ℕ} (old : c ∈ (root.node parent).child) :
        (root'.node c).fname ≠ (root'.node root.nodes.length).fname := by
      rw [names (shaped.parents old).2.2, last]
      exact findChild_none new old
    rcases children.mp child with old | ⟨rfl, rfl⟩ <;> rcases children.mp child' with old' | ⟨eqp, rfl⟩
    · rw [names (shaped.parents old).2.2, names (shaped.parents old').2.2] at same
      exact shaped.unique old old' same
    · exact absurd same (fresh (eqp ▸ old))
    · exact absurd same.symm (fresh old')
    · rfl

/-- What an insertion gives: a later tree with a node for the key. -/
structure Placed (root : TreeRoot) (result : TreeRoot × ℕ) (key : List Name) : Prop where
  shaped : Shaped result.1
  later : Extends root result.1
  hasKey : HasKey result.1 result.2 key

theorem searchAndInsertTreeNode_placed {root : TreeRoot} (shaped : Shaped root) {parent : ℕ}
    {key : List Name} (has : HasKey root parent key) (fname : Name) (type : NodeType) :
    Placed root (searchAndInsertTreeNode root fname type parent) (key ++ [fname]) := by
  rw [searchAndInsertTreeNode]
  cases found : root.findChild parent fname with
  | some c =>
      obtain ⟨child, name⟩ := findChild_some found
      obtain ⟨shaped', later⟩ :=
        shaped.modify (n := c) (f := fun node => { node with inserted := false })
        (fun _ => rfl) (fun _ => rfl) fun _ => rfl
      exact ⟨shaped', later, HasKey.mono shaped later (name ▸ .child has child)⟩
  | none =>
      have isNode := has.isNode shaped
      obtain ⟨shaped', later⟩ := added_shaped shaped isNode type found
      have node := added_node isNode fname (newTreeNode fname type parent)
      have child : root.nodes.length ∈ (((root.link parent fname root.nodes.length).append
          (newTreeNode fname type parent)).node parent).child := by
        rw [node, if_neg isNode.ne, if_pos rfl]
        exact mem_insertChild_iff.mpr (.inl rfl)
      have name : (((root.link parent fname root.nodes.length).append
          (newTreeNode fname type parent)).node root.nodes.length).fname = fname := by
        rw [node, if_pos rfl]
        rfl
      have new := HasKey.child (has.mono shaped later) child
      rw [name] at new
      exact ⟨shaped', later, new⟩

/-- The directories of a path, as `make_tree_path` splits it. -/
def pathDirs : (len : ℕ) → Name → List Name
  | _, [] => []
  | 0, _ :: _ => []
  | len+1, path =>
      match lastPathSeparator path with
      | some (before, fname) => pathDirs len before ++ [fname]
      | none => [path]

theorem makeTreePath_placed {root : TreeRoot} (shaped : Shaped root) (len : ℕ) (path : Name) :
    Placed root (makeTreePath root len path) (pathDirs len path) := by
  have stays : Placed root (root, 0) [] := ⟨shaped, Extends.refl root, .root⟩
  induction len generalizing path with
  | zero => cases path <;> exact stays
  | succ len ih =>
      cases path with
      | nil => exact stays
      | cons c path =>
          rw [makeTreePath, pathDirs]
          cases lastPathSeparator (c :: path) with
          | none => exact searchAndInsertTreeNode_placed shaped .root (c :: path) .dirNls
          | some parts =>
              have above := ih parts.1
              have here := searchAndInsertTreeNode_placed above.shaped above.hasKey parts.2 .newDir
              exact ⟨here.shaped, above.later.trans here.later, here.hasKey⟩
          · exact fun h => absurd h (List.cons_ne_nil _ _)
          · exact fun h => absurd h (List.cons_ne_nil _ _)

/-- The cached parent is the node of the cached path. -/
def Cached (root : TreeRoot) : Prop :=
  ∀ path, root.cachedPath = some path → HasKey root root.cachedParent (pathDirs path.length path)

theorem searchAndInsertTreeNode_cache (root : TreeRoot) (fname : Name) (type : NodeType) (parent : ℕ) :
    (searchAndInsertTreeNode root fname type parent).1.cachedPath = root.cachedPath ∧
      (searchAndInsertTreeNode root fname type parent).1.cachedParent = root.cachedParent := by
  rw [searchAndInsertTreeNode]
  split <;> exact ⟨rfl, rfl⟩

theorem Cached.later {root root' : TreeRoot} (cached : Cached root) (shaped : Shaped root)
    (later : Extends root root') (path : root'.cachedPath = root.cachedPath)
    (parent : root'.cachedParent = root.cachedParent) : Cached root' := by
  intro p eq
  rw [parent]
  exact (cached p (path.symm.trans eq)).mono shaped later

theorem makeTreePath_cachedPath (root : TreeRoot) (len : ℕ) (path : Name) :
    (makeTreePath root len path).1.cachedPath = root.cachedPath := by
  induction len generalizing path with
  | zero => cases path <;> rfl
  | succ len ih =>
      cases path with
      | nil => rfl
      | cons c path =>
          rw [makeTreePath]
          cases lastPathSeparator (c :: path) with
          | none => exact (searchAndInsertTreeNode_cache _ _ _ _).1
          | some parts => exact ((searchAndInsertTreeNode_cache _ _ _ _).1).trans (ih parts.1)
          · exact fun h => absurd h (List.cons_ne_nil _ _)

theorem parentOf_placed {root : TreeRoot} (shaped : Shaped root) (cached : Cached root) (path : Name) :
    Placed root (parentOf root path) (pathDirs path.length path) ∧ Cached (parentOf root path).1 := by
  rw [parentOf]
  split
  case isTrue hit => exact ⟨⟨shaped, Extends.refl root, cached path hit⟩, cached⟩
  case isFalse =>
    have same : Shaped { root with cachedPath := some path } :=
      ⟨shaped.rooted, shaped.parents, shaped.unique⟩
    have made := makeTreePath_placed same path.length path
    have pathSet := makeTreePath_cachedPath { root with cachedPath := some path } path.length path
    generalize makeTreePath { root with cachedPath := some path } path.length path =
      result at made pathSet
    obtain ⟨root', parent⟩ := result
    have later : Extends root' { root' with cachedParent := parent } := ⟨fun _ => rfl, id, le_refl _⟩
    have renamed : ∀ {n : ℕ} {k : List Name}, HasKey root' n k →
        HasKey { root' with cachedParent := parent } n k := fun has => has.mono made.shaped later
    refine ⟨⟨⟨made.shaped.rooted, made.shaped.parents, made.shaped.unique⟩,
      ⟨made.later.fname, made.later.child, made.later.grows⟩, renamed made.hasKey⟩, fun p eq => ?_⟩
    obtain rfl := Option.some_inj.mp (pathSet.symm.trans eq)
    exact renamed made.hasKey

/-- The names that an entry's path and filename are split into. -/
def entryKey (path fname : Name) : List Name :=
  let path := stripTrailing path
  let (path, fname) :=
    if fname = [] then (lastPathSeparator path).getD (path, []) else (path, fname)
  if fname ≠ [] then pathDirs path.length path ++ [fname] else [path]

/-- An entry is placed at its key. -/
theorem insertTreeNode_placed {root : TreeRoot} (shaped : Shaped root) (cached : Cached root)
    (path fname : Name) :
    Placed root (insertTreeNode root path fname) (entryKey path fname) ∧
      Cached (insertTreeNode root path fname).1 := by
  rw [insertTreeNode, entryKey]
  generalize (if fname = [] then (lastPathSeparator (stripTrailing path)).getD (stripTrailing path, [])
    else (stripTrailing path, fname)) = parts
  obtain ⟨path, fname⟩ := parts
  dsimp only
  split
  · obtain ⟨above, cached'⟩ := parentOf_placed shaped cached path
    have here := searchAndInsertTreeNode_placed above.shaped above.hasKey fname .none
    have cache :=
      searchAndInsertTreeNode_cache (parentOf root path).1 fname .none (parentOf root path).2
    exact ⟨⟨here.shaped, above.later.trans here.later, here.hasKey⟩,
      cached'.later above.shaped here.later cache.1 cache.2⟩
  · have here := searchAndInsertTreeNode_placed shaped .root path .none
    have cache := searchAndInsertTreeNode_cache root path .none 0
    exact ⟨here, cached.later shaped here.later cache.1 cache.2⟩

end Bacula.Tree
