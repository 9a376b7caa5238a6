import Bacula.Lib.TreePath

/-! The nodes that an insertion makes: one for each name on the way that had none, and nothing is
written into the nodes that were there. -/
namespace Bacula.Tree

/-- What a caller has put into a node, and its name and place. -/
def TreeNode.data (node : TreeNode) : TreeNode := { node with inserted := false, child := [] }

/-- The type of a directory that is made on the way. The first one of a relative path is a drive. -/
def wayType (path : Name) (key : List Name) : NodeType :=
  if key.length = 1 ∧ path.head? ≠ some sep then .dirNls else .newDir

/-- An insertion at a key, with the types of the nodes that are new. -/
structure Located (root : TreeRoot) (result : TreeRoot × ℕ) (key : List Name)
    (type : List Name → NodeType) : Prop
    extends Placed root result key where
  old : ∀ m, m < root.nodes.length → (result.1.node m).data = (root.node m).data
  new : ∀ m, root.nodes.length ≤ m → m < result.1.nodes.length → ∃ k fname parent, k ≠ [] ∧ k <+: key ∧
    HasKey result.1 m k ∧ (result.1.node m).data = (newTreeNode fname (type k) parent).data
  links : result.1.hardlinks = root.hardlinks

variable {root : TreeRoot}

theorem Located.stays (shaped : Shaped root) {n : ℕ} {key : List Name} (has : HasKey root n key)
    (type : List Name → NodeType) : Located root (root, n) key type where
  shaped := shaped
  later := Extends.refl root
  hasKey := has
  old _ _ := rfl
  new _ above below := absurd below (Nat.not_lt.mpr above)
  links := rfl

theorem Located.trans {first second : TreeRoot × ℕ} {key key' : List Name} {type : List Name → NodeType}
    (above : Located root first key type) (below : Located first.1 second key' type)
    (start : key <+: key') :
    Located root second key' type where
  shaped := below.shaped
  later := above.later.trans below.later
  hasKey := below.hasKey
  old m inside := (below.old m (inside.trans_le above.later.grows)).trans (above.old m inside)
  new m outside inside := by
    rcases Nat.lt_or_ge m first.1.nodes.length with made | later
    · obtain ⟨k, fname, parent, some, k_start, has, data⟩ := above.new m outside made
      exact ⟨k, fname, parent, some, k_start.trans start, has.mono above.shaped below.later,
        (below.old m made).trans data⟩
    · exact below.new m later inside
  links := below.links.trans above.links

theorem Located.congr {result : TreeRoot × ℕ} {key : List Name} {type type' : List Name → NodeType}
    (located : Located root result key type) (same : ∀ k, k ≠ [] → k <+: key → type k = type' k) :
    Located root result key type' where
  shaped := located.shaped
  later := located.later
  hasKey := located.hasKey
  old := located.old
  new m outside inside := by
    obtain ⟨k, fname, parent, some, start, has, data⟩ := located.new m outside inside
    exact ⟨k, fname, parent, some, start, has, same k some start ▸ data⟩
  links := located.links

/-- A child that was there is marked as seen, and a new one is not. -/
theorem searchAndInsertTreeNode_located (shaped : Shaped root) {parent : ℕ} {key : List Name}
    (has : HasKey root parent key) (fname : Name) {type : NodeType} (types : List Name → NodeType)
    (own : types (key ++ [fname]) = type) :
    Located root (searchAndInsertTreeNode root fname type parent) (key ++ [fname]) types ∧
      (((searchAndInsertTreeNode root fname type parent).1.node
          (searchAndInsertTreeNode root fname type parent).2).inserted = true ↔
        root.nodes.length ≤ (searchAndInsertTreeNode root fname type parent).2) := by
  have placed := searchAndInsertTreeNode_placed shaped has fname type
  rw [searchAndInsertTreeNode] at placed ⊢
  cases found : root.findChild parent fname with
  | some c =>
      rw [found] at placed
      have inside := (shaped.parents (findChild_some found).1).2.2
      have data (m : ℕ) : ((root.seen c).node m).data = (root.node m).data :=
        root.modify_field c (f := fun node => { node with inserted := false }) TreeNode.data
          (fun _ => rfl) m
      refine ⟨⟨placed, fun m _ => data m, fun m outside below => ?_, rfl⟩,
        iff_of_false ?_ (Nat.not_le.mpr inside)⟩
      · rw [TreeRoot.seen_length] at below
        exact absurd below (Nat.not_lt.mpr outside)
      · have seen : ((root.seen c).node c).inserted = false := by
          rw [TreeRoot.seen, TreeRoot.node, List.getD_eq_getElem?_getD, TreeRoot.modify_getElem?,
            List.getElem?_eq_getElem inside]
          simp
        dsimp only
        rw [seen]
        exact Bool.false_ne_true
  | none =>
      rw [found] at placed
      have node := added_node (has.isNode shaped) fname (newTreeNode fname type parent)
      refine ⟨⟨placed, fun m inside => ?_, fun m outside below => ?_, rfl⟩, iff_of_true ?_ le_rfl⟩
      · dsimp only
        rw [node, if_neg inside.ne]
        split
        case isTrue same => rw [same]; rfl
        case isFalse => rfl
      · rw [TreeRoot.append_length, TreeRoot.link_length] at below
        obtain rfl : m = root.nodes.length := by omega
        refine ⟨key ++ [fname], fname, some parent, List.concat_ne_nil _ _, List.prefix_refl _,
          placed.hasKey, ?_⟩
        dsimp only
        rw [node, if_pos rfl, own]
      · dsimp only
        rw [node, if_pos rfl]
        rfl

/-- What stands before the last separator of a path. -/
theorem lastPathSeparator_head {path before fname : Name}
    (split : lastPathSeparator path = some (before, fname)) :
    before.length < path.length ∧ (before ≠ [] → before.head? = path.head?) ∧
      (before = [] → path.head? = some sep) := by
  induction path generalizing before with
  | nil => cases split
  | cons c path ih =>
      rw [lastPathSeparator] at split
      cases rest : lastPathSeparator path with
      | some parts =>
          rw [rest] at split
          cases split
          have shorter := (ih rest).1
          exact ⟨Nat.succ_lt_succ shorter, fun _ => rfl, fun none => absurd none (List.cons_ne_nil _ _)⟩
      | none =>
          rw [rest] at split
          dsimp only at split
          split at split
          case isTrue same =>
            cases split
            exact ⟨Nat.succ_pos _, fun none => absurd rfl none, fun _ => congrArg some same⟩
          case isFalse => cases split

theorem lastPathSeparator_none_head {path : Name} (split : lastPathSeparator path = none) :
    sep ∉ path := by
  induction path with
  | nil => exact List.not_mem_nil
  | cons c path ih =>
      rw [lastPathSeparator] at split
      cases rest : lastPathSeparator path with
      | some parts =>
          rw [rest] at split
          cases split
      | none =>
          rw [rest] at split
          dsimp only at split
          split at split
          case isTrue => cases split
          case isFalse other =>
            rw [List.mem_cons, not_or]
            exact ⟨Ne.symm other, ih rest⟩

theorem pathDirs_ne_nil {len : ℕ} {path : Name} (nonempty : path ≠ []) (enough : path.length ≤ len) :
    pathDirs len path ≠ [] := by
  cases path with
  | nil => exact absurd rfl nonempty
  | cons c path =>
      cases len with
      | zero => exact absurd enough (Nat.not_succ_le_zero _)
      | succ len =>
          rw [pathDirs]
          · split
            · exact List.concat_ne_nil _ _
            · exact List.cons_ne_nil _ _
          · exact fun h => absurd h (List.cons_ne_nil _ _)

theorem makeTreePath_located (shaped : Shaped root) {len : ℕ} {path : Name}
    (enough : path.length ≤ len) :
    Located root (makeTreePath root len path) (pathDirs len path) (wayType path) := by
  induction len generalizing path with
  | zero =>
      obtain rfl := List.length_eq_zero_iff.mp (Nat.le_zero.mp enough)
      exact Located.stays shaped .root _
  | succ len ih =>
      cases path with
      | nil => exact Located.stays shaped .root _
      | cons c path =>
          rw [makeTreePath, pathDirs]
          cases split : lastPathSeparator (c :: path) with
          | none =>
              refine (searchAndInsertTreeNode_located shaped .root _ _
                (if_pos ⟨rfl, fun absolute => ?_⟩)).1
              refine lastPathSeparator_none_head split ?_
              rw [List.head?_cons, Option.some_inj] at absolute
              rw [absolute]
              exact List.mem_cons_self
          | some parts =>
              obtain ⟨shorter, head, absolute⟩ := lastPathSeparator_head split
              have room : parts.1.length ≤ len := Nat.le_of_lt_succ (shorter.trans_le enough)
              have above := ih room
              have own : wayType (c :: path) (pathDirs len parts.1 ++ [parts.2]) = .newDir := by
                refine if_neg fun drive => ?_
                have none : parts.1 = [] := by
                  by_contra nonempty
                  have some := List.length_pos_iff.mpr (pathDirs_ne_nil nonempty room)
                  have single := drive.1
                  rw [List.length_append, List.length_singleton] at single
                  omega
                exact drive.2 (absolute none)
              have here := (searchAndInsertTreeNode_located above.shaped above.hasKey _ _ own).1
              refine (above.congr ?_).trans here (List.prefix_append _ _)
              · intro k some start
                have nonempty : parts.1 ≠ [] := by
                  intro none
                  rw [none] at start
                  cases len <;> exact some (List.prefix_nil.mp start)
                rw [wayType, wayType, head nonempty]
          · exact fun h => absurd h (List.cons_ne_nil _ _)
          · exact fun h => absurd h (List.cons_ne_nil _ _)

theorem parentOf_located (shaped : Shaped root) (cached : Cached root) (path : Name) :
    Located root (parentOf root path) (pathDirs path.length path) (wayType path) := by
  have placed := (parentOf_placed shaped cached path).1
  rw [parentOf] at placed ⊢
  split
  case isTrue hit => exact Located.stays shaped (cached path hit) _
  case isFalse miss =>
    rw [if_neg miss] at placed
    have same : Shaped { root with cachedPath := some path } :=
      ⟨shaped.rooted, shaped.parents, shaped.unique⟩
    have made := makeTreePath_located same (le_refl path.length)
    generalize makeTreePath { root with cachedPath := some path } path.length path =
      result at placed made
    obtain ⟨root', parent⟩ := result
    have later : Extends root' { root' with cachedParent := parent } := ⟨fun _ => rfl, id, le_refl _⟩
    refine ⟨placed, made.old, fun m outside inside => ?_, made.links⟩
    obtain ⟨k, fname, above, some, start, has, data⟩ := made.new m outside inside
    exact ⟨k, fname, above, some, start, has.mono made.shaped later, data⟩

/-- The types of the nodes that an entry makes: its own gets one from the caller. -/
def entryType (path fname : Name) (key : List Name) : NodeType :=
  if key = entryKey path fname then .none else wayType path key

/-- The path that the directories of an entry are made from. -/
theorem entry_path (path fname : Name) :
    ∃ path' fname',
      entryKey path fname = (if fname' ≠ [] then pathDirs path'.length path' ++ [fname'] else [path']) ∧
      (∀ root, insertTreeNode root path fname = if fname' ≠ [] then
        searchAndInsertTreeNode (parentOf root path').1 fname' .none (parentOf root path').2
        else searchAndInsertTreeNode root path' .none 0) ∧
      (path' ≠ [] → path'.head? = path.head?) := by
  have strip : stripTrailing path ≠ [] → (stripTrailing path).head? = path.head? := by
    unfold stripTrailing
    split
    · intro nonempty
      rw [List.head?_dropLast, if_pos]
      have some := List.length_pos_iff.mpr nonempty
      rw [List.length_dropLast] at some
      omega
    · exact fun _ => rfl
  by_cases dir : fname = []
  · cases split : lastPathSeparator (stripTrailing path) with
    | none => exact ⟨stripTrailing path, [], by rw [entryKey, if_pos dir, split]; rfl,
        fun root => by rw [insertTreeNode, if_pos dir, split]; rfl, strip⟩
    | some parts =>
        refine ⟨parts.1, parts.2, by rw [entryKey, if_pos dir, split]; rfl,
          fun root => by rw [insertTreeNode, if_pos dir, split]; rfl, fun nonempty => ?_⟩
        obtain ⟨shorter, head, -⟩ := lastPathSeparator_head split
        rw [head nonempty]
        exact strip (List.length_pos_iff.mp (Nat.zero_lt_of_lt shorter))
  · exact ⟨stripTrailing path,
      fname, by rw [entryKey, if_neg dir], fun root => by rw [insertTreeNode, if_neg dir], strip⟩

/-- An entry is placed at its key, and its node is new if the key had none. -/
theorem insertTreeNode_located (shaped : Shaped root) (cached : Cached root) (path fname : Name) :
    Located root (insertTreeNode root path fname) (entryKey path fname) (entryType path fname) ∧
      (((insertTreeNode root path fname).1.node (insertTreeNode root path fname).2).inserted = true ↔
        root.nodes.length ≤ (insertTreeNode root path fname).2) := by
  obtain ⟨path', fname', key, eq, head⟩ := entry_path path fname
  rw [eq]
  unfold entryType
  rw [key]
  split
  · have above := parentOf_located shaped cached path'
    obtain ⟨here, inserted⟩ := searchAndInsertTreeNode_located above.shaped above.hasKey fname'
      (fun k => if k = pathDirs path'.length path' ++ [fname'] then .none else wayType path k)
        (if_pos rfl)
    have types : ∀ k, k ≠ [] → k <+: pathDirs path'.length path' → wayType path' k =
        if k = pathDirs path'.length path' ++ [fname'] then .none else wayType path k := by
      intro k some start
      have shorter := start.length_le
      have other : k ≠ pathDirs path'.length path' ++ [fname'] := by
        rintro rfl
        rw [List.length_append, List.length_singleton] at shorter
        omega
      have nonempty : path' ≠ [] := by
        rintro rfl
        exact some (List.prefix_nil.mp start)
      rw [if_neg other, wayType, wayType, head nonempty]
    refine ⟨(above.congr types).trans here (List.prefix_append _ _), inserted.trans ⟨?_, fun new => ?_⟩⟩
    · exact fun new => above.later.grows.trans new
    · -- a node that was made on the way has a shorter key
      by_contra old
      obtain ⟨k, _, _, _, start, has, _⟩ := above.new _ new (Nat.not_le.mp old)
      have same := (has.mono above.shaped here.later).unique_key here.shaped here.hasKey
      have shorter := start.length_le
      rw [same, List.length_append, List.length_singleton] at shorter
      omega
  · exact searchAndInsertTreeNode_located shaped .root _ _ (if_pos rfl)

end Bacula.Tree
