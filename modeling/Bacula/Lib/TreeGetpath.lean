import Bacula.Lib.TreeNames

/-! The path that a node of the restore tree spells: what each name on the way adds to it, and when
it is the path that its key was split from. -/
namespace Bacula.Tree

/-- The name of a node behind the path of its parent. A drive has none before it. -/
def bareName (node : TreeNode) (buf : Name) : Name :=
  (if node.type = .dirNls && buf = [sep] then [] else buf) ++ node.fname

/-- What a node adds to the path of its parent. -/
def addName (node : TreeNode) (buf : Name) : Name :=
  if (node.type ≠ .file && bareName node buf ≠ [sep]) || (node.softLink && node.child.length > 0) then
    bareName node buf ++ [sep]
  else bareName node buf

/-- The path of a node, in a buffer that has no end. -/
def fullPath (root : TreeRoot) : (steps : ℕ) → ℕ → Name
  | 0, _ => []
  | steps+1, n =>
      let node := root.node n
      addName node (match node.parent with
        | some parent => fullPath root steps parent
        | none => [])

/-- The top of the tree is a directory without a name. -/
def Topped (root : TreeRoot) : Prop := (root.node 0).data = (newTreeNode [] .root none).data

/-- A node that is a directory on the way of others: it is no file, or a link to a directory. -/
def Slashed (node : TreeNode) : Prop := node.type ≠ .file ∨ node.softLink = true ∧ node.child ≠ []

section Names

variable {node : TreeNode} {buf : Name}

theorem addName_slash (node : TreeNode) (buf : Name) :
    (node.type ≠ .file ∧ bareName node buf ≠ [sep] ∨ node.softLink = true ∧ node.child ≠ []) ∧
        addName node buf = bareName node buf ++ [sep] ∨
      (node.type = .file ∨ bareName node buf = [sep]) ∧ ¬ (node.softLink = true ∧ node.child ≠ []) ∧
        addName node buf = bareName node buf := by
  have children : decide (node.child.length > 0) = true ↔ node.child ≠ [] := by
    rw [decide_eq_true_eq]
    exact List.length_pos_iff
  unfold addName
  split
  case isTrue slash =>
    rw [Bool.or_eq_true, Bool.and_eq_true, Bool.and_eq_true, children, decide_eq_true_eq,
      decide_eq_true_eq] at slash
    exact .inl ⟨slash, rfl⟩
  case isFalse none =>
    rw [Bool.or_eq_true, Bool.and_eq_true, Bool.and_eq_true, children, decide_eq_true_eq,
      decide_eq_true_eq, not_or, not_and_or, not_not, not_not] at none
    exact .inr ⟨none.1, none.2, rfl⟩

/-- The ways a node adds its name: with or without the path of its parent, with or without a slash. -/
theorem addName_cases (node : TreeNode) (buf : Name) : ∃ start,
    (node.type = .dirNls ∧ buf = [sep] ∧ start = [] ∨ ¬ (node.type = .dirNls ∧ buf = [sep]) ∧
      start = buf) ∧
    ((node.type ≠ .file ∧ start ++ node.fname ≠ [sep] ∨ node.softLink = true ∧ node.child ≠ []) ∧
        addName node buf = start ++ node.fname ++ [sep] ∨
      (node.type = .file ∨ start ++ node.fname = [sep]) ∧ ¬ (node.softLink = true ∧ node.child ≠ []) ∧
        addName node buf = start ++ node.fname) := by
  refine ⟨if node.type = .dirNls && buf = [sep] then [] else buf, ?_, addName_slash node buf⟩
  by_cases drive : node.type = .dirNls ∧ buf = [sep]
  · exact .inl ⟨drive.1, drive.2, by simp [drive]⟩
  · refine .inr ⟨drive, if_neg ?_⟩
    rwa [Bool.and_eq_true, decide_eq_true_eq, decide_eq_true_eq]

theorem addName_length (node : TreeNode) (nonempty : buf ≠ []) :
    buf.length ≤ (addName node buf).length := by
  obtain ⟨start, first, last⟩ := addName_cases node buf
  have some := List.length_pos_iff.mpr nonempty
  rcases first with ⟨drive, rfl, rfl⟩ | ⟨-, rfl⟩ <;> rcases last with ⟨-, eq⟩ | ⟨none, -, eq⟩
    <;> rw [eq]
  · simp
  · rcases none with file | alone
    · rw [drive] at file
      cases file
    · rw [alone]
  · simp only [List.length_append]
    omega
  · simp only [List.length_append]
    omega

theorem last_ne_sep {a d : Name} (named : d ≠ []) (noSep : sep ∉ d) (b : Name) :
    a ++ d ≠ b ++ [sep] := by
  intro same
  have last := congrArg List.getLast? same
  rw [List.getLast?_append_of_ne_nil _ named, List.getLast?_concat] at last
  exact noSep (List.mem_of_getLast? last)

/-- A directory below a path. -/
theorem addName_dir_iff {above : Name} (some : above ≠ []) (noSep : sep ∉ node.fname)
    (unnamed : node.fname = [] → node.type ≠ .file ∧ node.softLink = false) :
    addName node buf = above ++ node.fname ++ [sep] ↔
      buf = above ∧ (above = [sep] → node.type ≠ .dirNls ∧ node.fname ≠ []) ∧ Slashed node := by
  obtain ⟨start, first, last⟩ := addName_cases node buf
  constructor
  · intro eq
    rcases last with ⟨slash, added⟩ | ⟨none, -, added⟩
    · rw [added, List.append_left_inj, List.append_left_inj] at eq
      subst eq
      rcases first with ⟨-, -, empty⟩ | ⟨noDrive, rfl⟩
      · exact absurd empty some
      · refine ⟨rfl, fun top => ⟨fun drive => noDrive ⟨drive, top⟩, fun empty => ?_⟩,
          slash.imp_left And.left⟩
        rcases slash with ⟨-, more⟩ | ⟨soft, -⟩
        · exact more (by rw [empty, top]; rfl)
        · rw [(unnamed empty).2] at soft
          cases soft
    · rw [added] at eq
      by_cases named : node.fname = []
      · have top := none.resolve_left (unnamed named).1
        rw [top, named, List.append_nil] at eq
        have length := congrArg List.length eq
        have positive := List.length_pos_iff.mpr some
        rw [List.length_append, List.length_singleton] at length
        omega
      · exact absurd eq (last_ne_sep named noSep _)
  · rintro ⟨rfl, top, slashed⟩
    have keeps : start = buf := by
      rcases first with ⟨drive, alone, -⟩ | ⟨-, rfl⟩
      · exact absurd drive (top alone).1
      · rfl
    subst keeps
    rcases last with ⟨-, eq⟩ | ⟨none, noLink, -⟩
    · exact eq
    · rcases none with file | alone
      · exact absurd (slashed.resolve_left (not_not.mpr file)) noLink
      · have single : start = [sep] ∧ node.fname = [] := by
          rcases List.append_eq_singleton_iff.mp alone with ⟨empty, -⟩ | both
          · exact absurd empty some
          · exact both
        exact absurd single.2 (top single.1).2

/-- A drive below the top of the tree. -/
theorem addName_drive_iff (named : node.fname ≠ []) (noSep : sep ∉ node.fname) :
    addName node [sep] = node.fname ++ [sep] ↔ node.type = .dirNls := by
  obtain ⟨start, first, last⟩ := addName_cases node [sep]
  constructor
  · intro eq
    rcases first with ⟨drive, -, -⟩ | ⟨-, rfl⟩
    · exact drive
    · have begins : ∃ rest, addName node [sep] = sep :: rest := by
        rcases last with ⟨-, added⟩ | ⟨-, -, added⟩
        · exact ⟨_, added⟩
        · exact ⟨_, added⟩
      obtain ⟨rest, begins⟩ := begins
      rw [begins] at eq
      cases fname : node.fname with
      | nil => exact absurd fname named
      | cons c d =>
          rw [fname, List.cons_append] at eq
          have head : sep = c := (List.cons.inj eq).1
          rw [fname, head] at noSep
          exact absurd List.mem_cons_self noSep
  · intro drive
    rcases first with ⟨-, -, rfl⟩ | ⟨noDrive, -⟩
    · rcases last with ⟨-, eq⟩ | ⟨none, -, -⟩
      · exact eq
      · rcases none with file | alone
        · rw [drive] at file
          cases file
        · rw [List.nil_append] at alone
          exact absurd (alone ▸ List.mem_singleton_self sep) noSep
    · exact absurd ⟨drive, rfl⟩ noDrive

/-- A file below a path. -/
theorem addName_file_iff {above : Name} (some : above ≠ []) (named : node.fname ≠ [])
    (noSep : sep ∉ node.fname) :
    addName node buf = above ++ node.fname ↔ buf = above ∧ ¬ Slashed node := by
  obtain ⟨start, first, last⟩ := addName_cases node buf
  have longer {a : Name} (nonempty : a ≠ []) : a ++ node.fname ≠ [sep] := by
    intro eq
    rcases List.append_eq_singleton_iff.mp eq with ⟨empty, -⟩ | ⟨-, empty⟩
    · exact nonempty empty
    · exact named empty
  constructor
  · intro eq
    rcases last with ⟨-, added⟩ | ⟨none, noLink, added⟩
    · exact absurd (eq.symm.trans added) (last_ne_sep named noSep _)
    · rw [added, List.append_left_inj] at eq
      subst eq
      rcases first with ⟨-, -, empty⟩ | ⟨-, rfl⟩
      · exact absurd empty some
      · refine ⟨rfl, fun slashed => ?_⟩
        exact slashed.elim (fun noFile => noFile (none.resolve_right (longer some))) noLink
  · rintro ⟨rfl, file⟩
    rw [Slashed, not_or, not_not] at file
    have keeps : start = buf := by
      rcases first with ⟨drive, -, -⟩ | ⟨-, rfl⟩
      · rw [file.1] at drive
        cases drive
      · rfl
    subst keeps
    rcases last with ⟨slash, -⟩ | ⟨-, -, eq⟩
    · exact absurd slash (not_or.mpr ⟨fun both => both.1 file.1, file.2⟩)
    · exact eq

/-- The entry of the top directory itself. -/
theorem addName_top (unnamed : node.fname = []) (noLink : node.softLink = false) :
    addName node [sep] = [sep] := by
  obtain ⟨start, first, last⟩ := addName_cases node [sep]
  rw [unnamed] at last
  rcases first with ⟨drive, -, rfl⟩ | ⟨-, rfl⟩ <;> rcases last with ⟨slash, eq⟩ | ⟨none, -, eq⟩
  · exact eq
  · rcases none with file | alone
    · rw [drive] at file
      cases file
    · cases alone
  · rcases slash with ⟨-, more⟩ | ⟨soft, -⟩
    · exact absurd rfl more
    · rw [noLink] at soft
      cases soft
  · exact eq

/-- A directory whose name was not looked for below the one before it. -/
theorem addName_doubled_iff (noLink : node.fname = [] → node.softLink = false) :
    addName node [sep] = node.fname ++ [sep, sep] ↔
      sep :: node.fname = node.fname ++ [sep] ∧ node.fname ≠ [] ∧ node.type ≠ .dirNls ∧
        Slashed node := by
  by_cases named : node.fname = []
  · rw [addName_top named (noLink named), named]
    refine iff_of_false (fun eq => ?_) fun all => all.2.1 rfl
    cases eq
  · obtain ⟨start, first, last⟩ := addName_cases node [sep]
    have twice : node.fname ++ [sep, sep] = node.fname ++ [sep] ++ [sep] := by
      rw [List.append_assoc]
      rfl
    constructor
    · intro eq
      have length := congrArg List.length eq
      rcases last with ⟨slash, added⟩ | ⟨-, -, added⟩ <;> rcases first with ⟨-, -, rfl⟩ | ⟨noDrive, rfl⟩
      · rw [added] at length
        simp at length
      · rw [added, twice, List.append_left_inj] at eq
        exact ⟨eq, named, fun drive => noDrive ⟨drive, rfl⟩, slash.imp_left And.left⟩
      · rw [added] at length
        simp at length
      · rw [added] at length
        simp at length
    · rintro ⟨slashes, -, noDrive, slashed⟩
      rcases first with ⟨drive, -, -⟩ | ⟨-, rfl⟩
      · exact absurd drive noDrive
      · rcases last with ⟨-, eq⟩ | ⟨none, noLink, -⟩
        · rw [eq, twice, List.append_left_inj]
          exact slashes
        · rcases none with file | alone
          · exact absurd (slashed.resolve_left (not_not.mpr file)) noLink
          · exact absurd (List.cons.inj alone).2 named

end Names

/-! ## The way from the top -/

section Way

variable {root : TreeRoot} {n : ℕ} {key : List Name}

theorem fullPath_top (topped : Topped root) (steps : ℕ) : fullPath root (steps + 1) 0 = [sep] := by
  have fname := congrArg TreeNode.fname topped
  have parent := congrArg TreeNode.parent topped
  have type := congrArg TreeNode.type topped
  have soft := congrArg TreeNode.softLink topped
  change (root.node 0).fname = [] at fname
  change (root.node 0).parent = none at parent
  change (root.node 0).type = .root at type
  change (root.node 0).softLink = false at soft
  rw [fullPath, parent, addName, bareName, fname, type, soft]
  rfl

theorem fullPath_child (shaped : Shaped root) {p c : ℕ} (child : c ∈ (root.node p).child) (steps : ℕ) :
    fullPath root (steps + 1) c = addName (root.node c) (fullPath root steps p) := by
  rw [fullPath, (shaped.parents child).1]

theorem strncat_fits {buf text : Name} {size : ℕ} (fits : (buf ++ text).length < size) :
    strncat buf text size = buf ++ text := List.take_of_length_le (by omega)

theorem treeGetpath_top (topped : Topped root) {size : ℕ} (room : 1 < size) (steps : ℕ) :
    treeGetpath root size (steps + 1) 0 = [sep] := by
  have fname := congrArg TreeNode.fname topped
  have parent := congrArg TreeNode.parent topped
  have type := congrArg TreeNode.type topped
  have soft := congrArg TreeNode.softLink topped
  change (root.node 0).fname = [] at fname
  change (root.node 0).parent = none at parent
  change (root.node 0).type = .root at type
  change (root.node 0).softLink = false at soft
  have none : strncat [] [] size = [] := strncat_fits (by rw [List.append_nil, List.length_nil]; omega)
  have slash : strncat [] [sep] size = [sep] := strncat_fits room
  rw [treeGetpath, parent, fname, type, soft]
  simp [none, slash]

/-- A node writes its name behind the path of its parent if the buffer has room for both. -/
theorem treeGetpath_child (shaped : Shaped root) {p c : ℕ} (child : c ∈ (root.node p).child)
    {size steps : ℕ} (room : (addName (root.node c) (treeGetpath root size steps p)).length < size) :
    treeGetpath root size (steps + 1) c = addName (root.node c) (treeGetpath root size steps p) := by
  have bare : strncat (if (root.node c).type = .dirNls && treeGetpath root size steps p = [sep] then []
      else treeGetpath root size steps p) (root.node c).fname size =
      bareName (root.node c) (treeGetpath root size steps p) := by
    refine strncat_fits (lt_of_le_of_lt ?_ room)
    change (bareName (root.node c) (treeGetpath root size steps p)).length ≤ _
    rcases addName_slash (root.node c) (treeGetpath root size steps p) with ⟨-, eq⟩ | ⟨-, -, eq⟩
      <;> rw [eq]
    simp
  rw [treeGetpath, (shaped.parents child).1]
  dsimp only
  rw [bare]
  unfold addName at room ⊢
  split
  case isTrue slash =>
    rw [if_pos slash] at room
    exact strncat_fits room
  case isFalse => rfl

/-- A node on the way has a shorter path, and a buffer with room for the path cuts nothing. -/
theorem fullPath_fits (shaped : Shaped root) (topped : Topped root) (has : HasKey root n key)
    {steps : ℕ} (enough : n < steps) : fullPath root steps n ≠ [] ∧
      ∀ size, (fullPath root steps n).length < size →
        treeGetpath root size steps n = fullPath root steps n := by
  induction has generalizing steps with
  | root =>
      obtain ⟨steps, rfl⟩ : ∃ l, steps = l + 1 := ⟨steps - 1, by omega⟩
      rw [fullPath_top topped]
      exact ⟨List.cons_ne_nil _ _, fun size room => treeGetpath_top topped room steps⟩
  | @child p c key parent child ih =>
      obtain ⟨steps, rfl⟩ : ∃ l, steps = l + 1 := ⟨steps - 1, by omega⟩
      obtain ⟨-, below, -⟩ := shaped.parents child
      have enough' : p < steps := by omega
      obtain ⟨nonempty, fits⟩ := ih enough'
      have longer := addName_length (root.node c) nonempty
      have some := List.length_pos_iff.mpr nonempty
      rw [fullPath_child shaped child]
      refine ⟨List.length_pos_iff.mp (by omega), fun size room => ?_⟩
      have above := fits size (by omega)
      rw [← above] at room ⊢
      exact treeGetpath_child shaped child room

theorem treeGetpath_iff (shaped : Shaped root) (topped : Topped root) (has : HasKey root n key)
    {steps : ℕ} (enough : n < steps) (text : Name) :
    (∀ size, text.length < size → treeGetpath root size steps n = text) ↔
    fullPath root steps n = text := by
  have fits := (fullPath_fits shaped topped has enough).2
  constructor
  · intro law
    have room := fits (max text.length (fullPath root steps n).length + 1) (by omega)
    exact room.symm.trans (law _ (by omega))
  · rintro rfl size room
    exact fits size room

/-- Every node on the way to a key is a directory, the first one has a name, and it is a drive if
the key is relative. -/
structure Straight (root : TreeRoot) (lead : Bool) (key : List Name) : Prop where
  slashed : ∀ m k, HasKey root m k → k ≠ [] → k <+: key → Slashed (root.node m)
  first : ∀ d ∈ key.head?, d ≠ [] ∧ ∀ m, HasKey root m [d] →
      ((root.node m).type = .dirNls ↔ lead = false)

/-- Nodes without a name are no files. -/
def Unnamed (root : TreeRoot) : Prop :=
  ∀ m k, HasKey root m (k ++ [[]]) → (root.node m).type ≠ .file ∧ (root.node m).softLink = false

theorem straight_snoc (shaped : Shaped root) {p c : ℕ} (parent : HasKey root p key)
    (child : c ∈ (root.node p).child) (lead : Bool) :
    Straight root lead (key ++ [(root.node c).fname]) ↔
      Straight root lead key ∧ Slashed (root.node c) ∧
        (key = [] → (root.node c).fname ≠ [] ∧ ((root.node c).type = .dirNls ↔ lead = false)) := by
  have here := HasKey.child parent child
  constructor
  · intro straight
    refine ⟨⟨fun m k has some start => ?_, fun d head => ?_⟩, ?_, ?_⟩
    · exact straight.slashed m k has some (start.trans (List.prefix_append _ _))
    · refine straight.first d ?_
      rw [List.head?_append, head]
      rfl
    · exact straight.slashed c _ here (List.concat_ne_nil _ _) (List.prefix_refl _)
    · rintro rfl
      obtain ⟨named, drive⟩ := straight.first _ rfl
      exact ⟨named, drive c here⟩
  · rintro ⟨straight, slashed, first⟩
    refine ⟨fun m k has some start => ?_, fun d head => ?_⟩
    · rcases List.prefix_concat_iff.mp start with rfl | shorter
      · rw [has.unique_node shaped here]
        exact slashed
      · exact straight.slashed m k has some shorter
    · cases key with
      | nil =>
          obtain rfl := Option.some_inj.mp head
          obtain ⟨named, drive⟩ := first rfl
          refine ⟨named, fun m has => ?_⟩
          rw [has.unique_node shaped here]
          exact drive
      | cons e key => exact straight.first d head

/-- A node has the path of a directory exactly when the way to it is one of directories. -/
theorem fullPath_dir_iff (shaped : Shaped root) (topped : Topped root) (unnamed : Unnamed root)
    (has : HasKey root n key) {lead : Bool} (names : Dirs lead key) (some : lead = true ∨ key ≠ [])
    {steps : ℕ} (enough : n < steps) : fullPath root steps n = dirPath lead key ↔
    Straight root lead key := by
  induction has generalizing steps with
  | root =>
      obtain rfl := some.resolve_right (not_not.mpr rfl)
      obtain ⟨steps, rfl⟩ : ∃ l, steps = l + 1 := ⟨steps - 1, by omega⟩
      rw [fullPath_top topped]
      refine iff_of_true rfl ⟨fun m k _ some start => ?_, fun d head => ?_⟩
      · exact absurd (List.prefix_nil.mp start) some
      · cases head
  | @child p c key parent child ih =>
      obtain ⟨steps, rfl⟩ : ∃ l, steps = l + 1 := ⟨steps - 1, by omega⟩
      obtain ⟨-, below, -⟩ := shaped.parents child
      have noSep := names.noSep (root.node c).fname (by simp)
      rw [fullPath_child shaped child, dirPath_snoc, straight_snoc shaped parent child]
      by_cases more : lead = true ∨ key ≠ []
      · have bare : (root.node c).fname = [] → (root.node c).type ≠ .file ∧
            (root.node c).softLink = false := by
          intro empty
          have here := HasKey.child parent child
          rw [empty] at here
          exact unnamed c key here
        have nonempty : dirPath lead key ≠ [] := by
          rw [dirPath_end more]
          exact List.concat_ne_nil _ _
        rw [addName_dir_iff nonempty noSep bare, ih names.init more (by omega)]
        have top : dirPath lead key = [sep] ↔ key = [] := by
          refine ⟨fun alone => ?_, fun none => ?_⟩
          · have start :=
              dirPath_prefix names.init (⟨fun _ inside => absurd inside List.not_mem_nil, .inl rfl⟩ :
              Dirs true []) more (.inl rfl) List.not_mem_nil (by rw [alone]; exact List.prefix_refl _)
            exact List.prefix_nil.mp start.2
          · subst none
            rw [more.resolve_right (not_not.mpr rfl)]
            rfl
        have first (none : key = []) : lead = true := more.resolve_right (not_not.mpr none)
        rw [top]
        constructor
        · rintro ⟨straight, drive, slashed⟩
          refine ⟨straight, slashed, fun none => ⟨(drive none).2, iff_of_false (drive none).1 ?_⟩⟩
          rw [first none]
          exact Bool.noConfusion
        · rintro ⟨straight, slashed, drive⟩
          refine ⟨straight, fun none => ⟨fun type => ?_, (drive none).1⟩, slashed⟩
          have relative := (drive none).2.mp type
          rw [first none] at relative
          cases relative
      · rw [not_or, not_not, Bool.not_eq_true] at more
        obtain ⟨rfl, rfl⟩ := more
        obtain rfl := parent.unique_node shaped .root
        have named : (root.node c).fname ≠ [] := names.drive.resolve_left Bool.false_ne_true _ rfl
        obtain ⟨steps, rfl⟩ : ∃ l, steps = l + 1 := ⟨steps - 1, by omega⟩
        rw [fullPath_top topped, dirPath, if_neg Bool.false_ne_true, List.flatMap_nil, List.append_nil,
          List.nil_append, addName_drive_iff named noSep]
        constructor
        · intro drive
          refine ⟨⟨fun m k _ some start => absurd (List.prefix_nil.mp start) some,
            fun d head => ?_⟩, .inl ?_, fun _ => ⟨named, iff_of_true drive rfl⟩⟩
          · cases head
          · rw [drive]
            exact NodeType.noConfusion
        · rintro ⟨-, -, drive⟩
          exact (drive rfl).2.mpr rfl

/-- A node has the path of a file exactly when the way to it is one of directories and it is none
itself. -/
theorem fullPath_file_iff (shaped : Shaped root) (topped : Topped root) (unnamed : Unnamed root)
    {fname : Name} (has : HasKey root n (key ++ [fname])) {lead : Bool} (names : Dirs lead key)
    (some : lead = true ∨ key ≠ []) (named : fname ≠ []) (noSep : sep ∉ fname) {steps : ℕ}
    (enough : n < steps) :
    fullPath root steps n = dirPath lead key ++ fname ↔
      Straight root lead key ∧ ¬ Slashed (root.node n) := by
  generalize eq : key ++ [fname] = k at has
  cases has with
  | root => exact absurd eq (List.concat_ne_nil _ _)
  | @child p _ key' parent child =>
      obtain ⟨rfl, last⟩ := List.append_inj' eq rfl
      obtain rfl := (List.cons.inj last).1
      obtain ⟨steps, rfl⟩ : ∃ l, steps = l + 1 := ⟨steps - 1, by omega⟩
      obtain ⟨-, below, -⟩ := shaped.parents child
      have nonempty : dirPath lead key ≠ [] := by
        rw [dirPath_end some]
        exact List.concat_ne_nil _ _
      rw [fullPath_child shaped child, addName_file_iff nonempty named noSep,
        fullPath_dir_iff shaped topped unnamed parent names some (by omega)]

/-- The path of a node below the top that has a name of its own. -/
theorem fullPath_single (shaped : Shaped root) (topped : Topped root) {name : Name}
    (has : HasKey root n [name]) {steps : ℕ} (enough : n < steps) :
    (root.node n).fname = name ∧ fullPath root steps n = addName (root.node n) [sep] := by
  generalize eq : [name] = k at has
  cases has with
  | root => cases eq
  | @child p _ key parent child =>
      obtain ⟨none, last⟩ :=
        List.append_inj' (show [] ++ [name] = key ++ [(root.node n).fname] from eq) rfl
      subst none
      obtain rfl := parent.unique_node shaped .root
      obtain ⟨-, below, -⟩ := shaped.parents child
      obtain ⟨steps, rfl⟩ : ∃ l, steps = l + 2 := ⟨steps - 2, by omega⟩
      exact ⟨(List.cons.inj last).1.symm, by rw [fullPath_child shaped child, fullPath_top topped]⟩

end Way

end Bacula.Tree
