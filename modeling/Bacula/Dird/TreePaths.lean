import Bacula.Lib.TreeGetpath
import Bacula.Dird.TreeVersions

/-! Which rows share a node of the restore tree, and the path that a node spells: for which rows it
is the path and the filename of the row. -/
namespace Bacula.UaTree
open Bacula.Tree

def rowText (row : CatalogRow) : Name := row.path ++ row.fname

/-- The names of a row: its path ends in a separator, and a soft link is no directory. -/
structure ProperRow (row : CatalogRow) : Prop where
  path : row.path.getLast? = some sep
  fname : sep ∉ row.fname
  link : row.isLnk = true → row.fname ≠ []

variable (all noAutoParent : Bool)

/-- The tree when the row behind `before` has got its node. -/
def placed (before : List CatalogRow) (row : CatalogRow) : TreeRoot × ℕ :=
  insertTreeNode (build all noAutoParent before).root row.path row.fname

def nodeOf (before : List CatalogRow) (row : CatalogRow) : ℕ := (placed all noAutoParent before row).2

/-- One full name has one node, and the node gives the name back to every buffer with room for it. -/
structure PathLaw (rows : List CatalogRow) : Prop where
  node : ∀ before a mid b after, rows = before ++ a :: mid ++ b :: after →
    (nodeOf all noAutoParent before a = nodeOf all noAutoParent (before ++ a :: mid) b ↔
      rowText a = rowText b)
  path : ∀ before row after, rows = before ++ row :: after → ∀ size, (rowText row).length < size →
    treeGetpath (build all noAutoParent rows).root size (build all noAutoParent rows).root.nodes.length
      (nodeOf all noAutoParent before row) = rowText row

/-- The name is not one that a delta part without its base has left. -/
def Kept (rows : List CatalogRow) (key : List Name) : Prop :=
  ∀ v ∈ version key rows.reverse, v.type ≠ .none

instance (rows : List CatalogRow) (key : List Name) : Decidable (Kept rows key) :=
  inferInstanceAs (Decidable (∀ v ∈ version key rows.reverse, v.type ≠ .none))

/-- No name is missing below the top or at the end of a directory, unless there are no names at all;
what begins with one name is absolute or relative throughout; no file has entries below its name,
and no directory shares it; and no name of a file and no drive is one that a delta part has left. -/
structure Spelled (rows : List CatalogRow) : Prop where
  slashes : ∀ row ∈ rows, ¬ [sep, sep] <+: rowText row ∧ (row.fname = [] → ¬ [sep, sep] <:+ row.path) ∨
    row.fname = [] ∧ ∃ n, row.path = List.replicate (n + 3) sep
  drives : ∀ a ∈ rows, ∀ b ∈ rows, firstName (rowText a) = firstName (rowText b) →
    (a.path.head? = some sep ↔ b.path.head? = some sep)
  files : ∀ a ∈ rows, a.fname ≠ [] → ∀ b ∈ rows, ¬ rowText a ++ [sep] <+: rowText b
  kept : ∀ row ∈ rows, (row.fname ≠ [] → Kept rows (rowKey row)) ∧
    (row.path.head? ≠ some sep → Kept rows [firstName (rowText row)])

/-! ## The names of a row -/

/-- A row whose key is made of its directories and its filename. -/
structure Named (row : CatalogRow) (lead : Bool) (dirs : List Name) : Prop where
  names : Dirs lead dirs
  some : lead = true ∨ dirs ≠ []
  path : row.path = dirPath lead dirs
  fname : sep ∉ row.fname
  file : row.fname ≠ [] → rowKey row = dirs ++ [row.fname]
  dir : row.fname = [] → rowKey row = dirs ∧ dirs ≠ [] ∧ ¬ [sep, sep] <:+ row.path

namespace Named

variable {row : CatalogRow} {lead : Bool} {dirs : List Name}

theorem text (named : Named row lead dirs) : rowText row = dirPath lead dirs ++ row.fname := by
  rw [rowText, named.path]

theorem text_file (named : Named row lead dirs) (file : row.fname ≠ []) :
    rowText row ++ [sep] = dirPath lead (rowKey row) := by
  rw [named.text, named.file file, dirPath_snoc]

theorem text_dir (named : Named row lead dirs) (dir : row.fname = []) :
    rowText row = dirPath lead (rowKey row) := by
  rw [named.text, (named.dir dir).1, dir, List.append_nil]

theorem lead_iff (named : Named row lead dirs) : row.path.head? = Option.some sep ↔ lead = true := by
  rw [named.path]
  exact dirPath_head named.names named.some

/-- The name of a file as that of a directory. -/
theorem key_names (named : Named row lead dirs) (file : row.fname ≠ []) : Dirs lead (rowKey row) where
  noSep d inside := by
    rw [named.file file, List.mem_append, List.mem_singleton] at inside
    rcases inside with above | rfl
    · exact named.names.noSep d above
    · exact named.fname
  drive := by
    refine named.names.drive.imp_right fun first d head => ?_
    rw [named.file file] at head
    cases dirs with
    | nil =>
        obtain rfl := Option.some_inj.mp head
        exact file
    | cons e dirs => exact first d head

theorem head (named : Named row lead dirs) :
    (rowKey row).head? = Option.some (firstName (rowText row)) := by
  rw [named.text, firstName_dirPath named.names named.some named.fname]
  by_cases dir : row.fname = []
  · obtain ⟨key, some, -⟩ := named.dir dir
    rw [key]
    cases dirs with
    | nil => exact absurd rfl some
    | cons d dirs => rfl
  · rw [named.file dir]
    cases dirs <;> rfl

theorem start (named : Named row lead dirs) : [firstName (rowText row)] <+: rowKey row := by
  have head := named.head
  cases key : rowKey row with
  | nil =>
      rw [key] at head
      cases head
  | cons d rest =>
      rw [key, List.head?_cons, Option.some_inj] at head
      exact ⟨rest, by rw [← head]; rfl⟩

theorem noSep (named : Named row lead dirs) {d : Name} (inside : d ∈ rowKey row) : sep ∉ d := by
  by_cases dir : row.fname = []
  · rw [(named.dir dir).1] at inside
    exact named.names.noSep d inside
  · rw [named.file dir, List.mem_append, List.mem_singleton] at inside
    rcases inside with above | rfl
    · exact named.names.noSep d above
    · exact named.fname

/-- What the key goes on from is directories. -/
theorem below (named : Named row lead dirs) {k : List Name} (start : k <+: rowKey row)
    (more : k ≠ rowKey row ∨ row.fname = []) : k <+: dirs := by
  by_cases dir : row.fname = []
  · rwa [(named.dir dir).1] at start
  · have key := named.file dir
    rw [key] at start more
    exact (List.prefix_concat_iff.mp start).resolve_left (more.resolve_right dir)

/-- What lies below the name of a file. -/
theorem text_below {b : CatalogRow} {bdirs : List Name} (named : Named row lead dirs)
    (file : row.fname ≠ []) (namedB : Named b lead bdirs) (start : rowKey row <+: rowKey b)
    (more : rowKey row ≠ rowKey b ∨ b.fname = []) :
    rowText row ++ [sep] <+: rowText b := by
  rw [named.text_file file, namedB.text]
  exact (dirPath_mono lead (namedB.below start more)).trans (List.prefix_append _ _)

end Named

theorem ProperRow.cases {row : CatalogRow} (proper : ProperRow row) :
    (∃ lead dirs, Named row lead dirs) ∨ row.fname = [] ∧ row.path = [sep] ∧ rowKey row = [[]] ∨
      row.fname = [] ∧ ∃ before, row.path = before ++ [sep, sep] ∧ rowKey row = [before] := by
  obtain ⟨lead, dirs, names, some, path⟩ := exists_dirs proper.path
  by_cases dir : row.fname = []
  · cases List.eq_nil_or_concat dirs with
    | inl none =>
        subst none
        obtain rfl := some.resolve_right (not_not.mpr rfl)
        have top : row.path = [sep] := path
        refine .inr (.inl ⟨dir, top, ?_⟩)
        rw [rowKey, top, dir]
        rfl
    | inr more =>
        obtain ⟨ds, d, rfl⟩ := more
        rw [List.concat_eq_append] at names some path
        by_cases unnamed : d = []
        · subst unnamed
          have above : lead = true ∨ ds ≠ [] := by
            refine names.drive.imp_right fun first => ?_
            rintro rfl
            exact first [] rfl rfl
          have doubled : row.path = (dirPath lead ds).dropLast ++ [sep, sep] := by
            rw [path, dirPath_snoc, List.append_nil, dirPath_end above, List.append_assoc,
              List.dropLast_concat]
            rfl
          refine .inr (.inr ⟨dir, _, doubled, ?_⟩)
          rw [rowKey, doubled, dir, entryKey_doubled]
        · have noSep := names.noSep d (List.mem_append_right _ (List.mem_singleton_self d))
          refine .inl ⟨lead, ds ++ [d], names, some, path, proper.fname,
            fun file => absurd dir file, fun _ => ?_⟩
          refine ⟨?_, List.concat_ne_nil _ _, ?_⟩
          · rw [rowKey, path, dir, entryKey_dir names unnamed]
          · rw [path]
            exact doubled_end unnamed noSep
  · refine .inl ⟨lead, dirs, names, some, path, proper.fname, fun _ => ?_, fun none => absurd none dir⟩
    rw [rowKey, path, entryKey_file names some dir]

/-- A row that the tree can spell if there are no others. -/
inductive Spellable (row : CatalogRow) : Prop where
  | named {lead : Bool} {dirs : List Name} (named : Named row lead dirs) (first : dirs.head? ≠ some [])
  | top (dir : row.fname = []) (path : row.path = [sep]) (key : rowKey row = [[]])
  | slashes (n : ℕ) (dir : row.fname = []) (path : row.path = List.replicate (n + 3) sep)
      (key : rowKey row = [List.replicate (n + 1) sep])

theorem replicate_snoc (n : ℕ) :
    List.replicate (n + 3) sep = List.replicate (n + 1) sep ++ [sep, sep] :=
  List.replicate_add (n + 1) 2 sep

theorem spellable_iff {row : CatalogRow} (proper : ProperRow row) : Spellable row ↔
    ¬ [sep, sep] <+: rowText row ∧ (row.fname = [] → ¬ [sep, sep] <:+ row.path) ∨
      row.fname = [] ∧ ∃ n, row.path = List.replicate (n + 3) sep := by
  constructor
  · intro spellable
    cases spellable with
    | named named first =>
        refine .inl ⟨?_, fun dir => (named.dir dir).2.2⟩
        rw [named.text, doubled_start_iff named.names named.some named.fname]
        exact first
    | top dir path =>
        refine .inl ⟨?_, fun _ => ?_⟩
        · rw [rowText, path, dir]
          decide
        · rw [path]
          decide
    | slashes n dir path => exact .inr ⟨dir, n, path⟩
  · intro slashes
    rcases proper.cases with ⟨lead, dirs, named⟩ | ⟨dir, path, key⟩ | ⟨dir, before, path, key⟩
    · refine .named named fun missing => ?_
      rcases slashes with ⟨start, -⟩ | ⟨dir, n, path⟩
      · rw [named.text, doubled_start_iff named.names named.some named.fname] at start
        exact start missing
      · refine (named.dir dir).2.2 ?_
        rw [path, replicate_snoc]
        exact List.suffix_append _ _
    · exact .top dir path key
    · rcases slashes with ⟨-, stop⟩ | ⟨-, n, alone⟩
      · exact absurd (path ▸ List.suffix_append _ _) (stop dir)
      · refine .slashes n dir alone ?_
        rw [path, replicate_snoc] at alone
        rw [key, List.append_cancel_right alone]

theorem Named.first_ne_nil {row : CatalogRow} {lead : Bool} {dirs : List Name}
    (named : Named row lead dirs) (first : dirs.head? ≠ Option.some []) :
    firstName (rowText row) ≠ [] := by
  have head := named.head
  intro none
  rw [none] at head
  by_cases dir : row.fname = []
  · rw [(named.dir dir).1] at head
    exact first head
  · rw [named.file dir] at head
    cases dirs with
    | nil => exact dir (Option.some_inj.mp head)
    | cons d dirs => exact first head

/-- A row with names, or a directory of separators alone. -/
theorem Spellable.cases {row : CatalogRow} (spellable : Spellable row) :
    (∃ lead dirs, Named row lead dirs ∧ firstName (rowText row) ≠ []) ∨ row.path.head? = some sep ∧
      firstName (rowText row) = [] ∧ ∀ c ∈ rowText row, c = sep := by
  have slashes (n : ℕ) (dir : row.fname = []) (path : row.path = List.replicate (n + 1) sep) :
      row.path.head? = some sep ∧ firstName (rowText row) = [] ∧ ∀ c ∈ rowText row, c = sep := by
    have text : rowText row = List.replicate (n + 1) sep := by
      rw [rowText, path, dir, List.append_nil]
    refine ⟨by rw [path]; rfl, ?_, fun c inside => ?_⟩
    · rw [text, firstName, List.replicate_succ, List.head?_cons, if_pos rfl, List.tail_cons]
      cases n <;> rfl
    · rw [text] at inside
      exact List.eq_of_mem_replicate inside
  cases spellable with
  | named named first => exact .inl ⟨_, _, named, named.first_ne_nil first⟩
  | top dir path => exact .inr (slashes 0 dir path)
  | slashes n dir path => exact .inr (slashes (n + 2) dir path)

theorem ProperRow.text {row : CatalogRow} (proper : ProperRow row) : ∃ init,
    row.path = init ++ [sep] ∧ lastPathSeparator (rowText row) = some (init, row.fname) := by
  obtain ⟨init, path⟩ := List.getLast?_eq_some_iff.mp proper.path
  refine ⟨init, path, ?_⟩
  rw [rowText, path, List.append_assoc]
  exact lastPathSeparator_append init proper.fname

/-- The full name has its path and its filename. -/
theorem key_of_text {a b : CatalogRow} (properA : ProperRow a) (properB : ProperRow b)
    (same : rowText a = rowText b) : rowKey a = rowKey b := by
  obtain ⟨inita, pathA, splitA⟩ := ProperRow.text properA
  obtain ⟨initb, pathB, splitB⟩ := ProperRow.text properB
  rw [same, splitB, Option.some_inj] at splitA
  obtain ⟨init, fname⟩ := Prod.mk.inj splitA
  rw [rowKey, rowKey, pathA, pathB, init, fname]

/-! ## The nodes of the rows -/

section Nodes

variable {rows : List CatalogRow} {root : TreeRoot} {n : ℕ} {key : List Name}

/-- The type of a node is that of a row that it has, or of a directory on the way of another one. -/
theorem Agrees.type (agrees : Agrees rows.reverse root) (has : HasKey root n key) (some : key ≠ []) :
    (root.node n).type = .none ∨ (∃ row ∈ rows, rowKey row = key ∧ (root.node n).type = rowType row) ∨
      ∃ row ∈ rows, key <+: rowKey row ∧ rowKey row ≠ key ∧
        (root.node n).type = wayType row.path key := by
  have cases' := version_type (agrees.version some has)
  simp only [List.mem_reverse] at cases'
  exact cases'

theorem Agrees.kept (agrees : Agrees rows.reverse root) (has : HasKey root n key) (some : key ≠ []) :
    Kept rows key ↔ (root.node n).type ≠ .none := by
  have here := agrees.version some has
  constructor
  · intro kept
    exact kept _ here
  · intro filled v there
    rw [here] at there
    obtain rfl := Option.some_inj.mp there
    exact filled

/-- A node with children is on the way of a row. -/
theorem Agrees.below (agrees : Agrees rows.reverse root) (has : HasKey root n key)
    (children : (root.node n).child ≠ []) : ∃ row ∈ rows, key <+: rowKey row ∧ key ≠ rowKey row := by
  obtain ⟨c, child⟩ := List.exists_mem_of_ne_nil _ children
  obtain ⟨row, inside, start⟩ :=
    version_origin (agrees.version (List.concat_ne_nil _ _) (.child has child))
  refine ⟨row, List.mem_reverse.mp inside, (List.prefix_append _ _).trans start, fun same => ?_⟩
  have length := start.length_le
  rw [← same, List.length_append, List.length_singleton] at length
  omega

theorem Agrees.unnamed (agrees : Agrees rows.reverse root) (proper : ∀ row ∈ rows, ProperRow row) :
    Unnamed root := by
  have noFile {row : CatalogRow} (inside : row ∈ rows) {k : List Name} (own : rowKey row = k ++ [[]]) :
      row.fname = [] := by
    by_contra file
    rcases (proper row inside).cases with ⟨lead, dirs, named⟩ | ⟨dir, -⟩ | ⟨dir, -⟩
    · have key := named.file file
      rw [own] at key
      exact file (List.cons.inj (List.append_inj' key rfl).2).1.symm
    · exact file dir
    · exact file dir
  intro m k has
  refine ⟨fun file => ?_, Bool.eq_false_iff.mpr fun soft => ?_⟩
  · rcases agrees.type has (List.concat_ne_nil _ _)
      with none | ⟨row, inside, own, type⟩ | ⟨row, -, -, -, type⟩
    · rw [file] at none
      cases none
    · rw [file, rowType, if_pos (noFile inside own)] at type
      split at type <;> cases type
    · rw [file, wayType] at type
      split at type <;> cases type
  · obtain ⟨row, inside, own, link⟩ := version_soft (agrees.version (List.concat_ne_nil _ _) has) soft
    rw [List.mem_reverse] at inside
    exact (proper row inside).link link (noFile inside own)

theorem Agrees.topped (agrees : Agrees rows.reverse root) : Topped root := agrees.top

/-- Every node of a row spells the full name of the row. -/
def Paths (rows : List CatalogRow) (root : TreeRoot) : Prop :=
  ∀ row ∈ rows, ∀ n, HasKey root n (rowKey row) → fullPath root root.nodes.length n = rowText row

theorem Named.path_iff (agrees : Agrees rows.reverse root) (proper : ∀ row ∈ rows, ProperRow row)
    {row : CatalogRow} {lead : Bool} {dirs : List Name} (named : Named row lead dirs)
    (has : HasKey root n (rowKey row)) :
    fullPath root root.nodes.length n = rowText row ↔
      Straight root lead dirs ∧ (row.fname ≠ [] → ¬ Slashed (root.node n)) := by
  have enough := has.isNode agrees.shaped
  have unnamed := agrees.unnamed proper
  by_cases dir : row.fname = []
  · have key := (named.dir dir).1
    rw [named.text_dir dir, key]
    rw [key] at has
    rw [fullPath_dir_iff agrees.shaped agrees.topped unnamed has named.names named.some enough]
    exact ⟨fun straight => ⟨straight, fun file => absurd dir file⟩, And.left⟩
  · rw [named.file dir] at has
    rw [named.text, fullPath_file_iff agrees.shaped agrees.topped unnamed has named.names named.some dir
      named.fname enough]
    exact ⟨fun both => ⟨both.1, fun _ => both.2⟩, fun both => ⟨both.1, both.2 dir⟩⟩

theorem Agrees.has (agrees : Agrees rows.reverse root) {row : CatalogRow} (inside : row ∈ rows) :
    ∃ n, HasKey root n (rowKey row) := by
  have held := version_isSome (List.mem_reverse.mpr inside) (List.prefix_refl (rowKey row))
  obtain ⟨v, here⟩ := Option.isSome_iff_exists.mp held
  exact agrees.name _ v (rowKey_ne_nil row) here

/-- A directory whose name was not looked for below the one before it. -/
theorem doubled_path_iff (agrees : Agrees rows.reverse root) (proper : ∀ row ∈ rows, ProperRow row)
    {before : Name} (has : HasKey root n [before]) :
    fullPath root root.nodes.length n = before ++ [sep, sep] ↔
      sep :: before = before ++ [sep] ∧ before ≠ [] ∧ (root.node n).type ≠ .dirNls ∧
        Slashed (root.node n) := by
  obtain ⟨fname, path⟩ := fullPath_single agrees.shaped agrees.topped has (has.isNode agrees.shaped)
  have noLink : (root.node n).fname = [] → (root.node n).softLink = false := by
    intro none
    rw [← fname, none] at has
    exact (agrees.unnamed proper n [] has).2
  rw [path, ← fname]
  exact addName_doubled_iff noLink

theorem replicate_of_comm {name : Name} (same : sep :: name = name ++ [sep]) :
    name = List.replicate name.length sep := by
  induction name with
  | nil => rfl
  | cons c name ih =>
      obtain ⟨rfl, rest⟩ := List.cons.inj same
      rw [List.length_cons, List.replicate_succ, ← ih rest]

/-! ## Rows whose nodes spell their names -/

variable (agrees : Agrees rows.reverse root) (proper : ∀ row ∈ rows, ProperRow row)
  (paths : Paths rows root)

include agrees proper paths in
theorem Paths.spellable {row : CatalogRow} (inside : row ∈ rows) : Spellable row := by
  obtain ⟨n, has⟩ := agrees.has inside
  have path := paths row inside n has
  rcases (proper row inside).cases with ⟨lead, dirs, named⟩ | ⟨dir, alone, key⟩ | ⟨dir, before,
    doubled, key⟩
  · obtain ⟨straight, -⟩ := (named.path_iff agrees proper has).mp path
    exact .named named fun missing => (straight.first [] missing).1 rfl
  · exact .top dir alone key
  · rw [key] at has
    rw [rowText, doubled, dir, List.append_nil, doubled_path_iff agrees proper has] at path
    have all := replicate_of_comm path.1
    have some := List.length_pos_iff.mpr path.2.1
    obtain ⟨l, length⟩ : ∃ l, before.length = l + 1 := ⟨before.length - 1, by omega⟩
    rw [length] at all
    refine .slashes l dir ?_ ?_
    · rw [doubled, replicate_snoc, ← all]
    · rw [key, ← all]

include agrees proper paths in
/-- A row is relative exactly when its first name is that of a drive. -/
theorem Paths.drive {row : CatalogRow} (inside : row ∈ rows) {lead : Bool} {dirs : List Name}
    (named : Named row lead dirs) {m : ℕ} (first : HasKey root m [firstName (rowText row)]) :
    (root.node m).type = .dirNls ↔ lead = false := by
  obtain ⟨n, has⟩ := agrees.has inside
  obtain ⟨straight, file⟩ := (named.path_iff agrees proper has).mp (paths row inside n has)
  have head := named.head
  cases dirs with
  | nil =>
      have absolute := named.some.resolve_right (not_not.mpr rfl)
      have some : row.fname ≠ [] := fun dir => (named.dir dir).2.1 rfl
      rw [named.file some] at head has
      rw [← Option.some_inj.mp head] at first
      have same := first.unique_node agrees.shaped has
      have type := file some
      rw [Slashed, not_or, not_not] at type
      rw [same, type.1, absolute]
      exact iff_of_false NodeType.noConfusion Bool.noConfusion
  | cons d dirs =>
      have same : (d :: dirs).head? = some (firstName (rowText row)) := by
        rw [← head]
        by_cases dir : row.fname = []
        · rw [(named.dir dir).1]
        · rw [named.file dir]
          rfl
      exact (straight.first _ same).2 m first

include agrees proper paths in
theorem Paths.spelled : Spelled rows where
  slashes row inside := (spellable_iff (proper row inside)).mp (paths.spellable agrees proper inside)
  drives a inA b inB same := by
    rcases (paths.spellable agrees proper inA).cases with ⟨lead, dirs, named, some⟩ | ⟨absolute,
      none, -⟩ <;>
      rcases (paths.spellable agrees proper inB).cases with ⟨lead', dirs', named',
        some'⟩ | ⟨absolute', none', -⟩
    · obtain ⟨n, has⟩ := agrees.has inA
      obtain ⟨m, first⟩ := has.above named.start
      have drive := paths.drive agrees proper inA named first
      rw [same] at first
      have drive' := paths.drive agrees proper inB named' first
      rw [named.lead_iff, named'.lead_iff, ← Bool.eq_iff_iff]
      exact Bool.not_inj (Bool.eq_iff_iff.mpr (by simpa using drive.symm.trans drive'))
    · exact absurd (same.trans none') some
    · exact absurd (same.symm.trans none) some'
    · exact iff_of_true absolute absolute'
  files a inA file b inB start := by
    obtain ⟨n, has⟩ := agrees.has inA
    rcases (paths.spellable agrees proper inA).cases with ⟨lead, dirs, named, -⟩ | ⟨-, -, all⟩
    · have own := ((named.path_iff agrees proper has).mp (paths a inA n has)).2 file
      rcases (paths.spellable agrees proper inB).cases with ⟨lead', dirs', named', -⟩ | ⟨-, -, all⟩
      · obtain ⟨m, has'⟩ := agrees.has inB
        have straight := ((named'.path_iff agrees proper has').mp (paths b inB m has')).1
        rw [named.text_file file, named'.text] at start
        obtain ⟨-, below⟩ :=
          dirPath_prefix (named.key_names file) named'.names (.inr (rowKey_ne_nil a)) named'.some
          named'.fname start
        exact own (straight.slashed n (rowKey a) has (rowKey_ne_nil a) below)
      · obtain ⟨c, inside⟩ := List.exists_mem_of_ne_nil _ file
        have same := all c (start.subset (by simp [rowText, inside]))
        exact named.fname (same ▸ inside)
    · obtain ⟨c, inside⟩ := List.exists_mem_of_ne_nil _ file
      have same := all c (List.mem_append_right _ inside)
      exact (proper a inA).fname (same ▸ inside)
  kept row inside := by
    obtain ⟨n, has⟩ := agrees.has inside
    rcases (paths.spellable agrees proper inside).cases with ⟨lead, dirs, named, -⟩ | ⟨absolute, -, all⟩
    · have own := ((named.path_iff agrees proper has).mp (paths row inside n has)).2
      refine ⟨fun file => (agrees.kept has (rowKey_ne_nil row)).mpr ?_, fun relative => ?_⟩
      · have type := own file
        rw [Slashed, not_or, not_not] at type
        rw [type.1]
        exact NodeType.noConfusion
      · obtain ⟨m, first⟩ := has.above named.start
        have drive := paths.drive agrees proper inside named first
        rw [ne_eq, named.lead_iff, Bool.not_eq_true] at relative
        refine (agrees.kept first (List.cons_ne_nil _ _)).mpr ?_
        rw [drive.mpr relative]
        exact NodeType.noConfusion
    · refine ⟨fun file => ?_, fun relative => absurd absolute relative⟩
      obtain ⟨c, inner⟩ := List.exists_mem_of_ne_nil _ file
      have same := all c (List.mem_append_right _ inner)
      exact absurd (same ▸ inner) (proper row inside).fname

/-! ## Rows that are spelled right -/

variable (spelled : Spelled rows)

include proper spelled in
/-- What goes through a name of a row has names too, and starts where the row starts. -/
theorem Spelled.sibling {row r : CatalogRow} (inside : row ∈ rows) {lead : Bool} {dirs : List Name}
    (named : Named row lead dirs) (first : firstName (rowText row) ≠ []) (inR : r ∈ rows)
    {k : List Name} (nonempty : k ≠ []) (start : k <+: rowKey row) (startR : k <+: rowKey r) :
    ∃ dirs', Named r lead dirs' := by
  have head {key : List Name} (begins : k <+: key) : key.head? = k.head? := by
    obtain ⟨rest, rfl⟩ := begins
    exact List.head?_append_of_ne_nil _ nonempty
  have heads : (rowKey r).head? = some (firstName (rowText row)) :=
    (head startR).trans ((head start).symm.trans named.head)
  cases (spellable_iff (proper r inR)).mpr (spelled.slashes r inR) with
  | @named lead' dirs' named' first' =>
      rw [named'.head, Option.some_inj] at heads
      have same := spelled.drives r inR row inside heads
      rw [named.lead_iff, named'.lead_iff, ← Bool.eq_iff_iff] at same
      exact ⟨dirs', same ▸ named'⟩
  | top dir path key =>
      rw [key, List.head?_cons, Option.some_inj] at heads
      exact absurd heads.symm first
  | slashes n dir path key =>
      rw [key, List.head?_cons, Option.some_inj] at heads
      have noSep := named.noSep (named.start.subset (List.mem_singleton_self _))
      rw [← heads] at noSep
      exact absurd (List.mem_replicate.mpr ⟨Nat.succ_ne_zero n, rfl⟩) noSep

include agrees proper spelled in
theorem Spelled.drive {row : CatalogRow} (inside : row ∈ rows) {lead : Bool} {dirs : List Name}
    (named : Named row lead dirs) (first : firstName (rowText row) ≠ []) {m : ℕ}
    (has : HasKey root m [firstName (rowText row)]) : (root.node m).type = .dirNls ↔ lead = false := by
  have nonempty : [firstName (rowText row)] ≠ [] := List.cons_ne_nil _ _
  rcases agrees.type has nonempty with none | ⟨r, inR, own, type⟩ | ⟨r, inR, start, -, type⟩
  · rw [none]
    refine iff_of_false NodeType.noConfusion fun relative => ?_
    have kept := (spelled.kept row inside).2
    rw [ne_eq, named.lead_iff, relative] at kept
    exact (agrees.kept has nonempty).mp (kept Bool.noConfusion) none
  · obtain ⟨dirs', named'⟩ := spelled.sibling proper inside named first inR nonempty named.start
      (own ▸ List.prefix_refl _)
    rw [type, rowType]
    by_cases dir : r.fname = []
    · rw [if_pos dir, ← Bool.not_eq_true, ← named'.lead_iff]
      split
      case isTrue absolute => exact iff_of_false NodeType.noConfusion (not_not.mpr absolute)
      case isFalse relative => exact iff_of_true rfl relative
    · rw [if_neg dir]
      have key := named'.file dir
      rw [own] at key
      have none : dirs' = [] :=
        (List.append_inj' (show [] ++ [_] = dirs' ++ [r.fname] from key) rfl).1.symm
      rw [named'.some.resolve_right (not_not.mpr none)]
      exact iff_of_false NodeType.noConfusion Bool.noConfusion
  · obtain ⟨dirs', named'⟩ := spelled.sibling proper inside named first inR nonempty named.start start
    rw [type, wayType, ← Bool.not_eq_true, ← named'.lead_iff]
    split
    case isTrue relative => exact iff_of_true rfl relative.2
    case isFalse absolute =>
      refine iff_of_false NodeType.noConfusion fun relative => ?_
      exact absolute ⟨rfl, relative⟩

include agrees proper spelled in
/-- No file is on the way of a row. -/
theorem Spelled.way {row : CatalogRow} (inside : row ∈ rows) {lead : Bool} {dirs : List Name}
    (named : Named row lead dirs) (first : firstName (rowText row) ≠ []) {m : ℕ} {k : List Name}
    (has : HasKey root m k) (nonempty : k ≠ []) (start : k <+: dirs) : (root.node m).type ≠ .file := by
  have below : k <+: rowKey row := by
    by_cases dir : row.fname = []
    · rwa [(named.dir dir).1]
    · rw [named.file dir]
      exact start.trans (List.prefix_append _ _)
  intro file
  rcases agrees.type has nonempty with none | ⟨r, inR, own, type⟩ | ⟨r, -, -, -, type⟩
  · rw [file] at none
    cases none
  · obtain ⟨dirs', named'⟩ :=
      spelled.sibling proper inside named first inR nonempty below (own ▸ List.prefix_refl _)
    have filed : r.fname ≠ [] := by
      intro dir
      rw [file, rowType, if_pos dir] at type
      split at type <;> cases type
    refine spelled.files r inR filed row inside ?_
    rw [named'.text_file filed, own, named.text]
    exact (dirPath_mono lead start).trans (List.prefix_append _ _)
  · rw [file, wayType] at type
    split at type <;> cases type

include agrees proper spelled in
/-- The node of a file is one, and has no children. -/
theorem Spelled.file {row : CatalogRow} (inside : row ∈ rows) {lead : Bool} {dirs : List Name}
    (named : Named row lead dirs) (first : firstName (rowText row) ≠ []) (file : row.fname ≠ []) {n : ℕ}
    (has : HasKey root n (rowKey row)) : ¬ Slashed (root.node n) := by
  have nonempty := rowKey_ne_nil row
  have alone {r : CatalogRow} (inR : r ∈ rows) (start : rowKey row <+: rowKey r)
      (more : rowKey row ≠ rowKey r ∨ r.fname = []) : False := by
    obtain ⟨dirs', named'⟩ :=
      spelled.sibling proper inside named first inR nonempty (List.prefix_refl _) start
    exact spelled.files row inside file r inR (named.text_below file named' start more)
  rw [Slashed, not_or, not_not]
  constructor
  · rcases agrees.type has nonempty with none | ⟨r, inR, own, type⟩ | ⟨r, inR, start, other, type⟩
    · exact absurd none ((agrees.kept has nonempty).mp ((spelled.kept row inside).1 file))
    · rw [type, rowType]
      exact if_neg fun dir => alone inR (own ▸ List.prefix_refl _) (.inr dir)
    · exact (alone inR start (.inl other.symm)).elim
  · rintro ⟨-, children⟩
    obtain ⟨r, inR, start, other⟩ := agrees.below has children
    exact alone inR start (.inl other)

include proper spelled in
/-- A directory of separators alone has its name for itself. -/
theorem Spelled.slashes_alone {n : ℕ} {r : CatalogRow} (inR : r ∈ rows)
    (start : [List.replicate (n + 1) sep] <+: rowKey r) :
    rowKey r = [List.replicate (n + 1) sep] ∧ rowType r = .dir := by
  have inside := start.subset (List.mem_singleton_self _)
  cases (spellable_iff (proper r inR)).mpr (spelled.slashes r inR) with
  | named named => exact absurd (List.mem_replicate.mpr ⟨Nat.succ_ne_zero n, rfl⟩) (named.noSep inside)
  | top dir path key =>
      rw [key, List.mem_singleton] at inside
      cases inside
  | slashes m dir path key =>
      rw [key, List.mem_singleton] at inside
      refine ⟨by rw [key, inside], ?_⟩
      rw [rowType, if_pos dir, path]
      rfl

include agrees proper spelled in
theorem Spelled.nodes_spell : Paths rows root := by
  intro row inside n has
  have enough := has.isNode agrees.shaped
  cases (spellable_iff (proper row inside)).mpr (spelled.slashes row inside) with
  | @named lead dirs named missing =>
      have first := named.first_ne_nil missing
      refine (named.path_iff agrees proper has).mpr
        ⟨⟨fun m k has' some start => ?_, fun d head => ?_⟩, ?_⟩
      · exact .inl (spelled.way agrees proper inside named first has' some start)
      · have same : some d = some (firstName (rowText row)) := by
          rw [← named.head]
          cases dirs with
          | nil => cases head
          | cons e dirs =>
              by_cases dir : row.fname = []
              · rw [(named.dir dir).1]
                exact head.symm
              · rw [named.file dir]
                exact head.symm
        rw [Option.some_inj] at same
        rw [same]
        exact ⟨first, fun m has' => spelled.drive agrees proper inside named first has'⟩
      · exact fun file => spelled.file agrees proper inside named first file has
  | top dir path key =>
      rw [key] at has
      obtain ⟨fname, full⟩ := fullPath_single agrees.shaped agrees.topped has enough
      rw [full, addName_top fname (agrees.unnamed proper n [] has).2, rowText, path, dir]
      rfl
  | slashes l dir path key =>
      have text : rowText row = List.replicate (l + 1) sep ++ [sep, sep] := by
        rw [rowText, path, dir, List.append_nil, replicate_snoc]
      rw [key] at has
      rw [text, doubled_path_iff agrees proper has]
      have type : (root.node n).type = .none ∨ (root.node n).type = .dir := by
        rcases agrees.type has (List.cons_ne_nil _ _)
          with none | ⟨r, inR, own, type⟩ | ⟨r, inR, start, other, -⟩
        · exact .inl none
        · exact .inr (type.trans (spelled.slashes_alone proper inR (by rw [own])).2)
        · exact absurd (spelled.slashes_alone proper inR start).1 other
      refine ⟨List.replicate_succ.symm.trans List.replicate_succ', List.cons_ne_nil _ _, ?_, .inl ?_⟩
      · rcases type with eq | eq <;> rw [eq] <;> exact NodeType.noConfusion
      · rcases type with eq | eq <;> rw [eq] <;> exact NodeType.noConfusion

end Nodes

/-! ## The law -/

/-- A row keeps its node in the tree of all rows. -/
theorem build_hasKey {rows before : List CatalogRow} {row : CatalogRow} {after : List CatalogRow}
    (split : rows = before ++ row :: after) :
    HasKey (build all noAutoParent rows).root (nodeOf all noAutoParent before row) (rowKey row) := by
  subst split
  induction after using List.reverseRecOn with
  | nil =>
      rw [build, List.foldl_append]
      exact (insertTreeHandler_agrees (build_agrees all noAutoParent before) row).2.2
  | append_singleton after last ih =>
      have agrees := build_agrees all noAutoParent (before ++ row :: after)
      have later := (insertTreeHandler_agrees agrees last).2.1
      rw [← List.cons_append, ← List.append_assoc, build, List.foldl_append]
      exact ih.mono agrees.shaped later

/-- The law holds of the names that the tree can spell, and of no others. -/
theorem restore_path_law {rows : List CatalogRow} (proper : ∀ row ∈ rows, ProperRow row) :
    PathLaw all noAutoParent rows ↔ Spelled rows := by
  have agrees := build_agrees all noAutoParent rows
  constructor
  · intro law
    refine Paths.spelled agrees proper fun row inside n has => ?_
    obtain ⟨before, after, split⟩ := List.append_of_mem inside
    have own := build_hasKey all noAutoParent split
    rw [has.unique_node agrees.shaped own]
    exact (treeGetpath_iff agrees.shaped agrees.topped own (own.isNode agrees.shaped) _).mp
      (law.path before row after split)
  · intro spelled
    have paths := spelled.nodes_spell agrees proper
    have path {before : List CatalogRow} {row : CatalogRow} {after : List CatalogRow}
        (split : rows = before ++ row :: after) : row ∈ rows ∧
          fullPath (build all noAutoParent rows).root (build all noAutoParent rows).root.nodes.length
            (nodeOf all noAutoParent before row) = rowText row := by
      have inside : row ∈ rows := by simp [split]
      exact ⟨inside, paths row inside _ (build_hasKey all noAutoParent split)⟩
    constructor
    · intro before a mid b after split
      have first : rows = before ++ a :: (mid ++ b :: after) := by simp [split]
      obtain ⟨inA, pathA⟩ := path first
      obtain ⟨inB, pathB⟩ := path split
      constructor
      · intro same
        rw [← pathA, ← pathB, same]
      · intro same
        have has := build_hasKey all noAutoParent first
        rw [key_of_text (proper a inA) (proper b inB) same] at has
        exact has.unique_node agrees.shaped (build_hasKey all noAutoParent split)
    · intro before row after split
      have own := build_hasKey all noAutoParent split
      exact (treeGetpath_iff agrees.shaped agrees.topped own (own.isNode agrees.shaped) _).mpr
        (path split).2

/-- A directory below one without a name, a file in it, and a file of a drive. -/
def nestedRows : List CatalogRow :=
  [⟨[47, 97, 47, 47, 98, 47], [], 1, 1, 0, 1, false, 0⟩,
    ⟨[47, 97, 47, 47, 98, 47], [102], 2, 1, 0, 1, false, 0⟩,
    ⟨[99, 58, 47], [103], 3, 1, 0, 1, false, 0⟩]

theorem nestedRows_proper : ∀ row ∈ nestedRows, ProperRow row := by
  have parts : ∀ row ∈ nestedRows, row.path.getLast? = some sep ∧ sep ∉ row.fname ∧
      (row.isLnk = true → row.fname ≠ []) := by decide
  intro row inside
  obtain ⟨path, fname, link⟩ := parts row inside
  exact ⟨path, fname, link⟩

theorem nestedRows_spelled : Spelled nestedRows where
  slashes := by
    have left : ∀ row ∈ nestedRows, ¬ [sep, sep] <+: rowText row ∧
        (row.fname = [] → ¬ [sep, sep] <:+ row.path) := by decide
    exact fun row inside => .inl (left row inside)
  drives := by decide
  files := by decide
  kept := by decide

theorem restore_path_nested : PathLaw false false nestedRows :=
  (restore_path_law false false nestedRows_proper).mpr nestedRows_spelled

/-- Two slashes at the start are one afterwards, and a file with an entry below its name spells
another file. -/
theorem slashes_lost :
    ¬ PathLaw false false [⟨[47, 47, 97, 47], [102], 1, 1, 0, 1, false, 0⟩] ∧
      ¬ PathLaw false false [⟨[47, 100, 47, 97, 47], [98], 1, 1, 0, 1, false, 0⟩,
        ⟨[47, 100, 47], [97], 2, 1, 0, 1, false, 0⟩] := by
  constructor
  · intro law
    have path := law.path [] _ [] rfl 10 (by decide)
    revert path
    decide
  · intro law
    have path := law.path [] _ _ rfl 10 (by decide)
    revert path
    decide

end Bacula.UaTree
