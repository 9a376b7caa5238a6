import Bacula.Cats.BvfsPath

/-! The path hierarchy of the catalog browser, `cats/bvfs.c`: `update_path_hierarchy_cache` gives
every path of a job its row in PathHierarchy, and climbs from it until a path is met that has one.
The rows of PathVisibility for the parents are left out. -/
namespace Bacula.Bvfs

abbrev PathRow := ℕ × Path

/-- The catalog before the first run: the rows of Path, the paths of the files of each job, the
next key of the table and the order of texts. -/
structure Database where
  path : List PathRow
  files : ℕ → List ℕ
  nextKey : List ℕ → ℕ
  orderByPath : List PathRow → List PathRow
  ids : (path.map Prod.fst).Nodup
  texts : (path.map Prod.snd).Nodup
  slashed : ∀ row ∈ path, Slashed row.2
  known : ∀ job, ∀ id ∈ files job, id ∈ path.map Prod.fst
  fresh : ∀ keys, nextKey keys ∉ keys
  perm : ∀ rows, (orderByPath rows).Perm rows

/-- The tables, and the path that the connection to the catalog has seen last. -/
structure Catalog where
  path : List PathRow
  hierarchy : List (ℕ × ℕ)
  hasCache : List ℕ
  cachedPath : Option PathRow
  deriving DecidableEq

def Catalog.start (db : Database) : Catalog := ⟨db.path, [], [], none⟩

/-- The keys of PathHierarchy. -/
def Catalog.built (s : Catalog) : List ℕ := s.hierarchy.map Prod.fst

/-- The end of `bdb_create_path_record`. -/
def Catalog.noteCached (s : Catalog) (row : PathRow) : Catalog :=
  if s.cachedPath.map Prod.fst = some row.1 then s else { s with cachedPath := some row }

/-- `SELECT PathId FROM Path`, or the insertion of the path. -/
def selectPath (db : Database) (path : Path) (s : Catalog) : ℕ × Catalog :=
  match s.path.find? fun row => row.2 = path with
  | some row => (row.1, s.noteCached (row.1, path))
  | none =>
      let id := db.nextKey (s.path.map Prod.fst)
      (id, { s with path := s.path ++ [(id, path)] }.noteCached (id, path))

/-- `bdb_create_path_record`. -/
def createPathRecord (db : Database) (path : Path) (s : Catalog) : ℕ × Catalog :=
  match s.cachedPath with
  | some row => if row.2 = path then (row.1, s) else selectPath db path s
  | none => selectPath db path s

/-- `build_path_hierarchy`, with the ids of the `pathid_cache`. `none` means that the loop is not
at its end after so many rounds. -/
def buildPathHierarchy (db : Database) :
    ℕ → ℕ → Path → List ℕ × Catalog → Option (List ℕ × Catalog)
  | 0, _, _, _ => none
  | rounds + 1, pathid, path, (cache, s) =>
      if path = [] then some (cache, s)
      else if pathid ∈ cache then some (cache, s)
      else if pathid ∈ s.built then some (pathid :: cache, s)
      else
        let (parent, s) := createPathRecord db (bvfsParentDir path) s
        buildPathHierarchy db rounds parent (bvfsParentDir path)
          (pathid :: cache, { s with hierarchy := s.hierarchy ++ [(pathid, parent)] })

/-- The loop over the result of the query; a path is climbed in not more rounds than it has
bytes, and one. -/
def buildPaths (db : Database) : List PathRow → List ℕ × Catalog → Option (List ℕ × Catalog)
  | [], state => some state
  | row :: rest, state =>
      match buildPathHierarchy db (row.2.length + 1) row.1 row.2 state with
      | none => none
      | some state => buildPaths db rest state

/-- The paths of a job without a row in PathHierarchy. -/
def newPaths (used : List ℕ) (s : Catalog) : List PathRow :=
  s.path.filter fun row => row.1 ∈ used ∧ row.1 ∉ s.built

/-- `update_path_hierarchy_cache`. -/
def updatePathHierarchyCache (db : Database) (job : ℕ) :
    List ℕ × Catalog → Option (List ℕ × Catalog)
  | (cache, s) =>
      if job ∈ s.hasCache then some (cache, s)
      else match buildPaths db (db.orderByPath (newPaths (db.files job) s)) (cache, s) with
        | none => none
        | some (cache, s) => some (cache, { s with hasCache := job :: s.hasCache })

/-- The runs for the jobs of a list share a `pathid_cache`. -/
inductive Call where
  | newCache
  | update (job : ℕ)

def Call.run (db : Database) : Call → List ℕ × Catalog → Option (List ℕ × Catalog)
  | .newCache, (_, s) => some ([], s)
  | .update job, state => updatePathHierarchyCache db job state

def run (db : Database) : List Call → List ℕ × Catalog → Option (List ℕ × Catalog)
  | [], state => some state
  | call :: rest, state => (call.run db state).bind (run db rest)

/-- The paths of the jobs that were run. -/
def seen (db : Database) (calls : List Call) : Set ℕ :=
  { id | ∃ job, Call.update job ∈ calls ∧ id ∈ db.files job }

def Catalog.Parent (s : Catalog) (id parent : ℕ) : Prop := (id, parent) ∈ s.hierarchy

/-- Every path that was seen has one parent, the row of its parent directory, and reaches the
root. -/
structure HierarchyLaw (s : Catalog) (seen : Set ℕ) : Prop where
  mapped : ∀ id ∈ seen, ∀ path, (id, path) ∈ s.path → path ≠ [] → id ∈ s.built
  single : s.built.Nodup
  parents : ∀ row ∈ s.hierarchy, ∃ path, path ≠ [] ∧ (row.1, path) ∈ s.path ∧
    (row.2, parentDirectory path) ∈ s.path
  acyclic : ∀ id, ¬ Relation.TransGen s.Parent id id
  reaches : ∀ id ∈ s.built, ∃ root, (root, []) ∈ s.path ∧ Relation.ReflTransGen s.Parent id root

section Climb

/-- PathHierarchy follows `bvfs_parent_dir`, and only the path of a climb may be without a row
although it is a parent. All paths that have a row are of a kind. -/
structure Chains (kind : Path → Prop) (hole : Option ℕ) (cache : List ℕ) (s : Catalog) : Prop where
  ids : (s.path.map Prod.fst).Nodup
  texts : (s.path.map Prod.snd).Nodup
  single : s.built.Nodup
  rows : ∀ row ∈ s.hierarchy, ∃ path, path ≠ [] ∧ kind path ∧ (row.1, path) ∈ s.path ∧
    (row.2, bvfsParentDir path) ∈ s.path
  closed : ∀ row ∈ s.hierarchy, ∀ path, (row.2, path) ∈ s.path → path ≠ [] →
    row.2 ∈ s.built ∨ hole = some row.2
  cached : ∀ id ∈ cache, id ∈ s.built
  cachedPath : ∀ row, s.cachedPath = some row → row ∈ s.path

variable {db : Database} {kind : Path → Prop} {hole : Option ℕ} {cache : List ℕ} {s : Catalog}

/-- An id has one path. -/
theorem path_unique {rows : List PathRow} (ids : (rows.map Prod.fst).Nodup) {id : ℕ} {p q : Path}
    (first : (id, p) ∈ rows) (second : (id, q) ∈ rows) : p = q :=
  congrArg Prod.snd (List.inj_on_of_nodup_map ids first second rfl)

/-- A path has one id. -/
theorem id_unique {rows : List PathRow} (texts : (rows.map Prod.snd).Nodup) {i j : ℕ} {p : Path}
    (first : (i, p) ∈ rows) (second : (j, p) ∈ rows) : i = j :=
  congrArg Prod.fst (List.inj_on_of_nodup_map texts first second rfl)

theorem nodup_snoc {α : Type} {rows : List α} {a : α} (nodup : rows.Nodup) (new : a ∉ rows) :
    (rows ++ [a]).Nodup := by
  rw [← List.concat_eq_append]
  exact nodup.concat new

/-- Rows are only added. -/
structure Extends (s t : Catalog) : Prop where
  path : ∀ row ∈ s.path, row ∈ t.path
  hierarchy : ∀ row ∈ s.hierarchy, row ∈ t.hierarchy
  hasCache : t.hasCache = s.hasCache

theorem Extends.refl (s : Catalog) : Extends s s := ⟨fun _ h => h, fun _ h => h, rfl⟩

theorem Extends.trans {s t u : Catalog} (first : Extends s t) (second : Extends t u) :
    Extends s u :=
  ⟨fun row h => second.path row (first.path row h),
    fun row h => second.hierarchy row (first.hierarchy row h),
    second.hasCache.trans first.hasCache⟩

theorem Extends.built {s t : Catalog} (extends_ : Extends s t) {id : ℕ} (member : id ∈ s.built) :
    id ∈ t.built := by
  obtain ⟨row, here, rfl⟩ := List.mem_map.mp member
  exact List.mem_map_of_mem (extends_.hierarchy row here)

/-- Another catalog with the same hierarchy and more paths has the same chains. -/
theorem Chains.extend {t : Catalog} (chains : Chains kind hole cache s) (extends_ : Extends s t)
    (hierarchy : t.hierarchy = s.hierarchy) (ids : (t.path.map Prod.fst).Nodup)
    (texts : (t.path.map Prod.snd).Nodup)
    (cachedPath : ∀ row, t.cachedPath = some row → row ∈ t.path) : Chains kind hole cache t := by
  have built : t.built = s.built := congrArg (List.map Prod.fst) hierarchy
  refine ⟨ids, texts, built ▸ chains.single, ?_, ?_, ?_, cachedPath⟩
  · intro row member
    rw [hierarchy] at member
    obtain ⟨path, nonempty, has, child, parent⟩ := chains.rows row member
    exact ⟨path, nonempty, has, extends_.path _ child, extends_.path _ parent⟩
  · intro row member path here nonempty
    rw [hierarchy] at member
    obtain ⟨below, -, -, -, parent⟩ := chains.rows row member
    rw [built]
    refine chains.closed row member path ?_ nonempty
    rw [path_unique ids here (extends_.path _ parent)]
    exact parent
  · intro id member
    rw [built]
    exact chains.cached id member

theorem noteCached_eq (s : Catalog) (row : PathRow) :
    ∃ cachedPath, s.noteCached row = { s with cachedPath } ∧
      (cachedPath = s.cachedPath ∨ cachedPath = some row) := by
  unfold Catalog.noteCached
  split
  · exact ⟨_, rfl, .inl rfl⟩
  · exact ⟨_, rfl, .inr rfl⟩

theorem Chains.noteCached (chains : Chains kind hole cache s) {row : PathRow}
    (here : row ∈ s.path) : Chains kind hole cache (s.noteCached row) := by
  obtain ⟨cachedPath, eq, kept | new⟩ := noteCached_eq s row
  · rw [eq, kept]
    exact chains
  · rw [eq, new]
    refine ⟨chains.ids, chains.texts, chains.single, chains.rows, chains.closed, chains.cached, ?_⟩
    intro other same
    rw [← Option.some.inj same]
    exact here

theorem noteCached_extends (s : Catalog) (row : PathRow) : Extends s (s.noteCached row) := by
  obtain ⟨cachedPath, eq, -⟩ := noteCached_eq s row
  rw [eq]
  exact ⟨fun _ h => h, fun _ h => h, rfl⟩

/-- What `bdb_create_path_record` gives: the row of the path, which is there afterwards. -/
structure Creates (kind : Path → Prop) (hole : Option ℕ) (cache : List ℕ) (path : Path)
    (s : Catalog) (result : ℕ × Catalog) : Prop where
  chains : Chains kind hole cache result.2
  extends_ : Extends s result.2
  hierarchy : result.2.hierarchy = s.hierarchy
  row : (result.1, path) ∈ result.2.path

theorem noteCached_hierarchy (s : Catalog) (row : PathRow) :
    (s.noteCached row).hierarchy = s.hierarchy := by
  obtain ⟨cachedPath, eq, -⟩ := noteCached_eq s row
  rw [eq]

theorem selectPath_creates (chains : Chains kind hole cache s) (path : Path) :
    Creates kind hole cache path s (selectPath db path s) := by
  unfold selectPath
  cases found : s.path.find? fun row => row.2 = path with
  | some row =>
      have member := List.mem_of_find?_eq_some found
      have text : row.2 = path := by simpa using List.find?_some found
      have here : (row.1, path) ∈ s.path := text ▸ member
      have extends_ := noteCached_extends s (row.1, path)
      exact ⟨chains.noteCached here, extends_, noteCached_hierarchy _ _, extends_.path _ here⟩
  | none =>
      have absent : ∀ row ∈ s.path, row.2 ≠ path := by simpa using List.find?_eq_none.mp found
      have fresh := db.fresh (s.path.map Prod.fst)
      generalize db.nextKey (s.path.map Prod.fst) = id at fresh
      let added : Catalog := { s with path := s.path ++ [(id, path)] }
      have more : Extends s added := ⟨fun row h => List.mem_append_left _ h, fun _ h => h, rfl⟩
      have here : (id, path) ∈ added.path := List.mem_append_right _ List.mem_cons_self
      have ids : (added.path.map Prod.fst).Nodup := by
        rw [List.map_append]
        exact nodup_snoc chains.ids fresh
      have texts : (added.path.map Prod.snd).Nodup := by
        rw [List.map_append]
        refine nodup_snoc chains.texts fun member => ?_
        obtain ⟨row, there, text⟩ := List.mem_map.mp member
        exact absent row there text
      have grown : Chains kind hole cache added := chains.extend more rfl ids texts
        fun row cached => more.path row (chains.cachedPath row cached)
      have extends_ := noteCached_extends added (id, path)
      exact ⟨grown.noteCached here, more.trans extends_, noteCached_hierarchy _ _,
        extends_.path _ here⟩

variable (db) in
theorem createPathRecord_creates (chains : Chains kind hole cache s) (path : Path) :
    Creates kind hole cache path s (createPathRecord db path s) := by
  unfold createPathRecord
  cases cached : s.cachedPath with
  | none => exact selectPath_creates chains path
  | some row =>
      by_cases text : row.2 = path
      · simp only [text, if_true]
        exact ⟨chains, .refl s, rfl, text ▸ chains.cachedPath row cached⟩
      · simp only [text, if_false]
        exact selectPath_creates chains path

/-- A path that has a row leaves nothing open. -/
theorem Chains.close {id : ℕ} (chains : Chains kind (some id) cache s)
    (done : ∀ path, (id, path) ∈ s.path → path ≠ [] → id ∈ s.built) :
    Chains kind none cache s := by
  refine ⟨chains.ids, chains.texts, chains.single, chains.rows, ?_, chains.cached,
    chains.cachedPath⟩
  intro row member path here nonempty
  rcases chains.closed row member path here nonempty with built | same
  · exact .inl built
  · obtain rfl := Option.some.inj same
    exact .inl (done path here nonempty)

theorem Chains.remember (chains : Chains kind hole cache s) {id : ℕ} (built : id ∈ s.built) :
    Chains kind hole (id :: cache) s := by
  refine ⟨chains.ids, chains.texts, chains.single, chains.rows, chains.closed, ?_,
    chains.cachedPath⟩
  intro other member
  rcases List.mem_cons.mp member with rfl | member
  · exact built
  · exact chains.cached other member

/-- A row for the open path: its parent is open now. -/
theorem Chains.insert {id parent : ℕ} {path : Path} (chains : Chains kind (some id) cache s)
    (nonempty : path ≠ []) (has : kind path) (child : (id, path) ∈ s.path)
    (above : (parent, bvfsParentDir path) ∈ s.path) (new : id ∉ s.built) :
    Chains kind (some parent) (id :: cache)
      { s with hierarchy := s.hierarchy ++ [(id, parent)] } := by
  have built : Catalog.built { s with hierarchy := s.hierarchy ++ [(id, parent)] } =
      s.built ++ [id] := by
    simp only [Catalog.built, List.map_append, List.map_cons, List.map_nil]
  refine ⟨chains.ids, chains.texts, built ▸ nodup_snoc chains.single new, ?_, ?_, ?_,
    chains.cachedPath⟩
  · intro row member
    rcases List.mem_append.mp member with old | last
    · exact chains.rows row old
    · obtain rfl := List.mem_singleton.mp last
      exact ⟨path, nonempty, has, child, above⟩
  · intro row member path here nonempty
    rw [built]
    rcases List.mem_append.mp member with old | last
    · rcases chains.closed row old path here nonempty with there | same
      · exact .inl (List.mem_append_left _ there)
      · obtain rfl := Option.some.inj same
        exact .inl (List.mem_append_right _ List.mem_cons_self)
    · obtain rfl := List.mem_singleton.mp last
      exact .inr rfl
  · intro other member
    rw [built]
    rcases List.mem_cons.mp member with rfl | member
    · exact List.mem_append_right _ List.mem_cons_self
    · exact List.mem_append_left _ (chains.cached other member)

variable (db) in
/-- The climb, by induction on the rounds: a path gets its row, and so do the paths above it up
to one that has it. -/
theorem buildPathHierarchy_spec (closed : ∀ path, kind path → kind (bvfsParentDir path))
    (pathid : ℕ) {rounds : ℕ} {path : Path} (chains : Chains kind (some pathid) cache s)
    (has : kind path) (here : (pathid, path) ∈ s.path)
    (enough : path.length < rounds ∨ pathid ∈ cache ∧ 0 < rounds) :
    ∃ cache' t, buildPathHierarchy db rounds pathid path (cache, s) = some (cache', t) ∧
      Chains kind none cache' t ∧ Extends s t ∧ (path ≠ [] → pathid ∈ t.built) := by
  induction rounds generalizing pathid path cache s with
  | zero => omega
  | succ rounds ih =>
      unfold buildPathHierarchy
      by_cases empty : path = []
      · rw [if_pos empty]
        refine ⟨_, _, rfl, chains.close fun other there nonempty => ?_, .refl s, absurd empty⟩
        exact absurd ((path_unique chains.ids there here).trans empty) nonempty
      · rw [if_neg empty]
        by_cases known : pathid ∈ cache
        · have built := chains.cached pathid known
          rw [if_pos known]
          exact ⟨_, _, rfl, chains.close fun _ _ _ => built, .refl s, fun _ => built⟩
        · rw [if_neg known]
          by_cases built : pathid ∈ s.built
          · rw [if_pos built]
            exact ⟨_, _, rfl, (chains.remember built).close fun _ _ _ => built, .refl s,
              fun _ => built⟩
          · rw [if_neg built]
            have creates := createPathRecord_creates db chains (bvfsParentDir path)
            generalize createPathRecord db (bvfsParentDir path) s = result at creates
            obtain ⟨parent, s₁⟩ := result
            obtain ⟨chains₁, extends₁, hierarchy₁, above⟩ := creates
            have child := extends₁.path _ here
            have new : pathid ∉ s₁.built := by
              rw [Catalog.built, hierarchy₁]
              exact built
            have chains₂ := chains₁.insert empty has child above new
            have extends₂ : Extends s { s₁ with hierarchy := s₁.hierarchy ++ [(pathid, parent)] } :=
              ⟨extends₁.path, fun row member => List.mem_append_left _ (extends₁.hierarchy row member),
                extends₁.hasCache⟩
            have enough' : (bvfsParentDir path).length < rounds ∨
                parent ∈ pathid :: cache ∧ 0 < rounds := by
              have bytes := List.length_pos_of_ne_nil empty
              have bound : path.length < rounds + 1 := enough.resolve_right fun h => known h.1
              rcases bvfsParentDir_length path with shorter | ⟨same, -⟩
              · exact .inl (by omega)
              · rw [same] at above
                have self : parent = pathid := id_unique chains₁.texts above child
                exact .inr ⟨self ▸ List.mem_cons_self, by omega⟩
            obtain ⟨cache', t, run, done, more, -⟩ := ih _ chains₂ (closed path has) above enough'
            refine ⟨cache', t, run, done, extends₂.trans more, fun _ => more.built ?_⟩
            rw [Catalog.built, List.map_append]
            exact List.mem_append_right _ List.mem_cons_self

theorem Chains.opened {id : ℕ} (chains : Chains kind none cache s) :
    Chains kind (some id) cache s := by
  refine ⟨chains.ids, chains.texts, chains.single, chains.rows, ?_, chains.cached,
    chains.cachedPath⟩
  intro row member path here nonempty
  exact .inl ((chains.closed row member path here nonempty).resolve_right (by simp))

variable (db) in
theorem buildPaths_spec (closed : ∀ path, kind path → kind (bvfsParentDir path))
    {rows : List PathRow} (chains : Chains kind none cache s)
    (has : ∀ row ∈ rows, row ∈ s.path ∧ kind row.2) :
    ∃ cache' t, buildPaths db rows (cache, s) = some (cache', t) ∧ Chains kind none cache' t ∧
      Extends s t ∧ ∀ row ∈ rows, row.2 ≠ [] → row.1 ∈ t.built := by
  induction rows generalizing cache s with
  | nil => exact ⟨_, _, rfl, chains, .refl s, fun row member => absurd member List.not_mem_nil⟩
  | cons row rest ih =>
      obtain ⟨here, ofKind⟩ := has row List.mem_cons_self
      obtain ⟨cache₁, s₁, run₁, chains₁, extends₁, built₁⟩ :=
        buildPathHierarchy_spec db closed row.1 chains.opened ofKind here
          (.inl (Nat.lt_succ_self _))
      obtain ⟨cache₂, s₂, run₂, chains₂, extends₂, built₂⟩ := ih chains₁ fun other member =>
        ⟨extends₁.path _ (has other (List.mem_cons_of_mem _ member)).1,
          (has other (List.mem_cons_of_mem _ member)).2⟩
      refine ⟨cache₂, s₂, ?_, chains₂, extends₁.trans extends₂, fun other member nonempty => ?_⟩
      · rw [buildPaths, run₁]
        exact run₂
      · rcases List.mem_cons.mp member with rfl | member
        · exact extends₂.built (built₁ nonempty)
        · exact built₂ other member nonempty

end Climb

section Runs

variable {db : Database} {kind : Path → Prop}

/-- What the runs keep: the paths of every job that has its cache have their rows. -/
structure Kept (db : Database) (kind : Path → Prop) (state : List ℕ × Catalog) : Prop where
  chains : Chains kind none state.1 state.2
  known : ∀ row ∈ db.path, row ∈ state.2.path
  done : ∀ job ∈ state.2.hasCache, ∀ id ∈ db.files job, ∀ path, (id, path) ∈ state.2.path →
    path ≠ [] → id ∈ state.2.built

variable (db) in
theorem kept_start (kind : Path → Prop) : Kept db kind ([], .start db) where
  chains :=
    { ids := db.ids, texts := db.texts, single := List.nodup_nil
      rows := fun row member => absurd member List.not_mem_nil
      closed := fun row member => absurd member List.not_mem_nil
      cached := fun id member => absurd member List.not_mem_nil
      cachedPath := fun row cached => by cases cached }
  known row member := member
  done job member := absurd member List.not_mem_nil

/-- The path of a file is the one that it had in the beginning. -/
theorem Kept.file {state : List ℕ × Catalog} (kept : Kept db kind state) {job id : ℕ} {path : Path}
    (used : id ∈ db.files job) (here : (id, path) ∈ state.2.path) : (id, path) ∈ db.path := by
  obtain ⟨row, member, rfl⟩ := List.mem_map.mp (db.known job id used)
  rw [path_unique kept.chains.ids here (kept.known row member)]
  exact member

theorem Kept.update {state : List ℕ × Catalog} (kept : Kept db kind state) (job : ℕ)
    (closed : ∀ path, kind path → kind (bvfsParentDir path))
    (has : ∀ id ∈ db.files job, ∀ path, (id, path) ∈ db.path → kind path) :
    ∃ after, updatePathHierarchyCache db job state = some after ∧ Kept db kind after ∧
      job ∈ after.2.hasCache ∧ ∀ other ∈ state.2.hasCache, other ∈ after.2.hasCache := by
  obtain ⟨cache, s⟩ := state
  by_cases computed : job ∈ s.hasCache
  · simp only [updatePathHierarchyCache, computed, if_true]
    exact ⟨_, rfl, kept, computed, fun other member => member⟩
  · simp only [updatePathHierarchyCache, computed, if_false]
    have rows (row : PathRow) (member : row ∈ db.orderByPath (newPaths (db.files job) s)) :
        row ∈ s.path ∧ kind row.2 := by
      have selected := (db.perm _).mem_iff.mp member
      unfold newPaths at selected
      obtain ⟨here, used⟩ := List.mem_filter.mp selected
      have used := (decide_eq_true_iff.mp used).1
      exact ⟨here, has row.1 used row.2 (kept.file used here)⟩
    obtain ⟨cache', t, run, chains, extends_, built⟩ :=
      buildPaths_spec db closed kept.chains rows
    simp only [run]
    refine ⟨_, rfl, ⟨⟨chains.ids, chains.texts, chains.single, chains.rows, chains.closed,
      chains.cached, chains.cachedPath⟩, fun row member => extends_.path row (kept.known row member),
      ?_⟩, List.mem_cons_self, fun other member => List.mem_cons_of_mem _ ?_⟩
    · intro other member id used path here nonempty
      have old : (id, path) ∈ s.path := by
        obtain ⟨row, first, rfl⟩ := List.mem_map.mp (db.known other id used)
        rw [path_unique chains.ids here (extends_.path row (kept.known row first))]
        exact kept.known row first
      change id ∈ t.built
      rcases List.mem_cons.mp member with rfl | member
      · by_cases before : id ∈ s.built
        · exact extends_.built before
        · refine built (id, path) ((db.perm _).mem_iff.mpr ?_) nonempty
          exact List.mem_filter.mpr ⟨old, decide_eq_true ⟨used, before⟩⟩
      · rw [extends_.hasCache] at member
        exact extends_.built (kept.done other member id used path old nonempty)
    · rw [extends_.hasCache]
      exact member

/-- The runs end, and every job that was run has its cache. -/
theorem Kept.run {state : List ℕ × Catalog} (kept : Kept db kind state) (calls : List Call)
    (closed : ∀ path, kind path → kind (bvfsParentDir path))
    (has : ∀ id ∈ seen db calls, ∀ path, (id, path) ∈ db.path → kind path) :
    ∃ after, run db calls state = some after ∧ Kept db kind after ∧
      (∀ job, .update job ∈ calls → job ∈ after.2.hasCache) ∧
      ∀ job ∈ state.2.hasCache, job ∈ after.2.hasCache := by
  induction calls generalizing state with
  | nil => exact ⟨state, rfl, kept, fun job member => absurd member List.not_mem_nil, fun _ h => h⟩
  | cons call rest ih =>
      have later : ∀ id ∈ seen db rest, ∀ path, (id, path) ∈ db.path → kind path :=
        fun id ⟨job, member, used⟩ => has id ⟨job, List.mem_cons_of_mem _ member, used⟩
      cases call with
      | newCache =>
          have fresh : Kept db kind ([], state.2) :=
            ⟨⟨kept.chains.ids, kept.chains.texts, kept.chains.single, kept.chains.rows,
              kept.chains.closed, fun id member => absurd member List.not_mem_nil,
              kept.chains.cachedPath⟩, kept.known, kept.done⟩
          obtain ⟨after, run, keeps, updated, old⟩ := ih fresh later
          refine ⟨after, run, keeps, fun job member => updated job ?_, old⟩
          exact (List.mem_cons.mp member).resolve_left Call.noConfusion
      | update job =>
          obtain ⟨next, step, keptNext, here, old⟩ := kept.update job closed
            fun id used => has id ⟨job, List.mem_cons_self, used⟩
          obtain ⟨after, run, keeps, updated, older⟩ := ih keptNext later
          refine ⟨after, ?_, keeps, fun other member => ?_, fun other member =>
            older other (old other member)⟩
          · rw [Bvfs.run, Call.run, step]
            exact run
          · rcases List.mem_cons.mp member with same | member
            · cases same
              exact older job here
            · exact updated other member

end Runs

section Law

variable {db : Database} {kind : Path → Prop} {cache : List ℕ} {s : Catalog}

theorem parentDirectory_length {path : Path} (nonempty : path ≠ []) :
    (parentDirectory path).length < path.length := by
  have upto := uptoSeparator_length path.dropLast
  have pos := List.length_pos_of_ne_nil nonempty
  rw [List.length_dropLast] at upto
  unfold parentDirectory
  omega

/-- A parent has a shorter path. -/
theorem parent_shorter (ids : (s.path.map Prod.fst).Nodup)
    (parents : ∀ row ∈ s.hierarchy, ∃ path, path ≠ [] ∧ (row.1, path) ∈ s.path ∧
      (row.2, parentDirectory path) ∈ s.path) {id above : ℕ}
    (chain : Relation.TransGen s.Parent id above) :
    ∃ p q, (id, p) ∈ s.path ∧ (above, q) ∈ s.path ∧ q.length < p.length := by
  induction chain with
  | single step =>
      obtain ⟨path, nonempty, child, parent⟩ := parents _ step
      exact ⟨_, _, child, parent, parentDirectory_length nonempty⟩
  | tail _ step ih =>
      obtain ⟨p, q, here, middle, shorter⟩ := ih
      obtain ⟨path, nonempty, child, parent⟩ := parents _ step
      have less := parentDirectory_length nonempty
      rw [path_unique ids child middle] at less parent
      exact ⟨p, _, here, parent, less.trans shorter⟩

/-- Chains of rooted paths end at the root. -/
theorem Chains.reaches (chains : Chains kind none cache s)
    (parents : ∀ row ∈ s.hierarchy, ∃ path, path ≠ [] ∧ (row.1, path) ∈ s.path ∧
      (row.2, parentDirectory path) ∈ s.path) (length : ℕ) {id : ℕ} {path : Path}
    (built : id ∈ s.built) (here : (id, path) ∈ s.path) (short : path.length ≤ length) :
    ∃ root, (root, []) ∈ s.path ∧ Relation.ReflTransGen s.Parent id root := by
  induction length generalizing id path with
  | zero =>
      obtain ⟨row, member, rfl⟩ := List.mem_map.mp built
      obtain ⟨own, nonempty, child, -⟩ := parents row member
      rw [path_unique chains.ids here child] at short
      exact absurd (List.length_eq_zero_iff.mp (Nat.le_zero.mp short)) nonempty
  | succ length ih =>
      obtain ⟨⟨id, above⟩, member, rfl⟩ := List.mem_map.mp built
      obtain ⟨own, nonempty, child, parent⟩ := parents _ member
      have less := parentDirectory_length nonempty
      rw [path_unique chains.ids here child] at short
      have step : s.Parent id above := member
      by_cases root : parentDirectory own = []
      · rw [root] at parent
        exact ⟨above, parent, .single step⟩
      · have next := (chains.closed _ member _ parent root).resolve_right (by simp)
        obtain ⟨top, empty, rest⟩ := ih next parent (by omega)
        exact ⟨top, empty, .head step rest⟩

theorem Chains.law (chains : Chains (fun path => Rooted path ∧ Slashed path) none cache s)
    {seen : Set ℕ} (mapped : ∀ id ∈ seen, ∀ path, (id, path) ∈ s.path → path ≠ [] → id ∈ s.built) :
    HierarchyLaw s seen := by
  have parents : ∀ row ∈ s.hierarchy, ∃ path, path ≠ [] ∧ (row.1, path) ∈ s.path ∧
      (row.2, parentDirectory path) ∈ s.path := by
    intro row member
    obtain ⟨path, nonempty, ⟨rooted, slashed⟩, child, parent⟩ := chains.rows row member
    rw [(rooted.parent slashed).1] at parent
    exact ⟨path, nonempty, child, parent⟩
  refine ⟨mapped, chains.single, parents, fun id cycle => ?_, fun id built => ?_⟩
  · obtain ⟨p, q, here, there, shorter⟩ := parent_shorter chains.ids parents cycle
    rw [path_unique chains.ids here there] at shorter
    exact lt_irrefl _ shorter
  · obtain ⟨row, member, rfl⟩ := List.mem_map.mp built
    obtain ⟨path, -, child, -⟩ := parents row member
    exact chains.reaches parents path.length built child le_rfl

/-- A path with a row that is not rooted leads up to a wrong parent. -/
theorem HierarchyLaw.rooted {kind : Path → Prop} {seen : Set ℕ} (law : HierarchyLaw s seen)
    (chains : Chains kind none cache s) (length : ℕ) {id : ℕ} {path : Path} (built : id ∈ s.built)
    (here : (id, path) ∈ s.path) (slashed : Slashed path) (short : path.length ≤ length) :
    Rooted path := by
  induction length generalizing id path with
  | zero => exact .inl (List.length_eq_zero_iff.mp (Nat.le_zero.mp short))
  | succ length ih =>
      by_contra relative
      obtain ⟨⟨id, above⟩, member, rfl⟩ := List.mem_map.mp built
      obtain ⟨own, nonempty, -, child, parent⟩ := chains.rows _ member
      obtain ⟨same, -, child', parent'⟩ := law.parents _ member
      obtain rfl := path_unique chains.ids here child
      obtain rfl := path_unique chains.ids here child'
      have agree := path_unique chains.ids parent parent'
      rcases bvfsParentDir_relative relative slashed with wrong | ⟨some, relative', slashed'⟩
      · exact wrong agree
      · have next := (chains.closed _ member _ parent some).resolve_right (by simp)
        have less := parentDirectory_length nonempty
        rw [← agree] at less
        exact relative' (ih next parent slashed' (by omega))

end Law

/-- The hierarchy is right after any runs exactly when all paths of the jobs begin with a
separator or a drive letter. -/
theorem hierarchy_law_iff (db : Database) (calls : List Call) :
    ∃ cache s, run db calls ([], .start db) = some (cache, s) ∧
      (HierarchyLaw s (seen db calls) ↔
        ∀ id ∈ seen db calls, ∀ path, (id, path) ∈ db.path → Rooted path) := by
  obtain ⟨⟨cache, s⟩, runs, kept, updated, -⟩ :=
    (kept_start db fun _ => True).run calls (fun _ _ => trivial) fun _ _ _ _ => trivial
  refine ⟨cache, s, runs, fun law id member path here => ?_, fun rooted => ?_⟩
  · by_cases empty : path = []
    · exact .inl empty
    · obtain ⟨job, called, used⟩ := member
      have now := kept.known _ here
      have built := kept.done job (updated job called) id used path now empty
      exact law.rooted kept.chains path.length built now (db.slashed _ here) le_rfl
  · have closed (path : Path) (has : Rooted path ∧ Slashed path) :
        Rooted (bvfsParentDir path) ∧ Slashed (bvfsParentDir path) := (has.1.parent has.2).2
    obtain ⟨after, again, keptRooted, -⟩ :=
      (kept_start db fun path => Rooted path ∧ Slashed path).run calls closed
        fun id member path here => ⟨rooted id member path here, db.slashed _ here⟩
    obtain rfl := Option.some.inj (runs.symm.trans again)
    refine keptRooted.chains.law fun id ⟨job, called, used⟩ path here nonempty => ?_
    exact kept.done job (updated job called) id used path here nonempty

section Instance

theorem le_foldr_max {keys : List ℕ} {k : ℕ} (member : k ∈ keys) : k ≤ keys.foldr max 0 := by
  induction keys with
  | nil => cases member
  | cons j rest ih =>
      rw [List.foldr_cons]
      rcases List.mem_cons.mp member with rfl | member
      · exact le_max_left _ _
      · exact (ih member).trans (le_max_right _ _)

/-- One job with the path `a/`. -/
def relativeDatabase : Database where
  path := [(1, [97, 47])]
  files _ := [1]
  nextKey keys := keys.foldr max 0 + 1
  orderByPath rows := rows
  ids := by decide
  texts := by decide
  slashed row member := by
    rw [List.mem_singleton.mp member]
    exact .inr ⟨[97], rfl⟩
  known job id member := member
  fresh keys member := by
    exact absurd (le_foldr_max member) (by omega)
  perm rows := List.Perm.refl rows

theorem relative_run : run relativeDatabase [.update 1] ([], .start relativeDatabase) =
    some ([2, 1], ⟨[(1, [97, 47]), (2, [97])], [(1, 2), (2, 2)], [1], some (2, [97])⟩) := by
  decide +kernel

/-- The path `a/` gets the parent `a`, which is its own parent. -/
theorem relative_path_cycle : ¬ ∃ cache s,
    run relativeDatabase [.update 1] ([], .start relativeDatabase) = some (cache, s) ∧
      HierarchyLaw s (seen relativeDatabase [.update 1]) := by
  rintro ⟨cache, s, runs, law⟩
  rw [relative_run] at runs
  obtain ⟨rfl, rfl⟩ := Prod.mk.inj (Option.some.inj runs)
  exact law.acyclic 2 (.single (List.mem_cons_of_mem _ List.mem_cons_self))

end Instance

end Bacula.Bvfs
