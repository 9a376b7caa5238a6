import Bacula.Dird.TreePaths

/-! The delta parts of a file in the restore tree. The rows of one path make a chain of versions: a
row with sequence number 0 starts it again, a row with the next number goes on with it. -/
namespace Bacula.UaTree
open Bacula.Tree

/-- A copy in the job of the newest version that is not a newer one: not the first of a hard link,
not the last of another file. -/
def outdated (chain : List CatalogRow) (row : CatalogRow) : Bool :=
  match chain.getLast? with
  | none => false
  | some last => row.jobId = last.jobId &&
      ((row.linkFI ≠ 0 && row.fileIndex > last.fileIndex) ||
        (row.linkFI = 0 && row.fileIndex < last.fileIndex))

def chainStep (chain : List CatalogRow) (row : CatalogRow) : List CatalogRow :=
  if outdated chain row then chain
  else if row.deltaSeq = 0 then [row]
  else if chain ≠ [] ∧ row.deltaSeq.toInt = chain.length then chain ++ [row]
  else chain

/-- The versions since the last one with sequence number 0. -/
def chainOf (rows : List CatalogRow) : List CatalogRow := rows.foldl chainStep []

/-- The rows of one path. -/
def rowsAt (key : List Name) (rows : List CatalogRow) : List CatalogRow :=
  rows.filter fun row => rowKey row = key

/-- The versions have the numbers from 0 on, each once. -/
theorem chainOf_consecutive (rows : List CatalogRow) {i : ℕ} {row : CatalogRow}
    (here : (chainOf rows)[i]? = some row) : row.deltaSeq.toInt = i := by
  unfold chainOf at here
  induction rows using List.reverseRecOn generalizing i row with
  | nil => cases here
  | append_singleton rows last ih =>
      rw [List.foldl_append, List.foldl_cons, List.foldl_nil, chainStep] at here
      split_ifs at here with old start next
      · exact ih here
      · cases i with
        | zero =>
            cases here
            rw [start]
            rfl
        | succ i => cases here
      · rcases Nat.lt_or_ge i (rows.foldl chainStep []).length with before | behind
        · rw [List.getElem?_append_left before] at here
          exact ih here
        · rw [List.getElem?_append_right behind] at here
          cases step : i - (rows.foldl chainStep []).length with
          | zero =>
              rw [step] at here
              cases here
              rw [next.2]
              omega
          | succ j =>
              rw [step] at here
              cases here
      · exact ih here

/-- A delta part without its base removes the node that was made for it. -/
def removes (root : TreeRoot) (row : CatalogRow) (n : ℕ) : Bool :=
  row.deltaSeq > 0 && (root.node n).deltaSeq = -1

/-- What a row leaves in a node. -/
structure Delta where
  jobId : UInt32
  fileIndex : Int32
  deltaSeq : Int32
  deltaList : List (UInt32 × Int32)

/-- A node that no row has filled. -/
def Delta.new : Delta := ⟨0, 0, -1, []⟩

def delta (node : TreeNode) : Delta := ⟨node.jobId, node.fileIndex, node.deltaSeq, node.deltaList⟩

/-- The versions that the node holds, the oldest first. -/
def Delta.pairs (d : Delta) : List (UInt32 × Int32) := d.deltaList.reverse ++ [(d.jobId, d.fileIndex)]

/-- The node and its list are the chain. -/
structure ChainLaw (d : Delta) (chain : List CatalogRow) : Prop where
  new : chain = [] → d = Delta.new
  pairs : chain ≠ [] → d.pairs = chain.map fun row => (row.jobId, row.fileIndex)
  current : chain ≠ [] → d.deltaSeq.toInt + 1 = chain.length

/-- A row that the chain goes on with as it should: a new start only behind a version that has no
parts, a part only behind a base, and a part with the next number is not an old copy. -/
structure Continues (chain : List CatalogRow) (row : CatalogRow) : Prop where
  start : row.deltaSeq ≤ 0 → outdated chain row ∨ (row.deltaSeq = 0 ∧ chain.length ≤ 1)
  part : row.deltaSeq > 0 →
      chain ≠ [] ∧ (row.deltaSeq.toInt = chain.length → outdated chain row = false)

/-! ## One row -/

/-- What the row does to its node. -/
def nextDelta (d : Delta) (row : CatalogRow) (accepted : Bool) : Delta :=
  let taken (parts : List (UInt32 × Int32)) : Delta :=
    if accepted then ⟨row.jobId, row.fileIndex, row.deltaSeq, parts⟩ else { d with deltaList := parts }
  if row.deltaSeq > 0 then
    if row.deltaSeq = d.deltaSeq + 1 then taken ((d.jobId, d.fileIndex) :: d.deltaList) else d
  else taken d.deltaList

theorem ChainLaw.last {d : Delta} {chain : List CatalogRow} (law : ChainLaw d chain) {last : CatalogRow}
    (newest : chain.getLast? = some last) : last.jobId = d.jobId ∧ last.fileIndex = d.fileIndex := by
  have some : chain ≠ [] := by
    rintro rfl
    cases newest
  have ends := congrArg List.getLast? (law.pairs some)
  rw [Delta.pairs, List.getLast?_concat, List.getLast?_map, newest, Option.map_some] at ends
  obtain ⟨job, file⟩ := Prod.mk.inj (Option.some.inj ends)
  exact ⟨job.symm, file.symm⟩

/-- What a name holds, apart from its type and links. -/
def Version.delta (v : Version) : Delta := ⟨v.jobId, v.fileIndex, v.deltaSeq, v.deltaList⟩

/-- What the rows leave at a name; a name without rows is a new node. -/
def deltaOf (v : Option Version) : Delta := (v.getD (.blank .none)).delta

/-- The rule of `insert_tree_handler` for copies in one job is about the newest version. -/
theorem outdates_eq {v : Option Version} {chain : List CatalogRow} {row : CatalogRow}
    (law : ChainLaw (deltaOf v) chain) (found : chain ≠ [] → v.isSome) (job : row.jobId ≠ 0) :
    (v.isSome && (v.getD (.blank .none)).outdates row) = outdated chain row := by
  unfold Version.outdates outdated
  cases newest : chain.getLast? with
  | none =>
      have empty := law.new (List.getLast?_eq_none_iff.mp newest)
      have other : (v.getD (.blank .none)).jobId = 0 := congrArg Delta.jobId empty
      simp [other, job]
  | some last =>
      obtain ⟨sameJob, sameFile⟩ := law.last newest
      have some : chain ≠ [] := by
        rintro rfl
        cases newest
      have jobs : last.jobId = (v.getD (.blank .none)).jobId := sameJob
      have files : last.fileIndex = (v.getD (.blank .none)).fileIndex := sameFile
      dsimp only
      rw [found some, jobs, files]
      rfl

section Step

variable {d : Delta} {chain : List CatalogRow} {row : CatalogRow}

theorem ChainLaw.next (law : ChainLaw d chain) (some : chain ≠ []) (part : row.deltaSeq > 0) :
    row.deltaSeq = d.deltaSeq + 1 ↔ row.deltaSeq.toInt = chain.length := by
  have current := law.current some
  have length := List.length_pos_iff.mpr some
  have positive : 0 < row.deltaSeq.toInt := Int32.lt_iff_toInt_lt.mp part
  have small := row.deltaSeq.toInt_lt
  have below := d.deltaSeq.toInt_lt
  rw [← Int32.toInt_inj, Int32.toInt_add, show (1 : Int32).toInt = 1 from rfl, current]
  by_cases fits : (chain.length : ℤ) < 2 ^ 31
  · rw [Int.bmod_eq_of_le (by omega) (by omega)]
  · have wraps : (chain.length : ℤ) = 2 ^ 31 := by omega
    have negative : Int.bmod (2 ^ 31) (2 ^ 32) = -2 ^ 31 := by decide
    rw [wraps, negative]
    omega

theorem nextDelta_skip (part : row.deltaSeq > 0) (gap : row.deltaSeq ≠ d.deltaSeq + 1)
    (accepted : Bool) :
    nextDelta d row accepted = d := by
  rw [nextDelta, if_pos part, if_neg gap]

theorem nextDelta_part (part : row.deltaSeq > 0) (next : row.deltaSeq = d.deltaSeq + 1)
    (accepted : Bool) :
    nextDelta d row accepted = if accepted then
      ⟨row.jobId, row.fileIndex, row.deltaSeq, (d.jobId, d.fileIndex) :: d.deltaList⟩
      else { d with deltaList := (d.jobId, d.fileIndex) :: d.deltaList } := by
  rw [nextDelta, if_pos part, if_pos next]

theorem nextDelta_start (start : row.deltaSeq ≤ 0) (accepted : Bool) :
    nextDelta d row accepted =
      if accepted then ⟨row.jobId, row.fileIndex, row.deltaSeq, d.deltaList⟩ else d := by
  rw [nextDelta, if_neg (Int32.not_lt.mpr start)]

/-- A delta part, with and without its base. -/
theorem step_part (law : ChainLaw d chain) (part : row.deltaSeq > 0) :
    ChainLaw (nextDelta d row (!outdated chain row)) (chainStep chain row) ∧ d.deltaSeq ≠ -1 ↔
      chain ≠ [] ∧ (row.deltaSeq.toInt = chain.length → outdated chain row = false) := by
  by_cases some : chain ≠ []
  · have current := law.current some
    have length := List.length_pos_iff.mpr some
    have based : d.deltaSeq ≠ -1 := by
      intro new
      rw [new, show (-1 : Int32).toInt = -1 from rfl] at current
      omega
    have notStart : row.deltaSeq ≠ 0 := fun zero => by
      rw [zero] at part
      exact absurd part (by decide)
    by_cases next : row.deltaSeq.toInt = chain.length
    · rw [nextDelta_part part ((law.next some part).mpr next), chainStep]
      cases old : outdated chain row with
      | true =>
          refine iff_of_false (fun both => ?_) fun good => absurd (good.2 next) (by decide)
          -- one part too many
          have pairs := congrArg List.length (both.1.pairs some)
          have before := congrArg List.length (law.pairs some)
          simp [Delta.pairs] at pairs before
          omega
      | false =>
          refine iff_of_true ⟨?_, based⟩ ⟨some, fun _ => rfl⟩
          rw [Bool.not_false, if_pos rfl, if_neg Bool.false_ne_true, if_neg notStart,
            if_pos ⟨some, next⟩]
          refine ⟨fun empty => absurd empty (by simp), fun _ => ?_, fun _ => ?_⟩
          · have before := law.pairs some
            rw [List.map_append, ← before]
            simp [Delta.pairs]
          · rw [List.length_append, List.length_singleton]
            push_cast
            exact congrArg (· + 1) next
    · have kept : chainStep chain row = chain := by
        rw [chainStep, if_neg notStart]
        split_ifs with old both
        · rfl
        · exact absurd both.2 next
        · rfl
      rw [nextDelta_skip part (fun same => next ((law.next some part).mp same)), kept]
      exact iff_of_true ⟨law, based⟩ ⟨some, fun same => absurd same next⟩
  · have new := law.new (not_not.mp some)
    refine iff_of_false (fun both => both.2 ?_) fun good => some good.1
    rw [new]
    rfl

/-- A row that is no delta part. -/
theorem step_start (law : ChainLaw d chain) (job : row.jobId ≠ 0) (start : row.deltaSeq ≤ 0) :
    ChainLaw (nextDelta d row (!outdated chain row)) (chainStep chain row) ↔
      outdated chain row ∨ (row.deltaSeq = 0 ∧ chain.length ≤ 1) := by
  rw [nextDelta_start start, chainStep]
  cases old : outdated chain row with
  | true => exact iff_of_true law (Or.inl rfl)
  | false =>
      rw [Bool.not_false, if_pos rfl, if_neg Bool.false_ne_true]
      have list : d.deltaList.length + 1 = chain.length ∨ (chain = [] ∧ d.deltaList = []) := by
        by_cases some : chain ≠ []
        · have before := congrArg List.length (law.pairs some)
          simp [Delta.pairs] at before
          exact Or.inl before
        · exact Or.inr ⟨not_not.mp some, by rw [law.new (not_not.mp some)]; rfl⟩
      by_cases zero : row.deltaSeq = 0
      · rw [if_pos zero]
        constructor
        · intro after
          have pairs := congrArg List.length (after.pairs (List.cons_ne_nil _ _))
          simp [Delta.pairs] at pairs
          refine Or.inr ⟨zero, ?_⟩
          rcases list with some | ⟨none, -⟩
          · rw [← some, pairs]
            exact le_refl _
          · rw [none]
            exact Nat.zero_le 1
        · rintro (impossible | ⟨-, short⟩)
          · cases impossible
          · have empty : d.deltaList = [] := by
              rcases list with some | ⟨-, none⟩
              · exact List.length_eq_zero_iff.mp (by omega)
              · exact none
            refine ⟨fun none => absurd none (List.cons_ne_nil _ _), fun _ => ?_, fun _ => ?_⟩
            · rw [empty]
              rfl
            · rw [zero]
              rfl
      · have negative : row.deltaSeq.toInt < 0 := by
          have below : row.deltaSeq.toInt ≤ 0 := Int32.le_iff_toInt_le.mp start
          have other : row.deltaSeq.toInt ≠ 0 := fun same => zero (Int32.toInt_inj.mp same)
          omega
        have kept : ¬(chain ≠ [] ∧ row.deltaSeq.toInt = chain.length) := fun both => by omega
        rw [if_neg zero, if_neg kept]
        refine iff_of_false (fun after => ?_) ?_
        · by_cases some : chain ≠ []
          · have current := after.current some
            have length := List.length_pos_iff.mpr some
            dsimp only at current
            omega
          · exact job (congrArg Delta.jobId (after.new (not_not.mp some)))
        · rintro (impossible | ⟨same, -⟩)
          · cases impossible
          · exact zero same

/-- The law stays with the chain and no node is dropped, if and only if the chain goes on as it
should. -/
theorem step_iff (law : ChainLaw d chain) (job : row.jobId ≠ 0) :
    ChainLaw (nextDelta d row (!outdated chain row)) (chainStep chain row) ∧
      ¬(row.deltaSeq > 0 ∧ d.deltaSeq = -1) ↔ Continues chain row := by
  by_cases part : row.deltaSeq > 0
  · have both : ¬(row.deltaSeq > 0 ∧ d.deltaSeq = -1) ↔ d.deltaSeq ≠ -1 :=
      not_congr (and_iff_right part)
    rw [both, step_part law part]
    exact ⟨fun good => ⟨fun start => absurd part (Int32.not_lt.mpr start), fun _ => good⟩,
      fun good => good.part part⟩
  · have start : row.deltaSeq ≤ 0 := Int32.not_lt.mp part
    have both : ¬(row.deltaSeq > 0 ∧ d.deltaSeq = -1) := fun dropped => part dropped.1
    rw [and_iff_left both, step_start law job start]
    exact ⟨fun good => ⟨fun _ => good, fun positive => absurd positive part⟩,
      fun good => good.start start⟩

end Step

/-! ## What a name holds -/

/-- A row of the name. -/
theorem deltaOf_own (v : Option Version) (row : CatalogRow) :
    deltaOf (hold (rowKey row) row v) =
      nextDelta (deltaOf v) row (!(v.isSome && (v.getD (.blank .none)).outdates row)) := by
  rw [hold_own, deltaOf, Option.getD_some, Version.next]
  have taken := taken_eq v row
  by_cases part : row.deltaSeq > 0
  · rw [decide_eq_false (Int32.not_le.mpr part), Bool.false_or] at taken
    by_cases next : row.deltaSeq = (v.getD (.blank .none)).deltaSeq + 1
    · rw [decide_eq_true next, Bool.true_and] at taken
      have parts : (v.getD (.blank .none)).parts row = _ := if_pos ⟨part, next⟩
      rw [nextDelta_part part next, taken, parts]
      split <;> rfl
    · rw [decide_eq_false next, Bool.false_and] at taken
      have parts : (v.getD (.blank .none)).parts row = _ := if_neg fun both => next both.2
      rw [nextDelta_skip part next, taken, parts]
      rfl
  · have start : row.deltaSeq ≤ 0 := Int32.not_lt.mp part
    rw [decide_eq_true start, Bool.true_or, Bool.true_and] at taken
    have parts : (v.getD (.blank .none)).parts row = _ := if_neg fun both => part both.1
    rw [nextDelta_start start, taken, parts]
    split <;> rfl

/-- A row of another name. -/
theorem deltaOf_other {key : List Name} {row : CatalogRow} (other : rowKey row ≠ key)
    (v : Option Version) : deltaOf (hold key row v) = deltaOf v := by
  cases v with
  | some v => rw [hold_some other]
  | none =>
      rw [hold, if_neg other]
      split <;> rfl

/-- No row has the name of the root. -/
theorem deltaOf_root (before : List CatalogRow) : deltaOf (version [] before) = Delta.new := by
  induction before with
  | nil => rfl
  | cons row before ih => rw [version, deltaOf_other (rowKey_ne_nil row), ih]

/-- The node of a name has what the rows have left there. -/
theorem Agrees.delta {before : List CatalogRow} {root : TreeRoot} (agrees : Agrees before root)
    {n : ℕ} {key : List Name} (has : HasKey root n key) :
    delta (root.node n) = deltaOf (UaTree.version key before) := by
  by_cases isRoot : key = []
  · subst isRoot
    rw [deltaOf_root, has.unique_node agrees.shaped .root]
    have new := congrArg UaTree.delta agrees.top
    exact new
  · rw [agrees.version isRoot has]
    rfl

/-! ## All rows -/

section Run

variable {all noAutoParent : Bool} {rows : List CatalogRow} {key : List Name} {row : CatalogRow}

theorem rowsAt_concat (key : List Name) (rows : List CatalogRow) (row : CatalogRow) :
    rowsAt key (rows ++ [row]) =
      if rowKey row = key then rowsAt key rows ++ [row] else rowsAt key rows := by
  rw [rowsAt, List.filter_append, List.filter_singleton]
  by_cases own : rowKey row = key
  · simp [own, rowsAt]
  · simp [own, rowsAt]

theorem build_concat (rows : List CatalogRow) (row : CatalogRow) :
    build all noAutoParent (rows ++ [row]) = insertTreeHandler (build all noAutoParent rows) row :=
  List.foldl_append

/-- The rows of a name have left something there. -/
theorem version_of_rowsAt (some : rowsAt key rows ≠ []) : (version key rows.reverse).isSome := by
  obtain ⟨row, here⟩ := List.exists_mem_of_ne_nil _ some
  obtain ⟨inside, own⟩ := List.mem_filter.mp here
  exact version_isSome (List.mem_reverse.mpr inside)
    ((of_decide_eq_true own).symm ▸ List.prefix_refl _)

theorem rowsAt_of_chain (some : chainOf (rowsAt key rows) ≠ []) : rowsAt key rows ≠ [] := by
  intro none
  rw [none] at some
  exact some rfl

variable (all noAutoParent rows key) in
/-- The node of a path holds the chain of the rows of the path. -/
def Follows : Prop := ∀ n, HasKey (build all noAutoParent rows).root n key →
  ChainLaw (delta ((build all noAutoParent rows).root.node n)) (chainOf (rowsAt key rows))

/-- It is the rows that say so: a path has a node as soon as it has rows. -/
theorem follows_iff : Follows all noAutoParent rows key ↔
    ChainLaw (deltaOf (version key rows.reverse)) (chainOf (rowsAt key rows)) := by
  have agrees := build_agrees all noAutoParent rows
  constructor
  · intro follows
    by_cases isRoot : key = []
    · subst isRoot
      have law := follows 0 .root
      rwa [agrees.delta .root] at law
    · cases here : version key rows.reverse with
      | some v =>
          obtain ⟨n, has⟩ := agrees.name key v isRoot here
          have law := follows n has
          rwa [agrees.delta has, here] at law
      | none =>
          have empty : rowsAt key rows = [] := by
            by_contra some
            have isSome := version_of_rowsAt some
            rw [here] at isSome
            cases isSome
          rw [empty]
          exact ⟨fun _ => rfl, fun some => absurd rfl some, fun some => absurd rfl some⟩
  · intro law n has
    rw [agrees.delta has]
    exact law

/-- A row of another path. -/
theorem Follows.other (follows : Follows all noAutoParent rows key) (other : rowKey row ≠ key) :
    Follows all noAutoParent (rows ++ [row]) key := by
  rw [follows_iff, List.reverse_append, List.reverse_singleton, List.singleton_append, version,
    deltaOf_other other, rowsAt_concat, if_neg other]
  exact follows_iff.mp follows

/-- A row of the path. -/
theorem Follows.own_iff (follows : Follows all noAutoParent rows (rowKey row)) (job : row.jobId ≠ 0) :
    Follows all noAutoParent (rows ++ [row]) (rowKey row) ∧
        removes (placed all noAutoParent rows row).1 row (nodeOf all noAutoParent rows row) = false ↔
      Continues (chainOf (rowsAt (rowKey row) rows)) row := by
  have law := follows_iff.mp follows
  have rule := outdates_eq law (fun some => version_of_rowsAt (rowsAt_of_chain some)) job
  have next : chainOf (rowsAt (rowKey row) (rows ++ [row])) =
      chainStep (chainOf (rowsAt (rowKey row) rows)) row := by
    rw [rowsAt_concat, if_pos rfl, chainOf, List.foldl_append]
    rfl
  have shows := (build_agrees all noAutoParent rows).shows row
  have seq : (deltaOf (version (rowKey row) rows.reverse)).deltaSeq =
      ((placed all noAutoParent rows row).1.node (nodeOf all noAutoParent rows row)).deltaSeq :=
    congrArg Version.deltaSeq shows.version
  rw [← step_iff law job, ← rule, follows_iff, List.reverse_append, List.reverse_singleton,
    List.singleton_append, version, deltaOf_own, next, removes, seq]
  refine and_congr_right fun _ => ?_
  rw [← Bool.not_eq_true, Bool.and_eq_true, decide_eq_true_eq, decide_eq_true_eq]

/-- The walk from `first_tree_node` along `next_tree_node`. -/
def walk (root : TreeRoot) : List ℕ := List.range' 1 (root.nodes.length - 1)

/-- A node that nobody finds any more. -/
structure Gone (root : TreeRoot) (n : ℕ) (row : CatalogRow) : Prop where
  child : ∀ p, n ∉ (root.node p).child
  walk : n ∉ walk root
  insert : (insertTreeNode root row.path row.fname).2 ≠ n

/-- A node of a path is found by all of them. -/
theorem found_everywhere {root : TreeRoot} (shaped : Shaped root) (cached : Cached root) {n : ℕ}
    (has : HasKey root n (rowKey row)) :
    (∃ p, n ∈ (root.node p).child) ∧ n ∈ walk root ∧
    (insertTreeNode root row.path row.fname).2 = n := by
  obtain ⟨made, -⟩ := insertTreeNode_placed shaped cached row.path row.fname
  have again := made.hasKey.unique_node made.shaped (has.mono shaped made.later)
  have inside := has.isNode shaped
  obtain ⟨p, child⟩ : ∃ p, n ∈ (root.node p).child := by
    generalize names : rowKey row = key at has
    cases has with
    | root => exact absurd names (rowKey_ne_nil row)
    | child parent child => exact ⟨_, child⟩
  refine ⟨⟨p, child⟩, List.mem_range'_1.mpr ?_, again⟩
  have behind := (shaped.parents child).2.1
  omega

/-- A node that has been dropped is still there. -/
theorem not_gone (rows : List CatalogRow) (row : CatalogRow) :
    ¬Gone (build all noAutoParent (rows ++ [row])).root (nodeOf all noAutoParent rows row) row := by
  obtain ⟨agrees, -, hasKey⟩ :=
    insertTreeHandler_agrees (build_agrees all noAutoParent rows) row
  rw [← build_concat] at agrees hasKey
  intro gone
  exact gone.walk (found_everywhere agrees.shaped agrees.cached hasKey).2.1

end Run

theorem forall_prefix_concat {α : Type} {P : List α → Prop} {xs : List α} {x : α} :
    (∀ before after, xs ++ [x] = before ++ after → P before) ↔
      (∀ before after, xs = before ++ after → P before) ∧ P (xs ++ [x]) := by
  constructor
  · intro every
    refine ⟨fun before after eq => every before (after ++ [x]) (by rw [eq, List.append_assoc]),
      every _ [] (List.append_nil _).symm⟩
  · rintro ⟨early, last⟩ before after eq
    rcases List.eq_nil_or_concat' after with rfl | ⟨after, y, rfl⟩
    · rw [List.append_nil] at eq
      exact eq ▸ last
    · rw [← List.append_assoc] at eq
      exact early before after (List.append_inj_left' eq rfl)

theorem forall_split_concat {α : Type} {P : List α → α → Prop} {xs : List α} {x : α} :
    (∀ before y after, xs ++ [x] = before ++ y :: after → P before y) ↔
      (∀ before y after, xs = before ++ y :: after → P before y) ∧ P xs x := by
  constructor
  · intro every
    refine ⟨fun before y after eq => every before y (after ++ [x]) (by simp [eq]), every xs x [] rfl⟩
  · rintro ⟨early, last⟩ before y after eq
    rcases List.eq_nil_or_concat' after with rfl | ⟨after, z, rfl⟩
    · obtain ⟨rfl, same⟩ := List.append_inj' eq rfl
      obtain rfl := (List.cons.inj same).1
      exact last
    · rw [← List.cons_append, ← List.append_assoc] at eq
      exact early before y after (List.append_inj_left' eq rfl)

/-- At all times the node of a path holds the versions since the last one with sequence number 0, and
a node that is dropped is gone, if and only if every row of the path goes on with its chain. -/
theorem delta_chain_iff (all noAutoParent : Bool) {rows : List CatalogRow}
    (jobs : ∀ row ∈ rows, row.jobId ≠ 0) (key : List Name) :
    ((∀ before after, rows = before ++ after → Follows all noAutoParent before key) ∧
      ∀ before row after, rows = before ++ row :: after → rowKey row = key →
        removes (placed all noAutoParent before row).1 row (nodeOf all noAutoParent before row) = true →
          Gone (build all noAutoParent (before ++ [row])).root (nodeOf all noAutoParent before row)
            row) ↔
      ∀ before row after, rows = before ++ row :: after → rowKey row = key →
        Continues (chainOf (rowsAt key before)) row := by
  induction rows using List.reverseRecOn with
  | nil =>
      refine iff_of_true ⟨fun before after eq => ?_, fun before row after eq => absurd eq (by simp)⟩
        fun before row after eq => absurd eq (by simp)
      obtain ⟨rfl, -⟩ := List.append_eq_nil_iff.mp eq.symm
      exact follows_iff.mpr
        ⟨fun _ => rfl, fun some => absurd rfl some, fun some => absurd rfl some⟩
  | append_singleton rows row ih =>
      have earlier := ih fun r inside => jobs r (List.mem_append_left _ inside)
      have job := jobs row (by simp)
      rw [forall_prefix_concat, forall_split_concat, forall_split_concat, ← earlier]
      by_cases own : rowKey row = key
      · subst own
        have never :
          (removes (placed all noAutoParent rows row).1 row (nodeOf all noAutoParent rows row) = true →
            Gone (build all noAutoParent (rows ++ [row])).root (nodeOf all noAutoParent rows row) row) ↔
            removes (placed all noAutoParent rows row).1 row (nodeOf all noAutoParent rows row) =
              false := by
          rw [imp_iff_not (not_gone rows row), Bool.not_eq_true]
        constructor
        · rintro ⟨⟨follows, last⟩, gone, drop⟩
          have step := (follows rows [] (List.append_nil _).symm).own_iff job
          exact ⟨⟨follows, gone⟩, fun _ => step.mp ⟨last, never.mp (drop rfl)⟩⟩
        · rintro ⟨⟨follows, gone⟩, goesOn⟩
          have step := (follows rows [] (List.append_nil _).symm).own_iff job
          obtain ⟨last, stays⟩ := step.mpr (goesOn rfl)
          exact ⟨⟨follows, last⟩, gone, fun _ => never.mpr stays⟩
      · constructor
        · rintro ⟨⟨follows, -⟩, gone, -⟩
          exact ⟨⟨follows, gone⟩, fun same => absurd same own⟩
        · rintro ⟨⟨follows, gone⟩, -⟩
          exact ⟨⟨follows, (follows rows [] (List.append_nil _).symm).other own⟩, gone,
            fun same => absurd same own⟩

/-- A full copy in job 1, a delta part in job 2 and a full copy in job 3. -/
def restartRows : List CatalogRow :=
  [⟨[47, 100, 47], [97], 1, 1, 0, 1, false, 0⟩, ⟨[47, 100, 47], [97], 1, 2, 1, 1, false, 0⟩,
    ⟨[47, 100, 47], [97], 1, 3, 0, 1, false, 0⟩]

theorem delta_chain_restart :
    ((∀ before after, restartRows = before ++ after → Follows false false before [[100], [97]]) ∧
      ∀ before row after, restartRows = before ++ row :: after → rowKey row = [[100], [97]] →
        removes (placed false false before row).1 row (nodeOf false false before row) = true →
          Gone (build false false (before ++ [row])).root (nodeOf false false before row) row) ↔
      ∀ before row after, restartRows = before ++ row :: after → rowKey row = [[100], [97]] →
        Continues (chainOf (rowsAt [[100], [97]] before)) row :=
  delta_chain_iff false false (by decide) _

/-- The part in front of the new start stays in the list. -/
theorem restart_keeps_parts :
    (delta ((build false false restartRows).root.node 2)).pairs = [(1, 1), (3, 1)] ∧
      (chainOf (rowsAt [[100], [97]] restartRows)).map (fun row => (row.jobId, row.fileIndex)) =
    [(3, 1)] := by
  decide

end Bacula.UaTree
