import Bacula.Library.Roster
import Bacula.Library.Transition

/-! The chain of job control records in `lib/jcr.c`. A step is a section under the lock of the chain
or of the last jobs, or what a thread does with a record that is off the chain. A reference is a
pointer of some thread and a record: `foreach_jcr` has one for the record it has come to. -/
namespace Bacula.JcrChain
open Transition


structure LastJob where
  errors : ℤ
  jobType : Char
  jobStatus : Char
  jobLevel : Char
  jobId : ℕ
  volSessionId : ℕ
  volSessionTime : ℕ
  jobFiles : ℕ
  jobBytes : ℕ
  startTime : ℤ
  endTime : ℤ
  job : String
  deriving DecidableEq, Repr

structure Jcr where
  useCount : ℤ
  exiting : Bool
  /-- The fields of the job that `last_jobs` keeps. -/
  last : LastJob
  deriving DecidableEq, Repr

/-- Internal job until defined. -/
def LastJob.system : LastJob :=
  ⟨0, 'I', 'C', ' ', 0, 0, 0, 0, 0, 0, 0, "*System*"⟩

/-- The job types of which `free_jcr` keeps statistics: backup, verify, restore, migrate, copy,
admin. -/
def keptTypes : List Char := ['B', 'V', 'R', 'g', 'c', 'D']

def LastJob.kept (j : LastJob) : Bool := j.jobType ∈ keptTypes ∧ 0 < j.jobId

def maxLastJobs : ℕ := 10

variable {κ ι : Type}

/-- The records stand at addresses `ι` and are known through pointers `κ`. -/
structure State (κ ι : Type) where
  heap : ι → Option Jcr
  jcrs : List ι
  lastJobs : List LastJob
  numJobsRun : ℕ
  held : List (κ × ι)
  /-- The record that a walk of the chain has come to. -/
  walking : κ → Option ι
  /-- Who frees a record that is off the chain, and whether its job is among the last jobs yet. -/
  ending : List (κ × ι × Bool)
  /-- How many records were created, and which of them stands at an address. -/
  created : ℕ
  serial : ι → ℕ
  freed : List ℕ
  ended : List LastJob
  seen : κ → List ℕ

def init (κ ι : Type) (addresses : ι → ℕ) : State κ ι :=
  ⟨fun _ => none, [], [], 0, [], fun _ => none, [], 0, addresses, [], [], fun _ => []⟩

section Code

variable [DecidableEq κ] [DecidableEq ι]

def State.write (s : State κ ι) (i : ι) (jcr : Jcr) : State κ ι :=
  { s with heap := Function.update s.heap i (some jcr) }

def State.walkTo (s : State κ ι) (p : κ) (jcr : Option ι) (seen : List ℕ) : State κ ι :=
  { s with walking := Function.update s.walking p jcr, seen := Function.update s.seen p seen }

/-- `malloc` gives an address. -/
def newJcr (s : State κ ι) (p : κ) (i : ι) : State κ ι :=
  { s.write i ⟨1, false, LastJob.system⟩ with
    jcrs := s.jcrs ++ [i]
    held := (p, i) :: s.held
    created := s.created + 1
    serial := Function.update s.serial i s.created }

/-- No result is an access to a record that was freed. -/
def incUseCount (s : State κ ι) (p : κ) (i : ι) : Option (State κ ι) := do
  let jcr ← s.heap i
  return { s.write i { jcr with useCount := jcr.useCount + 1 } with held := (p, i) :: s.held }

def setJob (s : State κ ι) (i : ι) (last : LastJob) : Option (State κ ι) := do
  let jcr ← s.heap i
  return s.write i { jcr with last }

/-- `dlist::next`; the link of an item that is not on the list leads nowhere. -/
def next : List ι → ι → Option (Option ι)
  | [], _ => none
  | x :: rest, i => if x = i then some rest.head? else next rest i

def jcrWalkStart (s : State κ ι) (p : κ) : Option (State κ ι) :=
  match s.jcrs.head? with
  | none => some (s.walkTo p none [])
  | some i => do
      let s ← incUseCount s p i
      return s.walkTo p (some i) [s.serial i]

/-- The section of `jcr_walk_next` under the lock; `free_jcr(prev_jcr)` comes behind it. -/
def jcrWalkNext (s : State κ ι) (p : κ) (prev : ι) : Option (State κ ι) := do
  let _ ← s.heap prev
  match ← next s.jcrs prev with
  | none => return s.walkTo p none (s.seen p)
  | some i =>
      let s ← incUseCount s p i
      return s.walkTo p (some i) (s.seen p ++ [s.serial i])

/-- The section of `free_jcr` under the lock. It has no result either when the assertion fails or when
the record that leaves the chain is not on it. -/
def freeJcr (s : State κ ι) (p : κ) (i : ι) : Option (State κ ι) := do
  let jcr ← s.heap i
  let useCount := jcr.useCount - 1
  let s := { s.write i { jcr with useCount } with held := s.held.erase (p, i) }
  if useCount < 0 then none
  else if 0 < useCount then some s
  else if i ∈ s.jcrs then
    some { s.write i { jcr with useCount, exiting := true } with
      jcrs := s.jcrs.erase i
      ending := (p, i, false) :: s.ending }
  else none

def jcrWalkEnd (s : State κ ι) (p : κ) (i : ι) : Option (State κ ι) :=
  freeJcr (s.walkTo p none (s.seen p)) p i

/-- The statistics in `free_jcr`. -/
def keepLastJob (s : State κ ι) (p : κ) (i : ι) (now : ℤ) : Option (State κ ι) := do
  let jcr ← s.heap i
  let s := { s with ending := (p, i, true) :: s.ending.erase (p, i, false) }
  if jcr.last.kept then
    let je := { jcr.last with endTime := now }
    let lastJobs := s.lastJobs ++ [je]
    some { s with
      numJobsRun := s.numJobsRun + 1
      lastJobs := if maxLastJobs < lastJobs.length then lastJobs.tail else lastJobs
      ended := s.ended ++ [je] }
  else some s

def freeCommonJcr (s : State κ ι) (p : κ) (i : ι) : Option (State κ ι) := do
  let _ ← s.heap i
  return { s with
    heap := Function.update s.heap i none
    ending := s.ending.erase (p, i, true)
    freed := s.serial i :: s.freed }

/-- `job_count`, under the lock. -/
def jobCount (s : State κ ι) : Option ℕ := do
  let jcrs ← s.jcrs.mapM s.heap
  return jcrs.countP fun jcr => 0 < jcr.last.jobId

inductive Action (κ ι : Type) where
  | newJcr (p : κ) (i : ι)
  | setJob (p : κ) (i : ι) (last : LastJob)
  | incUseCount (p : κ) (i : ι) (other : κ)
  | jcrWalkStart (p : κ)
  | jcrWalkNext (p : κ) (i : ι)
  | jcrWalkEnd (p : κ) (i : ι)
  | freeJcr (p : κ) (i : ι)
  | keepLastJob (p : κ) (i : ι) (now : ℤ)
  | freeCommonJcr (p : κ) (i : ι)
  | jobCount

def perform (s : State κ ι) : Action κ ι → Option (State κ ι)
  | .newJcr p i => some (newJcr s p i)
  | .setJob _ i last => setJob s i last
  | .incUseCount _ i other => incUseCount s other i
  | .jcrWalkStart p => jcrWalkStart s p
  | .jcrWalkNext p i => jcrWalkNext s p i
  | .jcrWalkEnd p i => jcrWalkEnd s p i
  | .freeJcr p i => freeJcr s p i
  | .keepLastJob p i now => keepLastJob s p i now
  | .freeCommonJcr p i => freeCommonJcr s p i
  | .jobCount => do
      let _ ← jobCount s
      return s

/-- `malloc` gives memory that is not in use. A thread uses and frees only what it has a reference to,
and not the record of a walk that goes on. -/
def Allowed (s : State κ ι) : Action κ ι → Prop
  | .newJcr _ i => s.heap i = none
  | .setJob p i _ | .incUseCount p i _ => (p, i) ∈ s.held
  | .jcrWalkStart p => s.walking p = none
  | .jcrWalkNext p i | .jcrWalkEnd p i => s.walking p = some i
  | .freeJcr p i => (p, i) ∈ s.held ∧ s.walking p ≠ some i
  | .keepLastJob p i _ => (p, i, false) ∈ s.ending
  | .freeCommonJcr p i => (p, i, true) ∈ s.ending
  | .jobCount => True

instance (s : State κ ι) : (a : Action κ ι) → Decidable (Allowed s a)
  | .newJcr _ i => inferInstanceAs (Decidable (s.heap i = none))
  | .setJob p i _ | .incUseCount p i _ => inferInstanceAs (Decidable ((p, i) ∈ s.held))
  | .jcrWalkStart p => inferInstanceAs (Decidable (s.walking p = none))
  | .jcrWalkNext p i | .jcrWalkEnd p i => inferInstanceAs (Decidable (s.walking p = some i))
  | .freeJcr p i => inferInstanceAs (Decidable ((p, i) ∈ s.held ∧ s.walking p ≠ some i))
  | .keepLastJob p i _ => inferInstanceAs (Decidable ((p, i, false) ∈ s.ending))
  | .freeCommonJcr p i => inferInstanceAs (Decidable ((p, i, true) ∈ s.ending))
  | .jobCount => isTrue trivial

def Step (s : State κ ι) (a : Action κ ι) (s' : State κ ι) : Prop := Allowed s a ∧ perform s a = some s'

/-! ## The law -/

def references (held : List (κ × ι)) (i : ι) : ℕ := held.countP fun r => r.2 = i

def State.serials (s : State κ ι) (is : List ι) : List ℕ := is.map s.serial

structure Law (s : State κ ι) : Prop where
  counted : ∀ i ∈ s.jcrs, ∃ jcr, s.heap i = some jcr ∧ jcr.useCount = references s.held i ∧
    0 < references s.held i ∧ jcr.exiting = false
  chained : ∀ r ∈ s.held, r.2 ∈ s.jcrs
  leaving : ∀ e ∈ s.ending, ∃ jcr, s.heap e.2.1 = some jcr ∧ jcr.useCount = 0 ∧ jcr.exiting = true
  /-- No record is lost. -/
  owned : ∀ i, s.heap i ≠ none → i ∈ s.jcrs ∨ i ∈ s.ending.map fun e => e.2.1
  /-- Every record that was created is on the chain, or one thread is about to free it, or it was
  freed, once. -/
  accounted : (s.serials s.jcrs ++ (s.serials (s.ending.map fun e => e.2.1) ++ s.freed)).Perm
    (List.range s.created)
  lastJobs : s.lastJobs = s.ended.drop (s.ended.length - maxLastJobs)
  numJobsRun : s.numJobsRun = s.ended.length

/-- Between the steps: the chain is in the order of creation, and a walk has a reference to the record
it has come to. -/
structure Inv (s : State κ ι) : Prop extends Law s where
  ordered : (s.serials s.jcrs).Pairwise (· < ·)
  walks : ∀ p i, s.walking p = some i →
    (p, i) ∈ s.held ∧ Roster.At (s.serials s.jcrs) (s.seen p) (s.serial i)
  once : ∀ p, (s.seen p).Pairwise (· < ·)

variable {s s' : State κ ι} {p : κ} {i : ι}

omit [DecidableEq κ] in
theorem init_inv (addresses : ι → ℕ) : Inv (init κ ι addresses) := by
  constructor
  · constructor <;> simp [init, State.serials]
  all_goals simp [init, State.serials]

omit [DecidableEq κ] in
theorem references_cons (held : List (κ × ι)) (p : κ) (i j : ι) :
    references ((p, i) :: held) j = references held j + if j = i then 1 else 0 := by
  rw [references, references, List.countP_cons]
  simp [eq_comm]

theorem references_erase {held : List (κ × ι)} (has : (p, i) ∈ held) (j : ι) :
    references held j = references (held.erase (p, i)) j + if j = i then 1 else 0 := by
  rw [← references_cons _ p, references, references, (List.perm_cons_erase has).countP_eq]

omit [DecidableEq κ] in
theorem references_pos {held : List (κ × ι)} (has : (p, i) ∈ held) : 0 < references held i :=
  List.countP_pos_iff.mpr ⟨(p, i), has, decide_eq_true rfl⟩

omit [DecidableEq κ] in
theorem Inv.nodup (inv : Inv s) : s.jcrs.Nodup :=
  .of_map s.serial (inv.ordered.imp ne_of_lt)

omit [DecidableEq κ] in
/-- A record that a thread has a reference to is in memory, and on the chain. -/
theorem Inv.alive (inv : Inv s) (has : (p, i) ∈ s.held) :
    i ∈ s.jcrs ∧ ∃ jcr, s.heap i = some jcr ∧ jcr.useCount = references s.held i := by
  have chained : i ∈ s.jcrs := inv.chained _ has
  obtain ⟨jcr, here, count, -⟩ := inv.counted i chained
  exact ⟨chained, jcr, here, count⟩

omit [DecidableEq κ] in
theorem Inv.apart (inv : Inv s) {e : κ × ι × Bool} (turn : e ∈ s.ending) : e.2.1 ∉ s.jcrs := by
  intro chained
  obtain ⟨jcr, here, -, -, stays⟩ := inv.counted _ chained
  obtain ⟨jcr', here', -, exits⟩ := inv.leaving e turn
  rw [here] at here'
  cases here'
  rw [stays] at exits
  exact Bool.false_ne_true exits

omit [DecidableEq κ] in
theorem Inv.early (inv : Inv s) (chained : i ∈ s.jcrs) : s.serial i < s.created :=
  List.mem_range.mp (inv.accounted.subset (List.mem_append_left _ (List.mem_map_of_mem chained)))

/-! ## The steps -/

/-- Only the walk of one pointer changes. -/
theorem walkTo_inv (inv : Inv s) {jcr : Option ι} {seen : List ℕ} (once : seen.Pairwise (· < ·))
    (walk : ∀ i, jcr = some i → (p, i) ∈ s.held ∧ Roster.At (s.serials s.jcrs) seen (s.serial i)) :
    Inv (s.walkTo p jcr seen) :=
  { inv with
    walks := by
      intro q i goes
      by_cases same : q = p
      · subst same
        have here : jcr = some i := by simpa [State.walkTo] using goes
        have sees : (s.walkTo q jcr seen).seen q = seen := by simp [State.walkTo]
        rw [sees]
        exact walk i here
      · have before : s.walking q = some i := by simpa [State.walkTo, same] using goes
        have sees : (s.walkTo p jcr seen).seen q = s.seen q := by simp [State.walkTo, same]
        rw [sees]
        exact inv.walks q i before
    once := by
      intro q
      by_cases same : q = p
      · subst same
        simpa [State.walkTo] using once
      · simpa [State.walkTo, same] using inv.once q }

omit [DecidableEq κ] in
theorem incUseCount_eq {jcr : Jcr} (here : s.heap i = some jcr) (p : κ) : incUseCount s p i =
    some { s.write i { jcr with useCount := jcr.useCount + 1 } with held := (p, i) :: s.held } := by
  simp [incUseCount, here]

omit [DecidableEq κ] in
/-- One more reference to a record on the chain. -/
theorem incUseCount_inv (inv : Inv s) (chained : i ∈ s.jcrs) (p : κ) :
    ∃ s', incUseCount s p i = some s' ∧ Inv s' ∧ (∀ r ∈ (p, i) :: s.held, r ∈ s'.held) ∧
      s'.jcrs = s.jcrs ∧ s'.serial = s.serial ∧ s'.walking = s.walking ∧ s'.seen = s.seen := by
  obtain ⟨jcr, here, count, some, stays⟩ := inv.counted i chained
  refine ⟨_, incUseCount_eq here p, ?_, fun r has => has, rfl, rfl, rfl, rfl⟩
  exact { inv with
    counted := by
      intro j on
      show ∃ jcr', Function.update s.heap i _ j = _ ∧ _ ∧ _
      rw [references_cons]
      by_cases same : j = i
      · subst same
        rw [Function.update_self]
        refine ⟨_, rfl, ?_, by omega, stays⟩
        rw [if_pos rfl, Nat.cast_add, Nat.cast_one, count]
      · rw [Function.update_of_ne same, if_neg same, Nat.add_zero]
        exact inv.counted j on
    chained := by
      rintro r (_ | ⟨_, old⟩)
      · exact chained
      · exact inv.chained r old
    leaving := by
      intro e turn
      have other : e.2.1 ≠ i := fun same => inv.apart turn (same ▸ chained)
      show ∃ jcr', Function.update s.heap i _ e.2.1 = _ ∧ _
      rw [Function.update_of_ne other]
      exact inv.leaving e turn
    owned := by
      intro j full
      by_cases same : j = i
      · exact .inl (same ▸ chained)
      · exact inv.owned j (by simpa [State.write, same] using full)
    walks := fun q j goes => (inv.walks q j goes).imp_left (List.mem_cons_of_mem _) }

omit [DecidableEq κ] in
theorem newJcr_inv (inv : Inv s) (free : s.heap i = none) (p : κ) : Inv (newJcr s p i) := by
  have old (j : ι) (on : j ∈ s.jcrs) : j ≠ i := by
    rintro rfl
    obtain ⟨jcr, here, -⟩ := inv.counted j on
    rw [free] at here
    cases here
  have leaves (j : ι) (off : j ∈ s.ending.map fun e => e.2.1) : j ≠ i := by
    rintro rfl
    obtain ⟨e, turn, rfl⟩ := List.mem_map.mp off
    obtain ⟨jcr, here, -⟩ := inv.leaving e turn
    rw [free] at here
    cases here
  have none : references s.held i = 0 := by
    rw [references, List.countP_eq_zero]
    intro r has same
    exact old _ (inv.chained r has) (of_decide_eq_true same)
  have serials (js : List ι) (others : ∀ j ∈ js, j ≠ i) :
      js.map (Function.update s.serial i s.created) = js.map s.serial :=
    List.map_congr_left fun j on => Function.update_of_ne (others j on) _ _
  have chain : (newJcr s p i).serials (newJcr s p i).jcrs = s.serials s.jcrs ++ [s.created] := by
    simp [newJcr, State.write, State.serials, serials s.jcrs old]
  have last : ∀ n ∈ s.serials s.jcrs, n < s.created := by
    intro n on
    obtain ⟨j, chained, rfl⟩ := List.mem_map.mp on
    exact inv.early chained
  exact {
    counted := by
      intro j on
      show ∃ jcr', Function.update s.heap i _ j = _ ∧ _
      rw [show (newJcr s p i).held = (p, i) :: s.held from rfl, references_cons]
      rcases List.mem_append.mp on with on | new
      · rw [Function.update_of_ne (old j on), if_neg (old j on), Nat.add_zero]
        exact inv.counted j on
      · rw [List.mem_singleton.mp new, Function.update_self, if_pos rfl, none]
        exact ⟨_, rfl, rfl, Nat.one_pos, rfl⟩
    chained := by
      rintro r (_ | ⟨_, has⟩)
      · exact List.mem_append_right _ (List.mem_singleton_self i)
      · exact List.mem_append_left _ (inv.chained r has)
    leaving := by
      intro e turn
      show ∃ jcr', Function.update s.heap i _ e.2.1 = _ ∧ _
      rw [Function.update_of_ne (leaves _ (List.mem_map_of_mem turn))]
      exact inv.leaving e turn
    owned := by
      intro j full
      by_cases same : j = i
      · exact .inl (List.mem_append_right _ (List.mem_singleton.mpr same))
      · have before : s.heap j ≠ Option.none := by simpa [newJcr, State.write, same] using full
        exact (inv.owned j before).imp_left (List.mem_append_left _)
    accounted := by
      rw [chain]
      show List.Perm
        (_ ++ ((s.ending.map fun e => e.2.1).map (Function.update s.serial i s.created) ++ s.freed))
        (List.range (s.created + 1))
      rw [serials _ leaves, List.range_succ, List.append_assoc]
      refine (List.perm_append_comm.append_left _).trans ?_
      rw [← List.append_assoc]
      exact inv.accounted.append_right [s.created]
    lastJobs := inv.lastJobs
    numJobsRun := inv.numJobsRun
    ordered := by
      rw [chain]
      refine List.pairwise_append.mpr ⟨inv.ordered, List.pairwise_singleton _ _, ?_⟩
      intro n on m new
      exact List.mem_singleton.mp new ▸ last n on
    walks := by
      intro q j goes
      obtain ⟨has, visitor⟩ := inv.walks q j goes
      have serial : (newJcr s p i).serial j = s.serial j :=
        Function.update_of_ne (old j (inv.chained _ has)) _ _
      rw [chain, serial]
      exact ⟨List.mem_cons_of_mem _ has, visitor.join last⟩
    once := inv.once }

omit [DecidableEq κ] in
/-- A holder changes only the job of its record. -/
theorem setJob_inv (inv : Inv s) (has : (p, i) ∈ s.held) (last : LastJob) :
    ∃ s', setJob s i last = some s' ∧ Inv s' := by
  obtain ⟨chained, jcr, here, -⟩ := inv.alive has
  refine ⟨s.write i { jcr with last }, by simp [setJob, here], ?_⟩
  exact { inv with
    counted := by
      intro j on
      show ∃ jcr', Function.update s.heap i _ j = _ ∧ _
      by_cases same : j = i
      · subst same
        obtain ⟨jcr', here', rest⟩ := inv.counted j on
        rw [here] at here'
        cases here'
        rw [Function.update_self]
        exact ⟨_, rfl, rest⟩
      · rw [Function.update_of_ne same]
        exact inv.counted j on
    leaving := by
      intro e turn
      have other : e.2.1 ≠ i := fun same => inv.apart turn (same ▸ chained)
      show ∃ jcr', Function.update s.heap i _ e.2.1 = _ ∧ _
      rw [Function.update_of_ne other]
      exact inv.leaving e turn
    owned := by
      intro j full
      by_cases same : j = i
      · exact .inl (same ▸ chained)
      · exact inv.owned j (by simpa [State.write, same] using full) }

theorem next_eq_some {is : List ι} (on : i ∈ is) : ∃ before after, is = before ++ i :: after ∧
    next is i = some after.head? := by
  induction is with
  | nil => cases on
  | cons x rest ih =>
      by_cases same : x = i
      · subst same
        exact ⟨[], rest, rfl, by simp [next]⟩
      · have later : i ∈ rest := (List.mem_cons.mp on).resolve_left (Ne.symm same)
        obtain ⟨before, after, split, found⟩ := ih later
        exact ⟨x :: before, after, by rw [split]; rfl, by rw [next, if_neg same, found]⟩

theorem jcrWalkStart_inv (inv : Inv s) (p : κ) : ∃ s', jcrWalkStart s p = some s' ∧ Inv s' ∧
    (s'.walking p = none → s'.jcrs = []) := by
  cases chain : s.jcrs with
  | nil =>
      refine ⟨s.walkTo p none [], by simp [jcrWalkStart, chain], ?_, fun _ => chain⟩
      exact walkTo_inv inv .nil (fun i goes => by cases goes)
  | cons i rest =>
      have chained : i ∈ s.jcrs := chain ▸ List.mem_cons_self
      obtain ⟨t, gets, tinv, has, jcrs, serial, -, -⟩ := incUseCount_inv inv chained p
      refine ⟨t.walkTo p (some i) [t.serial i], by simp [jcrWalkStart, chain, gets], ?_, ?_⟩
      · apply walkTo_inv tinv (List.pairwise_singleton _ _)
        intro j goes
        cases goes
        refine ⟨has _ List.mem_cons_self, ?_⟩
        have ordered := tinv.ordered
        rw [jcrs, chain] at ordered ⊢
        exact .start ordered
      · intro stops
        simp [State.walkTo] at stops

/-- A walk is at its end when it has seen the whole chain. -/
theorem jcrWalkNext_inv (inv : Inv s) (goes : s.walking p = some i) :
    ∃ s', jcrWalkNext s p i = some s' ∧
    Inv s' ∧ (s'.walking p = none → ∀ n ∈ s'.serials s'.jcrs, n ∈ s'.seen p) := by
  obtain ⟨has, visitor⟩ := inv.walks p i goes
  obtain ⟨chained, jcr, here, -⟩ := inv.alive has
  obtain ⟨before, after, split, found⟩ := next_eq_some chained
  cases after with
  | nil =>
      refine ⟨s.walkTo p none (s.seen p), by simp [jcrWalkNext, here, found], ?_, ?_⟩
      · exact walkTo_inv inv (inv.once p) (fun j goes => by cases goes)
      · intro _ n on
        have chain : s.serials s.jcrs =
          s.serials before ++ [s.serial i] := by simp [split, State.serials]
        have ordered := inv.ordered
        rw [chain] at ordered visitor
        have sees : (s.walkTo p none (s.seen p)).seen p = s.seen p := by simp [State.walkTo]
        rw [sees]
        apply visitor.finish ordered
        rw [← chain]
        exact on
  | cons x after =>
      have chainedNext : x ∈ s.jcrs := by simp [split]
      obtain ⟨t, gets, tinv, has, jcrs, serial, -, seen⟩ := incUseCount_inv inv chainedNext p
      refine ⟨t.walkTo p (some x) (t.seen p ++ [s.serial x]),
        by simp [jcrWalkNext, here, found, gets, seen, serial], ?_, ?_⟩
      · have chain : t.serials t.jcrs = s.serials before ++ s.serial i :: s.serial x ::
            s.serials after := by
          simp [split, jcrs, serial, State.serials]
        have same : s.serials s.jcrs =
          t.serials t.jcrs := by rw [State.serials, State.serials, jcrs, serial]
        have ordered := tinv.ordered
        rw [same, ← seen] at visitor
        rw [chain] at ordered visitor
        have moved := visitor.next ordered
        apply walkTo_inv tinv moved.once
        intro j goes
        cases goes
        refine ⟨has _ List.mem_cons_self, ?_⟩
        rw [chain, serial]
        exact moved
      · intro stops
        simp [State.walkTo] at stops

theorem freeJcr_more {jcr : Jcr} (here : s.heap i = some jcr) (more : 0 < jcr.useCount - 1) :
    freeJcr s p i =
    some { s.write i { jcr with useCount := jcr.useCount - 1 } with held := s.held.erase (p, i) } := by
  rw [freeJcr, here]
  exact (if_neg (not_lt.mpr more.le)).trans (if_pos more)

theorem freeJcr_last {jcr : Jcr} (here : s.heap i = some jcr) (zero : jcr.useCount - 1 = 0)
    (chained : i ∈ s.jcrs) : freeJcr s p i =
      some { s.write i ⟨0, true, jcr.last⟩ with
        held := s.held.erase (p, i)
        jcrs := s.jcrs.erase i
        ending := (p, i, false) :: s.ending } := by
  have one : jcr.useCount = 1 := by omega
  simp [freeJcr, here, one, chained, State.write]

/-- A reference is given back; the last one takes the record off the chain. -/
theorem freeJcr_inv (inv : Inv s) (has : (p, i) ∈ s.held) (ends : s.walking p ≠ some i) :
    ∃ s', freeJcr s p i = some s' ∧ Inv s' := by
  obtain ⟨chained, jcr, here, count⟩ := inv.alive has
  have stays : jcr.exiting = false := by
    obtain ⟨jcr', here', -, -, stays⟩ := inv.counted i chained
    rw [here] at here'
    cases here'
    exact stays
  have erased := references_erase has
  have counts : jcr.useCount - 1 = references (s.held.erase (p, i)) i := by
    rw [count, erased i, if_pos rfl]
    push_cast
    omega
  have goOn (q : κ) (j : ι) (goes : s.walking q = some j) :
      (q, j) ∈ s.held.erase (p, i) ∧ Roster.At (s.serials s.jcrs) (s.seen q) (s.serial j) := by
    obtain ⟨other, visitor⟩ := inv.walks q j goes
    have differs : (q, j) ≠ (p, i) := by
      intro same
      cases same
      exact ends goes
    exact ⟨(List.mem_erase_of_ne differs).mpr other, visitor⟩
  have elsewhere {jcr' : Jcr} (e) (turn : e ∈ s.ending) :
      ∃ jcr'', Function.update s.heap i (some jcr') e.2.1 = some jcr'' ∧
      jcr''.useCount = 0 ∧ jcr''.exiting = true := by
    have other : e.2.1 ≠ i := fun same => inv.apart turn (same ▸ chained)
    rw [Function.update_of_ne other]
    exact inv.leaving e turn
  by_cases more : 0 < jcr.useCount - 1
  · have some : 0 < references (s.held.erase (p, i)) i := by omega
    refine ⟨_, freeJcr_more here more, ?_⟩
    exact { inv with
      counted := by
        intro j on
        show ∃ jcr', Function.update s.heap i _ j = _ ∧ _
        by_cases same : j = i
        · subst same
          rw [Function.update_self]
          exact ⟨_, rfl, counts, some, stays⟩
        · have before := erased j
          rw [if_neg same, Nat.add_zero] at before
          rw [Function.update_of_ne same, ← before]
          exact inv.counted j on
      chained := fun r other => inv.chained r (List.mem_of_mem_erase other)
      leaving := elsewhere
      owned := by
        intro j full
        by_cases same : j = i
        · exact .inl (same ▸ chained)
        · exact inv.owned j (by simpa [State.write, same] using full)
      walks := goOn }
  · have none : references (s.held.erase (p, i)) i = 0 := by omega
    have others (r) (other : r ∈ s.held.erase (p, i)) : r.2 ≠ i := by
      rintro rfl
      have some : 0 < references (s.held.erase (p, r.2)) r.2 := references_pos other
      omega
    have taken : (s.serials s.jcrs).Perm (s.serial i :: s.serials (s.jcrs.erase i)) :=
      (List.perm_cons_erase chained).map s.serial
    have fewer : (s.serials (s.jcrs.erase i)).Sublist (s.serials s.jcrs) :=
      List.erase_sublist.map s.serial
    refine ⟨_, freeJcr_last here (by omega) chained, ?_⟩
    exact {
      counted := by
        intro j on
        have other : j ≠ i := by
          rintro rfl
          exact inv.nodup.not_mem_erase on
        have before := erased j
        rw [if_neg other, Nat.add_zero] at before
        show ∃ jcr', Function.update s.heap i _ j = _ ∧ _
        rw [Function.update_of_ne other, ← before]
        exact inv.counted j (List.mem_of_mem_erase on)
      chained := by
        intro r other
        exact (List.mem_erase_of_ne (others r other)).mpr (inv.chained r (List.mem_of_mem_erase other))
      leaving := by
        rintro e (_ | ⟨_, turn⟩)
        · exact ⟨_, Function.update_self .., rfl, rfl⟩
        · exact elsewhere e turn
      owned := by
        intro j full
        by_cases same : j = i
        · exact .inr (same ▸ List.mem_cons_self)
        · have before : s.heap j ≠ Option.none := by simpa [State.write, same] using full
          rcases inv.owned j before with on | off
          · exact .inl ((List.mem_erase_of_ne same).mpr on)
          · exact .inr (List.mem_cons_of_mem _ off)
      accounted := by
        refine List.perm_middle.trans ?_
        exact (taken.symm.append_right _).trans inv.accounted
      lastJobs := inv.lastJobs
      numJobsRun := inv.numJobsRun
      ordered := inv.ordered.sublist fewer
      walks := by
        intro q j goes
        obtain ⟨other, visitor⟩ := goOn q j goes
        have on : j ∈ s.jcrs.erase i := (List.mem_erase_of_ne (others _ other)).mpr
          (inv.chained _ (List.mem_of_mem_erase other))
        exact ⟨other, visitor.leave fewer.subset (List.mem_map_of_mem on)⟩
      once := inv.once }

theorem jcrWalkEnd_inv (inv : Inv s) (goes : s.walking p = some i) :
    ∃ s', jcrWalkEnd s p i = some s' ∧ Inv s' := by
  have stopped : Inv (s.walkTo p none (s.seen p)) :=
    walkTo_inv inv (inv.once p) (fun j goes => by cases goes)
  exact freeJcr_inv stopped (inv.walks p i goes).1 (by simp [State.walkTo])

/-- An entry is appended, and the first one goes when there are more than ten. -/
theorem lastJobs_append (ended : List LastJob) (je : LastJob) :
    (if maxLastJobs < (ended.drop (ended.length - maxLastJobs) ++ [je]).length then
      (ended.drop (ended.length - maxLastJobs) ++ [je]).tail
    else ended.drop (ended.length - maxLastJobs) ++ [je]) =
      (ended ++ [je]).drop ((ended ++ [je]).length - maxLastJobs) := by
  have appended : ended.drop (ended.length - maxLastJobs) ++ [je] =
      (ended ++ [je]).drop (ended.length - maxLastJobs) :=
    (List.drop_append_of_le_length (Nat.sub_le _ _)).symm
  rw [appended]
  simp only [List.length_drop, List.length_append, List.length_singleton]
  split
  case isTrue many =>
    rw [← List.drop_one, List.drop_drop]
    congr 1
    omega
  case isFalse few =>
    congr 1
    omega

omit [DecidableEq κ] in
theorem Inv.single (inv : Inv s) : (s.ending.map fun e => e.2.1).Nodup := by
  have all := inv.accounted.nodup_iff.mpr List.nodup_range
  have some := (List.nodup_append.mp (List.nodup_append.mp all).2.1).1
  exact .of_map s.serial some

/-- The thread that frees a record goes on: the list of the records that are freed stays. -/
theorem keepLastJob_inv (inv : Inv s) (turn : (p, i, false) ∈ s.ending) (now : ℤ) :
    ∃ s', keepLastJob s p i now = some s' ∧ Inv s' := by
  obtain ⟨jcr, here, zero, exits⟩ := inv.leaving _ turn
  have same : (((p, i, true) :: s.ending.erase (p, i, false)).map fun e => e.2.1).Perm
      (s.ending.map fun e => e.2.1) := ((List.perm_cons_erase turn).map fun e => e.2.1).symm
  have goesOn : Inv { s with ending := (p, i, true) :: s.ending.erase (p, i, false) } := { inv with
    leaving := by
      rintro e (_ | ⟨_, other⟩)
      · exact ⟨jcr, here, zero, exits⟩
      · exact inv.leaving e (List.mem_of_mem_erase other)
    owned := fun j full => (inv.owned j full).imp_right fun off => same.symm.subset off
    accounted := (((same.map s.serial).append_right s.freed).append_left _).trans inv.accounted }
  by_cases kept : jcr.last.kept = true
  · refine ⟨_, by rw [keepLastJob, here]; exact if_pos kept, ?_⟩
    exact { goesOn with
      lastJobs := by
        show (if _ < (s.lastJobs ++ [_]).length then (s.lastJobs ++ [_]).tail
          else s.lastJobs ++ [_]) = _
        rw [inv.lastJobs]
        exact lastJobs_append s.ended _
      numJobsRun := by
        show s.numJobsRun + 1 = (s.ended ++ [_]).length
        rw [inv.numJobsRun, List.length_append, List.length_singleton] }
  · exact ⟨_, by rw [keepLastJob, here]; exact if_neg kept, goesOn⟩

theorem freeCommonJcr_inv (inv : Inv s) (turn : (p, i, true) ∈ s.ending) :
    ∃ s', freeCommonJcr s p i = some s' ∧ Inv s' := by
  obtain ⟨jcr, here, -⟩ := inv.leaving _ turn
  have off : i ∉ s.jcrs := inv.apart turn
  have taken :
      (s.ending.map fun e => e.2.1).Perm (i :: (s.ending.erase (p, i, true)).map fun e => e.2.1) :=
    (List.perm_cons_erase turn).map fun e => e.2.1
  have alone : i ∉ (s.ending.erase (p, i, true)).map fun e => e.2.1 :=
    (List.nodup_cons.mp (taken.nodup_iff.mp inv.single)).1
  refine ⟨_, by rw [freeCommonJcr, here]; rfl, ?_⟩
  exact { inv with
    counted := by
      intro j on
      show ∃ jcr', Function.update s.heap i none j = _ ∧ _
      rw [Function.update_of_ne (ne_of_mem_of_not_mem on off)]
      exact inv.counted j on
    leaving := by
      intro e other
      have differs : e.2.1 ≠ i := fun same => alone (List.mem_map.mpr ⟨e, other, same⟩)
      show ∃ jcr', Function.update s.heap i none e.2.1 = _ ∧ _
      rw [Function.update_of_ne differs]
      exact inv.leaving e (List.mem_of_mem_erase other)
    owned := by
      intro j full
      have differs : j ≠ i := by
        rintro rfl
        exact full (Function.update_self ..)
      have before : s.heap j ≠ none := by simpa [differs] using full
      exact (inv.owned j before).imp_right fun off =>
        (List.mem_cons.mp (taken.subset off)).resolve_left differs
    accounted := by
      refine List.Perm.trans (List.Perm.append_left _ ?_) inv.accounted
      refine List.perm_middle.trans ?_
      exact ((taken.map s.serial).symm.append_right s.freed) }

omit [DecidableEq κ] in
theorem jobCount_eq (inv : Inv s) : ∃ n, jobCount s = some n := by
  have alive (is : List ι) (all : ∀ i ∈ is, i ∈ s.jcrs) : ∃ jcrs, is.mapM s.heap = some jcrs := by
    induction is with
    | nil => exact ⟨[], rfl⟩
    | cons i rest ih =>
        obtain ⟨jcr, here, -⟩ := inv.counted i (all i List.mem_cons_self)
        obtain ⟨jcrs, others⟩ := ih fun j on => all j (List.mem_cons_of_mem i on)
        exact ⟨jcr :: jcrs, by simp [here, others]⟩
  obtain ⟨jcrs, all⟩ := alive s.jcrs fun i on => on
  exact ⟨_, by rw [jobCount, all]; rfl⟩

/-- What a thread may do, it can do, and the invariant is kept. -/
theorem perform_inv (inv : Inv s) {a : Action κ ι} (allowed : Allowed s a) :
    ∃ s', perform s a = some s' ∧ Inv s' := by
  cases a with
  | newJcr p i => exact ⟨_, rfl, newJcr_inv inv allowed p⟩
  | setJob p i last => exact setJob_inv inv allowed last
  | incUseCount p i other =>
      obtain ⟨s', gets, inv', -⟩ := incUseCount_inv inv (inv.alive allowed).1 other
      exact ⟨s', gets, inv'⟩
  | jcrWalkStart p =>
      obtain ⟨s', starts, inv', -⟩ := jcrWalkStart_inv inv p
      exact ⟨s', starts, inv'⟩
  | jcrWalkNext p i =>
      obtain ⟨s', goes, inv', -⟩ := jcrWalkNext_inv inv allowed
      exact ⟨s', goes, inv'⟩
  | jcrWalkEnd p i => exact jcrWalkEnd_inv inv allowed
  | freeJcr p i => exact freeJcr_inv inv allowed.1 allowed.2
  | keepLastJob p i now => exact keepLastJob_inv inv allowed now
  | freeCommonJcr p i => exact freeCommonJcr_inv inv allowed
  | jobCount =>
      obtain ⟨n, counts⟩ := jobCount_eq inv
      exact ⟨s, by rw [perform, counts]; rfl, inv⟩

theorem step_inv (inv : Inv s) {a : Action κ ι} (step : Step s a s') : Inv s' := by
  obtain ⟨t, performs, inv'⟩ := perform_inv inv step.1
  have same : t = s' := Option.some.inj (performs.symm.trans step.2)
  exact same ▸ inv'

theorem run_inv {addresses : ι → ℕ} {actions : List (Action κ ι)}
    (run : Run Step (init κ ι addresses) actions s) :
    Inv s :=
  run.invariant (fun _ _ _ inv step => step_inv inv step) (init_inv addresses)

/-- The law holds in every state of a run, and nothing that a thread may do there touches a record that
was freed, unlinks one that is not on the chain or gives back more references than there are. -/
theorem chain_law {addresses : ι → ℕ} {actions : List (Action κ ι)}
    (run : Run Step (init κ ι addresses) actions s) :
    Law s ∧ ∀ a, Allowed s a → (perform s a).isSome := by
  have inv := run_inv run
  refine ⟨inv.toLaw, fun a allowed => ?_⟩
  obtain ⟨s', performs, -⟩ := perform_inv inv allowed
  exact Option.isSome_iff_exists.mpr ⟨s', performs⟩

/-- A record is created at the address of one that a walk has just been the last to leave. -/
theorem chain_law_reused : ∃ s : State ℕ ℕ, Run Step (init ℕ ℕ fun _ => 0)
    [.newJcr 1 0, .setJob 1 0 ⟨0, 'B', 'T', 'F', 5, 1, 1, 2, 3, 4, 0, "Job.5"⟩, .jcrWalkStart 2,
      .freeJcr 1 0,
      .newJcr 3 1, .jcrWalkNext 2 0, .freeJcr 2 0, .keepLastJob 2 0 9, .freeCommonJcr 2 0,
        .newJcr 1 0] s ∧
    Law s ∧ s.jcrs = [1, 0] ∧ s.freed = [0] ∧ s.lastJobs.map LastJob.jobId = [5] := by
  obtain ⟨s, run, chain, freed, last⟩ : ∃ s : State ℕ ℕ, Run Step (init ℕ ℕ fun _ => 0)
      [.newJcr 1 0, .setJob 1 0 ⟨0, 'B', 'T', 'F', 5, 1, 1, 2, 3, 4, 0, "Job.5"⟩, .jcrWalkStart 2,
        .freeJcr 1 0, .newJcr 3 1, .jcrWalkNext 2 0, .freeJcr 2 0, .keepLastJob 2 0 9,
        .freeCommonJcr 2 0, .newJcr 1 0] s ∧
      s.jcrs = [1, 0] ∧ s.freed = [0] ∧ s.lastJobs.map LastJob.jobId = [5] := by
    refine ⟨?last, ?run, ?chain, ?freed, ?jobs⟩
    case run =>
      refine .cons ⟨by decide, rfl⟩ ?_
      refine .cons ⟨by decide, rfl⟩ ?_
      refine .cons ⟨by decide, rfl⟩ ?_
      refine .cons ⟨by decide, rfl⟩ ?_
      refine .cons ⟨by decide, rfl⟩ ?_
      refine .cons ⟨by decide, rfl⟩ ?_
      refine .cons ⟨by decide, rfl⟩ ?_
      refine .cons ⟨by decide, rfl⟩ ?_
      refine .cons ⟨by decide, rfl⟩ ?_
      refine .cons ⟨by decide, rfl⟩ ?_
      exact .nil _
    case chain => rfl
    case freed => rfl
    case jobs => rfl
  exact ⟨s, run, (chain_law run).1, chain, freed, last⟩

/-- However records come and go in the meantime, a walk that comes to its end has seen every record
that is on the chain then, and it never sees a record twice. -/
theorem walk_law {addresses : ι → ℕ} {actions : List (Action κ ι)} {a : Action κ ι}
    (run : Run Step (init κ ι addresses) actions s)
    (walk : a = .jcrWalkStart p ∨ ∃ i, a = .jcrWalkNext p i) (step : Step s a s') :
    (s'.seen p).Pairwise (· < ·) ∧ (s'.walking p = none → ∀ i ∈ s'.jcrs, s'.serial i ∈ s'.seen p) := by
  have inv := run_inv run
  refine ⟨(step_inv inv step).once p, fun stops i on => ?_⟩
  obtain ⟨allowed, performs⟩ := step
  rcases walk with rfl | ⟨j, rfl⟩
  · obtain ⟨t, starts, -, empty⟩ := jcrWalkStart_inv inv p
    have same : t = s' := Option.some.inj (starts.symm.trans performs)
    subst same
    rw [empty stops] at on
    cases on
  · obtain ⟨t, goes, -, all⟩ := jcrWalkNext_inv inv allowed
    have same : t = s' := Option.some.inj (goes.symm.trans performs)
    subst same
    exact all stops _ (List.mem_map_of_mem on)

/-- The record that the walk began with is gone when it comes to its end. -/
theorem walk_law_changing : ∃ s s' : State ℕ ℕ, Run Step (init ℕ ℕ fun _ => 0)
    [.newJcr 1 0, .jcrWalkStart 2, .freeJcr 1 0, .newJcr 3 1, .jcrWalkNext 2 0, .freeJcr 2 0] s ∧
    Step s (.jcrWalkNext 2 1) s' ∧ s'.seen 2 = [0, 1] ∧ s'.jcrs = [1] ∧
      ∀ i ∈ s'.jcrs, s'.serial i ∈ s'.seen 2 := by
  obtain ⟨s, run, s', step, seen, chain, stops⟩ : ∃ s : State ℕ ℕ, Run Step (init ℕ ℕ fun _ => 0)
      [.newJcr 1 0, .jcrWalkStart 2, .freeJcr 1 0, .newJcr 3 1, .jcrWalkNext 2 0, .freeJcr 2 0] s ∧
      ∃ s', Step s (.jcrWalkNext 2 1) s' ∧ s'.seen 2 = [0, 1] ∧ s'.jcrs = [1] ∧
        s'.walking 2 = none := by
    refine ⟨?middle, ?run, ?step⟩
    case run =>
      refine .cons ⟨by decide, rfl⟩ ?_
      refine .cons ⟨by decide, rfl⟩ ?_
      refine .cons ⟨by decide, rfl⟩ ?_
      refine .cons ⟨by decide, rfl⟩ ?_
      refine .cons ⟨by decide, rfl⟩ ?_
      refine .cons ⟨by decide, rfl⟩ ?_
      exact .nil _
    case step => exact ⟨_, ⟨by decide, rfl⟩, rfl, rfl, rfl⟩
  exact ⟨s, s', run, step, seen, chain, (walk_law run (.inr ⟨1, rfl⟩) step).2 stops⟩

end Code

end Bacula.JcrChain
