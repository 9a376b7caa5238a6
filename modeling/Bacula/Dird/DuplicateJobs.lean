import Bacula.Lib.JobStatus

/-! Duplicate jobs, `allow_duplicate_job` of `dird/job.c`. The chain is walked without the job itself,
and no other thread changes a job meanwhile. -/
namespace Bacula.DuplicateJobs
open JobStatus

/-- The `JT_` codes. -/
inductive JobType where
  | backup | migratedJob | verify | restore | console | system | admin | archive | jobCopy | copy
  | migrate | scan
  deriving DecidableEq, Repr

/-- The `L_` codes. -/
inductive JobLevel where
  | full | incremental | differential | since | verifyCatalog | verifyInit | verifyVolumeToCatalog
  | verifyDiskToCatalog | verifyData | base | none | virtualFull
  deriving DecidableEq, Repr

/-- The job resource. -/
structure JOB where
  name : String
  allowDuplicateJobs : Bool
  duplicateJobProximity : ℤ
  cancelLowerLevelDuplicates : Bool
  cancelQueuedDuplicates : Bool
  cancelRunningDuplicates : Bool
  deriving DecidableEq, Repr

structure Bsock where
  terminated : Bool
  timedOut : Bool
  deriving DecidableEq, Repr

/-- Where a job is in the job queue. -/
inductive QueuePlace where
  | outside | waiting | ready
  deriving DecidableEq, Repr

structure Jcr where
  jobId : ℕ
  job : Option JOB
  jobType : JobType
  jobLevel : JobLevel
  jobStatus : Status
  ignoreDuplicateJobChecking : Bool
  startTime : ℤ
  place : QueuePlace
  fileBsock : Option Bsock
  storeBsock : Option Bsock
  /-- of the job that writes for a copy or migration -/
  wjcrStoreBsock : Option Bsock
  deriving DecidableEq, Repr

def Jcr.isInternalJob (jcr : Jcr) : Bool :=
  jcr.jobId = 0 ∨ jcr.jobType = .system ∨ jcr.jobType = .console

def Jcr.setJobStatus (jcr : Jcr) (status : Status) : Jcr :=
  { jcr with jobStatus := JobStatus.setJobStatus jcr.jobStatus status }

/-- `is_canceled` -/
def Jcr.isCanceled (jcr : Jcr) : Bool := jobCanceled jcr.jobStatus

/-- The statuses of a job that is in the job queue. -/
def queued : Status → Bool
  | .created | .waitJobRes | .waitClientRes | .waitStoreRes | .waitPriority | .waitMaxJobs
  | .waitStartTime | .waitDevice => true
  | _ => false

/-- `jobq_remove`: a job that waits is made ready, to end at once. -/
def jobqRemove : QueuePlace → QueuePlace
  | .waiting => .ready
  | place => place

def Bsock.setTerminated (sock : Bsock) : Bsock := { sock with terminated := true }

def Bsock.setTimedOut (sock : Bsock) : Bsock := { sock with timedOut := true }

/-- `cancel_job`: what it does to the job. Its messages to the daemons and to the console are left
out. -/
def cancelJob (jcr : Jcr) : Jcr :=
  let oldStatus := jcr.jobStatus
  let jcr := jcr.setJobStatus .canceled
  if queued oldStatus then { jcr with place := jobqRemove jcr.place }
  else { jcr with
    fileBsock := jcr.fileBsock.map Bsock.setTerminated
    storeBsock := jcr.storeBsock.map fun sock => sock.setTimedOut.setTerminated
    wjcrStoreBsock := jcr.wjcrStoreBsock.map fun sock => sock.setTimedOut.setTerminated }

/-- Zap the duplicated job djcr -/
def zapDuplicate (djcr : Jcr) : Jcr := cancelJob ((cancelJob djcr).setJobStatus .canceled)

/-- Zap current job; the fatal message sets the status once more. -/
def zapCurrent (jcr : Jcr) : Jcr := (jcr.setJobStatus .canceled).setJobStatus .fatalError

/-- The jobs that the walk does not pass over; `now` is the clock when the walk comes to a job. -/
def isDuplicate (now : Jcr → ℤ) (job : JOB) (jcr djcr : Jcr) : Bool :=
  match djcr.job with
  | none => false -- do not cancel consoles
  | some djob =>
      !djcr.isInternalJob && !djcr.ignoreDuplicateJobChecking &&
        -- A duplicate is about the same name and the same type
        (job.name = djob.name && djcr.jobType = jcr.jobType) &&
        !(job.duplicateJobProximity > 0 && now djcr - djcr.startTime > job.duplicateJobProximity)

/-- What the levels say: `cancel_dup` and `cancel_me`. -/
def compareLevels (level duplicate : JobLevel) : Bool × Bool :=
  match level with
  | .full | .virtualFull => (duplicate = .differential ∨ duplicate = .incremental, false)
  | .differential => (duplicate = .incremental, duplicate = .full)
  | .incremental => (false, duplicate = .full ∨ duplicate = .differential)
  | _ => (false, false)

/-- Cancel one of the two jobs (me or dup): whether it is the duplicate. -/
def cancelsDuplicate (job : JOB) (jcr djcr : Jcr) : Bool :=
  let (cancelDup, cancelMe) :=
    if job.cancelLowerLevelDuplicates ∧ djcr.jobType = .backup ∧ jcr.jobType = .backup then
      compareLevels jcr.jobLevel djcr.jobLevel
    else (false, false)
  if cancelMe then false
  else
    let cancelDup := cancelDup || (job.cancelQueuedDuplicates && queued djcr.jobStatus)
    cancelDup || job.cancelRunningDuplicates

/-- The walk through the chain, up to the first duplicate. -/
def walk (now : Jcr → ℤ) (job : JOB) (jcr : Jcr) : List Jcr → Jcr × List Jcr
  | [] => (jcr, [])
  | djcr :: rest =>
      if isDuplicate now job jcr djcr then
        -- did our work, get out of foreach loop
        if cancelsDuplicate job jcr djcr then (jcr, zapDuplicate djcr :: rest)
        else (zapCurrent jcr, djcr :: rest)
      else ((walk now job jcr rest).1, djcr :: (walk now job jcr rest).2)

/-- `allow_duplicate_job`: whether the job should continue, the job, and the others. -/
def allowDuplicateJob (now : Jcr → ℤ) (job : JOB) (jcr : Jcr) (chain : List Jcr) :
    Bool × Jcr × List Jcr :=
  if job.allowDuplicateJobs ∨ jcr.ignoreDuplicateJobChecking then (true, jcr, chain)
  else
    let (jcr, chain) := walk now job jcr chain
    (!jcr.isCanceled, jcr, chain)

/-! ## What one walk does -/

variable {now : Jcr → ℤ} {job : JOB} {jcr djcr : Jcr} {chain : List Jcr}

theorem cancelJob_status (jcr : Jcr) :
    (cancelJob jcr).jobStatus = setJobStatus jcr.jobStatus .canceled := by
  unfold cancelJob
  dsimp only
  split <;> rfl

/-- A job that was stopped keeps its status; any other job ends up canceled. -/
theorem setJobStatus_canceled (status : Status) :
    jobCanceled (setJobStatus status .canceled) = true ↔ status ≠ .incomplete := by
  cases status <;> decide

theorem setJobStatus_again (status : Status) :
    setJobStatus (setJobStatus status .canceled) .canceled = setJobStatus status .canceled := by
  cases status <;> decide

theorem zapDuplicate_isCanceled (djcr : Jcr) : (zapDuplicate djcr).isCanceled = true ↔
    djcr.jobStatus ≠ .incomplete := by
  have status : (zapDuplicate djcr).jobStatus = setJobStatus djcr.jobStatus .canceled := by
    rw [zapDuplicate, cancelJob_status, Jcr.setJobStatus, cancelJob_status, setJobStatus_again,
      setJobStatus_again]
  rw [Jcr.isCanceled, status]
  exact setJobStatus_canceled djcr.jobStatus

theorem zapCurrent_isCanceled (jcr : Jcr) : (zapCurrent jcr).isCanceled = true ↔
    jcr.jobStatus ≠ .incomplete := by
  change jobCanceled (setJobStatus (setJobStatus jcr.jobStatus .canceled) .fatalError) = true ↔ _
  cases jcr.jobStatus <;> decide

/-- The duplicate that the walk comes to first, and what is done about it. -/
inductive Walked (now : Jcr → ℤ) (job : JOB) (jcr : Jcr) : List Jcr → Jcr → List Jcr → Prop where
  | alone {chain : List Jcr} : (∀ djcr ∈ chain, isDuplicate now job jcr djcr = false) →
      Walked now job jcr chain jcr chain
  | duplicate {before after : List Jcr} {djcr : Jcr} :
      (∀ other ∈ before, isDuplicate now job jcr other = false) →
      isDuplicate now job jcr djcr = true → cancelsDuplicate job jcr djcr = true →
      Walked now job jcr (before ++ djcr :: after) jcr (before ++ zapDuplicate djcr :: after)
  | current {before after : List Jcr} {djcr : Jcr} :
      (∀ other ∈ before, isDuplicate now job jcr other = false) →
      isDuplicate now job jcr djcr = true → cancelsDuplicate job jcr djcr = false →
      Walked now job jcr (before ++ djcr :: after) (zapCurrent jcr) (before ++ djcr :: after)

theorem Walked.cons {others : List Jcr} {jcr' : Jcr} (walked : Walked now job jcr chain jcr' others)
    (passed : isDuplicate now job jcr djcr = false) :
    Walked now job jcr (djcr :: chain) jcr' (djcr :: others) := by
  have more {before : List Jcr} (none : ∀ other ∈ before, isDuplicate now job jcr other = false) :
      ∀ other ∈ djcr :: before, isDuplicate now job jcr other = false := by
    intro other member
    rcases List.mem_cons.mp member with rfl | member
    · exact passed
    · exact none other member
  cases walked with
  | alone none => exact .alone (more none)
  | duplicate none isOne cancels => exact .duplicate (more none) isOne cancels
  | current none isOne gives => exact .current (more none) isOne gives

theorem walk_walked (now : Jcr → ℤ) (job : JOB) (jcr : Jcr) (chain : List Jcr) :
    Walked now job jcr chain (walk now job jcr chain).1 (walk now job jcr chain).2 := by
  induction chain with
  | nil => exact .alone fun djcr member => absurd member List.not_mem_nil
  | cons djcr rest ih =>
      unfold walk
      split
      case isTrue isOne =>
        split
        case isTrue cancels => exact .duplicate (List.forall_mem_nil _) isOne cancels
        case isFalse gives => exact .current (List.forall_mem_nil _) isOne (by simpa using gives)
      case isFalse passed => exact ih.cons (by simpa using passed)

/-! ## The law -/

/-- Another job of the same name and type, inside the window if one is set. -/
structure Duplicate (now : Jcr → ℤ) (job : JOB) (jcr djcr : Jcr) : Prop where
  external : djcr.isInternalJob = false
  name : ∃ djob, djcr.job = some djob ∧ djob.name = job.name
  type : djcr.jobType = jcr.jobType
  checked : djcr.ignoreDuplicateJobChecking = false
  inWindow : 0 < job.duplicateJobProximity → now djcr - djcr.startTime ≤ job.duplicateJobProximity

theorem isDuplicate_iff (now : Jcr → ℤ) (job : JOB) (jcr djcr : Jcr) :
    isDuplicate now job jcr djcr = true ↔ Duplicate now job jcr djcr := by
  unfold isDuplicate
  cases named : djcr.job with
  | none =>
      refine iff_of_false Bool.false_ne_true fun duplicate => ?_
      obtain ⟨djob, some, -⟩ := duplicate.name
      cases named.symm.trans some
  | some djob =>
      simp only [Bool.and_eq_true, Bool.not_eq_true', decide_eq_true_eq, Bool.and_eq_false_iff,
        decide_eq_false_iff_not]
      constructor
      · rintro ⟨⟨⟨external, checked⟩, name, type⟩, window⟩
        refine ⟨external, ⟨djob, named, name.symm⟩, type, checked, fun set => ?_⟩
        rcases window with off | inside
        · exact absurd set off
        · exact not_lt.mp inside
      · rintro ⟨external, ⟨djob', some, name⟩, type, checked, window⟩
        obtain rfl := Option.some_inj.mp (named.symm.trans some)
        refine ⟨⟨⟨external, checked⟩, name.symm, type⟩, ?_⟩
        by_cases set : 0 < job.duplicateJobProximity
        · exact .inr (not_lt.mpr (window set))
        · exact .inl set

/-- When the job may go on, its duplicates are canceled; when not, the others are as they were, but
for those it canceled. -/
structure DuplicateLaw (now : Jcr → ℤ) (job : JOB) (jcr : Jcr) (chain : List Jcr) : Prop where
  goesOn : job.allowDuplicateJobs = false → jcr.ignoreDuplicateJobChecking = false →
    (allowDuplicateJob now job jcr chain).1 = true →
      List.Forall₂ (fun djcr djcr' => Duplicate now job jcr djcr → djcr'.isCanceled = true) chain
        (allowDuplicateJob now job jcr chain).2.2
  stops : (allowDuplicateJob now job jcr chain).1 = false →
    List.Forall₂ (fun djcr djcr' => djcr' = djcr ∨ djcr' = zapDuplicate djcr) chain
      (allowDuplicateJob now job jcr chain).2.2

/-- All duplicates of a list are canceled. -/
def AllCanceled (now : Jcr → ℤ) (job : JOB) (jcr : Jcr) (chain : List Jcr) : Prop :=
  ∀ djcr ∈ chain, Duplicate now job jcr djcr → djcr.isCanceled = true

/-- The first duplicate is the only one that is not canceled yet, if it is the one to be canceled. A
job that was stopped can not be canceled. -/
def FirstDecides (now : Jcr → ℤ) (job : JOB) (jcr : Jcr) (chain : List Jcr) : Prop :=
  ∀ before djcr after, chain = before ++ djcr :: after →
    (∀ other ∈ before, ¬ Duplicate now job jcr other) → Duplicate now job jcr djcr →
      if cancelsDuplicate job jcr djcr then djcr.jobStatus ≠ .incomplete ∧ AllCanceled now job jcr after
      else jcr.jobStatus = .incomplete → AllCanceled now job jcr (djcr :: after)

theorem allowDuplicateJob_off
    (off : job.allowDuplicateJobs = true ∨ jcr.ignoreDuplicateJobChecking = true) :
    allowDuplicateJob now job jcr chain = (true, jcr, chain) := by
  unfold allowDuplicateJob
  rw [if_pos off]

theorem allowDuplicateJob_on (allow : job.allowDuplicateJobs = false)
    (ignore : jcr.ignoreDuplicateJobChecking = false) :
    allowDuplicateJob now job jcr chain =
      (!(walk now job jcr chain).1.isCanceled, (walk now job jcr chain).1,
      (walk now job jcr chain).2) := by
  unfold allowDuplicateJob
  rw [if_neg (by simp [allow, ignore])]

/-- Lists that differ in one place. -/
theorem forall₂_middle {r : Jcr → Jcr → Prop} {before after : List Jcr} {djcr djcr' : Jcr} :
    List.Forall₂ r (before ++ djcr :: after) (before ++ djcr' :: after) ↔
      (∀ other ∈ before, r other other) ∧ r djcr djcr' ∧ ∀ other ∈ after, r other other := by
  induction before with
  | nil => simp [List.forall₂_same]
  | cons first before ih =>
      rw [List.cons_append, List.cons_append, List.forall₂_cons, ih, List.forall_mem_cons, and_assoc]

/-- A list has one first element of a kind. -/
theorem first_unique {p : Jcr → Prop} {before after before' after' : List Jcr} {djcr djcr' : Jcr}
    (none : ∀ other ∈ before, ¬ p other) (isOne : p djcr) (none' : ∀ other ∈ before', ¬ p other)
    (isOne' : p djcr') (same : before ++ djcr :: after = before' ++ djcr' :: after') :
    djcr = djcr' ∧ after = after' := by
  induction before generalizing before' with
  | nil =>
      cases before' with
      | nil => exact List.cons.inj same
      | cons first before' =>
          obtain ⟨rfl, -⟩ := List.cons.inj same
          exact absurd isOne (none' djcr List.mem_cons_self)
  | cons first before ih =>
      cases before' with
      | nil =>
          obtain ⟨rfl, -⟩ := List.cons.inj same
          exact absurd isOne' (none first List.mem_cons_self)
      | cons first' before' =>
          obtain ⟨-, rest⟩ := List.cons.inj same
          exact ih (fun other member => none other (List.mem_cons_of_mem _ member))
            (fun other member => none' other (List.mem_cons_of_mem _ member)) rest

theorem Walked.untouched {jcr' : Jcr} {others : List Jcr}
    (walked : Walked now job jcr chain jcr' others) :
    List.Forall₂ (fun djcr djcr' => djcr' = djcr ∨ djcr' = zapDuplicate djcr) chain others := by
  cases walked with
  | alone none => exact List.forall₂_same.mpr fun djcr _ => .inl rfl
  | duplicate none isOne cancels =>
      exact forall₂_middle.mpr ⟨fun other _ => .inl rfl, .inr rfl, fun other _ => .inl rfl⟩
  | current none isOne gives => exact List.forall₂_same.mpr fun djcr _ => .inl rfl

theorem firstDecides_split {before after : List Jcr}
    (none : ∀ other ∈ before, ¬ Duplicate now job jcr other) (isOne : Duplicate now job jcr djcr) :
    FirstDecides now job jcr (before ++ djcr :: after) ↔
      if cancelsDuplicate job jcr djcr then djcr.jobStatus ≠ .incomplete ∧ AllCanceled now job jcr after
      else jcr.jobStatus = .incomplete → AllCanceled now job jcr (djcr :: after) := by
  constructor
  · intro first
    exact first before djcr after rfl none isOne
  · intro settled before' djcr' after' split none' isOne'
    obtain ⟨rfl, rfl⟩ := first_unique none isOne none' isOne' split
    exact settled

theorem not_duplicate {list : List Jcr} (none : ∀ other ∈ list, isDuplicate now job jcr other = false) :
    ∀ other ∈ list, ¬ Duplicate now job jcr other := by
  intro other member duplicate
  rw [← isDuplicate_iff, none other member] at duplicate
  cases duplicate

/-- What the duplicates have to be for the walk to leave none behind. -/
theorem Walked.goesOn_iff {jcr' : Jcr} {others : List Jcr}
    (walked : Walked now job jcr chain jcr' others) :
    (jcr'.isCanceled = false →
      List.Forall₂ (fun djcr djcr' => Duplicate now job jcr djcr → djcr'.isCanceled = true) chain
        others) ↔
    jcr.isCanceled = true ∨ FirstDecides now job jcr chain := by
  cases walked with
  | alone none =>
      have nothing := not_duplicate none
      refine iff_of_true (fun _ => ?_) (.inr fun before djcr after split first isOne => ?_)
      · exact List.forall₂_same.mpr fun djcr member isOne => absurd isOne (nothing djcr member)
      · exact absurd isOne (nothing djcr (split ▸ by simp))
  | @duplicate before after djcr none isOne cancels =>
      have nothing := not_duplicate none
      have here := (isDuplicate_iff now job jcr djcr).mp isOne
      rw [firstDecides_split nothing here, if_pos cancels, forall₂_middle, zapDuplicate_isCanceled]
      constructor
      · intro law
        cases canceled : jcr.isCanceled with
        | true => exact .inl rfl
        | false =>
            obtain ⟨-, zapped, rest⟩ := law canceled
            exact .inr ⟨zapped here, rest⟩
      · rintro (canceled | ⟨zapped, rest⟩) going
        · rw [canceled] at going
          cases going
        · exact ⟨fun other member isOne => absurd isOne (nothing other member), fun _ => zapped, rest⟩
  | @current before after djcr none isOne gives =>
      have nothing := not_duplicate none
      have here := (isDuplicate_iff now job jcr djcr).mp isOne
      have stopped : (zapCurrent jcr).isCanceled = false ↔ jcr.jobStatus = .incomplete := by
        rw [← Bool.not_eq_true, zapCurrent_isCanceled, not_not]
      rw [firstDecides_split nothing here, if_neg (by simp [gives]), List.forall₂_same, stopped]
      constructor
      · intro law
        refine .inr fun incomplete other member => ?_
        exact law incomplete other (List.mem_append_right before member)
      · rintro (canceled | law) incomplete other member isOther
        · rw [Jcr.isCanceled, incomplete] at canceled
          cases canceled
        · rcases List.mem_append.mp member with member | member
          · exact absurd isOther (nothing other member)
          · exact law incomplete other member isOther

/-- The duplicates of a job that goes on are all canceled exactly when the first of them decides. -/
theorem duplicate_law_iff (now : Jcr → ℤ) (job : JOB) (jcr : Jcr) (chain : List Jcr) :
    DuplicateLaw now job jcr chain ↔
      job.allowDuplicateJobs = true ∨ jcr.ignoreDuplicateJobChecking = true ∨ jcr.isCanceled = true ∨
        FirstDecides now job jcr chain := by
  have walked := walk_walked now job jcr chain
  by_cases off : job.allowDuplicateJobs = true ∨ jcr.ignoreDuplicateJobChecking = true
  · have call : allowDuplicateJob now job jcr chain = _ := allowDuplicateJob_off off
    refine iff_of_true ⟨fun allow ignore => ?_, fun stopped => ?_⟩ (or_assoc.mp (.inl off))
    · rw [allow, ignore] at off
      simp at off
    · rw [call] at stopped
      cases stopped
  · rw [not_or, Bool.not_eq_true, Bool.not_eq_true] at off
    obtain ⟨allow, ignore⟩ := off
    have call : allowDuplicateJob now job jcr chain = _ := allowDuplicateJob_on allow ignore
    have others : (allowDuplicateJob now job jcr chain).2.2 = (walk now job jcr chain).2 := by rw [call]
    have result : (allowDuplicateJob now job jcr chain).1 = true ↔
        (walk now job jcr chain).1.isCanceled = false := by
      rw [call, Bool.not_eq_true']
    have goesOn := walked.goesOn_iff
    simp only [allow, ignore, Bool.false_eq_true, false_or]
    rw [← goesOn]
    constructor
    · intro law going
      rw [← others]
      exact law.goesOn allow ignore (result.mpr going)
    · intro settled
      refine ⟨fun _ _ going => ?_, fun _ => ?_⟩
      · rw [others]
        exact settled (result.mp going)
      · rw [others]
        exact walked.untouched

def nightly : JOB where
  name := "nightly"
  allowDuplicateJobs := false
  duplicateJobProximity := 0
  cancelLowerLevelDuplicates := false
  cancelQueuedDuplicates := false
  cancelRunningDuplicates := true

def running (jobId : ℕ) : Jcr where
  jobId := jobId
  job := some nightly
  jobType := .backup
  jobLevel := .full
  jobStatus := .running
  ignoreDuplicateJobChecking := false
  startTime := 0
  place := .outside
  fileBsock := none
  storeBsock := none
  wjcrStoreBsock := none

/-- Of two running duplicates the second one runs on. -/
theorem second_duplicate_runs :
    (allowDuplicateJob (fun _ => 0) nightly (running 3) [running 1, running 2]).1 = true ∧
      ¬ DuplicateLaw (fun _ => 0) nightly (running 3) [running 1, running 2] := by
  have goes : (allowDuplicateJob (fun _ => 0) nightly (running 3) [running 1, running 2]).1 =
      true := by decide
  have others : (allowDuplicateJob (fun _ => 0) nightly (running 3) [running 1, running 2]).2.2 =
      [zapDuplicate (running 1), running 2] := by decide
  refine ⟨goes, fun law => ?_⟩
  have canceled := law.goesOn rfl rfl goes
  rw [others, List.forall₂_cons, List.forall₂_cons] at canceled
  have isOne := (isDuplicate_iff (fun _ => 0) nightly (running 3) (running 2)).mp (by decide)
  exact absurd (canceled.2.1 isOne) (by decide)

end Bacula.DuplicateJobs
