import Bacula.Library.Transition

/-! The job queue of `dird/jobq.c`. A step of the queue is what one thread does while it holds
`jq->mutex`. The results of the system calls, of `acquire_resources` and of `time` are inputs of
the step, and so is what `reschedule_job` reads of a job that has run. -/
namespace Bacula

/-- A job and what the queue reads of it and of its resource. -/
structure JCR where
  jobId : ℕ
  jobPriority : ℤ
  allowMixedPriority : Bool
  deriving DecidableEq

namespace Jobq

/-- A job that `jobq_add` got from one of its callers, by the number of that call. A job that is
rescheduled is handed over once more. -/
structure Handed where
  number : ℕ
  jcr : JCR
  deriving DecidableEq

/-- `jobq_item_t`, with a number for its allocation. -/
structure JobqItem extends Handed where
  serial : ℕ
  /-- a pass over the waiting queue has made it ready -/
  passed : Bool
  deriving DecidableEq

/-- Where a worker is while it does not have the mutex. -/
inductive Place where
  /-- before a `P(jq->mutex)` that a look into the ready queue follows -/
  | lock
  | timedwait
  /-- in `bmicrosleep` -/
  | pause
  | engine (je : JobqItem)
  /-- in `reschedule_job`, before its `jobq_add` -/
  | requeue (je : JobqItem)
  /-- in `reschedule_job`, before its `run_job` -/
  | runJob
  | exited
  deriving DecidableEq

/-- A thread in `jobq_server`. -/
structure Worker where
  timedout : Bool
  place : Place
  deriving DecidableEq

end Jobq

/-- `jobq_t`, the threads that use the queue, and what has happened so far. -/
structure Jobq where
  /-- list of jobs waiting -/
  waitingJobs : List Jobq.JobqItem
  /-- jobs running -/
  runningJobs : List Jobq.JobqItem
  /-- jobs ready to run -/
  readyJobs : List Jobq.JobqItem
  /-- queue initialized -/
  valid : Bool
  /-- jobq should quit -/
  quit : Bool
  /-- max threads -/
  maxWorkers : ℤ
  /-- current threads -/
  numWorkers : ℤ
  /-- idle threads -/
  idleWorkers : ℤ
  workers : List Jobq.Worker
  /-- the jobs of the threads in `sched_wait` -/
  schedWait : List Jobq.Handed
  /-- `job_canceled`, by the number of the job -/
  canceled : ℕ → Bool
  /-- all jobs that were handed to `jobq_add` -/
  handed : List Jobq.Handed
  /-- the allocations of items -/
  allocations : ℕ
  /-- the calls of the engine -/
  engineCalls : List Jobq.Handed
  /-- the jobs that came back from the engine -/
  finished : List Jobq.Handed

namespace Jobq

/-- `jobq_init`. -/
def init (threads : ℤ) : Jobq where
  waitingJobs := []
  runningJobs := []
  readyJobs := []
  valid := true
  quit := false
  maxWorkers := threads
  numWorkers := 0
  idleWorkers := 0
  workers := []
  schedWait := []
  canceled _ := false
  handed := []
  allocations := 0
  engineCalls := []
  finished := []

def einval : ℤ := 22

/-- `start_server`, where `stat` is the result of the system call. -/
def startServer (jq : Jobq) (stat : ℤ) : ℤ × Jobq :=
  if 0 < jq.idleWorkers then (stat, jq)
  else if jq.numWorkers < jq.maxWorkers then
    if stat ≠ 0 then (stat, jq)
    else (0, { jq with
      numWorkers := jq.numWorkers + 1
      workers := jq.workers ++ [⟨false, .lock⟩] })
  else (0, jq)

/-- Adds an item in priority sorted order. -/
def insertWaiting (item : JobqItem) : List JobqItem → List JobqItem
  | [] => [item]
  | li :: rest =>
      if li.jcr.jobPriority > item.jcr.jobPriority then item :: li :: rest
      else li :: insertWaiting item rest

/-- What a call of `jobq_add` finds outside of the queue. -/
structure AddEnv where
  /-- `jcr->sched_time - time(NULL)` -/
  wtime : ℤ
  /-- the result of the `pthread_create` for `sched_wait` -/
  schedStat : ℤ
  /-- the result of the system call in `start_server` -/
  serverStat : ℤ

/-- `jobq_add`. -/
def jobqAdd (jq : Jobq) (job : Handed) (env : AddEnv) : ℤ × Jobq :=
  if !jq.valid then (einval, jq)
  else if !jq.canceled job.number && 0 < env.wtime then
    if env.schedStat ≠ 0 then (env.schedStat, jq)
    else (0, { jq with schedWait := jq.schedWait ++ [job] })
  else
    let item : JobqItem := { job with serial := jq.allocations, passed := false }
    let jq := { jq with allocations := jq.allocations + 1 }
    if jq.canceled job.number then
      -- so that it is canceled quickly
      { jq with readyJobs := item :: jq.readyJobs }.startServer env.serverStat
    else { jq with waitingJobs := insertWaiting item jq.waitingJobs }.startServer env.serverStat

/-- `jobq_remove`. -/
def jobqRemove (jq : Jobq) (jcr : JCR) (stat : ℤ) : ℤ × Jobq :=
  if !jq.valid then (einval, jq)
  else
    match jq.waitingJobs.find? fun item => jcr = item.jcr with
    | none => (einval, jq)
    | some item =>
        { jq with
          waitingJobs := jq.waitingJobs.erase item
          readyJobs := item :: jq.readyJobs }.startServer stat

/-- A worker goes on somewhere else. -/
def setPlace (jq : Jobq) (i : ℕ) (worker : Worker) : Jobq :=
  { jq with workers := jq.workers.set i worker }

/-- A worker returns. -/
def exit (jq : Jobq) (i : ℕ) (timedout : Bool) : Jobq :=
  { jq with numWorkers := jq.numWorkers - 1 }.setPlace i ⟨timedout, .exited⟩

section Pass

/-- The priority that the pass over the waiting queue looks for. -/
def priority (runningJobs : List JobqItem) (je : JobqItem) : ℤ :=
  match runningJobs with
  | re :: _ => re.jcr.jobPriority
  | [] => je.jcr.jobPriority

/-- `running_allow_mix`. -/
def runningAllowMix (runningJobs : List JobqItem) : Bool :=
  !runningJobs.isEmpty && runningJobs.all fun re => re.jcr.allowMixedPriority

/-- Take only jobs of correct priority. -/
def takes (priority : ℤ) (runningAllowMix : Bool) (je : JobqItem) : Bool :=
  je.jcr.jobPriority = priority ||
    (je.jcr.jobPriority < priority && je.jcr.allowMixedPriority && runningAllowMix)

/-- The walk down the list of waiting jobs: those that go on waiting, and those that become
ready. The last argument says which jobs get their resources or are canceled. -/
def walk (takes : JobqItem → Bool) (acquire : JobqItem → Bool) :
    List JobqItem → List JobqItem × List JobqItem
  | [] => ([], [])
  | je :: rest =>
      if takes je then
        let (waiting, ready) := walk takes acquire rest
        if acquire je then (waiting, je :: ready) else (je :: waiting, ready)
      else (je :: rest, [])

/-- If any job in the wait queue can be run, move it to the ready queue. -/
def checkWaiting (jq : Jobq) (acquireResources : JobqItem → Bool) : Jobq :=
  match jq.waitingJobs with
  | [] => jq
  | je :: _ =>
      let taken := takes (priority jq.runningJobs je) (runningAllowMix jq.runningJobs)
      let (waiting, ready) := walk taken
        (fun je => acquireResources je || jq.canceled je.number) jq.waitingJobs
      { jq with
        waitingJobs := waiting
        readyJobs := jq.readyJobs ++ ready.map fun je => { je with passed := true } }

end Pass

/-- What a worker does from its look into the ready queue to the next release of the mutex. -/
def serve (jq : Jobq) (i : ℕ) (timedout : Bool) (stat : ℤ) (acquireResources : JobqItem → Bool) :
    Jobq :=
  match jq.readyJobs, jq.quit with
  | je :: ready, false =>
      let jq := { jq with readyJobs := ready }
      let (stat, jq) := if ready.isEmpty then ((0 : ℤ), jq) else jq.startServer stat
      if stat ≠ 0 then jq.exit i timedout
      else
        { jq with
          runningJobs := jq.runningJobs ++ [je]
          engineCalls := jq.engineCalls ++ [je.toHanded] }.setPlace i ⟨timedout, .engine je⟩
  | _, quit =>
      let jq := if quit then jq else jq.checkWaiting acquireResources
      if jq.readyJobs.isEmpty && quit then jq.exit i timedout
      else if jq.readyJobs.isEmpty && timedout then jq.exit i timedout
      else if !jq.readyJobs.isEmpty || !jq.waitingJobs.isEmpty then
        jq.setPlace i ⟨timedout, .pause⟩
      else jq.setPlace i ⟨timedout, .timedwait⟩

/-- What `reschedule_job` reads of a job. -/
structure JobEnd where
  /-- `jcr->job->RescheduleTimes` -/
  rescheduleTimes : ℤ
  rescheduleCount : ℤ
  jobStatus : Char
  rescheduleIncompleteJobs : Bool
  /-- `is_JobType(JT_BACKUP)` -/
  backup : Bool
  hasBase : Bool
  /-- `is_JobLevel(L_BASE)` -/
  base : Bool
  /-- `jcr->job->RescheduleOnError` -/
  rescheduleOnError : Bool
  /-- the result of `allow_duplicate_job` -/
  allowDuplicate : Bool
  jobBytes : ℕ

/-- `is_incomplete`. -/
def JobEnd.isIncomplete (job : JobEnd) : Bool := job.jobStatus = 'I'

/-- The `resched` of `reschedule_job`. -/
def JobEnd.resched (job : JobEnd) : Bool :=
  (job.rescheduleTimes = 0 || job.rescheduleCount < job.rescheduleTimes) &&
    if job.isIncomplete then
      job.rescheduleIncompleteJobs && job.backup && !(job.hasBase || job.base)
    else
      -- neither terminated nor canceled
      job.rescheduleOnError && job.jobStatus ≠ 'T' && job.jobStatus ≠ 'A' && job.backup

/-- Where `reschedule_job` goes on. A job that is not rescheduled is cleaned up. -/
def rescheduleJob (job : JobEnd) (je : JobqItem) : Place :=
  if !job.resched then .lock
  else if !job.allowDuplicate then .lock
  -- Only jobs with no output or Incomplete jobs can run on same JCR
  else if job.jobBytes = 0 || job.isIncomplete then .requeue je
  else .runJob

/-- Back from the engine. -/
def endEngine (jq : Jobq) (i : ℕ) (timedout : Bool) (je : JobqItem) (job : JobEnd) : Jobq :=
  { jq with
    runningJobs := jq.runningJobs.erase je
    finished := jq.finished ++ [je.toHanded] }.setPlace i ⟨timedout, rescheduleJob job je⟩

/-- A caller hands a job to `jobq_add`. -/
def handOver (jq : Jobq) (jcr : JCR) (env : AddEnv) : Jobq :=
  let job : Handed := ⟨jq.handed.length, jcr⟩
  ({ jq with handed := jq.handed ++ [job] }.jobqAdd job env).2

/-- The result of `pthread_cond_timedwait`. -/
inductive WaitStat where
  | zero | timedout | error

inductive Action where
  /-- a call of `jobq_add` -/
  | add (jcr : JCR) (env : AddEnv)
  /-- a call of `jobq_remove` -/
  | remove (jcr : JCR) (stat : ℤ)
  /-- another thread sets the status of a job -/
  | cancel (number : ℕ)
  /-- `sched_wait` is over, and calls `jobq_add` -/
  | wake (job : Handed) (env : AddEnv)
  | lock (i : ℕ) (stat : ℤ) (acquireResources : JobqItem → Bool)
  | timedwait (i : ℕ) (wait : WaitStat) (stat : ℤ) (acquireResources : JobqItem → Bool)
  | pause (i : ℕ) (stat : ℤ) (acquireResources : JobqItem → Bool)
  | engine (i : ℕ) (job : JobEnd)
  | requeue (i : ℕ) (env : AddEnv)
  /-- `run_job` hands the new job to `jobq_add` unless the job cannot be set up -/
  | runJob (i : ℕ) (njcr : Option JCR) (env : AddEnv)

/-- A step of one of the threads. -/
def step (jq : Jobq) : Action → Option Jobq
  | .add jcr env => some (jq.handOver jcr env)
  | .remove jcr stat => some (jq.jobqRemove jcr stat).2
  | .cancel number => some { jq with canceled := Function.update jq.canceled number true }
  | .wake job env =>
      if job ∈ jq.schedWait then
        some ({ jq with schedWait := jq.schedWait.erase job }.jobqAdd job env).2
      else none
  | .lock i stat acquireResources =>
      match jq.workers[i]? with
      | some ⟨timedout, .lock⟩ => some (jq.serve i timedout stat acquireResources)
      | _ => none
  | .timedwait i wait stat acquireResources =>
      match jq.workers[i]? with
      | some ⟨timedout, .timedwait⟩ =>
          match wait with
          | .error => some (jq.exit i timedout)
          | .timedout => some (jq.serve i true stat acquireResources)
          | .zero => some (jq.serve i timedout stat acquireResources)
      | _ => none
  | .pause i stat acquireResources =>
      match jq.workers[i]? with
      | some ⟨timedout, .pause⟩ =>
          if jq.readyJobs.isEmpty && jq.waitingJobs.isEmpty && !jq.quit then
            some (jq.setPlace i ⟨timedout, .timedwait⟩)
          else some (jq.serve i timedout stat acquireResources)
      | _ => none
  | .engine i job =>
      match jq.workers[i]? with
      | some ⟨timedout, .engine je⟩ => some (jq.endEngine i timedout je job)
      | _ => none
  | .requeue i env =>
      match jq.workers[i]? with
      | some ⟨timedout, .requeue je⟩ =>
          some ((jq.handOver je.jcr env).setPlace i ⟨timedout, .lock⟩)
      | _ => none
  | .runJob i njcr env =>
      match jq.workers[i]?, njcr with
      | some ⟨timedout, .runJob⟩, some njcr =>
          some ((jq.handOver njcr env).setPlace i ⟨timedout, .lock⟩)
      | some ⟨timedout, .runJob⟩, none => some (jq.setPlace i ⟨timedout, .lock⟩)
      | _, _ => none

/-- The steps of all threads. -/
def Step (jq : Jobq) (action : Action) (jq' : Jobq) : Prop := jq.step action = some jq'

end Jobq
end Bacula
