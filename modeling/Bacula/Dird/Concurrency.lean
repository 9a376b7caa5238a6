import Bacula.Library.Ledger
import Bacula.Library.Transition

/-! The concurrency counters of storages, clients and job resources: `acquire_resources` and the
release at the end of a job in `dird/jobq.c`, and `select_rstore` of `dird/restore.c`. Whether a job
is canceled and which storage a bootstrap names are inputs. Resources are known by their names. -/
namespace Bacula.Concurrency
open Ledger Transition

inductive JobType where
  | backup
  | migratedJob
  | verify
  | restore
  | console
  | system
  | admin
  | archive
  | jobCopy
  | copy
  | migrate
  | scan
  deriving DecidableEq, Repr

inductive JobLevel where
  | full
  | incremental
  | differential
  | since
  | verifyCatalog
  | verifyInit
  | verifyVolumeToCatalog
  | verifyDiskToCatalog
  | verifyData
  | base
  | none
  | virtualFull
  deriving DecidableEq, Repr

inductive JobStatus where
  | created
  | running
  | waitStoreRes
  | waitClientRes
  | waitJobRes
  | waitSD
  | errorTerminated
  deriving DecidableEq, Repr

/-- The counters, of storages `ω`, clients `κ` and job resources `θ`. -/
inductive Counter (ω κ θ : Type) where
  /-- `NumConcurrentJobs` of a storage -/
  | store (store : ω)
  /-- `NumConcurrentReadJobs` of a storage -/
  | storeReads (store : ω)
  | client (client : κ)
  | job (job : θ)
  deriving DecidableEq

/-- `MaxConcurrentJobs` of the resources, and `MaxConcurrentReadJobs`. -/
structure Limits (ω κ θ : Type) where
  store : ω → ℕ
  storeReads : ω → ℕ
  client : κ → ℕ
  job : θ → ℕ

structure JCR (ω κ θ : Type) where
  job : θ
  client : Option κ
  rstore : Option ω
  wstore : Option ω
  jobType : JobType
  jobLevel : JobLevel
  wasVirtualFull : Bool := false
  acquiredResourceLocks : Bool := false
  jobStatus : JobStatus := .created

variable {ω κ θ : Type}

abbrev Counters (ω κ θ : Type) := Counter ω κ θ → ℤ

def JCR.noClientUsed (jcr : JCR ω κ θ) : Bool := jcr.jobLevel = .virtualFull

/-- The job is counted at its client. -/
def JCR.countsClient (jcr : JCR ω κ θ) : Bool :=
  match jcr.jobType with
  | .migrate | .copy | .admin => false
  | _ => !(jcr.noClientUsed || jcr.wasVirtualFull)

section Calls

variable [DecidableEq ω] [DecidableEq κ] [DecidableEq θ]

def updateClientNumconcurrentjobs (c : Counters ω κ θ) (jcr : JCR ω κ θ) (val : ℤ) :
    Counters ω κ θ :=
  match jcr.client with
  | none => c
  | some client => if jcr.countsClient then inc c (.client client) val else c

/-- `inc_read_store`, which needs a read storage. -/
def incReadStore (limits : Limits ω κ θ) (c : Counters ω κ θ) (jcr : JCR ω κ θ) (rstore : ω) :
    Option (Counters ω κ θ) :=
  let num := c (.store rstore)
  let numread := c (.storeReads rstore)
  let maxread := limits.storeReads rstore
  if num < limits.store rstore ∧
      (jcr.jobType = .restore ∨ numread = 0 ∨ maxread = 0 ∨ numread < maxread) then
    some (inc (inc c (.storeReads rstore) 1) (.store rstore) 1)
  else none

def decReadStore (c : Counters ω κ θ) (jcr : JCR ω κ θ) : Counters ω κ θ :=
  match jcr.rstore with
  | none => c
  | some rstore => inc (inc c (.storeReads rstore) (-1)) (.store rstore) (-1)

def decWriteStore (c : Counters ω κ θ) (jcr : JCR ω κ θ) : Counters ω κ θ :=
  match jcr.wstore with
  | none => c
  | some wstore => inc c (.store wstore) (-1)

/-- The parts of `acquire_resources`, each with the counters that it leaves: the read storage,
-/
def acquireRstore (limits : Limits ω κ θ) (c : Counters ω κ θ) (jcr : JCR ω κ θ) :
    Bool × Counters ω κ θ :=
  match jcr.rstore with
  | none => (true, c)
  | some rstore =>
      match incReadStore limits c jcr rstore with
      | some c => (true, c)
      | none => (false, c)

/-- the write storage, -/
def acquireWstore (limits : Limits ω κ θ) (c : Counters ω κ θ) (jcr : JCR ω κ θ) :
    Bool × Counters ω κ θ :=
  match jcr.wstore with
  | none => (true, c)
  | some wstore =>
      if c (.store wstore) < limits.store wstore then (true, inc c (.store wstore) 1)
      else if jcr.rstore.isSome then (false, decReadStore c jcr)
      else (false, c)

/-- the client, -/
def acquireClient (limits : Limits ω κ θ) (c : Counters ω κ θ) (jcr : JCR ω κ θ) :
    Bool × Counters ω κ θ :=
  match jcr.client with
  | none => (true, c)
  | some client =>
      if c (.client client) < limits.client client then
        (true, updateClientNumconcurrentjobs c jcr 1)
      else (false, decReadStore (decWriteStore c jcr) jcr)

/-- and the job resource. -/
def acquireJob (limits : Limits ω κ θ) (c : Counters ω κ θ) (jcr : JCR ω κ θ) :
    Bool × Counters ω κ θ :=
  if c (.job jcr.job) < limits.job jcr.job then (true, inc c (.job jcr.job) 1)
  else
    (false, updateClientNumconcurrentjobs (decReadStore (decWriteStore c jcr) jcr) jcr (-1))

/-- All of them, and the status of the job after a failure. -/
def acquireLocks (limits : Limits ω κ θ) (c : Counters ω κ θ) (jcr : JCR ω κ θ) :
    Option JobStatus × Counters ω κ θ :=
  match acquireRstore limits c jcr with
  | (false, c) => (some .waitStoreRes, c)
  | (true, c) =>
      match acquireWstore limits c jcr with
      | (false, c) => (some .waitStoreRes, c)
      | (true, c) =>
          match acquireClient limits c jcr with
          | (false, c) => (some .waitClientRes, c)
          | (true, c) =>
              match acquireJob limits c jcr with
              | (false, c) => (some .waitJobRes, c)
              | (true, c) => (none, c)

def JCR.setLocks (jcr : JCR ω κ θ) (acquiredResourceLocks : Bool) : JCR ω κ θ :=
  { jcr with acquiredResourceLocks }

def acquireResources (limits : Limits ω κ θ) (c : Counters ω κ θ) (jcr : JCR ω κ θ) :
    Bool × Counters ω κ θ × JCR ω κ θ :=
  match acquireLocks limits c (jcr.setLocks false) with
  | (some jobStatus, c) => (false, c, { jcr.setLocks false with jobStatus })
  | (none, c) => (true, c, jcr.setLocks true)

/-- The part of `jobq_server` that releases locks if acquired. -/
def releaseLocks (c : Counters ω κ θ) (jcr : JCR ω κ θ) : Counters ω κ θ × JCR ω κ θ :=
  if jcr.acquiredResourceLocks then
    let c := decReadStore c jcr
    let c := decWriteStore c jcr
    let c := updateClientNumconcurrentjobs c jcr (-1)
    let c := inc c (.job jcr.job) (-1)
    (c, jcr.setLocks false)
  else (c, jcr)

end Calls

def MAX_TRIES : ℕ := 6 * 360

/-- A job and, while its thread is in the loop of `select_rstore`, the number of tries before. -/
structure JobRun (ω κ θ : Type) where
  jcr : JCR ω κ θ
  selecting : Option ℕ := none

/-- The counters and all jobs. -/
structure State (ω κ θ : Type) where
  counters : Counters ω κ θ
  jobs : List (JobRun ω κ θ)

def start : State ω κ θ := ⟨0, []⟩

inductive Action (ω κ θ : Type) where
  /-- A new job. -/
  | create (jcr : JCR ω κ θ)
  /-- The setup of a job that holds nothing, also before it runs again. -/
  | setup (i : ℕ) (jcr : JCR ω κ θ)
  | acquire (i : ℕ)
  /-- The job is back from the engine. -/
  | terminate (i : ℕ)
  /-- `do_vbackup` remembers where the job came from. -/
  | vbackup (i : ℕ)
  /-- `select_rstore` up to its loop, with the resource of the named storage. -/
  | selectRstore (i : ℕ) (store : Option ω)
  /-- One try in the loop of `select_rstore`, after which the job may be canceled. -/
  | tryRstore (i : ℕ) (canceled : Bool)

section Steps

variable [DecidableEq ω] [DecidableEq κ] [DecidableEq θ]

/-- The beginning of `select_rstore` for a job that reads `rstore`. -/
def selectRstore (c : Counters ω κ θ) (jcr : JCR ω κ θ) (rstore : ω) :
    Option ω → Counters ω κ θ × JobRun ω κ θ
  | none => (c, { jcr := { jcr with jobStatus := .errorTerminated } })
  | some store =>
      if rstore = store then (c, { jcr })
      else (decReadStore c jcr,
        { jcr := { jcr with rstore := some store, jobStatus := .waitSD }, selecting := some 0 })

/-- A round of its loop. -/
def tryRstore (limits : Limits ω κ θ) (c : Counters ω κ θ) (jcr : JCR ω κ θ) (rstore : ω)
    (tries : ℕ) (canceled : Bool) : Counters ω κ θ × JobRun ω κ θ :=
  match incReadStore limits c jcr rstore with
  | some c => (c, { jcr := { jcr with jobStatus := .running } })
  | none =>
      if canceled then (c, { jcr := { jcr with rstore := none } })
      else if tries + 1 < MAX_TRIES then (c, { jcr, selecting := some (tries + 1) })
      else (c, { jcr := { jcr with rstore := none } })

def State.set (s : State ω κ θ) (i : ℕ) (counters : Counters ω κ θ) (run : JobRun ω κ θ) :
    State ω κ θ :=
  ⟨counters, s.jobs.set i run⟩

def step (limits : Limits ω κ θ) (s : State ω κ θ) : Action ω κ θ → Option (State ω κ θ)
  | .create jcr =>
      some { s with jobs := s.jobs ++ [{ jcr := jcr.setLocks false }] }
  | .setup i jcr =>
      match s.jobs[i]? with
      | some ⟨old, none⟩ =>
          if old.acquiredResourceLocks then none
          else some (s.set i s.counters { jcr := jcr.setLocks false })
      | _ => none
  | .acquire i =>
      match s.jobs[i]? with
      | some ⟨jcr, none⟩ =>
          if jcr.acquiredResourceLocks then none
          else
            let (_, counters, jcr) := acquireResources limits s.counters jcr
            some (s.set i counters { jcr })
      | _ => none
  | .terminate i =>
      match s.jobs[i]? with
      | some ⟨jcr, none⟩ =>
          let (counters, jcr) := releaseLocks s.counters jcr
          some (s.set i counters { jcr })
      | _ => none
  | .vbackup i =>
      match s.jobs[i]? with
      | some ⟨jcr, none⟩ =>
          if jcr.acquiredResourceLocks ∧ jcr.jobLevel = .virtualFull then
            some (s.set i s.counters { jcr := { jcr with wasVirtualFull := true } })
          else none
      | _ => none
  | .selectRstore i store =>
      match s.jobs[i]? with
      | some ⟨jcr, none⟩ =>
          if jcr.acquiredResourceLocks then
            match jcr.rstore with
            | some rstore =>
                let (counters, run) := selectRstore s.counters jcr rstore store
                some (s.set i counters run)
            | none => none
          else none
      | _ => none
  | .tryRstore i canceled =>
      match s.jobs[i]? with
      | some ⟨jcr, some tries⟩ =>
          match jcr.rstore with
          | some rstore =>
              let (counters, run) := tryRstore limits s.counters jcr rstore tries canceled
              some (s.set i counters run)
          | none => none
      | _ => none

def Step (limits : Limits ω κ θ) (s : State ω κ θ) (action : Action ω κ θ)
    (s' : State ω κ θ) : Prop :=
  step limits s action = some s'

end Steps

end Bacula.Concurrency
