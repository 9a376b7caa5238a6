import Bacula.Library.Chain
import Bacula.Library.Transition

/-! The work queue of `lib/workq.c`. A step is what a call does before it locks the mutex, or what a
call or a worker does in one section under it; a call that leaves the mutex locked stops all that
come after it. The counters are not bounded. `workq_wait_idle` is left out, and a worker comes back
from its wait when it likes; a `workq_destroy` that waits is woken by a broadcast. -/
namespace Bacula.Workq

inductive Phase where
  /-- The thread is created and has not locked the mutex yet. -/
  | start
  /-- In `pthread_cond_timedwait` -/
  | waiting
  /-- In the user's engine, with the item and whether the wait before it timed out. -/
  | running (item : ℕ) (timedout : Bool)
  deriving DecidableEq, Repr

/-- A call that has found the queue valid. -/
inductive Call where
  | add (priority : Bool)
  | remove (item : ℕ)
  | destroy
  /-- `workq_destroy` in `pthread_cond_wait` -/
  | destroyWait (woken : Bool)
  /-- `workq_destroy` has unlocked the mutex and is to destroy it. -/
  | destroyEnd
  deriving DecidableEq, Repr

/-- `workq_t`; an item is named by its place in the order of allocation. -/
structure Wq where
  first : Option ℕ
  last : Option ℕ
  valid : Bool
  quit : Bool
  maxWorkers : ℤ
  numWorkers : ℤ
  idleWorkers : ℤ
  numRunning : ℤ
  deriving DecidableEq, Repr

/-- The pending items and the items that were given to the engine are a history. -/
structure State where
  wq : Wq
  locked : Bool
  destroyed : Bool
  calls : List Call
  /-- The `next` fields of the items. -/
  next : ℕ → Option ℕ
  allocated : ℕ
  /-- The live workers. -/
  workers : List Phase
  pending : List ℕ
  started : List ℕ

/-- `workq_init` -/
def workqInit (threads : ℤ) : State :=
  ⟨⟨none, none, true, false, threads, 0, 0, 0⟩, false, false, [], fun _ => none, 0, [], [], []⟩

/-- A thread is created, unless that fails. -/
def createWorker (s : State) (created : Bool) : State :=
  if created then { s with
    wq := { s.wq with numWorkers := s.wq.numWorkers + 1 }, workers := s.workers ++ [.start] }
  else s

/-- The new item is put at the head or at the end of the queue. -/
def enqueue (s : State) (priority : Bool) : State :=
  let item := s.allocated
  let s := { s with allocated := s.allocated + 1, next := Function.update s.next item none }
  if priority then
    let s := { s with pending := item :: s.pending }
    if s.wq.first = none then { s with wq := { s.wq with first := some item, last := some item } }
    else { s with
      next := Function.update s.next item s.wq.first, wq := { s.wq with first := some item } }
  else
    let s := { s with pending := s.pending ++ [item] }
    match s.wq.first, s.wq.last with
    | none, _ => { s with wq := { s.wq with first := some item, last := some item } }
    | some _, some last =>
        { s with next := Function.update s.next last (some item), wq := { s.wq with
          last := some item } }
    | some _, none => { s with wq := { s.wq with last := some item } }

def Call.wakeUp : Call → Call
  | .destroyWait _ => .destroyWait true
  | call => call

/-- `pthread_cond_broadcast` -/
def broadcast (s : State) : State := { s with calls := s.calls.map Call.wakeUp }

/-- `workq_add` under the mutex -/
def workqAdd (s : State) (priority created : Bool) : State :=
  let s := enqueue s priority
  if s.wq.idleWorkers > 0 then broadcast s
  else if s.wq.numWorkers < s.wq.maxWorkers then createWorker s created
  else s

/-- The item found behind `prev` is moved to the head of the queue. -/
def moveFirst (s : State) (item : ℕ) (prev : Option ℕ) : State :=
  let s := { s with pending := item :: s.pending.erase item }
  if s.wq.first ≠ some item then
    let s := match prev with
      | some prev => { s with next := Function.update s.next prev (s.next item) }
      | none => s
    let s := if s.wq.last = some item then { s with wq := { s.wq with last := prev } } else s
    { s with next := Function.update s.next item s.wq.first, wq := { s.wq with first := some item } }
  else s

/-- `workq_remove` from its lock on. The return for an item that is not in the queue leaves the mutex
locked. -/
def workqRemove (s : State) (item : ℕ) (created : Bool) : State :=
  match Chain.search s.next item (s.allocated + 1) s.wq.first s.wq.first with
  | none => { s with locked := true }
  | some prev =>
      let s := moveFirst s item prev
      if s.wq.idleWorkers > 0 then broadcast s else createWorker s created

/-- `workq_destroy` up to its first wait, or to its unlock if there is no worker. -/
def workqDestroy (s : State) (i : ℕ) : State :=
  let s := { s with wq := { s.wq with valid := false } }
  if s.wq.numWorkers > 0 then
    let s := { s with wq := { s.wq with quit := true } }
    let s := if s.wq.idleWorkers ≠ 0 then broadcast s else s
    { s with calls := s.calls.set i (.destroyWait false) }
  else { s with calls := s.calls.set i .destroyEnd }

def setPhase (s : State) (i : ℕ) (phase : Phase) : State := { s with workers := s.workers.set i phase }

def exitWorker (s : State) (i : ℕ) : State :=
  { s with wq := { s.wq with numWorkers := s.wq.numWorkers - 1 }, workers := s.workers.eraseIdx i }

/-- The last worker wakes up the destroy routine. -/
def quitWorker (s : State) (i : ℕ) : State :=
  let s := exitWorker s i
  if s.wq.numWorkers = 0 then broadcast s else s

/-- A worker without an item, which has timed out or has to quit. -/
def leaveWorker (s : State) (i : ℕ) : State := if s.wq.quit then quitWorker s i else exitWorker s i

/-- The first item goes to the engine. -/
def serve (s : State) (i : ℕ) (timedout : Bool) : State :=
  match s.wq.first with
  | some we =>
      let s := { s with wq := { s.wq with first := s.next we }, pending := s.pending.tail,
                        started := s.started ++ [we] }
      let s := if s.wq.last = some we then { s with wq := { s.wq with last := none } } else s
      setPhase { s with wq := { s.wq with numRunning := s.wq.numRunning + 1 } } i (.running we timedout)
  | none => leaveWorker s i

/-- The top of the loop -/
def workqServer (s : State) (i : ℕ) : State :=
  if s.wq.first = none ∧ !s.wq.quit then setPhase s i .waiting else serve s i false

inductive Wake where
  | timedOut
  /-- "This shouldn't happen" -/
  | error
  | again
  deriving DecidableEq, Repr

def workqWake (s : State) (i : ℕ) : Wake → State
  | .timedOut => serve s i true
  | .error => exitWorker s i
  | .again => workqServer s i

/-- The engine is back. -/
def workqBack (s : State) (i : ℕ) (timedout : Bool) : State :=
  let s := { s with wq := { s.wq with numRunning := s.wq.numRunning - 1 } }
  if s.wq.first = none ∧ s.wq.quit then quitWorker s i
  else if s.wq.first = none ∧ timedout then exitWorker s i
  else workqServer s i

inductive Signal where
  | woken
  | spurious
  /-- `pthread_cond_wait` fails. -/
  | error
  deriving DecidableEq, Repr

/-- `workq_destroy` comes back from its wait. -/
def destroyWake (s : State) (i : ℕ) : Signal → State
  | .error => { s with calls := s.calls.eraseIdx i }
  | _ => { s with
      calls := s.calls.set i (if s.wq.numWorkers > 0 then .destroyWait false else .destroyEnd) }

inductive Action where
  | add (priority : Bool)
  | remove (item : ℕ)
  | destroy
  /-- A `workq_add` or `workq_remove` locks the mutex, and returns. -/
  | critical (call : ℕ) (created : Bool)
  | destroyCritical (call : ℕ)
  | destroyWake (call : ℕ) (signal : Signal)
  | destroyEnd (call : ℕ)
  | start (worker : ℕ)
  | wake (worker : ℕ) (wake : Wake)
  | back (worker : ℕ)
  deriving DecidableEq, Repr

/-- A call looks for `WORKQ_VALID`; without it the call returns at once. -/
def enter (s : State) (call : Call) : State :=
  if s.wq.valid then { s with calls := s.calls ++ [call] } else s

def leave (s : State) (i : ℕ) : State := { s with calls := s.calls.eraseIdx i }

/-- A step under the mutex: `none` for a call or a worker that is not in that place. -/
def underMutex (s : State) : Action → Option State
  | .critical i created =>
      match s.calls[i]? with
      | some (.add priority) => some (leave (workqAdd s priority created) i)
      | some (.remove item) => some (leave (workqRemove s item created) i)
      | _ => none
  | .destroyCritical i => if s.calls[i]? = some .destroy then some (workqDestroy s i) else none
  | .destroyWake i signal =>
      match s.calls[i]? with
      | some (.destroyWait woken) =>
          if signal = .woken ∧ !woken then none else some (destroyWake s i signal)
      | _ => none
  | .destroyEnd i =>
      if s.calls[i]? = some .destroyEnd then some { leave s i with destroyed := true } else none
  | .start i => if s.workers[i]? = some .start then some (workqServer s i) else none
  | .wake i wake => if s.workers[i]? = some .waiting then some (workqWake s i wake) else none
  | .back i =>
      match s.workers[i]? with
      | some (.running _ timedout) => some (workqBack s i timedout)
      | _ => none
  | _ => none

/-- Nothing goes on under a mutex that is locked or destroyed. -/
def step (s : State) : Action → Option State
  | .add priority => some (enter s (.add priority))
  | .remove item => some (enter s (.remove item))
  | .destroy => some (enter s .destroy)
  | action => if s.locked || s.destroyed then none else underMutex s action

/-- The calls and failures that the queue can bear: a worker is there or comes for a new item; only
queued items are removed, while there is room for another worker; the last worker's wait does not
fail while items are pending or a destroy sleeps; and the queue is not used while its mutex is
destroyed. -/
def Allowed (s : State) : Action → Prop
  | .critical i created =>
      .destroyEnd ∉ s.calls ∧
        match s.calls[i]? with
        | some (.remove item) => item ∈ s.pending ∧ s.wq.numWorkers < s.wq.maxWorkers
        | _ => 0 < s.wq.numWorkers ∨ 0 < s.wq.maxWorkers ∧ created
  | .wake _ .error => s.pending = [] ∧ .destroyWait false ∉ s.calls ∨ 1 < s.wq.numWorkers
  | .destroyEnd _ => s.calls = [.destroyEnd]
  | _ => True

def Reached (threads : ℤ) (s : State) : Prop :=
  ∃ actions, Transition.Run (Transition.Guarded (fun s a s' => step s a = some s') Allowed)
    (workqInit threads) actions s

end Bacula.Workq
