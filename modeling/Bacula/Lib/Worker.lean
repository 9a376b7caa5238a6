import Bacula.Lib.Flist
import Bacula.Library.Transition

/-! The worker of `lib/worker.c`, with one producer and one thread that runs `worker_prog`. A section
under the mutex, up to its end or to a wait in it, is one step; a read, a write or a signal outside
of the mutex is a step of its own. The worker is valid and the items are not NULL. -/
namespace Bacula.Worker

inductive WorkerState where
  | wait | run | quit
  deriving DecidableEq, Repr

inductive Condition where
  /-- wait because full -/
  | fullWait
  /-- wait because empty -/
  | emptyWait
  /-- wait state -/
  | mWait
  deriving DecidableEq, Repr

/-- Where the producer is. -/
inductive Producer (α : Type) where
  | idle
  /-- `queue` before the mutex, and in the loop that waits for room. -/
  | queue (item : α)
  | queueFull (item : α)
  | waitQueueEmpty
  /-- `finish_work` in its first loop, in the pause for state transition, and in its second loop. -/
  | finishEmpty
  | finishRead
  | finishSignal
  | finishWait
  | discardQueue
  /-- `set_run_state` -/
  | runWrite
  | runRead
  | runSignal
  deriving DecidableEq, Repr

/-- Where `worker_prog` is. -/
inductive Thread (α : Type) where
  /-- `is_quit_state` and `is_wait_state` of its loop. -/
  | loop
  | test
  | wait
  /-- `dequeue` before the mutex, and in the loop that waits for an item. -/
  | readDone
  | readQuit
  | dequeue
  | freeBuffer (item : α)
  | ended
  deriving DecidableEq, Repr

/-- How an item leaves the fifo. -/
inductive Fate where
  | dequeued | discarded
  deriving DecidableEq, Repr

/-- What a thread waits for is `none` while it runs and when it was signaled. The items that were
queued and those that left the fifo are a history. -/
structure State (α : Type) where
  fifo : Flist α
  /-- free pool -/
  fpool : List α
  mState : WorkerState
  /-- set when worker is waiting -/
  workerWaiting : Bool
  /-- work done -/
  done : Bool
  /-- hung waiting on empty queue -/
  waitingOnEmpty : Bool
  producer : Producer α
  producerWaits : Option Condition
  thread : Thread α
  threadWaits : Option Condition
  queued : List α
  removed : List (α × Fate)

variable {α : Type}

/-- `init`; the memory of a new worker is cleared before. -/
def init (fifoSize : ℕ) (junk : ℕ → Option α) : State α :=
  ⟨.init fifoSize junk, [], .wait, false, false, false, .idle, none, .loop, none, [], []⟩

namespace State

def isQuitState (s : State α) : Prop := s.mState = .quit

def isWaitState (s : State α) : Prop := s.mState = .wait

instance (s : State α) : Decidable s.isQuitState := inferInstanceAs (Decidable (_ = _))
instance (s : State α) : Decidable s.isWaitState := inferInstanceAs (Decidable (_ = _))

/-- `pthread_cond_signal`. The thread that calls it does not wait, so no more than one waits. -/
def signal (s : State α) (c : Condition) : State α :=
  if s.producerWaits = some c then { s with producerWaits := none }
  else if s.threadWaits = some c then { s with threadWaits := none }
  else s

def signalIf (s : State α) (flag : Bool) (c : Condition) : State α := if flag then s.signal c else s

/-- `set_quit_state` -/
def setQuitState (s : State α) : State α :=
  ({ s with mState := .quit }.signal .mWait).signal .emptyWait

/-- `queue` from its loop on; an item that does not fit is lost. -/
def queueFull (s : State α) (item : α) : State α :=
  if s.fifo.full ∧ ¬ s.isQuitState then
    { s with producer := .queueFull item, producerWaits := some .fullWait }
  else
    let wasEmpty := s.fifo.empty
    let (done, fifo) := s.fifo.queue item
    let s := { s with fifo := fifo, queued := if done then s.queued ++ [item] else s.queued }
    let s := s.signalIf wasEmpty .emptyWait
    let s := { s with mState := .run }
    let s := s.signalIf s.workerWaiting .mWait
    { s with producer := .idle }

/-- `wait_queue_empty` -/
def waitQueueEmpty (s : State α) : State α :=
  if !s.fifo.empty ∧ ¬ s.isQuitState then
    { s with producer := .waitQueueEmpty, producerWaits := some .emptyWait }
  else { s with producer := .idle }

/-- The first section of `finish_work` -/
def finishEmpty (s : State α) : State α :=
  if !s.fifo.empty ∧ ¬ s.isQuitState then
    { s with producer := .finishEmpty, producerWaits := some .emptyWait }
  else
    -- tell worker that work is done, force worker into wait state
    { s with done := true, mState := .wait, producer := .finishRead }

/-- The second section of `finish_work`: wait until worker in wait state. -/
def finishWait (s : State α) : State α :=
  if !s.workerWaiting ∧ ¬ s.isQuitState then
    let s := s.signalIf s.waitingOnEmpty .emptyWait
    { s with producer := .finishWait, producerWaits := some .mWait }
  else { s with producer := .discardQueue }

/-- What `dequeue` returns until it returns NULL. -/
def drain : ℕ → Flist α → List α × Flist α
  | 0, fifo => ([], fifo)
  | n + 1, fifo =>
      match fifo.dequeue with
      | (none, fifo) => ([], fifo)
      | (some item, fifo) =>
          let (items, fifo) := drain n fifo
          (item :: items, fifo)

/-- `discard_queue`: empty the fifo putting in free pool. -/
def discardQueue (s : State α) : State α :=
  let (items, fifo) := drain s.fifo.numItems s.fifo
  { s with
    fifo := fifo
    fpool := s.fpool ++ items
    removed := s.removed ++ items.map (·, Fate.discarded)
    producer := .idle }

/-- `wait`: wait for the main thread to release us. -/
def wait (s : State α) : State α :=
  if s.isWaitState ∧ ¬ s.isQuitState then
    let s := { s with workerWaiting := true }
    let s := s.signal .mWait
    { s with threadWaits := some .mWait }
  else { s with workerWaiting := false, thread := .loop }

/-- `dequeue` from its loop on; the thread ends when it gets NULL. -/
def dequeue (s : State α) : State α :=
  if s.fifo.empty ∧ !s.done ∧ ¬ s.isQuitState then
    { s with waitingOnEmpty := true, threadWaits := some .emptyWait }
  else
    let s := { s with waitingOnEmpty := false }
    let wasFull := s.fifo.full
    let (item, fifo) := s.fifo.dequeue
    let s := { s with fifo := fifo, removed := s.removed ++ item.toList.map (·, Fate.dequeued) }
    let s := s.signalIf wasFull .fullWait
    let s := s.signalIf s.fifo.empty .emptyWait
    { s with thread := item.elim .ended .freeBuffer }

end State

inductive Call (α : Type) where
  | queue (item : α)
  | waitQueueEmpty
  | finishWork
  | setRunState
  | setQuitState
  deriving DecidableEq, Repr

/-- The producer enters a call. -/
def enter (s : State α) : Call α → State α
  | .queue item => if s.isQuitState then s else { s with producer := .queue item }
  | .waitQueueEmpty => if s.isQuitState then s else { s with producer := .waitQueueEmpty }
  | .finishWork => { s with producer := .finishEmpty }
  | .setRunState => if s.isQuitState then s else { s with producer := .runWrite }
  | .setQuitState => s.setQuitState

/-- The producer goes on in a call. -/
def produce (s : State α) : State α :=
  match s.producer with
  | .idle => s
  | .queue item => { s with done := false }.queueFull item
  | .queueFull item => s.queueFull item
  | .waitQueueEmpty => s.waitQueueEmpty
  | .finishEmpty => s.finishEmpty
  | .finishRead => { s with producer := if s.waitingOnEmpty then .finishSignal else .finishWait }
  | .finishSignal => { s.signal .emptyWait with producer := .finishWait }
  | .finishWait => s.finishWait
  | .discardQueue => s.discardQueue
  | .runWrite => { s with mState := .run, producer := .runRead }
  | .runRead => { s with producer := if s.workerWaiting then .runSignal else .idle }
  | .runSignal => { s.signal .mWait with producer := .idle }

/-- `worker_prog` goes on. -/
def work (s : State α) : State α :=
  match s.thread with
  | .loop => { s with thread := if s.isQuitState then .ended else .test }
  | .test => { s with thread := if s.isWaitState then .wait else .readDone }
  | .wait => s.wait
  | .readDone => { s with thread := if s.done then .ended else .readQuit }
  | .readQuit => { s with thread := if s.isQuitState then .ended else .dequeue }
  | .dequeue => s.dequeue
  | .freeBuffer item => { s with fpool := s.fpool ++ [item], thread := .loop }
  | .ended => s

inductive Action (α : Type) where
  | call (c : Call α)
  | produce
  | work
  /-- A wait ends without a signal. -/
  | wakeProducer
  | wakeThread
  deriving DecidableEq, Repr

def step (s : State α) : Action α → Option (State α)
  | .call c =>
      match s.producer with
      | .idle => some (enter s c)
      | _ => none
  | .produce =>
      match s.producer, s.producerWaits with
      | .idle, _ => none
      | _, some _ => none
      | _, none => some (produce s)
  | .work =>
      match s.thread, s.threadWaits with
      | .ended, _ => none
      | _, some _ => none
      | _, none => some (work s)
  | .wakeProducer => s.producerWaits.map fun _ => { s with producerWaits := none }
  | .wakeThread => s.threadWaits.map fun _ => { s with threadWaits := none }

/-- The actions lead from the first state to the last. -/
def Steps (s : State α) (actions : List (Action α)) (t : State α) : Prop :=
  Transition.Run (fun s a s' => step s a = some s') s actions t

end Bacula.Worker
