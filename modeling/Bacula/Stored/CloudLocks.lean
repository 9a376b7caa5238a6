import Bacula.Library.LockOrder
import Bacula.Library.Transition
import Bacula.Stored.CloudTransfer

/-! The mutexes that the threads take in `stored/cloud_transfer_mgr.c`. What a thread is still to do
is a list of instructions; those that depend on the data put the instructions of the branch that is
taken in front of the rest. -/
namespace Bacula.CloudLocks
open CloudTransfer (TransferState)

inductive Mutex where
  /-- `m_mutex` and `m_stat_mutex` of a transfer. -/
  | item (i : ℕ)
  | itemStat (i : ℕ)
  /-- `m_mutex` and `m_stat_mutex` of the manager. -/
  | mgr
  | mgrStat
  | workq
  deriving DecidableEq, Repr

structure Transfer where
  volumeName : String
  part : ℕ
  state : TransferState
  useCount : ℤ
  deriving DecidableEq, Repr

/-- The transfers are numbered in the order they are created in. -/
structure Data where
  heap : ℕ → Transfer
  next : ℕ
  transferList : List ℕ
  wq : List ℕ

inductive Instr where
  | lock (m : Mutex)
  | unlock (m : Mutex)
  | getXfer (volumeName : String) (part : ℕ)
  | incUseCount (i : ℕ)
  | append (i : ℕ)
  /-- The switch of `transition`, in `proceed` when the engine is to follow. -/
  | transition (i : ℕ) (state : TransferState) (proceed : Bool)
  | addWork (i : ℕ)
  | removeWork (i : ℕ)
  | setState (i : ℕ) (state : TransferState)
  /-- The loop of `wait`, and its sleep in `pthread_cond_wait`. -/
  | waitLoop (i : ℕ)
  | sleep
  /-- The two `dec_use_count` of `release`, and the test between them. -/
  | decUseCount (i : ℕ)
  | lastRef (i : ℕ)
  | deleteIf (i : ℕ) (last : Bool)
  | remove (i : ℕ)
  | popWork
  | engine (i : ℕ)
  | averageRates
  | eta
  | etaOf (i : ℕ)
  deriving DecidableEq, Repr

/-- What is not in the data: whether the average rate of the manager is zero, which of its transfer's
mutexes an engine takes (`true` for `m_mutex`) and what it returns. -/
structure Choice where
  rate : Bool
  sections : List Bool
  returned : TransferState
  deriving DecidableEq, Repr

/-- A mutex is taken and given back. -/
def sect (m : Mutex) (inside : List Instr) : List Instr := .lock m :: (inside ++ [.unlock m])

def Data.find (d : Data) (volumeName : String) (part : ℕ) : Option ℕ :=
  d.transferList.find? fun i => (d.heap i).volumeName = volumeName ∧ (d.heap i).part = part

def Data.modify (d : Data) (i : ℕ) (f : Transfer → Transfer) : Data :=
  { d with heap := Function.update d.heap i (f (d.heap i)) }

/-- The statistics of the manager, and the work queue under the mutex of the manager. -/
def queueing (work : Instr) : List Instr :=
  sect .mgrStat [] ++ sect .mgr (sect .workq [work])

/-- The branches of `transition`, up to the end of its section. -/
def branch (i : ℕ) (old state : TransferState) : Option (List Instr) :=
  match old, state with
  | .created, .queued => some (queueing (.addWork i))
  | .queued, .created => some (queueing (.removeWork i))
  | .queued, .processed => some (sect .mgrStat [] ++ sect (.itemStat i) [])
  | .processed, .done => some (sect (.itemStat i) [] ++ sect .mgrStat [])
  | .processed, .error => some (sect (.itemStat i) [] ++ sect .mgrStat [])
  | .processed, .queued => some (queueing (.addWork i))
  | _, _ => none

def transition (i : ℕ) (state : TransferState) (proceed : Bool) : List Instr :=
  [.lock (.item i), .transition i state proceed]

def wait (i : ℕ) : List Instr := [.lock (.item i), .waitLoop i]

/-- An instruction that takes or gives back no mutex. -/
def perform (d : Data) (c : Choice) : Instr → Data × List Instr
  | .getXfer volumeName part =>
      match d.find volumeName part with
      | some i => (d, sect (.item i) [.incUseCount i] ++ [.unlock .mgr])
      | none =>
          let i := d.next
          ({ d with heap := Function.update d.heap i ⟨volumeName, part, .created, 0⟩, next := i + 1 },
            -- set_manager, and the counts of the list and of the caller
            sect (.item i) [] ++ sect (.item i) [.incUseCount i] ++ [.append i] ++
              sect (.item i) [.incUseCount i] ++
              [.unlock .mgr])
  | .incUseCount i => (d.modify i fun t => { t with useCount := t.useCount + 1 }, [])
  | .append i => ({ d with transferList := d.transferList ++ [i] }, [])
  | .transition i state proceed =>
      match branch i (d.heap i).state state with
      | none => (d, [.unlock (.item i)])
      | some instrs =>
          (d, instrs ++ [.setState i state, .unlock (.item i)] ++ if proceed then [.engine i] else [])
  | .addWork i => ({ d with wq := d.wq ++ [i] }, [])
  | .removeWork i => ({ d with wq := d.wq.erase i }, [])
  | .setState i state => (d.modify i fun t => { t with state := state }, [])
  | .waitLoop i =>
      if (d.heap i).state = .done ∨ (d.heap i).state = .error then (d, [.unlock (.item i)])
      else (d, [.unlock (.item i), .sleep, .lock (.item i), .waitLoop i])
  | .decUseCount i => (d.modify i fun t => { t with useCount := t.useCount - 1 }, [])
  | .lastRef i =>
      (d.modify i fun t => { t with useCount := t.useCount - 1 },
        [.unlock (.item i), .deleteIf i ((d.heap i).useCount - 1 = 1)])
  | .deleteIf i last =>
      (d, if last then sect .mgr (.remove i :: sect (.item i) [.decUseCount i]) else [])
  | .remove i => ({ d with transferList := d.transferList.erase i }, [])
  | .popWork =>
      match d.wq with
      | [] => (d, [.unlock .workq])
      | i :: rest => ({ d with wq := rest }, .unlock .workq :: transition i .processed true)
  | .engine i =>
      (d, (c.sections.flatMap fun own => sect (if own then .item i else .itemStat i) []) ++
        transition i c.returned false)
  | .averageRates => (d, (d.transferList.flatMap fun i => sect (.itemStat i) []) ++ [.eta])
  | .eta => (d, (if c.rate then d.transferList.map .etaOf else []) ++ [.unlock .mgr, .unlock .mgrStat])
  | .etaOf i =>
      (d, if (d.heap i).state = .queued ∨ (d.heap i).state = .processed then sect (.itemStat i) []
        else [])
  | .sleep | .lock _ | .unlock _ => (d, [])

/-! ## The operations -/

inductive Op where
  | getXfer (volumeName : String) (part : ℕ)
  | queue (i : ℕ)
  | cancel (i : ℕ)
  | find (volumeName : String) (part : ℕ)
  | wait (i : ℕ)
  | release (i : ℕ)
  /-- A worker takes the next element of the work queue, and proceeds with it. -/
  | proceed
  | updateStatistics
  deriving DecidableEq, Repr

def Op.program : Op → List Instr
  | .getXfer volumeName part => [.lock .mgr, .getXfer volumeName part]
  | .queue i => transition i .queued false
  | .cancel i => sect (.item i) [] ++ CloudLocks.wait i
  | .find _ _ => sect .mgr []
  | .wait i => CloudLocks.wait i
  | .release i => CloudLocks.wait i ++ [.lock (.item i), .lastRef i]
  | .proceed => [.lock .workq, .popWork]
  | .updateStatistics => [.lock .mgrStat, .lock .mgr, .averageRates]

structure System where
  data : Data
  owner : Mutex → Option ℕ
  todo : ℕ → List Instr

def init : System := ⟨⟨fun _ => ⟨"", 0, .created, 0⟩, 0, [], []⟩, fun _ => none, fun _ => []⟩

/-- A thread that has nothing to do starts an operation, or the next instruction of a thread is
executed. -/
inductive Action where
  | start (t : ℕ) (op : Op)
  | next (t : ℕ) (choice : Choice)
  deriving DecidableEq, Repr

def System.set (s : System) (t : ℕ) (todo : List Instr) : System :=
  { s with todo := Function.update s.todo t todo }

/-- `none` when the thread cannot take the step. -/
def step (s : System) : Action → Option System
  | .start t op => if s.todo t = [] then some (s.set t op.program) else none
  | .next t c =>
      match s.todo t with
      | [] => none
      | .lock m :: rest =>
          if s.owner m = none then
            some ({ s with owner := Function.update s.owner m (some t) }.set t rest)
          else none
      | .unlock m :: rest => some ({ s with owner := Function.update s.owner m none }.set t rest)
      | instr :: rest =>
          let (data, instrs) := perform s.data c instr
          some ({ s with data := data }.set t (instrs ++ rest))

def Step (s : System) (a : Action) (s' : System) : Prop := step s a = some s'

/-! ## Deadlocks -/

def Waits (s : System) (t : ℕ) (m : Mutex) : Prop := ∃ rest, s.todo t = .lock m :: rest

def Holds (s : System) (t : ℕ) (m : Mutex) : Prop := s.owner m = some t

def Deadlock (s : System) : Prop := LockOrder.Deadlock (Waits s) (Holds s)

/-- A thread has the mutex of the manager on the way to that of a transfer, which another one has that
is in a transition of the transfer with the mutex of the manager still to take, or with the one of its
statistics, from behind one that updates these. -/
def Crossed (s : System) : Prop :=
  ∃ t u i, Holds s t .mgr ∧ .lock (.item i) ∈ s.todo t ∧ Holds s u (.item i) ∧
    (.lock .mgr ∈ s.todo u ∨
      .lock .mgrStat ∈ s.todo u ∧ ∃ v, Holds s v .mgrStat ∧ .lock .mgr ∈ s.todo v)

/-- The step does not lead to a crossing. -/
def Meets (s : System) (a : Action) : Prop := ∀ s', Step s a s' → ¬ Crossed s'

end Bacula.CloudLocks
