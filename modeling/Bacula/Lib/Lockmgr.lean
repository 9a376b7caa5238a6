import Bacula.Library.CycleSearch
import Bacula.Library.Transition

/-! The lock manager of `lib/lockmgr.c`: the locks of each thread and the search for a deadlock. A
thread is named by its place in the list of threads. Where a lock was taken and the events are left
out. -/
namespace Bacula.Lockmgr

def LMGR_MAX_LOCK : ℕ := 32

inductive LmgrState where
  | empty
  | wanted
  | granted
  deriving DecidableEq, Repr

structure LmgrLock (μ : Type) where
  lock : Option μ
  state : LmgrState
  maxPriority : ℤ
  priority : ℤ
  deriving DecidableEq, Repr

def emptyLock {μ : Type} : LmgrLock μ := ⟨none, .empty, 0, 0⟩

/-- The mutexes that the thread has and the one it waits for are a history. -/
structure LmgrThread (μ : Type) where
  lockList : List (LmgrLock μ)
  current : ℤ
  max : ℤ
  maxPriority : ℤ
  granted : List μ
  wants : Option μ
  deriving DecidableEq, Repr

variable {μ : Type} [DecidableEq μ]

def newThread : LmgrThread μ := ⟨List.replicate LMGR_MAX_LOCK emptyLock, -1, 0, 0, [], none⟩

def LmgrThread.lockAt (t : LmgrThread μ) (i : ℕ) : LmgrLock μ := t.lockList.getD i emptyLock

def LmgrThread.setLock (t : LmgrThread μ) (i : ℕ) (lock : LmgrLock μ) : LmgrThread μ :=
  { t with lockList := t.lockList.set i lock }

/-- Call before a lock operation. `none` when an assertion fails, and for a write behind the table:
the assertion would let it pass. -/
def preP (t : LmgrThread μ) (m : μ) (priority : ℤ) : Option (LmgrThread μ) :=
  let maxPrio := t.maxPriority
  if ¬ t.current < LMGR_MAX_LOCK then none
  else if ¬ t.current ≥ -1 then none
  else
    let current := t.current + 1
    if current.toNat ≥ t.lockList.length then none
    else
      let t := t.setLock current.toNat ⟨some m, .wanted, Max.max priority t.maxPriority, priority⟩
      let t := { t with
        current, max := Max.max current t.max, maxPriority := Max.max priority t.maxPriority }
      if ¬ (priority = 0 ∨ priority ≥ maxPrio) then none else some t

/-- Call after the lock operation. -/
def postP (t : LmgrThread μ) : Option (LmgrThread μ) :=
  if ¬ t.current ≥ 0 then none
  else
    let lock := t.lockAt t.current.toNat
    if lock.state ≠ .wanted then none
    else some (t.setLock t.current.toNat { lock with state := .granted })

/-- "Using this function is some sort of bug": the last lock comes to the place `i`. -/
def shiftList (t : LmgrThread μ) (i : ℕ) : LmgrThread μ :=
  let current := t.current.toNat
  let t := (List.range' (i + 1) (current - i)).foldl (fun t j => t.setLock i (t.lockAt j)) t
  let t := t.setLock current { t.lockAt current with lock := none, state := .empty }
  -- rebuild the priority list
  (List.range current).foldl (fun t j =>
    let maxPriority := Max.max (t.lockAt j).priority t.maxPriority
    { t.setLock j { t.lockAt j with maxPriority } with maxPriority }) { t with maxPriority := 0 }

/-- The last place before `n` that has the mutex. -/
def findLock (t : LmgrThread μ) (m : μ) : ℕ → Option ℕ
  | 0 => none
  | n+1 => if (t.lockAt n).lock = some m then some n else findLock t m n

/-- Remove the mutex from the list. -/
def doV (t : LmgrThread μ) (m : μ) : Option (LmgrThread μ) :=
  if ¬ t.current ≥ 0 then none
  else
    let oldCurrent := t.current
    let current := t.current.toNat
    let t : LmgrThread μ :=
      if (t.lockAt current).lock = some m then
        { t.setLock current { t.lockAt current with lock := none, state := .empty } with
          current := t.current - 1 }
      else
        match findLock t m current with
        | some i => { shiftList t i with current := t.current - 1 }
        | none => t
    let maxPriority := if t.current ≥ 0 then (t.lockAt t.current.toNat).maxPriority else 0
    if t.current = oldCurrent then none else some { t with maxPriority }

/-! ## The search for a deadlock -/

/-- The locks of a thread that are in use. -/
def LmgrThread.entries (t : LmgrThread μ) : List (LmgrLock μ) := t.lockList.take (t.current + 1).toNat

/-- A thread or the address of a lock. -/
abbrev Vertex (μ : Type) := ℕ ⊕ Option μ

/-- `lmgr_node_t`: granted is mutex to thread, wanted is thread to mutex. -/
def lmgrNode (tid : ℕ) (lock : LmgrLock μ) : Option (Vertex μ × Vertex μ) :=
  match lock.state with
  | .granted => some (.inr lock.lock, .inl tid)
  | .wanted => some (.inl tid, .inr lock.lock)
  | .empty => none

def nodeList (threads : List (LmgrThread μ)) : List (Vertex μ × Vertex μ) :=
  threads.zipIdx.flatMap fun item => item.1.entries.filterMap (lmgrNode item.2)

/-- The nodes that a node leads to. -/
def searchAllNode (g : List (Vertex μ × Vertex μ)) (v : ℕ) : List ℕ :=
  match g[v]? with
  | some node => (List.range g.length).filter fun n => (g[n]?).map Prod.fst = some node.2
  | none => []

def lmgrDetectDeadlock (threads : List (LmgrThread μ)) : Bool :=
  let g := nodeList threads
  CycleSearch.containsCycle (searchAllNode g) g.length (List.range g.length) fun _ => .white

/-! ## Runs -/

inductive Call (μ : Type) where
  | preP (m : μ) (priority : ℤ)
  | postP
  | doV (m : μ)
  deriving DecidableEq, Repr

structure Action (μ : Type) where
  thread : ℕ
  call : Call μ
  deriving DecidableEq, Repr

def call (t : LmgrThread μ) : Call μ → Option (LmgrThread μ)
  | .preP m priority => preP t m priority
  | .postP => postP t
  | .doV m => doV t m

/-- What the caller has and waits for after a call: it waits when it is about to lock, it has the mutex
behind the lock operation, and it gives one up. -/
def LmgrThread.record (t : LmgrThread μ) : Call μ → LmgrThread μ
  | .preP m _ => { t with wants := some m }
  | .postP => { t with granted := t.wants.toList ++ t.granted, wants := none }
  | .doV m =>
      if t.wants = some m then { t with wants := none } else { t with granted := t.granted.erase m }

def step (threads : List (LmgrThread μ)) (action : Action μ) : Option (List (LmgrThread μ)) := do
  let t ← threads[action.thread]?
  let t' ← call t action.call
  some (threads.set action.thread (t'.record action.call))

/-- A thread that waits for a mutex makes no call but to give up the wait, and it does not have more
mutexes than the table has room for. -/
def AllowedCall (t : LmgrThread μ) : Call μ → Prop
  | .preP _ _ => t.wants = none ∧ t.granted.length < LMGR_MAX_LOCK
  | .postP => True
  | .doV m => t.wants = none ∨ t.wants = some m

instance (t : LmgrThread μ) : (c : Call μ) → Decidable (AllowedCall t c)
  | .preP _ _ => inferInstanceAs (Decidable (_ ∧ _))
  | .postP => inferInstanceAs (Decidable True)
  | .doV _ => inferInstanceAs (Decidable (_ ∨ _))

def Allowed (threads : List (LmgrThread μ)) (action : Action μ) : Prop :=
  ∀ t, threads[action.thread]? = some t → AllowedCall t action.call

def Reached (n : ℕ) (threads : List (LmgrThread μ)) : Prop :=
  ∃ actions, Transition.Run (Transition.Guarded (fun s a s' => step s a = some s') Allowed)
    (List.replicate n newThread) actions threads

end Bacula.Lockmgr
