import Bacula.Library.Tally
import Bacula.Library.Transition

/-! The read/write lock of `lib/rwlock.c`. A step is what a thread does in one section under the
mutex, up to the wait that releases it; a thread that waits goes on when it was woken, or without
a reason. The counters are not bounded, and waits do not fail. -/
namespace Bacula.Rwlock

inductive Cond where
  | read
  | write
  deriving DecidableEq, Repr

/-- `brwlock_t` -/
structure Brwlock (τ : Type) where
  rActive : ℤ
  wActive : ℤ
  rWait : ℤ
  wWait : ℤ
  writerId : Option τ
  deriving DecidableEq, Repr

inductive Phase where
  | running
  /-- Whether the condition was broadcast since the thread began to wait. -/
  | waiting (cond : Cond) (woken : Bool)
  deriving DecidableEq, Repr

/-- The locks a thread has are a history: the code does not keep them. -/
structure Thread where
  phase : Phase
  reads : ℕ
  writes : ℕ
  deriving DecidableEq, Repr

structure State (τ : Type) where
  rwl : Brwlock τ
  threads : τ → Thread
  /-- The conditions that were broadcast by the last release and since then. -/
  issued : List Cond

variable {τ : Type} [DecidableEq τ]

/-- `rwl_init` -/
def rwlInit : State τ := ⟨⟨0, 0, 0, 0, none⟩, fun _ => ⟨.running, 0, 0⟩, []⟩

def State.put (s : State τ) (t : τ) (thread : Thread) : State τ :=
  { s with threads := Function.update s.threads t thread }

def Thread.wake (cond : Cond) (thread : Thread) : Thread :=
  if thread.phase = .waiting cond false then { thread with phase := .waiting cond true } else thread

/-- `pthread_cond_broadcast` -/
def State.broadcast (s : State τ) (cond : Cond) : State τ :=
  { s with threads := fun t => (s.threads t).wake cond, issued := cond :: s.issued }

def State.wait (s : State τ) (t : τ) (cond : Cond) : State τ :=
  s.put t { s.threads t with phase := .waiting cond false }

/-- The end of `rwl_readlock` -/
def gotRead (s : State τ) (t : τ) : State τ :=
  { s with rwl := { s.rwl with rActive := s.rwl.rActive + 1 } }.put t
    { s.threads t with phase := .running, reads := (s.threads t).reads + 1 }

/-- The end of `rwl_writelock_p` -/
def gotWrite (s : State τ) (t : τ) : State τ :=
  { s with rwl := { s.rwl with wActive := s.rwl.wActive + 1, writerId := some t } }.put t
    { s.threads t with phase := .running, writes := (s.threads t).writes + 1 }

def rwlReadlock (s : State τ) (t : τ) : State τ :=
  if s.rwl.wActive ≠ 0 then { s with rwl := { s.rwl with rWait := s.rwl.rWait + 1 } }.wait t .read
  else gotRead s t

/-- The wait of `rwl_readlock` is over. -/
def readResume (s : State τ) (t : τ) : State τ :=
  if s.rwl.wActive ≠ 0 then s.wait t .read
  else gotRead { s with rwl := { s.rwl with rWait := s.rwl.rWait - 1 } } t

/-- With the status: whether the lock was busy. -/
def rwlReadtrylock (s : State τ) (t : τ) : State τ × Bool :=
  if s.rwl.wActive ≠ 0 then (s, true) else (gotRead s t, false)

def rwlReadunlock (s : State τ) (t : τ) : State τ :=
  let s := { s with rwl := { s.rwl with rActive := s.rwl.rActive - 1 }, issued := [] }.put t
    { s.threads t with reads := (s.threads t).reads - 1 }
  if s.rwl.rActive = 0 ∧ s.rwl.wWait > 0 then s.broadcast .write else s

/-- The thread has the lock already. -/
def nested (s : State τ) (t : τ) : Prop := s.rwl.wActive ≠ 0 ∧ s.rwl.writerId = some t

instance (s : State τ) (t : τ) : Decidable (nested s t) := inferInstanceAs (Decidable (_ ∧ _))

def writeAgain (s : State τ) (t : τ) : State τ :=
  { s with rwl := { s.rwl with wActive := s.rwl.wActive + 1 } }.put t
    { s.threads t with writes := (s.threads t).writes + 1 }

def rwlWritelock (s : State τ) (t : τ) : State τ :=
  if nested s t then writeAgain s t
  else if s.rwl.wActive ≠ 0 ∨ s.rwl.rActive > 0 then
    { s with rwl := { s.rwl with wWait := s.rwl.wWait + 1 } }.wait t .write
  else gotWrite s t

def writeResume (s : State τ) (t : τ) : State τ :=
  if s.rwl.wActive ≠ 0 ∨ s.rwl.rActive > 0 then s.wait t .write
  else gotWrite { s with rwl := { s.rwl with wWait := s.rwl.wWait - 1 } } t

def rwlWritetrylock (s : State τ) (t : τ) : State τ × Bool :=
  if nested s t then (writeAgain s t, false)
  else if s.rwl.wActive ≠ 0 ∨ s.rwl.rActive > 0 then (s, true)
  else
    ({ s with rwl := { s.rwl with wActive := 1, writerId := some t } }.put t
      { s.threads t with writes := (s.threads t).writes + 1 }, false)

/-- `none` when the program is aborted: the lock is not taken, or by another thread. -/
def rwlWriteunlock (s : State τ) (t : τ) : Option (State τ) :=
  if s.rwl.wActive ≤ 0 then none
  else
    let s := { s with rwl := { s.rwl with wActive := s.rwl.wActive - 1 }, issued := [] }.put t
      { s.threads t with writes := (s.threads t).writes - 1 }
    if s.rwl.writerId ≠ some t then none
    else if s.rwl.wActive > 0 then some s
    -- no more writers, awaken someone
    else if s.rwl.rWait > 0 then some (s.broadcast .read)
    else if s.rwl.wWait > 0 then some (s.broadcast .write)
    else some s

inductive Call where
  | readlock
  | readtrylock
  | readunlock
  | writelock
  | writetrylock
  | writeunlock
  /-- The thread comes back from its wait. -/
  | resume
  deriving DecidableEq, Repr

structure Action (τ : Type) where
  thread : τ
  call : Call
  deriving DecidableEq, Repr

/-- A thread that waits makes no call, and only such a thread can go on. -/
def step (s : State τ) (action : Action τ) : Option (State τ) :=
  let t := action.thread
  match (s.threads t).phase, action.call with
  | .running, .readlock => some (rwlReadlock s t)
  | .running, .readtrylock => some (rwlReadtrylock s t).1
  | .running, .readunlock => some (rwlReadunlock s t)
  | .running, .writelock => some (rwlWritelock s t)
  | .running, .writetrylock => some (rwlWritetrylock s t).1
  | .running, .writeunlock => rwlWriteunlock s t
  | .running, .resume => none
  | .waiting .read _, .resume => some (readResume s t)
  | .waiting .write _, .resume => some (writeResume s t)
  | .waiting _ _, _ => none

/-- Callers release a read lock only when they have one; the code does not check it. -/
def Paired (s : State τ) (action : Action τ) : Prop :=
  action.call = .readunlock → 0 < (s.threads action.thread).reads

def Reached (s : State τ) : Prop :=
  ∃ actions, Transition.Run (Transition.Guarded (fun s a s' => step s a = some s') Paired) rwlInit
    actions s

end Bacula.Rwlock
