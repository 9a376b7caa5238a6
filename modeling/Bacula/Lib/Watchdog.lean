import Bacula.Lib.DlistLinks

/-! The watchdogs of `lib/watchdog.c`. The two queues link the watchdogs through the same field.
Whatever a thread does under the lock is one step; the watchdog thread lets go of the lock only while
it sleeps, so that behind a call of a callback only the callback itself goes on. The log tells what
happened, the newest first. -/
namespace Bacula.Watchdog
open Dlist

/-- The fields of `watchdog_t` without its link. -/
structure WatchdogT where
  oneShot : Bool
  interval : ℤ
  nextFire : ℤ
  deriving DecidableEq

inductive Event (ι : Type) where
  | registered (wd : ι)
  /-- `unregister_watchdog` and its result. -/
  | unregistered (wd : ι) (ok : Bool)
  | called (wd : ι)
  /-- The callback has returned, and the thread has read `one_shot`. -/
  | returned (wd : ι) (oneShot : Bool)
  /-- The memory of the watchdog is read or written. -/
  | touched (wd : ι)
  deriving DecidableEq

/-- A list without the links of its items. -/
structure Queue (ι : Type) where
  head : Option ι
  tail : Option ι
  numItems : ℕ

/-- What the watchdog thread does. -/
inductive Thread (ι : Type) where
  | sleeping
  /-- It walks the queue, and comes to this watchdog. -/
  | walking (p : Option ι)
  | calling (p : ι)
  deriving DecidableEq

structure State (ι : Type) where
  wd : ι → WatchdogT
  link : ι → Dlink ι
  queue : Queue ι
  inactive : Queue ι
  watchdogTime : ℤ
  nextTime : ℤ
  thread : Thread ι
  log : List (Event ι)

inductive Act (ι : Type) where
  | register (wd : ι)
  | unregister (wd : ι)
  /-- The owner of a watchdog fills in its public fields. -/
  | assign (wd : ι) (oneShot : Bool) (interval : ℤ)
  /-- The watchdog thread wakes up and reads the time. -/
  | wake (time : ℤ)
  | look
  /-- The callback returns; the time is what the thread reads if it walks the list again. -/
  | back (time : ℤ)
  | sleep
  deriving DecidableEq

variable {ι : Type} [DecidableEq ι]

/-- `watchdog_sleep_time`. -/
def watchdogSleepTime : ℤ := 60

def State.list (s : State ι) (queue : Queue ι) : Dlist.State ι :=
  ⟨queue.head, queue.tail, queue.numItems, s.link⟩

def State.wdQueue (s : State ι) : Dlist.State ι := s.list s.queue

def State.wdInactive (s : State ι) : Dlist.State ι := s.list s.inactive

def State.setQueue (s : State ι) (l : Dlist.State ι) : State ι :=
  { s with queue := ⟨l.head, l.tail, l.numItems⟩, link := l.link }

def State.setInactive (s : State ι) (l : Dlist.State ι) : State ι :=
  { s with inactive := ⟨l.head, l.tail, l.numItems⟩, link := l.link }

def State.note (s : State ι) (event : Event ι) : State ι := { s with log := event :: s.log }

def State.touch (s : State ι) (wds : List ι) : State ι :=
  { s with log := wds.map Event.touched ++ s.log }

def State.setNextFire (s : State ι) (p : ι) (time : ℤ) : State ι :=
  { s with wd := Function.update s.wd p { s.wd p with nextFire := time } }

/-- The lock is free, or the thread that holds it runs a callback. -/
def State.Open (s : State ι) : Prop :=
  match s.thread with
  | .sleeping | .calling _ => True
  | .walking _ => False

instance (s : State ι) : Decidable s.Open := by
  unfold State.Open
  cases s.thread <;> infer_instance

/-- `foreach_dlist` up to a watchdog: whether it is there, and the watchdogs on the way. A loop that
passes more items than the list counts does not end. -/
def find (l : Dlist.State ι) (wd : ι) : ℕ → Option ι → Option (Bool × List ι)
  | 0, _ => none
  | fuel + 1, p =>
      match l.next p with
      | none => some (false, [])
      | some q =>
          if q = wd then some (true, [q])
          else (find l wd fuel (some q)).map fun found => (found.1, q :: found.2)

def search (l : Dlist.State ι) (wd : ι) : Option (Bool × List ι) :=
  find l wd (l.numItems + 1) none

/-- The items whose links `dlist::remove` reads or writes. -/
def removeTouches (l : Dlist.State ι) (wd : ι) : List ι :=
  wd :: (l.link wd).next.toList ++ (l.link wd).prev.toList

/-- The items whose links `dlist::append` writes. -/
def appendTouches (l : Dlist.State ι) (wd : ι) : List ι := wd :: l.tail.toList

/-- `register_watchdog`. A watchdog without an interval aborts the program. -/
def registerWatchdog (s : State ι) (wd : ι) : State ι :=
  if (s.wd wd).interval = 0 then s
  else
    let s := s.note (.registered wd)
    let s := s.setNextFire wd (s.watchdogTime + (s.wd wd).interval)
    (s.touch (appendTouches s.wdQueue wd)).setQueue (s.wdQueue.append wd)

/-- `unregister_watchdog`. -/
def unregisterWatchdog (s : State ι) (wd : ι) : Option (State ι) := do
  let (inQueue, way) ← search s.wdQueue wd
  if inQueue then
    let l ← s.wdQueue.remove wd
    some (((s.touch (way ++ removeTouches s.wdQueue wd)).setQueue l).note (.unregistered wd true))
  else
    let (inInactive, way') ← search s.wdInactive wd
    if inInactive then
      let l ← s.wdInactive.remove wd
      some (((s.touch (way ++ way' ++ removeTouches s.wdInactive wd)).setInactive l).note
        (.unregistered wd true))
    else some ((s.touch (way ++ way')).note (.unregistered wd false))

/-- The label `walk_list`. -/
def walkList (s : State ι) (time : ℤ) : State ι :=
  { s with
    watchdogTime := time
    nextTime := time + watchdogSleepTime
    thread := .walking (s.wdQueue.next none) }

/-- The end of the loop body, and the next watchdog. -/
def walkOn (s : State ι) (p : ι) : State ι :=
  { s with
    nextTime := min s.nextTime (s.wd p).nextFire
    thread := .walking (s.wdQueue.next (some p)) }

/-- The loop body up to the callback. -/
def lookAt (s : State ι) (p : ι) : State ι :=
  let s := s.touch [p]
  if (s.wd p).nextFire ≤ s.watchdogTime then { s.note (.called p) with thread := .calling p }
  else walkOn s p

/-- The loop body behind the callback: a one-shot goes to the inactive queue. -/
def comeBack (s : State ι) (p : ι) (time : ℤ) : Option (State ι) :=
  let s := (s.touch [p]).note (.returned p (s.wd p).oneShot)
  if (s.wd p).oneShot then do
    let l ← s.wdQueue.remove p
    let s := (s.touch (removeTouches s.wdQueue p)).setQueue l
    let s := (s.touch (appendTouches s.wdInactive p)).setInactive (s.wdInactive.append p)
    some (walkList s time)
  else some (walkOn (s.setNextFire p (s.watchdogTime + (s.wd p).interval)) p)

/-- A step; an act whose turn it is not does nothing. -/
def step (s : State ι) : Act ι → Option (State ι)
  | .register wd => if s.Open then some (registerWatchdog s wd) else some s
  | .unregister wd => if s.Open then unregisterWatchdog s wd else some s
  | .assign wd oneShot interval =>
      if s.Open then
        some { s with wd := Function.update s.wd wd { s.wd wd with oneShot, interval } }
      else some s
  | .wake time => if s.thread = .sleeping then some (walkList s time) else some s
  | .look =>
      match s.thread with
      | .walking (some p) => some (lookAt s p)
      | _ => some s
  | .back time =>
      match s.thread with
      | .calling p => comeBack s p time
      | _ => some s
  | .sleep => if s.thread = .walking none then some { s with thread := .sleeping } else some s

def run : List (Act ι) → State ι → Option (State ι)
  | [], s => some s
  | a :: rest, s => do run rest (← step s a)

/-- `start_watchdog`. -/
def start (wd : ι → WatchdogT) (link : ι → Dlink ι) (time : ℤ) : State ι :=
  ⟨wd, link, ⟨none, none, 0⟩, ⟨none, none, 0⟩, time, 0, .sleeping, []⟩

/-- The watchdog was unregistered, and not registered since. -/
def Gone (wd : ι) (log : List (Event ι)) : Prop :=
  ∃ later earlier, log = later ++ .unregistered wd true :: earlier ∧ .registered wd ∉ later

/-- The watchdog was called as a one-shot, and not registered since. -/
def Fired (wd : ι) (log : List (Event ι)) : Prop :=
  ∃ later earlier, log = later ++ .returned wd true :: earlier ∧ .registered wd ∉ later

/-- The list leads to the watchdog. -/
def InQueue (l : Dlist.State ι) (wd : ι) : Prop := ∃ n, l.next^[n + 1] none = some wd

/-- What holds in the state that some acts lead to. -/
structure Sound (s : State ι) : Prop where
  once : ∀ later wd earlier, s.log = later ++ .called wd :: earlier → ¬ Fired wd earlier
  untouched : ∀ later event wd earlier, s.log = later ++ event :: earlier →
    event = .called wd ∨ event = .touched wd → ¬ Gone wd earlier
  apart : ∀ wd, ¬ (InQueue s.wdQueue wd ∧ InQueue s.wdInactive wd)

/-- From the first watchdog of a walk to the end of the pass, each watchdog of the queue that is due
is called or unregistered. -/
def CallsDue (s s' : State ι) : Prop :=
  s.thread = .walking s.queue.head → s'.thread = .walking none →
    ∀ wd, InQueue s.wdQueue wd → (s.wd wd).nextFire ≤ s'.watchdogTime →
      ∃ new, s'.log = new ++ s.log ∧ (.called wd ∈ new ∨ .unregistered wd true ∈ new)

/-- The watchdog law. -/
structure Law (init : State ι) (acts : List (Act ι)) : Prop where
  runs : ∃ s, run acts init = some s
  sound : ∀ s, run acts init = some s → Sound s
  due : ∀ before pass, acts = before ++ pass → (∀ time, .wake time ∉ pass) →
    ∀ s s', run before init = some s → run pass s = some s' → CallsDue s s'

/-- A watchdog is registered only when it is in no queue, and no callback unregisters the watchdog
that it was called for. -/
def Proper (s : State ι) : Act ι → Prop
  | .register wd => s.Open → ¬ InQueue s.wdQueue wd ∧ ¬ InQueue s.wdInactive wd
  | .unregister wd => s.thread ≠ .calling wd
  | _ => True

def AllProper : List (Act ι) → State ι → Prop
  | [], _ => True
  | a :: rest, s => Proper s a ∧ ∀ s', step s a = some s' → AllProper rest s'

end Bacula.Watchdog
