import Bacula.Library.Progress
import Bacula.Lib.WorkqDestroy

/-! How long the workers and the destroys in flight can go on, and what is left when they cannot. -/
namespace Bacula.Workq
open Chain

variable {s : State} {k : ℕ}

def Phase.weight : Phase → ℕ
  | .start => 2
  | .waiting => 1
  | .running _ _ => 2

def Call.weight : Call → ℕ
  | .destroy => 3
  | .destroyWait woken => if woken then 2 else 1
  | .destroyEnd => 1
  | _ => 0

/-- A bound of the work that is left, when a worker can wake up `k` calls. -/
def measure (k : ℕ) (s : State) : ℕ :=
  (k + 4) * s.pending.length + (s.workers.map fun phase => phase.weight + k).sum +
    (s.calls.map Call.weight).sum

/-- The steps of workers and destroys whose waits do not fail. -/
def Action.alone : Action → Bool
  | .destroyCritical _ => true
  | .destroyWake _ signal => signal ≠ .error
  | .destroyEnd _ => true
  | .start _ => true
  | .wake _ w => w ≠ .error
  | .back _ => true
  | _ => false

/-- What comes back from its wait before the time is over, or without a signal, may wait again. -/
def Action.goesOn : Action → Bool
  | .destroyCritical _ => true
  | .destroyWake _ signal => signal = .woken
  | .destroyEnd _ => true
  | .start _ => true
  | .wake _ w => w = .timedOut
  | .back _ => true
  | _ => false

section Sums

variable {α : Type} (weight : α → ℕ)

theorem sum_set {l : List α} {i : ℕ} {old : α} (here : l[i]? = some old) (new : α) :
    ((l.set i new).map weight).sum + weight old = (l.map weight).sum + weight new := by
  induction l generalizing i with
  | nil => cases here
  | cons a l ih =>
      cases i with
      | zero =>
          obtain rfl := Option.some_inj.mp here
          simp only [List.set_cons_zero, List.map_cons, List.sum_cons]
          omega
      | succ i =>
          have := ih here
          simp only [List.set_cons_succ, List.map_cons, List.sum_cons]
          omega

theorem sum_eraseIdx {l : List α} {i : ℕ} {old : α} (here : l[i]? = some old) :
    ((l.eraseIdx i).map weight).sum + weight old = (l.map weight).sum := by
  induction l generalizing i with
  | nil => cases here
  | cons a l ih =>
      cases i with
      | zero =>
          obtain rfl := Option.some_inj.mp here
          simp only [List.eraseIdx_cons_zero, List.map_cons, List.sum_cons]
          omega
      | succ i =>
          have := ih here
          simp only [List.eraseIdx_cons_succ, List.map_cons, List.sum_cons]
          omega

end Sums

/-! ## One step -/

theorem exitWorker_measure {i : ℕ} {phase : Phase} (here : s.workers[i]? = some phase) :
    measure k (exitWorker s i) + (phase.weight + k) = measure k s := by
  have := sum_eraseIdx (fun phase => phase.weight + k) here
  simp only [measure, exitWorker]
  omega

theorem setPhase_measure {i : ℕ} {phase : Phase} (here : s.workers[i]? = some phase) (new : Phase) :
    measure k (setPhase s i new) + phase.weight = measure k s + new.weight := by
  have := sum_set (fun phase => phase.weight + k) here new
  simp only [measure, setPhase]
  omega

theorem broadcast_measure (s : State) : measure k (broadcast s) ≤ measure k s + s.calls.length := by
  have each (calls : List Call) :
      ((calls.map Call.wakeUp).map Call.weight).sum ≤ (calls.map Call.weight).sum + calls.length := by
    induction calls with
    | nil => exact le_refl 0
    | cons call calls ih =>
        have woken : call.wakeUp.weight ≤ call.weight + 1 := by
          cases call with
          | destroyWait woken => cases woken <;> decide
          | add => exact Nat.le_succ _
          | remove => exact Nat.le_succ _
          | destroy => exact Nat.le_succ _
          | destroyEnd => exact Nat.le_succ _
        simp only [List.map_cons, List.sum_cons, List.length_cons]
        omega
  have := each s.calls
  simp only [measure, broadcast]
  omega

theorem quitWorker_measure (short : s.calls.length ≤ k) {i : ℕ} {phase : Phase}
    (here : s.workers[i]? = some phase) :
    measure k (quitWorker s i) + phase.weight ≤ measure k s := by
  have exited := @exitWorker_measure s k i phase here
  unfold quitWorker
  dsimp only
  split
  · have woken := @broadcast_measure k (exitWorker s i)
    change _ ≤ _ + s.calls.length at woken
    omega
  · omega

theorem leaveWorker_measure (short : s.calls.length ≤ k) {i : ℕ} {phase : Phase}
    (here : s.workers[i]? = some phase) :
    measure k (leaveWorker s i) + phase.weight ≤ measure k s := by
  unfold leaveWorker
  split
  · exact quitWorker_measure short here
  · have exited := @exitWorker_measure s k i phase here
    omega

theorem serve_measure (queue : Queue s) (short : s.calls.length ≤ k) {i : ℕ} {phase : Phase}
    (here : s.workers[i]? = some phase) (timedout : Bool) :
    measure k (serve s i timedout) + phase.weight ≤ measure k s := by
  rw [serve]
  cases first : s.wq.first with
  | none => exact leaveWorker_measure short here
  | some we =>
      have some : s.pending ≠ [] := fun none => by rw [queue.first.mpr none] at first; cases first
      obtain ⟨item, rest, pending⟩ := List.exists_cons_of_ne_nil some
      have weights := sum_set (fun phase => phase.weight + k) here (.running we timedout)
      have running : (Phase.running we timedout).weight = 2 := rfl
      dsimp only
      split <;>
      · simp only [measure, setPhase, pending, List.tail_cons, List.length_cons, Nat.mul_succ]
        omega

theorem workqServer_measure (queue : Queue s) (short : s.calls.length ≤ k) {i : ℕ} {phase : Phase}
    (here : s.workers[i]? = some phase) :
    measure k (workqServer s i) + phase.weight ≤ measure k s + 1 := by
  rw [workqServer]
  split
  · exact (setPhase_measure here .waiting).le
  · exact (serve_measure queue short here false).trans (Nat.le_succ _)

theorem workqBack_measure (sound : Sound s) (short : s.calls.length ≤ k) {i : ℕ} {phase : Phase}
    (here : s.workers[i]? = some phase) (timedout : Bool) :
    measure k (workqBack s i timedout) + phase.weight ≤ measure k s + 1 := by
  have relocked (b : State) (sound : Sound b) (short : b.calls.length ≤ k)
    (here : b.workers[i]? = some phase) :
      measure k (if b.wq.first = none ∧ b.wq.quit then quitWorker b i
        else if b.wq.first = none ∧ timedout then exitWorker b i else workqServer b i) + phase.weight ≤
      measure k b + 1 := by
    split
    · exact (quitWorker_measure short here).trans (Nat.le_succ _)
    · split
      · have exited := @exitWorker_measure b k i phase here
        omega
      · exact workqServer_measure sound.toQueue short here
  exact relocked _ sound.back short here

/-- A call goes on to another place. -/
theorem setCall_measure {i : ℕ} {call : Call} (here : s.calls[i]? = some call) (new : Call) (wq : Wq) :
    measure k { s with wq, calls := s.calls.set i new } + call.weight = measure k s + new.weight := by
  have := sum_set Call.weight here new
  simp only [measure]
  omega

theorem leave_measure {i : ℕ} {call : Call} (here : s.calls[i]? = some call) :
    measure k (leave s i) + call.weight = measure k s := by
  have := sum_eraseIdx Call.weight here
  simp only [measure, leave]
  omega

theorem workqDestroy_measure (sound : Sound s) {i : ℕ} (here : s.calls[i]? = some .destroy) :
    measure k (workqDestroy s i) + 1 ≤ measure k s := by
  have moved (call : Call) (light : call.weight = 1) (wq : Wq) :
      measure k { s with wq, calls := s.calls.set i call } + 1 ≤ measure k s := by
    have := @setCall_measure s k i _ here call wq
    have weight : Call.destroy.weight = 3 := rfl
    omega
  unfold workqDestroy
  dsimp only
  rw [if_neg (not_not.mpr sound.idleWorkers)]
  split
  · exact moved (.destroyWait false) rfl _
  · exact moved .destroyEnd rfl _

theorem destroyWake_measure {i : ℕ} {woken : Bool} (here : s.calls[i]? = some (.destroyWait woken))
    {signal : Signal} (signalled : ¬ (signal = .woken ∧ !woken)) (works : signal ≠ .error) :
    measure k (destroyWake s i signal) + (if signal = .woken then 1 else 0) ≤ measure k s := by
  have moved :=
    @setCall_measure s k i _ here (if s.wq.numWorkers > 0 then .destroyWait false else .destroyEnd) s.wq
  have after : (if s.wq.numWorkers > 0 then Call.destroyWait false else .destroyEnd).weight = 1 := by
    split <;> rfl
  rw [after] at moved
  cases signal with
  | error => exact absurd rfl works
  | woken =>
      have before : woken = true := by simpa using signalled
      rw [before] at moved
      have weight : (Call.destroyWait true).weight = 2 := rfl
      rw [if_pos rfl]
      change measure k { s with calls := _ } + 1 ≤ _
      omega
  | spurious =>
      have weight : 1 ≤ (Call.destroyWait woken).weight := by cases woken <;> decide
      rw [if_neg Signal.noConfusion]
      change measure k { s with calls := _ } + 0 ≤ _
      omega

theorem quitWorker_calls (s : State) (i : ℕ) : (quitWorker s i).calls.length = s.calls.length := by
  unfold quitWorker
  dsimp only
  split
  · exact List.length_map ..
  · rfl

theorem serve_calls (s : State) (i : ℕ) (timedout : Bool) :
    (serve s i timedout).calls.length = s.calls.length := by
  unfold serve leaveWorker
  split
  · dsimp only
    split <;> rfl
  · split
    · exact quitWorker_calls s i
    · rfl

theorem workqServer_calls (s : State) (i : ℕ) : (workqServer s i).calls.length = s.calls.length := by
  unfold workqServer
  split
  · rfl
  · exact serve_calls s i false

theorem workqBack_calls (s : State) (i : ℕ) (timedout : Bool) :
    (workqBack s i timedout).calls.length = s.calls.length := by
  unfold workqBack
  dsimp only
  split
  · exact quitWorker_calls _ i
  · split
    · rfl
    · exact workqServer_calls _ i

theorem workqDestroy_calls (sound : Sound s) (i : ℕ) :
    (workqDestroy s i).calls.length = s.calls.length := by
  unfold workqDestroy
  dsimp only
  rw [if_neg (not_not.mpr sound.idleWorkers)]
  split <;> exact List.length_set ..

/-- A step that waits for nothing leaves less to do. -/
theorem underMutex_measure (sound : Sound s) (short : s.calls.length ≤ k) {action : Action}
    (alone : action.alone = true) {s' : State} (taken : underMutex s action = some s') :
    s'.calls.length ≤ k ∧ measure k s' + (if action.goesOn then 1 else 0) ≤ measure k s := by
  have erased (i : ℕ) : (leave s i).calls.length ≤ k := (List.length_eraseIdx_le ..).trans short
  cases action with
  | add priority => cases alone
  | remove item => cases alone
  | destroy => cases alone
  | critical i created => cases alone
  | destroyCritical i =>
      unfold underMutex at taken
      dsimp only at taken
      split at taken
      case isTrue here =>
        obtain rfl := Option.some_inj.mp taken
        exact ⟨(workqDestroy_calls sound i).trans_le short, workqDestroy_measure sound here⟩
      case isFalse => cases taken
  | destroyWake i signal =>
      unfold underMutex at taken
      dsimp only at taken
      split at taken
      case h_1 woken here =>
        split at taken
        case isTrue => cases taken
        case isFalse signalled =>
          have works : signal ≠ .error := by simpa [Action.alone] using alone
          have lower := destroyWake_measure (k := k) here signalled works
          obtain rfl := Option.some_inj.mp taken
          constructor
          · cases signal with
            | error => exact absurd rfl works
            | woken => exact (List.length_set ..).trans_le short
            | spurious => exact (List.length_set ..).trans_le short
          · simpa [Action.goesOn] using lower
      case h_2 => cases taken
  | destroyEnd i =>
      unfold underMutex at taken
      dsimp only at taken
      split at taken
      case isTrue here =>
        obtain rfl := Option.some_inj.mp taken
        exact ⟨erased i, (@leave_measure s k i _ here).le⟩
      case isFalse => cases taken
  | start i =>
      unfold underMutex at taken
      dsimp only at taken
      split at taken
      case isTrue here =>
        obtain rfl := Option.some_inj.mp taken
        have lower := workqServer_measure sound.toQueue short here
        exact ⟨(workqServer_calls s i).trans_le short, Nat.le_of_succ_le_succ lower⟩
      case isFalse => cases taken
  | wake i wake =>
      unfold underMutex at taken
      dsimp only at taken
      split at taken
      case isTrue here =>
        obtain rfl := Option.some_inj.mp taken
        cases wake with
        | timedOut =>
            exact ⟨(serve_calls s i true).trans_le short, serve_measure sound.toQueue short here true⟩
        | error => cases alone
        | again =>
            have lower := workqServer_measure sound.toQueue short here
            exact ⟨(workqServer_calls s i).trans_le short, Nat.le_of_succ_le_succ lower⟩
      case isFalse => cases taken
  | back i =>
      unfold underMutex at taken
      dsimp only at taken
      split at taken
      case h_1 item timedout here =>
        have lower := workqBack_measure sound short here timedout
        obtain rfl := Option.some_inj.mp taken
        have weight : (Phase.running item timedout).weight = 2 := rfl
        refine ⟨(workqBack_calls s i timedout).trans_le short, ?_⟩
        change _ + 1 ≤ _
        omega
      case h_2 => cases taken

theorem alone_under {action : Action} (alone : action.alone = true) {s' : State}
    (taken : step s action = some s') : underMutex s action = some s' := by
  cases action with
  | add priority => cases alone
  | remove item => cases alone
  | destroy => cases alone
  | critical i created => cases alone
  | destroyCritical i => exact (mutex_free taken).2.2
  | destroyWake i signal => exact (mutex_free taken).2.2
  | destroyEnd i => exact (mutex_free taken).2.2
  | start i => exact (mutex_free taken).2.2
  | wake i wake => exact (mutex_free taken).2.2
  | back i => exact (mutex_free taken).2.2

/-! ## Runs -/

/-- The workers and the destroys alone come to an end. -/
theorem run_measure {actions : List Action} {s' : State} (sound : Sound s) (destroying : Destroying s)
    (alone : ∀ action ∈ actions, action.alone = true)
    (run : Transition.Run (Transition.Guarded (fun s a s' => step s a = some s') Allowed)
      s actions s') :
    Sound s' ∧ Destroying s' ∧
      measure s.calls.length s' + actions.countP Action.goesOn ≤ measure s.calls.length s := by
  have one (t : State) (action : Action) (t' : State)
      (inv : Sound t ∧ Destroying t ∧ t.calls.length ≤ s.calls.length)
      (taken : Transition.Guarded (Transition.Guarded (fun s a s' => step s a = some s') Allowed)
        (fun _ action => action.alone = true) t action t') :
      (Sound t' ∧ Destroying t' ∧ t'.calls.length ≤ s.calls.length) ∧
        measure s.calls.length t' + (if action.goesOn then 1 else 0) ≤ measure s.calls.length t := by
    obtain ⟨sound, destroying, short⟩ := inv
    obtain ⟨alone, allowed, taken⟩ := taken
    have next := step_sound sound allowed taken
    have next' := step_destroying sound destroying allowed taken
    obtain ⟨short', lower⟩ := underMutex_measure sound short alone (alone_under alone taken)
    exact ⟨⟨next, next', short'⟩, lower⟩
  obtain ⟨⟨sound', destroying', -⟩, bound⟩ :=
    (run.guard alone).bounded one ⟨sound, destroying, le_refl _⟩
  exact ⟨sound', destroying', bound⟩

/-- The calls of `workq_destroy`. -/
def Call.destroys : Call → Bool
  | .add _ => false
  | .remove _ => false
  | _ => true

/-- A worker can always go on, and so can a destroy when there is no other call. -/
theorem goesOn_of_left (sound : Sound s) (destroying : Destroying s)
    (left : s.workers ≠ [] ∨ ∃ call, s.calls = [call] ∧ call.destroys = true) :
    ∃ action : Action, action.goesOn = true ∧ Allowed s action ∧ (step s action).isSome = true := by
  have unlocked := sound.unlocked
  have free : s.destroyed = false := by
    by_contra gone
    rw [Bool.not_eq_false] at gone
    rcases left with living | ⟨call, calls, -⟩
    · exact living (destroying.ends (.inr gone)).1
    · rw [destroying.destroyed gone] at calls
      cases calls
  by_cases living : s.workers = []
  · obtain ⟨call, calls, destroys⟩ := left.resolve_left (not_not.mpr living)
    have here : s.calls[0]? = some call := by rw [calls]; rfl
    cases call with
    | add priority => cases destroys
    | remove item => cases destroys
    | destroy =>
        exact ⟨.destroyCritical 0, rfl, trivial, by simp [step, underMutex, unlocked, free, here]⟩
    | destroyWait woken =>
        -- nobody sleeps without a worker
        have woke : woken = true := by
          by_contra asleep
          rw [Bool.not_eq_true] at asleep
          exact destroying.waits (by rw [calls, asleep]; exact List.mem_singleton_self _) living
        refine ⟨.destroyWake 0 .woken, rfl, trivial, ?_⟩
        simp [step, underMutex, unlocked, free, here, woke]
    | destroyEnd => exact ⟨.destroyEnd 0, rfl, calls, by simp [step, underMutex, unlocked, free, here]⟩
  · obtain ⟨phase, workers, eq⟩ := List.exists_cons_of_ne_nil living
    have here : s.workers[0]? = some phase := by rw [eq]; rfl
    cases phase with
    | start => exact ⟨.start 0, rfl, trivial, by simp [step, underMutex, unlocked, free, here]⟩
    | waiting =>
        exact ⟨.wake 0 .timedOut, rfl, trivial, by simp [step, underMutex, unlocked, free, here]⟩
    | running item timedout =>
        exact ⟨.back 0, rfl, trivial, by simp [step, underMutex, unlocked, free, here]⟩

/-- A `workq_add` or `workq_remove` that has found the queue valid can lock the mutex, and returns. -/
theorem call_returns (sound : Sound s) (destroying : Destroying s) {i : ℕ} {call : Call}
    (here : s.calls[i]? = some call) (other : call.destroys = false) (created : Bool) :
    ∃ s', step s (.critical i created) = some s' ∧ s'.calls = s.calls.eraseIdx i := by
  have unlocked := sound.unlocked
  have free : s.destroyed = false := by
    by_contra gone
    rw [Bool.not_eq_false] at gone
    rw [destroying.destroyed gone] at here
    cases here
  cases call with
  | add priority =>
      have keeps := (workqAdd_keeps sound priority created).1
      refine ⟨leave (workqAdd s priority created) i,
        by simp [step, underMutex, unlocked, free, here], ?_⟩
      change (workqAdd s priority created).calls.eraseIdx i = _
      rw [keeps.calls]
  | remove item =>
      have keeps := (workqRemove_keeps sound item created).1
      refine ⟨leave (workqRemove s item created) i,
        by simp [step, underMutex, unlocked, free, here], ?_⟩
      change (workqRemove s item created).calls.eraseIdx i = _
      rw [keeps.calls]
  | destroy => cases other
  | destroyWait woken => cases other
  | destroyEnd => cases other

/-- The mutex is free between the sections; the links give the pending items in order; every queued
item is pending or was given to the engine, once; the live workers are counted and are not too many;
a call that adds or removes returns with its section; and when the workers and the destroys go on
alone they end, the last destroy returns, and then every item was given to the engine. -/
theorem workq_law {threads : ℤ} (nonneg : 0 ≤ threads) (reached : Reached threads s) :
    s.locked = false ∧
    (Chained s.next s.wq.first s.pending ∧ s.wq.last = s.pending.getLast?) ∧
    (s.pending ++ s.started).Perm (List.range s.allocated) ∧
    (s.wq.numWorkers = s.workers.length ∧ s.wq.numWorkers ≤ s.wq.maxWorkers) ∧
    (∀ i call, s.calls[i]? = some call → call.destroys = false → ∀ created, ∃ s',
      step s (.critical i created) = some s' ∧ s'.calls = s.calls.eraseIdx i) ∧
    ∀ actions s', (∀ action ∈ actions, action.alone = true) →
      Transition.Run (Transition.Guarded (fun s a s' => step s a = some s') Allowed) s actions s' →
        actions.countP Action.goesOn ≤ measure s.calls.length s ∧
        (s'.workers ≠ [] ∨ (∃ call, s'.calls = [call] ∧ call.destroys = true) →
          ∃ action : Action, action.goesOn = true ∧ Allowed s' action ∧
            (step s' action).isSome = true) ∧
        (s'.workers = [] → s'.started.Perm (List.range s'.allocated)) := by
  obtain ⟨sound, destroying⟩ := reached.sound nonneg
  refine ⟨sound.unlocked, ⟨sound.chained, sound.last⟩, sound.items,
    ⟨sound.numWorkers, sound.maxWorkers⟩,
    fun i call here other created => call_returns sound destroying here other created, ?_⟩
  intro actions s' alone run
  obtain ⟨sound', destroying', bound⟩ := run_measure sound destroying alone run
  refine ⟨by omega, goesOn_of_left sound' destroying', fun none => ?_⟩
  have empty : s'.pending = [] := by
    by_contra some
    exact sound'.served some none
  have items := sound'.items
  rwa [empty] at items

/-- Two items are queued, the second is moved to the head, and a worker runs it while a destroy
waits. -/
def twoItems : State :=
  let first := leave (workqAdd (enter (workqInit 2) (.add false)) false true) 0
  let second := leave (workqAdd (enter first (.add false)) false false) 0
  let moved := leave (workqRemove (enter second (.remove 1)) 1 false) 0
  workqServer (workqDestroy (enter moved .destroy) 0) 0

theorem twoItems_reached : Reached 2 twoItems := by
  refine ⟨[.add false, .critical 0 true, .add false, .critical 0 false, .remove 1,
    .critical 0 false, .destroy, .destroyCritical 0, .start 0], ?_⟩
  refine .cons ⟨trivial, rfl⟩ ?_
  refine .cons ⟨⟨by decide, .inr ⟨by decide, rfl⟩⟩, rfl⟩ ?_
  refine .cons ⟨trivial, rfl⟩ ?_
  refine .cons ⟨⟨by decide, .inl (by decide)⟩, rfl⟩ ?_
  refine .cons ⟨trivial, rfl⟩ ?_
  refine .cons ⟨⟨by decide, by decide, by decide⟩, rfl⟩ ?_
  refine .cons ⟨trivial, rfl⟩ ?_
  refine .cons ⟨trivial, rfl⟩ ?_
  refine .cons ⟨trivial, rfl⟩ ?_
  exact .nil _

theorem twoItems_law :
    (twoItems.pending ++ twoItems.started).Perm (List.range twoItems.allocated) ∧
      twoItems.pending = [0] ∧ twoItems.started = [1] ∧ twoItems.calls = [.destroyWait false] := by
  have law := workq_law (by decide) twoItems_reached
  exact ⟨law.2.2.1, rfl, rfl, rfl⟩

/-- `workq_remove` of an item that was never queued returns with the mutex locked. -/
theorem removed_unknown_locks :
    ¬ ∀ (actions : List Action) (s : State),
      Transition.Run (fun s a s' => step s a = some s') (workqInit 1) actions s → s.locked = false := by
  intro law
  have locked := law [.remove 0, .critical 0 true] _ (.cons rfl (.cons rfl (.nil _)))
  cases locked

end Bacula.Workq
