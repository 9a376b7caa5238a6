import Bacula.Lib.WorkqLaw

/-! What holds of the calls in flight: a `workq_destroy` that sleeps has a worker to wake it up, and
the mutex is destroyed when there are no workers. From there, how long the workers and a destroy can
go on. -/
namespace Bacula.Workq
open Chain

variable {s : State}

structure Destroying (s : State) : Prop where
  quit : ∀ woken, .destroyWait woken ∈ s.calls → s.wq.quit = true ∧ s.wq.valid = false
  waits : .destroyWait false ∈ s.calls → s.workers ≠ []
  ends : .destroyEnd ∈ s.calls ∨ s.destroyed = true → s.workers = [] ∧ s.wq.valid = false
  destroyed : s.destroyed = true → s.calls = []

theorem workqInit_destroying (threads : ℤ) : Destroying (workqInit threads) where
  quit _ inside := by cases inside
  waits inside := by cases inside
  ends inside := by
    rcases inside with inside | inside
    · cases inside
    · cases inside
  destroyed _ := rfl

/-- The fields that only a destroy changes. -/
structure Keeps (s s' : State) : Prop where
  calls : s'.calls = s.calls
  destroyed : s'.destroyed = s.destroyed
  quit : s'.wq.quit = s.wq.quit
  valid : s'.wq.valid = s.wq.valid

theorem Keeps.refl (s : State) : Keeps s s := ⟨rfl, rfl, rfl, rfl⟩

theorem Keeps.trans {s' t : State} (first : Keeps s s') (second : Keeps s' t) : Keeps s t :=
  ⟨second.calls.trans first.calls, second.destroyed.trans first.destroyed, second.quit.trans first.quit,
    second.valid.trans first.valid⟩

theorem enqueue_keeps (s : State) (priority : Bool) : Keeps s (enqueue s priority) := by
  rw [enqueue]
  dsimp only
  split
  · split <;> exact ⟨rfl, rfl, rfl, rfl⟩
  · split <;> exact ⟨rfl, rfl, rfl, rfl⟩

theorem moveFirst_keeps (s : State) (item : ℕ) (prev : Option ℕ) : Keeps s (moveFirst s item prev) := by
  unfold moveFirst
  dsimp only
  split
  · cases prev <;> dsimp only <;> split <;> exact ⟨rfl, rfl, rfl, rfl⟩
  · exact ⟨rfl, rfl, rfl, rfl⟩

theorem createWorker_keeps (s : State) (created : Bool) :
    Keeps s (createWorker s created) ∧ (s.workers ≠ [] → (createWorker s created).workers ≠ []) := by
  rw [createWorker]
  split
  · exact ⟨⟨rfl, rfl, rfl, rfl⟩, fun _ => by simp⟩
  · exact ⟨.refl s, id⟩

theorem workqAdd_keeps (sound : Sound s) (priority created : Bool) :
    Keeps s (workqAdd s priority created) ∧
      (s.workers ≠ [] → (workqAdd s priority created).workers ≠ []) := by
  obtain ⟨-, workers, -, -, idle⟩ := enqueue_same s priority
  have keeps := enqueue_keeps s priority
  rw [workqAdd, if_neg (by rw [idle, sound.idleWorkers]; exact lt_irrefl 0)]
  split
  · obtain ⟨keeps', living⟩ := createWorker_keeps (enqueue s priority) created
    rw [workers] at living
    exact ⟨keeps.trans keeps', living⟩
  · rw [workers]
    exact ⟨keeps, id⟩

theorem workqRemove_keeps (sound : Sound s) (item : ℕ) (created : Bool) :
    Keeps s (workqRemove s item created) ∧
      (s.workers ≠ [] → (workqRemove s item created).workers ≠ []) := by
  rw [workqRemove]
  split
  case h_1 => exact ⟨⟨rfl, rfl, rfl, rfl⟩, id⟩
  case h_2 prev _ =>
    obtain ⟨-, workers, -, -, idle⟩ := moveFirst_same s item prev
    obtain ⟨keeps, living⟩ := createWorker_keeps (moveFirst s item prev) created
    dsimp only
    rw [if_neg (by rw [idle, sound.idleWorkers]; exact lt_irrefl 0)]
    rw [workers] at living
    exact ⟨(moveFirst_keeps s item prev).trans keeps, living⟩

/-! ## The workers -/

/-- A worker that stays. -/
theorem Destroying.of_keeps (destroying : Destroying s) {s' : State} (keeps : Keeps s s')
    (workers : s'.workers.length = s.workers.length) : Destroying s' where
  quit woken inside := by
    rw [keeps.calls] at inside
    rw [keeps.quit, keeps.valid]
    exact destroying.quit woken inside
  waits inside := by
    rw [keeps.calls] at inside
    have living := List.length_pos_iff.mpr (destroying.waits inside)
    exact List.length_pos_iff.mp (workers ▸ living)
  ends ended := by
    rw [keeps.calls, keeps.destroyed] at ended
    obtain ⟨none, invalid⟩ := destroying.ends ended
    rw [keeps.valid]
    exact ⟨List.length_eq_zero_iff.mp (workers.trans (List.length_eq_zero_iff.mpr none)), invalid⟩
  destroyed gone := by
    rw [keeps.destroyed] at gone
    rw [keeps.calls]
    exact destroying.destroyed gone

theorem exitWorker_destroying (destroying : Destroying s) {i : ℕ} (inside : i < s.workers.length)
    (enough : .destroyWait false ∈ s.calls → 1 < s.workers.length) : Destroying (exitWorker s i) where
  quit := destroying.quit
  waits waiting := by
    refine List.length_pos_iff.mp ?_
    change 0 < (s.workers.eraseIdx i).length
    have more := enough waiting
    rw [List.length_eraseIdx_of_lt inside]
    omega
  ends ended := by
    obtain ⟨none, -⟩ := destroying.ends ended
    rw [none] at inside
    exact absurd inside (Nat.not_lt_zero i)
  destroyed := destroying.destroyed

theorem mem_wakeUp {calls : List Call} :
    (.destroyWait false ∉ calls.map Call.wakeUp) ∧
      (∀ woken, .destroyWait woken ∈ calls.map Call.wakeUp → ∃ woken, .destroyWait woken ∈ calls) ∧
      (.destroyEnd ∈ calls.map Call.wakeUp → .destroyEnd ∈ calls) := by
  simp only [List.mem_map]
  refine ⟨?_, ?_, ?_⟩
  · rintro ⟨call, -, same⟩
    cases call <;> cases same
  · rintro woken ⟨call, inside, same⟩
    cases call with
    | destroyWait woken => exact ⟨woken, inside⟩
    | add => cases same
    | remove => cases same
    | destroy => cases same
    | destroyEnd => cases same
  · rintro ⟨call, inside, same⟩
    cases call with
    | destroyEnd => exact inside
    | add => cases same
    | remove => cases same
    | destroy => cases same
    | destroyWait => cases same

/-- The last worker that quits wakes up who sleeps. -/
theorem quitWorker_destroying (sound : Sound s) (destroying : Destroying s) {i : ℕ}
    (inside : i < s.workers.length) :
    Destroying (quitWorker s i) := by
  have numWorkers := sound.numWorkers
  have running (ended : .destroyEnd ∈ s.calls ∨ s.destroyed = true) : False := by
    rw [(destroying.ends ended).1] at inside
    exact Nat.not_lt_zero i inside
  unfold quitWorker
  dsimp only
  by_cases last : (exitWorker s i).wq.numWorkers = 0
  · rw [if_pos last]
    obtain ⟨asleep, wait, ending⟩ := @mem_wakeUp s.calls
    refine ⟨fun woken inside => ?_, fun inside => absurd inside asleep, fun ended => ?_, fun gone => ?_⟩
    · obtain ⟨woken, inside⟩ := wait woken inside
      exact destroying.quit woken inside
    · exact (running (ended.imp_left ending)).elim
    · exact (running (.inr gone)).elim
  · rw [if_neg last]
    refine exitWorker_destroying destroying inside fun _ => ?_
    change s.wq.numWorkers - 1 ≠ 0 at last
    omega

/-- Without a quit nobody sleeps. -/
theorem leaveWorker_destroying (sound : Sound s) (destroying : Destroying s) {i : ℕ}
    (inside : i < s.workers.length) :
    Destroying (leaveWorker s i) := by
  unfold leaveWorker
  by_cases quit : s.wq.quit = true
  · rw [if_pos quit]
    exact quitWorker_destroying sound destroying inside
  · rw [if_neg quit]
    exact exitWorker_destroying destroying inside fun waiting =>
      absurd (destroying.quit false waiting).1 quit

theorem serve_destroying (sound : Sound s) (destroying : Destroying s) {i : ℕ}
    (inside : i < s.workers.length) (timedout : Bool) : Destroying (serve s i timedout) := by
  unfold serve
  split
  · dsimp only
    split
    · exact destroying.of_keeps ⟨rfl, rfl, rfl, rfl⟩ (List.length_set ..)
    · exact destroying.of_keeps ⟨rfl, rfl, rfl, rfl⟩ (List.length_set ..)
  · exact leaveWorker_destroying sound destroying inside

theorem workqServer_destroying (sound : Sound s) (destroying : Destroying s) {i : ℕ}
    (inside : i < s.workers.length) : Destroying (workqServer s i) := by
  unfold workqServer
  split
  · exact destroying.of_keeps ⟨rfl, rfl, rfl, rfl⟩ (List.length_set ..)
  · exact serve_destroying sound destroying inside false

theorem workqBack_destroying (sound : Sound s) (destroying : Destroying s) {i : ℕ}
    (inside : i < s.workers.length) (timedout : Bool) : Destroying (workqBack s i timedout) := by
  have back : Destroying { s with wq := { s.wq with numRunning := s.wq.numRunning - 1 } } :=
    destroying.of_keeps ⟨rfl, rfl, rfl, rfl⟩ rfl
  unfold workqBack
  dsimp only
  by_cases quit : s.wq.first = none ∧ s.wq.quit = true
  · rw [if_pos quit]
    exact quitWorker_destroying sound.back back inside
  · rw [if_neg quit]
    split
    case isTrue idle =>
      refine exitWorker_destroying back inside fun waiting => ?_
      exact absurd ⟨idle.1, (destroying.quit false waiting).1⟩ quit
    case isFalse => exact workqServer_destroying sound.back back inside

/-! ## The calls -/

theorem enter_destroying (destroying : Destroying s) {call : Call}
    (first : ∀ woken, call ≠ .destroyWait woken ∧ call ≠ .destroyEnd) : Destroying (enter s call) := by
  unfold enter
  by_cases valid : s.wq.valid = true
  · rw [if_pos valid]
    have old {c : Call} (inside : c ∈ s.calls ++ [call]) (other : call ≠ c) : c ∈ s.calls := by
      rcases List.mem_append.mp inside with inside | new
      · exact inside
      · exact absurd (List.mem_singleton.mp new).symm other
    have opened (invalid : s.wq.valid = false) : False := by
      rw [valid] at invalid
      cases invalid
    refine ⟨fun woken inside => destroying.quit woken (old inside (first woken).1),
      fun inside => destroying.waits (old inside (first false).1), fun ended => ?_, fun gone => ?_⟩
    · exact (opened (destroying.ends (ended.imp_left fun inside => old inside (first false).2)).2).elim
    · exact (opened (destroying.ends (.inr gone)).2).elim
  · rw [if_neg valid]
    exact destroying

/-- A call returns. -/
theorem leave_destroying (destroying : Destroying s) (i : ℕ) : Destroying (leave s i) where
  quit woken inside := destroying.quit woken (List.mem_of_mem_eraseIdx inside)
  waits inside := destroying.waits (List.mem_of_mem_eraseIdx inside)
  ends ended := destroying.ends (ended.imp_left List.mem_of_mem_eraseIdx)
  destroyed gone := by
    have none := destroying.destroyed gone
    change s.calls.eraseIdx i = []
    rw [none]
    rfl

/-- A section of `workq_add` or `workq_remove`. -/
theorem Destroying.grown (destroying : Destroying s) {s' : State} (keeps : Keeps s s')
    (workers : s.workers ≠ [] → s'.workers ≠ []) (used : .destroyEnd ∉ s.calls ∧ s.destroyed = false) :
    Destroying s' where
  quit woken inside := by
    rw [keeps.calls] at inside
    rw [keeps.quit, keeps.valid]
    exact destroying.quit woken inside
  waits inside := by
    rw [keeps.calls] at inside
    exact workers (destroying.waits inside)
  ends ended := by
    rw [keeps.calls, keeps.destroyed, used.2] at ended
    exact absurd (ended.resolve_right Bool.false_ne_true) used.1
  destroyed gone := by
    rw [keeps.destroyed, used.2] at gone
    cases gone

theorem workqDestroy_destroying (sound : Sound s) (destroying : Destroying s)
    (unused : s.destroyed = false) (i : ℕ) :
    Destroying (workqDestroy s i) := by
  have numWorkers := sound.numWorkers
  have old {c new : Call} (inside : c ∈ s.calls.set i new) (other : c ≠ new) : c ∈ s.calls :=
    (List.mem_or_eq_of_mem_set inside).resolve_right other
  unfold workqDestroy
  dsimp only
  by_cases living : s.wq.numWorkers > 0
  · rw [if_pos living, if_neg (not_not.mpr sound.idleWorkers)]
    have some : s.workers ≠ [] := List.length_pos_iff.mp (by omega)
    refine ⟨fun _ _ => ⟨rfl, rfl⟩, fun _ => some, fun ended => ?_, fun gone => ?_⟩
    · exact absurd (destroying.ends (ended.imp_left fun inside => old inside Call.noConfusion)).1 some
    · rw [unused] at gone
      cases gone
  · rw [if_neg living]
    have none : s.workers = [] := List.length_eq_zero_iff.mp (by omega)
    refine ⟨fun woken inside => ?_, fun inside => ?_, fun _ => ⟨none, rfl⟩, fun gone => ?_⟩
    · exact ⟨(destroying.quit woken (old inside Call.noConfusion)).1, rfl⟩
    · exact destroying.waits (old inside Call.noConfusion)
    · rw [unused] at gone
      cases gone

theorem destroyWake_destroying (sound : Sound s) (destroying : Destroying s)
    (unused : s.destroyed = false) {i : ℕ} {woken : Bool} (here : .destroyWait woken ∈ s.calls)
    (signal : Signal) :
    Destroying (destroyWake s i signal) := by
  have numWorkers := sound.numWorkers
  obtain ⟨quit, invalid⟩ := destroying.quit woken here
  have again : Destroying { s with
      calls := s.calls.set i (if s.wq.numWorkers > 0 then .destroyWait false else .destroyEnd) } := by
    have old {c new : Call} (inside : c ∈ s.calls.set i new) (other : c ≠ new) : c ∈ s.calls :=
      (List.mem_or_eq_of_mem_set inside).resolve_right other
    refine ⟨fun _ _ => ⟨quit, invalid⟩, fun inside => ?_, fun ended => ⟨?_, invalid⟩, fun gone => ?_⟩
    · dsimp only at inside
      split at inside
      case isTrue living => exact List.length_pos_iff.mp (by dsimp only; omega)
      case isFalse => exact destroying.waits (old inside Call.noConfusion)
    · dsimp only at ended
      split at ended
      case isTrue =>
        exact (destroying.ends (ended.imp_left fun inside => old inside Call.noConfusion)).1
      case isFalse none => exact List.length_eq_zero_iff.mp (by dsimp only; omega)
    · rw [unused] at gone
      cases gone
  cases signal with
  | error => exact leave_destroying destroying i
  | woken => exact again
  | spurious => exact again

theorem step_destroying (sound : Sound s) (destroying : Destroying s) {action : Action}
    (allowed : Allowed s action) {s' : State} (taken : step s action = some s') : Destroying s' := by
  rcases step_cases taken with ⟨call, rfl, first⟩ | ⟨-, unused, under⟩
  · exact enter_destroying destroying first
  cases action with
  | add priority => cases under
  | remove item => cases under
  | destroy => cases under
  | critical i created =>
      obtain ⟨ended, -⟩ := allowed
      unfold underMutex at under
      dsimp only at under
      split at under
      case h_1 priority _ =>
        obtain ⟨keeps, workers⟩ := workqAdd_keeps sound priority created
        exact Option.some_inj.mp under ▸
          leave_destroying (destroying.grown keeps workers ⟨ended, unused⟩) i
      case h_2 item _ =>
        obtain ⟨keeps, workers⟩ := workqRemove_keeps sound item created
        exact Option.some_inj.mp under ▸
          leave_destroying (destroying.grown keeps workers ⟨ended, unused⟩) i
      case h_3 => cases under
  | destroyCritical i =>
      unfold underMutex at under
      dsimp only at under
      split at under
      case isTrue => exact Option.some_inj.mp under ▸ workqDestroy_destroying sound destroying unused i
      case isFalse => cases under
  | destroyWake i signal =>
      unfold underMutex at under
      dsimp only at under
      split at under
      case h_1 woken here =>
        split at under
        case isTrue => cases under
        case isFalse =>
          exact Option.some_inj.mp under ▸
            destroyWake_destroying sound destroying unused (List.mem_of_getElem? here) signal
      case h_2 => cases under
  | destroyEnd i =>
      change s.calls = [.destroyEnd] at allowed
      obtain ⟨none, invalid⟩ := destroying.ends (.inl (allowed ▸ List.mem_singleton_self _))
      unfold underMutex at under
      dsimp only at under
      split at under
      case isTrue here =>
        have only : (leave s i).calls = [] := by
          rw [allowed] at here
          cases i with
          | zero =>
              change s.calls.eraseIdx 0 = []
              rw [allowed]
              rfl
          | succ i => cases here
        have left := leave_destroying destroying i
        exact Option.some_inj.mp under ▸
          { quit := left.quit, waits := left.waits, ends := fun _ => ⟨none, invalid⟩,
            destroyed := fun _ => only }
      case isFalse => cases under
  | start i =>
      unfold underMutex at under
      dsimp only at under
      split at under
      case isTrue here =>
        exact Option.some_inj.mp under ▸ workqServer_destroying sound destroying (worker_inside here)
      case isFalse => cases under
  | wake i wake =>
      unfold underMutex at under
      dsimp only at under
      split at under
      case isTrue here =>
        obtain rfl := Option.some_inj.mp under
        cases wake with
        | timedOut => exact serve_destroying sound destroying (worker_inside here) true
        | error =>
            have numWorkers := sound.numWorkers
            refine exitWorker_destroying destroying (worker_inside here) fun waiting => ?_
            rcases allowed with ⟨-, asleep⟩ | more
            · exact absurd waiting asleep
            · omega
        | again => exact workqServer_destroying sound destroying (worker_inside here)
      case isFalse => cases under
  | back i =>
      unfold underMutex at under
      dsimp only at under
      split at under
      case h_1 item timedout here =>
        exact Option.some_inj.mp under ▸ workqBack_destroying sound destroying (worker_inside here)
          timedout
      case h_2 => cases under

theorem Reached.sound {threads : ℤ} (nonneg : 0 ≤ threads) (reached : Reached threads s) :
    Sound s ∧ Destroying s := by
  obtain ⟨actions, run⟩ := reached
  have preserved (s : State) (action : Action) (s' : State) (inv : Sound s ∧ Destroying s)
      (taken : Transition.Guarded (fun s a s' => step s a = some s') Allowed s action s') :
      Sound s' ∧ Destroying s' :=
    ⟨step_sound inv.1 taken.1 taken.2, step_destroying inv.1 inv.2 taken.1 taken.2⟩
  exact run.invariant preserved ⟨workqInit_sound nonneg, workqInit_destroying threads⟩

end Bacula.Workq
