import Bacula.Lib.Workq

/-! What holds of the work queue in every state that allowed calls and the workers can reach: the
links describe the pending items, every item is pending or was given to the engine once, and the
workers that are counted run what is pending. -/
namespace Bacula.Workq
open Chain

variable {s : State}

/-- The links and the histories fit together. -/
structure Queue (s : State) : Prop where
  chained : Chained s.next s.wq.first s.pending
  last : s.wq.last = s.pending.getLast?
  items : (s.pending ++ s.started).Perm (List.range s.allocated)

structure Sound (s : State) : Prop extends Queue s where
  unlocked : s.locked = false
  numWorkers : s.wq.numWorkers = s.workers.length
  maxWorkers : s.wq.numWorkers ≤ s.wq.maxWorkers
  idleWorkers : s.wq.idleWorkers = 0
  /-- Pending items have a worker. -/
  served : s.pending ≠ [] → s.workers ≠ []

theorem workqInit_sound {threads : ℤ} (nonneg : 0 ≤ threads) : Sound (workqInit threads) where
  chained := rfl
  last := rfl
  items := .nil
  unlocked := rfl
  numWorkers := rfl
  maxWorkers := nonneg
  idleWorkers := rfl
  served some := absurd rfl some

theorem Queue.nodup (queue : Queue s) : s.pending.Nodup :=
  (List.nodup_append.mp (queue.items.nodup_iff.mpr List.nodup_range)).1

theorem Queue.old (queue : Queue s) {item : ℕ} (inside : item ∈ s.pending) : item < s.allocated :=
  List.mem_range.mp (queue.items.mem_iff.mp (List.mem_append_left _ inside))

theorem Queue.first (queue : Queue s) : s.wq.first = none ↔ s.pending = [] := by
  rw [queue.chained.head, List.head?_eq_none_iff]

/-! ## The list operations -/

theorem enqueue_queue (queue : Queue s) (priority : Bool) : Queue (enqueue s priority) := by
  have outside : s.allocated ∉ s.pending := fun inside => lt_irrefl _ (queue.old inside)
  have chained := queue.chained.update outside none
  have front : (s.allocated :: s.pending ++ s.started).Perm (List.range (s.allocated + 1)) := by
    rw [List.range_succ]
    exact (queue.items.cons _).trans (List.perm_append_singleton _ _).symm
  rw [enqueue]
  dsimp only
  cases priority with
  | true =>
      rw [if_pos rfl]
      by_cases empty : s.wq.first = none
      · rw [if_pos empty]
        have none := queue.first.mp empty
        refine ⟨⟨rfl, ?_⟩, ?_, front⟩
        · dsimp only
          rw [none, Function.update_self]
          rfl
        · dsimp only
          rw [none]
          rfl
      · rw [if_neg empty]
        have some := mt queue.first.mpr empty
        refine ⟨chained.push outside, ?_, front⟩
        dsimp only
        rw [queue.last, List.getLast?_cons_of_ne_nil some]
  | false =>
      rw [if_neg Bool.false_ne_true]
      have back : (s.pending ++ [s.allocated] ++ s.started).Perm (List.range (s.allocated + 1)) := by
        refine List.Perm.trans ?_ front
        rw [List.append_assoc]
        exact List.perm_middle
      cases first : s.wq.first with
      | none =>
          have none := queue.first.mp first
          refine ⟨?_, ?_, back⟩
          · dsimp only
            rw [none]
            exact ⟨rfl, Function.update_self ..⟩
          · dsimp only
            rw [none]
            rfl
      | some f =>
          have nonempty : s.pending ≠ [] :=
            fun none => by rw [queue.first.mpr none] at first; cases first
          cases last : s.wq.last with
          | none => exact absurd (List.getLast?_eq_none_iff.mp (queue.last.symm.trans last)) nonempty
          | some l =>
              refine ⟨?_, ?_, back⟩
              · dsimp only
                exact first ▸ chained.snoc queue.nodup outside (queue.last.symm.trans last)
                  (Function.update_self ..)
              · dsimp only
                rw [List.getLast?_append]
                rfl

/-- The item is found behind the items before it. -/
theorem search_pending (queue : Queue s) {before after : List ℕ} {item : ℕ}
    (split : s.pending = before ++ item :: after) :
    search s.next item (s.allocated + 1) s.wq.first s.wq.first =
      some (before.getLast?.or s.wq.first) := by
  have nodup := split ▸ queue.nodup
  have outside : item ∉ before := fun inside =>
    (List.nodup_append.mp nodup).2.2 item inside item List.mem_cons_self rfl
  refine search_some (split ▸ queue.chained) outside ?_
  have length := queue.items.length_eq
  rw [split, List.length_range, List.length_append, List.length_append, List.length_cons] at length
  omega

theorem moveFirst_queue (queue : Queue s) {before after : List ℕ} {item : ℕ}
    (split : s.pending = before ++ item :: after) :
    Queue (moveFirst s item (before.getLast?.or s.wq.first)) := by
  have nodup := split ▸ queue.nodup
  have outside : item ∉ before := fun inside =>
    (List.nodup_append.mp nodup).2.2 item inside item List.mem_cons_self rfl
  have erased : s.pending.erase item = before ++ after := by
    rw [split, List.erase_append_right _ outside, List.erase_cons_head]
  have items : (item :: s.pending.erase item ++ s.started).Perm (List.range s.allocated) := by
    refine List.Perm.trans (List.Perm.append_right _ ?_) queue.items
    exact (List.perm_cons_erase (split ▸ by simp)).symm
  unfold moveFirst
  dsimp only
  cases List.eq_nil_or_concat before with
  | inl none =>
      subst none
      have first : s.wq.first = some item := by
        rw [queue.chained.head, split]
        rfl
      rw [if_neg (not_not.mpr first)]
      have same : item :: s.pending.erase item = s.pending := by
        rw [erased, split]
        rfl
      refine ⟨?_, ?_, items⟩
      · dsimp only
        rw [same]
        exact queue.chained
      · dsimp only
        rw [same]
        exact queue.last
  | inr more =>
      obtain ⟨front, prev, rfl⟩ := more
      rw [List.concat_eq_append] at *
      have other : s.wq.first ≠ some item := by
        rw [queue.chained.head, split]
        intro first
        cases front with
        | nil => exact outside (by simpa using (Option.some_inj.mp first).symm)
        | cons f front => exact outside (by simp [← Option.some_inj.mp first])
      have isPrev : (front ++ [prev]).getLast?.or s.wq.first = some prev := by
        rw [List.getLast?_append]
        rfl
      rw [if_pos other, isPrev]
      have whole : s.pending = front ++ prev :: item :: after := by
        rw [split, List.append_assoc]
        rfl
      have unlinked := (whole ▸ queue.chained).unlink (whole ▸ queue.nodup)
      have rest : front ++ prev :: after = s.pending.erase item := by
        rw [erased, List.append_assoc]
        rfl
      rw [rest] at unlinked
      have gone : item ∉ s.pending.erase item := queue.nodup.not_mem_erase
      have someLeft : s.pending.erase item ≠ [] := rest ▸ by simp
      cases List.eq_nil_or_concat after with
      | inl none =>
          subst none
          have isLast : s.wq.last = some item := by
            rw [queue.last, whole]
            simp
          rw [if_pos isLast]
          refine ⟨unlinked.push gone, ?_, items⟩
          dsimp only
          rw [List.getLast?_cons_of_ne_nil someLeft, ← rest]
          simp
      | inr more =>
          obtain ⟨after, l, rfl⟩ := more
          rw [List.concat_eq_append] at *
          have lastIs : s.wq.last = some l := by
            rw [queue.last, whole,
              show front ++ prev :: item :: (after ++ [l]) =
                front ++ prev :: item :: after ++ [l] by simp,
              List.getLast?_concat]
          have differ : l ≠ item := by
            rintro rfl
            have := (List.nodup_append.mp nodup).2.1
            simp at this
          rw [if_neg (by rw [lastIs]; simpa using differ)]
          refine ⟨unlinked.push gone, ?_, items⟩
          dsimp only
          rw [List.getLast?_cons_of_ne_nil someLeft, ← rest, lastIs,
            show front ++ prev :: (after ++ [l]) = (front ++ prev :: after) ++ [l] by simp,
            List.getLast?_concat]

/-! ## The calls -/

/-- The workers are counted, and there is one for what is pending. -/
theorem Sound.of_queue {s' : State} (sound : Sound s) (queue : Queue s') (locked : s'.locked = s.locked)
    (wq : s'.wq.numWorkers = s.wq.numWorkers ∧ s'.wq.maxWorkers = s.wq.maxWorkers ∧
      s'.wq.idleWorkers = s.wq.idleWorkers)
    (workers : s'.workers.length = s.workers.length) (served : s'.pending ≠ [] → s.workers ≠ []) :
    Sound s' where
  toQueue := queue
  unlocked := locked.trans sound.unlocked
  numWorkers := by rw [wq.1, workers, sound.numWorkers]
  maxWorkers := by
    rw [wq.1, wq.2.1]
    exact sound.maxWorkers
  idleWorkers := wq.2.2.trans sound.idleWorkers
  served some := by
    have := List.length_pos_iff.mpr (served some)
    exact List.length_pos_iff.mp (workers ▸ this)

theorem createWorker_sound (queue : Queue s) (unlocked : s.locked = false)
    (numWorkers : s.wq.numWorkers = s.workers.length) (room : s.wq.numWorkers < s.wq.maxWorkers)
    (idle : s.wq.idleWorkers = 0) {created : Bool} (served : s.workers ≠ [] ∨ created = true) :
    Sound (createWorker s created) := by
  rw [createWorker]
  split
  · refine ⟨⟨queue.chained, queue.last, queue.items⟩, unlocked, ?_, room, idle, fun _ => by simp⟩
    dsimp only
    rw [numWorkers, List.length_append]
    push_cast
    rfl
  case isFalse failed =>
    exact ⟨queue, unlocked, numWorkers, room.le, idle, fun _ => served.resolve_right failed⟩

theorem enqueue_same (s : State) (priority : Bool) :
    (enqueue s priority).locked = s.locked ∧ (enqueue s priority).workers = s.workers ∧
      (enqueue s priority).wq.numWorkers = s.wq.numWorkers ∧
      (enqueue s priority).wq.maxWorkers = s.wq.maxWorkers ∧
      (enqueue s priority).wq.idleWorkers = s.wq.idleWorkers := by
  rw [enqueue]
  dsimp only
  split
  · split <;> exact ⟨rfl, rfl, rfl, rfl, rfl⟩
  · split <;> exact ⟨rfl, rfl, rfl, rfl, rfl⟩

theorem workqAdd_sound (sound : Sound s) (priority : Bool) {created : Bool}
    (allowed : 0 < s.wq.numWorkers ∨ 0 < s.wq.maxWorkers ∧ created = true) :
    Sound (workqAdd s priority created) := by
  have queue := enqueue_queue sound.toQueue priority
  obtain ⟨locked, workers, num, max, idle⟩ := enqueue_same s priority
  rw [workqAdd]
  have numWorkers := sound.numWorkers
  rw [if_neg (by rw [idle, sound.idleWorkers]; exact lt_irrefl 0), num, max]
  have living : s.wq.numWorkers > 0 → s.workers ≠ [] := fun some none => by
    rw [numWorkers, none] at some
    exact absurd some (by simp)
  by_cases room : s.wq.numWorkers < s.wq.maxWorkers
  · rw [if_pos room]
    refine createWorker_sound queue (locked.trans sound.unlocked) (by rw [num, workers, numWorkers])
      (by rw [num, max]; exact room) (idle.trans sound.idleWorkers) ?_
    rw [workers]
    exact allowed.imp living And.right
  · rw [if_neg room]
    have some : s.workers ≠ [] := allowed.elim living fun more => by
      refine living ?_
      omega
    exact sound.of_queue queue locked ⟨num, max, idle⟩ (by rw [workers]) fun _ => some

theorem moveFirst_same (s : State) (item : ℕ) (prev : Option ℕ) :
    (moveFirst s item prev).locked = s.locked ∧ (moveFirst s item prev).workers = s.workers ∧
      (moveFirst s item prev).wq.numWorkers = s.wq.numWorkers ∧
      (moveFirst s item prev).wq.maxWorkers = s.wq.maxWorkers ∧
      (moveFirst s item prev).wq.idleWorkers = s.wq.idleWorkers := by
  unfold moveFirst
  dsimp only
  split
  · cases prev <;> dsimp only <;> split <;> exact ⟨rfl, rfl, rfl, rfl, rfl⟩
  · exact ⟨rfl, rfl, rfl, rfl, rfl⟩

theorem workqRemove_sound (sound : Sound s) {item : ℕ} (created : Bool) (inside : item ∈ s.pending)
    (room : s.wq.numWorkers < s.wq.maxWorkers) : Sound (workqRemove s item created) := by
  obtain ⟨before, after, split⟩ := List.append_of_mem inside
  rw [workqRemove, search_pending sound.toQueue split]
  have queue := moveFirst_queue sound.toQueue split
  obtain ⟨locked, workers, num, max, idle⟩ := moveFirst_same s item (before.getLast?.or s.wq.first)
  dsimp only
  rw [if_neg (by rw [idle, sound.idleWorkers]; exact lt_irrefl 0)]
  refine createWorker_sound queue (locked.trans sound.unlocked) (by rw [num, workers, sound.numWorkers])
    (by rw [num, max]; exact room) (idle.trans sound.idleWorkers) (.inl ?_)
  rw [workers]
  exact sound.served (List.ne_nil_of_mem inside)

/-- The calls in flight have no part in it. -/
theorem Sound.of_calls (sound : Sound s) (calls : List Call) (destroyed : Bool) :
    Sound { s with calls, destroyed } :=
  ⟨⟨sound.chained, sound.last, sound.items⟩, sound.unlocked, sound.numWorkers, sound.maxWorkers,
    sound.idleWorkers, sound.served⟩

theorem workqDestroy_sound (sound : Sound s) (i : ℕ) : Sound (workqDestroy s i) := by
  have invalid (quit : Bool) (calls : List Call) :
      Sound { s with calls, wq := { s.wq with valid := false, quit } } :=
    ⟨⟨sound.chained, sound.last, sound.items⟩, sound.unlocked, sound.numWorkers, sound.maxWorkers,
      sound.idleWorkers, sound.served⟩
  unfold workqDestroy
  dsimp only
  rw [if_neg (not_not.mpr sound.idleWorkers)]
  split
  · exact invalid true _
  · exact invalid s.wq.quit _

/-! ## The workers -/

theorem exitWorker_sound (sound : Sound s) {i : ℕ} (inside : i < s.workers.length)
    (enough : s.pending = [] ∨ 1 < s.wq.numWorkers) : Sound (exitWorker s i) := by
  have numWorkers := sound.numWorkers
  have maxWorkers := sound.maxWorkers
  refine ⟨⟨sound.chained, sound.last, sound.items⟩, sound.unlocked, ?_, ?_, sound.idleWorkers,
    fun some => ?_⟩
  · change s.wq.numWorkers - 1 = ((s.workers.eraseIdx i).length : ℤ)
    rw [List.length_eraseIdx_of_lt inside]
    omega
  · change s.wq.numWorkers - 1 ≤ s.wq.maxWorkers
    omega
  · have more := enough.resolve_left some
    refine List.length_pos_iff.mp ?_
    change 0 < (s.workers.eraseIdx i).length
    rw [List.length_eraseIdx_of_lt inside]
    omega

theorem broadcast_sound (sound : Sound s) : Sound (broadcast s) := sound.of_calls _ s.destroyed

theorem quitWorker_sound (sound : Sound s) {i : ℕ} (inside : i < s.workers.length)
    (done : s.pending = []) :
    Sound (quitWorker s i) := by
  have exited := exitWorker_sound sound inside (.inl done)
  unfold quitWorker
  dsimp only
  split
  · exact broadcast_sound exited
  · exact exited

theorem leaveWorker_sound (sound : Sound s) {i : ℕ} (inside : i < s.workers.length)
    (done : s.pending = []) :
    Sound (leaveWorker s i) := by
  unfold leaveWorker
  split
  · exact quitWorker_sound sound inside done
  · exact exitWorker_sound sound inside (.inl done)

theorem setPhase_sound (sound : Sound s) {i : ℕ} (inside : i < s.workers.length) (phase : Phase) :
    Sound (setPhase s i phase) := by
  refine sound.of_queue ⟨sound.chained, sound.last, sound.items⟩ rfl ⟨rfl, rfl, rfl⟩ ?_ ?_
  · exact List.length_set ..
  · exact fun _ => List.length_pos_iff.mp (Nat.zero_lt_of_lt inside)

theorem serve_sound (sound : Sound s) {i : ℕ} (inside : i < s.workers.length) (timedout : Bool) :
    Sound (serve s i timedout) := by
  rw [serve]
  cases first : s.wq.first with
  | none => exact leaveWorker_sound sound inside (sound.first.mp first)
  | some we =>
      have chained := sound.chained
      have last := sound.last
      have items := sound.items
      have nodup := sound.nodup
      cases pending : s.pending with
      | nil => rw [sound.first.mpr pending] at first; cases first
      | cons x rest =>
          rw [pending] at chained last items nodup
          obtain ⟨here, tail⟩ := chained
          obtain rfl := Option.some_inj.mp (first.symm.trans here)
          rw [List.nodup_cons] at nodup
          have moved : (rest ++ (s.started ++ [we])).Perm (List.range s.allocated) := by
            rw [← List.append_assoc]
            exact (List.perm_append_singleton _ _).trans items
          dsimp only
          by_cases single : s.wq.last = some we
          · have alone : rest = [] := by
              by_contra more
              rw [last, List.getLast?_cons_of_ne_nil more] at single
              exact nodup.1 (List.mem_of_getLast? single)
            rw [if_pos single]
            refine sound.of_queue ⟨tail, ?_, moved⟩ rfl ⟨rfl, rfl, rfl⟩ (List.length_set ..) fun _ =>
              List.length_pos_iff.mp (Nat.zero_lt_of_lt inside)
            change none = rest.getLast?
            rw [alone]
            rfl
          · have some : rest ≠ [] := by
              rintro rfl
              exact single last
            rw [if_neg single]
            refine sound.of_queue ⟨tail, ?_, moved⟩ rfl ⟨rfl, rfl, rfl⟩ (List.length_set ..) fun _ =>
              List.length_pos_iff.mp (Nat.zero_lt_of_lt inside)
            change s.wq.last = rest.getLast?
            rw [last, List.getLast?_cons_of_ne_nil some]

theorem workqServer_sound (sound : Sound s) {i : ℕ} (inside : i < s.workers.length) :
    Sound (workqServer s i) := by
  rw [workqServer]
  split
  · exact setPhase_sound sound inside .waiting
  · exact serve_sound sound inside false

theorem Sound.back (sound : Sound s) :
    Sound { s with wq := { s.wq with numRunning := s.wq.numRunning - 1 } } :=
  ⟨⟨sound.chained, sound.last, sound.items⟩, sound.unlocked, sound.numWorkers, sound.maxWorkers,
    sound.idleWorkers, sound.served⟩

theorem workqBack_sound (sound : Sound s) {i : ℕ} (inside : i < s.workers.length) (timedout : Bool) :
    Sound (workqBack s i timedout) := by
  rw [workqBack]
  dsimp only
  split
  case isTrue quit => exact quitWorker_sound sound.back inside (sound.first.mp quit.1)
  case isFalse =>
    split
    case isTrue idle => exact exitWorker_sound sound.back inside (.inl (sound.first.mp idle.1))
    case isFalse => exact workqServer_sound sound.back inside

theorem worker_inside {i : ℕ} {phase : Phase} (here : s.workers[i]? = some phase) :
    i < s.workers.length :=
  (List.getElem?_eq_some_iff.mp here).1

theorem enter_sound (sound : Sound s) (call : Call) : Sound (enter s call) := by
  unfold enter
  split
  · exact sound.of_calls _ s.destroyed
  · exact sound

theorem underMutex_sound (sound : Sound s) {action : Action} (allowed : Allowed s action) {s' : State}
    (taken : underMutex s action = some s') : Sound s' := by
  cases action with
  | add priority => cases taken
  | remove item => cases taken
  | destroy => cases taken
  | critical i created =>
      obtain ⟨-, allowed⟩ := allowed
      unfold underMutex at taken
      dsimp only at taken
      split at taken
      case h_1 priority here =>
        rw [here] at allowed
        exact Option.some_inj.mp taken ▸ (workqAdd_sound sound priority allowed).of_calls _ _
      case h_2 item here =>
        rw [here] at allowed
        exact Option.some_inj.mp taken ▸
          (workqRemove_sound sound created allowed.1 allowed.2).of_calls _ _
      case h_3 => cases taken
  | destroyCritical i =>
      unfold underMutex at taken
      dsimp only at taken
      split at taken
      case isTrue => exact Option.some_inj.mp taken ▸ workqDestroy_sound sound i
      case isFalse => cases taken
  | destroyWake i signal =>
      unfold underMutex at taken
      dsimp only at taken
      split at taken
      case h_1 woken here =>
        split at taken
        case isTrue => cases taken
        case isFalse =>
          obtain rfl := Option.some_inj.mp taken
          cases signal <;> exact sound.of_calls _ s.destroyed
      case h_2 => cases taken
  | destroyEnd i =>
      unfold underMutex at taken
      dsimp only at taken
      split at taken
      case isTrue => exact Option.some_inj.mp taken ▸ sound.of_calls _ true
      case isFalse => cases taken
  | start i =>
      unfold underMutex at taken
      dsimp only at taken
      split at taken
      case isTrue here => exact Option.some_inj.mp taken ▸ workqServer_sound sound (worker_inside here)
      case isFalse => cases taken
  | wake i wake =>
      unfold underMutex at taken
      dsimp only at taken
      split at taken
      case isTrue here =>
        obtain rfl := Option.some_inj.mp taken
        cases wake with
        | timedOut => exact serve_sound sound (worker_inside here) true
        | error => exact exitWorker_sound sound (worker_inside here) (allowed.imp And.left id)
        | again => exact workqServer_sound sound (worker_inside here)
      case isFalse => cases taken
  | back i =>
      unfold underMutex at taken
      dsimp only at taken
      split at taken
      case h_1 item timedout here =>
        exact Option.some_inj.mp taken ▸ workqBack_sound sound (worker_inside here) timedout
      case h_2 => cases taken

theorem mutex_free {action : Action} {s' : State}
    (taken : (if s.locked || s.destroyed then none else underMutex s action) = some s') :
    s.locked = false ∧ s.destroyed = false ∧ underMutex s action = some s' := by
  split at taken
  case isTrue => cases taken
  case isFalse free =>
    rw [Bool.or_eq_true, not_or, Bool.not_eq_true, Bool.not_eq_true] at free
    exact ⟨free.1, free.2, taken⟩

/-- A step finds the queue valid, or it is under the mutex. -/
theorem step_cases {action : Action} {s' : State} (taken : step s action = some s') :
    (∃ call, s' = enter s call ∧ ∀ woken, call ≠ .destroyWait woken ∧ call ≠ .destroyEnd) ∨
      s.locked = false ∧ s.destroyed = false ∧ underMutex s action = some s' := by
  cases action with
  | add priority =>
      exact .inl ⟨.add priority, (Option.some_inj.mp taken).symm,
        fun _ => ⟨Call.noConfusion, Call.noConfusion⟩⟩
  | remove item =>
      exact .inl ⟨.remove item, (Option.some_inj.mp taken).symm,
        fun _ => ⟨Call.noConfusion, Call.noConfusion⟩⟩
  | destroy =>
      exact .inl ⟨.destroy, (Option.some_inj.mp taken).symm,
        fun _ => ⟨Call.noConfusion, Call.noConfusion⟩⟩
  | critical i created => exact .inr (mutex_free taken)
  | destroyCritical i => exact .inr (mutex_free taken)
  | destroyWake i signal => exact .inr (mutex_free taken)
  | destroyEnd i => exact .inr (mutex_free taken)
  | start i => exact .inr (mutex_free taken)
  | wake i wake => exact .inr (mutex_free taken)
  | back i => exact .inr (mutex_free taken)

theorem step_sound (sound : Sound s) {action : Action} (allowed : Allowed s action) {s' : State}
    (taken : step s action = some s') : Sound s' := by
  rcases step_cases taken with ⟨call, rfl, -⟩ | ⟨-, -, under⟩
  · exact enter_sound sound call
  · exact underMutex_sound sound allowed under

end Bacula.Workq
