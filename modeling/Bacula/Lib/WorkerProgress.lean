import Bacula.Lib.WorkerLaw

/-! Every item in the fifo of `lib/worker.c` reaches the thread, unless the thread quits or has
ended. -/
namespace Bacula.Worker

variable {α : Type} {s s' t : State α} {xs : List α} {size : ℕ} {a : Action α} {acts : List (Action α)}


/-- How far the thread is from taking an item. -/
def Thread.rank : Thread α → ℕ
  | .ended => 0
  | .dequeue => 1
  | .readQuit => 2
  | .readDone => 3
  | .test => 4
  | .loop => 5
  | .wait => 6
  | .freeBuffer _ => 6

theorem Thread.rank_le (thread : Thread α) : thread.rank ≤ 6 := by
  cases thread <;> simp [Thread.rank]

/-- The worker is not asked to quit, and the producer is not about to empty the fifo. -/
structure Busy (s : State α) : Prop where
  unquit : s.mState ≠ .quit
  working : ¬ s.producer.Finishing

theorem dequeue_cons {x : α} (sound : Sound size s (x :: xs)) (running : s.threadWaits = none) :
    s.dequeue.removed = s.removed ++ [(x, .dequeued)] ∧ s.dequeue.thread = .freeBuffer x ∧
      s.dequeue.mState = s.mState ∧ s.dequeue.producer = s.producer ∧ s.dequeue.done = s.done := by
  have holds := sound.holds
  have some : ¬ (s.fifo.empty ∧ !s.done ∧ ¬ s.isQuitState) := by
    rw [holds.empty_eq]
    simp
  obtain ⟨item, -, -⟩ := holds.dequeue
  simp only [State.dequeue, signalIf_of_working, running, if_neg some, item]
  refine ⟨?_, ?_, ?_, ?_, ?_⟩ <;> trivial

/-- The thread takes the first item or comes closer to it. -/
theorem work_nearer {x : α} (sound : Sound size s (x :: xs)) (running : s.threadWaits = none)
    (busy : Busy s) (alive : s.thread ≠ .ended) : Busy (work s) ∧ (work s).thread ≠ .ended ∧
      (Sound size (work s) xs ∧ (work s).removed = s.removed ++ [(x, .dequeued)] ∧
        (work s).thread.rank ≤ s.thread.rank + 5 ∨
      Sound size (work s) (x :: xs) ∧ (work s).removed = s.removed ∧
        (work s).thread.rank < s.thread.rank) := by
  obtain ⟨unquit, working⟩ := busy
  obtain ⟨released, undone⟩ := sound.pending (List.cons_ne_nil x xs) working
  by_cases at_ : s.thread = .dequeue
  · have taken : work s = s.dequeue := by rw [work, at_]
    have sound' := sound.dequeue running at_
    obtain ⟨removed, thread, mState, producer, -⟩ := dequeue_cons sound running
    rw [taken]
    refine ⟨⟨?_, ?_⟩, ?_, .inl ⟨sound', removed, ?_⟩⟩
    · rwa [mState]
    · rwa [producer]
    · rw [thread]
      simp
    · rw [thread, at_, Thread.rank, Thread.rank]
  · have sound' := sound.work_elsewhere running at_
    suffices near : Busy (work s) ∧ (work s).thread ≠ .ended ∧ (work s).removed = s.removed ∧
        (work s).thread.rank < s.thread.rank from ⟨near.1, near.2.1, .inr ⟨sound', near.2.2⟩⟩
    unfold work
    cases place : s.thread with
    | ended => exact absurd place alive
    | dequeue => exact absurd place at_
    | wait =>
        have free : ¬ (s.isWaitState ∧ ¬ s.isQuitState) := fun waiting => released waiting.1
        simp only [State.wait, if_neg free]
        exact ⟨⟨unquit, working⟩, by simp, trivial, Nat.lt_succ_self 5⟩
    | loop =>
        simp only [if_neg (show ¬ s.isQuitState from unquit)]
        exact ⟨⟨unquit, working⟩, by simp, trivial, Nat.lt_succ_self 4⟩
    | test =>
        simp only [if_neg (show ¬ s.isWaitState from released)]
        exact ⟨⟨unquit, working⟩, by simp, trivial, Nat.lt_succ_self 3⟩
    | readDone =>
        simp only [undone, Bool.false_eq_true, if_false]
        exact ⟨⟨unquit, working⟩, by simp, trivial, Nat.lt_succ_self 2⟩
    | readQuit =>
        simp only [if_neg (show ¬ s.isQuitState from unquit)]
        exact ⟨⟨unquit, working⟩, by simp, trivial, Nat.lt_succ_self 1⟩
    | freeBuffer item => exact ⟨⟨unquit, working⟩, by simp, rfl, Nat.lt_succ_self 5⟩

/-- While items are left, the thread does not wait. -/
theorem runs_of_pending (sound : Sound size s xs) (pending : xs ≠ []) (busy : Busy s) :
    s.threadWaits = none := by
  obtain ⟨released, -⟩ := sound.pending pending busy.working
  have full := sound.threadFull
  have empty := sound.threadEmpty
  have wait := sound.threadWait
  cases waits : s.threadWaits with
  | none => rfl
  | some c => cases c <;> grind

/-- A step of the producer that takes nothing out of the fifo. -/
structure Adds (s s' : State α) : Prop where
  busy : Busy s'
  removed : s'.removed = s.removed
  thread : s'.thread = s.thread
  queued : ∃ more, s'.queued = s.queued ++ more

theorem Adds.same (busy : Busy s') (removed : s'.removed = s.removed) (thread : s'.thread = s.thread)
    (queued : s'.queued = s.queued) : Adds s s' :=
  ⟨busy, removed, thread, [], by rw [queued, List.append_nil]⟩

theorem queueFull_adds (running : s.producerWaits = none) (unquit : s.mState ≠ .quit)
    (item : α) : Adds s (s.queueFull item) := by
  simp only [State.queueFull, signalIf_of_producing, running]
  split
  case isTrue => exact .same ⟨unquit, by grind⟩ rfl rfl rfl
  case isFalse =>
      have busy : WorkerState.run ≠ .quit ∧ ¬ (Producer.idle : Producer α).Finishing := by grind
      cases (s.fifo.queue item).1 with
      | true => exact ⟨⟨busy.1, busy.2⟩, rfl, rfl, [item], rfl⟩
      | false => exact .same ⟨busy.1, busy.2⟩ rfl rfl rfl

theorem produce_adds (sound : Sound size s xs) (running : s.producerWaits = none) (pending : xs ≠ [])
    (busy : Busy s) : Adds s (produce s) := by
  obtain ⟨unquit, working⟩ := busy
  have isEmpty := sound.holds.empty_eq
  unfold produce
  cases at_ : s.producer with
  | queue item =>
      have adds := queueFull_adds (s := { s with done := false }) running unquit item
      dsimp only
      rw [← at_]
      exact ⟨adds.busy, adds.removed, adds.thread, adds.queued⟩
  | queueFull item => exact queueFull_adds running unquit item
  | finishEmpty =>
      have waits : !s.fifo.empty ∧ ¬ s.isQuitState := ⟨by grind, unquit⟩
      simp only [State.finishEmpty, if_pos waits]
      exact .same ⟨unquit, by grind⟩ rfl rfl rfl
  | waitQueueEmpty =>
      dsimp only [State.waitQueueEmpty]
      split <;> exact .same ⟨unquit, by grind⟩ rfl rfl rfl
  | finishRead | finishSignal | finishWait | discardQueue => grind
  | idle | runWrite | runRead | runSignal =>
      simp only [signal_of_producing, running]
      exact .same ⟨by grind, by grind⟩ rfl rfl rfl

theorem enter_adds (busy : Busy s) {call : Call α}
    (unquit : call ≠ .setQuitState) : Adds s (enter s call) := by
  obtain ⟨run, working⟩ := busy
  cases call with
  | setQuitState => exact absurd rfl unquit
  | finishWork => exact .same ⟨run, by grind [enter]⟩ rfl rfl rfl
  | queue item | waitQueueEmpty | setRunState =>
      rw [enter, if_neg (show ¬ s.isQuitState from run)]
      exact .same ⟨run, by grind⟩ rfl rfl rfl

/-- A step that is not the thread's own. -/
theorem step_adds (sound : Sound size s xs) (pending : xs ≠ []) (busy : Busy s)
    (taken : step s a = some s') (others : a ≠ .work) (unquit : a ≠ .call .setQuitState) :
    Adds s s' := by
  cases step_cases taken with
  | work alive running => exact absurd rfl others
  | call call idle => exact enter_adds busy fun quits => unquit (congrArg Action.call quits)
  | produce working running => exact produce_adds sound running pending busy
  | wakeProducer waits => exact .same ⟨busy.unquit, busy.working⟩ rfl rfl rfl
  | wakeThread waits => exact .same ⟨busy.unquit, busy.working⟩ rfl rfl rfl

/-- What the fifo has stays there in front. -/
theorem Adds.sound {ys : List α} (adds : Adds s s') (sound : Sound size s xs)
    (sound' : Sound size s' ys) :
    ∃ more, ys = xs ++ more := by
  obtain ⟨more, queued⟩ := adds.queued
  have history := sound'.history
  rw [queued, adds.removed, sound.history, List.append_assoc, List.append_cancel_left_eq] at history
  exact ⟨more, history.symm⟩

/-! ## Removed items -/

theorem removed_dequeue (running : s.threadWaits = none) : s.removed <+: s.dequeue.removed := by
  simp only [State.dequeue, signalIf_of_working, running]
  split
  case isTrue => exact List.prefix_rfl
  case isFalse => exact List.prefix_append _ _

theorem removed_work (running : s.threadWaits = none) : s.removed <+: (work s).removed := by
  unfold work
  cases s.thread with
  | dequeue => exact removed_dequeue running
  | wait =>
      simp only [State.wait, signal_of_working, running]
      split <;> exact List.prefix_rfl
  | _ => exact List.prefix_rfl

theorem removed_produce (running : s.producerWaits = none) : s.removed <+: (produce s).removed := by
  unfold produce
  cases s.producer with
  | discardQueue => exact List.prefix_append _ _
  | queue item | queueFull item | finishWait =>
      simp only [State.queueFull, State.finishWait, signalIf_of_producing, running]
      split <;> exact List.prefix_rfl
  | waitQueueEmpty | finishEmpty =>
      simp only [State.waitQueueEmpty, State.finishEmpty]
      split <;> exact List.prefix_rfl
  | idle | finishRead | finishSignal | runWrite | runRead | runSignal =>
      simp only [signal_of_producing, running]
      exact List.prefix_rfl

theorem removed_signal (s : State α) (c : Condition) : (s.signal c).removed = s.removed := by
  unfold State.signal
  split
  · rfl
  · split <;> rfl

theorem removed_enter (call : Call α) : s.removed <+: (enter s call).removed := by
  cases call with
  | setQuitState =>
      rw [enter, State.setQuitState, removed_signal, removed_signal]
  | finishWork => exact List.prefix_rfl
  | queue item | waitQueueEmpty | setRunState =>
      rw [enter]
      split <;> exact List.prefix_rfl

theorem removed_step (taken : step s a = some s') : s.removed <+: s'.removed := by
  cases step_cases taken with
  | call call idle => exact removed_enter call
  | produce busy running => exact removed_produce running
  | work alive running => exact removed_work running
  | wakeProducer waits => exact List.prefix_rfl
  | wakeThread waits => exact List.prefix_rfl

theorem removed_steps (steps : Steps s acts t) : s.removed <+: t.removed := by
  have kept : ∀ u a u', s.removed <+: u.removed → step u a = some u' → s.removed <+: u'.removed :=
    fun u a u' before taken => before.trans (removed_step taken)
  exact Transition.Run.invariant kept steps List.prefix_rfl

/-! ## Hand-over -/

def Action.isWork : Action α → Bool
  | .work => true
  | _ => false

/-- The thread is at most `n` of its steps from having taken the items. -/
def Near (size : ℕ) (before : List (α × Fate)) (items : List α) (n : ℕ) (s : State α) : Prop :=
  ∃ taken todo more, items = taken ++ todo ∧ todo ≠ [] ∧ Sound size s (todo ++ more) ∧ Busy s ∧
    s.thread ≠ .ended ∧ s.removed = before ++ taken.map (·, Fate.dequeued) ∧
      6 * todo.length + s.thread.rank ≤ n + 6

/-- The thread has taken the items. -/
def HandedOver (before : List (α × Fate)) (items : List α) (s : State α) : Prop :=
  before ++ items.map (·, Fate.dequeued) <+: s.removed

variable {before : List (α × Fate)} {items : List α} {n : ℕ}

theorem Near.positive (near : Near size before items 0 s) : False := by
  obtain ⟨taken, todo, more, -, some, -, -, alive, -, bound⟩ := near
  have rank : s.thread.rank ≠ 0 := by
    intro zero
    cases place : s.thread with
    | ended => exact alive place
    | _ => rw [place] at zero; exact absurd zero (Nat.succ_ne_zero _)
  have length := List.length_pos_iff.mpr some
  omega

theorem Near.closer (near : Near size before items (n + 1) s) (taken : step s .work = some s') :
    HandedOver before items s' ∨ Near size before items n s' := by
  obtain ⟨-, running, rfl⟩ := step_work.mp taken
  obtain ⟨taken, todo, more, rfl, some, sound, busy, alive, removed, bound⟩ := near
  cases todo with
  | nil => exact absurd rfl some
  | cons x todo =>
      rw [List.cons_append] at sound
      obtain ⟨busy', alive', ⟨sound', removed', rank⟩ | ⟨sound', removed', rank⟩⟩ :=
        work_nearer sound running busy alive
      · have all : (work s).removed = before ++ (taken ++ [x]).map (·, Fate.dequeued) := by
          rw [removed', removed]
          simp
        cases todo with
        | nil =>
            left
            rw [HandedOver, all]
        | cons y todo =>
            refine .inr ⟨taken ++ [x], y :: todo,
              more, by simp, List.cons_ne_nil y todo, sound', busy', alive', all, ?_⟩
            simp only [List.length_cons] at bound ⊢
            omega
      · exact .inr ⟨taken, x :: todo, more, rfl, some, sound', busy', alive',
          removed'.trans removed, by omega⟩

theorem Near.others (near : Near size before items n s) (taken : step s a = some s')
    (others : a ≠ .work) (unquit : a ≠ .call .setQuitState) : Near size before items n s' := by
  obtain ⟨done, todo, more, rfl, some, sound, busy, alive, removed, bound⟩ := near
  have pending : todo ++ more ≠ [] := fun none => some (List.append_eq_nil_iff.mp none).1
  have adds := step_adds sound pending busy taken others unquit
  obtain ⟨ys, sound'⟩ := sound.step taken
  obtain ⟨added, rfl⟩ := adds.sound sound sound'
  rw [List.append_assoc] at sound'
  exact ⟨done, todo, more ++ added, rfl, some, sound', adds.busy, adds.thread ▸ alive,
    adds.removed.trans removed, adds.thread ▸ bound⟩

/-- Nobody asks the worker to quit. -/
def Unquit (acts : List (Action α)) : Prop := ∀ a ∈ acts, a ≠ .call .setQuitState

theorem Near.handedOver (near : Near size before items n s) (steps : Steps s acts t)
    (unquit : Unquit acts) (enough : n ≤ acts.countP Action.isWork) : HandedOver before items t := by
  refine (Transition.Run.guard steps unquit).reaches (fun s near => near.positive) ?_ ?_ ?_ near enough
  · intro n s a s' near own taken
    cases a with
    | work => exact near.closer taken.2
    | _ => cases own
  · intro n s a s' near others taken
    refine near.others taken.2 ?_ taken.1
    rintro rfl
    exact others rfl
  · intro s a s' done taken
    exact done.trans (removed_step taken.2)

/-- `finish_work` is behind its first section only with an empty fifo. -/
structure Emptied (s : State α) : Prop where
  unquit : s.mState ≠ .quit
  empty : s.producer.Finishing → s.removed.map Prod.fst = s.queued

theorem work_frame (running : s.threadWaits = none) : (work s).mState = s.mState ∧
    (work s).producer = s.producer ∧ (work s).queued = s.queued := by
  unfold work
  cases s.thread with
  | dequeue =>
      simp only [State.dequeue, signalIf_of_working, running]
      split <;> exact ⟨rfl, rfl, rfl⟩
  | wait =>
      simp only [State.wait, signal_of_working, running]
      split <;> exact ⟨rfl, rfl, rfl⟩
  | _ => exact ⟨rfl, rfl, rfl⟩

theorem Emptied.produce (emptied : Emptied s) (sound : Sound size s xs)
    (running : s.producerWaits = none) :
    Emptied (produce s) := by
  obtain ⟨unquit, empty⟩ := emptied
  have isEmpty := sound.holds.empty_eq
  have history := sound.history
  unfold Worker.produce
  cases at_ : s.producer with
  | queue item | queueFull item | finishWait =>
      simp only [State.queueFull, State.finishWait, signalIf_of_producing, running]
      split <;> exact ⟨by grind, by grind⟩
  | waitQueueEmpty | finishEmpty =>
      simp only [State.waitQueueEmpty, State.finishEmpty]
      split <;> exact ⟨by grind, by grind [State.isQuitState]⟩
  | discardQueue => exact ⟨unquit, by grind [State.discardQueue]⟩
  | idle | finishRead | finishSignal | runWrite | runRead | runSignal =>
      simp only [signal_of_producing, running]
      exact ⟨by grind, by grind⟩

theorem Emptied.work (emptied : Emptied s) (sound : Sound size s xs) (running : s.threadWaits = none) :
    Emptied (work s) := by
  obtain ⟨mState, producer, queued⟩ := work_frame running
  obtain ⟨ys, sound'⟩ := sound.work running
  refine ⟨mState ▸ emptied.unquit, fun finishing => ?_⟩
  have all := emptied.empty (producer ▸ finishing)
  have history := sound'.history
  have before := (removed_work running).length_le
  have after := congrArg List.length history
  rw [queued, ← all, List.length_append, List.length_map, List.length_map] at after
  obtain rfl : ys = [] := List.length_eq_zero_iff.mp (by omega)
  rw [history, List.append_nil]

theorem Emptied.step (emptied : Emptied s) (sound : Sound size s xs) (taken : step s a = some s')
    (unquit : a ≠ .call .setQuitState) : Emptied s' := by
  cases step_cases taken with
  | call call idle =>
      cases call with
      | setQuitState => exact absurd rfl unquit
      | finishWork => exact ⟨emptied.unquit, by grind [enter]⟩
      | queue item | waitQueueEmpty | setRunState =>
          rw [enter, if_neg (show ¬ s.isQuitState from emptied.unquit)]
          exact ⟨emptied.unquit, by grind⟩
  | produce busy running => exact emptied.produce sound running
  | work alive running => exact emptied.work sound running
  | wakeProducer waits => exact ⟨emptied.unquit, emptied.empty⟩
  | wakeThread waits => exact ⟨emptied.unquit, emptied.empty⟩

theorem Emptied.steps (emptied : Emptied s) (sound : Sound size s xs) (steps : Steps s acts t)
    (unquit : Unquit acts) : Emptied t := by
  refine (sound.run (fun a => a ≠ .call .setQuitState) ?_ emptied steps unquit).1
  intro s a s' xs emptied sound unquit taken
  exact emptied.step sound taken unquit

theorem emptied_init (size : ℕ) (junk : ℕ → Option α) : Emptied (init size junk) :=
  ⟨by simp [init], fun _ => rfl⟩

/-! ## The end of the thread -/

/-- Nobody calls `finish_work`. -/
def Unfinished (acts : List (Action α)) : Prop := ∀ a ∈ acts, a ≠ .call .finishWork

/-- The thread has no reason to end. -/
structure Lasting (s : State α) : Prop where
  unquit : s.mState ≠ .quit
  undone : s.done = false
  working : ¬ s.producer.Finishing ∧ s.producer ≠ .finishEmpty
  alive : s.thread ≠ .ended

theorem Lasting.work (lasting : Lasting s) (sound : Sound size s xs) (running : s.threadWaits = none) :
    Lasting (work s) := by
  obtain ⟨unquit, undone, working, alive⟩ := lasting
  unfold Worker.work
  cases place : s.thread with
  | ended => exact absurd place alive
  | dequeue =>
      cases xs with
      | nil =>
          have waits : s.fifo.empty ∧ !s.done ∧ ¬ s.isQuitState := by
            rw [sound.holds.empty_eq, undone]
            exact ⟨rfl, rfl, unquit⟩
          simp only [State.dequeue, if_pos waits]
          exact ⟨unquit, undone, working, by grind⟩
      | cons x xs =>
          obtain ⟨-, thread, mState, producer, done⟩ := dequeue_cons sound running
          refine ⟨mState ▸ unquit, done.trans undone, producer ▸ working, ?_⟩
          dsimp only
          rw [thread]
          simp
  | wait =>
      simp only [State.wait, signal_of_working, running]
      split <;> exact ⟨unquit, undone, working, by grind⟩
  | loop | test | readDone | readQuit | freeBuffer item =>
      exact ⟨unquit, undone, working, by grind [State.isQuitState]⟩

theorem Lasting.produce (lasting : Lasting s) (running : s.producerWaits = none) :
    Lasting (produce s) := by
  obtain ⟨unquit, undone, working, alive⟩ := lasting
  unfold Worker.produce
  cases at_ : s.producer with
  | queue item | queueFull item =>
      simp only [State.queueFull, signalIf_of_producing, running]
      split <;> exact ⟨by grind, by grind, by grind, alive⟩
  | waitQueueEmpty =>
      simp only [State.waitQueueEmpty]
      split <;> exact ⟨unquit, undone, by grind, alive⟩
  | finishEmpty | finishRead | finishSignal | finishWait | discardQueue => grind
  | idle | runWrite | runRead | runSignal =>
      simp only [signal_of_producing, running]
      exact ⟨by grind, by grind, by grind, alive⟩

theorem Lasting.step (lasting : Lasting s) (sound : Sound size s xs) (taken : step s a = some s')
    (unquit : a ≠ .call .setQuitState) (unfinished : a ≠ .call .finishWork) : Lasting s' := by
  cases step_cases taken with
  | call call idle =>
      cases call with
      | setQuitState => exact absurd rfl unquit
      | finishWork => exact absurd rfl unfinished
      | queue item | waitQueueEmpty | setRunState =>
          rw [enter, if_neg (show ¬ s.isQuitState from lasting.unquit)]
          exact ⟨lasting.unquit, lasting.undone, by grind, lasting.alive⟩
  | produce busy running => exact lasting.produce running
  | work alive running => exact lasting.work sound running
  | wakeProducer waits => exact ⟨lasting.unquit, lasting.undone, lasting.working, lasting.alive⟩
  | wakeThread waits => exact ⟨lasting.unquit, lasting.undone, lasting.working, lasting.alive⟩

theorem Lasting.steps (lasting : Lasting s) (sound : Sound size s xs) (steps : Steps s acts t)
    (unquit : Unquit acts) (unfinished : Unfinished acts) : Lasting t := by
  refine (sound.run (fun a => a ≠ .call .setQuitState ∧ a ≠ .call .finishWork) ?_ lasting steps ?_).1
  · intro s a s' xs lasting sound allowed taken
    exact lasting.step sound taken allowed.1 allowed.2
  · intro a taken
    exact ⟨unquit a taken, unfinished a taken⟩

theorem lasting_init (size : ℕ) (junk : ℕ → Option α) : Lasting (init size junk) :=
  ⟨by simp [init], rfl, ⟨by simp [init, Producer.Finishing], by simp [init]⟩, by simp [init]⟩

/-! ## The hand-over -/

/-- What was queued is removed in this order or is still in the fifo, which does not hold more than
its size, and one of the two does not wait. While the thread has not ended and items are left, it
does not wait, and takes each of them after some of its own steps; it ends only behind
`set_quit_state` or `finish_work`. -/
theorem handed_over {junk : ℕ → Option α} (positive : 0 < size)
    (steps : Steps (init size junk) acts s) :
    s.queued = s.removed.map Prod.fst ++ s.fifo.contents ∧ s.fifo.contents.length ≤ size ∧
      ¬ (s.producerWaits ≠ none ∧ s.threadWaits ≠ none) ∧
      (Unquit acts → Unfinished acts → s.thread ≠ .ended) ∧
      (Unquit acts → s.thread ≠ .ended →
        (s.fifo.contents ≠ [] → ∃ s', step s .work = some s') ∧
        ∀ items rest more t, s.fifo.contents = items ++ rest → Steps s more t → Unquit more →
          6 * items.length ≤ more.countP Action.isWork → HandedOver s.removed items t) := by
  have sound := sound_of_steps steps
  refine ⟨sound.history, sound.max ▸ sound.holds.length_le, sound.not_both positive, ?_, ?_⟩
  · intro unquit unfinished
    exact ((lasting_init size junk).steps (sound_init size junk) steps unquit unfinished).alive
  intro unquit alive
  obtain ⟨run, finished⟩ := (emptied_init size junk).steps (sound_init size junk) steps unquit
  have busy (pending : s.fifo.contents ≠ []) : Busy s := by
    refine ⟨run, fun finishing => pending ?_⟩
    have history := sound.history
    rwa [← finished finishing, List.self_eq_append_right] at history
  refine ⟨?_, ?_⟩
  · intro pending
    exact ⟨work s, step_work.mpr ⟨alive, runs_of_pending sound pending (busy pending), rfl⟩⟩
  · intro items rest more t contents steps' unquit' enough
    by_cases none : items = []
    · subst none
      rw [HandedOver, List.map_nil, List.append_nil]
      exact removed_steps steps'
    · have pending : s.fifo.contents ≠ [] := by
        rw [contents]
        exact fun empty => none (List.append_eq_nil_iff.mp empty).1
      have near : Near size s.removed items (6 * items.length) s :=
        ⟨[], items, rest, rfl, none, contents ▸ sound, busy pending, alive, by simp,
          Nat.add_le_add_left s.thread.rank_le _⟩
      exact near.handedOver steps' unquit' enough

theorem handed_over_seven :
    ∃ s, Steps (init 10 fun _ => none : State ℕ) [.call (.queue 7), .produce] s ∧
    ∀ more t, Steps s more t → Unquit more → 6 ≤ more.countP Action.isWork →
      HandedOver s.removed [7] t := by
  have steps : ∃ s, Steps (init 10 fun _ => none : State ℕ) [.call (.queue 7), .produce] s ∧
      s.thread ≠ .ended ∧ s.fifo.contents = [7] :=
    ⟨_, .cons rfl (.cons rfl (.nil _)), by decide, rfl⟩
  obtain ⟨s, steps, alive, contents⟩ := steps
  have unquit : Unquit ([.call (.queue 7), .produce] : List (Action ℕ)) := by
    unfold Unquit
    decide
  have all := ((handed_over (by decide) steps).2.2.2.2 unquit alive).2
  exact ⟨s, steps, fun more t more_steps unquit enough =>
    all [7] [] more t contents more_steps unquit enough⟩

/-! ## Items that are not handed over -/

/-- When the thread has ended, what is in the fifo stays there. -/
theorem removed_of_ended (sound : Sound size s xs) (pending : xs ≠ []) (busy : Busy s)
    (ended : s.thread = .ended) (steps : Steps s acts t) (unquit : Unquit acts) :
    t.removed = s.removed := by
  have kept : ∀ u a u' ys, (u.fifo.contents ≠ [] ∧ Busy u ∧ u.thread = .ended ∧ u.removed = s.removed) →
      Sound size u ys → a ≠ .call .setQuitState → step u a = some u' →
      u'.fifo.contents ≠ [] ∧ Busy u' ∧ u'.thread = .ended ∧ u'.removed = s.removed := by
    rintro u a u' ys ⟨pending, busy, ended, removed⟩ sound unquit taken
    rw [sound.holds.contents] at pending
    have others : a ≠ .work := by
      rintro rfl
      exact (step_work.mp taken).1 ended
    have adds := step_adds sound pending busy taken others unquit
    obtain ⟨zs, sound'⟩ := sound.step taken
    obtain ⟨more, rfl⟩ := adds.sound sound sound'
    refine ⟨?_, adds.busy, adds.thread.trans ended, adds.removed.trans removed⟩
    rw [sound'.holds.contents]
    exact fun none => pending (List.append_eq_nil_iff.mp none).1
  have start : s.fifo.contents ≠ [] := by rwa [sound.holds.contents]
  exact (sound.run _ kept ⟨start, busy, ended, rfl⟩ steps unquit).1.2.2.2

/-- `finish_work` while the thread is in `wait`, `set_run_state`, and then an item. -/
def stranding : List (Action ℕ) :=
  [.work, .work, .work, .call .finishWork, .produce, .produce, .produce, .produce,
    .call .setRunState, .produce, .produce, .produce, .work, .work, .work, .work,
    .call (.queue 7), .produce]

theorem stranding_steps : ∃ s, Steps (init 10 fun _ => none) stranding s ∧ s.queued = [7] ∧
    s.removed = [] ∧ s.thread = .ended ∧ s.producer = .idle ∧ s.mState = .run := by
  refine ⟨?last, ?steps, ?queued, ?removed, ?ended, ?idle, ?run⟩
  case steps =>
    refine .cons rfl ?_
    refine .cons rfl ?_
    refine .cons rfl ?_
    refine .cons rfl ?_
    refine .cons rfl ?_
    refine .cons rfl ?_
    refine .cons rfl ?_
    refine .cons rfl ?_
    refine .cons rfl ?_
    refine .cons rfl ?_
    refine .cons rfl ?_
    refine .cons rfl ?_
    refine .cons rfl ?_
    refine .cons rfl ?_
    refine .cons rfl ?_
    refine .cons rfl ?_
    refine .cons rfl ?_
    refine .cons rfl ?_
    exact .nil _
  case queued => rfl
  case removed => rfl
  case ended => rfl
  case idle => rfl
  case run => rfl

/-- A fifo without room stops both, and an item that is queued when the thread has got NULL behind
`finish_work` stays in the fifo. -/
theorem not_handed_over :
    (∃ acts s, Steps (init 0 fun _ => none : State ℕ) acts s ∧
      s.producerWaits ≠ none ∧ s.threadWaits ≠ none) ∧
    ∃ acts s, Steps (init 10 fun _ => none : State ℕ) acts s ∧ Unquit acts ∧ s.queued = [7] ∧
      ∀ more t, Steps s more t → Unquit more → t.removed = [] := by
  refine ⟨⟨[.work, .work, .work, .call (.queue 7), .produce], ?last, ?steps, ?produces, ?works⟩,
    ?stranded⟩
  case steps =>
    refine .cons rfl ?_
    refine .cons rfl ?_
    refine .cons rfl ?_
    refine .cons rfl ?_
    refine .cons rfl ?_
    exact .nil _
  case produces => decide
  case works => decide
  obtain ⟨s, steps, queued, removed, ended, idle, run⟩ := stranding_steps
  refine ⟨stranding, s,
    steps, by unfold Unquit stranding; decide, queued, fun more t more_steps unquit => ?_⟩
  have sound := sound_of_steps steps
  have pending : s.fifo.contents ≠ [] := by
    intro none
    have history := sound.history
    rw [queued, removed, none] at history
    cases history
  have busy : Busy s := by
    refine ⟨?_, ?_⟩
    · rw [run]
      simp
    · rw [idle]
      grind
  exact (removed_of_ended sound pending busy ended more_steps unquit).trans removed

end Bacula.Worker
