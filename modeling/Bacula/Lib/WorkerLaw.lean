import Bacula.Lib.Worker
import Bacula.Library.Progress

/-! The hand-over of the items in `lib/worker.c`. -/
namespace Bacula.Worker

variable {α : Type} {s : State α} {c d : Condition} {xs : List α} {size : ℕ}

/-! ## Signals -/

/-- What is waited for behind a signal. -/
def woken (flag : Bool) (c : Condition) (waits : Option Condition) : Option Condition :=
  if flag ∧ waits = some c then none else waits

@[simp] theorem woken_eq_some {flag : Bool} {waits : Option Condition} :
    woken flag c waits = some d ↔ waits = some d ∧ (flag → d ≠ c) := by
  unfold woken
  grind

theorem signalIf_of_producing (running : s.producerWaits = none) (flag : Bool) (c : Condition) :
    s.signalIf flag c = { s with threadWaits := woken flag c s.threadWaits } := by
  cases s
  cases running
  unfold State.signalIf State.signal woken
  cases flag with
  | false => rfl
  | true => simp only [reduceCtorEq, if_true, if_false, true_and]; split <;> rfl

theorem signalIf_of_working (running : s.threadWaits = none) (flag : Bool) (c : Condition) :
    s.signalIf flag c = { s with producerWaits := woken flag c s.producerWaits } := by
  cases s
  cases running
  unfold State.signalIf State.signal woken
  cases flag with
  | false => rfl
  | true => simp only [reduceCtorEq, if_true, if_false, true_and]; split <;> rfl

theorem signal_of_producing (running : s.producerWaits = none) (c : Condition) :
    s.signal c = { s with threadWaits := woken true c s.threadWaits } :=
  signalIf_of_producing running true c

theorem signal_of_working (running : s.threadWaits = none) (c : Condition) :
    s.signal c = { s with producerWaits := woken true c s.producerWaits } :=
  signalIf_of_working running true c

/-! ## The invariant -/

/-- The first section of `finish_work` is over. -/
@[grind] def Producer.Finishing (p : Producer α) : Prop :=
  p = .finishRead ∨ p = .finishSignal ∨ p = .finishWait ∨ p = .discardQueue

/-- The fifo has the items that were queued and have not been removed. A thread that waits has a
reason for it, and the reason lasts until a signal wakes the thread. -/
structure Sound (size : ℕ) (s : State α) (xs : List α) : Prop where
  holds : s.fifo.Holds xs
  max : s.fifo.maxItems = size
  history : s.queued = s.removed.map Prod.fst ++ xs
  finishing : s.producer.Finishing → s.done = true
  queueing : ∀ item, s.producer = .queueFull item → s.done = false
  pending : xs ≠ [] → ¬ s.producer.Finishing → s.mState ≠ .wait ∧ s.done = false
  threadFull : s.threadWaits ≠ some .fullWait
  threadEmpty : s.threadWaits = some .emptyWait → s.thread = .dequeue ∧ s.waitingOnEmpty = true ∧
    xs = [] ∧ (s.done = false ∨ s.producer = .finishRead ∨ s.producer = .finishSignal)
  threadWait : s.threadWaits = some .mWait → s.thread = .wait ∧ s.workerWaiting = true ∧
    (s.mState = .wait ∨ xs = [] ∧ (s.producer = .runRead ∨ s.producer = .runSignal))
  producerFull : s.producerWaits = some .fullWait →
    (∃ item, s.producer = .queueFull item) ∧ xs.length = size
  producerEmpty : s.producerWaits = some .emptyWait →
    (s.producer = .waitQueueEmpty ∨ s.producer = .finishEmpty) ∧ xs ≠ []
  producerWait : s.producerWaits = some .mWait → s.producer = .finishWait ∧ s.workerWaiting = false

theorem sound_init (size : ℕ) (junk : ℕ → Option α) : Sound size (init size junk) [] := by
  have holds := Flist.holds_init size junk
  constructor <;> simp [init, Producer.Finishing, Flist.init]
  exact holds

theorem Sound.wait (sound : Sound size s xs) (running : s.threadWaits = none) (at_ : s.thread = .wait) :
    Sound size s.wait xs := by
  simp only [State.wait, signal_of_working, running]
  split
  case isTrue waiting =>
      exact { sound with
        threadFull := by simp
        threadEmpty := by simp
        threadWait := fun _ => ⟨at_, rfl, .inl waiting.1⟩
        producerFull := fun waits => sound.producerFull (woken_eq_some.mp waits).1
        producerEmpty := fun waits => sound.producerEmpty (woken_eq_some.mp waits).1
        -- the signal wakes `finish_work`
        producerWait := fun waits => absurd rfl ((woken_eq_some.mp waits).2 rfl) }
  case isFalse =>
      exact { sound with
        threadFull := by simp
        threadEmpty := by simp
        threadWait := by simp
        producerWait := fun waits => ⟨(sound.producerWait waits).1, rfl⟩ }

/-- What the thread takes out of the fifo. -/
theorem Sound.dequeue (sound : Sound size s xs) (running : s.threadWaits = none)
    (at_ : s.thread = .dequeue) : Sound size s.dequeue xs.tail := by
  have isEmpty := sound.holds.empty_eq
  have isFull := sound.holds.full_eq
  have max := sound.max
  have full := sound.producerFull
  have empty := sound.producerEmpty
  have wait := sound.producerWait
  simp only [State.dequeue, signalIf_of_working, running]
  split
  case isTrue waiting =>
      obtain ⟨empty, undone, -⟩ := waiting
      obtain rfl : xs = [] := by grind
      exact { sound with
        threadFull := by simp
        threadEmpty := fun _ => ⟨at_, rfl, rfl, .inl (by simpa using undone)⟩
        threadWait := by simp }
  case isFalse =>
      cases xs with
      | nil =>
          simp only [sound.holds.dequeue_nil, isEmpty, isFull]
          exact { sound with
            history := by simpa using sound.history
            threadFull := by simp
            threadEmpty := by simp
            threadWait := by simp
            producerFull := by grind [woken_eq_some]
            producerEmpty := by grind [woken_eq_some]
            producerWait := by grind [woken_eq_some] }
      | cons x xs =>
          obtain ⟨item, holds', max'⟩ := sound.holds.dequeue
          have isEmpty' := holds'.empty_eq
          simp only [item, isEmpty', isFull]
          exact { sound with
            holds := holds'
            max := max'.trans sound.max
            history := by simpa using sound.history
            pending := fun _ working => sound.pending (List.cons_ne_nil x xs) working
            threadFull := by simp
            threadEmpty := by simp
            threadWait := by simp
            -- it waits for room only if the fifo was full, and for the end only until it is empty
            producerFull := by grind [woken_eq_some]
            producerEmpty := by grind [woken_eq_some]
            producerWait := by grind [woken_eq_some] }

/-- A thread that does not wait goes on elsewhere. -/
theorem Sound.goOn (sound : Sound size s xs) (running : s.threadWaits = none) (thread : Thread α)
    (fpool : List α) : Sound size { s with thread := thread, fpool := fpool } xs :=
  { sound with
    threadEmpty := fun waits => by cases running.symm.trans waits
    threadWait := fun waits => by cases running.symm.trans waits }

/-- Elsewhere the thread leaves the fifo alone. -/
theorem Sound.work_elsewhere (sound : Sound size s xs) (running : s.threadWaits = none)
    (at_ : s.thread ≠ .dequeue) : Sound size (work s) xs := by
  unfold Worker.work
  cases place : s.thread with
  | wait => exact sound.wait running place
  | dequeue => exact absurd place at_
  | ended => exact sound
  | freeBuffer item => exact sound.goOn running .loop (s.fpool ++ [item])
  | loop | test | readDone | readQuit => exact sound.goOn running _ s.fpool

theorem Sound.work (sound : Sound size s xs) (running : s.threadWaits = none) :
    ∃ ys, Sound size (work s) ys := by
  by_cases at_ : s.thread = .dequeue
  · rw [Worker.work, at_]
    exact ⟨xs.tail, sound.dequeue running at_⟩
  · exact ⟨xs, sound.work_elsewhere running at_⟩

theorem Sound.setQuitState (sound : Sound size s xs) (running : s.producerWaits = none) :
    Sound size s.setQuitState xs := by
  simp only [State.setQuitState, signal_of_producing, running]
  exact { sound with
    pending := fun some working => ⟨by simp, (sound.pending some working).2⟩
    threadFull := fun waits => sound.threadFull (woken_eq_some.mp (woken_eq_some.mp waits).1).1
    threadEmpty := fun waits => absurd rfl ((woken_eq_some.mp waits).2 rfl)
    threadWait := fun waits => absurd rfl ((woken_eq_some.mp (woken_eq_some.mp waits).1).2 rfl)
    producerFull := by simp
    producerEmpty := by simp
    producerWait := by simp }

theorem Sound.running_of_idle (sound : Sound size s xs) (idle : s.producer = .idle) :
    s.producerWaits = none := by
  have full := sound.producerFull
  have empty := sound.producerEmpty
  have wait := sound.producerWait
  cases waits : s.producerWaits with
  | none => rfl
  | some c => cases c <;> grind

/-- A producer that does not wait goes on where nothing is known of the fifo. -/
theorem Sound.goTo (sound : Sound size s xs) (running : s.producerWaits = none) {p : Producer α}
    (behind : ¬ s.producer.Finishing ∧ s.producer ≠ .runRead ∧ s.producer ≠ .runSignal)
    (working : ¬ p.Finishing) (elsewhere : ∀ item, p ≠ .queueFull item) :
    Sound size { s with producer := p } xs := by
  have empty := sound.threadEmpty
  have wait := sound.threadWait
  exact { sound with
    finishing := fun finishing => absurd finishing working
    queueing := fun item at_ => absurd at_ (elsewhere item)
    pending := fun some _ => sound.pending some behind.1
    threadEmpty := by grind
    threadWait := by grind
    producerFull := fun waits => by cases running.symm.trans waits
    producerEmpty := fun waits => by cases running.symm.trans waits
    producerWait := fun waits => by cases running.symm.trans waits }

theorem Sound.enter (sound : Sound size s xs) (idle : s.producer = .idle) (call : Call α) :
    Sound size (enter s call) xs := by
  have running := sound.running_of_idle idle
  have behind : ¬ s.producer.Finishing ∧ s.producer ≠ .runRead ∧ s.producer ≠ .runSignal := by grind
  unfold Worker.enter
  cases call with
  | setQuitState => exact sound.setQuitState running
  | finishWork => exact sound.goTo running behind (by grind) (by simp)
  | queue item | waitQueueEmpty | setRunState =>
      dsimp only
      split
      · exact sound
      · exact sound.goTo running behind (by grind) (by simp)

theorem Sound.queueFull (sound : Sound size s xs) (running : s.producerWaits = none) (item : α)
    (at_ : s.producer = .queue item ∨ s.producer = .queueFull item) (undone : s.done = false) :
    ∃ ys, Sound size (s.queueFull item) ys := by
  have isEmpty := sound.holds.empty_eq
  have isFull := sound.holds.full_eq
  have max := sound.max
  have full := sound.threadFull
  have empty := sound.threadEmpty
  have wait := sound.threadWait
  simp only [State.queueFull, signalIf_of_producing, running]
  split
  case isTrue waiting =>
      refine ⟨xs, ?_⟩
      exact { sound with
        finishing := by grind
        queueing := fun _ _ => undone
        pending := fun some _ => sound.pending some (by grind)
        threadEmpty := by grind
        threadWait := by grind
        producerFull := by grind
        producerEmpty := by simp
        producerWait := by simp }
  case isFalse passes =>
      by_cases room : xs.length < s.fifo.maxItems
      · obtain ⟨done, holds', max'⟩ := sound.holds.queue room item
        simp only [done, isEmpty]
        refine ⟨xs ++ [item], ?_⟩
        exact {
          holds := holds'
          max := max'.trans max
          history := by simp [sound.history]
          finishing := by grind
          queueing := by simp
          pending := fun _ _ => ⟨by simp, undone⟩
          threadFull := by grind [woken_eq_some]
          -- a thread that waits for an item is signaled with the first one
          threadEmpty := by grind [woken_eq_some]
          threadWait := by grind [woken_eq_some]
          producerFull := by simp
          producerEmpty := by simp
          producerWait := by simp }
      · have same :=
          sound.holds.queue_full (x := item) (le_antisymm sound.holds.length_le (not_lt.mp room))
        simp only [same, isEmpty]
        refine ⟨xs, ?_⟩
        exact { sound with
          finishing := by grind
          queueing := by simp
          pending := fun _ _ => ⟨by simp, undone⟩
          threadFull := by grind [woken_eq_some]
          threadEmpty := by grind [woken_eq_some]
          threadWait := by grind [woken_eq_some]
          producerFull := by simp
          producerEmpty := by simp
          producerWait := by simp }

theorem Sound.waitQueueEmpty (sound : Sound size s xs) (running : s.producerWaits = none)
    (at_ : s.producer = .waitQueueEmpty) : Sound size s.waitQueueEmpty xs := by
  have isEmpty := sound.holds.empty_eq
  unfold State.waitQueueEmpty
  split
  case isTrue waiting =>
      rw [← at_]
      exact { sound with
        producerFull := by simp
        producerEmpty := fun _ => ⟨.inl at_, by grind⟩
        producerWait := by simp }
  case isFalse => exact sound.goTo running (by grind) (by grind) (by simp)

theorem Sound.finishEmpty (sound : Sound size s xs) (running : s.producerWaits = none)
    (at_ : s.producer = .finishEmpty) : Sound size s.finishEmpty xs := by
  have isEmpty := sound.holds.empty_eq
  have empty := sound.threadEmpty
  have wait := sound.threadWait
  unfold State.finishEmpty
  split
  case isTrue waiting =>
      rw [← at_]
      exact { sound with
        producerFull := by simp
        producerEmpty := fun _ => ⟨.inr at_, by grind⟩
        producerWait := by simp }
  case isFalse =>
      exact { sound with
        finishing := fun _ => rfl
        queueing := by simp
        pending := fun _ working => absurd (.inl rfl) working
        threadEmpty := by grind
        threadWait := by grind
        producerFull := by simp [running]
        producerEmpty := by simp [running]
        producerWait := by simp [running] }

theorem Sound.finishWait (sound : Sound size s xs) (running : s.producerWaits = none)
    (at_ : s.producer = .finishWait) : Sound size s.finishWait xs := by
  have finished := sound.finishing (by grind)
  have empty := sound.threadEmpty
  have wait := sound.threadWait
  simp only [State.finishWait, signalIf_of_producing, running]
  split
  case isTrue waiting =>
      rw [← at_]
      exact { sound with
        threadFull := fun waits => sound.threadFull (woken_eq_some.mp waits).1
        threadEmpty := fun waits => sound.threadEmpty (woken_eq_some.mp waits).1
        threadWait := fun waits => sound.threadWait (woken_eq_some.mp waits).1
        producerFull := by simp
        producerEmpty := by simp
        producerWait := fun _ => ⟨at_, by simpa using waiting.1⟩ }
  case isFalse =>
      exact { sound with
        finishing := fun _ => finished
        queueing := by simp
        pending := fun _ working => absurd (.inr (.inr (.inr rfl))) working
        threadEmpty := by grind
        threadWait := by grind
        producerFull := by simp
        producerEmpty := by simp
        producerWait := by simp }

theorem map_fst_removed (removed : List (α × Fate)) (xs : List α) (fate : Fate) :
    (removed ++ xs.map (·, fate)).map Prod.fst = removed.map Prod.fst ++ xs := by
  simp [Function.comp_def]

theorem drain_eq {fifo : Flist α} (holds : fifo.Holds xs) :
    (State.drain fifo.numItems fifo).1 = xs ∧ (State.drain fifo.numItems fifo).2.Holds [] ∧
      (State.drain fifo.numItems fifo).2.maxItems = fifo.maxItems := by
  rw [← holds.length]
  induction xs generalizing fifo with
  | nil => exact ⟨rfl, holds, rfl⟩
  | cons x xs ih =>
      obtain ⟨item, rest, max⟩ := holds.dequeue
      obtain ⟨items, none, max'⟩ := ih rest
      rw [List.length_cons, State.drain]
      generalize fifo.dequeue = next at item rest max items none max'
      obtain ⟨first, fifo'⟩ := next
      cases item
      exact ⟨congrArg (x :: ·) items, none, max'.trans max⟩

theorem Sound.discardQueue (sound : Sound size s xs) (running : s.producerWaits = none)
    (at_ : s.producer = .discardQueue) : Sound size s.discardQueue [] := by
  obtain ⟨items, none, max⟩ := drain_eq sound.holds
  have removed := map_fst_removed s.removed xs .discarded
  have empty := sound.threadEmpty
  have wait := sound.threadWait
  simp only [State.discardQueue, items]
  exact { sound with
    holds := none
    max := max.trans sound.max
    history := by rw [removed, sound.history, List.append_nil]
    finishing := by grind
    queueing := by simp
    pending := fun some _ => absurd rfl some
    threadEmpty := by grind
    threadWait := by grind
    producerFull := by simp [running]
    producerEmpty := by simp [running]
    producerWait := by simp [running] }

/-- `set_run_state` releases the thread, and then signals it. -/
theorem Sound.setRunState (sound : Sound size s xs) (running : s.producerWaits = none)
    (at_ : s.producer = .runWrite ∨ s.producer = .runRead ∨ s.producer = .runSignal) :
    Sound size (Worker.produce s) xs := by
  have pending := sound.pending
  have empty := sound.threadEmpty
  have wait := sound.threadWait
  unfold Worker.produce
  rcases at_ with at_ | at_ | at_
  · simp only [at_]
    exact { sound with
      finishing := by grind
      queueing := by simp
      pending := fun some _ => ⟨by simp, (pending some (by grind)).2⟩
      threadEmpty := by grind
      -- the thread waits with an empty fifo, and is signaled in one of the next steps
      threadWait := by grind
      producerFull := by simp [running]
      producerEmpty := by simp [running]
      producerWait := by simp [running] }
  · simp only [at_]
    exact { sound with
      finishing := by grind
      queueing := by grind
      pending := fun some _ => pending some (by grind)
      threadEmpty := by grind
      threadWait := by grind
      producerFull := by simp [running]
      producerEmpty := by simp [running]
      producerWait := by simp [running] }
  · simp only [at_, signal_of_producing, running]
    exact { sound with
      finishing := by grind
      queueing := by simp
      pending := fun some _ => pending some (by grind)
      threadFull := fun waits => sound.threadFull (woken_eq_some.mp waits).1
      threadEmpty := by grind [woken_eq_some]
      threadWait := fun waits => absurd rfl ((woken_eq_some.mp waits).2 rfl)
      producerFull := by simp
      producerEmpty := by simp
      producerWait := by simp }

/-- The pause for state transition in `finish_work`. -/
theorem Sound.finishPause (sound : Sound size s xs) (running : s.producerWaits = none)
    (at_ : s.producer = .finishRead ∨ s.producer = .finishSignal) :
    Sound size (Worker.produce s) xs := by
  have done := sound.finishing (by grind)
  have empty := sound.threadEmpty
  have wait := sound.threadWait
  unfold Worker.produce
  rcases at_ with at_ | at_
  · simp only [at_]
    exact { sound with
      finishing := fun _ => done
      queueing := by grind
      pending := by grind
      threadEmpty := by grind
      threadWait := by grind
      producerFull := by simp [running]
      producerEmpty := by simp [running]
      producerWait := by simp [running] }
  · simp only [at_, signal_of_producing, running]
    exact { sound with
      finishing := fun _ => done
      queueing := by simp
      pending := by grind
      threadFull := fun waits => sound.threadFull (woken_eq_some.mp waits).1
      threadEmpty := fun waits => absurd rfl ((woken_eq_some.mp waits).2 rfl)
      threadWait := by grind [woken_eq_some]
      producerFull := by simp
      producerEmpty := by simp
      producerWait := by simp }

theorem Sound.produce (sound : Sound size s xs) (running : s.producerWaits = none) :
    ∃ ys, Sound size (produce s) ys := by
  cases at_ : s.producer with
  | idle => exact ⟨xs, by rwa [Worker.produce, at_]⟩
  | queue item =>
      have empty := sound.threadEmpty
      have undone : Sound size { s with done := false } xs :=
        { sound with
          finishing := by grind
          queueing := fun _ _ => rfl
          pending := fun some working => ⟨(sound.pending some working).1, rfl⟩
          threadEmpty := by grind }
      rw [Worker.produce, at_]
      dsimp only
      rw [← at_]
      exact undone.queueFull running item (.inl at_) rfl
  | queueFull item =>
      rw [Worker.produce, at_]
      exact sound.queueFull running item (.inr at_) (sound.queueing item at_)
  | waitQueueEmpty => exact ⟨xs, by rw [Worker.produce, at_]; exact sound.waitQueueEmpty running at_⟩
  | finishEmpty => exact ⟨xs, by rw [Worker.produce, at_]; exact sound.finishEmpty running at_⟩
  | finishRead => exact ⟨xs, sound.finishPause running (.inl at_)⟩
  | finishSignal => exact ⟨xs, sound.finishPause running (.inr at_)⟩
  | finishWait => exact ⟨xs, by rw [Worker.produce, at_]; exact sound.finishWait running at_⟩
  | discardQueue => exact ⟨[], by rw [Worker.produce, at_]; exact sound.discardQueue running at_⟩
  | runWrite => exact ⟨xs, sound.setRunState running (.inl at_)⟩
  | runRead => exact ⟨xs, sound.setRunState running (.inr (.inl at_))⟩
  | runSignal => exact ⟨xs, sound.setRunState running (.inr (.inr at_))⟩

/-! ## Steps -/

variable {s' t : State α} {a : Action α} {acts : List (Action α)}

/-- What an action does, and when it is taken. -/
inductive Stepped (s : State α) : Action α → State α → Prop where
  | call (call : Call α) : s.producer = .idle → Stepped s (.call call) (enter s call)
  | produce : s.producer ≠ .idle → s.producerWaits = none → Stepped s .produce (produce s)
  | work : s.thread ≠ .ended → s.threadWaits = none → Stepped s .work (work s)
  | wakeProducer : s.producerWaits ≠ none → Stepped s .wakeProducer { s with producerWaits := none }
  | wakeThread : s.threadWaits ≠ none → Stepped s .wakeThread { s with threadWaits := none }

theorem step_work :
    step s .work = some s' ↔ s.thread ≠ .ended ∧ s.threadWaits = none ∧ s' = work s := by
  unfold Worker.step
  grind

theorem step_cases (taken : step s a = some s') : Stepped s a s' := by
  cases a with
  | call call =>
      have entered : s.producer = .idle ∧ s' = enter s call := by
        unfold Worker.step at taken
        grind
      obtain ⟨idle, rfl⟩ := entered
      exact .call call idle
  | produce =>
      have produced : s.producer ≠ .idle ∧ s.producerWaits = none ∧ s' = produce s := by
        unfold Worker.step at taken
        grind
      obtain ⟨busy, running, rfl⟩ := produced
      exact .produce busy running
  | work =>
      obtain ⟨alive, running, rfl⟩ := step_work.mp taken
      exact .work alive running
  | wakeProducer =>
      obtain ⟨c, waits, rfl⟩ := Option.map_eq_some_iff.mp taken
      exact .wakeProducer (Option.ne_none_iff_exists'.mpr ⟨c, waits⟩)
  | wakeThread =>
      obtain ⟨c, waits, rfl⟩ := Option.map_eq_some_iff.mp taken
      exact .wakeThread (Option.ne_none_iff_exists'.mpr ⟨c, waits⟩)

theorem Sound.wakeProducer (sound : Sound size s xs) :
    Sound size { s with producerWaits := none } xs :=
  { sound with
    producerFull := by simp
    producerEmpty := by simp
    producerWait := by simp }

theorem Sound.wakeThread (sound : Sound size s xs) : Sound size { s with threadWaits := none } xs :=
  { sound with
    threadFull := by simp
    threadEmpty := by simp
    threadWait := by simp }

theorem Sound.step (sound : Sound size s xs) (taken : step s a = some s') : ∃ ys, Sound size s' ys := by
  cases step_cases taken with
  | call call idle => exact ⟨xs, sound.enter idle call⟩
  | produce busy running => exact sound.produce running
  | work alive running => exact sound.work running
  | wakeProducer waits => exact ⟨xs, sound.wakeProducer⟩
  | wakeThread waits => exact ⟨xs, sound.wakeThread⟩

/-- What the allowed actions keep, beside the invariant. -/
theorem Sound.run {inv : State α → Prop} (allowed : Action α → Prop)
    (kept : ∀ s a s' xs, inv s → Sound size s xs → allowed a → Worker.step s a = some s' → inv s')
    (sound : Sound size s xs) (start : inv s) (steps : Steps s acts t) (all : ∀ a ∈ acts, allowed a) :
    inv t ∧ ∃ ys, Sound size t ys := by
  have preserved : ∀ s a s', inv s ∧ (∃ xs, Sound size s xs) →
      Transition.Guarded (fun s a s' => Worker.step (α := α) s a = some s') (fun _ a => allowed a) s
        a s' →
      inv s' ∧ ∃ xs, Sound size s' xs := by
    rintro s a s' ⟨start, xs, sound⟩ ⟨allow, taken⟩
    exact ⟨kept s a s' xs start sound allow taken, sound.step taken⟩
  exact (Transition.Run.guard steps all).invariant preserved ⟨start, xs, sound⟩

theorem sound_of_steps {junk : ℕ → Option α} (steps : Steps (init size junk) acts s) :
    Sound size s s.fifo.contents := by
  obtain ⟨-, xs, sound⟩ := (sound_init size junk).run (fun _ => True)
    (fun _ _ _ _ _ _ _ _ => trivial) trivial steps fun _ _ => trivial
  rwa [sound.holds.contents]

/-- One of the two does not wait. -/
theorem Sound.not_both (sound : Sound size s xs) (positive : 0 < size) :
    ¬ (s.producerWaits ≠ none ∧ s.threadWaits ≠ none) := by
  obtain ⟨holds, max, history, finishing, queueing, pending, tfull, tempty, twait, pfull, pempty,
    pwait⟩ := sound
  rintro ⟨producer, thread⟩
  obtain ⟨c, producer⟩ := Option.ne_none_iff_exists'.mp producer
  obtain ⟨d, thread⟩ := Option.ne_none_iff_exists'.mp thread
  cases c with
  | fullWait =>
      obtain ⟨⟨item, at_⟩, full⟩ := pfull producer
      have some : xs ≠ [] := by
        rintro rfl
        exact positive.ne full
      cases d <;> grind
  | emptyWait =>
      obtain ⟨at_, some⟩ := pempty producer
      cases d <;> grind
  | mWait =>
      obtain ⟨at_, off⟩ := pwait producer
      cases d <;> grind

end Bacula.Worker
