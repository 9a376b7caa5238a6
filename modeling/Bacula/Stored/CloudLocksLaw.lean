import Bacula.Stored.CloudLocks

/-! The threads take their mutexes in the order of the item, the statistics of the manager, the manager,
the statistics of the item and the work queue; only from the manager they go back to an item. -/
namespace Bacula.CloudLocks
open Transition LockOrder

def Mutex.rank : Mutex → ℕ
  | .item _ => 0
  | .mgrStat => 1
  | .mgr => 2
  | .itemStat _ => 3
  | .workq => 3

/-- A mutex that is taken by who has the other. -/
def Below (h m : Mutex) : Prop := h.rank < m.rank ∨ h = .mgr ∧ ∃ i, m = .item i

/-- The mutexes that a thread has before and after the instructions of a branch. -/
def contract : Instr → Option (List Mutex × List Mutex)
  | .getXfer _ _ => some ([.mgr], [])
  | .transition i _ _ | .waitLoop i | .lastRef i => some ([.item i], [])
  | .popWork => some ([.workq], [])
  | .deleteIf _ _ | .engine _ => some ([], [])
  | .averageRates | .eta => some ([.mgr, .mgrStat], [])
  | .etaOf _ => some ([.mgr, .mgrStat], [.mgr, .mgrStat])
  | _ => none

/-- The instructions take mutexes in the order, give them back in the reverse one, and get from the ones
that the thread has to the ones that it has in the end. -/
def Ordered : List Mutex → List Instr → List Mutex → Prop
  | held, [], last => held = last
  | held, .lock m :: rest, last => (∀ h ∈ held, Below h m) ∧ Ordered (m :: held) rest last
  | held, .unlock m :: rest, last => ∃ others, held = m :: others ∧ Ordered others rest last
  | held, instr :: rest, last =>
      match contract instr with
      | none => Ordered held rest last
      | some (before, after) => held = before ∧ Ordered after rest last

theorem Ordered.append {held middle last : List Mutex} {instrs more : List Instr}
    (first : Ordered held instrs middle) (second : Ordered middle more last) :
    Ordered held (instrs ++ more) last := by
  induction instrs generalizing held with
  | nil =>
      obtain rfl : held = middle := first
      exact second
  | cons instr rest ih =>
      cases instr with
      | lock m => exact ⟨first.1, ih first.2⟩
      | unlock m =>
          obtain ⟨others, same, ordered⟩ := first
          exact ⟨others, same, ih ordered⟩
      | incUseCount | append | addWork | removeWork | setState | sleep | decUseCount | remove =>
          exact ih first
      | getXfer | transition | waitLoop | lastRef | popWork | deleteIf | engine | averageRates
      | eta | etaOf =>
          exact ⟨first.1, ih first.2⟩

theorem sect_ordered {held : List Mutex} {m : Mutex} {inside : List Instr}
    (below : ∀ h ∈ held, Below h m) (ordered : Ordered (m :: held) inside (m :: held)) :
    Ordered held (sect m inside) held :=
  ⟨below, ordered.append ⟨held, rfl, rfl⟩⟩

/-- Sections on some transfers, one after the other. -/
theorem flatMap_ordered {held : List Mutex} {α : Type} (list : List α) {f : α → List Instr}
    (each : ∀ a, Ordered held (f a) held) : Ordered held (list.flatMap f) held := by
  induction list with
  | nil => exact rfl
  | cons a list ih =>
      rw [List.flatMap_cons]
      exact (each a).append ih

theorem below_nil {m : Mutex} : ∀ h ∈ ([] : List Mutex), Below h m :=
  fun _ none => absurd none List.not_mem_nil

theorem below_single {h m : Mutex} (below : Below h m) : ∀ h' ∈ [h], Below h' m := by
  rintro h' (_ | ⟨_, none⟩)
  · exact below
  · cases none

theorem below_pair {h h' m : Mutex} (first : Below h m) (second : Below h' m) :
    ∀ k ∈ [h, h'], Below k m := by
  rintro k (_ | ⟨_, rest⟩)
  · exact first
  · exact below_single second k rest

/-! ## The branches -/

theorem queueing_ordered (i : ℕ) {work : Instr} (plain : ∀ held, Ordered held [work] held) :
    Ordered [.item i] (queueing work) [.item i] := by
  have statistics : Ordered [.item i] (sect .mgrStat []) [.item i] :=
    sect_ordered (below_single (.inl Nat.zero_lt_one)) rfl
  refine statistics.append (sect_ordered (below_single (.inl Nat.zero_lt_two)) ?_)
  exact sect_ordered (below_pair (.inl (Nat.lt_succ_self 2)) (.inl (Nat.zero_lt_succ 2))) (plain _)

theorem branch_ordered {i : ℕ} {old state : CloudTransfer.TransferState} {instrs : List Instr}
    (taken : branch i old state = some instrs) : Ordered [.item i] instrs [.item i] := by
  have own : Ordered [.item i] (sect (.itemStat i) []) [.item i] :=
    sect_ordered (below_single (.inl (Nat.zero_lt_succ 2))) rfl
  have manager : Ordered [.item i] (sect .mgrStat []) [.item i] :=
    sect_ordered (below_single (.inl Nat.zero_lt_one)) rfl
  cases old <;> cases state <;> cases taken
  · exact queueing_ordered i fun _ => rfl
  · exact queueing_ordered i fun _ => rfl
  · exact manager.append own
  · exact queueing_ordered i fun _ => rfl
  · exact own.append manager
  · exact own.append manager

theorem transition_ordered (i : ℕ) (state : CloudTransfer.TransferState) (proceed : Bool) :
    Ordered [] (transition i state proceed) [] :=
  ⟨below_nil, rfl, rfl⟩

theorem wait_ordered (i : ℕ) : Ordered [] (wait i) [] := ⟨below_nil, rfl, rfl⟩

/-- What `get_xfer` and `release` do with a transfer while they have the mutex of the manager. -/
theorem underManager_ordered (i : ℕ) {inside : List Instr} (plain : ∀ held, Ordered held inside held) :
    Ordered [.mgr] (sect (.item i) inside) [.mgr] :=
  sect_ordered (below_single (.inr ⟨rfl, i, rfl⟩)) (plain _)

/-- A section on a mutex alone. -/
theorem alone_ordered (m : Mutex) : Ordered [] (sect m []) [] := sect_ordered below_nil rfl

theorem perform_ordered (d : Data) (c : Choice) {instr : Instr} {before after : List Mutex}
    (contracted : contract instr = some (before, after)) :
    Ordered before (perform d c instr).2 after := by
  have leave (m : Mutex) : Ordered [m] [.unlock m] [] := ⟨[], rfl, rfl⟩
  have stat (i : ℕ) : Ordered [.mgr, .mgrStat] (sect (.itemStat i) []) [.mgr, .mgrStat] :=
    sect_ordered
      (below_pair (.inl (Nat.lt_succ_self 2)) (.inl (Nat.succ_lt_succ (Nat.zero_lt_succ 1)))) rfl
  have managed (i : ℕ) : Ordered [.mgr] (sect (.item i) []) [.mgr] :=
    underManager_ordered i fun _ => rfl
  have counted (i : ℕ) : Ordered [.mgr] (sect (.item i) [.incUseCount i]) [.mgr] :=
    underManager_ordered i fun _ => rfl
  cases instr with
  | lock | unlock | incUseCount | append | addWork | removeWork | setState | sleep | decUseCount
  | remove =>
      cases contracted
  | getXfer volumeName part =>
      cases contracted
      unfold perform
      dsimp only
      split
      · exact (counted _).append (leave .mgr)
      · have listed : Ordered [.mgr] [.append d.next] [.mgr] := rfl
        exact ((((managed d.next).append (counted _)).append listed).append (counted _)).append
          (leave .mgr)
  | transition i state proceed =>
      cases contracted
      unfold perform
      dsimp only
      split
      · exact leave _
      case _ instrs taken =>
        refine ((branch_ordered taken).append
          (show Ordered [.item i] [.setState i state, .unlock (.item i)] [] from
          leave _)).append ?_
        split
        · exact ⟨rfl, rfl⟩
        · exact rfl
  | waitLoop i =>
      cases contracted
      unfold perform
      dsimp only
      split
      · exact leave _
      · exact ⟨[], rfl, below_nil, rfl, rfl⟩
  | lastRef i =>
      cases contracted
      exact ⟨[], rfl, rfl, rfl⟩
  | deleteIf i last =>
      cases contracted
      unfold perform
      dsimp only
      split
      · refine sect_ordered below_nil ?_
        exact underManager_ordered i fun _ => rfl
      · exact rfl
  | popWork =>
      cases contracted
      unfold perform
      dsimp only
      split
      · exact leave _
      · exact ⟨[], rfl, transition_ordered _ _ _⟩
  | engine i =>
      cases contracted
      exact (flatMap_ordered c.sections fun _ => alone_ordered _).append (transition_ordered _ _ _)
  | averageRates =>
      cases contracted
      exact (flatMap_ordered d.transferList stat).append ⟨rfl, rfl⟩
  | eta =>
      cases contracted
      have etas : ∀ list : List ℕ, Ordered [.mgr, .mgrStat] (list.map .etaOf) [.mgr, .mgrStat] := by
        intro list
        induction list with
        | nil => exact rfl
        | cons i list ih => exact ⟨rfl, ih⟩
      refine Ordered.append ?_
        (show Ordered _ [.unlock .mgr, .unlock .mgrStat] [] from ⟨_, rfl, _, rfl, rfl⟩)
      split
      · exact etas _
      · exact rfl
  | etaOf i =>
      cases contracted
      unfold perform
      dsimp only
      split
      · exact stat i
      · exact rfl

/-- The instructions of a branch stand for the instruction that took it. -/
theorem Ordered.perform {held last : List Mutex} {instr : Instr} {rest : List Instr}
    (ordered : Ordered held (instr :: rest) last) (lock : ∀ m, instr ≠ .lock m)
    (unlock : ∀ m, instr ≠ .unlock m) (d : Data) (c : Choice) :
    Ordered held ((perform d c instr).2 ++ rest) last := by
  cases instr with
  | lock m => exact absurd rfl (lock m)
  | unlock m => exact absurd rfl (unlock m)
  | incUseCount | append | addWork | removeWork | setState | sleep | decUseCount | remove =>
      exact ordered
  | getXfer | transition | waitLoop | lastRef | popWork | deleteIf | engine | averageRates
  | eta | etaOf =>
      obtain ⟨rfl, ordered⟩ := ordered
      exact (perform_ordered d c rfl).append ordered

theorem program_ordered (op : Op) : Ordered [] op.program [] := by
  cases op with
  | getXfer volumeName part => exact ⟨below_nil, rfl, rfl⟩
  | queue i => exact transition_ordered i _ _
  | cancel i => exact (alone_ordered _).append (wait_ordered i)
  | find volumeName part => exact alone_ordered _
  | wait i => exact wait_ordered i
  | release i => exact (wait_ordered i).append ⟨below_nil, rfl, rfl⟩
  | proceed => exact ⟨below_nil, rfl, rfl⟩
  | updateStatistics => exact ⟨below_nil, below_single (.inl (Nat.lt_succ_self 1)), rfl, rfl⟩

/-! ## Runs -/

/-- The mutexes that each thread has, the last one in front. -/
structure Inv (s : System) (held : ℕ → List Mutex) : Prop where
  ordered : ∀ t, Ordered (held t) (s.todo t) []
  nodup : ∀ t, (held t).Nodup
  owner : ∀ t m, s.owner m = some t ↔ m ∈ held t

theorem init_inv : Inv init fun _ => [] :=
  ⟨fun _ => rfl, fun _ => List.nodup_nil, fun _ _ => by simp [init]⟩

/-- A thread has new instructions for the mutexes that it has. -/
theorem Inv.set_todo {s : System} {held : ℕ → List Mutex} (inv : Inv s held) {t : ℕ}
    {todo : List Instr} {data : Data} (ordered : Ordered (held t) todo []) :
    Inv ({ s with data := data }.set t todo) held := by
  refine ⟨fun u => ?_, inv.nodup, inv.owner⟩
  show Ordered (held u) (Function.update s.todo t todo u) []
  by_cases same : u = t
  · rw [same, Function.update_self]
    exact ordered
  · rw [Function.update_of_ne same]
    exact inv.ordered u

/-- A thread goes on with other mutexes. -/
theorem Inv.heldBy {s : System} {held : ℕ → List Mutex} (inv : Inv s held) {t : ℕ} {m : Mutex}
    {owner : Option ℕ} {mine : List Mutex} {rest : List Instr} (ordered : Ordered mine rest [])
    (nodup : mine.Nodup)
    (owned : ∀ u k, Function.update s.owner m owner k = some u ↔ k ∈ Function.update held t mine u) :
    Inv ({ s with owner := Function.update s.owner m owner }.set t rest)
      (Function.update held t mine) := by
  refine ⟨fun u => ?_, ?_, owned⟩
  · show Ordered (Function.update held t mine u) (Function.update s.todo t rest u) []
    by_cases same : u = t
    · rw [same, Function.update_self, Function.update_self]
      exact ordered
    · rw [Function.update_of_ne same, Function.update_of_ne same]
      exact inv.ordered u
  · apply (Function.forall_update_iff held fun _ list => list.Nodup).mpr
    exact ⟨nodup, fun u _ => inv.nodup u⟩

theorem Inv.lock {s : System} {held : ℕ → List Mutex} (inv : Inv s held) {t : ℕ} {m : Mutex}
    {rest : List Instr} (here : s.todo t = .lock m :: rest) (free : s.owner m = none) :
    Inv ({ s with owner := Function.update s.owner m (some t) }.set t rest)
      (Function.update held t (m :: held t)) := by
  have ordered := inv.ordered t
  rw [here] at ordered
  have absent (u : ℕ) : m ∉ held u := by
    intro there
    rw [← inv.owner, free] at there
    cases there
  apply inv.heldBy ordered.2 (List.nodup_cons.mpr ⟨absent t, inv.nodup t⟩)
  intro u k
  by_cases same : u = t <;> by_cases this : k = m
  · subst same this
    simp
  · subst same
    rw [Function.update_of_ne this, Function.update_self, List.mem_cons, or_iff_right this]
    exact inv.owner u k
  · subst this
    rw [Function.update_self, Function.update_of_ne same]
    exact iff_of_false (fun other => same (Option.some_inj.mp other).symm) (absent u)
  · rw [Function.update_of_ne this, Function.update_of_ne same]
    exact inv.owner u k

theorem Inv.unlock {s : System} {held : ℕ → List Mutex} (inv : Inv s held) {t : ℕ} {m : Mutex}
    {rest : List Instr} (here : s.todo t = .unlock m :: rest) :
    Inv ({ s with owner := Function.update s.owner m none }.set t rest)
      (Function.update held t (held t).tail) := by
  have ordered := inv.ordered t
  rw [here] at ordered
  obtain ⟨others, had, ordered⟩ := ordered
  have nodup := inv.nodup t
  rw [had] at nodup
  obtain ⟨gone, nodup⟩ := List.nodup_cons.mp nodup
  have owned : s.owner m = some t := (inv.owner t m).mpr (had ▸ List.mem_cons_self)
  rw [had, List.tail_cons]
  apply inv.heldBy ordered nodup
  intro u k
  by_cases same : u = t <;> by_cases this : k = m
  · subst same this
    rw [Function.update_self, Function.update_self]
    exact iff_of_false (fun none => by cases none) gone
  · subst same
    rw [Function.update_of_ne this, Function.update_self, inv.owner, had, List.mem_cons,
      or_iff_right this]
  · subst this
    rw [Function.update_self, Function.update_of_ne same, ← inv.owner, owned]
    exact iff_of_false (fun none => by cases none) fun other => same (Option.some_inj.mp other).symm
  · rw [Function.update_of_ne this, Function.update_of_ne same]
    exact inv.owner u k

/-- Every thread is on its way to give back what it has. -/
def Sound (s : System) : Prop := ∃ held, Inv s held

theorem step_sound {s s' : System} {a : Action} (sound : Sound s) (taken : Step s a s') : Sound s' := by
  obtain ⟨held, inv⟩ := sound
  cases a with
  | start t op =>
      have taken : (if s.todo t = [] then some (s.set t op.program) else none) = some s' := taken
      split at taken
      case isTrue idle =>
        cases taken
        have none : held t = [] := by
          have ordered := inv.ordered t
          rwa [idle] at ordered
        exact ⟨held, inv.set_todo (none ▸ program_ordered op)⟩
      case isFalse => cases taken
  | next t c =>
      rw [Step, step] at taken
      dsimp only at taken
      split at taken
      case _ => cases taken
      case _ m rest here =>
        split at taken
        case isTrue free =>
          cases taken
          exact ⟨_, inv.lock here free⟩
        case isFalse => cases taken
      case _ m rest here =>
        cases taken
        exact ⟨_, inv.unlock here⟩
      case _ instr rest lock unlock here =>
        cases taken
        have ordered := inv.ordered t
        rw [here] at ordered
        exact ⟨held, inv.set_todo (ordered.perform lock unlock s.data c)⟩

theorem sound_of_run {s : System} {actions : List Action} (run : Run Step init actions s) : Sound s :=
  run.invariant (fun _ _ _ sound taken => step_sound sound taken) (show Sound init from ⟨_, init_inv⟩)

theorem Inv.below {s : System} {held : ℕ → List Mutex} (inv : Inv s held) {t : ℕ} {h m : Mutex}
    (waits : Waits s t m) (holds : Holds s t h) : Below h m := by
  obtain ⟨rest, here⟩ := waits
  have ordered := inv.ordered t
  rw [here] at ordered
  exact ordered.1 h ((inv.owner t h).mp holds)

theorem Mutex.rank_le (m : Mutex) : m.rank ≤ 3 := by
  cases m <;> simp only [Mutex.rank] <;> omega

theorem Waits.mem {s : System} {t : ℕ} {m : Mutex} (waits : Waits s t m) : .lock m ∈ s.todo t := by
  obtain ⟨rest, here⟩ := waits
  rw [here]
  exact List.mem_cons_self

/-- The thread that has the highest mutex which somebody waits for goes back from the manager to an
item, and who has the item has to wait as well. -/
theorem crossed_of_deadlock {s : System} {held : ℕ → List Mutex} (inv : Inv s held)
    (deadlock : Deadlock s) :
    Crossed s := by
  obtain ⟨D, dead⟩ := deadlock
  obtain ⟨t, m, u, first, highest⟩ := dead.exists_highest Mutex.rank_le
  obtain ⟨m₁, v, second⟩ := dead.2 u first.inside
  rcases inv.below second.waits first.holds with above | ⟨rfl, i, rfl⟩
  · exact absurd (highest u first.inside m₁ v second) (Nat.not_le.mpr above)
  · -- `u` has the mutex of the manager, and `v` the one of the item
    obtain ⟨m₂, w, third⟩ := dead.2 v second.inside
    have low : m₂.rank ≤ 2 := highest v second.inside m₂ w third
    rcases inv.below third.waits second.holds with above | ⟨same, -⟩
    · cases m₂ with
      | item => exact absurd above (lt_irrefl 0)
      | itemStat => exact absurd low (show ¬ 3 ≤ 2 by decide)
      | workq => exact absurd low (show ¬ 3 ≤ 2 by decide)
      | mgr => exact ⟨u, v, i, first.holds, second.waits.mem, second.holds, .inl third.waits.mem⟩
      | mgrStat =>
          obtain ⟨m₃, x, fourth⟩ := dead.2 w third.inside
          have low : m₃.rank ≤ 2 := highest w third.inside m₃ x fourth
          refine ⟨u, v, i, first.holds, second.waits.mem, second.holds,
            .inr ⟨third.waits.mem, w, third.holds, ?_⟩⟩
          rcases inv.below fourth.waits third.holds with above | ⟨same, -⟩
          · cases m₃ with
            | item => exact absurd above (Nat.not_lt_zero 1)
            | mgrStat => exact absurd above (lt_irrefl 1)
            | mgr => exact fourth.waits.mem
            | itemStat => exact absurd low (show ¬ 3 ≤ 2 by decide)
            | workq => exact absurd low (show ¬ 3 ≤ 2 by decide)
          · cases same
    · cases same

theorem run_not_crossed {s t : System} {actions : List Action}
    (run : Run (Guarded Step Meets) s actions t) (start : ¬ Crossed s) :
    Run Step s actions t ∧ ¬ Crossed t := by
  induction run with
  | nil s => exact ⟨.nil s, start⟩
  | cons first rest ih =>
      obtain ⟨run, apart⟩ := ih (first.1 _ first.2)
      exact ⟨.cons first.2 run, apart⟩

/-- Threads that do not cross do not get into a deadlock. -/
theorem no_deadlock {s : System} {actions : List Action}
    (run : Run (Guarded Step Meets) init actions s) :
    ¬ Deadlock s := by
  obtain ⟨run, apart⟩ := run_not_crossed run (by rintro ⟨t, u, i, none, -⟩; cases none)
  obtain ⟨held, inv⟩ := sound_of_run run
  exact fun deadlock => apart (crossed_of_deadlock inv deadlock)

def exec : System → List Action → Option System
  | s, [] => some s
  | s, a :: actions => (step s a).bind fun s => exec s actions

theorem run_of_exec {s t : System} {actions : List Action} (done : exec s actions = some t) :
    Run Step s actions t := by
  induction actions generalizing s with
  | nil =>
      cases done
      exact .nil _
  | cons a actions ih =>
      obtain ⟨s', taken, rest⟩ := Option.bind_eq_some_iff.mp done
      exact .cons taken (ih rest)

/-- The thread with the mutex of the manager is not on the way to a transfer whose mutex another one has
with a mutex of the manager still to take. -/
def Instr.free (s : System) : Instr → Bool
  | .lock (.item i) =>
      ((s.owner (.item i)).map fun u =>
        decide (.lock .mgr ∉ s.todo u ∧ .lock .mgrStat ∉ s.todo u)).getD true
  | _ => true

def System.apart (s : System) : Bool :=
  ((s.owner .mgr).map fun t => (s.todo t).all (Instr.free s)).getD true

theorem not_crossed_of_apart {s : System} (apart : s.apart = true) : ¬ Crossed s := by
  rintro ⟨t, u, i, mgr, inside, item, later⟩
  rw [System.apart, show s.owner .mgr = some t from mgr, Option.map_some, Option.getD_some,
    List.all_eq_true] at apart
  have free := apart _ inside
  rw [Instr.free, show s.owner (.item i) = some u from item, Option.map_some, Option.getD_some,
    decide_eq_true_eq] at free
  rcases later with mgr | ⟨stat, -⟩
  · exact free.1 mgr
  · exact free.2 stat

def execApart : System → List Action → Option System
  | s, [] => some s
  | s, a :: actions => (step s a).bind fun s => if s.apart then execApart s actions else none

theorem run_of_execApart {s t : System} {actions : List Action} (done : execApart s actions = some t) :
    Run (Guarded Step Meets) s actions t := by
  induction actions generalizing s with
  | nil =>
      cases done
      exact .nil _
  | cons a actions ih =>
      obtain ⟨s', taken, rest⟩ := Option.bind_eq_some_iff.mp done
      by_cases apart : s'.apart = true
      · rw [if_pos apart] at rest
        refine .cons ⟨fun s'' taken' => ?_, taken⟩ (ih rest)
        obtain rfl := Option.some_inj.mp (taken.symm.trans taken')
        exact not_crossed_of_apart apart
      · rw [if_neg apart] at rest
        cases rest

/-- A thread gets a transfer and queues it, and gives back the mutex of the manager before another one
gets the transfer as well. -/
def apartRun : List Action :=
  let next (t : ℕ) : Action := .next t ⟨true, [], .done⟩
  .start 1 (.getXfer "Vol" 2) :: List.replicate 12 (next 1) ++
    (.start 1 (.queue 0) :: List.replicate 8 (next 1)) ++ .start 2 (.getXfer "Vol" 2) ::
      [next 1, next 1, next 2, next 1, next 2, next 2, next 2]

theorem no_deadlock_apart :
    ∃ s, Run (Guarded Step Meets) init apartRun s ∧ s.owner .mgr = some 2 ∧ s.data.wq = [0] ∧
      ¬ Deadlock s := by
  have facts : ∃ s, execApart init apartRun = some s ∧ s.owner .mgr = some 2 ∧ s.data.wq = [0] :=
    ⟨_, rfl, rfl, rfl⟩
  obtain ⟨s, done, mgr, queued⟩ := facts
  exact ⟨s, run_of_execApart done, mgr, queued, no_deadlock (run_of_execApart done)⟩

/-- A thread gets a transfer and queues it, up to the manager, while another one gets it as well. -/
def crossing : List Action :=
  let next (t : ℕ) : Action := .next t ⟨true, [], .done⟩
  .start 1 (.getXfer "Vol" 2) :: List.replicate 12 (next 1) ++
    (.start 1 (.queue 0) :: List.replicate 4 (next 1)) ++ [.start 2 (.getXfer "Vol" 2), next 2, next 2]

theorem queue_get_deadlock : ∃ s, Run Step init crossing s ∧ Deadlock s := by
  have facts : ∃ s, exec init crossing = some s ∧ s.owner .mgr = some 2 ∧ s.owner (.item 0) = some 1 ∧
      s.todo 1 = .lock .mgr :: (s.todo 1).tail ∧ s.todo 2 = .lock (.item 0) :: (s.todo 2).tail :=
    ⟨_, rfl, rfl, rfl, rfl, rfl⟩
  obtain ⟨s, done, mgr, item, first, second⟩ := facts
  refine ⟨s, run_of_exec done, {1, 2}, ⟨1, .inl rfl⟩, ?_⟩
  rintro t (rfl | rfl)
  · exact ⟨.mgr, 2, ⟨_, first⟩, .inr rfl, by decide, mgr⟩
  · exact ⟨.item 0, 1, ⟨_, second⟩, .inl rfl, by decide, item⟩

end Bacula.CloudLocks
