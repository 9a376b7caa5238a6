import Bacula.Dird.Jobq

/-! What happens to the jobs of the job queue. As long as the queue gets the threads that it asks
for, no job is lost, and none is there twice. -/
namespace Bacula.Jobq
open Transition

/-- The job that the worker has given to the engine. -/
def Worker.item : Worker → Option JobqItem
  | ⟨_, .engine je⟩ => some je
  | _ => none

/-- The order of the waiting queue. -/
def Before (a b : JobqItem) : Prop :=
  a.jcr.jobPriority < b.jcr.jobPriority ∨
    a.jcr.jobPriority = b.jcr.jobPriority ∧ a.serial < b.serial

def jobs (items : List JobqItem) : List Handed := items.map JobqItem.toHanded

/-- Where jobs are. -/
def places (jq : Jobq) : List Handed :=
  jq.schedWait ++ jobs jq.waitingJobs ++ jobs jq.readyJobs ++ jobs jq.runningJobs ++ jq.finished

section Lists

theorem walk_perm (takes acquire : JobqItem → Bool) (items : List JobqItem) :
    ((walk takes acquire items).1 ++ (walk takes acquire items).2).Perm items := by
  induction items with
  | nil => exact List.Perm.refl _
  | cons je rest ih =>
      rw [walk]
      split
      · dsimp only
        split
        · exact List.perm_middle.trans (ih.cons je)
        · exact ih.cons je
      · rw [List.append_nil]

theorem walk_sublist (takes acquire : JobqItem → Bool) (items : List JobqItem) :
    (walk takes acquire items).1.Sublist items := by
  induction items with
  | nil => exact List.Sublist.refl _
  | cons je rest ih =>
      rw [walk]
      split
      · dsimp only
        split
        · exact ih.cons je
        · exact ih.cons_cons je
      · exact List.Sublist.refl _

theorem insertWaiting_perm (item : JobqItem) (items : List JobqItem) :
    (insertWaiting item items).Perm (item :: items) := by
  induction items with
  | nil => exact List.Perm.refl _
  | cons li rest ih =>
      rw [insertWaiting]
      split
      · exact List.Perm.refl _
      · exact (ih.cons li).trans (List.Perm.swap item li rest)

/-- The newest item goes after those of its priority. -/
theorem insertWaiting_sorted {item : JobqItem} {items : List JobqItem}
    (sorted : items.Pairwise Before) (newest : ∀ je ∈ items, je.serial < item.serial) :
    (insertWaiting item items).Pairwise Before := by
  induction items with
  | nil => exact List.pairwise_singleton _ _
  | cons li rest ih =>
      rw [List.pairwise_cons] at sorted
      rw [List.forall_mem_cons] at newest
      rw [insertWaiting]
      split
      · rename_i larger
        refine List.pairwise_cons.mpr ⟨fun je member => ?_, List.pairwise_cons.mpr sorted⟩
        rcases List.mem_cons.mp member with rfl | later
        · exact .inl larger
        · rcases sorted.1 je later with less | ⟨same, -⟩
          · exact .inl (larger.lt.trans less)
          · exact .inl (same ▸ larger)
      · rename_i smaller
        refine List.pairwise_cons.mpr ⟨fun je member => ?_, ih sorted.2 newest.2⟩
        rcases List.mem_cons.mp ((insertWaiting_perm item rest).mem_iff.mp member) with rfl | later
        · rcases (not_lt.mp smaller).lt_or_eq with less | same
          · exact .inl less
          · exact .inr ⟨same, newest.1⟩
        · exact sorted.1 je later

theorem filterMap_set {α β : Type} (f : α → Option β) {l : List α} {i : ℕ} {a : α} (b : α)
    (here : l[i]? = some a) :
    ((f a).toList ++ (l.set i b).filterMap f).Perm ((f b).toList ++ l.filterMap f) := by
  induction l generalizing i with
  | nil => cases here
  | cons x l ih =>
      cases i with
      | zero =>
          cases here
          rw [List.set_cons_zero]
          cases fa : f a <;> cases fb : f b <;> simp [fa, fb, List.Perm.swap]
      | succ i =>
          rw [List.set_cons_succ, List.filterMap_cons, List.filterMap_cons]
          cases f x with
          | none => exact ih here
          | some y =>
              dsimp only
              exact List.perm_middle.trans (((ih here).cons y).trans List.perm_middle.symm)

theorem jobs_cons (je : JobqItem) (items : List JobqItem) :
    jobs (je :: items) = je.toHanded :: jobs items := rfl

theorem jobs_nil : jobs [] = [] := rfl

theorem jobs_append (items others : List JobqItem) :
    jobs (items ++ others) = jobs items ++ jobs others := List.map_append ..

theorem jobs_perm {items others : List JobqItem} (perm : items.Perm others) :
    (jobs items).Perm (jobs others) := perm.map _

theorem jobs_passed (items : List JobqItem) :
    jobs (items.map fun je => { je with passed := true }) = jobs items := by
  rw [jobs, List.map_map]
  rfl

theorem jobs_count_erase {je : JobqItem} {items : List JobqItem} (member : je ∈ items)
    (job : Handed) :
    (jobs items).count job = (jobs (items.erase je)).count job + [je.toHanded].count job := by
  rw [(jobs_perm (List.perm_cons_erase member)).count_eq, jobs_cons, ← List.singleton_append,
    List.count_append, Nat.add_comm]

end Lists

/-- Every job is in one place, or is one of those that a thread has in its hands. -/
structure Accounted (jq : Jobq) (held : List Handed) : Prop where
  places : (held ++ jq.places).Perm jq.handed
  numbers : jq.handed.map Handed.number = List.range jq.handed.length
  engineCalls : jq.engineCalls.Perm (jobs jq.runningJobs ++ jq.finished)
  sorted : jq.waitingJobs.Pairwise Before
  serials : ∀ je ∈ jq.waitingJobs, je.serial < jq.allocations
  engines : (jq.workers.filterMap Worker.item).Perm jq.runningJobs
  valid : jq.valid = true
  quit : jq.quit = false
  idleWorkers : jq.idleWorkers = 0

theorem init_accounted (threads : ℤ) : (init threads).Accounted [] where
  places := List.Perm.refl _
  numbers := rfl
  engineCalls := List.Perm.refl _
  sorted := List.Pairwise.nil
  serials _ member := nomatch member
  engines := List.Perm.refl _
  valid := rfl
  quit := rfl
  idleWorkers := rfl

namespace Accounted

variable {jq : Jobq} {held : List Handed}

/-- The threads of the queue change, but not those in the engine. -/
theorem threads (acc : jq.Accounted held) {workers : List Worker} (numWorkers : ℤ)
    (same : (workers.filterMap Worker.item).Perm (jq.workers.filterMap Worker.item)) :
    { jq with numWorkers, workers }.Accounted held where
  places := acc.places
  numbers := acc.numbers
  engineCalls := acc.engineCalls
  sorted := acc.sorted
  serials := acc.serials
  engines := same.trans acc.engines
  valid := acc.valid
  quit := acc.quit
  idleWorkers := acc.idleWorkers

theorem startServer (acc : jq.Accounted held) (stat : ℤ) :
    (jq.startServer stat).2.Accounted held := by
  unfold Jobq.startServer
  split
  · exact acc
  · split
    · split
      · exact acc
      · refine acc.threads _ ?_
        rw [List.filterMap_append]
        exact (List.append_nil _).symm ▸ List.Perm.refl _
    · exact acc

theorem startServer_stat (acc : jq.Accounted held) {stat : ℤ}
    (starts : jq.numWorkers < jq.maxWorkers → stat = 0) : (jq.startServer stat).1 = 0 := by
  rw [Jobq.startServer, if_neg (by rw [acc.idleWorkers]; decide)]
  split
  · rename_i room
    rw [if_neg (not_not.mpr (starts room))]
  · rfl

/-- A worker that is not in the engine goes to a place that is not the engine. -/
theorem setPlace (acc : jq.Accounted held) {i : ℕ} {worker worker' : Worker}
    (here : jq.workers[i]? = some worker) (old : worker.item = none) (new : worker'.item = none) :
    (jq.setPlace i worker').Accounted held := by
  have perm := filterMap_set Worker.item worker' here
  rw [old, new] at perm
  exact acc.threads _ perm

theorem exit (acc : jq.Accounted held) {i : ℕ} {worker : Worker} (timedout : Bool)
    (here : jq.workers[i]? = some worker) (old : worker.item = none) :
    (jq.exit i timedout).Accounted held := by
  have perm := filterMap_set Worker.item ⟨timedout, .exited⟩ here
  rw [old] at perm
  exact acc.threads _ perm

theorem jobqAdd {job : Handed} (acc : jq.Accounted [job]) {env : AddEnv}
    (starts : jq.canceled job.number = false → 0 < env.wtime → env.schedStat = 0) :
    (jq.jobqAdd job env).2.Accounted [] := by
  have places := List.perm_iff_count.mp acc.places
  rw [Jobq.jobqAdd, if_neg (by rw [acc.valid]; decide)]
  split
  · rename_i waits
    rw [Bool.and_eq_true, Bool.not_eq_true', decide_eq_true_iff] at waits
    rw [if_neg (not_not.mpr (starts waits.1 waits.2))]
    refine { acc with places := List.perm_iff_count.mpr fun other => ?_ }
    have count := places other
    simp only [Jobq.places, List.count_append, List.count_nil] at count ⊢
    omega
  · dsimp only
    split
    · refine startServer ?_ _
      refine { acc with places := ?_, serials := ?_ }
      · refine List.perm_iff_count.mpr fun other => ?_
        have count := places other
        rw [← count]
        simp only [Jobq.places, List.count_append, jobs_cons, List.count_cons, List.count_nil]
        omega
      · exact fun je member => Nat.lt_succ_of_lt (acc.serials je member)
    · refine startServer ?_ _
      refine { acc with places := ?_, sorted := ?_, serials := ?_ }
      · refine List.perm_iff_count.mpr fun other => ?_
        have count := places other
        have inserted := (jobs_perm (insertWaiting_perm ⟨job, jq.allocations, false⟩
          jq.waitingJobs)).count_eq other
        rw [← count]
        simp only [Jobq.places, List.count_append, inserted, jobs_cons, List.count_cons,
          List.count_nil]
        omega
      · exact insertWaiting_sorted acc.sorted acc.serials
      · intro je member
        rcases List.mem_cons.mp ((insertWaiting_perm _ _).mem_iff.mp member) with rfl | old
        · exact Nat.lt_succ_self _
        · exact Nat.lt_succ_of_lt (acc.serials je old)

theorem jobqRemove (acc : jq.Accounted held) (jcr : JCR) (stat : ℤ) :
    (jq.jobqRemove jcr stat).2.Accounted held := by
  have places := List.perm_iff_count.mp acc.places
  rw [Jobq.jobqRemove, if_neg (by rw [acc.valid]; decide)]
  split
  · exact acc
  · rename_i item found
    have member := List.mem_of_find?_eq_some found
    refine startServer ?_ _
    refine { acc with places := ?_, sorted := ?_, serials := ?_ }
    · refine List.perm_iff_count.mpr fun other => ?_
      have count := places other
      rw [← count]
      simp only [Jobq.places, List.count_append, jobs_count_erase member]
      simp only [jobs_cons, List.count_cons, List.count_nil]
      omega
    · exact acc.sorted.sublist List.erase_sublist
    · exact fun je inside => acc.serials je (List.mem_of_mem_erase inside)

theorem checkWaiting (acc : jq.Accounted held) (acquireResources : JobqItem → Bool) :
    (jq.checkWaiting acquireResources).Accounted held := by
  have places := List.perm_iff_count.mp acc.places
  unfold Jobq.checkWaiting
  split
  · exact acc
  · rename_i je rest waiting
    set taken := takes (priority jq.runningJobs je) (runningAllowMix jq.runningJobs)
    set acquire := fun je : JobqItem => acquireResources je || jq.canceled je.number
    have sub := walk_sublist taken acquire jq.waitingJobs
    refine { acc with places := ?_, sorted := ?_, serials := ?_ }
    · refine List.perm_iff_count.mpr fun other => ?_
      have count := places other
      have split := (jobs_perm (walk_perm taken acquire jq.waitingJobs)).count_eq other
      rw [jobs_append, List.count_append] at split
      rw [← count]
      simp only [Jobq.places, jobs_append, jobs_passed, List.count_append]
      omega
    · exact acc.sorted.sublist sub
    · exact fun je inside => acc.serials je (sub.subset inside)

theorem beginEngine {je : JobqItem} (acc : jq.Accounted (je.toHanded :: held)) {i : ℕ}
    {worker : Worker} (timedout : Bool) (here : jq.workers[i]? = some worker)
    (old : worker.item = none) :
    ({ jq with
      runningJobs := jq.runningJobs ++ [je]
      engineCalls := jq.engineCalls ++ [je.toHanded] }.setPlace i
        ⟨timedout, .engine je⟩).Accounted held := by
  have places := List.perm_iff_count.mp acc.places
  have calls := List.perm_iff_count.mp acc.engineCalls
  have engines := filterMap_set Worker.item ⟨timedout, .engine je⟩ here
  rw [old] at engines
  refine { acc with places := ?_, engineCalls := ?_, engines := ?_ }
  · refine List.perm_iff_count.mpr fun other => ?_
    have count := places other
    rw [Jobq.setPlace, ← count]
    simp only [Jobq.places, jobs_append, jobs_cons, jobs_nil, List.count_append, List.count_cons,
      List.count_nil]
    omega
  · refine List.perm_iff_count.mpr fun other => ?_
    have count := calls other
    simp only [Jobq.setPlace, jobs_append, jobs_cons, jobs_nil, List.count_append] at count ⊢
    omega
  · exact engines.trans ((acc.engines.cons je).trans (List.perm_append_singleton je _).symm)

theorem startServer_workers {i : ℕ} {worker : Worker} (stat : ℤ)
    (here : jq.workers[i]? = some worker) :
    (jq.startServer stat).2.workers[i]? = some worker := by
  have inside := (List.getElem?_eq_some_iff.mp here).1
  unfold Jobq.startServer
  split
  · exact here
  · split
    · split
      · exact here
      · exact (List.getElem?_append_left inside).trans here
    · exact here

theorem serve (acc : jq.Accounted held) {i : ℕ} {worker : Worker} (timedout : Bool) {stat : ℤ}
    (acquireResources : JobqItem → Bool) (here : jq.workers[i]? = some worker)
    (old : worker.item = none)
    (starts : 1 < jq.readyJobs.length → jq.numWorkers < jq.maxWorkers → stat = 0) :
    (jq.serve i timedout stat acquireResources).Accounted held := by
  unfold Jobq.serve
  split
  · rename_i je ready readyJobs quit
    have taken : { jq with readyJobs := ready }.Accounted (je.toHanded :: held) := by
      refine { acc with places := List.perm_iff_count.mpr fun other => ?_ }
      have count := List.perm_iff_count.mp acc.places other
      rw [← count]
      simp only [Jobq.places, readyJobs, jobs_cons, List.count_append, List.count_cons]
      omega
    cases ready with
    | nil => exact taken.beginEngine timedout here old
    | cons je' ready =>
        rw [readyJobs] at starts
        have started : ({ jq with readyJobs := je' :: ready }.startServer stat).1 = 0 :=
          taken.startServer_stat (starts (by simp))
        dsimp only [List.isEmpty_cons]
        rw [if_neg Bool.false_ne_true, started, if_neg (not_not.mpr rfl)]
        exact (taken.startServer stat).beginEngine timedout (startServer_workers stat here) old
  · have checked := acc.checkWaiting acquireResources
    have here' : (jq.checkWaiting acquireResources).workers[i]? = some worker := by
      unfold Jobq.checkWaiting
      split <;> exact here
    dsimp only
    rw [acc.quit, if_neg Bool.false_ne_true]
    split
    · exact checked.exit timedout here' old
    · split
      · exact checked.exit timedout here' old
      · split
        · exact checked.setPlace here' old rfl
        · exact checked.setPlace here' old rfl

theorem endEngine (acc : jq.Accounted held) {i : ℕ} {timedout : Bool} {je : JobqItem}
    (here : jq.workers[i]? = some ⟨timedout, .engine je⟩) (job : JobEnd) :
    (jq.endEngine i timedout je job).Accounted held := by
  have engines := filterMap_set Worker.item ⟨timedout, rescheduleJob job je⟩ here
  have back : Worker.item ⟨timedout, rescheduleJob job je⟩ = none := by
    unfold rescheduleJob
    split_ifs <;> rfl
  rw [back] at engines
  have perm := engines.trans acc.engines
  have member : je ∈ jq.runningJobs := perm.mem_iff.mp (List.mem_cons_self ..)
  refine { acc with places := ?_, engineCalls := ?_, engines := ?_ }
  · refine List.perm_iff_count.mpr fun other => ?_
    have count := List.perm_iff_count.mp acc.places other
    rw [Jobq.endEngine, Jobq.setPlace, ← count]
    simp only [Jobq.places, List.count_append, jobs_count_erase member]
    omega
  · refine List.perm_iff_count.mpr fun other => ?_
    have count := List.perm_iff_count.mp acc.engineCalls other
    simp only [Jobq.endEngine, Jobq.setPlace, List.count_append,
      jobs_count_erase member] at count ⊢
    omega
  · exact (List.perm_cons je).mp (perm.trans (List.perm_cons_erase member))

theorem handOver (acc : jq.Accounted []) (jcr : JCR) {env : AddEnv}
    (starts : jq.canceled jq.handed.length = false → 0 < env.wtime → env.schedStat = 0) :
    (jq.handOver jcr env).Accounted [] := by
  refine jobqAdd ?_ starts
  refine { acc with places := ?_, numbers := ?_ }
  · exact (acc.places.cons _).trans (List.perm_append_singleton _ _).symm
  · rw [List.map_append, acc.numbers, List.length_append, List.length_singleton, List.range_succ]
    rfl

theorem wake (acc : jq.Accounted []) {job : Handed} (waits : job ∈ jq.schedWait) {env : AddEnv}
    (starts : jq.canceled job.number = false → 0 < env.wtime → env.schedStat = 0) :
    ({ jq with schedWait := jq.schedWait.erase job }.jobqAdd job env).2.Accounted [] := by
  refine jobqAdd ?_ starts
  refine { acc with places := List.perm_iff_count.mpr fun other => ?_ }
  have count := List.perm_iff_count.mp acc.places other
  have erased := (List.perm_cons_erase waits).count_eq other
  rw [← count]
  simp only [Jobq.places, List.count_append, List.count_cons, List.count_nil] at erased ⊢
  omega

theorem jobqAdd_workers {i : ℕ} {worker : Worker} (here : jq.workers[i]? = some worker)
    (job : Handed) (env : AddEnv) : (jq.jobqAdd job env).2.workers[i]? = some worker := by
  unfold Jobq.jobqAdd
  split
  · exact here
  · split
    · split <;> exact here
    · dsimp only
      split
      · exact startServer_workers env.serverStat here
      · exact startServer_workers env.serverStat here

theorem handOver_workers {i : ℕ} {worker : Worker} (here : jq.workers[i]? = some worker)
    (jcr : JCR) (env : AddEnv) : (jq.handOver jcr env).workers[i]? = some worker := by
  unfold Jobq.handOver
  exact jobqAdd_workers (by exact here) _ env

end Accounted

/-- The thread for a start time in the future is created. -/
def SchedStarts (jq : Jobq) (number : ℕ) (env : AddEnv) : Prop :=
  jq.canceled number = false → 0 < env.wtime → env.schedStat = 0

/-- A worker that takes a job while more jobs are ready gets the thread that it asks for. -/
def ServerStarts (jq : Jobq) (stat : ℤ) : Prop :=
  1 < jq.readyJobs.length → jq.numWorkers < jq.maxWorkers → stat = 0

/-- No thread is missing in this step. -/
def Starts (jq : Jobq) : Action → Prop
  | .add _ env | .requeue _ env | .runJob _ (some _) env => jq.SchedStarts jq.handed.length env
  | .wake job env => jq.SchedStarts job.number env
  | .timedwait _ .error _ _ => True
  | .lock _ stat _ | .timedwait _ _ stat _ | .pause _ stat _ => jq.ServerStarts stat
  | .remove _ _ | .cancel _ | .engine _ _ | .runJob _ none _ => True

theorem Accounted.step {jq jq' : Jobq} {action : Action} (acc : jq.Accounted [])
    (step : Guarded Step Starts jq action jq') : jq'.Accounted [] := by
  obtain ⟨starts, step⟩ := step
  unfold Step Jobq.step at step
  cases action with
  | add jcr env => exact Option.some.inj step ▸ acc.handOver jcr starts
  | remove jcr stat => exact Option.some.inj step ▸ acc.jobqRemove jcr stat
  | cancel number => exact Option.some.inj step ▸ { acc with }
  | wake job env =>
      dsimp only at step
      split at step
      · rename_i waits
        exact Option.some.inj step ▸ acc.wake waits starts
      · cases step
  | lock i stat acquireResources =>
      dsimp only at step
      split at step
      · rename_i timedout here
        exact Option.some.inj step ▸ acc.serve timedout acquireResources here rfl starts
      · cases step
  | timedwait i wait stat acquireResources =>
      dsimp only at step
      split at step
      · rename_i timedout here
        cases wait with
        | error => exact Option.some.inj step ▸ acc.exit timedout here rfl
        | timedout => exact Option.some.inj step ▸ acc.serve true acquireResources here rfl starts
        | zero => exact Option.some.inj step ▸ acc.serve timedout acquireResources here rfl starts
      · cases step
  | pause i stat acquireResources =>
      dsimp only at step
      split at step
      · rename_i timedout here
        split at step
        · exact Option.some.inj step ▸ acc.setPlace here rfl rfl
        · exact Option.some.inj step ▸ acc.serve timedout acquireResources here rfl starts
      · cases step
  | engine i job =>
      dsimp only at step
      split at step
      · rename_i timedout je here
        exact Option.some.inj step ▸ acc.endEngine here job
      · cases step
  | requeue i env =>
      dsimp only at step
      split at step
      · rename_i timedout je here
        exact Option.some.inj step ▸ (acc.handOver je.jcr starts).setPlace
          (Accounted.handOver_workers here _ _) rfl rfl
      · cases step
  | runJob i njcr env =>
      dsimp only at step
      split at step
      · rename_i timedout njcr here
        exact Option.some.inj step ▸ (acc.handOver njcr starts).setPlace
          (Accounted.handOver_workers here _ _) rfl rfl
      · rename_i timedout here
        exact Option.some.inj step ▸ acc.setPlace here rfl rfl
      · cases step

/-- No job is lost and none is there twice: each is in one of the places, and has been in the
engine if it is running or has come back, once for each time it was handed over. The waiting
queue has the priorities in order, and jobs of one priority as they came. -/
structure Kept (jq : Jobq) : Prop where
  numbers : jq.handed.map Handed.number = List.range jq.handed.length
  once : ∀ job ∈ jq.handed, jq.places.count job = 1
  handed : ∀ job ∈ jq.places, job ∈ jq.handed
  engineCalls : ∀ job, jq.engineCalls.count job =
    if job ∈ jobs jq.runningJobs ∨ job ∈ jq.finished then 1 else 0
  sorted : jq.waitingJobs.Pairwise Before

theorem Accounted.kept {jq : Jobq} (acc : jq.Accounted []) : jq.Kept := by
  have nodup : jq.handed.Nodup := by
    refine List.Nodup.of_map Handed.number ?_
    rw [acc.numbers]
    exact List.nodup_range
  have perm : jq.places.Perm jq.handed := acc.places
  have atMost (job : Handed) : jq.places.count job ≤ 1 :=
    List.nodup_iff_count_le_one.mp (perm.nodup_iff.mpr nodup) job
  refine ⟨acc.numbers, fun job member => ?_, fun job => perm.mem_iff.mp, fun job => ?_,
    acc.sorted⟩
  · have some := List.count_pos_iff.mpr (perm.mem_iff.mpr member)
    have := atMost job
    omega
  · have most := atMost job
    rw [acc.engineCalls.count_eq, List.count_append]
    simp only [Jobq.places, List.count_append] at most
    split
    · rename_i ran
      rw [← List.count_pos_iff, ← List.count_pos_iff] at ran
      omega
    · rename_i waits
      rw [not_or, ← List.count_eq_zero, ← List.count_eq_zero] at waits
      omega

/-- In every run in which no thread is missing, the queue keeps its jobs. -/
theorem run_kept {threads : ℤ} {actions : List Action} {jq : Jobq}
    (run : Run (Guarded Step Starts) (init threads) actions jq) : jq.Kept := by
  have acc : jq.Accounted [] :=
    run.invariant (fun _ _ _ acc step => Accounted.step acc step) (init_accounted threads)
  exact acc.kept

/-- A job with the usual priority. -/
def usual (jobId : ℕ) : JCR := ⟨jobId, 10, false⟩

/-- Two jobs run at the same time, and the second one comes back first. -/
def twoJobs : List Action :=
  [.add (usual 1) ⟨0, 0, 0⟩, .add (usual 2) ⟨0, 0, 0⟩, .lock 0 0 fun _ => true,
    .pause 0 0 fun _ => true, .lock 1 0 fun _ => true,
    .engine 1 ⟨0, 0, 'T', false, true, false, false, false, true, 0⟩,
    .engine 0 ⟨0, 0, 'T', false, true, false, false, false, true, 0⟩]

theorem run_kept_two : ∃ jq, Run (Guarded Step Starts) (init 3) twoJobs jq ∧
    jq.finished = [⟨1, usual 2⟩, ⟨0, usual 1⟩] ∧ jq.Kept := by
  obtain ⟨jq, run, ran⟩ : ∃ jq, Run (Guarded Step Starts) (init 3) twoJobs jq ∧
      jq.finished = [⟨1, usual 2⟩, ⟨0, usual 1⟩] := by
    refine ⟨?last, ?run, ?ran⟩
    case run =>
      refine .cons ⟨fun _ _ => rfl, rfl⟩ ?_
      refine .cons ⟨fun _ _ => rfl, rfl⟩ ?_
      refine .cons ⟨fun _ _ => rfl, rfl⟩ ?_
      refine .cons ⟨fun _ _ => rfl, rfl⟩ ?_
      refine .cons ⟨fun _ _ => rfl, rfl⟩ ?_
      refine .cons ⟨trivial, rfl⟩ ?_
      refine .cons ⟨trivial, rfl⟩ ?_
      exact .nil _
    case ran => rfl
  exact ⟨jq, run, ran, run_kept run⟩

/-- Two jobs are ready, and a worker that has taken the first one returns because there is no
thread for the other. -/
theorem lock_loses_job : ∃ jq, Run Step (init 3) [.add (usual 1) ⟨0, 0, 0⟩,
      .add (usual 2) ⟨0, 0, 0⟩, .lock 0 0 fun _ => true, .pause 0 11 fun _ => true] jq ∧
    ⟨0, usual 1⟩ ∈ jq.handed ∧ ⟨0, usual 1⟩ ∉ jq.places ∧ ¬ jq.Kept := by
  refine ⟨?last, ?run, ?handed, ?lost, ?law⟩
  case run =>
    refine .cons rfl ?_
    refine .cons rfl ?_
    refine .cons rfl ?_
    refine .cons rfl ?_
    exact .nil _
  case handed => decide
  case lost => decide
  case law =>
    intro kept
    have once := kept.once ⟨0, usual 1⟩ (by decide)
    revert once
    decide

end Bacula.Jobq
