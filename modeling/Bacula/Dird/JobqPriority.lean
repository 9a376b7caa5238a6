import Bacula.Dird.JobqKept

/-! The priorities of the jobs that run together. Canceled and stopped jobs become ready whatever
their priority, so this is about the jobs that become ready in a pass over the waiting queue. -/
namespace Bacula.Jobq
open Transition

/-- The jobs that are running or ready after a pass over the waiting queue. -/
def Active (jq : Jobq) (je : JobqItem) : Prop :=
  (je ∈ jq.runningJobs ∨ je ∈ jq.readyJobs) ∧ je.passed = true

/-- Jobs of different priorities are active together only if all allow it. -/
def MixesAllowed (jq : Jobq) : Prop :=
  ∀ a b, jq.Active a → jq.Active b → a.jcr.jobPriority ≠ b.jcr.jobPriority →
    ∀ c, jq.Active c → c.jcr.allowMixedPriority = true

/-- No job is better than one that a pass has just made ready. -/
def MovesBest (jq jq' : Jobq) : Prop :=
  ∀ je ∈ jq'.readyJobs, je.passed = true → je ∉ jq.readyJobs →
    ∀ other, other ∈ jq'.runningJobs ∨ other ∈ jq'.readyJobs →
      je.jcr.jobPriority ≤ other.jcr.jobPriority

/-- A step after which priorities are mixed only where it is allowed, and that makes the best jobs
ready. -/
def Lawful (jq jq' : Jobq) : Prop := MovesBest jq jq' ∧ jq'.MixesAllowed

/-- The test of a pass. -/
def accepts (jq : Jobq) (first : JobqItem) : JobqItem → Bool :=
  takes (priority jq.runningJobs first) (runningAllowMix jq.runningJobs)

/-- The waiting jobs that the pass comes to, and that get their resources or are canceled. -/
def fitting (jq : Jobq) (acquireResources : JobqItem → Bool) (first : JobqItem) : List JobqItem :=
  (jq.waitingJobs.takeWhile (jq.accepts first)).filter fun je =>
    acquireResources je || jq.canceled je.number

/-- The pass compares with the first running job, and it does not look again at what runs when it has
made a job ready. This says enough for the jobs that it takes. -/
structure Plain (jq : Jobq) (acquireResources : JobqItem → Bool) (first : JobqItem) : Prop where
  best : ∀ je ∈ jq.fitting acquireResources first, ∀ re ∈ jq.runningJobs,
      je.jcr.jobPriority ≤ re.jcr.jobPriority
  one : ∀ a ∈ jq.fitting acquireResources first, ∀ b ∈ jq.fitting acquireResources first,
    a.jcr.jobPriority = b.jcr.jobPriority
  -- no flag is asked for a job of the priority of the first one
  mixed : ∀ je ∈ jq.fitting acquireResources first, je.jcr.jobPriority = priority jq.runningJobs first →
    ∀ re ∈ jq.runningJobs, re.passed = true → re.jcr.jobPriority ≠ je.jcr.jobPriority →
      je.jcr.allowMixedPriority = true ∧ re.jcr.allowMixedPriority = true

/-- What `acquire_resources` gives in an action that may be a pass. -/
def Action.resources : Action → Option (JobqItem → Bool)
  | .lock _ _ acquireResources => some acquireResources
  | .timedwait _ .error _ _ => none
  | .timedwait _ _ _ acquireResources => some acquireResources
  | .pause _ _ acquireResources => some acquireResources
  | _ => none

/-- A pass that starts in this state is plain. -/
def PassesPlain (jq : Jobq) (action : Action) : Prop :=
  ∀ acquireResources, action.resources = some acquireResources → jq.readyJobs = [] → jq.quit = false →
    ∀ first, jq.waitingJobs.head? = some first → jq.Plain acquireResources first

section Pass

/-- The jobs that become ready are those that get their resources, up to the first one that is
refused. -/
theorem walk_ready (taken acquire : JobqItem → Bool) (items : List JobqItem) :
    (walk taken acquire items).2 = (items.takeWhile taken).filter acquire := by
  induction items with
  | nil => rfl
  | cons li rest ih =>
      rw [walk, List.takeWhile_cons]
      by_cases fits : taken li = true
      · rw [if_pos fits, if_pos fits, List.filter_cons, ← ih]
        dsimp only
        split <;> rfl
      · rw [if_neg fits, if_neg fits]
        rfl

theorem takes_cases {pri : ℤ} {mix : Bool} {je : JobqItem} (fits : takes pri mix je = true) :
    je.jcr.jobPriority = pri ∨
      je.jcr.jobPriority < pri ∧ je.jcr.allowMixedPriority = true ∧ mix = true := by
  simpa [takes, and_assoc] using fits

variable {jq : Jobq} {acquireResources : JobqItem → Bool} {first : JobqItem}

theorem accepts_of_fitting {je : JobqItem} (fits : je ∈ jq.fitting acquireResources first) :
    jq.accepts first je = true :=
  List.mem_takeWhile_imp (List.mem_filter.mp fits).1

/-- What a pass makes ready. -/
theorem checkWaiting_ready (head : jq.waitingJobs.head? = some first) (je : JobqItem) :
    je ∈ (jq.checkWaiting acquireResources).readyJobs ↔
      je ∈ jq.readyJobs ∨ ∃ li, li ∈ jq.fitting acquireResources first ∧
        je = { li with passed := true } := by
  unfold checkWaiting
  split
  case h_1 empty =>
    rw [empty] at head
    cases head
  case h_2 other rest waiting =>
    rw [waiting] at head
    obtain rfl := Option.some_inj.mp head
    dsimp only
    rw [walk_ready, List.mem_append, List.mem_map]
    exact or_congr_right (exists_congr fun li => and_congr_right fun _ => eq_comm)

theorem checkWaiting_none (empty : jq.waitingJobs.head? = none) :
    jq.checkWaiting acquireResources = jq := by
  unfold checkWaiting
  rw [List.head?_eq_none_iff.mp empty]

theorem checkWaiting_running (jq : Jobq) (acquireResources : JobqItem → Bool) :
    (jq.checkWaiting acquireResources).runningJobs = jq.runningJobs := by
  unfold checkWaiting
  split <;> rfl

theorem checkWaiting_waiting (jq : Jobq) (acquireResources : JobqItem → Bool) :
    (jq.checkWaiting acquireResources).waitingJobs.Sublist jq.waitingJobs := by
  unfold checkWaiting
  split
  · exact List.Sublist.refl _
  · exact walk_sublist _ _ _

theorem Plain.of_head (head : jq.waitingJobs.head? = some first)
    (plain : jq.Plain acquireResources first) :
    ∀ other, jq.waitingJobs.head? = some other → jq.Plain acquireResources other := by
  intro other same
  rw [head] at same
  cases same
  exact plain

/-- A job that is taken and one that runs with another priority both allow it. -/
theorem Plain.allow (plain : jq.Plain acquireResources first) {je re : JobqItem}
    (fits : je ∈ jq.fitting acquireResources first) (running : re ∈ jq.runningJobs)
    (passed : re.passed = true) (differ : re.jcr.jobPriority ≠ je.jcr.jobPriority) :
    je.jcr.allowMixedPriority = true ∧ re.jcr.allowMixedPriority = true := by
  rcases takes_cases (accepts_of_fitting fits) with same | ⟨-, allows, mix⟩
  · exact plain.mixed je fits same re running passed differ
  · rw [runningAllowMix, Bool.and_eq_true, List.all_eq_true] at mix
    exact ⟨allows, mix.2 re running⟩

end Pass

/-- What holds in every state. -/
structure Priorities (jq : Jobq) : Prop where
  waiting : ∀ je ∈ jq.waitingJobs, je.passed = false
  mixes : jq.MixesAllowed

/-- The waiting, ready and running jobs are the same. -/
def SameQueues (jq jq' : Jobq) : Prop :=
  jq'.waitingJobs = jq.waitingJobs ∧ jq'.readyJobs = jq.readyJobs ∧
    jq'.runningJobs = jq.runningJobs

/-- No job becomes ready in a pass. -/
structure Shrinks (jq jq' : Jobq) : Prop where
  waiting : ∀ je ∈ jq'.waitingJobs, je ∈ jq.waitingJobs ∨ je.passed = false
  ready : ∀ je ∈ jq'.readyJobs, je ∈ jq.readyJobs ∨ je ∈ jq.waitingJobs ∨ je.passed = false
  running : ∀ je ∈ jq'.runningJobs, je ∈ jq.runningJobs ∨ je ∈ jq.readyJobs

section Queues

variable {jq jq' : Jobq}

theorem SameQueues.shrinks (same : SameQueues jq jq') : Shrinks jq jq' := by
  obtain ⟨waiting, ready, running⟩ := same
  refine ⟨fun je member => ?_, fun je member => ?_, fun je member => ?_⟩
  · exact .inl (waiting ▸ member)
  · exact .inl (ready ▸ member)
  · exact .inl (running ▸ member)

theorem Shrinks.keeps (shrinks : Shrinks jq jq') (priorities : jq.Priorities) :
    jq'.Priorities ∧ MovesBest jq jq' := by
  have old {je : JobqItem} (ready : je ∈ jq'.readyJobs) (passed : je.passed = true) :
      je ∈ jq.readyJobs := by
    rcases shrinks.ready je ready with here | waits | never
    · exact here
    · rw [priorities.waiting je waits] at passed
      cases passed
    · rw [never] at passed
      cases passed
  have active {je : JobqItem} (now : jq'.Active je) : jq.Active je := by
    obtain ⟨running | ready, passed⟩ := now
    · exact ⟨shrinks.running je running, passed⟩
    · exact ⟨.inr (old ready passed), passed⟩
  refine ⟨⟨fun je member => ?_, fun a b activeA activeB differ c activeC => ?_⟩,
    fun je ready passed new => absurd (old ready passed) new⟩
  · rcases shrinks.waiting je member with waits | new
    · exact priorities.waiting je waits
    · exact new
  · exact priorities.mixes a b (active activeA) (active activeB) differ c (active activeC)

section OnePass

variable {acquireResources : JobqItem → Bool} {first : JobqItem}

/-- A job that is active after a pass was running, or is one that the pass has taken. -/
theorem active_pass (same : SameQueues (jq.checkWaiting acquireResources) jq')
    (empty : jq.readyJobs = []) (head : jq.waitingJobs.head? = some first) (je : JobqItem) :
    jq'.Active je ↔ (je ∈ jq.runningJobs ∧ je.passed = true) ∨
      ∃ li, li ∈ jq.fitting acquireResources first ∧ je = { li with passed := true } := by
  obtain ⟨-, ready, running⟩ := same
  unfold Active
  rw [running, checkWaiting_running, ready, checkWaiting_ready head, empty]
  constructor
  · rintro ⟨runs | none | taken, passed⟩
    · exact .inl ⟨runs, passed⟩
    · cases none
    · exact .inr taken
  · rintro (⟨runs, passed⟩ | ⟨li, fits, rfl⟩)
    · exact ⟨.inl runs, passed⟩
    · exact ⟨.inr (.inr ⟨li, fits, rfl⟩), rfl⟩

/-- A plain pass mixes priorities only where all allow it. -/
theorem pass_mixes (same : SameQueues (jq.checkWaiting acquireResources) jq')
    (empty : jq.readyJobs = []) (head : jq.waitingJobs.head? = some first)
    (plain : jq.Plain acquireResources first) (mixes : jq.MixesAllowed) : jq'.MixesAllowed := by
  have active := active_pass same empty head
  -- a job that was taken, and a running one of another priority
  have mixed {li re : JobqItem} (fits : li ∈ jq.fitting acquireResources first)
    (running : re ∈ jq.runningJobs)
      (passed : re.passed = true) (differ : re.jcr.jobPriority ≠ li.jcr.jobPriority) :
      ∀ c, jq'.Active c → c.jcr.allowMixedPriority = true := by
    intro c activeC
    rcases (active c).mp activeC with ⟨runs, passedC⟩ | ⟨li', fits', rfl⟩
    · by_cases other : c.jcr.jobPriority = li.jcr.jobPriority
      · exact mixes re c ⟨.inl running, passed⟩ ⟨.inl runs, passedC⟩ (other ▸ differ) c
          ⟨.inl runs, passedC⟩
      · exact (plain.allow fits runs passedC other).2
    · exact (plain.allow fits' running passed (plain.one li fits li' fits' ▸ differ)).1
  intro a b activeA activeB differ
  rcases (active a).mp activeA with ⟨runsA, passedA⟩ | ⟨liA, fitsA, rfl⟩
  · rcases (active b).mp activeB with ⟨runsB, passedB⟩ | ⟨liB, fitsB, rfl⟩
    · intro c activeC
      rcases (active c).mp activeC with ⟨runs, passed⟩ | ⟨li, fits, rfl⟩
      · exact mixes a b ⟨.inl runsA, passedA⟩ ⟨.inl runsB, passedB⟩ differ c ⟨.inl runs, passed⟩
      · by_cases equal : a.jcr.jobPriority = li.jcr.jobPriority
        · exact (plain.allow fits runsB passedB fun same => differ (equal.trans same.symm)).1
        · exact (plain.allow fits runsA passedA equal).1
    · exact mixed fitsB runsA passedA differ
  · rcases (active b).mp activeB with ⟨runsB, passedB⟩ | ⟨liB, fitsB, rfl⟩
    · exact mixed fitsA runsB passedB differ.symm
    · exact absurd (plain.one liA fitsA liB fitsB) differ

theorem pass_best (same : SameQueues (jq.checkWaiting acquireResources) jq') (empty : jq.readyJobs = [])
    (head : jq.waitingJobs.head? = some first) (plain : jq.Plain acquireResources first) :
    MovesBest jq jq' := by
  intro je isReady _ _ other present
  rw [same.2.1, checkWaiting_ready head, empty] at isReady
  obtain ⟨li, fits, rfl⟩ := isReady.resolve_left List.not_mem_nil
  rw [same.2.1, checkWaiting_ready head, empty, same.2.2, checkWaiting_running] at present
  rcases present with runs | none | ⟨li', fits', rfl⟩
  · exact plain.best li fits other runs
  · cases none
  · exact (plain.one li fits li' fits').le

/-- A pass that keeps the law was plain. -/
theorem plain_of_pass (same : SameQueues (jq.checkWaiting acquireResources) jq')
    (empty : jq.readyJobs = []) (head : jq.waitingJobs.head? = some first) (best : MovesBest jq jq')
    (mixes : jq'.MixesAllowed) :
    jq.Plain acquireResources first := by
  have ready {li : JobqItem} (fits : li ∈ jq.fitting acquireResources first) :
      ({ li with passed := true } : JobqItem) ∈ jq'.readyJobs := by
    rw [same.2.1, checkWaiting_ready head]
    exact .inr ⟨li, fits, rfl⟩
  have new (je : JobqItem) : je ∉ jq.readyJobs := by
    rw [empty]
    exact List.not_mem_nil
  refine ⟨fun li fits re running => ?_, fun a fitsA b fitsB => ?_,
    fun li fits _ re running passed differ => ?_⟩
  · refine best _ (ready fits) rfl (new _) re (.inl ?_)
    rw [same.2.2, checkWaiting_running]
    exact running
  · have below : a.jcr.jobPriority ≤ b.jcr.jobPriority :=
      best _ (ready fitsA) rfl (new _) { b with passed := true } (.inr (ready fitsB))
    have above : b.jcr.jobPriority ≤ a.jcr.jobPriority :=
      best _ (ready fitsB) rfl (new _) { a with passed := true } (.inr (ready fitsA))
    exact le_antisymm below above
  · have activeLi : jq'.Active { li with passed := true } := ⟨.inr (ready fits), rfl⟩
    have activeRe : jq'.Active re := by
      refine ⟨.inl ?_, passed⟩
      rw [same.2.2, checkWaiting_running]
      exact running
    have all := mixes re { li with passed := true } activeRe activeLi differ
    exact ⟨all { li with passed := true } activeLi, all re activeRe⟩

/-- A pass keeps the law exactly when it is plain. -/
theorem pass_keeps (same : SameQueues (jq.checkWaiting acquireResources) jq')
    (empty : jq.readyJobs = []) (priorities : jq.Priorities) :
    (∀ je ∈ jq'.waitingJobs, je.passed = false) ∧ (Lawful jq jq' ↔
      ∀ first, jq.waitingJobs.head? = some first → jq.Plain acquireResources first) := by
  refine ⟨fun je member => ?_, ?_⟩
  · rw [same.1] at member
    exact priorities.waiting je ((checkWaiting_waiting jq acquireResources).subset member)
  · unfold Lawful
    cases head : jq.waitingJobs.head? with
    | none =>
        rw [checkWaiting_none head] at same
        have law := same.shrinks.keeps priorities
        exact ⟨fun _ _ none => absurd none (by simp), fun _ => ⟨law.2, law.1.mixes⟩⟩
    | some first =>
        constructor
        · rintro ⟨best, mixes⟩ other here
          obtain rfl := Option.some_inj.mp here
          exact plain_of_pass same empty head best mixes
        · intro plain
          exact ⟨pass_best same empty head (plain first rfl),
            pass_mixes same empty head (plain first rfl) priorities.mixes⟩

end OnePass

end Queues

section Steps

variable {jq : Jobq}

theorem startServer_queues (jq : Jobq) (stat : ℤ) : SameQueues jq (jq.startServer stat).2 := by
  unfold startServer
  split
  · exact ⟨rfl, rfl, rfl⟩
  · split
    · split <;> exact ⟨rfl, rfl, rfl⟩
    · exact ⟨rfl, rfl, rfl⟩

theorem setPlace_queues (jq : Jobq) (i : ℕ) (worker : Worker) :
    SameQueues jq (jq.setPlace i worker) := ⟨rfl, rfl, rfl⟩

theorem exit_queues (jq : Jobq) (i : ℕ) (timedout : Bool) : SameQueues jq (jq.exit i timedout) :=
  ⟨rfl, rfl, rfl⟩

/-- What starts a thread keeps the jobs that it has. -/
theorem Shrinks.startServer {jq' : Jobq} (shrinks : Shrinks jq jq') (stat : ℤ) :
    Shrinks jq (jq'.startServer stat).2 := by
  obtain ⟨waiting, ready, running⟩ := startServer_queues jq' stat
  refine ⟨?_, ?_, ?_⟩
  · rw [waiting]
    exact shrinks.waiting
  · rw [ready]
    exact shrinks.ready
  · rw [running]
    exact shrinks.running

theorem jobqAdd_shrinks (jq : Jobq) (job : Handed) (env : AddEnv) :
    Shrinks jq (jq.jobqAdd job env).2 := by
  unfold jobqAdd
  split
  · exact SameQueues.shrinks ⟨rfl, rfl, rfl⟩
  · split
    · split <;> exact SameQueues.shrinks ⟨rfl, rfl, rfl⟩
    · dsimp only
      split
      · refine Shrinks.startServer ?_ _
        refine ⟨fun je => .inl, fun je member => ?_, fun je => .inl⟩
        rcases List.mem_cons.mp member with rfl | old
        · exact .inr (.inr rfl)
        · exact .inl old
      · refine Shrinks.startServer ?_ _
        refine ⟨fun je member => ?_, fun je => .inl, fun je => .inl⟩
        rcases List.mem_cons.mp ((insertWaiting_perm _ _).mem_iff.mp member) with rfl | old
        · exact .inr rfl
        · exact .inl old

theorem handOver_shrinks (jq : Jobq) (jcr : JCR) (env : AddEnv) :
    Shrinks jq (jq.handOver jcr env) := by
  obtain ⟨waiting, ready, running⟩ := jobqAdd_shrinks
    { jq with handed := jq.handed ++ [⟨jq.handed.length, jcr⟩] } ⟨jq.handed.length, jcr⟩ env
  exact ⟨waiting, ready, running⟩

theorem jobqRemove_shrinks (jq : Jobq) (jcr : JCR) (stat : ℤ) :
    Shrinks jq (jq.jobqRemove jcr stat).2 := by
  unfold jobqRemove
  split
  · exact SameQueues.shrinks ⟨rfl, rfl, rfl⟩
  · split
    · exact SameQueues.shrinks ⟨rfl, rfl, rfl⟩
    · rename_i item found
      refine Shrinks.startServer ?_ _
      refine ⟨fun je member => .inl (List.mem_of_mem_erase member), fun je member => ?_,
        fun je => .inl⟩
      rcases List.mem_cons.mp member with rfl | old
      · exact .inr (.inl (List.mem_of_find?_eq_some found))
      · exact .inl old

/-- A ready job that a worker takes is running, or in no list. -/
theorem take_shrinks {jq jq' : Jobq} {je : JobqItem} {ready : List JobqItem}
    (readyJobs : jq.readyJobs = je :: ready)
    (same : SameQueues { jq with readyJobs := ready } jq') :
    Shrinks jq jq' ∧ Shrinks jq { jq' with
      runningJobs := jq'.runningJobs ++ [je]
      engineCalls := jq'.engineCalls ++ [je.toHanded] } := by
  obtain ⟨waiting, rest, running⟩ := same
  have old : ∀ other ∈ jq'.readyJobs, other ∈ jq.readyJobs := fun other member => by
    rw [rest] at member
    rw [readyJobs]
    exact List.mem_cons_of_mem _ member
  refine ⟨⟨fun other member => .inl (waiting ▸ member), fun other member => .inl (old other member),
    fun other member => .inl (running ▸ member)⟩, fun other member => .inl (waiting ▸ member),
    fun other member => .inl (old other member), fun other member => ?_⟩
  rcases List.mem_append.mp member with runs | taken
  · exact .inl (running ▸ runs)
  · rw [readyJobs, List.mem_singleton.mp taken]
    exact .inr (List.mem_cons_self ..)

/-- A worker takes a ready job, or goes through the waiting queue when no job is ready. -/
theorem serve_cases (jq : Jobq) (i : ℕ) (timedout : Bool) (stat : ℤ)
    (acquireResources : JobqItem → Bool) :
    ((jq.readyJobs = [] → jq.quit = true) ∧ Shrinks jq (jq.serve i timedout stat acquireResources)) ∨
      (jq.readyJobs = [] ∧ jq.quit = false ∧ SameQueues (jq.checkWaiting acquireResources)
        (jq.serve i timedout stat acquireResources)) := by
  unfold serve
  split
  · rename_i je ready readyJobs quit
    refine .inl ⟨fun empty => absurd empty (by rw [readyJobs]; exact List.cons_ne_nil _ _), ?_⟩
    cases ready with
    | nil =>
        have same : SameQueues { jq with readyJobs := [] } { jq with readyJobs := [] } :=
          ⟨rfl, rfl, rfl⟩
        obtain ⟨waiting, rest, running⟩ := (take_shrinks readyJobs same).2
        exact ⟨waiting, rest, running⟩
    | cons next ready =>
        obtain ⟨lost, taken⟩ := take_shrinks readyJobs
          (startServer_queues { jq with readyJobs := next :: ready } stat)
        dsimp only [List.isEmpty_cons]
        rw [if_neg Bool.false_ne_true]
        split
        · obtain ⟨waiting, rest, running⟩ := lost
          exact ⟨waiting, rest, running⟩
        · obtain ⟨waiting, rest, running⟩ := taken
          exact ⟨waiting, rest, running⟩
  · rename_i quit notTaken
    dsimp only
    cases quits : jq.quit with
    | true =>
        refine .inl ⟨fun _ => rfl, ?_⟩
        rw [if_pos rfl]
        split_ifs <;> exact SameQueues.shrinks ⟨rfl, rfl, rfl⟩
    | false =>
        right
        have empty : jq.readyJobs = [] := by
          cases ready : jq.readyJobs with
          | nil => rfl
          | cons je rest => exact absurd quits (notTaken je rest ready)
        refine ⟨empty, rfl, ?_⟩
        rw [if_neg Bool.false_ne_true]
        split_ifs <;> exact ⟨rfl, rfl, rfl⟩

/-- The jobs of a step that go on waiting, and when the step keeps the law. -/
structure Keeps (jq : Jobq) (action : Action) (jq' : Jobq) : Prop where
  waiting : ∀ je ∈ jq'.waitingJobs, je.passed = false
  lawful : Lawful jq jq' ↔ jq.PassesPlain action

/-- An action that makes no waiting job ready in a pass. -/
theorem Shrinks.kept {jq' : Jobq} {action : Action} (shrinks : Shrinks jq jq')
    (priorities : jq.Priorities)
    (noPass : ∀ acquireResources, action.resources = some acquireResources → jq.readyJobs = [] →
      jq.quit = false → jq.waitingJobs = []) : Keeps jq action jq' := by
  obtain ⟨after, best⟩ := shrinks.keeps priorities
  refine ⟨after.waiting, fun _ acquireResources passes empty goesOn first head => ?_,
    fun _ => ⟨best, after.mixes⟩⟩
  rw [noPass acquireResources passes empty goesOn] at head
  cases head

theorem Shrinks.kept_noPass {jq' : Jobq} {action : Action} (shrinks : Shrinks jq jq')
    (priorities : jq.Priorities) (none : action.resources = none) : Keeps jq action jq' := by
  refine shrinks.kept priorities fun _ some => ?_
  rw [none] at some
  cases some

theorem serve_keeps {action : Action} {acquireResources : JobqItem → Bool}
    (passes : action.resources = some acquireResources) (priorities : jq.Priorities) (i : ℕ)
    (timedout : Bool) (stat : ℤ) : Keeps jq action (jq.serve i timedout stat acquireResources) := by
  rcases serve_cases jq i timedout stat acquireResources with ⟨quits, shrinks⟩ | ⟨empty, goesOn, same⟩
  · refine shrinks.kept priorities fun _ _ empty goesOn => ?_
    rw [quits empty] at goesOn
    cases goesOn
  · obtain ⟨waiting, lawful⟩ := pass_keeps same empty priorities
    refine ⟨waiting, lawful.trans ⟨fun plain other resources _ _ => ?_, fun plain => ?_⟩⟩
    · rw [passes] at resources
      obtain rfl := Option.some_inj.mp resources
      exact plain
    · exact plain acquireResources passes empty goesOn

/-- A step keeps the law exactly when it is no pass, or a plain one. -/
theorem Priorities.step {jq jq' : Jobq} {action : Action} (priorities : jq.Priorities)
    (step : Step jq action jq') : Keeps jq action jq' := by
  unfold Step Jobq.step at step
  cases action with
  | add jcr env =>
      exact Option.some.inj step ▸ (handOver_shrinks _ _ _).kept_noPass priorities rfl
  | remove jcr stat =>
      exact Option.some.inj step ▸ (jobqRemove_shrinks _ _ _).kept_noPass priorities rfl
  | cancel number =>
      have same : SameQueues jq { jq with canceled := Function.update jq.canceled number true } :=
        ⟨rfl, rfl, rfl⟩
      exact Option.some.inj step ▸ same.shrinks.kept_noPass priorities rfl
  | wake job env =>
      dsimp only at step
      split at step
      · obtain ⟨waiting, ready, running⟩ := jobqAdd_shrinks
          { jq with schedWait := jq.schedWait.erase job } job env
        exact Option.some.inj step ▸ Shrinks.kept_noPass ⟨waiting, ready, running⟩ priorities rfl
      · cases step
  | lock i stat acquireResources =>
      dsimp only at step
      split at step
      · exact Option.some.inj step ▸ serve_keeps rfl priorities _ _ _
      · cases step
  | timedwait i wait stat acquireResources =>
      dsimp only at step
      split at step
      · cases wait with
        | error =>
            exact Option.some.inj step ▸ (exit_queues jq _ _).shrinks.kept_noPass priorities rfl
        | timedout => exact Option.some.inj step ▸ serve_keeps rfl priorities _ _ _
        | zero => exact Option.some.inj step ▸ serve_keeps rfl priorities _ _ _
      · cases step
  | pause i stat acquireResources =>
      dsimp only at step
      split at step
      · split at step
        case isTrue empty =>
          refine Option.some.inj step ▸
            (setPlace_queues jq _ _).shrinks.kept priorities fun _ _ _ _ => ?_
          rw [Bool.and_eq_true, Bool.and_eq_true] at empty
          exact List.isEmpty_iff.mp empty.1.2
        case isFalse => exact Option.some.inj step ▸ serve_keeps rfl priorities _ _ _
      · cases step
  | engine i job =>
      dsimp only at step
      split at step
      · exact Option.some.inj step ▸ Shrinks.kept_noPass ⟨fun je => .inl, fun je => .inl,
          fun je member => .inl (List.mem_of_mem_erase member)⟩ priorities rfl
      · cases step
  | requeue i env =>
      dsimp only at step
      split at step
      · obtain ⟨waiting, ready, running⟩ := handOver_shrinks jq _ env
        exact Option.some.inj step ▸ Shrinks.kept_noPass ⟨waiting, ready, running⟩ priorities rfl
      · cases step
  | runJob i njcr env =>
      dsimp only at step
      split at step
      · obtain ⟨waiting, ready, running⟩ := handOver_shrinks jq _ env
        exact Option.some.inj step ▸ Shrinks.kept_noPass ⟨waiting, ready, running⟩ priorities rfl
      · exact Option.some.inj step ▸ (setPlace_queues jq _ _).shrinks.kept_noPass priorities rfl
      · cases step

end Steps

theorem init_priorities (threads : ℤ) : (init threads).Priorities := by
  refine ⟨fun je member => absurd member List.not_mem_nil, fun a b activeA => ?_⟩
  rcases activeA.1 with member | member <;> cases member

section Plainness

variable {jq : Jobq} {action : Action}

theorem passesPlain_of_noPass (none : action.resources = none) : jq.PassesPlain action := by
  intro _ some
  rw [none] at some
  cases some

theorem passesPlain_of_ready (ready : jq.readyJobs ≠ []) : jq.PassesPlain action :=
  fun _ _ empty => absurd empty ready

theorem passesPlain_of_plain {acquireResources : JobqItem → Bool}
    (passes : action.resources = some acquireResources) {first : JobqItem}
    (head : jq.waitingJobs.head? = some first) (plain : jq.Plain acquireResources first) :
    jq.PassesPlain action := by
  intro other resources _ _
  rw [passes] at resources
  obtain rfl := Option.some_inj.mp resources
  exact plain.of_head head

end Plainness

end Bacula.Jobq
