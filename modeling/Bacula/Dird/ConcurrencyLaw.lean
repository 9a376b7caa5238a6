import Bacula.Dird.Concurrency

/-! The counters are the total of what the jobs hold. -/
namespace Bacula.Concurrency
open Ledger Transition

variable {ω κ θ : Type} [DecidableEq ω] [DecidableEq κ] [DecidableEq θ]

/-- What a job takes of its read storage, and below of the other resources. -/
def JCR.rstoreHold (jcr : JCR ω κ θ) : Counters ω κ θ :=
  match jcr.rstore with
  | none => 0
  | some rstore => unit (.storeReads rstore) + unit (.store rstore)

def JCR.wstoreHold (jcr : JCR ω κ θ) : Counters ω κ θ :=
  match jcr.wstore with
  | none => 0
  | some wstore => unit (.store wstore)

def JCR.clientHold (jcr : JCR ω κ θ) : Counters ω κ θ :=
  match jcr.client with
  | none => 0
  | some client => if jcr.countsClient then unit (.client client) else 0

def JCR.jobHold (jcr : JCR ω κ θ) : Counters ω κ θ := unit (.job jcr.job)

/-- What a job holds besides its read storage. -/
def JCR.restHold (jcr : JCR ω κ θ) : Counters ω κ θ :=
  jcr.wstoreHold + jcr.clientHold + jcr.jobHold

/-- What a job holds. While it selects a read storage it has none. -/
def JobRun.holds (run : JobRun ω κ θ) : Counters ω κ θ :=
  if run.jcr.acquiredResourceLocks then
    (if run.selecting.isSome then 0 else run.jcr.rstoreHold) + run.jcr.restHold
  else 0

/-- The limit that is checked before a counter is incremented. The read jobs of a storage are
counted among its jobs. -/
def Limits.maxConcurrentJobs (limits : Limits ω κ θ) : Counter ω κ θ → Option ℕ
  | .store store => limits.store store
  | .storeReads _ => none
  | .client client => limits.client client
  | .job job => limits.job job

def Limits.Respected (limits : Limits ω κ θ) (c : Counters ω κ θ) : Prop :=
  ∀ r, ∀ max ∈ limits.maxConcurrentJobs r, c r ≤ max

theorem decReadStore_eq (c : Counters ω κ θ) (jcr : JCR ω κ θ) :
    decReadStore c jcr = c - jcr.rstoreHold := by
  unfold decReadStore JCR.rstoreHold
  cases jcr.rstore with
  | none => exact (sub_zero c).symm
  | some rstore =>
      change inc (inc c _ _) _ _ = _
      rw [inc_neg_one, inc_neg_one, sub_sub]

theorem decWriteStore_eq (c : Counters ω κ θ) (jcr : JCR ω κ θ) :
    decWriteStore c jcr = c - jcr.wstoreHold := by
  unfold decWriteStore JCR.wstoreHold
  cases jcr.wstore with
  | none => exact (sub_zero c).symm
  | some wstore => exact inc_neg_one ..

theorem updateClient_one (c : Counters ω κ θ) (jcr : JCR ω κ θ) :
    updateClientNumconcurrentjobs c jcr 1 = c + jcr.clientHold := by
  unfold updateClientNumconcurrentjobs JCR.clientHold
  cases jcr.client with
  | none => exact (add_zero c).symm
  | some client =>
      by_cases counts : jcr.countsClient
      · simp only [counts, if_true, inc_one]
      · simp only [counts, Bool.false_eq_true, if_false, add_zero]

theorem updateClient_neg_one (c : Counters ω κ θ) (jcr : JCR ω κ θ) :
    updateClientNumconcurrentjobs c jcr (-1) = c - jcr.clientHold := by
  unfold updateClientNumconcurrentjobs JCR.clientHold
  cases jcr.client with
  | none => exact (sub_zero c).symm
  | some client =>
      by_cases counts : jcr.countsClient
      · simp only [counts, if_true, inc_neg_one]
      · simp only [counts, Bool.false_eq_true, if_false, sub_zero]

section Acquire

variable {limits : Limits ω κ θ} {c c' : Counters ω κ θ} {jcr : JCR ω κ θ}

/-- A counter that is below its limit is incremented. -/
theorem Limits.Respected.add_unit (respected : limits.Respected c) {r : Counter ω κ θ}
    (below : ∀ max ∈ limits.maxConcurrentJobs r, c r < max) : limits.Respected (c + unit r) := by
  intro r' max isMax
  have before := respected r' max isMax
  rw [Pi.add_apply, unit_apply]
  split
  · next same =>
    subst same
    have := below max isMax
    omega
  · omega

theorem incReadStore_spec {rstore : ω} (taken : incReadStore limits c jcr rstore = some c') :
    c' = c + (unit (.storeReads rstore) + unit (.store rstore)) ∧
      (limits.Respected c → limits.Respected c') := by
  simp only [incReadStore] at taken
  split at taken
  · next fits =>
    obtain rfl := Option.some_inj.mp taken
    rw [inc_one, inc_one, add_assoc]
    refine ⟨rfl, fun respected => ?_⟩
    rw [← add_assoc]
    refine (respected.add_unit (r := .storeReads rstore) fun max isMax => by cases isMax).add_unit
      fun max isMax => ?_
    obtain rfl := Option.some_inj.mp isMax
    rw [Pi.add_apply, unit_apply, if_neg (by simp), add_zero]
    exact fits.1
  · cases taken

/-- What each part of `acquire_resources` does: it takes its share, or gives back the shares that
were taken before. -/
structure Part (limits : Limits ω κ θ) (c before share : Counters ω κ θ)
    (result : Bool × Counters ω κ θ) :
    Prop where
  taken : result.1 = true → result.2 = c + share
  failed : result.1 = false → result.2 = c - before
  respected : result.1 = true → limits.Respected c → limits.Respected result.2

theorem acquireRstore_part : Part limits c 0 jcr.rstoreHold (acquireRstore limits c jcr) := by
  unfold acquireRstore JCR.rstoreHold
  cases jcr.rstore with
  | none => exact ⟨fun _ => (add_zero c).symm, fun h => (nomatch h), fun _ r => r⟩
  | some rstore =>
      cases taken : incReadStore limits c jcr rstore with
      | none =>
          simp only [taken]
          exact ⟨fun h => (nomatch h), fun _ => (sub_zero c).symm, fun h => (nomatch h)⟩
      | some c' =>
          simp only [taken]
          exact ⟨fun _ => (incReadStore_spec taken).1, fun h => (nomatch h),
            fun _ => (incReadStore_spec taken).2⟩

theorem acquireWstore_part :
    Part limits c jcr.rstoreHold jcr.wstoreHold (acquireWstore limits c jcr) := by
  unfold acquireWstore JCR.wstoreHold
  cases jcr.wstore with
  | none => exact ⟨fun _ => (add_zero c).symm, fun h => (nomatch h), fun _ r => r⟩
  | some wstore =>
      by_cases below : c (.store wstore) < limits.store wstore
      · simp only [if_pos below, inc_one]
        refine ⟨fun _ => rfl, fun h => (nomatch h), fun _ respected => respected.add_unit ?_⟩
        intro max isMax
        obtain rfl := Option.some_inj.mp isMax
        exact below
      · simp only [if_neg below]
        refine ⟨fun h => ?_, fun _ => ?_, fun h => ?_⟩
        · split at h <;> cases h
        · split
          · exact decReadStore_eq c jcr
          · next none =>
            rw [Bool.not_eq_true, Option.isSome_eq_false_iff, Option.isNone_iff_eq_none] at none
            rw [JCR.rstoreHold, none]
            exact (sub_zero c).symm
        · split at h <;> cases h

theorem acquireClient_part :
    Part limits c (jcr.wstoreHold + jcr.rstoreHold) jcr.clientHold (acquireClient limits c jcr) := by
  unfold acquireClient
  cases client : jcr.client with
  | none =>
      refine ⟨fun _ => ?_, fun h => (nomatch h), fun _ r => r⟩
      rw [JCR.clientHold, client]
      exact (add_zero c).symm
  | some k =>
      by_cases below : c (.client k) < limits.client k
      · simp only [if_pos below, updateClient_one]
        refine ⟨fun _ => rfl, fun h => (nomatch h), fun _ respected => ?_⟩
        rw [JCR.clientHold, client]
        simp only
        split
        · refine respected.add_unit fun max isMax => ?_
          obtain rfl := Option.some_inj.mp isMax
          exact below
        · rw [add_zero]
          exact respected
      · simp only [if_neg below, decReadStore_eq, decWriteStore_eq]
        exact ⟨fun h => (nomatch h), fun _ => sub_sub .., fun h => (nomatch h)⟩

theorem acquireJob_part :
    Part limits c (jcr.wstoreHold + jcr.rstoreHold + jcr.clientHold) jcr.jobHold
      (acquireJob limits c jcr) := by
  unfold acquireJob
  by_cases below : c (.job jcr.job) < limits.job jcr.job
  · simp only [if_pos below, inc_one]
    refine ⟨fun _ => rfl, fun h => (nomatch h), fun _ respected => respected.add_unit ?_⟩
    intro max isMax
    obtain rfl := Option.some_inj.mp isMax
    exact below
  · simp only [if_neg below, updateClient_neg_one, decReadStore_eq, decWriteStore_eq]
    refine ⟨fun h => (nomatch h), fun _ => ?_, fun h => (nomatch h)⟩
    rw [sub_sub, sub_sub, ← add_assoc]

/-- All resources are taken, or none. -/
theorem acquireLocks_spec {failed : Option JobStatus}
    (result : acquireLocks limits c jcr = (failed, c')) :
    (failed = none → c' = c + (jcr.rstoreHold + jcr.restHold)) ∧ (failed ≠ none → c' = c) ∧
      (limits.Respected c → limits.Respected c') := by
  have backOut {c' : Counters ω κ θ} (same : c' = c) {status : JobStatus} :
      (some status = none → c' = c + (jcr.rstoreHold + jcr.restHold)) ∧
        (some status ≠ none → c' = c) ∧ (limits.Respected c → limits.Respected c') :=
    ⟨fun h => (nomatch h), fun _ => same, fun respected => same ▸ respected⟩
  unfold acquireLocks at result
  have rstore : Part limits c 0 jcr.rstoreHold _ := acquireRstore_part
  generalize acquireRstore limits c jcr = first at result rstore
  obtain ⟨_ | _, c₁⟩ := first
  · cases result
    exact backOut ((rstore.failed rfl).trans (sub_zero c))
  have is₁ : c₁ = c + jcr.rstoreHold := rstore.taken rfl
  have wstore : Part limits c₁ jcr.rstoreHold jcr.wstoreHold _ := acquireWstore_part
  simp only at result
  generalize acquireWstore limits c₁ jcr = second at result wstore
  obtain ⟨_ | _, c₂⟩ := second
  · cases result
    refine backOut ((wstore.failed rfl).trans ?_)
    rw [is₁, add_sub_cancel_right]
  have is₂ : c₂ = c₁ + jcr.wstoreHold := wstore.taken rfl
  have client : Part limits c₂ (jcr.wstoreHold + jcr.rstoreHold) jcr.clientHold _ :=
    acquireClient_part
  simp only at result
  generalize acquireClient limits c₂ jcr = third at result client
  obtain ⟨_ | _, c₃⟩ := third
  · cases result
    refine backOut ((client.failed rfl).trans ?_)
    rw [is₂, is₁]
    abel
  have is₃ : c₃ = c₂ + jcr.clientHold := client.taken rfl
  have job : Part limits c₃ (jcr.wstoreHold + jcr.rstoreHold + jcr.clientHold) jcr.jobHold _ :=
    acquireJob_part
  simp only at result
  generalize acquireJob limits c₃ jcr = fourth at result job
  obtain ⟨_ | _, c₄⟩ := fourth
  · cases result
    refine backOut ((job.failed rfl).trans ?_)
    rw [is₃, is₂, is₁]
    abel
  cases result
  have is₄ : c' = c₃ + jcr.jobHold := job.taken rfl
  refine ⟨fun _ => ?_, fun h => absurd rfl h, fun respected => ?_⟩
  · rw [is₄, is₃, is₂, is₁, JCR.restHold]
    abel
  · exact job.respected rfl (client.respected rfl (wstore.respected rfl
      (rstore.respected rfl respected)))

/-- `acquire_resources` leaves the counters as they were, or gives the job all that it holds. -/
theorem acquireResources_spec {ok : Bool} {jcr' : JCR ω κ θ}
    (result : acquireResources limits c jcr = (ok, c', jcr')) :
    c' = c + JobRun.holds ⟨jcr', none⟩ ∧ (ok = false → c' = c) ∧
      (limits.Respected c → limits.Respected c') := by
  unfold acquireResources at result
  rcases locks : acquireLocks limits c (jcr.setLocks false) with ⟨_ | status, c₁⟩
  · obtain ⟨taken, -, respected⟩ := acquireLocks_spec locks
    rw [locks] at result
    cases result
    exact ⟨taken rfl, fun h => (nomatch h), respected⟩
  · obtain ⟨-, same, respected⟩ := acquireLocks_spec locks
    rw [locks] at result
    cases result
    have same := same (by simp)
    exact ⟨same.trans (add_zero c).symm, fun _ => same, respected⟩

theorem releaseLocks_eq (c : Counters ω κ θ) (jcr : JCR ω κ θ) :
    (releaseLocks c jcr).1 = c - JobRun.holds ⟨jcr, none⟩ ∧
      (releaseLocks c jcr).2.acquiredResourceLocks = false := by
  unfold releaseLocks JobRun.holds
  by_cases locks : jcr.acquiredResourceLocks
  · simp only [locks, if_true, inc_neg_one, updateClient_neg_one, decWriteStore_eq, decReadStore_eq]
    refine ⟨?_, rfl⟩
    rw [JCR.restHold, JCR.jobHold, Option.isSome_none, if_neg Bool.false_ne_true]
    abel
  · simp only [locks, Bool.false_eq_true, if_false]
    exact ⟨(sub_zero c).symm, trivial⟩

theorem rstoreHold_nonneg (jcr : JCR ω κ θ) : 0 ≤ jcr.rstoreHold := by
  unfold JCR.rstoreHold
  cases jcr.rstore with
  | none => exact le_refl _
  | some rstore => exact add_nonneg (unit_nonneg _) (unit_nonneg _)

theorem holds_nonneg (run : JobRun ω κ θ) : 0 ≤ run.holds := by
  have wstore : 0 ≤ run.jcr.wstoreHold := by
    unfold JCR.wstoreHold
    split
    · exact le_refl _
    · exact unit_nonneg _
  have client : 0 ≤ run.jcr.clientHold := by
    unfold JCR.clientHold
    split
    · exact le_refl _
    · split
      · exact unit_nonneg _
      · exact le_refl _
  have rest : 0 ≤ run.jcr.restHold := add_nonneg (add_nonneg wstore client) (unit_nonneg _)
  unfold JobRun.holds
  split
  · refine add_nonneg ?_ rest
    split
    · exact le_refl _
    · exact rstoreHold_nonneg _
  · exact le_refl _

omit [DecidableEq ω] [DecidableEq κ] [DecidableEq θ] in
/-- Counters that go down stay within their limits. -/
theorem Limits.Respected.sub (respected : limits.Respected c) {x : Counters ω κ θ} (nonneg : 0 ≤ x) :
    limits.Respected (c - x) := by
  intro r max isMax
  have before := respected r max isMax
  have := nonneg r
  rw [Pi.sub_apply]
  simp only [Pi.zero_apply] at this
  omega

end Acquire

/-- The accounting law: the counters are the total of what the jobs hold, and within their limits.
Only a job with its locks selects a storage. -/
structure Balanced (limits : Limits ω κ θ) (s : State ω κ θ) : Prop where
  counters : s.counters = total JobRun.holds s.jobs
  respected : limits.Respected s.counters
  selecting : ∀ run ∈ s.jobs, run.selecting.isSome → run.jcr.acquiredResourceLocks = true

section Step

variable {limits : Limits ω κ θ} {s s' : State ω κ θ}

theorem Balanced.start : Balanced limits (Concurrency.start : State ω κ θ) where
  counters := rfl
  respected _ max _ := Int.natCast_nonneg max
  selecting _ none := absurd none List.not_mem_nil

/-- A step of one job. -/
theorem Balanced.set (balanced : Balanced limits s) {i : ℕ} {old run : JobRun ω κ θ}
    {c : Counters ω κ θ} (here : s.jobs[i]? = some old)
    (counters : c = s.counters - old.holds + run.holds) (respected : limits.Respected c)
    (selecting : run.selecting.isSome → run.jcr.acquiredResourceLocks = true) :
    Balanced limits (s.set i c run) where
  counters := by
    rw [counters, balanced.counters]
    exact (total_set here run).symm
  respected := respected
  selecting other member := by
    rcases List.mem_or_eq_of_mem_set member with old | rfl
    · exact balanced.selecting other old
    · exact selecting

theorem holds_idle {jcr : JCR ω κ θ} {selecting : Option ℕ}
    (idle : jcr.acquiredResourceLocks = false) : JobRun.holds ⟨jcr, selecting⟩ = 0 :=
  if_neg (by rw [idle]; exact Bool.false_ne_true)

/-- A step that changes nothing that counts. -/
theorem Balanced.keep (balanced : Balanced limits s) {i : ℕ} {old run : JobRun ω κ θ}
    (here : s.jobs[i]? = some old) (same : run.holds = old.holds)
    (selecting : run.selecting.isSome → run.jcr.acquiredResourceLocks = true) :
    Balanced limits (s.set i s.counters run) :=
  balanced.set here (by rw [same, sub_add_cancel]) balanced.respected selecting

theorem Balanced.selectRstore (balanced : Balanced limits s) {i : ℕ} {jcr : JCR ω κ θ}
    (here : s.jobs[i]? = some ⟨jcr, none⟩) (locks : jcr.acquiredResourceLocks = true) (rstore : ω)
    (store : Option ω) :
    Balanced limits (s.set i (selectRstore s.counters jcr rstore store).1
      (selectRstore s.counters jcr rstore store).2) := by
  cases store with
  | none => exact balanced.keep here rfl fun h => (nomatch h)
  | some store =>
      unfold Concurrency.selectRstore
      by_cases same : rstore = store
      · simp only [if_pos same]
        exact balanced.keep here rfl fun h => (nomatch h)
      · simp only [if_neg same, decReadStore_eq]
        refine balanced.set here ?_ (balanced.respected.sub (rstoreHold_nonneg jcr)) fun _ => locks
        -- the job keeps all but the read storage
        have old : JobRun.holds ⟨jcr, none⟩ = jcr.rstoreHold + jcr.restHold := if_pos locks
        have new : JobRun.holds
            ⟨{ jcr with rstore := some store, jobStatus := .waitSD }, some 0⟩ = jcr.restHold :=
          (if_pos locks).trans (zero_add _)
        rw [old, new]
        abel

theorem Balanced.tryRstore (balanced : Balanced limits s) {i : ℕ} {jcr : JCR ω κ θ}
    {rstore : ω} {tries : ℕ} (here : s.jobs[i]? = some ⟨jcr, some tries⟩)
    (reads : jcr.rstore = some rstore) (canceled : Bool) :
    Balanced limits (s.set i (tryRstore limits s.counters jcr rstore tries canceled).1
      (tryRstore limits s.counters jcr rstore tries canceled).2) := by
  have locks : jcr.acquiredResourceLocks = true :=
    balanced.selecting _ (List.mem_of_getElem? here) rfl
  have old : JobRun.holds ⟨jcr, some tries⟩ = jcr.restHold := (if_pos locks).trans (zero_add _)
  have gone : JobRun.holds ⟨{ jcr with rstore := none }, none⟩ = jcr.restHold :=
    (if_pos locks).trans (zero_add _)
  unfold Concurrency.tryRstore
  cases taken : incReadStore limits s.counters jcr rstore with
  | some c =>
      obtain ⟨is, respected⟩ := incReadStore_spec taken
      refine balanced.set here ?_ (respected balanced.respected) fun h => (nomatch h)
      have new : JobRun.holds ⟨{ jcr with jobStatus := .running }, none⟩ =
          unit (.storeReads rstore) + unit (.store rstore) + jcr.restHold := by
        refine (if_pos locks).trans ?_
        rw [JCR.rstoreHold, reads]
        rfl
      rw [old, new]
      change c = _
      rw [is]
      abel
  | none =>
      cases canceled with
      | true => exact balanced.keep here (gone.trans old.symm) fun h => (nomatch h)
      | false =>
          by_cases more : tries + 1 < MAX_TRIES
          · simp only [if_pos more]
            exact balanced.keep here rfl fun _ => locks
          · simp only [if_neg more]
            exact balanced.keep here (gone.trans old.symm) fun h => (nomatch h)

theorem Balanced.step (balanced : Balanced limits s) {action : Action ω κ θ}
    (taken : Step limits s action s') : Balanced limits s' := by
  unfold Step at taken
  cases action with
  | create jcr =>
      obtain rfl := Option.some_inj.mp taken
      refine ⟨?_, balanced.respected, fun run member => ?_⟩
      · rw [total_append, balanced.counters, total_cons, total_nil, holds_idle rfl, add_zero,
          add_zero]
      · rcases List.mem_append.mp member with old | new
        · exact balanced.selecting run old
        · rw [List.mem_singleton.mp new]
          exact fun h => (nomatch h)
  | setup i jcr =>
      simp only [Concurrency.step] at taken
      split at taken
      · next old here =>
        split at taken
        · cases taken
        · next idle =>
          obtain rfl := Option.some_inj.mp taken
          refine balanced.keep here ?_ fun h => (nomatch h)
          rw [holds_idle rfl, holds_idle (Bool.eq_false_iff.mpr idle)]
      · cases taken
  | acquire i =>
      simp only [Concurrency.step] at taken
      split at taken
      · next jcr here =>
        split at taken
        · cases taken
        · next idle =>
          rcases result : acquireResources limits s.counters jcr with ⟨ok, c', jcr'⟩
          obtain ⟨counters, -, respected⟩ := acquireResources_spec result
          rw [result] at taken
          obtain rfl := Option.some_inj.mp taken
          refine balanced.set here ?_ (respected balanced.respected) fun h => (nomatch h)
          rw [holds_idle (Bool.eq_false_iff.mpr idle), sub_zero]
          exact counters
      · cases taken
  | terminate i =>
      simp only [Concurrency.step] at taken
      split at taken
      · next jcr here =>
        obtain rfl := Option.some_inj.mp taken
        obtain ⟨counters, idle⟩ := releaseLocks_eq s.counters jcr
        refine balanced.set here ?_ ?_ fun h => (nomatch h)
        · rw [holds_idle idle, add_zero]
          exact counters
        · rw [counters]
          exact balanced.respected.sub (holds_nonneg _)
      · cases taken
  | vbackup i =>
      simp only [Concurrency.step] at taken
      split at taken
      · next jcr here =>
        split at taken
        · next virtual =>
          obtain rfl := Option.some_inj.mp taken
          refine balanced.keep here ?_ fun h => (nomatch h)
          -- a virtual full job is not counted at its client before, either
          have client : JCR.clientHold { jcr with wasVirtualFull := true } = jcr.clientHold := by
            have noClient : jcr.noClientUsed = true := decide_eq_true virtual.2
            have counts : JCR.countsClient { jcr with wasVirtualFull := true } =
                jcr.countsClient := by
              unfold JCR.countsClient
              simp only [noClient, Bool.or_true, Bool.true_or]
            rw [JCR.clientHold, counts]
            rfl
          have held (jcr : JCR ω κ θ) (locks : jcr.acquiredResourceLocks = true) :
              JobRun.holds ⟨jcr, none⟩ = jcr.rstoreHold + (jcr.wstoreHold + jcr.clientHold +
                jcr.jobHold) := if_pos locks
          rw [held jcr virtual.1, held { jcr with wasVirtualFull := true } virtual.1, client]
          rfl
        · cases taken
      · cases taken
  | selectRstore i store =>
      simp only [Concurrency.step] at taken
      split at taken
      · next jcr here =>
        split at taken
        · next locks =>
          split at taken
          · next rstore _ =>
            obtain rfl := Option.some_inj.mp taken
            exact balanced.selectRstore here locks rstore store
          · cases taken
        · cases taken
      · cases taken
  | tryRstore i canceled =>
      simp only [Concurrency.step] at taken
      split at taken
      · next jcr tries here =>
        split at taken
        · next rstore reads =>
          obtain rfl := Option.some_inj.mp taken
          exact balanced.tryRstore here reads canceled
        · cases taken
      · cases taken

end Step

/-- A job that reads a storage, and below one that writes it, is counted at a client and runs a
job resource, each with its locks. A job that waits in `select_rstore` has no read storage. -/
def JobRun.reads (store : ω) (run : JobRun ω κ θ) : Bool :=
  run.jcr.acquiredResourceLocks && run.selecting.isNone && (run.jcr.rstore = some store)

def JobRun.writes (store : ω) (run : JobRun ω κ θ) : Bool :=
  run.jcr.acquiredResourceLocks && (run.jcr.wstore = some store)

def JobRun.usesClient (client : κ) (run : JobRun ω κ θ) : Bool :=
  run.jcr.acquiredResourceLocks && run.jcr.countsClient && (run.jcr.client = some client)

def JobRun.runs (job : θ) (run : JobRun ω κ θ) : Bool :=
  run.jcr.acquiredResourceLocks && (run.jcr.job = job)

/-- Every counter is the number of holders, and within its limit. -/
structure Accounted (limits : Limits ω κ θ) (s : State ω κ θ) : Prop where
  store : ∀ store, s.counters (.store store) =
    s.jobs.countP (JobRun.reads store) + s.jobs.countP (JobRun.writes store)
  storeReads : ∀ store, s.counters (.storeReads store) = s.jobs.countP (JobRun.reads store)
  client : ∀ client, s.counters (.client client) = s.jobs.countP (JobRun.usesClient client)
  job : ∀ job, s.counters (.job job) = s.jobs.countP (JobRun.runs job)
  storeLimit : ∀ store, s.counters (.store store) ≤ limits.store store
  storeReadsLimit : ∀ store, s.counters (.storeReads store) ≤ limits.store store
  clientLimit : ∀ client, s.counters (.client client) ≤ limits.client client
  jobLimit : ∀ job, s.counters (.job job) ≤ limits.job job
  nonneg : ∀ r, 0 ≤ s.counters r

section Counting

variable (jcr : JCR ω κ θ) (run : JobRun ω κ θ)

theorem rstoreHold_apply (r : Counter ω κ θ) : jcr.rstoreHold r =
    match r with
    | .store store | .storeReads store => if jcr.rstore = some store then 1 else 0
    | _ => 0 := by
  unfold JCR.rstoreHold
  cases jcr.rstore with
  | none => cases r <;> rfl
  | some rstore => cases r <;> simp [unit_apply, eq_comm]

theorem wstoreHold_apply (r : Counter ω κ θ) : jcr.wstoreHold r =
    match r with
    | .store store => if jcr.wstore = some store then 1 else 0
    | _ => 0 := by
  unfold JCR.wstoreHold
  cases jcr.wstore with
  | none => cases r <;> rfl
  | some wstore => cases r <;> simp [unit_apply, eq_comm]

theorem clientHold_apply (r : Counter ω κ θ) : jcr.clientHold r =
    match r with
    | .client client => if jcr.countsClient = true ∧ jcr.client = some client then 1 else 0
    | _ => 0 := by
  unfold JCR.clientHold
  cases jcr.client with
  | none => cases r <;> simp
  | some client => cases counts : jcr.countsClient <;> cases r <;> simp [unit_apply, eq_comm]

theorem jobHold_apply (r : Counter ω κ θ) : jcr.jobHold r =
    match r with
    | .job job => if jcr.job = job then 1 else 0
    | _ => 0 := by
  unfold JCR.jobHold
  cases r <;> simp [unit_apply, eq_comm]

theorem holds_apply (r : Counter ω κ θ) : run.holds r =
    if run.jcr.acquiredResourceLocks then
      (if run.selecting.isSome then 0 else run.jcr.rstoreHold r) +
        (run.jcr.wstoreHold r + run.jcr.clientHold r + run.jcr.jobHold r)
    else 0 := by
  unfold JobRun.holds JCR.restHold
  split
  · split <;> rfl
  · rfl

theorem holds_storeReads (store : ω) :
    run.holds (.storeReads store) = if run.reads store then 1 else 0 := by
  rw [holds_apply, rstoreHold_apply, wstoreHold_apply, clientHold_apply, jobHold_apply]
  unfold JobRun.reads
  cases run.jcr.acquiredResourceLocks <;> cases run.selecting <;> simp

theorem holds_store (store : ω) : run.holds (.store store) =
    (if run.reads store then 1 else 0) + if run.writes store then 1 else 0 := by
  rw [holds_apply, rstoreHold_apply, wstoreHold_apply, clientHold_apply, jobHold_apply]
  unfold JobRun.reads JobRun.writes
  cases run.jcr.acquiredResourceLocks <;> cases run.selecting <;> simp

theorem holds_client (client : κ) :
    run.holds (.client client) = if run.usesClient client then 1 else 0 := by
  rw [holds_apply, rstoreHold_apply, wstoreHold_apply, clientHold_apply, jobHold_apply]
  unfold JobRun.usesClient
  cases run.jcr.acquiredResourceLocks <;> cases run.selecting <;> simp

theorem holds_job (job : θ) : run.holds (.job job) = if run.runs job then 1 else 0 := by
  rw [holds_apply, rstoreHold_apply, wstoreHold_apply, clientHold_apply, jobHold_apply]
  unfold JobRun.runs
  cases run.jcr.acquiredResourceLocks <;> cases run.selecting <;> simp

end Counting

theorem Balanced.accounted {limits : Limits ω κ θ} {s : State ω κ θ}
    (balanced : Balanced limits s) : Accounted limits s := by
  have storeReads (store : ω) : s.counters (.storeReads store) =
      s.jobs.countP (JobRun.reads store) := by
    rw [balanced.counters]
    exact total_eq_countP (fun run => holds_storeReads run store) s.jobs
  have store (store : ω) : s.counters (.store store) =
      s.jobs.countP (JobRun.reads store) + s.jobs.countP (JobRun.writes store) := by
    rw [balanced.counters]
    generalize s.jobs = jobs
    induction jobs with
    | nil => rfl
    | cons run rest ih =>
        rw [total_cons, Pi.add_apply, ih, holds_store, List.countP_cons, List.countP_cons]
        push_cast
        ring
  refine ⟨store, storeReads, fun client => ?_, fun job => ?_, fun store' => ?_, fun store' => ?_,
    fun client => ?_, fun job => ?_, fun r => ?_⟩
  · rw [balanced.counters]
    exact total_eq_countP (fun run => holds_client run client) s.jobs
  · rw [balanced.counters]
    exact total_eq_countP (fun run => holds_job run job) s.jobs
  · exact balanced.respected (.store store') _ rfl
  · have within := balanced.respected (.store store') _ rfl
    rw [store] at within
    rw [storeReads]
    omega
  · exact balanced.respected (.client client) _ rfl
  · exact balanced.respected (.job job) _ rfl
  · rw [balanced.counters]
    exact total_nonneg (fun run => holds_nonneg run r) s.jobs

/-- In every state of every run each counter is the number of holders, within its limit, and a
failed `acquire_resources` leaves the counters as they were. -/
theorem run_accounted (limits : Limits ω κ θ) {actions : List (Action ω κ θ)} {s : State ω κ θ}
    (run : Run (Step limits) start actions s) :
    Accounted limits s ∧ ∀ jcr, (acquireResources limits s.counters jcr).1 = false →
      (acquireResources limits s.counters jcr).2.1 = s.counters := by
  have balanced : Balanced limits s :=
    run.invariant (fun _ _ _ balanced taken => balanced.step taken) .start
  refine ⟨balanced.accounted, fun jcr failed => ?_⟩
  exact (acquireResources_spec rfl).2.1 failed

/-- Two jobs on one storage, which the second one both reads and writes. It fails for want of a
third place, and the first one ends. -/
theorem run_accounted_two :
    let limits : Limits Unit Unit Unit := ⟨fun _ => 2, fun _ => 0, fun _ => 5, fun _ => 5⟩
    let backup : JCR Unit Unit Unit :=
      ⟨(), some (), none, some (), .backup, .full, false, false, .created⟩
    let copy : JCR Unit Unit Unit := ⟨(), none, some (), some (), .copy, .full, false, false, .created⟩
    ∃ s, Run (Step limits) start
        [.create backup, .create copy, .acquire 0, .acquire 1, .terminate 0] s ∧
      Accounted limits s := by
  intro limits backup copy
  obtain ⟨s, run⟩ : ∃ s, Run (Step limits) start
      [.create backup, .create copy, .acquire 0, .acquire 1, .terminate 0] s := by
    refine ⟨?last, ?run⟩
    case run =>
      refine .cons rfl ?_
      refine .cons rfl ?_
      refine .cons rfl ?_
      refine .cons rfl ?_
      refine .cons rfl ?_
      exact .nil _
  exact ⟨s, run, (run_accounted limits run).1⟩

end Bacula.Concurrency
