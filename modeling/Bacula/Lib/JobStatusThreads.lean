import Bacula.Lib.JobStatus
import Bacula.Library.Transition

/-! `JCR::setJobStatus` in several threads: the status is read before the lock is taken. -/
namespace Bacula.JobStatus
open Transition

/-- The section under `status_lock`, with the status that was read before it. -/
def underLock (status old new : Status) : Status :=
  if getStatusPriority new > getStatusPriority old ∨
      (getStatusPriority new = 0 ∧ getStatusPriority old = 0) then new
  else status

/-- The job, and the calls between their two steps: what they have read, and what they set. -/
structure Job (ι : Type) where
  jobStatus : Status
  calls : ι → Option (Status × Status)

inductive Act (ι : Type) where
  | read (thread : ι) (newJobStatus : Status)
  | locked (thread : ι)

variable {ι : Type} [DecidableEq ι]

inductive Step : Job ι → Act ι → Job ι → Prop where
  | read {j : Job ι} {t : ι} (new : Status) (outside : j.calls t = none) :
      Step j (.read t new) { j with calls := Function.update j.calls t (some (j.jobStatus, new)) }
  | locked {j : Job ι} {t : ι} {old new : Status} (called : j.calls t = some (old, new)) :
      Step j (.locked t)
        { jobStatus := underLock j.jobStatus old new, calls := Function.update j.calls t none }

/-- A status of a priority above 0 is only replaced by one of a higher priority. -/
def Kept (status later : Status) : Prop :=
  getStatusPriority status = 0 ∨ later = status ∨
    getStatusPriority status < getStatusPriority later

/-- The new status ranks above the one that was read, or both have priority 0. But what another
thread has set since then is another status of at least the new one's priority. -/
def Overtaken (status old new : Status) : Prop :=
  (getStatusPriority old < getStatusPriority new ∨
      (getStatusPriority new = 0 ∧ getStatusPriority old = 0)) ∧
    getStatusPriority status ≠ 0 ∧ getStatusPriority new ≤ getStatusPriority status ∧ new ≠ status

/-- A thread that gets the lock was not overtaken. -/
def InTime (j : Job ι) : Act ι → Prop
  | .read _ _ => True
  | .locked t => ∀ old new, j.calls t = some (old, new) → ¬ Overtaken j.jobStatus old new

theorem Kept.refl (status : Status) : Kept status status := .inr (.inl rfl)

theorem Kept.trans {a b c : Status} (first : Kept a b) (second : Kept b c) : Kept a c := by
  rcases first with none | rfl | up
  · exact .inl none
  · exact second
  · rcases second with none | rfl | more
    · omega
    · exact .inr (.inr up)
    · exact .inr (.inr (up.trans more))

theorem underLock_kept_iff (status old new : Status) :
    Kept status (underLock status old new) ↔ ¬ Overtaken status old new := by
  unfold Kept underLock Overtaken
  split
  · next taken =>
      constructor
      · rintro kept ⟨-, some, le, other⟩
        rcases kept with none | same | up
        · exact some none
        · exact other same
        · omega
      · intro fine
        by_cases none : getStatusPriority status = 0
        · exact .inl none
        by_cases same : new = status
        · exact .inr (.inl same)
        by_cases up : getStatusPriority status < getStatusPriority new
        · exact .inr (.inr up)
        exact absurd ⟨taken, none, not_lt.mp up, same⟩ fine
  · next not =>
      exact iff_of_true (.inr (.inl rfl)) fun overtaken => not overtaken.1

/-- One step keeps the status unless a thread is overtaken. -/
theorem Step.kept_iff {j j' : Job ι} {a : Act ι} (step : Step j a j') :
    Kept j.jobStatus j'.jobStatus ↔ InTime j a := by
  cases step with
  | read new outside => exact iff_of_true (Kept.refl _) trivial
  | @locked t old new called =>
      rw [InTime, underLock_kept_iff]
      constructor
      · intro fine old' new' same
        cases called.symm.trans same
        exact fine
      · exact fun fine => fine old new called

theorem Step.unique {j j' j'' : Job ι} {a : Act ι} (first : Step j a j') (second : Step j a j'') :
    j' = j'' := by
  cases first with
  | read new outside => cases second; rfl
  | locked called =>
      cases second with
      | locked called' =>
          cases called.symm.trans called'
          rfl

theorem run_newest {j j' : Job ι} {acts : List (Act ι)} (run : Run (Guarded Step InTime) j acts j') :
    Kept j.jobStatus j'.jobStatus := by
  induction run with
  | nil j => exact Kept.refl _
  | cons first rest ih => exact (first.2.kept_iff.mpr first.1).trans ih

/-- A run through states of a guarded run is guarded. -/
theorem Run.guarded {j u t : Job ι} {pre rest : List (Act ι)} (run : Run Step j pre u)
    (whole : Run (Guarded Step InTime) j (pre ++ rest) t) :
    Run (Guarded Step InTime) j pre u ∧ Run (Guarded Step InTime) u rest t := by
  induction run with
  | nil j => exact ⟨.nil j, whole⟩
  | cons first later ih =>
      cases whole with
      | cons first' later' =>
          cases first.unique first'.2
          obtain ⟨before, after⟩ := ih later'
          exact ⟨.cons first' before, after⟩

/-- In every run of the calls of any number of threads, no status of a priority above 0 is lost or
replaced by one of its own priority, exactly when no thread is overtaken. -/
theorem monotone_iff {j j' : Job ι} {acts : List (Act ι)} (run : Run Step j acts j') :
    (∀ pre mid post u v, acts = pre ++ (mid ++ post) → Run Step j pre u → Run Step u mid v →
        Run Step v post j' → Kept u.jobStatus v.jobStatus) ↔
      Run (Guarded Step InTime) j acts j' := by
  constructor
  · intro kept
    induction run with
    | nil j => exact .nil j
    | @cons j next last a acts first rest ih =>
        have here : InTime j a :=
          first.kept_iff.mp (kept [] [a] acts j next rfl (.nil j) (.cons first (.nil next)) rest)
        refine .cons ⟨here, first⟩ (ih ?_)
        intro pre mid post u v split before between after
        exact kept (a :: pre) mid post u v (by rw [split]; rfl) (.cons first before) between after
  · rintro guarded pre mid post u v rfl before between after
    obtain ⟨-, later⟩ := Run.guarded before guarded
    exact run_newest (Run.guarded between later).1

/-- A running job without calls. -/
def running : Job Bool := ⟨.running, fun _ => none⟩

/-- Two threads read the status before either of them gets the lock. -/
def overlapping : List (Act Bool) :=
  [.read false .differences, .read true .canceled, .locked false, .locked true]

theorem monotone_iff_overlapping : ∃ last : Job Bool, last.jobStatus = .canceled ∧
    ((∀ pre mid post u v, overlapping = pre ++ (mid ++ post) → Run Step running pre u →
      Run Step u mid v →
        Run Step v post last → Kept u.jobStatus v.jobStatus) ↔
      Run (Guarded Step InTime) running overlapping last) := by
  obtain ⟨last, run, status⟩ : ∃ last : Job Bool, Run Step running overlapping last ∧
      last.jobStatus = .canceled := by
    refine ⟨?last, ?run, ?status⟩
    case run =>
      refine .cons (.read .differences rfl) ?_
      refine .cons (.read .canceled rfl) ?_
      refine .cons (.locked rfl) ?_
      refine .cons (.locked rfl) ?_
      exact .nil _
    case status => rfl
  exact ⟨last, status, monotone_iff run⟩

/-- An error is read into a running job, the job is canceled, and the error replaces the
cancellation. -/
theorem cancel_lost : ∃ u v : Job Bool,
    Run Step running [.read false .error, .read true .canceled, .locked true] u ∧
      Run Step u [.locked false] v ∧ u.jobStatus = .canceled ∧ v.jobStatus = .error ∧
        ¬ Kept u.jobStatus v.jobStatus := by
  refine ⟨?before, ?after, ?run, ?last, ?canceled, ?error, ?lost⟩
  case run =>
    refine .cons (.read .error rfl) ?_
    refine .cons (.read .canceled rfl) ?_
    refine .cons (.locked rfl) ?_
    exact .nil _
  case last =>
    refine .cons (.locked rfl) ?_
    exact .nil _
  case canceled => rfl
  case error => rfl
  case lost =>
    unfold Kept
    decide

end Bacula.JobStatus
