import Mathlib

/-! The status of a job, `lib/jcr.c`: `setJobStatus` keeps an error until a worse one comes. -/
namespace Bacula.JobStatus

/-- The `JS_` codes of `jcr.h`. -/
inductive Status where
  | canceled | blocked | created | differences | errorTerminated | waitFD | incomplete
  | dataCommitting | waitMount | running | waitSD | terminated | warnings | attrDespooling
  | waitClientRes | waitMaxJobs | error | fatalError | attrInserting | waitJobRes
  | dataDespooling | waitMedia | waitPriority | waitDevice | waitStoreRes | waitStartTime
  | cloudUpload | cloudDownload
  deriving DecidableEq, Repr

/-- `get_status_priority`. -/
def getStatusPriority : Status → ℕ
  | .incomplete => 10
  | .errorTerminated | .fatalError | .canceled => 9
  | .error => 8
  | .differences => 7
  | _ => 0

/-- `JCR::setJobStatus`. -/
def setJobStatus (status new : Status) : Status :=
  if getStatusPriority new > getStatusPriority status ∨
      (getStatusPriority new = 0 ∧ getStatusPriority status = 0) then new
  else status

/-- `job_canceled`. -/
def jobCanceled (status : Status) : Bool :=
  status = .canceled ∨ status = .errorTerminated ∨ status = .fatalError

/-- A status that `setJobStatus` keeps. -/
def IsError (status : Status) : Prop := getStatusPriority status ≠ 0

instance (status : Status) : Decidable (IsError status) :=
  inferInstanceAs (Decidable (getStatusPriority status ≠ 0))

/-- Calls of `setJobStatus` one after the other. -/
def setAll (status : Status) (calls : List Status) : Status := calls.foldl setJobStatus status

theorem setAll_append (status : Status) (first second : List Status) :
    setAll status (first ++ second) = setAll (setAll status first) second :=
  List.foldl_append

theorem jobCanceled_priority (status : Status) :
    jobCanceled status = true ↔ getStatusPriority status = 9 := by
  cases status <;> decide

theorem setJobStatus_le (status new : Status) :
    getStatusPriority status ≤ getStatusPriority (setJobStatus status new) := by
  unfold setJobStatus
  split <;> omega

theorem setAll_le (status : Status) (calls : List Status) :
    getStatusPriority status ≤ getStatusPriority (setAll status calls) := by
  induction calls generalizing status with
  | nil => exact le_rfl
  | cons new rest ih => exact (setJobStatus_le status new).trans (ih _)

/-- Calls that are not worse leave an error as it is. -/
theorem setAll_error {status : Status} (held : IsError status) {calls : List Status}
    (below : ∀ new ∈ calls, getStatusPriority new ≤ getStatusPriority status) :
    setAll status calls = status := by
  induction calls with
  | nil => rfl
  | cons new rest ih =>
      have first := below new List.mem_cons_self
      have kept : setJobStatus status new = status := by
        unfold setJobStatus
        unfold IsError at held
        rw [if_neg]
        omega
      change setAll (setJobStatus status new) rest = status
      rw [kept]
      exact ih fun other member => below other (List.mem_cons_of_mem _ member)

/-- Calls without an error leave no error. -/
theorem setAll_harmless {status : Status} (harmless : ¬ IsError status) {calls : List Status}
    (below : ∀ new ∈ calls, ¬ IsError new) : ¬ IsError (setAll status calls) := by
  induction calls generalizing status with
  | nil => exact harmless
  | cons new rest ih =>
      refine ih ?_ fun other member => below other (List.mem_cons_of_mem _ member)
      unfold setJobStatus
      split
      · exact below new List.mem_cons_self
      · exact harmless

/-- When the calls end in something worse than both statuses, they end in the same. -/
theorem setAll_worse {status other : Status} (calls : List Status)
    (le : getStatusPriority status ≤ getStatusPriority other)
    (worse : getStatusPriority other < getStatusPriority (setAll status calls)) :
    setAll other calls = setAll status calls := by
  induction calls generalizing status other with
  | nil => exact absurd worse (not_lt.mpr le)
  | cons new rest ih =>
      change setAll (setJobStatus other new) rest = setAll (setJobStatus status new) rest
      change getStatusPriority other <
        getStatusPriority (setAll (setJobStatus status new) rest) at worse
      unfold setJobStatus at worse ⊢
      by_cases taken : getStatusPriority new > getStatusPriority other ∨
          (getStatusPriority new = 0 ∧ getStatusPriority other = 0)
      · rw [if_pos taken, if_pos (by omega)]
      · rw [if_neg taken]
        refine ih ?_ worse
        split
        · omega
        · exact le

/-- The status is the one that is expected, as far as errors go. -/
def Agrees (status expected : Status) : Prop :=
  status = expected ∨ (¬ IsError status ∧ ¬ IsError expected)

theorem Agrees.setAll {status expected : Status} (agrees : Agrees status expected)
    (calls : List Status) : Agrees (setAll status calls) (setAll expected calls) := by
  rcases agrees with rfl | ⟨harmless, harmlessToo⟩
  · exact .inl rfl
  cases calls with
  | nil => exact .inr ⟨harmless, harmlessToo⟩
  | cons new rest =>
      -- the first call of two statuses without an error makes them equal
      have first : setJobStatus status new = setJobStatus expected new := by
        simp only [IsError, not_not] at harmless harmlessToo
        unfold setJobStatus
        rw [if_pos (by omega), if_pos (by omega)]
      left
      change JobStatus.setAll (setJobStatus status new) rest =
        JobStatus.setAll (setJobStatus expected new) rest
      rw [first]

theorem Agrees.isError {status expected : Status} (agrees : Agrees status expected) :
    IsError status ↔ IsError expected := by
  rcases agrees with rfl | ⟨harmless, harmlessToo⟩
  · rfl
  · exact iff_of_false harmless harmlessToo

theorem setAll_isError {status : Status} (held : IsError status) (calls : List Status) :
    IsError (setAll status calls) := by
  have le := setAll_le status calls
  unfold IsError at *
  omega

end Bacula.JobStatus
