import Bacula.Cats.BatchInsert

/-! The insertion law of `BatchInsert`: a call that is undisturbed keeps the errors of the job, and
each record is on its way to the table File until it is there. -/
namespace Bacula.BatchInsert
open JobStatus

/-- The state with another status. -/
def State.withStatus (s : State) (status : Status) (given : List Status) : State :=
  { s with status, given }

theorem setAll_eq (s : State) (calls : List Status) :
    s.setAll calls = s.withStatus (JobStatus.setAll s.status calls) (s.given ++ calls) := by
  induction calls generalizing s with
  | nil => simp [State.setAll, State.withStatus, JobStatus.setAll]
  | cons new rest ih =>
      change (s.set new).setAll rest = _
      rw [ih]
      simp [State.set, State.withStatus, JobStatus.setAll]

theorem setAll_setAll (s : State) (first second : List Status) :
    (s.setAll first).setAll second = s.setAll (first ++ second) :=
  (List.foldl_append).symm

theorem fatal_eq (cfg : Config) (s : State) : s.fatal cfg = s.setAll (fatalCalls cfg) := rfl

theorem holdLoop_eq (hold : List (List Status)) (s : State) :
    holdLoop hold s = ((holdCalls hold s.status).1, s.setAll (holdCalls hold s.status).2) := by
  induction hold generalizing s with
  | nil => rfl
  | cons calls rest ih =>
      have status : (s.setAll calls).status = JobStatus.setAll s.status calls := by
        rw [setAll_eq, State.withStatus]
      unfold holdLoop holdCalls
      rw [status]
      split
      · rfl
      · rw [ih, status, setAll_setAll]

theorem sqlBatchEnd_withStatus (cfg : Config) (ok : Bool) (s : State) (status : Status)
    (given : List Status) :
    sqlBatchEnd cfg ok (s.withStatus status given) =
      ((sqlBatchEnd cfg ok s).1, (sqlBatchEnd cfg ok s).2.withStatus status given) := by
  unfold sqlBatchEnd State.withStatus
  cases cfg.backend
  · dsimp only
    split
    · rfl
    · split <;> rfl
  · dsimp only
    split <;> rfl
  · rfl

theorem sqlBatchEnd_ends (cfg : Config) (w : Write) (s : State) :
    (sqlBatchEnd cfg w.endOk s).1 = w.Ends cfg s := by
  unfold sqlBatchEnd Write.Ends
  cases cfg.backend
  · by_cases none : s.changes = 0
    · simp [none]
    · cases ok : w.endOk <;> simp [none]
  · simp
  · simp

theorem sqlBatchEnd_status (cfg : Config) (ok : Bool) (s : State) :
    (sqlBatchEnd cfg ok s).2.status = s.status ∧ (sqlBatchEnd cfg ok s).2.given = s.given := by
  have same := sqlBatchEnd_withStatus cfg ok s s.status s.given
  have self : s.withStatus s.status s.given = s := rfl
  rw [self] at same
  have second := congrArg Prod.snd same
  dsimp only at second
  rw [second]
  exact ⟨rfl, rfl⟩

/-- The state in which the tests behind `JS_AttrInserting` start. -/
def inserting (w : Write) (s : State) : State :=
  s.withStatus .attrInserting (s.given ++ (w.beforeTest ++ w.beforeInserting))

/-- The call behind its first test. -/
theorem write_inserting (cfg : Config) {w : Write} {s : State} (started : Inserting w s) :
    writeBatchFileRecords cfg w s =
      if (holdCalls w.hold .attrInserting).1 then
        bailOut w false ((inserting w s).setAll (holdCalls w.hold .attrInserting).2)
      else if !w.Ends cfg s then
        bailOut w false (((sqlBatchEnd cfg w.endOk (inserting w s)).2.setAll w.calls).fatal cfg)
      else if jobCanceled (JobStatus.setAll .attrInserting w.calls) then
        bailOut w false ((sqlBatchEnd cfg w.endOk (inserting w s)).2.setAll w.calls)
      else fillTables cfg w s.status
        ((sqlBatchEnd cfg w.endOk (inserting w s)).2.setAll (w.calls ++ w.rest)) := by
  have entry : { (s.setAll w.beforeTest).setAll w.beforeInserting with
      status := .attrInserting } = inserting w s := by
    rw [setAll_setAll, setAll_eq]
    rfl
  have ends : (sqlBatchEnd cfg w.endOk (inserting w s)).1 = w.Ends cfg s := by
    rw [inserting, sqlBatchEnd_withStatus]
    exact sqlBatchEnd_ends cfg w s
  have moved : (sqlBatchEnd cfg w.endOk
      ((inserting w s).setAll (holdCalls w.hold .attrInserting).2)) =
        (w.Ends cfg s, (sqlBatchEnd cfg w.endOk (inserting w s)).2.setAll
          (holdCalls w.hold .attrInserting).2) := by
    have kept := sqlBatchEnd_status cfg w.endOk (inserting w s)
    rw [setAll_eq, sqlBatchEnd_withStatus, ends, setAll_eq, kept.1, kept.2]
  have tested : (s.setAll w.beforeTest).status = JobStatus.setAll s.status w.beforeTest := by
    rw [setAll_eq]
    rfl
  have status : ((sqlBatchEnd cfg w.endOk (inserting w s)).2.setAll w.calls).status =
      JobStatus.setAll .attrInserting w.calls := by
    rw [setAll_eq, (sqlBatchEnd_status cfg w.endOk _).1]
    rfl
  have started' : (inserting w s).status = .attrInserting := rfl
  unfold writeBatchFileRecords
  simp only [started.1, Bool.not_true, Bool.false_eq_true, if_false, tested, started.2, entry,
    holdLoop_eq, started']
  cases held : (holdCalls w.hold .attrInserting).1 with
  | true => simp
  | false =>
      simp only [moved, Bool.false_eq_true, if_false, setAll_setAll]
      change (if (!w.Ends cfg s) = true then bailOut w false
        (((sqlBatchEnd cfg w.endOk (inserting w s)).2.setAll w.calls).fatal cfg)
          else if jobCanceled ((sqlBatchEnd cfg w.endOk (inserting w s)).2.setAll
            w.calls).status = true then
              bailOut w false ((sqlBatchEnd cfg w.endOk (inserting w s)).2.setAll w.calls)
            else fillTables cfg w s.status ((sqlBatchEnd cfg w.endOk (inserting w s)).2.setAll
              (w.calls ++ w.rest))) = _
      rw [status]

/-- What a call that fails behind its first test does to the status. -/
theorem write_fails (cfg : Config) {w : Write} {s : State} (started : Inserting w s)
    (failed : w.seesCancel cfg s = true ∨ w.stepsOk cfg s = false) :
    (writeBatchFileRecords cfg w s).1 = false ∧
      (writeBatchFileRecords cfg w s).2.status =
        JobStatus.setAll .attrInserting (w.leaving cfg s) ∧
      (writeBatchFileRecords cfg w s).2.given =
        s.given ++ (w.beforeTest ++ w.beforeInserting ++ w.leaving cfg s) := by
  have kept := sqlBatchEnd_status cfg w.endOk (inserting w s)
  -- a bail out behind a state with the status and the statuses of the entry
  have bailed : ∀ (at' : State) (calls : List Status), at'.status = .attrInserting →
      at'.given = (inserting w s).given →
      (bailOut w false (at'.setAll calls)).1 = false ∧
        (bailOut w false (at'.setAll calls)).2.status = JobStatus.setAll .attrInserting calls ∧
        (bailOut w false (at'.setAll calls)).2.given =
          s.given ++ (w.beforeTest ++ w.beforeInserting ++ calls) := by
    intro at' calls status given
    rw [setAll_eq, status, given]
    simp [bailOut, State.withStatus, inserting]
  rw [write_inserting cfg started]
  unfold Write.leaving
  by_cases held : (holdCalls w.hold .attrInserting).1 = true
  · simp only [held, if_true]
    exact bailed _ _ rfl rfl
  cases ends : w.Ends cfg s with
  | false =>
      have unseen : w.seesCancel cfg s = false := by simp [Write.seesCancel, held, ends]
      simp only [held, unseen, Bool.false_eq_true, if_false, Bool.not_false, if_true, fatal_eq,
        setAll_setAll]
      exact bailed _ _ kept.1 kept.2
  | true =>
      have sees : w.seesCancel cfg s =
          jobCanceled (JobStatus.setAll .attrInserting w.calls) := by
        simp [Write.seesCancel, held, ends]
      by_cases canceled : jobCanceled (JobStatus.setAll .attrInserting w.calls) = true
      · simp only [held, sees, canceled, Bool.false_eq_true, if_false, if_true, Bool.not_true]
        exact bailed _ _ kept.1 kept.2
      · have steps := failed.resolve_left (by rw [sees]; exact canceled)
        simp only [held, sees, canceled, Bool.false_eq_true, if_false, if_true, Bool.not_true]
        unfold fillTables
        simp only [fatal_eq, setAll_setAll]
        cases lock : w.lockOk with
        | false => exact bailed _ _ kept.1 kept.2
        | true =>
        cases fill : w.fillOk with
        | false => exact bailed _ _ kept.1 kept.2
        | true =>
            -- the table Path is filled, the status is not touched
            have filled : ∀ calls, (fillPath ((sqlBatchEnd cfg w.endOk (inserting w s)).2.setAll
                calls)).setAll (fatalCalls cfg) =
                  (fillPath (sqlBatchEnd cfg w.endOk (inserting w s)).2).setAll
                    (calls ++ fatalCalls cfg) := by
              intro calls
              rw [← setAll_setAll]
              congr 1
              rw [setAll_eq, setAll_eq]
              rfl
            simp only [filled, Bool.not_true, Bool.false_eq_true, if_false]
            cases unlock : w.unlockOk with
            | false => exact bailed _ _ kept.1 kept.2
            | true =>
            cases file : w.fileOk with
            | false => exact bailed _ _ kept.1 kept.2
            | true => simp [Write.stepsOk, ends, lock, fill, unlock, file] at steps

/-- What a call that completes does. -/
theorem write_completes (cfg : Config) {w : Write} {s : State} (started : Inserting w s)
    (unseen : w.seesCancel cfg s = false) (steps : w.stepsOk cfg s = true) :
    writeBatchFileRecords cfg w s =
      bailOut w true ((fillFile (fillPath (sqlBatchEnd cfg w.endOk s).2)).withStatus s.status
        (s.given ++ (w.beforeTest ++ w.beforeInserting ++ w.calls ++ w.rest))) := by
  simp only [Write.stepsOk, Bool.and_eq_true] at steps
  obtain ⟨⟨⟨⟨ends, lock⟩, fill⟩, unlock⟩, file⟩ := steps
  simp only [Write.seesCancel, Bool.or_eq_false_iff, ends, Bool.true_and] at unseen
  rw [write_inserting cfg started]
  simp only [unseen.1, unseen.2, ends, Bool.not_true, Bool.false_eq_true, if_false, fillTables,
    lock, fill, unlock, file]
  rw [inserting, sqlBatchEnd_withStatus, setAll_eq]
  simp [State.withStatus, fillPath, fillFile, List.append_assoc]

section Status

/-- The status of the job is the one of all statuses that were given to it. -/
def Held (first : Status) (s : State) : Prop :=
  Agrees s.status (JobStatus.setAll first s.given)

variable {first : Status}

theorem Held.setAll {s : State} (held : Held first s) (calls : List Status) :
    Held first (s.setAll calls) := by
  have later := Agrees.setAll held calls
  rw [← JobStatus.setAll_append] at later
  rw [setAll_eq]
  exact later

/-- The status is set back to one that is at least as bad as all that was given meanwhile. -/
theorem agrees_restored {status expected : Status} (agrees : Agrees status expected)
    {calls : List Status}
    (below : ∀ new ∈ calls, getStatusPriority new ≤ getStatusPriority status) :
    Agrees status (JobStatus.setAll expected calls) := by
  by_cases error : IsError status
  · have later := agrees.setAll calls
    rwa [setAll_error error below] at later
  · refine .inr ⟨error, setAll_harmless (mt agrees.isError.mpr error) ?_⟩
    intro new member
    have le := below new member
    unfold IsError at *
    omega

/-- The status is `JS_AttrInserting`, and something worse than the errors before follows. -/
theorem agrees_overwritten {before : Status} {calls : List Status}
    (worse : IsError before →
      getStatusPriority before < getStatusPriority (JobStatus.setAll .attrInserting calls)) :
    Agrees (JobStatus.setAll .attrInserting calls) (JobStatus.setAll before calls) := by
  by_cases error : IsError before
  · exact .inl (setAll_worse calls (Nat.zero_le _) (worse error)).symm
  · have start : Agrees .attrInserting before := .inr ⟨by decide, error⟩
    exact start.setAll calls

theorem write_idle (cfg : Config) {w : Write} {s : State} (idle : s.batchStarted = false) :
    writeBatchFileRecords cfg w s = (true, s) := by
  simp [writeBatchFileRecords, idle]

theorem write_canceled (cfg : Config) {w : Write} {s : State} (started : s.batchStarted = true)
    (canceled : jobCanceled (JobStatus.setAll s.status w.beforeTest) = true) :
    writeBatchFileRecords cfg w s = bailOut w false (s.setAll w.beforeTest) := by
  have tested : (s.setAll w.beforeTest).status = JobStatus.setAll s.status w.beforeTest := by
    rw [setAll_eq]
    rfl
  simp [writeBatchFileRecords, started, tested, canceled]

/-- The ways of a call. -/
inductive Writes (cfg : Config) (w : Write) (s : State) : Prop where
  | idle : s.batchStarted = false → Writes cfg w s
  | canceled : s.batchStarted = true → jobCanceled (JobStatus.setAll s.status w.beforeTest) = true →
      Writes cfg w s
  | failed : Inserting w s → w.seesCancel cfg s = true ∨ w.stepsOk cfg s = false → Writes cfg w s
  | completed : Inserting w s → w.seesCancel cfg s = false → w.stepsOk cfg s = true → Writes cfg w s

theorem write_cases (cfg : Config) (w : Write) (s : State) : Writes cfg w s := by
  cases started : s.batchStarted with
  | false => exact .idle started
  | true =>
      cases canceled : jobCanceled (JobStatus.setAll s.status w.beforeTest) with
      | true => exact .canceled started canceled
      | false =>
          by_cases failed : w.seesCancel cfg s = true ∨ w.stepsOk cfg s = false
          · exact .failed ⟨started, canceled⟩ failed
          · simp only [not_or, Bool.not_eq_true, Bool.not_eq_false] at failed
            exact .completed ⟨started, canceled⟩ failed.1 failed.2

theorem write_held (cfg : Config) {w : Write} {s : State}
    (quiet : Inserting w s → Undisturbed cfg w s) (held : Held first s) :
    Held first (writeBatchFileRecords cfg w s).2 := by
  cases write_cases cfg w s with
  | idle started =>
      rw [write_idle cfg started]
      exact held
  | canceled started canceled =>
      rw [write_canceled cfg started canceled]
      exact held.setAll w.beforeTest
  | failed inside failed =>
      obtain ⟨-, status, given⟩ := write_fails cfg inside failed
      unfold Held
      rw [status, given, JobStatus.setAll_append, JobStatus.setAll_append]
      have before := Agrees.setAll held (w.beforeTest ++ w.beforeInserting)
      refine (agrees_overwritten ?_)
      intro error
      have same := before.isError.mpr error
      have worse := (quiet inside).overwritten failed same
      rcases before with equal | harmless
      · rwa [← equal]
      · exact absurd same harmless.1
  | completed inside unseen steps =>
      rw [write_completes cfg inside unseen steps]
      change Agrees s.status (JobStatus.setAll first (s.given ++ _))
      rw [JobStatus.setAll_append]
      exact agrees_restored held ((quiet inside).restored unseen steps)

/-- The later state has been given more statuses, all through `setJobStatus`. -/
def Gains (s s' : State) : Prop :=
  ∃ calls, s'.status = JobStatus.setAll s.status calls ∧ s'.given = s.given ++ calls

theorem Gains.of_eq {s s' : State} (same : s'.status = s.status ∧ s'.given = s.given) :
    Gains s s' :=
  ⟨[], same.1, by rw [same.2, List.append_nil]⟩

theorem Gains.setAll (s : State) (calls : List Status) : Gains s (s.setAll calls) :=
  ⟨calls, by rw [setAll_eq]; exact ⟨rfl, rfl⟩⟩

theorem Gains.trans {s s' s'' : State} (first : Gains s s') (second : Gains s' s'') :
    Gains s s'' := by
  obtain ⟨calls, status, given⟩ := first
  obtain ⟨more, status', given'⟩ := second
  exact ⟨calls ++ more, by rw [status', status, JobStatus.setAll_append],
    by rw [given', given, List.append_assoc]⟩

theorem Held.gains {s s' : State} (held : Held first s) (gains : Gains s s') : Held first s' := by
  obtain ⟨calls, status, given⟩ := gains
  have later := Agrees.setAll held calls
  unfold Held
  rwa [status, given, JobStatus.setAll_append]

theorem sqlBatchStart_status (cfg : Config) (ok : Bool) (s : State) :
    (sqlBatchStart cfg ok s).2.status = s.status ∧ (sqlBatchStart cfg ok s).2.given = s.given := by
  unfold sqlBatchStart
  cases cfg.backend <;> dsimp only <;> split <;> exact ⟨rfl, rfl⟩

theorem sqlBatchInsert_status (cfg : Config) (ok : Bool) (ar : AttrDbr) (s : State) :
    (sqlBatchInsert cfg ok ar s).2.status = s.status ∧
      (sqlBatchInsert cfg ok ar s).2.given = s.given := by
  unfold sqlBatchInsert
  cases cfg.backend
  · dsimp only
    split
    · split <;> exact ⟨rfl, rfl⟩
    · exact ⟨rfl, rfl⟩
  · dsimp only
    split <;> exact ⟨rfl, rfl⟩
  · dsimp only
    split <;> exact ⟨rfl, rfl⟩

theorem startBatch_gains (cfg : Config) (c : Create) (s : State) :
    Gains s (startBatch cfg c s).2 := by
  unfold startBatch
  split
  · exact .of_eq ⟨rfl, rfl⟩
  split
  · exact .setAll s _
  have same := sqlBatchStart_status cfg c.startOk s
  cases started : sqlBatchStart cfg c.startOk s with
  | mk ok s' =>
      rw [started] at same
      have moved : Gains s s' := .of_eq same
      cases ok with
      | false => exact moved.trans (.setAll s' _)
      | true => exact moved

/-- The state behind the write of a full batch. -/
def behindFull (cfg : Config) (c : Create) (s : State) : State :=
  if s.batchStarted ∧ s.changes > 500000 then
    { (writeBatchFileRecords cfg c.write s).2 with changes := 0 }
  else s

theorem create_eq (cfg : Config) (c : Create) (s : State) :
    createBatchFileAttributesRecord cfg c s =
      if (startBatch cfg c (behindFull cfg c s)).1 then
        sqlBatchInsert cfg c.insertOk c.ar
          (if (splitPathAndFile c.ar.fname).1 = [] then
            (startBatch cfg c (behindFull cfg c s)).2.fatal cfg
          else (startBatch cfg c (behindFull cfg c s)).2)
      else (false, (startBatch cfg c (behindFull cfg c s)).2) := by
  unfold createBatchFileAttributesRecord
  dsimp only
  rw [← behindFull]
  cases startBatch cfg c (behindFull cfg c s) with
  | mk ok s' => cases ok <;> rfl

theorem create_gains (cfg : Config) (c : Create) (s : State) :
    Gains (behindFull cfg c s) (createBatchFileAttributesRecord cfg c s).2 := by
  rw [create_eq]
  have started := startBatch_gains cfg c (behindFull cfg c s)
  split
  · refine started.trans (Gains.trans ?_ (.of_eq (sqlBatchInsert_status cfg c.insertOk c.ar _)))
    split
    · exact .setAll _ _
    · exact .of_eq ⟨rfl, rfl⟩
  · exact started

theorem behindFull_held (cfg : Config) {c : Create} {s : State}
    (quiet : StepUndisturbed cfg s (.create c)) (held : Held first s) :
    Held first (behindFull cfg c s) := by
  unfold behindFull
  split
  · next full => exact write_held cfg (fun inside => (quiet.1 full.2 inside).1) held
  · exact held

theorem step_held (cfg : Config) {s : State} {a : Step} (quiet : StepUndisturbed cfg s a)
    (held : Held first s) : Held first (step cfg s a).2 := by
  cases a with
  | status new => exact held.setAll [new]
  | create c => exact (behindFull_held cfg quiet held).gains (create_gains cfg c s)
  | write w => exact write_held cfg quiet held

theorem run_held (cfg : Config) {steps : List Step} {s : State}
    (quiet : AllUndisturbed cfg steps s) (held : Held first s) :
    Held first (run cfg steps s).2 := by
  induction steps generalizing s with
  | nil => exact held
  | cons a rest ih => exact ih quiet.2 (step_held cfg quiet.1 held)

theorem write_given (cfg : Config) (w : Write) (s : State) :
    ∃ more, (writeBatchFileRecords cfg w s).2.given = s.given ++ more := by
  cases write_cases cfg w s with
  | idle started =>
      rw [write_idle cfg started]
      exact ⟨[], by simp⟩
  | canceled started canceled =>
      rw [write_canceled cfg started canceled, setAll_eq]
      exact ⟨w.beforeTest, rfl⟩
  | failed inside failed => exact ⟨_, (write_fails cfg inside failed).2.2⟩
  | completed inside unseen steps =>
      rw [write_completes cfg inside unseen steps]
      exact ⟨_, rfl⟩

theorem behindFull_given (cfg : Config) (c : Create) (s : State) :
    ∃ more, (behindFull cfg c s).given = s.given ++ more := by
  unfold behindFull
  split
  · exact write_given cfg c.write s
  · exact ⟨[], by simp⟩

/-- An error that was given to the job stays given. -/
theorem isError_grows {s s' : State} (error : IsError (JobStatus.setAll first s.given))
    (grows : ∃ more, s'.given = s.given ++ more) : IsError (JobStatus.setAll first s'.given) := by
  obtain ⟨more, given⟩ := grows
  rw [given, JobStatus.setAll_append]
  exact setAll_isError error more

theorem step_given (cfg : Config) (s : State) (a : Step) :
    ∃ more, (step cfg s a).2.given = s.given ++ more := by
  cases a with
  | status new => exact ⟨[new], rfl⟩
  | create c =>
      obtain ⟨more, full⟩ := behindFull_given cfg c s
      obtain ⟨calls, -, given⟩ := create_gains cfg c s
      exact ⟨more ++ calls, by rw [← List.append_assoc, ← full]; exact given⟩
  | write w => exact write_given cfg w s

theorem run_given (cfg : Config) (steps : List Step) (s : State) :
    ∃ more, (run cfg steps s).2.given = s.given ++ more := by
  induction steps generalizing s with
  | nil => exact ⟨[], by simp [run]⟩
  | cons a rest ih =>
      obtain ⟨more, first⟩ := step_given cfg s a
      obtain ⟨later, rest⟩ := ih (step cfg s a).2
      exact ⟨more ++ later, by rw [← List.append_assoc, ← first]; exact rest⟩

end Status

section Rows

/-- The rows of the table Path are all different. -/
structure Unique (rows : List PathRow) : Prop where
  ids : (rows.map Prod.fst).Nodup
  texts : (rows.map Prod.snd).Nodup

theorem le_foldr_max {ids : List ℕ} {id : ℕ} (member : id ∈ ids) : id ≤ ids.foldr max 0 := by
  induction ids with
  | nil => simp at member
  | cons first rest ih =>
      rcases List.mem_cons.mp member with rfl | later
      · exact le_max_left _ _
      · exact (ih later).trans (le_max_right _ _)

theorem Unique.insertPath {rows : List PathRow} (unique : Unique rows) (path : Text) :
    Unique (insertPath rows path) := by
  unfold BatchInsert.insertPath
  split
  · exact unique
  · next fresh =>
      constructor
      · rw [List.map_append, List.nodup_append]
        refine ⟨unique.ids, List.nodup_singleton _, ?_⟩
        intro id member other new
        rw [List.map_singleton, List.mem_singleton] at new
        have le := le_foldr_max member
        unfold nextKey at new
        omega
      · rw [List.map_append, List.nodup_append]
        refine ⟨unique.texts, List.nodup_singleton _, ?_⟩
        rintro text member other new rfl
        rw [List.map_singleton, List.mem_singleton] at new
        subst new
        exact fresh member

theorem insertPath_subset (rows : List PathRow) (path : Text) : rows ⊆ insertPath rows path := by
  unfold insertPath
  split
  · exact fun _ member => member
  · exact List.subset_append_left _ _

theorem insertPath_has (rows : List PathRow) (path : Text) :
    path ∈ (insertPath rows path).map Prod.snd := by
  unfold insertPath
  split
  · assumption
  · simp

theorem fill_unique {rows : List PathRow} (unique : Unique rows) (paths : List Text) :
    Unique (paths.foldl insertPath rows) := by
  induction paths generalizing rows with
  | nil => exact unique
  | cons path rest ih => exact ih (unique.insertPath path)

theorem fill_subset (rows : List PathRow) (paths : List Text) :
    rows ⊆ paths.foldl insertPath rows := by
  induction paths generalizing rows with
  | nil => exact fun _ member => member
  | cons path rest ih => exact List.Subset.trans (insertPath_subset rows path) (ih _)

/-- Each path of the batch has a row behind the fill. -/
theorem fill_has (rows : List PathRow) {paths : List Text} {path : Text} (member : path ∈ paths) :
    ∃ id, (id, path) ∈ paths.foldl insertPath rows := by
  induction paths generalizing rows with
  | nil => simp at member
  | cons first rest ih =>
      rcases List.mem_cons.mp member with rfl | later
      · obtain ⟨⟨id, text⟩, row, rfl⟩ := List.mem_map.mp (insertPath_has rows path)
        exact ⟨id, fill_subset _ rest row⟩
      · exact ih _ later

/-- The join finds one row. -/
theorem Unique.join {rows : List PathRow} (unique : Unique rows) {id : ℕ} {path : Text}
    (member : (id, path) ∈ rows) : rows.filter (fun row => row.2 = path) = [(id, path)] := by
  have texts := unique.texts
  clear unique
  induction rows with
  | nil => simp at member
  | cons first rest ih =>
      rw [List.map_cons, List.nodup_cons] at texts
      rcases List.mem_cons.mp member with rfl | later
      · have others : rest.filter (fun row => row.2 = path) = [] := by
          rw [List.filter_eq_nil_iff]
          intro row inside
          have differs : row.2 ≠ path := fun same =>
            texts.1 (List.mem_map.mpr ⟨row, inside, same⟩)
          simpa using differs
        simp [others]
      · have differs : first.2 ≠ path := fun same =>
          texts.1 (List.mem_map.mpr ⟨(id, path), later, same.symm⟩)
        rw [List.filter_cons_of_neg (by simpa using differs)]
        exact ih later texts.2

/-- The rows that are on their way to the table File. -/
def waiting (cfg : Config) (s : State) : List BatchRow :=
  s.batch.getD [] ++
    match cfg.backend with
    | .mysql => if s.changes = 0 then [] else s.pending
    | .postgresql => s.pending
    | .sqlite => []

/-- Each record is in the table File or on its way. -/
structure Consistent (cfg : Config) (s : State) (ars : List AttrDbr) : Prop where
  path : Unique s.path
  /-- The table `batch` exists. -/
  table : s.batchStarted = true → s.batch.isSome
  rows : ∃ stored unsent, ars = stored ++ unsent ∧
    List.Forall₂ (Received s.path) s.file stored ∧
    unsent.map batchRow = if s.batchStarted then waiting cfg s else []

theorem Received.mono {path path' : List PathRow} (subset : path ⊆ path') {row : FileRow}
    {ar : AttrDbr} (received : Received path row ar) : Received path' row ar := by
  obtain ⟨id, member, equal⟩ := received
  exact ⟨id, subset member, equal⟩

/-- What `fillPath` and `fillFile` do to the rows of the batch. -/
theorem fill_received {s : State} (unique : Unique s.path) {ars : List AttrDbr}
    (batch : s.batch.getD [] = ars.map batchRow) {stored : List AttrDbr}
    (received : List.Forall₂ (Received s.path) s.file stored) :
    Unique (fillPath s).path ∧
      List.Forall₂ (Received (fillPath s).path) (fillFile (fillPath s)).file (stored ++ ars) := by
  have filled : Unique (fillPath s).path := fill_unique unique _
  refine ⟨filled, ?_⟩
  have grows : s.path ⊆ (fillPath s).path := fill_subset _ _
  change List.Forall₂ _ (s.file ++ (s.batch.getD []).flatMap _) _
  refine List.rel_append (received.imp fun _ _ => Received.mono grows) ?_
  have has : ∀ ar ∈ ars, ∃ id, (id, (batchRow ar).path) ∈ (fillPath s).path := by
    intro ar member
    refine fill_has _ (List.mem_map_of_mem ?_)
    rw [batch]
    exact List.mem_map_of_mem member
  rw [batch]
  clear batch
  induction ars with
  | nil => exact .nil
  | cons ar rest ih =>
      obtain ⟨id, member⟩ := has ar List.mem_cons_self
      rw [List.map_cons, List.flatMap_cons, filled.join member]
      exact .cons ⟨id, member, rfl⟩ (ih fun other inside => has other (List.mem_cons_of_mem _ inside))

variable (cfg : Config)

theorem State.withStatus_consistent {s : State} {ars : List AttrDbr} (status : Status)
    (given : List Status) (consistent : Consistent cfg s ars) :
    Consistent cfg (s.withStatus status given) ars :=
  ⟨consistent.path, consistent.table, consistent.rows⟩

/-- `sql_batch_end` brings all rows that are waiting into the batch. -/
theorem sqlBatchEnd_batch {w : Write} {s : State} (table : s.batch.isSome)
    (ends : w.Ends cfg s = true) (copied : cfg.backend = .postgresql → w.endOk = true) :
    (sqlBatchEnd cfg w.endOk s).2.batch.getD [] = waiting cfg s ∧
      (sqlBatchEnd cfg w.endOk s).2.path = s.path ∧ (sqlBatchEnd cfg w.endOk s).2.file = s.file := by
  obtain ⟨batch, some⟩ := Option.isSome_iff_exists.mp table
  unfold sqlBatchEnd waiting
  cases backend : cfg.backend
  · by_cases none : s.changes = 0
    · simp [none]
    · have ok : w.endOk = true := by simpa [Write.Ends, backend, none] using ends
      simp [none, ok, State.intoBatch, some]
  · simp [copied backend, State.intoBatch, some]
  · simp

/-- A call that does not fail leaves no record on its way. -/
theorem write_consistent {w : Write} {s : State} (quiet : Inserting w s → Undisturbed cfg w s)
    {ars : List AttrDbr} (consistent : Consistent cfg s ars)
    (success : (writeBatchFileRecords cfg w s).1 = true) :
    Consistent cfg (writeBatchFileRecords cfg w s).2 ars ∧
      (writeBatchFileRecords cfg w s).2.batchStarted = false := by
  cases write_cases cfg w s with
  | idle started =>
      rw [write_idle cfg started]
      exact ⟨consistent, started⟩
  | canceled started canceled => simp [write_canceled cfg started canceled, bailOut] at success
  | failed inside failed =>
      rw [(write_fails cfg inside failed).1] at success
      exact absurd success (by decide)
  | completed inside unseen completed =>
      have started := inside.1
      have ends : w.Ends cfg s = true := by
        have steps := completed
        simp only [Write.stepsOk, Bool.and_eq_true] at steps
        exact steps.1.1.1.1
      obtain ⟨stored, unsent, split, received, rows⟩ := consistent.rows
      rw [if_pos started] at rows
      obtain ⟨batch, path, file⟩ := sqlBatchEnd_batch cfg (consistent.table started) ends
        (quiet inside).copied
      rw [← rows] at batch
      rw [← file, ← path] at received
      obtain ⟨unique, all⟩ := fill_received (by rw [path]; exact consistent.path) batch received
      rw [write_completes cfg inside unseen completed]
      refine ⟨⟨unique, fun again => absurd again (by simp [bailOut]), ?_⟩, rfl⟩
      refine ⟨stored ++ unsent, [], by rw [split, List.append_nil], all, ?_⟩
      rfl

/-- The write of a full batch, whose result nobody looks at. -/
theorem behindFull_consistent {first : Status} {c : Create} {s : State}
    (quiet : StepUndisturbed cfg s (.create c)) (held : Held first s) {ars : List AttrDbr}
    (consistent : Consistent cfg s ars) :
    IsError (JobStatus.setAll first (behindFull cfg c s).given) ∨
      Consistent cfg (behindFull cfg c s) ars := by
  have later := behindFull_held cfg quiet held
  unfold behindFull at later ⊢
  by_cases full : s.batchStarted = true ∧ s.changes > 500000
  · rw [if_pos full] at later ⊢
    cases success : (writeBatchFileRecords cfg c.write s).1 with
    | true =>
        right
        obtain ⟨behind, idle⟩ := write_consistent cfg
          (fun inside => (quiet.1 full.2 inside).1) consistent success
        refine ⟨behind.path, behind.table, ?_⟩
        obtain ⟨stored, unsent, split, received, rows⟩ := behind.rows
        refine ⟨stored, unsent, split, received, ?_⟩
        rw [rows]
        simp [idle]
    | false =>
        left
        refine (Agrees.isError later).mp ?_
        change IsError (writeBatchFileRecords cfg c.write s).2.status
        cases canceled : jobCanceled (JobStatus.setAll s.status c.write.beforeTest) with
        | true =>
            rw [write_canceled cfg full.1 canceled, setAll_eq]
            change IsError (JobStatus.setAll s.status c.write.beforeTest)
            unfold IsError
            rw [(jobCanceled_priority _).mp canceled]
            decide
        | false =>
            have inside : Inserting c.write s := ⟨full.1, canceled⟩
            by_cases failed : c.write.seesCancel cfg s = true ∨ c.write.stepsOk cfg s = false
            · rw [(write_fails cfg inside failed).2.1]
              exact (quiet.1 full.2 inside).2 failed
            · simp only [not_or, Bool.not_eq_true, Bool.not_eq_false] at failed
              rw [write_completes cfg inside failed.1 failed.2] at success
              exact absurd success (by simp [bailOut])
  · rw [if_neg full]
    exact .inr consistent

theorem sqlBatchStart_consistent (ok : Bool) {s : State} {ars : List AttrDbr}
    (idle : s.batchStarted = false) (consistent : Consistent cfg s ars)
    (success : (sqlBatchStart cfg ok s).1 = true) :
    Consistent cfg { (sqlBatchStart cfg ok s).2 with batchStarted := true } ars := by
  obtain ⟨stored, unsent, split, received, rows⟩ := consistent.rows
  rw [idle] at rows
  unfold sqlBatchStart at success ⊢
  cases backend : cfg.backend <;> simp only [backend] at success ⊢ <;>
    simp only [success, if_true] <;>
    refine ⟨consistent.path, fun _ => rfl, stored, unsent, split, received, ?_⟩ <;>
    simp [waiting, backend, rows]

theorem startBatch_consistent {c : Create} {s : State} {ars : List AttrDbr}
    (consistent : Consistent cfg s ars) (success : (startBatch cfg c s).1 = true) :
    Consistent cfg (startBatch cfg c s).2 ars ∧ (startBatch cfg c s).2.batchStarted = true := by
  unfold startBatch at success ⊢
  by_cases started : s.batchStarted = true
  · rw [if_pos started]
    exact ⟨consistent, started⟩
  rw [if_neg started] at success ⊢
  by_cases closed : (!c.openOk) = true
  · rw [if_pos closed] at success
    exact absurd success (by simp)
  rw [if_neg closed] at success ⊢
  have begins := sqlBatchStart_consistent cfg c.startOk (by simpa using started) consistent
  cases start : sqlBatchStart cfg c.startOk s with
  | mk ok s' =>
      rw [start] at begins success
      cases ok with
      | false => exact absurd success (by simp)
      | true => exact ⟨begins rfl, rfl⟩

/-- An insertion that does not fail puts the record on its way. -/
theorem sqlBatchInsert_consistent {c : Create} {s : State} {ars : List AttrDbr}
    (copied : cfg.backend = .postgresql → c.insertOk = true) (started : s.batchStarted = true)
    (consistent : Consistent cfg s ars)
    (success : (sqlBatchInsert cfg c.insertOk c.ar s).1 = true) :
    Consistent cfg (sqlBatchInsert cfg c.insertOk c.ar s).2 (ars ++ [c.ar]) := by
  obtain ⟨stored, unsent, split, received, rows⟩ := consistent.rows
  rw [if_pos started] at rows
  obtain ⟨batch, some⟩ := Option.isSome_iff_exists.mp (consistent.table started)
  -- a state with one more row on its way
  have grown : ∀ s' : State, s'.path = s.path → s'.file = s.file → s'.batchStarted = true →
      s'.batch.isSome → waiting cfg s' = waiting cfg s ++ [batchRow c.ar] →
        Consistent cfg s' (ars ++ [c.ar]) := by
    intro s' path file started' table' more
    refine ⟨by rw [path]; exact consistent.path, fun _ => table', stored, unsent ++ [c.ar], ?_, ?_,
      ?_⟩
    · rw [split, List.append_assoc]
    · rw [path, file]
      exact received
    · rw [if_pos started', more, List.map_append, rows]
      rfl
  unfold sqlBatchInsert at success ⊢
  cases backend : cfg.backend with
  | mysql =>
      simp only [backend] at success ⊢
      split
      · next full =>
          rw [if_pos full] at success
          split
          · refine grown _ rfl rfl started (by simp [State.intoBatch, some]) ?_
            by_cases none : s.changes = 0 <;> simp [waiting, backend, State.intoBatch, some, none]
          · next failed =>
              rw [if_neg failed] at success
              exact absurd success (by simp)
      · refine grown _ rfl rfl started (by simp [some]) ?_
        by_cases none : s.changes = 0 <;> simp [waiting, backend, some, none]
  | postgresql =>
      simp only [copied backend, if_true]
      refine grown _ rfl rfl started (by simp [some]) ?_
      simp [waiting, backend]
  | sqlite =>
      simp only [backend] at success ⊢
      split
      · refine grown _ rfl rfl started (by simp [State.intoBatch, some]) ?_
        simp [waiting, backend, State.intoBatch, some]
      · next failed =>
          rw [if_neg failed] at success
          exact absurd success (by simp)

theorem create_consistent {first : Status} {c : Create} {s : State}
    (quiet : StepUndisturbed cfg s (.create c)) (held : Held first s) {ars : List AttrDbr}
    (consistent : Consistent cfg s ars)
    (success : (createBatchFileAttributesRecord cfg c s).1 = true) :
    IsError (JobStatus.setAll first (createBatchFileAttributesRecord cfg c s).2.given) ∨
      Consistent cfg (createBatchFileAttributesRecord cfg c s).2 (ars ++ [c.ar]) := by
  rcases behindFull_consistent cfg quiet held consistent with error | behind
  · obtain ⟨calls, -, given⟩ := create_gains cfg c s
    exact .inl (isError_grows error ⟨calls, given⟩)
  right
  rw [create_eq] at success ⊢
  by_cases start : (startBatch cfg c (behindFull cfg c s)).1 = true
  · rw [if_pos start] at success ⊢
    obtain ⟨ready, started⟩ := startBatch_consistent cfg behind start
    split
    · next short =>
        rw [if_pos short] at success
        rw [fatal_eq, setAll_eq] at success ⊢
        exact sqlBatchInsert_consistent cfg quiet.2 started
          (State.withStatus_consistent cfg _ _ ready) success
    · next long =>
        rw [if_neg long] at success
        exact sqlBatchInsert_consistent cfg quiet.2 started ready success
  · rw [if_neg start] at success
    exact absurd success (by simp)

/-- Each record of the calls is in the table File or on its way, or the job is in error. -/
theorem run_consistent {first : Status} {steps : List Step} {s : State}
    (quiet : AllUndisturbed cfg steps s) (held : Held first s) {ars : List AttrDbr}
    (consistent : IsError (JobStatus.setAll first s.given) ∨ Consistent cfg s ars)
    (success : (run cfg steps s).1 = true) :
    IsError (JobStatus.setAll first (run cfg steps s).2.given) ∨
      Consistent cfg (run cfg steps s).2 (ars ++ records steps) := by
  induction steps generalizing s ars with
  | nil => simpa [run, records] using consistent
  | cons a rest ih =>
      simp only [run, Bool.and_eq_true] at success ⊢
      have next := step_held cfg quiet.1 held
      rcases consistent with error | consistent
      · exact .inl (isError_grows error (run_given cfg (a :: rest) s))
      · cases a with
        | status new =>
            refine ih quiet.2 next (.inr ?_) success.2
            exact ⟨consistent.path, consistent.table, consistent.rows⟩
        | create c =>
            have created := create_consistent cfg quiet.1 held consistent success.1
            have later := ih quiet.2 next created success.2
            rwa [List.append_assoc] at later
        | write w =>
            exact ih quiet.2 next (.inr (write_consistent cfg quiet.1 consistent success.1).1)
              success.2

theorem run_append (before after : List Step) (s : State) :
    run cfg (before ++ after) s =
      ((run cfg before s).1 && (run cfg after (run cfg before s).2).1,
        (run cfg after (run cfg before s).2).2) := by
  induction before generalizing s with
  | nil => simp [run]
  | cons a rest ih => simp [run, ih, Bool.and_assoc]

theorem allUndisturbed_append {before after : List Step} {s : State} :
    AllUndisturbed cfg (before ++ after) s ↔
      AllUndisturbed cfg before s ∧ AllUndisturbed cfg after (run cfg before s).2 := by
  induction before generalizing s with
  | nil => simp [AllUndisturbed, run]
  | cons a rest ih => simp [AllUndisturbed, run, ih, and_assoc]

theorem records_append (before after : List Step) :
    records (before ++ after) = records before ++ records after := by
  induction before with
  | nil => rfl
  | cons a rest ih => cases a <;> simp [records, ih]

end Rows

section Examples

def quietWrite : Write where
  beforeTest := []
  beforeInserting := []
  hold := []
  beforeEnd := []
  rest := []
  endOk := true
  lockOk := true
  fillOk := true
  unlockOk := true
  fileOk := true
  dropOk := true

/-- A file in the top directory. -/
def file (name : UInt8) (insertOk : Bool) : Create where
  ar := ⟨[47, name], [66], 1, 1, 0, none⟩
  write := quietWrite
  openOk := true
  startOk := true
  insertOk

def emptyCatalog : Start where
  status := .running
  path := []
  ids := List.nodup_nil
  texts := List.nodup_nil

def postgresql : Config := ⟨.postgresql, true⟩

/-- The files `/a` and `/b`, and differences that are found between them and again while they are
inserted. -/
def twoFiles : List Step := [.create (file 97 true), .status .differences, .create (file 98 true)]

def differing : Write := { quietWrite with beforeEnd := [.differences] }

end Examples

end Bacula.BatchInsert
