import Bacula.Cats.BvfsPath
import Bacula.Lib.JobStatus

/-! The batch insertion of file records, `cats/sql_create.c`, with the steps of `mysql.c`,
`postgresql.c` and `sqlite.c`. Every SQL step is told whether it succeeds; a step that fails changes
no table. Other threads give the job a status between the steps. -/
namespace Bacula.BatchInsert
open JobStatus Bvfs

abbrev Text := List UInt8

/-- A row of the table Path. -/
abbrev PathRow := ℕ × Text

/-- The fields of `ATTR_DBR` that go into the File table. -/
structure AttrDbr where
  fname : Text
  attr : Text
  fileIndex : Int32
  jobId : UInt32
  deltaSeq : UInt32
  digest : Option Text
  deriving DecidableEq

/-- A row of the temporary table `batch`. -/
structure BatchRow where
  fileIndex : Int32
  jobId : UInt32
  path : Text
  name : Text
  lstat : Text
  md5 : Text
  deltaSeq : UInt32
  deriving DecidableEq

/-- A row of the table File. -/
structure FileRow where
  fileIndex : Int32
  jobId : UInt32
  pathId : ℕ
  filename : Text
  lstat : Text
  md5 : Text
  deltaSeq : UInt32
  deriving DecidableEq

inductive Backend where
  | mysql | postgresql | sqlite
  deriving DecidableEq

/-- `MYSQL_CHANGES_PER_BATCH_INSERT`. -/
def MYSQL_CHANGES_PER_BATCH_INSERT : ℕ := 32

/-- The backend, and whether the messages of the job have a destination for a fatal error: without
one the error does not change the status. -/
structure Config where
  backend : Backend
  fatalShown : Bool

/-- The job, its batch connection and the tables. -/
structure State where
  status : Status
  /-- The statuses that were given to `setJobStatus`. -/
  given : List Status
  batchStarted : Bool
  changes : ℕ
  /-- The rows of `mdb->cmd` (MySQL) or of the COPY (PostgreSQL) that the table has not yet. -/
  pending : List BatchRow
  batch : Option (List BatchRow)
  path : List PathRow
  file : List FileRow
  deriving DecidableEq

def State.set (s : State) (new : Status) : State :=
  { s with status := setJobStatus s.status new, given := s.given ++ [new] }

def State.setAll (s : State) (calls : List Status) : State := calls.foldl State.set s

/-- What `Jmsg` with `M_FATAL` does to the status. -/
def fatalCalls (cfg : Config) : List Status := if cfg.fatalShown then [.fatalError] else []

def State.fatal (cfg : Config) (s : State) : State := s.setAll (fatalCalls cfg)

/-- `split_path_and_file`: the path and the name. -/
def splitPathAndFile (fname : Text) : Text × Text :=
  if uptoSeparator fname = [] then (fname, [])
  else (uptoSeparator fname, fname.drop (uptoSeparator fname).length)

/-- The values of `sql_batch_insert`. -/
def batchRow (ar : AttrDbr) : BatchRow where
  fileIndex := ar.fileIndex
  jobId := ar.jobId
  path := (splitPathAndFile ar.fname).1
  name := (splitPathAndFile ar.fname).2
  lstat := ar.attr
  md5 := match ar.digest with
    | none | some [] => [48]
    | some digest => digest
  deltaSeq := ar.deltaSeq

/-- `sql_batch_start`. The table cannot be created twice. -/
def sqlBatchStart (cfg : Config) (ok : Bool) (s : State) : Bool × State :=
  let started := ok && s.batch.isNone
  let s := if started then { s with batch := some [] } else s
  match cfg.backend with
  | .mysql => (started, { s with changes := 0 })
  | .postgresql => (started, if started then { s with pending := [] } else s)
  | .sqlite => (started, s)

def State.intoBatch (s : State) (rows : List BatchRow) : State :=
  { s with batch := s.batch.map fun batch => batch ++ rows }

/-- `sql_batch_insert`. The rows of a MySQL connection go to the table in groups. The result of
`PQputCopyData` is not returned. -/
def sqlBatchInsert (cfg : Config) (ok : Bool) (ar : AttrDbr) (s : State) : Bool × State :=
  match cfg.backend with
  | .mysql =>
      let pending := if s.changes = 0 then [batchRow ar] else s.pending ++ [batchRow ar]
      let s := { s with pending, changes := s.changes + 1 }
      if s.changes % MYSQL_CHANGES_PER_BATCH_INSERT = 0 then
        if ok then (true, { s.intoBatch s.pending with changes := 0 })
        else (false, { s with changes := 0 })
      else (true, s)
  | .postgresql =>
      if ok then (true, { s with pending := s.pending ++ [batchRow ar], changes := s.changes + 1 })
      else (true, s)
  | .sqlite =>
      if ok then (true, s.intoBatch [batchRow ar]) else (false, s)

/-- `sql_batch_end`. The result of the COPY is not returned. -/
def sqlBatchEnd (cfg : Config) (ok : Bool) (s : State) : Bool × State :=
  match cfg.backend with
  | .mysql =>
      if s.changes = 0 then (true, s)
      else if ok then (true, s.intoBatch s.pending) else (false, s)
  | .postgresql => (true, if ok then s.intoBatch s.pending else s)
  | .sqlite => (true, s)

/-- The next key of a table. -/
def nextKey (rows : List PathRow) : ℕ := (rows.map Prod.fst).foldr max 0 + 1

/-- A path that the table has not is inserted. -/
def insertPath (rows : List PathRow) (path : Text) : List PathRow :=
  if path ∈ rows.map Prod.snd then rows else rows ++ [(nextKey rows, path)]

/-- `batch_fill_path_query`. -/
def fillPath (s : State) : State :=
  { s with path := ((s.batch.getD []).map BatchRow.path).foldl insertPath s.path }

/-- The row of the join. -/
def fileRow (row : BatchRow) (path : PathRow) : FileRow where
  fileIndex := row.fileIndex
  jobId := row.jobId
  pathId := path.1
  filename := row.name
  lstat := row.lstat
  md5 := row.md5
  deltaSeq := row.deltaSeq

/-- `INSERT INTO File ... SELECT ... FROM batch JOIN Path ON (batch.Path = Path.Path)`. -/
def fillFile (s : State) : State :=
  { s with file := s.file ++ (s.batch.getD []).flatMap fun row =>
      (s.path.filter fun path => path.2 = row.path).map (fileRow row) }

/-- What a call of `bdb_write_batch_file_records` meets: the statuses that other threads give the
job, and the results of the SQL steps. -/
structure Write where
  /-- Before the first test for a canceled job. -/
  beforeTest : List Status
  /-- Before the status becomes `JS_AttrInserting`. -/
  beforeInserting : List Status
  /-- In each round in which batch mode is on hold. -/
  hold : List (List Status)
  /-- Before the test behind `sql_batch_end`. -/
  beforeEnd : List Status
  /-- Until the status is set back, or a step fails. -/
  rest : List Status
  endOk : Bool
  lockOk : Bool
  fillOk : Bool
  unlockOk : Bool
  fileOk : Bool
  dropOk : Bool

/-- `while (!batch_mode_enabled)`, with a test in each round. -/
def holdLoop : List (List Status) → State → Bool × State
  | [], s => (false, s)
  | calls :: rest, s =>
      if jobCanceled (s.setAll calls).status then (true, s.setAll calls)
      else holdLoop rest (s.setAll calls)

/-- `bail_out`. -/
def bailOut (w : Write) (retval : Bool) (s : State) : Bool × State :=
  (retval, { s with batchStarted := false, batch := if w.dropOk then none else s.batch })

/-- The steps behind the last test; `saved` is the status of the entry. -/
def fillTables (cfg : Config) (w : Write) (saved : Status) (s : State) : Bool × State :=
  if !w.lockOk then bailOut w false (s.fatal cfg)
  else if !w.fillOk then bailOut w false (s.fatal cfg)
  else
    let s := fillPath s
    if !w.unlockOk then bailOut w false (s.fatal cfg)
    else if !w.fileOk then bailOut w false (s.fatal cfg)
    else bailOut w true { fillFile s with status := saved }

/-- `bdb_write_batch_file_records`. -/
def writeBatchFileRecords (cfg : Config) (w : Write) (s : State) : Bool × State :=
  let saved := s.status
  if !s.batchStarted then (true, s)
  else
    let s := s.setAll w.beforeTest
    if jobCanceled s.status then bailOut w false s
    else
      let s := { s.setAll w.beforeInserting with status := .attrInserting }
      match holdLoop w.hold s with
      | (true, s) => bailOut w false s
      | (false, s) =>
          let (ended, s) := sqlBatchEnd cfg w.endOk s
          let s := s.setAll w.beforeEnd
          if !ended then bailOut w false (s.fatal cfg)
          else if jobCanceled s.status then bailOut w false s
          else fillTables cfg w saved (s.setAll w.rest)

/-- What a call of `bdb_create_batch_file_attributes_record` meets. -/
structure Create where
  ar : AttrDbr
  write : Write
  openOk : Bool
  startOk : Bool
  insertOk : Bool

/-- The start of a batch, when there is none. -/
def startBatch (cfg : Config) (c : Create) (s : State) : Bool × State :=
  if s.batchStarted then (true, s)
  else if !c.openOk then (false, s.fatal cfg)
  else match sqlBatchStart cfg c.startOk s with
    | (false, s) => (false, s.fatal cfg)
    | (true, s) => (true, { s with batchStarted := true })

/-- `bdb_create_batch_file_attributes_record`. A path of length zero is a fatal error, but the
record is inserted. -/
def createBatchFileAttributesRecord (cfg : Config) (c : Create) (s : State) : Bool × State :=
  let s :=
    if s.batchStarted ∧ s.changes > 500000 then
      { (writeBatchFileRecords cfg c.write s).2 with changes := 0 }
    else s
  match startBatch cfg c s with
  | (false, s) => (false, s)
  | (true, s) =>
      let s := if (splitPathAndFile c.ar.fname).1 = [] then s.fatal cfg else s
      sqlBatchInsert cfg c.insertOk c.ar s

/-- The steps of a job. -/
inductive Step where
  | status (new : Status)
  | create (c : Create)
  | write (w : Write)

/-- The result of the call and the state after it. -/
def step (cfg : Config) (s : State) : Step → Bool × State
  | .status new => (true, s.set new)
  | .create c => createBatchFileAttributesRecord cfg c s
  | .write w => writeBatchFileRecords cfg w s

/-- Whether no call reported a failure, and the state after all steps. -/
def run (cfg : Config) : List Step → State → Bool × State
  | [], s => (true, s)
  | a :: rest, s =>
      ((step cfg s a).1 && (run cfg rest (step cfg s a).2).1, (run cfg rest (step cfg s a).2).2)

/-- The records of the calls. -/
def records : List Step → List AttrDbr
  | [] => []
  | .create c :: rest => c.ar :: records rest
  | _ :: rest => records rest

/-- No rows, no batch, and paths that are all different. -/
structure Start where
  status : Status
  path : List PathRow
  ids : (path.map Prod.fst).Nodup
  texts : (path.map Prod.snd).Nodup

def Start.state (start : Start) : State :=
  ⟨start.status, [], false, 0, [], none, start.path, []⟩

/-- A row of File with the values of a record. -/
def Received (path : List PathRow) (row : FileRow) (ar : AttrDbr) : Prop :=
  ∃ id, (id, (batchRow ar).path) ∈ path ∧ row = fileRow (batchRow ar) (id, (batchRow ar).path)

/-- The insertion law: the rows of File are those of the records, and an error that
`setJobStatus` keeps is the status of the job. -/
structure Law (cfg : Config) (start : Start) (steps : List Step) : Prop where
  rows : (run cfg steps start.state).1 = true → ¬ IsError (run cfg steps start.state).2.status →
    ((run cfg steps start.state).2.path.map Prod.fst).Nodup ∧
      List.Forall₂ (Received (run cfg steps start.state).2.path)
        (run cfg steps start.state).2.file (records steps)
  status : IsError (JobStatus.setAll start.status (run cfg steps start.state).2.given) →
    (run cfg steps start.state).2.status =
      JobStatus.setAll start.status (run cfg steps start.state).2.given

/-- The statuses that are given to the job while batch mode is on hold, up to one that cancels
the job, and whether there is one. -/
def holdCalls : List (List Status) → Status → Bool × List Status
  | [], _ => (false, [])
  | calls :: rest, status =>
      if jobCanceled (JobStatus.setAll status calls) then (true, calls)
      else
        ((holdCalls rest (JobStatus.setAll status calls)).1,
          calls ++ (holdCalls rest (JobStatus.setAll status calls)).2)

/-- `sql_batch_end` does not report a failure. -/
def Write.Ends (cfg : Config) (w : Write) (s : State) : Bool :=
  cfg.backend ≠ .mysql ∨ s.changes = 0 ∨ w.endOk = true

/-- The statuses that are given to the job while it is inserting, until the test behind
`sql_batch_end`. -/
def Write.calls (w : Write) : List Status := (holdCalls w.hold .attrInserting).2 ++ w.beforeEnd

/-- One of the tests behind the first sees that the job is canceled. -/
def Write.seesCancel (cfg : Config) (w : Write) (s : State) : Bool :=
  (holdCalls w.hold .attrInserting).1 ||
    (w.Ends cfg s && jobCanceled (JobStatus.setAll .attrInserting w.calls))

def Write.stepsOk (cfg : Config) (w : Write) (s : State) : Bool :=
  w.Ends cfg s && w.lockOk && w.fillOk && w.unlockOk && w.fileOk

/-- The statuses that are given to the job while it is inserting, when a test or a step fails. -/
def Write.leaving (cfg : Config) (w : Write) (s : State) : List Status :=
  if (holdCalls w.hold .attrInserting).1 then (holdCalls w.hold .attrInserting).2
  else if w.seesCancel cfg s then w.calls
  else if w.Ends cfg s then w.calls ++ w.rest ++ fatalCalls cfg
  else w.calls ++ fatalCalls cfg

/-- The call overwrites no error. It sets the status back to that of its entry only if nothing worse
was given to the job meanwhile; and if it fails, an error it has overwritten is followed by a worse
one. The COPY does not fail. -/
structure Undisturbed (cfg : Config) (w : Write) (s : State) : Prop where
  copied : cfg.backend = .postgresql → w.endOk = true
  restored : w.seesCancel cfg s = false → w.stepsOk cfg s = true →
    ∀ new ∈ w.beforeTest ++ w.beforeInserting ++ w.calls ++ w.rest,
      getStatusPriority new ≤ getStatusPriority s.status
  overwritten : (w.seesCancel cfg s = true ∨ w.stepsOk cfg s = false) →
    IsError (JobStatus.setAll s.status (w.beforeTest ++ w.beforeInserting)) →
      getStatusPriority (JobStatus.setAll s.status (w.beforeTest ++ w.beforeInserting)) <
        getStatusPriority (JobStatus.setAll .attrInserting (w.leaving cfg s))

/-- The call gets past the first test. -/
def Inserting (w : Write) (s : State) : Prop :=
  s.batchStarted = true ∧ jobCanceled (JobStatus.setAll s.status w.beforeTest) = false

/-- The failure of a call whose result nobody looks at is the status of the job. -/
def Shown (cfg : Config) (w : Write) (s : State) : Prop :=
  w.seesCancel cfg s = true ∨ w.stepsOk cfg s = false →
    IsError (JobStatus.setAll .attrInserting (w.leaving cfg s))

def StepUndisturbed (cfg : Config) (s : State) : Step → Prop
  | .status _ => True
  | .create c =>
      (s.changes > 500000 → Inserting c.write s → Undisturbed cfg c.write s ∧ Shown cfg c.write s) ∧
        (cfg.backend = .postgresql → c.insertOk = true)
  | .write w => Inserting w s → Undisturbed cfg w s

def AllUndisturbed (cfg : Config) : List Step → State → Prop
  | [], _ => True
  | a :: rest, s => StepUndisturbed cfg s a ∧ AllUndisturbed cfg rest (step cfg s a).2

end Bacula.BatchInsert
