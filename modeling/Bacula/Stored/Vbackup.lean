import Bacula.Stored.ReadVolume
import Bacula.Library.Grouping

/-! The numbering of the output of a virtual backup: `record_cb` of `stored/vbackup.c`, and the
loop of `read_records` that calls it with a record packet for each source session. -/
namespace Bacula.Vbackup
open Grouping

def EOT_LABEL : Int32 := -6

/-- A record packet with the fields that are used in sequencing the output. -/
structure SourceRecord extends DevRecord where
  matchStat : Int32 := 0
  lastVolSessionId : UInt32 := 0
  lastVolSessionTime : UInt32 := 0
  lastFileIndex : Int32 := 0

/-- A file of a source session. -/
structure SourceFile where
  key : SessionKey
  fileIndex : Int32
  deriving DecidableEq

def noSession : SessionKey := ⟨0, 0⟩

/-- What the `last` fields of a new packet say. -/
def noFile : SourceFile := ⟨noSession, 0⟩

/-- The `last` fields. -/
def SourceRecord.last (rec : SourceRecord) : SourceFile :=
  ⟨⟨rec.lastVolSessionId, rec.lastVolSessionTime⟩, rec.lastFileIndex⟩

/-- The file that the packet is about when it comes from `read_records`. -/
def SourceRecord.file (rec : SourceRecord) : SourceFile := ⟨rec.key, rec.fileIndex⟩

/-- What happens to a record that is to be written. -/
inductive Outcome where
  | notRehydrated
  | writeError
  | written
  deriving DecidableEq, Repr

/-- The fields of the job. `numbered` is a history: the file of every data record that came to
`record_cb`, with the `FileIndex` it was given. -/
structure Job where
  volSessionId : UInt32
  volSessionTime : UInt32
  jobFiles : UInt32 := 0
  jobBytes : ℕ := 0
  numbered : List (SourceFile × Int32) := []

def SourceRecord.changed (rec : SourceRecord) : Prop :=
  rec.volSessionId ≠ rec.lastVolSessionId ∨ rec.volSessionTime ≠ rec.lastVolSessionTime ∨
    rec.fileIndex ≠ rec.lastFileIndex

instance (rec : SourceRecord) : Decidable rec.changed :=
  inferInstanceAs (Decidable (_ ∨ _ ∨ _))

/-- A sequential output `FileIndex` for a data record. -/
def sequence (job : Job) (rec : SourceRecord) : SourceRecord × Job :=
  let (rec', jobFiles) :=
    if rec.changed then
      ({ rec with
        lastVolSessionId := rec.volSessionId
        lastVolSessionTime := rec.volSessionTime
        lastFileIndex := rec.fileIndex }, job.jobFiles + 1)
    else (rec, job.jobFiles)
  ({ rec' with fileIndex := jobFiles.toInt32 },
    { job with jobFiles, numbered := job.numbered ++ [(rec.file, jobFiles.toInt32)] })

/-- The rest of `record_cb` after the numbering. -/
def writeOut (job : Job) (rec : SourceRecord) : Outcome → Bool × SourceRecord × Job
  | .notRehydrated => (false, rec, job)
  | .writeError =>
      (false, { rec with
        volSessionId := job.volSessionId, volSessionTime := job.volSessionTime }, job)
  | .written =>
      -- the packet gets the session back that it was last numbered with
      let restored := { rec with
        volSessionId := rec.lastVolSessionId, volSessionTime := rec.lastVolSessionTime }
      if rec.fileIndex < 0 then (true, restored, job)
      else (true, restored, { job with jobBytes := job.jobBytes + rec.dataLen })

def recordCb (job : Job) (rec : SourceRecord) (outcome : Outcome) : Bool × SourceRecord × Job :=
  if rec.fileIndex < 0 ∧ rec.matchStat ≤ 0 then (true, rec, job)
  else if rec.fileIndex = PRE_LABEL ∨ rec.fileIndex = VOL_LABEL ∨ rec.fileIndex = EOT_LABEL ∨
      rec.fileIndex = EOM_LABEL then (true, rec, job)
  else if 0 ≤ rec.fileIndex then
    let (rec, job) := sequence job rec
    writeOut job rec outcome
  else writeOut job rec outcome

/-- What `read_record_from_block` takes from a block, what is decided about it with the bootstrap,
and what happens when it is written. -/
structure Taken where
  fileIndex : Int32
  stream : Int32
  data : List UInt8
  partialRecord : Bool := false
  /-- The result of `match_bsr`, or of `match_bsr_block` for a label. -/
  matchStat : Int32
  /-- `try_repositioning` of a record that does not match. -/
  repositioned : Bool := false
  /-- `is_this_bsr_done` and `try_repositioning`. -/
  bsrDone : Bool := false
  outcome : Outcome := .written

/-- A block that is read: the records of one session. A session has the start time of its storage
daemon in its key. -/
structure SourceBlock where
  key : SessionKey
  blockNumber : UInt32
  records : List Taken
  real : key ≠ noSession

/-- The packet after `read_record_from_block`, and what the bootstrap says about it. -/
def SourceRecord.take (rec : SourceRecord) (key : SessionKey) (taken : Taken) : SourceRecord :=
  { rec with
    volSessionId := key.volSessionId
    volSessionTime := key.volSessionTime
    fileIndex := taken.fileIndex
    stream := taken.stream
    data := taken.data
    dataLen := taken.data.length
    matchStat := taken.matchStat
    stateBits := { rec.stateBits with partialRecord := taken.partialRecord } }

/-- How the loop over the records of a block ends. -/
inductive Ended where
  | nextBlock
  | done
  | error
  deriving DecidableEq, Repr

/-- The loop over the records of a block. -/
def readBlockRecords (key : SessionKey) :
    List Taken → Option Int32 → SourceRecord → Job → Ended × SourceRecord × Job
  | [], _, rec, job => (.nextBlock, rec, job)
  | taken :: rest, lastFileIndex, packet, job =>
      let record := packet.take key taken
      if taken.fileIndex = EOM_LABEL then (.nextBlock, record, job)
      else if taken.fileIndex < 0 then
        let (ok, rec, job) := recordCb job record taken.outcome
        if ok then readBlockRecords key rest lastFileIndex { rec with invalid := false } job
        else (.error, rec, job)
      else if taken.matchStat = -1 then (.done, record, job)
      else if taken.matchStat = 0 then
        let cleared := { record with
          remainder := 0, stateBits := { record.stateBits with partialRecord := false } }
        if taken.repositioned then (.nextBlock, cleared, job)
        else readBlockRecords key rest lastFileIndex cleared job
      else if taken.partialRecord then (.nextBlock, record, job)
      else if lastFileIndex ≠ none ∧ lastFileIndex ≠ some taken.fileIndex ∧ taken.bsrDone then
        (.nextBlock, record, job)
      else
        let (ok, rec, job) := recordCb job record taken.outcome
        if ok then
          readBlockRecords key rest (some taken.fileIndex) { rec with invalid := false } job
        else (.error, rec, job)

/-- The record packets and the job. -/
structure State where
  recs : List SourceRecord := []
  job : Job

/-- One round of the loop over blocks. The record is the one of the block's session, or a new
one. -/
def readBlock (block : SourceBlock) (s : State) : Ended × State :=
  let own (rec : SourceRecord) : Bool := rec.key = block.key
  let start (rec : SourceRecord) : SourceRecord :=
    { rec with stateBits := {}, blockNumber := block.blockNumber }
  match s.recs.find? own with
  | some rec =>
      let (ended, rec, job) := readBlockRecords block.key block.records none (start rec) s.job
      (ended, { recs := replaceFirst own rec s.recs, job })
  | none =>
      let (ended, rec, job) := readBlockRecords block.key block.records none (start {}) s.job
      (ended, { recs := rec :: s.recs, job })

/-- The loop over blocks, for the blocks that the device delivers one after the other. -/
def readRecords : List SourceBlock → State → State
  | [], s => s
  | block :: rest, s =>
      match readBlock block s with
      | (.nextBlock, s) => readRecords rest s
      | (_, s) => s

/-- The files of the records that were delivered, in their order. -/
def Job.delivered (job : Job) : List SourceFile := job.numbered.map Prod.fst

/-- Two records get the same output `FileIndex` exactly when they are of the same file, and the
numbers in use are those from one to `JobFiles`. -/
def Job.Renumbers (job : Job) : Prop :=
  Faithful job.numbered ∧
    ∀ n : ℤ, (∃ e ∈ job.numbered, e.2.toInt = n) ↔ 1 ≤ n ∧ n ≤ job.jobFiles.toNat

/-- The `FileIndex` of the `n`-th file of the output. -/
def fileIndexOf (n : ℕ) : Int32 := (UInt32.ofNat n).toInt32

/-- The numbers that were given are a numbering, as far as 32 bits go. -/
def Job.Counts (job : Job) (l : List (SourceFile × ℕ)) (n : ℕ) : Prop :=
  Numbering l n ∧ job.numbered = l.map (Prod.map id fileIndexOf) ∧ job.jobFiles = UInt32.ofNat n

theorem Job.Counts.delivered {job : Job} {l : List (SourceFile × ℕ)} {n : ℕ}
    (counts : job.Counts l n) : job.delivered = l.map Prod.fst := by
  obtain ⟨-, numbered, -⟩ := counts
  rw [Job.delivered, numbered, List.map_map]
  rfl

def Job.Counted (job : Job) : Prop := ∃ l n, job.Counts l n

/-- A packet that is not used by a session. -/
def SourceRecord.Idle (rec : SourceRecord) : Prop := rec.key = noSession ∧ rec.last = noFile

/-- The `last` fields of the packet of a session say the file of the record that was delivered
last, if that was one of the session. -/
structure Current (rec : SourceRecord) (key : SessionKey) (delivered : List SourceFile) : Prop where
  known : rec.last = noFile ∨ rec.last.key = key ∧ rec.last ∈ delivered
  latest : ∀ f, delivered.getLast? = some f → f.key = key → rec.last = f

/-- What the records of one session do to the job. -/
structure Progress (key : SessionKey) (job job' : Job) (rec' : SourceRecord) : Prop where
  counted : job'.Counted
  current : Current rec' key job'.delivered
  grows : ∃ new, job'.delivered = job.delivered ++ new ∧ ∀ f ∈ new, f.key = key

theorem SourceRecord.changed_iff (rec : SourceRecord) : rec.changed ↔ rec.file ≠ rec.last := by
  simp only [changed, file, last, DevRecord.key, ne_eq, SourceFile.mk.injEq, SessionKey.mk.injEq,
    not_and_or, or_assoc]

theorem sequence_spec {job : Job} {rec : SourceRecord} {key : SessionKey} (real : key ≠ noSession)
    (own : rec.key = key) (counted : job.Counted) (current : Current rec key job.delivered) :
    (sequence job rec).2.Counted ∧ (sequence job rec).1.last = rec.file ∧
      (sequence job rec).1.key = key ∧
      (sequence job rec).2.delivered = job.delivered ++ [rec.file] := by
  obtain ⟨l, n, counts⟩ := counted
  have delivered := counts.delivered
  obtain ⟨numbering, numbered, jobFiles⟩ := counts
  by_cases changed : rec.changed
  · have other : (l.map Prod.fst).getLast? ≠ some rec.file := by
      intro newest
      rw [← delivered] at newest
      exact rec.changed_iff.mp changed (current.latest _ newest own).symm
    have next : job.jobFiles + 1 = UInt32.ofNat (n + 1) := by
      rw [jobFiles, UInt32.ofNat_add]
      rfl
    simp only [sequence, if_pos changed]
    refine ⟨⟨l ++ [(rec.file, n + 1)], n + 1, .next numbering other, ?_, next⟩, rfl, own, ?_⟩
    · rw [numbered, next, List.map_append, List.map_singleton]
      rfl
    · simp only [Job.delivered, List.map_append, List.map_singleton]
  · have same : rec.file = rec.last := by_contra fun differs => changed (rec.changed_iff.mpr differs)
    have member : rec.file ∈ l.map Prod.fst := by
      rcases current.known with none | ⟨-, member⟩
      · exact absurd (own.symm.trans (congrArg SourceFile.key (same.trans none))) real
      · rw [same, ← delivered]
        exact member
    simp only [sequence, if_neg changed]
    refine ⟨⟨l ++ [(rec.file, n)], n, .same numbering member, ?_, jobFiles⟩, same.symm, own, ?_⟩
    · rw [numbered, jobFiles, List.map_append, List.map_singleton]
      rfl
    · simp only [Job.delivered, List.map_append, List.map_singleton]

theorem writeOut_numbered (job : Job) (rec : SourceRecord) (outcome : Outcome) :
    (writeOut job rec outcome).2.2.numbered = job.numbered ∧
      (writeOut job rec outcome).2.2.jobFiles = job.jobFiles ∧
      (writeOut job rec outcome).2.1.last = rec.last := by
  cases outcome with
  | notRehydrated | writeError => exact ⟨rfl, rfl, rfl⟩
  | written =>
      rw [writeOut]
      split <;> exact ⟨rfl, rfl, rfl⟩

theorem writeOut_key {job : Job} {rec : SourceRecord} {outcome : Outcome}
    (ok : (writeOut job rec outcome).1 = true) :
    (writeOut job rec outcome).2.1.key = rec.last.key := by
  cases outcome with
  | notRehydrated | writeError => cases ok
  | written =>
      rw [writeOut]
      split <;> rfl

theorem Current.congr {key : SessionKey} {rec rec' : SourceRecord} {delivered : List SourceFile}
    (current : Current rec key delivered) (last : rec'.last = rec.last) :
    Current rec' key delivered := by
  refine ⟨?_, ?_⟩
  · rw [last]
    exact current.known
  · rw [last]
    exact current.latest

/-- Nothing is numbered. -/
theorem Progress.refl {key : SessionKey} {job job' : Job} {rec : SourceRecord}
    (numbered : job'.numbered = job.numbered) (jobFiles : job'.jobFiles = job.jobFiles)
    (counted : job.Counted) (current : Current rec key job.delivered) :
    Progress key job job' rec := by
  have delivered : job'.delivered = job.delivered := congrArg (List.map Prod.fst) numbered
  obtain ⟨l, n, numbering, is, files⟩ := counted
  exact ⟨⟨l, n, numbering, numbered.trans is, jobFiles.trans files⟩, delivered ▸ current, [],
    by rw [delivered, List.append_nil], fun f none => absurd none List.not_mem_nil⟩

theorem Progress.trans {key : SessionKey} {job₁ job₂ job₃ : Job} {rec₂ rec₃ : SourceRecord}
    (first : Progress key job₁ job₂ rec₂) (second : Progress key job₂ job₃ rec₃) :
    Progress key job₁ job₃ rec₃ := by
  obtain ⟨new₁, grows₁, own₁⟩ := first.grows
  obtain ⟨new₂, grows₂, own₂⟩ := second.grows
  refine ⟨second.counted, second.current, new₁ ++ new₂, ?_, fun f member => ?_⟩
  · rw [grows₂, grows₁, List.append_assoc]
  · rcases List.mem_append.mp member with here | here
    · exact own₁ f here
    · exact own₂ f here

/-- A packet in use by the session, or by none. -/
def SourceRecord.Of (rec : SourceRecord) (key : SessionKey) : Prop := rec.key = key ∨ rec.Idle

theorem recordCb_progress {job : Job} {rec : SourceRecord} {key : SessionKey}
    (real : key ≠ noSession) (own : rec.key = key) (counted : job.Counted)
    (current : Current rec key job.delivered) (outcome : Outcome) :
    Progress key job (recordCb job rec outcome).2.2 (recordCb job rec outcome).2.1 ∧
      ((recordCb job rec outcome).1 = true → (recordCb job rec outcome).2.1.Of key) := by
  unfold recordCb
  split
  · exact ⟨.refl rfl rfl counted current, fun _ => .inl own⟩
  split
  · exact ⟨.refl rfl rfl counted current, fun _ => .inl own⟩
  split
  · obtain ⟨counted', last, ownKey, delivered⟩ := sequence_spec real own counted current
    obtain ⟨numbered, jobFiles, last'⟩ :=
      writeOut_numbered (sequence job rec).2 (sequence job rec).1 outcome
    have current' : Current (sequence job rec).1 key (sequence job rec).2.delivered := by
      refine ⟨.inr ⟨last ▸ own, ?_⟩, fun f newest _ => ?_⟩
      · rw [last, delivered]
        exact List.mem_append_right _ List.mem_cons_self
      · rw [delivered, List.getLast?_concat, Option.some_inj] at newest
        exact last.trans newest
    have here : Progress key job (sequence job rec).2 (sequence job rec).1 :=
      ⟨counted', current', [rec.file], delivered, fun f member => by
        rw [List.mem_singleton.mp member]
        exact own⟩
    exact ⟨here.trans (.refl numbered jobFiles counted' (current'.congr last')), fun ok =>
      .inl ((writeOut_key ok).trans ((congrArg SourceFile.key last).trans own))⟩
  · obtain ⟨numbered, jobFiles, last⟩ := writeOut_numbered job rec outcome
    refine ⟨.refl numbered jobFiles counted (current.congr last), fun ok => ?_⟩
    have ownKey := writeOut_key ok
    rcases current.known with none | ⟨same, -⟩
    · exact .inr ⟨ownKey.trans (congrArg SourceFile.key none), last.trans none⟩
    · exact .inl (ownKey.trans same)

theorem readBlockRecords_progress {key : SessionKey} (real : key ≠ noSession) :
    ∀ (records : List Taken) (lastFileIndex : Option Int32) (rec : SourceRecord) (job : Job),
      rec.Of key → job.Counted → Current rec key job.delivered →
      Progress key job (readBlockRecords key records lastFileIndex rec job).2.2
          (readBlockRecords key records lastFileIndex rec job).2.1 ∧
        ((readBlockRecords key records lastFileIndex rec job).1 ≠ .error →
          (readBlockRecords key records lastFileIndex rec job).2.1.Of key)
  | [], _, rec, job, own, counted, current => ⟨.refl rfl rfl counted current, fun _ => own⟩
  | taken :: rest, lastFileIndex, rec, job, _, counted, current => by
      have taken' : Current (rec.take key taken) key job.delivered :=
        ⟨current.known, current.latest⟩
      have stay : Progress key job job (rec.take key taken) := .refl rfl rfl counted taken'
      have spec := recordCb_progress real rfl counted taken' taken.outcome
      rcases call : recordCb job (rec.take key taken) taken.outcome with ⟨ok, rec', job'⟩
      rw [call] at spec
      obtain ⟨called, of⟩ := spec
      -- what a call of the callback and the rest of the block do
      have goOn (lastFileIndex : Option Int32) (going : ok = true) :
          Progress key job
              (readBlockRecords key rest lastFileIndex { rec' with invalid := false } job').2.2
              (readBlockRecords key rest lastFileIndex { rec' with invalid := false } job').2.1 ∧
            ((readBlockRecords key rest lastFileIndex { rec' with invalid := false } job').1 ≠
                .error →
              (readBlockRecords key rest lastFileIndex
                { rec' with invalid := false } job').2.1.Of key) := by
        obtain ⟨later, of'⟩ := readBlockRecords_progress real rest lastFileIndex
          { rec' with invalid := false } job' (of going) called.counted
          ⟨called.current.known, called.current.latest⟩
        exact ⟨called.trans later, of'⟩
      simp only [readBlockRecords, call]
      split
      · exact ⟨stay, fun _ => .inl rfl⟩
      split
      · split
        · next going => exact goOn lastFileIndex going
        · exact ⟨called, fun noError => absurd rfl noError⟩
      split
      · exact ⟨stay, fun _ => .inl rfl⟩
      split
      · split
        · exact ⟨.refl rfl rfl counted ⟨taken'.known, taken'.latest⟩, fun _ => .inl rfl⟩
        · exact readBlockRecords_progress real rest lastFileIndex _ job (.inl rfl) counted
            ⟨current.known, current.latest⟩
      split
      · exact ⟨stay, fun _ => .inl rfl⟩
      split
      · exact ⟨stay, fun _ => .inl rfl⟩
      split
      · next going => exact goOn (some taken.fileIndex) going
      · exact ⟨called, fun noError => absurd rfl noError⟩

/-- The table of packets fits to what was delivered. -/
structure Table (recs : List SourceRecord) (delivered : List SourceFile) : Prop where
  known : ∀ rec ∈ recs, rec.last = noFile ∨ rec.last.key = rec.key ∧ rec.last ∈ delivered
  latest : ∀ f, delivered.getLast? = some f →
    ∃ rec, recs.find? (fun rec => rec.key = f.key) = some rec ∧ rec.last = f
  real : ∀ f ∈ delivered, f.key ≠ noSession

theorem Table.nil : Table [] [] where
  known _ none := absurd none List.not_mem_nil
  latest _ none := by cases none
  real _ none := absurd none List.not_mem_nil

theorem mem_replaceFirst {α : Type} {p : α → Bool} {new x : α} {l : List α}
    (member : x ∈ replaceFirst p new l) : x = new ∨ x ∈ l := by
  induction l with
  | nil => cases member
  | cons y rest ih =>
      rw [replaceFirst] at member
      split at member
      · exact (List.mem_cons.mp member).imp id (List.mem_cons_of_mem _)
      · rcases List.mem_cons.mp member with rfl | later
        · exact .inr List.mem_cons_self
        · exact (ih later).imp id (List.mem_cons_of_mem _)

/-- The packet of a session is changed or added. -/
theorem Table.put {recs recs' : List SourceRecord} {job job' : Job} {rec' : SourceRecord}
    {key : SessionKey} (real : key ≠ noSession) (table : Table recs job.delivered)
    (progress : Progress key job job' rec') (of : rec'.Of key)
    (members : ∀ rec ∈ recs', rec = rec' ∨ rec ∈ recs)
    (own : rec'.key = key → recs'.find? (fun rec => rec.key = key) = some rec')
    (others : ∀ k, k ≠ key → rec'.key ≠ k →
      recs'.find? (fun rec => rec.key = k) = recs.find? (fun rec => rec.key = k)) :
    Table recs' job'.delivered := by
  obtain ⟨new, grows, ofKey⟩ := progress.grows
  have real' : ∀ f ∈ job'.delivered, f.key ≠ noSession := by
    intro f member
    rw [grows] at member
    rcases List.mem_append.mp member with old | here
    · exact table.real f old
    · rw [ofKey f here]
      exact real
  refine ⟨fun rec member => ?_, fun f newest => ?_, real'⟩
  · rcases members rec member with rfl | old
    · rcases of with same | idle
      · rw [same]
        exact progress.current.known
      · exact .inl idle.2
    · rw [grows]
      exact (table.known rec old).imp id fun ⟨same, here⟩ => ⟨same, List.mem_append_left _ here⟩
  · have realF := real' f (List.mem_of_getLast? newest)
    by_cases same : f.key = key
    · have last := progress.current.latest f newest same
      have inUse : rec'.key = key := of.resolve_right fun idle =>
        realF (congrArg SourceFile.key (last.symm.trans idle.2))
      rw [same]
      exact ⟨rec', own inUse, last⟩
    · -- a file of another session was the last one before, too
      have none : new = [] := by
        rcases List.eq_nil_or_concat new with none | ⟨new', g, rfl⟩
        · exact none
        · rw [grows, List.concat_eq_append, ← List.append_assoc, List.getLast?_concat,
            Option.some_inj] at newest
          exact absurd (newest ▸ ofKey g (by simp)) same
      rw [grows, none, List.append_nil] at newest
      rw [others f.key same fun eq => ?_]
      · exact table.latest f newest
      · rcases of with inUse | idle
        · exact same (eq.symm.trans inUse)
        · exact realF (eq.symm.trans idle.1)

theorem Table.readBlock (block : SourceBlock) {s : State} (counted : s.job.Counted)
    (table : Table s.recs s.job.delivered) :
    (readBlock block s).2.job.Counted ∧
      ((readBlock block s).1 = .nextBlock →
        Table (readBlock block s).2.recs (readBlock block s).2.job.delivered) := by
  unfold Vbackup.readBlock
  cases found : s.recs.find? (fun rec => rec.key = block.key) with
  | some rec =>
      have hit := List.find?_some found
      have own : rec.key = block.key := of_decide_eq_true hit
      have current : Current rec block.key s.job.delivered := by
        refine ⟨?_, fun f newest same => ?_⟩
        · rw [← own]
          exact table.known rec (List.mem_of_find?_eq_some found)
        · obtain ⟨rec', found', last⟩ := table.latest f newest
          rw [same, found, Option.some_inj] at found'
          rw [found']
          exact last
      obtain ⟨progress, of⟩ := readBlockRecords_progress block.real block.records none
        { rec with stateBits := {}, blockNumber := block.blockNumber } s.job (.inl own) counted
        ⟨current.known, current.latest⟩
      simp only [found]
      refine ⟨progress.counted, fun next => ?_⟩
      refine table.put block.real progress (of (by rw [next]; decide))
        (fun rec member => mem_replaceFirst member) (fun same => ?_) (fun k other differs => ?_)
      · exact replaceFirst_find (fun rec : SourceRecord => rec.key = block.key)
          (decide_eq_true same) found
      · exact replaceFirst_find_other _ (fun rec => rec.key = k) (decide_eq_false differs)
          (fun rec same => decide_eq_false fun eq => other (eq.symm.trans (of_decide_eq_true same)))
          s.recs
  | none =>
      have current : Current {} block.key s.job.delivered := by
        refine ⟨.inl rfl, fun f newest same => ?_⟩
        obtain ⟨rec', found', -⟩ := table.latest f newest
        rw [same, found] at found'
        cases found'
      obtain ⟨progress, of⟩ := readBlockRecords_progress block.real block.records none
        { blockNumber := block.blockNumber } s.job (.inr ⟨rfl, rfl⟩) counted
        ⟨current.known, current.latest⟩
      simp only [found]
      refine ⟨progress.counted, fun next => ?_⟩
      refine table.put block.real progress (of (by rw [next]; decide))
        (fun rec member => List.mem_cons.mp member) (fun same => ?_) (fun k other differs => ?_)
      · exact List.find?_cons_of_pos (decide_eq_true same)
      · exact List.find?_cons_of_neg (by rw [decide_eq_true_eq]; exact differs)

/-- In every run the numbers are a numbering of the delivered files. -/
theorem readRecords_counted (blocks : List SourceBlock) {s : State} (counted : s.job.Counted)
    (table : Table s.recs s.job.delivered) : (readRecords blocks s).job.Counted := by
  induction blocks generalizing s with
  | nil => exact counted
  | cons block rest ih =>
      obtain ⟨counted', table'⟩ := table.readBlock block counted
      rw [readRecords]
      split
      · next s' round =>
        rw [round] at counted' table'
        exact ih counted' (table' rfl)
      · next s' _ round =>
        rw [round] at counted'
        exact counted'

theorem fileIndexOf_toInt {n : ℕ} (small : n < 2 ^ 31) : (fileIndexOf n).toInt = n := by
  rw [fileIndexOf, UInt32.toInt32_ofNat', Int32.toInt_ofNat_of_lt small]

/-- The number after the greatest `FileIndex` is not one. -/
theorem fileIndexOf_overflow : (fileIndexOf (2 ^ 31)).toInt < 1 := by decide

/-- The output is renumbered right exactly when the records of each file come together, of fewer
files than there are positive indices. -/
theorem Job.Counted.renumbers_iff {job : Job} (counted : job.Counted) :
    job.Renumbers ↔ Grouped job.delivered ∧ job.delivered.toFinset.card < 2 ^ 31 := by
  obtain ⟨l, n, counts⟩ := counted
  rw [counts.delivered]
  obtain ⟨numbering, numbered, jobFiles⟩ := counts
  by_cases small : n < 2 ^ 31
  · have index {e : SourceFile × ℕ} (member : e ∈ l) : (fileIndexOf e.2).toInt = e.2 :=
      fileIndexOf_toInt ((numbering.bounds member).2.trans_lt small)
    have files : job.jobFiles.toNat = n := by
      rw [jobFiles, UInt32.toNat_ofNat_of_lt' (by unfold UInt32.size; omega)]
    have faithful : Faithful job.numbered ↔ Grouped (l.map Prod.fst) := by
      rw [← numbering.faithful_iff_grouped, numbered]
      refine faithful_map_iff fun e member e' member' => ?_
      rw [← Int32.toInt_inj, index member, index member', Int.natCast_inj]
    have used (k : ℤ) : (∃ e ∈ job.numbered, e.2.toInt = k) ↔ 1 ≤ k ∧ k ≤ job.jobFiles.toNat := by
      rw [files, numbered]
      constructor
      · rintro ⟨e, member, rfl⟩
        obtain ⟨d, at_, rfl⟩ := List.mem_map.mp member
        have bounds := numbering.bounds at_
        rw [Prod.map_snd, index at_]
        omega
      · intro ⟨one, bound⟩
        obtain ⟨e, member, number⟩ := (numbering.used k.toNat).mpr (by omega)
        refine ⟨_, List.mem_map_of_mem member, ?_⟩
        rw [Prod.map_snd, index member, number]
        omega
    rw [Job.Renumbers, faithful]
    constructor
    · intro ⟨grouped, _⟩
      exact ⟨grouped, (numbering.card grouped).trans_lt small⟩
    · intro ⟨grouped, _⟩
      exact ⟨grouped, used⟩
  · constructor
    · intro ⟨_, used⟩
      obtain ⟨e, member, number⟩ := (numbering.used (2 ^ 31)).mpr ⟨by decide, by omega⟩
      have index := (used (fileIndexOf (2 ^ 31)).toInt).mp
        ⟨Prod.map id fileIndexOf e, numbered ▸ List.mem_map_of_mem member, by
          rw [← number]
          rfl⟩
      exact absurd fileIndexOf_overflow (not_lt.mpr index.1)
    · intro ⟨grouped, few⟩
      rw [numbering.card grouped] at few
      exact absurd few small

/-- The state when a virtual backup begins to read. -/
def start (volSessionId volSessionTime : UInt32) : State :=
  { job := { volSessionId, volSessionTime } }

/-- A virtual backup renumbers what it reads exactly when the records of each file come together,
of fewer files than there are positive indices. -/
theorem readRecords_renumbers_iff (volSessionId volSessionTime : UInt32)
    (blocks : List SourceBlock) :
    let job := (readRecords blocks (start volSessionId volSessionTime)).job
    job.Renumbers ↔ Grouped job.delivered ∧ job.delivered.toFinset.card < 2 ^ 31 :=
  (readRecords_counted blocks ⟨[], 0, .nil, rfl, rfl⟩ .nil).renumbers_iff

def taken (fileIndex : Int32) : Taken :=
  { fileIndex, stream := 2, data := [0], matchStat := 1 }

/-- A block of a session with a record of its first file. -/
def firstFile (volSessionId blockNumber : UInt32) : SourceBlock where
  key := ⟨volSessionId, 1700000000⟩
  blockNumber
  records := [taken 1]
  real same := absurd (congrArg SessionKey.volSessionTime same) (by decide : (1700000000 : UInt32) ≠ 0)

/-- The two records of a file get different numbers when the block of another session is between
them, and the second one gets the number of the other session's file. -/
theorem interleaved_not_renumbered :
    (readRecords [firstFile 1 1, firstFile 2 1, firstFile 1 2] (start 3 1700000100)).job.numbered =
        [(⟨⟨1, 1700000000⟩, 1⟩, 1), (⟨⟨2, 1700000000⟩, 1⟩, 2), (⟨⟨1, 1700000000⟩, 1⟩, 2)] ∧
      ¬ (readRecords [firstFile 1 1, firstFile 2 1, firstFile 1 2]
        (start 3 1700000100)).job.Renumbers := by
  have numbered : (readRecords [firstFile 1 1, firstFile 2 1, firstFile 1 2]
      (start 3 1700000100)).job.numbered =
        [(⟨⟨1, 1700000000⟩, 1⟩, 1), (⟨⟨2, 1700000000⟩, 1⟩, 2), (⟨⟨1, 1700000000⟩, 1⟩, 2)] := by
    decide
  refine ⟨numbered, fun ⟨faithful, _⟩ => ?_⟩
  rw [numbered] at faithful
  have same := (faithful (⟨⟨2, 1700000000⟩, 1⟩, 2) (by decide) (⟨⟨1, 1700000000⟩, 1⟩, 2)
    (by decide)).mp rfl
  exact absurd same (by decide)

end Bacula.Vbackup
