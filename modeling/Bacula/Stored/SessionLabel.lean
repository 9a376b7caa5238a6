import Bacula.Stored.Label

/-! Start and end of session labels of `stored/label.c`. -/
namespace Bacula.Label
open ByteCodec

/-- `struct Session_Label`. -/
structure SessionLabel where
  id : Field 32
  verNum : UInt32
  jobId : UInt32
  writeBtime : Int64
  writeDate : UInt64
  writeTime : UInt64
  poolName : Name
  poolType : Name
  jobName : Name
  clientName : Name
  job : Name
  fileSetName : Name
  fileSetMd5 : Name
  jobType : UInt32
  jobLevel : UInt32
  jobFiles : UInt32
  jobBytes : UInt64
  startBlock : UInt32
  endBlock : UInt32
  startFile : UInt32
  endFile : UInt32
  jobErrors : UInt32
  jobStatus : UInt32
  deriving DecidableEq

/-- The lower and upper half of a volume address: block and file. -/
def addrBlock (addr : UInt64) : UInt32 := addr.toUInt32

def addrFile (addr : UInt64) : UInt32 := (addr >>> 32).toUInt32

def joinAddr (file block : UInt32) : UInt64 := (file.toUInt64 <<< 32) ||| block.toUInt64

/-- The totals of an end of session label. -/
def serSessionTotals (jcr : Jcr) (dcr : Dcr) : List UInt8 :=
  serialUint32 jcr.jobFiles ++ (serialUint64 jcr.jobBytes ++
  (serialUint32 (addrBlock dcr.startAddr) ++ (serialUint32 (addrBlock dcr.endAddr) ++
  (serialUint32 (addrFile dcr.startAddr) ++ (serialUint32 (addrFile dcr.endAddr) ++
  (serialUint32 jcr.jobErrors ++ serialUint32 jcr.jobStatus.toUInt32))))))

/-- The `ser_` statements of `create_session_label`, in their order. -/
def serSessionLabel (now : Clock) (jcr : Jcr) (dcr : Dcr) (label : Int32) : List UInt8 :=
  serialString baculaId ++ (serialUint32 baculaTapeVersion ++ (serialUint32 jcr.jobId ++
  (serialBtime now.btime ++ (serialFloat64 0 ++
  (serialString dcr.poolName ++ (serialString dcr.poolType ++
  (serialString jcr.jobName ++ (serialString jcr.clientName ++
  (serialString jcr.job ++ (serialString jcr.filesetName ++
  (serialUint32 jcr.jobType.toUInt32 ++ (serialUint32 jcr.jobLevel.toUInt32 ++
  (serialString jcr.filesetMd5 ++
  if label = EOS_LABEL then serSessionTotals jcr dcr else [])))))))))))))

/-- The buffer is not cleared first: what it held behind the label stays there. A failed
length assertion gives `none`. -/
def createSessionLabel (now : Clock) (jcr : Jcr) (dcr : Dcr) (rec : DevRecord) (label : Int32) :
    Option DevRecord :=
  let stored := serSessionLabel now jcr dcr label
  let buf := checkPoolMemorySize rec.data serLengthLabel
  if serLengthLabel < stored.length then none
  else some { rec with
    volSessionId := jcr.volSessionId
    volSessionTime := jcr.volSessionTime
    stream := jcr.jobId.toInt32
    maskedStream := jcr.jobId.toInt32
    data := stored ++ buf.drop stored.length
    dataLen := stored.length }

/-- The label record as `write_session_label` passes it to `write_record`. -/
def sessionLabelRecord (now : Clock) (jcr : Jcr) (dcr : Dcr) (rec : DevRecord) (label : Int32) :
    Option DevRecord :=
  (createSessionLabel now jcr dcr rec label).map fun rec => { rec with fileIndex := label }

/-- `JS_Terminated`. -/
def jsTerminated : UInt32 := 84

def unserSessionTotals (l : SessionLabel) : Decoder SessionLabel := do
  let jobFiles ← unserialUint32
  let jobBytes ← unserialUint64
  let startBlock ← unserialUint32
  let endBlock ← unserialUint32
  let startFile ← unserialUint32
  let endFile ← unserialUint32
  let jobErrors ← unserialUint32
  let jobStatus ← if 11 ≤ l.verNum then unserialUint32 else pure jsTerminated
  pure { l with
    jobFiles, jobBytes, startBlock, endBlock, startFile, endFile, jobErrors, jobStatus }

/-- The `unser_` statements of `unser_session_label`, in their order. -/
def unserSessionLabelFields (l : SessionLabel) (fileIndex : Int32) : Decoder SessionLabel := do
  let id ← unserialString 32
  let verNum ← unserialUint32
  let jobId ← unserialUint32
  let l := { l with id, verNum, jobId }
  let l ←
    if 11 ≤ verNum then do
      let writeBtime ← unserialBtime
      pure { l with writeBtime }
    else do
      let writeDate ← unserialFloat64
      pure { l with writeDate }
  let writeTime ← unserialFloat64
  let poolName ← unserialString 128
  let poolType ← unserialString 128
  let jobName ← unserialString 128
  let clientName ← unserialString 128
  let l := { l with writeTime, poolName, poolType, jobName, clientName }
  let l ←
    if 10 ≤ verNum then do
      let job ← unserialString 128
      let fileSetName ← unserialString 128
      let jobType ← unserialUint32
      let jobLevel ← unserialUint32
      pure { l with job, fileSetName, jobType, jobLevel }
    else pure l
  let fileSetMd5 ← if 11 ≤ verNum then unserialString 128 else pure (.empty 127)
  let l := { l with fileSetMd5 }
  if fileIndex = EOS_LABEL then unserSessionTotals l else pure l

/-- The label afterwards; the source returns true in every case. -/
def unserSessionLabel (l : SessionLabel) (rec : DevRecord) : Except Fault SessionLabel :=
  let buf := checkPoolMemorySize rec.data serLengthLabel
  match (unserSessionLabelFields l rec.fileIndex).run buf with
  | .ok (l, _) => .ok l
  | .error fault => .error fault

/-- The totals that belong to the state the label was made from. -/
def SessionLabel.withTotals (l : SessionLabel) (jcr : Jcr) (dcr : Dcr) : SessionLabel :=
  { l with
    jobFiles := jcr.jobFiles
    jobBytes := jcr.jobBytes
    startBlock := addrBlock dcr.startAddr
    endBlock := addrBlock dcr.endAddr
    startFile := addrFile dcr.startAddr
    endFile := addrFile dcr.endAddr
    jobErrors := jcr.jobErrors
    jobStatus := jcr.jobStatus.toUInt32 }

def SessionLabel.withJob (l : SessionLabel) (now : Clock) (jcr : Jcr) (dcr : Dcr) : SessionLabel :=
  { l with
    id := baculaId
    verNum := baculaTapeVersion
    jobId := jcr.jobId
    writeBtime := now.btime
    writeTime := 0
    poolName := dcr.poolName
    poolType := dcr.poolType
    jobName := jcr.jobName
    clientName := jcr.clientName
    job := jcr.job
    fileSetName := jcr.filesetName
    fileSetMd5 := jcr.filesetMd5
    jobType := jcr.jobType.toUInt32
    jobLevel := jcr.jobLevel.toUInt32 }

theorem unserSessionTotals_ser (l : SessionLabel) (jcr : Jcr) (dcr : Dcr) (rest : List UInt8)
    (recent : 11 ≤ l.verNum) :
    (unserSessionTotals l).run (serSessionTotals jcr dcr ++ rest) =
      .ok (l.withTotals jcr dcr, rest) := by
  simp -implicitDefEqProofs only [unserSessionTotals, serSessionTotals, recent, if_true,
    List.append_assoc, StateT.run_bind, StateT.run_pure, pure_bind, ok_bind,
    unserialUint32_serial, unserialUint64_serial]
  rfl

theorem unserSessionLabelFields_ser (old : SessionLabel) (now : Clock) (jcr : Jcr) (dcr : Dcr)
    (label : Int32) (rest : List UInt8) :
    (unserSessionLabelFields old label).run (serSessionLabel now jcr dcr label ++ rest) =
      .ok (if label = EOS_LABEL then (old.withJob now jcr dcr).withTotals jcr dcr
        else old.withJob now jcr dcr, rest) := by
  have recent : (11 : UInt32) ≤ baculaTapeVersion := by decide
  have unique : (10 : UInt32) ≤ baculaTapeVersion := by decide
  by_cases eos : label = EOS_LABEL
  · simp -implicitDefEqProofs only [unserSessionLabelFields, serSessionLabel, recent, unique, eos,
      if_true, List.append_assoc, StateT.run_bind, pure_bind, ok_bind, unserialString_serial,
      unserialUint32_serial, unserialBtime_serial, unserialFloat64_serial]
    apply unserSessionTotals_ser
    exact recent
  · simp -implicitDefEqProofs only [unserSessionLabelFields, serSessionLabel, recent, unique, eos,
      if_true, if_false, List.append_assoc, List.nil_append, StateT.run_bind, StateT.run_pure,
      pure_bind, ok_bind, unserialString_serial, unserialUint32_serial, unserialBtime_serial,
      unserialFloat64_serial]
    rfl

theorem serSessionLabel_length_le (now : Clock) (jcr : Jcr) (dcr : Dcr) (label : Int32) :
    (serSessionLabel now jcr dcr label).length ≤ serLengthLabel := by
  have id := baculaId.stored_length_le
  have poolName := dcr.poolName.stored_length_le
  have poolType := dcr.poolType.stored_length_le
  have jobName := jcr.jobName.stored_length_le
  have clientName := jcr.clientName.stored_length_le
  have job := jcr.job.stored_length_le
  have filesetName := jcr.filesetName.stored_length_le
  have filesetMd5 := jcr.filesetMd5.stored_length_le
  have totals : (if label = EOS_LABEL then serSessionTotals jcr dcr else []).length ≤ 36 := by
    split
    · simp [serSessionTotals]
    · simp
  simp only [serSessionLabel, List.length_append, serialUint32_length, serialBtime_length,
    serialFloat64_length]
  simp only [serialString, serLengthLabel]
  linarith

theorem joinAddr_addrFile_addrBlock (addr : UInt64) :
    joinAddr (addrFile addr) (addrBlock addr) = addr := by
  have small := addr.toNat_lt
  have low : addr.toNat % 2 ^ 32 < 2 ^ 32 := Nat.mod_lt _ (by decide)
  have high : addr.toNat / 2 ^ 32 < 2 ^ 32 := by omega
  have scaled : addr.toNat / 2 ^ 32 * 2 ^ 32 < 2 ^ 64 := by omega
  apply UInt64.toNat_inj.mp
  calc (joinAddr (addrFile addr) (addrBlock addr)).toNat
      = (addr.toNat / 2 ^ 32) <<< 32 ||| addr.toNat % 2 ^ 32 := by
        norm_num at high scaled
        simp [joinAddr, addrFile, addrBlock, Nat.shiftLeft_eq, Nat.shiftRight_eq_div_pow,
          Nat.mod_eq_of_lt high, Nat.mod_eq_of_lt scaled]
    _ = addr.toNat / 2 ^ 32 * 2 ^ 32 + addr.toNat % 2 ^ 32 := by
        rw [← Nat.shiftLeft_add_eq_or_of_lt low, Nat.shiftLeft_eq]
    _ = addr.toNat := Nat.div_add_mod' _ _

/-- What a session label `l` recovers from the state it was made from. -/
structure Recovers (now : Clock) (jcr : Jcr) (dcr : Dcr) (label : Int32) (rec : DevRecord)
    (l : SessionLabel) : Prop where
  fileIndex : rec.fileIndex = label
  session : rec.volSessionId = jcr.volSessionId ∧ rec.volSessionTime = jcr.volSessionTime
  jobId : l.jobId = jcr.jobId
  writeBtime : l.writeBtime = now.btime
  poolName : l.poolName = dcr.poolName
  poolType : l.poolType = dcr.poolType
  jobName : l.jobName = jcr.jobName
  clientName : l.clientName = jcr.clientName
  job : l.job = jcr.job
  fileSetName : l.fileSetName = jcr.filesetName
  jobType : l.jobType.toInt32 = jcr.jobType
  jobLevel : l.jobLevel.toInt32 = jcr.jobLevel
  fileSetMd5 : l.fileSetMd5 = jcr.filesetMd5
  totals : label = EOS_LABEL →
    l.jobFiles = jcr.jobFiles ∧ l.jobBytes = jcr.jobBytes ∧
    joinAddr l.startFile l.startBlock = dcr.startAddr ∧
    joinAddr l.endFile l.endBlock = dcr.endAddr ∧
    l.jobErrors = jcr.jobErrors ∧ l.jobStatus.toInt32 = jcr.jobStatus

theorem sessionLabelRecord_eq (now : Clock) (jcr : Jcr) (dcr : Dcr) (rec : DevRecord)
    (label : Int32) :
    ∃ rec' rest, sessionLabelRecord now jcr dcr rec label = some rec' ∧
      rec'.fileIndex = label ∧ rec'.volSessionId = jcr.volSessionId ∧
      rec'.volSessionTime = jcr.volSessionTime ∧
      rec'.data = serSessionLabel now jcr dcr label ++ rest := by
  have fits := Nat.not_lt.mpr (serSessionLabel_length_le now jcr dcr label)
  simp only [sessionLabelRecord, createSessionLabel, if_neg fits]
  exact ⟨_, _, rfl, rfl, rfl, rfl, rfl⟩

theorem unserSessionLabel_ser (old : SessionLabel) (now : Clock) (jcr : Jcr) (dcr : Dcr)
    (label : Int32) (rec : DevRecord) (rest : List UInt8) (typed : rec.fileIndex = label)
    (stored : rec.data = serSessionLabel now jcr dcr label ++ rest) :
    unserSessionLabel old rec = .ok (if label = EOS_LABEL
      then (old.withJob now jcr dcr).withTotals jcr dcr else old.withJob now jcr dcr) := by
  have buffer : checkPoolMemorySize rec.data serLengthLabel = serSessionLabel now jcr dcr label ++
      (rest ++ List.replicate (serLengthLabel - rec.data.length) 0) := by
    rw [← List.append_assoc, ← stored]
    rfl
  simp only [unserSessionLabel, typed, buffer, unserSessionLabelFields_ser]

/-- Every value that is in the label is recovered, at every state and for every label type. -/
theorem sessionLabel_roundTrip (now : Clock) (jcr : Jcr) (dcr : Dcr) (rec : DevRecord)
    (label : Int32) (old : SessionLabel) :
    ∃ rec' l, sessionLabelRecord now jcr dcr rec label = some rec' ∧
      unserSessionLabel old rec' = .ok l ∧ Recovers now jcr dcr label rec' l := by
  obtain ⟨rec', rest, made, typed, sessionId, sessionTime, stored⟩ :=
    sessionLabelRecord_eq now jcr dcr rec label
  refine ⟨rec', _, made, unserSessionLabel_ser old now jcr dcr label rec' rest typed stored, ?_⟩
  by_cases eos : label = EOS_LABEL
  · rw [if_pos eos]
    exact {
      fileIndex := typed, session := ⟨sessionId, sessionTime⟩, jobId := rfl, writeBtime := rfl
      poolName := rfl, poolType := rfl, jobName := rfl, clientName := rfl, job := rfl
      fileSetName := rfl, jobType := jcr.jobType.toInt32_toUInt32
      jobLevel := jcr.jobLevel.toInt32_toUInt32, fileSetMd5 := rfl
      totals := fun _ => ⟨rfl, rfl, joinAddr_addrFile_addrBlock dcr.startAddr,
        joinAddr_addrFile_addrBlock dcr.endAddr, rfl, jcr.jobStatus.toInt32_toUInt32⟩ }
  · rw [if_neg eos]
    exact {
      fileIndex := typed, session := ⟨sessionId, sessionTime⟩, jobId := rfl, writeBtime := rfl
      poolName := rfl, poolType := rfl, jobName := rfl, clientName := rfl, job := rfl
      fileSetName := rfl, jobType := jcr.jobType.toInt32_toUInt32
      jobLevel := jcr.jobLevel.toInt32_toUInt32, fileSetMd5 := rfl
      totals := fun h => absurd h eos }

/-- The index range of the session and the start time of the job are not in the label:
nothing computed from the label gives them back. -/
theorem sessionLabel_forgets_indexes :
    (¬ ∃ recover : SessionLabel → UInt32 × UInt32,
      ∀ now jcr dcr rec rec' old l, sessionLabelRecord now jcr dcr rec EOS_LABEL = some rec' →
        unserSessionLabel old rec' = .ok l →
        recover l = (dcr.volFirstIndex, dcr.volLastIndex)) ∧
    (¬ ∃ recover : SessionLabel → Int64,
      ∀ now jcr dcr rec rec' old l, sessionLabelRecord now jcr dcr rec EOS_LABEL = some rec' →
        unserSessionLabel old rec' = .ok l → recover l = jcr.startTime) := by
  let now : Clock := ⟨0, 0, 0⟩
  let blank : SessionLabel :=
    { id := .empty 31, verNum := 0, jobId := 0, writeBtime := 0, writeDate := 0, writeTime := 0,
      poolName := .empty 127, poolType := .empty 127, jobName := .empty 127,
      clientName := .empty 127, job := .empty 127, fileSetName := .empty 127,
      fileSetMd5 := .empty 127, jobType := 0, jobLevel := 0, jobFiles := 0, jobBytes := 0,
      startBlock := 0, endBlock := 0, startFile := 0, endFile := 0, jobErrors := 0,
      jobStatus := 0 }
  constructor
  · rintro ⟨recover, recovers⟩
    obtain ⟨rec', rest, made, typed, -, -, stored⟩ :=
      sessionLabelRecord_eq now idleJcr idleDcr {} EOS_LABEL
    have read := unserSessionLabel_ser blank now idleJcr idleDcr EOS_LABEL rec' rest typed stored
    have first := recovers now idleJcr idleDcr {} rec' blank _ made read
    have second := recovers now idleJcr { idleDcr with volLastIndex := 9 } {} rec' blank _ made read
    rw [first] at second
    cases second
  · rintro ⟨recover, recovers⟩
    obtain ⟨rec', rest, made, typed, -, -, stored⟩ :=
      sessionLabelRecord_eq now idleJcr idleDcr {} EOS_LABEL
    have read := unserSessionLabel_ser blank now idleJcr idleDcr EOS_LABEL rec' rest typed stored
    have first := recovers now idleJcr idleDcr {} rec' blank _ made read
    have second := recovers now { idleJcr with startTime := 0 } idleDcr {} rec' blank _ made read
    rw [first] at second
    revert second
    decide

end Bacula.Label
