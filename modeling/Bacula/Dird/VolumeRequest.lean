import Bacula.Lib.Message

/-! The catalog requests of the storage daemon about a volume, `dird/catreq.c`. -/
namespace Bacula.VolumeRequest
open Message Scan

abbrev Text := List UInt8

/-- `bash_spaces`. -/
def bashSpaces (s : Text) : Text := s.map fun b => if b = 32 then 1 else b

/-- `unbash_spaces`. -/
def unbashSpaces (s : Text) : Text := s.map fun b => if b = 1 then 32 else b

/-- `edit_uint64`. -/
def editUint64 (val : UInt64) : Text := integer val.toNat

/-- `edit_int64`. The smallest number is its own negative, and its digits are looked up before the
string of the digits. -/
def editInt64 (val : Int64) : Option Text :=
  if val = Int64.minValue then none else some (integer val.toInt)

/-- The fields of `MEDIA_DBR` that an update of the volume reads or writes. -/
structure MediaDbr where
  mediaId : UInt32
  volumeName : Text
  firstWritten : Int64
  lastWritten : Int64
  labelDate : Int64
  initialWrite : Int64
  labelType : Int32
  volJobs : UInt32
  volFiles : UInt32
  volBlocks : UInt32
  volParts : UInt32
  volCloudParts : UInt32
  volMounts : UInt32
  volErrors : UInt32
  volWrites : UInt64
  volBytes : UInt64
  volABytes : UInt64
  volHoleBytes : UInt64
  volHoles : UInt32
  volType : UInt32
  maxVolBytes : UInt64
  volCapacityBytes : UInt64
  lastPartBytes : UInt64
  volReadTime : UInt64
  volWriteTime : UInt64
  volUseDuration : Int64
  maxVolJobs : UInt32
  maxVolFiles : UInt32
  recycle : Int32
  slot : Int32
  enabled : Int32
  inChanger : Int32
  endFile : UInt32
  endBlock : UInt32
  volStatus : Text
  scratchPoolId : UInt32

/-- The sizes that `has_quota_reached` fills in. -/
structure PoolDbr where
  maxPoolBytes : UInt64
  poolBytes : UInt64

def Find_media : List Char :=
  format [("CatReq JobId=", "%ld"), (" FindMedia=", "%d"), (" pool_name=", "%127s"),
    (" media_type=", "%127s"), (" vol_type=", "%d"), (" create=", "%d")]

def Get_Vol_Info : List Char :=
  format [("CatReq JobId=", "%ld"), (" GetVolInfo VolName=", "%127s"), (" write=", "%d")]

def Update_media : List Char :=
  format [("CatReq JobId=", "%ld"), (" UpdateMedia VolName=", "%s"), (" VolJobs=", "%u"),
    (" VolFiles=", "%u"), (" VolBlocks=", "%u"), (" VolBytes=", "%lld"), (" VolABytes=", "%lld"),
    (" VolHoleBytes=", "%lld"), (" VolHoles=", "%u"), (" VolMounts=", "%u"),
    (" VolErrors=", "%u"), (" VolWrites=", "%lld"), (" MaxVolBytes=", "%lld"),
    (" EndTime=", "%lld"), (" VolStatus=", "%10s"), (" Slot=", "%d"), (" relabel=", "%d"),
    (" InChanger=", "%d"), (" VolReadTime=", "%lld"), (" VolWriteTime=", "%lld"),
    (" VolFirstWritten=", "%lld"), (" VolType=", "%u"), (" VolParts=", "%d"),
    (" VolCloudParts=", "%d"), (" LastPartBytes=", "%lld"), (" Enabled=", "%d"),
    (" Recycle=", "%d")]

def OK_media : List Char :=
  format [("1000 OK VolName=", "%s"), (" VolJobs=", "%u"), (" VolFiles=", "%u"),
    (" VolBlocks=", "%u"), (" VolBytes=", "%s"), (" VolABytes=", "%s"), (" VolHoleBytes=", "%s"),
    (" VolHoles=", "%u"), (" VolMounts=", "%u"), (" VolErrors=", "%u"), (" VolWrites=", "%s"),
    (" MaxVolBytes=", "%s"), (" VolCapacityBytes=", "%s"), (" VolStatus=", "%s"),
    (" Slot=", "%d"), (" MaxVolJobs=", "%u"), (" MaxVolFiles=", "%u"), (" InChanger=", "%d"),
    (" VolReadTime=", "%s"), (" VolWriteTime=", "%s"), (" EndFile=", "%u"), (" EndBlock=", "%u"),
    (" VolType=", "%u"), (" LabelType=", "%d"), (" MediaId=", "%s"), (" ScratchPoolId=", "%s"),
    (" VolParts=", "%d"), (" VolCloudParts=", "%d"), (" LastPartBytes=", "%lld"),
    (" Enabled=", "%d"), (" MaxPoolBytes=", "%s"), (" PoolBytes=", "%s"), (" Recycle=", "%d")]

/-- `send_volume_info_to_storage_daemon`: the message. -/
def sendVolumeInfo (mr : MediaDbr) (pr : PoolDbr) : Option Text := do
  let volReadTime ← editInt64 mr.volReadTime.toInt64
  let volWriteTime ← editInt64 mr.volWriteTime.toInt64
  some (bsnprintf .text OK_media [
    .str (bashSpaces mr.volumeName), .word mr.volJobs, .word mr.volFiles, .word mr.volBlocks,
    .str (editUint64 mr.volBytes), .str (editUint64 mr.volABytes),
    .str (editUint64 mr.volHoleBytes), .word mr.volHoles, .word mr.volMounts, .word mr.volErrors,
    .str (editUint64 mr.volWrites), .str (editUint64 mr.maxVolBytes),
    .str (editUint64 mr.volCapacityBytes), .str mr.volStatus, .word mr.slot.toUInt32,
    .word mr.maxVolJobs, .word mr.maxVolFiles, .word mr.inChanger.toUInt32, .str volReadTime,
    .str volWriteTime, .word mr.endFile, .word mr.endBlock, .word mr.volType,
    .word mr.labelType.toUInt32, .str (editUint64 mr.mediaId.toUInt64),
    .str (editUint64 mr.scratchPoolId.toUInt64), .word mr.volParts, .word mr.volCloudParts,
    .quad mr.lastPartBytes, .word mr.enabled.toUInt32, .str (editUint64 pr.maxPoolBytes),
    .str (editUint64 pr.poolBytes), .word mr.recycle.toUInt32])

/-! ## Variables that are scanned -/

/-- The variables that `bsscanf` has stored, in their order. -/
abbrev Stored := StateT (List Value) Option

def nextWord : Stored UInt32
  | .word w :: rest => some (w, rest)
  | _ => none

def nextQuad : Stored UInt64
  | .quad q :: rest => some (q, rest)
  | _ => none

def nextStr : Stored Text
  | .str s :: rest => some (s, rest)
  | _ => none

/-- What the request to update a volume stores. -/
structure UpdateMedia where
  jobId : UInt32
  volumeName : Text
  volJobs : UInt32
  volFiles : UInt32
  volBlocks : UInt32
  volBytes : UInt64
  volABytes : UInt64
  volHoleBytes : UInt64
  volHoles : UInt32
  volMounts : UInt32
  volErrors : UInt32
  volWrites : UInt64
  maxVolBytes : UInt64
  volLastWritten : Int64
  volStatus : Text
  slot : Int32
  label : Int32
  inChanger : Int32
  volReadTime : UInt64
  volWriteTime : UInt64
  volFirstWritten : Int64
  volType : UInt32
  volParts : UInt32
  volCloudParts : UInt32
  lastPartBytes : UInt64
  enabled : Int32
  recycle : Int32

def storeUpdateMedia : Stored UpdateMedia := do
  let jobId ← nextWord
  let volumeName ← nextStr
  let volJobs ← nextWord
  let volFiles ← nextWord
  let volBlocks ← nextWord
  let volBytes ← nextQuad
  let volABytes ← nextQuad
  let volHoleBytes ← nextQuad
  let volHoles ← nextWord
  let volMounts ← nextWord
  let volErrors ← nextWord
  let volWrites ← nextQuad
  let maxVolBytes ← nextQuad
  let volLastWritten ← nextQuad
  let volStatus ← nextStr
  let slot ← nextWord
  let label ← nextWord
  let inChanger ← nextWord
  let volReadTime ← nextQuad
  let volWriteTime ← nextQuad
  let volFirstWritten ← nextQuad
  let volType ← nextWord
  let volParts ← nextWord
  let volCloudParts ← nextWord
  let lastPartBytes ← nextQuad
  let enabled ← nextWord
  let recycle ← nextWord
  return {
    jobId, volJobs, volFiles, volBlocks, volBytes, volABytes, volHoleBytes, volHoles, volMounts,
    volErrors, volWrites, maxVolBytes, volStatus, volReadTime, volWriteTime, volType, volParts,
    volCloudParts, lastPartBytes
    volumeName := unbashSpaces volumeName
    volLastWritten := volLastWritten.toInt64
    slot := slot.toInt32
    label := label.toInt32
    inChanger := inChanger.toInt32
    volFirstWritten := volFirstWritten.toInt64
    enabled := enabled.toInt32
    recycle := recycle.toInt32 }

inductive Request where
  | findMedia
  | getVolInfo
  | updateMedia (update : UpdateMedia)
  | other

/-- The requests that `catalog_request` tries, up to that of an update. -/
def catalogRequest (msg : Text) : Request :=
  if (bsscanf .text Find_media msg).isSome then .findMedia
  else if (bsscanf .text Get_Vol_Info msg).isSome then .getVolInfo
  else match (bsscanf .text Update_media msg).bind storeUpdateMedia with
    | some (update, []) => .updateMedia update
    | _ => .other

/-! ## The update of a volume -/

/-- What the Director knows besides the record of the volume. -/
structure Director where
  startTime : Int64
  now : Int64
  useVolumeOnce : Bool
  useMaxPoolBytes : Bool
  quotaReached : Bool
  pool : PoolDbr

def statusWord (s : String) : Text := s.toList.map byte

/-- `has_volume_expired`. -/
def hasVolumeExpired (d : Director) (mr : MediaDbr) : MediaDbr :=
  if mr.volStatus = statusWord "Append" ∧ mr.volJobs > 0 then
    if mr.maxVolBytes > 0 ∧ mr.volBytes ≥ mr.maxVolBytes then
      { mr with volStatus := statusWord "Full" }
    else if (mr.volBytes > 0 ∧ d.useVolumeOnce) ∨
        (mr.maxVolJobs > 0 ∧ mr.maxVolJobs ≤ mr.volJobs) ∨
        (mr.maxVolFiles > 0 ∧ mr.maxVolFiles ≤ mr.volFiles) ∨
        (mr.volUseDuration > 0 ∧ mr.volUseDuration ≤ d.now - mr.firstWritten) ∨
        (d.useMaxPoolBytes ∧ d.quotaReached) then
      { mr with volStatus := statusWord "Used" }
    else mr
  else if d.useMaxPoolBytes ∧ d.quotaReached then { mr with volStatus := statusWord "Used" }
  else mr

/-- The record of the volume with the values of the request. The times have no sign, so that the
tests for negative ones always succeed. -/
def updateRecord (d : Director) (mr : MediaDbr) (u : UpdateMedia) : MediaDbr :=
  let mr := if mr.firstWritten = 0 then
      { mr with firstWritten := if u.volFirstWritten = 0 then d.startTime else u.volFirstWritten }
    else mr
  let labeled : Bool := u.label ≠ 0 ∨ mr.labelDate = 0
  -- VolFiles does not get a smaller value
  let volFiles := if ¬ labeled ∧ u.volFiles < mr.volFiles then mr.volFiles else u.volFiles
  let mr := if labeled then
      { mr with
        labelDate := d.startTime
        initialWrite := if mr.initialWrite = 0 then d.startTime else mr.initialWrite }
    else mr
  let mr := if mr.volBlocks ≠ u.volBlocks ∧ u.volLastWritten ≠ 0 then
      { mr with lastWritten := u.volLastWritten }
    else mr
  { mr with
    volFiles
    volJobs := u.volJobs
    volBlocks := u.volBlocks
    volBytes := u.volBytes
    volABytes := u.volABytes
    volHoleBytes := u.volHoleBytes
    volHoles := u.volHoles
    volMounts := u.volMounts
    volErrors := u.volErrors
    volWrites := u.volWrites
    slot := u.slot
    inChanger := u.inChanger
    volType := u.volType
    volParts := u.volParts
    volCloudParts := u.volCloudParts
    lastPartBytes := u.lastPartBytes
    enabled := u.enabled
    recycle := u.recycle
    volStatus := u.volStatus
    volReadTime := if u.volReadTime ≥ 0 then u.volReadTime else mr.volReadTime
    volWriteTime := if u.volWriteTime ≥ 0 then u.volWriteTime else mr.volWriteTime }

/-- The update of a volume whose record is found, and the reply. -/
def replyToUpdate (d : Director) (mr : MediaDbr) (u : UpdateMedia) : Option Text :=
  sendVolumeInfo (hasVolumeExpired d (updateRecord d mr u)) d.pool

end Bacula.VolumeRequest
