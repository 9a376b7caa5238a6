import Bacula.Dird.VolumeRequest

/-! The messages about a volume that the storage daemon exchanges with the Director,
`stored/askdir.c`. -/
namespace Bacula.Askdir
open Message Scan VolumeRequest

/-- The fields of `VOLUME_CAT_INFO` that are sent or received. -/
structure VolumeCatInfo where
  volCatBytes : UInt64
  volCatAmetaBytes : UInt64
  volCatAdataBytes : UInt64
  volCatBlocks : UInt32
  volCatWrites : UInt32
  volCatHoleBytes : UInt64
  volLastPartBytes : UInt64
  volCatHoles : UInt32
  volCatJobs : UInt32
  volCatFiles : UInt32
  volCatType : UInt32
  volCatParts : UInt32
  volCatCloudParts : UInt32
  volCatMounts : UInt32
  volCatErrors : UInt32
  endFile : UInt32
  endBlock : UInt32
  labelType : Int32
  slot : Int32
  volCatMaxJobs : UInt32
  volCatMaxFiles : UInt32
  volCatMaxBytes : UInt64
  volCatCapacityBytes : UInt64
  volReadTime : Int64
  volWriteTime : Int64
  volMediaId : Int64
  volScratchPoolId : Int64
  maxPoolBytes : Int64
  poolBytes : Int64
  volFirstWritten : Int64
  volLastWritten : Int64
  inChanger : Bool
  volEnabled : Bool
  volRecycle : Bool
  volCatStatus : Text
  volCatName : Text
  deriving DecidableEq

def Update_media : List Char :=
  format [("CatReq JobId=", "%ld"), (" UpdateMedia VolName=", "%s"), (" VolJobs=", "%u"),
    (" VolFiles=", "%u"), (" VolBlocks=", "%u"), (" VolBytes=", "%s"), (" VolABytes=", "%s"),
    (" VolHoleBytes=", "%s"), (" VolHoles=", "%u"), (" VolMounts=", "%u"), (" VolErrors=", "%u"),
    (" VolWrites=", "%u"), (" MaxVolBytes=", "%s"), (" EndTime=", "%s"), (" VolStatus=", "%s"),
    (" Slot=", "%d"), (" relabel=", "%d"), (" InChanger=", "%d"), (" VolReadTime=", "%s"),
    (" VolWriteTime=", "%s"), (" VolFirstWritten=", "%s"), (" VolType=", "%u"),
    (" VolParts=", "%d"), (" VolCloudParts=", "%d"), (" LastPartBytes=", "%lld"),
    (" Enabled=", "%d"), (" Recycle=", "%d")]

def OK_media : List Char :=
  format [("1000 OK VolName=", "%127s"), (" VolJobs=", "%u"), (" VolFiles=", "%lu"),
    (" VolBlocks=", "%lu"), (" VolBytes=", "%lld"), (" VolABytes=", "%lld"),
    (" VolHoleBytes=", "%lld"), (" VolHoles=", "%lu"), (" VolMounts=", "%lu"),
    (" VolErrors=", "%lu"), (" VolWrites=", "%lu"), (" MaxVolBytes=", "%lld"),
    (" VolCapacityBytes=", "%lld"), (" VolStatus=", "%20s"), (" Slot=", "%ld"),
    (" MaxVolJobs=", "%lu"), (" MaxVolFiles=", "%lu"), (" InChanger=", "%ld"),
    (" VolReadTime=", "%lld"), (" VolWriteTime=", "%lld"), (" EndFile=", "%lu"),
    (" EndBlock=", "%lu"), (" VolType=", "%lu"), (" LabelType=", "%ld"), (" MediaId=", "%lld"),
    (" ScratchPoolId=", "%lld"), (" VolParts=", "%d"), (" VolCloudParts=", "%d"),
    (" LastPartBytes=", "%lld"), (" Enabled=", "%d"), (" MaxPoolBytes=", "%lld"),
    (" PoolBytes=", "%lld"), (" Recycle=", "%d")]

/-- The call of `dir_update_volume_info`: its arguments, the job, the device and the time. -/
structure Update where
  jobId : UInt32
  label : Bool
  useDcrOnly : Bool
  isWorm : Bool
  devType : UInt32
  time : Int64

def flag (b : Bool) : UInt32 := if b then 1 else 0

/-- What is sent of the volume. -/
def prepare (c : Update) (vol : VolumeCatInfo) : VolumeCatInfo :=
  let vol := if c.label ∧ ¬ c.useDcrOnly then { vol with volCatStatus := statusWord "Append" } else vol
  { vol with
    volLastWritten := c.time
    -- worm cannot be recycled
    volRecycle := if c.isWorm ∧ vol.volRecycle then false else vol.volRecycle
    -- Insanity test
    volCatHoleBytes := if vol.volCatHoleBytes.toNat > 2 * 2 ^ 60 then 0 else vol.volCatHoleBytes
    volCatType := if vol.volCatType = 0 then c.devType else vol.volCatType }

/-- The message of `dir_update_volume_info`. -/
def updateMessage (c : Update) (vol : VolumeCatInfo) : Option Text := do
  let volReadTime ← editInt64 vol.volReadTime
  let volWriteTime ← editInt64 vol.volWriteTime
  some (bsnprintf .text Update_media [
    .word c.jobId, .str (bashSpaces vol.volCatName), .word vol.volCatJobs, .word vol.volCatFiles,
    .word vol.volCatBlocks, .str (editUint64 vol.volCatAmetaBytes),
    .str (editUint64 vol.volCatAdataBytes), .str (editUint64 vol.volCatHoleBytes),
    .word vol.volCatHoles, .word vol.volCatMounts, .word vol.volCatErrors, .word vol.volCatWrites,
    .str (editUint64 vol.volCatMaxBytes), .str (editUint64 vol.volLastWritten.toUInt64),
    .str vol.volCatStatus, .word vol.slot.toUInt32, .word (flag c.label),
    .word (flag vol.inChanger), .str volReadTime, .str volWriteTime,
    .str (editUint64 vol.volFirstWritten.toUInt64), .word vol.volCatType, .word vol.volCatParts,
    .word vol.volCatCloudParts, .quad vol.volLastPartBytes, .word (flag vol.volEnabled),
    .word (flag vol.volRecycle)])

/-- `dir_update_volume_info` up to the reply: nothing is sent without a volume name. -/
def dirUpdateVolumeInfo (c : Update) (vol : VolumeCatInfo) : Option Text :=
  if vol.volCatName = [] then none else updateMessage c (prepare c vol)

def storeVolume : Stored VolumeCatInfo := do
  let volCatName ← nextStr
  let volCatJobs ← nextWord
  let volCatFiles ← nextWord
  let volCatBlocks ← nextWord
  let volCatAmetaBytes ← nextQuad
  let volCatAdataBytes ← nextQuad
  let volCatHoleBytes ← nextQuad
  let volCatHoles ← nextWord
  let volCatMounts ← nextWord
  let volCatErrors ← nextWord
  let volCatWrites ← nextWord
  let volCatMaxBytes ← nextQuad
  let volCatCapacityBytes ← nextQuad
  let volCatStatus ← nextStr
  let slot ← nextWord
  let volCatMaxJobs ← nextWord
  let volCatMaxFiles ← nextWord
  let inChanger ← nextWord
  let volReadTime ← nextQuad
  let volWriteTime ← nextQuad
  let endFile ← nextWord
  let endBlock ← nextWord
  let volCatType ← nextWord
  let labelType ← nextWord
  let volMediaId ← nextQuad
  let volScratchPoolId ← nextQuad
  let volCatParts ← nextWord
  let volCatCloudParts ← nextWord
  let volLastPartBytes ← nextQuad
  let enabled ← nextWord
  let maxPoolBytes ← nextQuad
  let poolBytes ← nextQuad
  let recycle ← nextWord
  return {
    volCatJobs, volCatFiles, volCatBlocks, volCatAmetaBytes, volCatAdataBytes, volCatHoleBytes,
    volCatHoles, volCatMounts, volCatErrors, volCatWrites, volCatMaxBytes, volCatCapacityBytes,
    volCatStatus, volCatMaxJobs, volCatMaxFiles, endFile, endBlock, volCatType, volCatParts,
    volCatCloudParts, volLastPartBytes
    volCatName := unbashSpaces volCatName
    slot := slot.toInt32
    volReadTime := volReadTime.toInt64
    volWriteTime := volWriteTime.toInt64
    labelType := labelType.toInt32
    volMediaId := volMediaId.toInt64
    volScratchPoolId := volScratchPoolId.toInt64
    maxPoolBytes := maxPoolBytes.toInt64
    poolBytes := poolBytes.toInt64
    -- cleared before the scan
    volFirstWritten := 0
    volLastWritten := 0
    -- bool in structure
    inChanger := inChanger ≠ 0
    volEnabled := enabled ≠ 0
    volRecycle := recycle ≠ 0
    volCatBytes := volCatAmetaBytes + volCatAdataBytes }

/-- `do_get_volume_info`. -/
def doGetVolumeInfo (msg : Text) : Option VolumeCatInfo :=
  match (bsscanf .text OK_media msg).bind storeVolume with
  | some (vol, []) => some vol
  | _ => none

/-- An update and the reply to it. -/
def exchange (c : Update) (d : Director) (mr : MediaDbr) (vol : VolumeCatInfo) :
    Option VolumeCatInfo := do
  let msg ← dirUpdateVolumeInfo c vol
  match catalogRequest msg with
  | .updateMedia u => doGetVolumeInfo (← replyToUpdate d mr u)
  | _ => none

end Bacula.Askdir
