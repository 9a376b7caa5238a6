import Bacula.Stored.Block
import Bacula.Stored.Record

/-! Writing records to blocks, `stored/record_write.c`, on a device without aligned volumes.
FileMedia records are left out. -/
namespace Bacula
open ByteCodec

def WRITE_RECHDR_LENGTH : ℕ := 12

/-- The `ser_` statements for a record header. -/
def recordHeader (fileIndex stream : Int32) (len : ℕ) : List UInt8 :=
  serialInt32 fileIndex ++ (serialInt32 stream ++ serialUint32 (UInt32.ofNat len))

/-- If data record, update what we have in this block. -/
def DevBlock.noteIndex (block : DevBlock) (fileIndex : Int32) : DevBlock :=
  if 0 < fileIndex then
    { block with
      firstIndex := if block.firstIndex = 0 then fileIndex else block.firstIndex
      lastIndex := fileIndex }
  else block

/-- What both header routines do with the block. -/
def DevBlock.putHeader (block : DevBlock) (rec : DevRecord) (stream : Int32) (len : ℕ) : DevBlock :=
  let block := { block with volSessionId := rec.volSessionId, volSessionTime := rec.volSessionTime }
  let block := (block.put (recordHeader rec.fileIndex stream len)).noteIndex rec.fileIndex
  { block with recNum := block.recNum + 1, extraBytes := block.extraBytes + rec.extraBytes }

/-- `write_header_to_block`. -/
def writeHeaderToBlock (block : DevBlock) (rec : DevRecord) : Bool × DevBlock × DevRecord :=
  let remlen := block.bufLen - block.binbuf
  if remlen < WRITE_RECHDR_LENGTH then
    (false, block, { rec with remlen, remainder := rec.dataLen + WRITE_RECHDR_LENGTH })
  else
    (true, block.putHeader rec rec.stream rec.dataLen,
      { rec with remlen := remlen - WRITE_RECHDR_LENGTH, remainder := rec.dataLen })

/-- `write_continue_header_to_block`. The header of a record that is not begun is a normal
one. A failed assertion gives `none`. -/
def writeContinueHeaderToBlock (block : DevBlock) (rec : DevRecord) :
    Option (DevBlock × DevRecord) :=
  let remlen := block.bufLen - block.binbuf
  if remlen = 0 then some (block, { rec with remlen })
  else if remlen < WRITE_RECHDR_LENGTH then none
  else
    let rec' := { rec with remlen := remlen - WRITE_RECHDR_LENGTH }
    if rec.dataLen < rec.remainder then
      some (block.putHeader rec rec.stream rec.dataLen, { rec' with remainder := rec.dataLen })
    else some (block.putHeader rec (-rec.stream) rec.remainder, rec')

/-- `write_data_to_block`. -/
def writeDataToBlock (block : DevBlock) (rec : DevRecord) : Bool × DevBlock × DevRecord :=
  let remlen := block.bufLen - block.binbuf
  let left := rec.data.drop (rec.dataLen - rec.remainder)
  if rec.remainder ≤ remlen then
    (true, block.put (left.take rec.remainder), { rec with remlen, remainder := 0 })
  else if rec.stateBits.noSplit then (false, block, { rec with remlen })
  else
    (false, block.put (left.take remlen), { rec with remlen, remainder := rec.remainder - remlen })

/-- `write_record_to_block` in state `st_data`. -/
def writeDataState (block : DevBlock) (rec : DevRecord) : Bool × DevBlock × DevRecord :=
  let (ok, block, rec) :=
    if 0 < rec.remainder then writeDataToBlock block rec else (true, block, rec)
  if ok then
    (true, block, { rec with
      stateBits := { rec.stateBits with noSplit := false }, remainder := 0, wstate := .none })
  else
    (false, block, { rec with wstate := if rec.stateBits.noSplit then .header else .contHeader })

/-- The switch of `write_record_to_block`; on this device `st_none` goes to `st_header`. -/
def writeRecordToBlock (block : DevBlock) (rec : DevRecord) :
    Option (Bool × DevBlock × DevRecord) :=
  match rec.wstate with
  | .none | .header =>
      match writeHeaderToBlock block { rec with wstate := .header } with
      | (true, block, rec) => some (writeDataState block { rec with wstate := .data })
      | (false, block, rec) => some (false, block, { rec with wstate := .contHeader })
  | .contHeader =>
      match writeContinueHeaderToBlock block rec with
      | none => none
      | some (block, rec) =>
          if rec.remlen = 0 then some (false, block, { rec with wstate := .data })
          else some (writeDataState block { rec with wstate := .data })
  | .data => some (writeDataState block rec)

/-- The loop of `DCR::write_record`: a block that is full goes to the device. -/
def writeRecordLoop (dev : BlockDevice) : ℕ → DevBlock → DevRecord → List (List UInt8) →
    Option (DevBlock × List (List UInt8))
  | 0, _, _, _ => none
  | fuel + 1, block, rec, written =>
      match writeRecordToBlock block rec with
      | none => none
      | some (true, block, _) => some (block, written)
      | some (false, block, rec) =>
          match writeBlockToDev dev block with
          | none => none
          | some (raw, block) => writeRecordLoop dev fuel block rec (written ++ raw)

/-- `DCR::write_record`. Every round but the first one writes a byte of the record at least,
so its length bounds the number of rounds. -/
def writeRecord (dev : BlockDevice) (block : DevBlock) (rec : DevRecord)
    (written : List (List UInt8)) : Option (DevBlock × List (List UInt8)) :=
  writeRecordLoop dev (rec.dataLen + 2) block rec written

/-- A record as a job hands it over. -/
structure DataRecord where
  fileIndex : Int32
  stream : Int32
  data : List UInt8
  positive : 0 < stream
  short : data.length < MAX_BLOCK_LENGTH

/-- The identification of a session in the volume. -/
structure SessionKey where
  volSessionId : UInt32
  volSessionTime : UInt32
  deriving DecidableEq

def DataRecord.packet (r : DataRecord) (key : SessionKey) : DevRecord where
  volSessionId := key.volSessionId
  volSessionTime := key.volSessionTime
  fileIndex := r.fileIndex
  stream := r.stream
  data := r.data
  dataLen := r.data.length

/-- The records of a session, one after the other. -/
def writeRecords (dev : BlockDevice) (key : SessionKey) :
    List DataRecord → DevBlock × List (List UInt8) → Option (DevBlock × List (List UInt8))
  | [], s => some s
  | r :: rest, (block, written) =>
      match writeRecord dev block (r.packet key) written with
      | none => none
      | some s => writeRecords dev key rest s

/-- The blocks of a session: all its records, and at the end the block that is not full. -/
def writeSession (dev : BlockDevice) (key : SessionKey) (blockNumber : UInt32)
    (records : List DataRecord) : Option (List (List UInt8)) :=
  match writeRecords dev key records ({ newBlock dev with blockNumber }, []) with
  | none => none
  | some (block, written) =>
      match writeBlockToDev dev block with
      | none => none
      | some (raw, _) => some (written ++ raw)

end Bacula
