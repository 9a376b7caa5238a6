import Bacula.Stored.RecordWrite

/-! Reading records from blocks: `stored/record_read.c`, on a device without aligned volumes,
and the loop of `read_records` in `stored/read_records.c` without a bootstrap. -/
namespace Bacula
open ByteCodec

def RECHDR1_LENGTH : ℕ := 20
def RECHDR2_LENGTH : ℕ := 12

/-- A record header on the volume. -/
structure RecordHead where
  key : SessionKey
  fileIndex : Int32
  stream : Int32
  dataBytes : UInt32

def unserRecordFields (key : SessionKey) : Decoder RecordHead := do
  let fileIndex ← unserialInt32
  let stream ← unserialInt32
  let dataBytes ← unserialUint32
  pure ⟨key, fileIndex, stream, dataBytes⟩

/-- In a `BB01` block the session is in the record header. -/
def unserRecordHead (block : DevBlock) : Decoder RecordHead := do
  if block.blockVer = 1 then
    let (volSessionId, volSessionTime) ← unserSession
    unserRecordFields ⟨volSessionId, volSessionTime⟩
  else unserRecordFields ⟨block.volSessionId, block.volSessionTime⟩

/-- `n` bytes are consumed. -/
def DevBlock.advance (block : DevBlock) (n : ℕ) : DevBlock :=
  { block with bufp := block.bufp + n, binbuf := block.binbuf - n }

def DevRecord.key (rec : DevRecord) : SessionKey := ⟨rec.volSessionId, rec.volSessionTime⟩

/-- What `read_header` takes from a header, or the state bits when it does not match the
record that is to be continued. -/
def DevRecord.acceptHead (rec : DevRecord) (head : RecordHead) : Except StateBits DevRecord :=
  if rec.remainder ≠ 0 ∧ rec.key ≠ head.key then .error { noMatch := true }
  else
    let accept (rec : DevRecord) : DevRecord := { rec with
      maskedStream := rec.stream &&& STREAMMASK_TYPE
      volSessionId := head.key.volSessionId
      volSessionTime := head.key.volSessionTime
      fileIndex := head.fileIndex }
    if head.stream < 0 then
      if rec.remainder = 0 then .ok (accept { rec with
        stateBits := { rec.stateBits with continuation := true }
        dataLen := 0
        stream := -head.stream })
      else if rec.stream ≠ -head.stream then .error { noMatch := true, continuation := true }
      else .ok (accept { rec with
        stateBits := { rec.stateBits with continuation := true }
        stream := -head.stream })
    else .ok (accept { rec with stream := head.stream, dataLen := 0 })

/-- `read_header`. `endAddr` is the address of the device. -/
def readHeader (endAddr : ℕ) (block : DevBlock) (rec : DevRecord) :
    Except Fault (Bool × DevBlock × DevRecord) :=
  let rhl := if block.blockVer = 1 then RECHDR1_LENGTH else RECHDR2_LENGTH
  let rec' := { rec with stateBits := {}, addr := endAddr }
  if rec.remlen < rhl then
    .ok (false, emptyBlock block,
      { rec' with stateBits := { noHeader := true, blockEmpty := true } })
  else match (unserRecordHead block).run (block.buf.drop block.bufp) with
    | .error fault => .error fault
    | .ok (head, _) =>
        let block := block.advance rhl
        let rec' := { rec' with dataBytes := head.dataBytes.toNat, remlen := rec.remlen - rhl }
        match rec'.acceptHead head with
        | .error stateBits => .ok (false, block, { rec' with stateBits })
        | .ok rec' =>
            let block := block.noteIndex head.fileIndex
            if MAX_BLOCK_LENGTH ≤ rec'.dataBytes then
              .ok (false, emptyBlock block, { rec' with
                stateBits := { rec'.stateBits with noHeader := true, blockEmpty := true } })
            else
              .ok (true, block, { rec' with
                data := checkPoolMemorySize rec'.data (rec'.dataLen + rec'.dataBytes)
                rstate := .data })

/-- `read_data`. -/
def readData (block : DevBlock) (rec : DevRecord) : DevBlock × DevRecord :=
  if rec.dataBytes ≤ rec.remlen then
    (block.advance rec.dataBytes, { rec with
      data := store rec.data rec.dataLen (block.peek rec.dataBytes)
      dataLen := rec.dataLen + rec.dataBytes
      remainder := 0 })
  else
    (block.advance rec.remlen, { rec with
      data := store rec.data rec.dataLen (block.peek rec.remlen)
      dataLen := rec.dataLen + rec.remlen
      remainder := 1
      stateBits := { rec.stateBits with partialRecord := true, blockEmpty := true } })

/-- A new record notes where it begins. -/
def DevRecord.begin (rec : DevRecord) (block : DevBlock) : DevRecord :=
  if rec.remainder = 0 then
    { rec with recNum := block.recNum, addr := block.blockAddr, startAddr := block.blockAddr }
  else rec

/-- `read_record_from_block` in state `st_data`. -/
def readDataState (block : DevBlock) (rec : DevRecord) : Bool × DevBlock × DevRecord :=
  let (block, rec) := readData block rec
  (true, block, { rec with rstate := .header })

/-- `read_record_from_block`. -/
def readRecordFromBlock (endAddr : ℕ) (block : DevBlock) (rec : DevRecord) :
    Except Fault (Bool × DevBlock × DevRecord) :=
  let begun := rec.begin block
  let block := { block with recNum := block.recNum + 1 }
  match rec.rstate with
  | .none | .header =>
      match readHeader endAddr block { begun with remlen := block.binbuf } with
      | .error fault => .error fault
      | .ok (true, block, rec) => .ok (readDataState block rec)
      | .ok (false, block, rec) => .ok (false, block, { rec with rstate := .none })
  | .data => .ok (readDataState block begun)
  | .contHeader => .ok (false, block, { begun with rstate := .none })

/-- The loop over the records of a block in `read_records`: the record of the session
afterwards, and the records that were passed to the callback. Every round takes a header
from the block. -/
def readBlockRecords (endAddr : ℕ) : ℕ → DevBlock → DevRecord → List DevRecord →
    Except Fault (DevRecord × List DevRecord)
  | 0, _, rec, calls => .ok (rec, calls)
  | fuel + 1, block, rec, calls =>
      if rec.stateBits.blockEmpty then .ok (rec, calls)
      else match readRecordFromBlock endAddr block rec with
        | .error fault => .error fault
        | .ok (false, _, rec) => .ok (rec, calls)
        | .ok (true, block, rec) =>
            if rec.fileIndex = EOM_LABEL then .ok (rec, calls)
            else if rec.fileIndex < 0 then
              -- all labels are passed, also one that is not complete
              readBlockRecords endAddr fuel block { rec with invalid := false } (calls ++ [rec])
            else if rec.stateBits.partialRecord then .ok (rec, calls)
            else readBlockRecords endAddr fuel block { rec with invalid := false } (calls ++ [rec])

/-- `empty_record`. -/
def emptyRecord (rec : DevRecord) : DevRecord :=
  { rec with
    recNum := 0, startAddr := 0, addr := 0, volSessionId := 0, volSessionTime := 0
    fileIndex := 0, stream := 0, dataLen := 0, remainder := 0
    stateBits := { rec.stateBits with
      partialRecord := false, blockEmpty := false, noMatch := false, continuation := false }
    wstate := .none, rstate := .none }

/-- The check of a record that is continued in a block. -/
def checkInvalid (discardInvalidRecords : Bool) (block : DevBlock) (rec : DevRecord) : DevRecord :=
  if rec.remainder ≠ 0 ∧ rec.blockNumber ≠ block.blockNumber - 1 ∧
      rec.blockNumber ≠ block.blockNumber then
    if discardInvalidRecords then emptyRecord { rec with invalid := true }
    else { rec with invalid := true }
  else rec

/-- The first item that meets a condition is changed. -/
def replaceFirst {α : Type} (p : α → Bool) (new : α) : List α → List α
  | [] => []
  | x :: rest => if p x then new :: rest else x :: replaceFirst p new rest

def DevBlock.key (block : DevBlock) : SessionKey := ⟨block.volSessionId, block.volSessionTime⟩

/-- One round of the loop over blocks: the records of all sessions afterwards, and the calls. -/
def readBlock (discardInvalidRecords : Bool) (endAddr : ℕ) (block : DevBlock)
    (recs : List DevRecord) : Except Fault (List DevRecord × List DevRecord) :=
  let own (rec : DevRecord) : Bool := rec.key = block.key
  let start (rec : DevRecord) : DevRecord :=
    { rec with stateBits := {}, blockNumber := block.blockNumber }
  match recs.find? own with
  | some rec =>
      match readBlockRecords endAddr (block.binbuf + 1) block
        (start (checkInvalid discardInvalidRecords block rec)) [] with
      | .error fault => .error fault
      | .ok (rec, calls) => .ok (replaceFirst own rec recs, calls)
  | none =>
      match readBlockRecords endAddr (block.binbuf + 1) block (start {}) [] with
      | .error fault => .error fault
      | .ok (rec, calls) => .ok (rec :: recs, calls)

/-- What a read of the device returns, and the addresses before and after it. -/
structure RawBlock where
  bytes : List UInt8
  blockAddr : ℕ
  endAddr : ℕ

/-- Results of `read_block_from_dev`. -/
inductive ReadBlockResult where
  | shortBlock
  | error
  | ok (block : DevBlock)

/-- `read_block_from_dev` after the read; the buffer holds what was read. -/
def readBlockFromDev (dev : BlockDevice) (raw : RawBlock) : Except Fault ReadBlockResult :=
  if raw.bytes.length < BLKHDR2_LENGTH then .ok .shortBlock
  else
    let block : DevBlock :=
      { buf := raw.bytes, bufLen := dev.bufLen, bufp := 0, binbuf := 0
        readLen := raw.bytes.length, blockAddr := raw.blockAddr }
    match unserBlockHeader dev block with
    | .error fault => .error fault
    | .ok none => .ok .error
    | .ok (some block) =>
        if block.readLen < block.blockLen then .ok .shortBlock else .ok (.ok block)

/-- What `read_records` has done so far. -/
structure ReadState where
  recs : List DevRecord := []
  calls : List DevRecord := []
  ok : Bool := true

/-- `read_records` for a callback that never stops it. A short block is skipped, an error
ends the loop. -/
def readRecords (dev : BlockDevice) (discardInvalidRecords : Bool) :
    List RawBlock → ReadState → Except Fault ReadState
  | [], s => .ok s
  | raw :: rest, s =>
      match readBlockFromDev dev raw with
      | .error fault => .error fault
      | .ok .shortBlock => readRecords dev discardInvalidRecords rest s
      | .ok .error => .ok { s with ok := false }
      | .ok (.ok block) =>
          match readBlock discardInvalidRecords raw.endAddr block s.recs with
          | .error fault => .error fault
          | .ok (recs, calls) =>
              readRecords dev discardInvalidRecords rest { s with recs, calls := s.calls ++ calls }

end Bacula
