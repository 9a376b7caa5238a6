import Bacula.Lib.Serial

/-! The block buffer and its header, `stored/block_util.c`. Lengths and positions are
naturals; `binbuf` of a block that was read is the value of a 32 bit variable. What belongs
to aligned (adata) volumes is left out. -/
namespace Bacula
open ByteCodec

def BLKHDR_CS_LENGTH : ℕ := 4
def BLKHDR1_LENGTH : ℕ := 16
def BLKHDR2_LENGTH : ℕ := 24
def WRITE_BLKHDR_LENGTH : ℕ := BLKHDR2_LENGTH
def MAX_BLOCK_LENGTH : ℕ := 20000000
def TAPE_BSIZE : ℕ := 1024

def BLKHDR1_ID : List UInt8 := ascii "BB01"
def BLKHDR2_ID : List UInt8 := ascii "BB02"

/-- The device of the blocks, with the checksum function that it uses. The block size of a
tape is a multiple of `TAPE_BSIZE` and not below the smallest one. -/
structure BlockDevice where
  bufLen : ℕ
  isTape : Bool
  minBlockSize : ℕ
  maxBlockSize : ℕ
  doChecksum : Bool
  bcrc32 : List UInt8 → UInt32
  tape : isTape = true → TAPE_BSIZE ∣ bufLen ∧ minBlockSize ≤ bufLen

structure DevBlock where
  /-- The memory at `buf`. -/
  buf : List UInt8
  bufLen : ℕ
  /-- The position of `bufp` in the memory. -/
  bufp : ℕ
  binbuf : ℕ
  readLen : ℕ := 0
  blockLen : ℕ := 0
  blockVer : ℕ := 2
  checkSum : UInt32 := 0
  blockNumber : UInt32 := 0
  volSessionId : UInt32 := 0
  volSessionTime : UInt32 := 0
  firstIndex : Int32 := 0
  lastIndex : Int32 := 0
  recNum : ℕ := 0
  blockAddr : ℕ := 0
  extraBytes : ℕ := 0

/-- `empty_block`. The bytes of the buffer stay. -/
def emptyBlock (block : DevBlock) : DevBlock :=
  { block with
    binbuf := WRITE_BLKHDR_LENGTH, bufp := WRITE_BLKHDR_LENGTH, readLen := 0,
    firstIndex := 0, lastIndex := 0, recNum := 0, blockAddr := 0, extraBytes := 0 }

/-- `new_block`; the contents of fresh memory are zeros here. -/
def newBlock (dev : BlockDevice) : DevBlock :=
  emptyBlock { buf := List.replicate dev.bufLen 0, bufLen := dev.bufLen, bufp := 0, binbuf := 0 }

def DevBlock.isEmpty (block : DevBlock) : Bool := block.binbuf ≤ WRITE_BLKHDR_LENGTH

/-- `ser_` statements at `bufp`, which is moved behind the bytes. -/
def DevBlock.put (block : DevBlock) (bytes : List UInt8) : DevBlock :=
  { block with
    buf := store block.buf block.bufp bytes
    bufp := block.bufp + bytes.length
    binbuf := block.binbuf + bytes.length }

/-- The bytes at `bufp`. -/
def DevBlock.peek (block : DevBlock) (n : ℕ) : List UInt8 := (block.buf.drop block.bufp).take n

/-- Up to a multiple of `TAPE_BSIZE`. -/
def roundTape (n : ℕ) : ℕ := (n + TAPE_BSIZE - 1) / TAPE_BSIZE * TAPE_BSIZE

/-- `get_len_and_clear_block`: the number of bytes to write. A failed assertion gives
`none`. -/
def getLenAndClearBlock (dev : BlockDevice) (block : DevBlock) : Option (ℕ × DevBlock) :=
  if block.binbuf = block.bufLen then some (block.binbuf, block)
  else
    let wlen :=
      if dev.isTape then
        if dev.minBlockSize = dev.maxBlockSize then block.bufLen
        else if block.binbuf < dev.minBlockSize then roundTape dev.minBlockSize
        else roundTape block.binbuf
      else block.binbuf
    if block.bufLen < wlen then none
    else
      let zeros := List.replicate (wlen - block.binbuf) 0
      some (wlen, { block with buf := store block.buf block.bufp zeros, blockLen := wlen })

/-- The `ser_` statements of `ser_block_header` that follow the checksum. -/
def headerTail (block : DevBlock) : List UInt8 :=
  serialUint32 (UInt32.ofNat block.binbuf) ++ (serialUint32 block.blockNumber ++ (BLKHDR2_ID ++
    (serialUint32 block.volSessionId ++ serialUint32 block.volSessionTime)))

/-- `ser_block_header`. The checksum is over everything behind the checksum. -/
def serBlockHeader (dev : BlockDevice) (block : DevBlock) : DevBlock :=
  let buf := store block.buf 0 (serialUint32 0 ++ headerTail block)
  let checkSum :=
    if dev.doChecksum then
      dev.bcrc32 ((buf.drop BLKHDR_CS_LENGTH).take (block.binbuf - BLKHDR_CS_LENGTH))
    else 0
  { block with buf := store buf 0 (serialUint32 checkSum), checkSum }

/-- The block on the device and the emptied block with the next number: `write_block_to_dev`
with a complete write. -/
def writeBlockToDev (dev : BlockDevice) (block : DevBlock) : Option (List (List UInt8) × DevBlock) :=
  if block.isEmpty then some ([], block)
  else match getLenAndClearBlock dev block with
    | none => none
    | some (wlen, block) =>
        let block := serBlockHeader dev block
        some ([block.buf.take wlen], emptyBlock { block with blockNumber := block.blockNumber + 1 })

/-- The numbers and the id that `unser_block_header` reads first. -/
structure BlockHead where
  checkSum : UInt32
  blockLen : UInt32
  blockNumber : UInt32
  id : List UInt8

def unserBlockHead : Decoder BlockHead := do
  let checkSum ← unserialUint32
  let blockLen ← unserialUint32
  let blockNumber ← unserialUint32
  let id ← bytes 4
  pure ⟨checkSum, blockLen, blockNumber, id⟩

/-- The session in the header of a `BB02` block. -/
def unserSession : Decoder (UInt32 × UInt32) := do
  let volSessionId ← unserialUint32
  let volSessionTime ← unserialUint32
  pure (volSessionId, volSessionTime)

/-- The end of `unser_block_header`, for a header of `bhl` bytes: sanity check, pointers and
checksum. A checksum over a negative number of bytes leaves the buffer. -/
def unserBlockEnd (dev : BlockDevice) (block : DevBlock) (head : BlockHead) (bhl : ℕ) :
    Except Fault (Option DevBlock) :=
  let blockLen := head.blockLen.toNat
  if MAX_BLOCK_LENGTH < blockLen then .ok none
  else
    let blockEnd := if block.readLen < blockLen then block.readLen else blockLen
    let block := { block with
      checkSum := head.checkSum
      bufp := bhl
      -- an unsigned subtraction
      binbuf := (blockEnd + 2 ^ 32 - bhl) % 2 ^ 32
      blockLen := blockLen
      blockNumber := head.blockNumber }
    if blockLen ≤ block.readLen && dev.doChecksum then
      if blockLen < BLKHDR_CS_LENGTH then .error .readPastEnd
      else
        let checked := (block.buf.drop BLKHDR_CS_LENGTH).take (blockLen - BLKHDR_CS_LENGTH)
        if dev.bcrc32 checked = head.checkSum then .ok (some block) else .ok none
    else .ok (some block)

/-- `unser_block_header`; `none` is the result false. -/
def unserBlockHeader (dev : BlockDevice) (block : DevBlock) : Except Fault (Option DevBlock) :=
  match unserBlockHead.run block.buf with
  | .error fault => .error fault
  | .ok (head, rest) =>
      if head.id[3]? = some 49 then
        if head.id = BLKHDR1_ID then
          unserBlockEnd dev { block with blockVer := 1 } head BLKHDR1_LENGTH
        else .ok none
      else if head.id[3]? = some 50 then
        match unserSession.run rest with
        | .error fault => .error fault
        | .ok ((volSessionId, volSessionTime), _) =>
            if head.id = BLKHDR2_ID then
              unserBlockEnd dev { block with blockVer := 2, volSessionId, volSessionTime } head
                BLKHDR2_LENGTH
            else .ok none
      else .ok none

section Written

@[simp] theorem headerTail_length (block : DevBlock) : (headerTail block).length = 20 := by
  have id : BLKHDR2_ID.length = 4 := by decide
  simp only [headerTail, List.length_append, serialUint32_length, id]

/-- A block that is filled: the memory has the size of the buffer, and `bufp` stands behind
the bytes that were put. -/
structure DevBlock.Filled (dev : BlockDevice) (block : DevBlock) (payload : List UInt8) : Prop where
  memory : block.buf.length = dev.bufLen
  bufLen : block.bufLen = dev.bufLen
  bufp : block.bufp = block.binbuf
  binbuf : block.binbuf = WRITE_BLKHDR_LENGTH + payload.length
  fits : block.binbuf ≤ dev.bufLen
  contents : (block.buf.drop WRITE_BLKHDR_LENGTH).take payload.length = payload

theorem roundTape_le {n m : ℕ} (multiple : TAPE_BSIZE ∣ m) (below : n ≤ m) : roundTape n ≤ m := by
  obtain ⟨k, rfl⟩ := multiple
  unfold roundTape TAPE_BSIZE at *
  omega

theorem le_roundTape (n : ℕ) : n ≤ roundTape n := by
  unfold roundTape TAPE_BSIZE
  omega

/-- The block is not cut, and its assertion holds. -/
theorem getLenAndClearBlock_spec {dev : BlockDevice} {block : DevBlock} {payload : List UInt8}
    (filled : block.Filled dev payload) :
    ∃ wlen cleared, getLenAndClearBlock dev block = some (wlen, cleared) ∧
      block.binbuf ≤ wlen ∧ cleared.Filled dev payload ∧
      cleared.blockNumber = block.blockNumber ∧ cleared.volSessionId = block.volSessionId ∧
      cleared.volSessionTime = block.volSessionTime := by
  have fits := filled.fits
  unfold getLenAndClearBlock
  rw [filled.bufLen]
  by_cases full : block.binbuf = dev.bufLen
  · rw [if_pos full]
    exact ⟨_, _, rfl, le_refl _, filled, rfl, rfl, rfl⟩
  · rw [if_neg full]
    simp only
    generalize wlenIs : (if dev.isTape then
      if dev.minBlockSize = dev.maxBlockSize then dev.bufLen
      else if block.binbuf < dev.minBlockSize then roundTape dev.minBlockSize
      else roundTape block.binbuf else block.binbuf) = wlen
    have bounds : block.binbuf ≤ wlen ∧ wlen ≤ dev.bufLen := by
      rw [← wlenIs]
      split
      · rename_i isTape
        obtain ⟨multiple, smallest⟩ := dev.tape isTape
        split
        · exact ⟨fits, le_refl _⟩
        · split
          · rename_i small
            exact ⟨(le_of_lt small).trans (le_roundTape _), roundTape_le multiple smallest⟩
          · exact ⟨le_roundTape _, roundTape_le multiple fits⟩
      · exact ⟨le_refl _, fits⟩
    rw [if_neg (not_lt.mpr bounds.2)]
    have memory := filled.memory
    have size := filled.binbuf
    refine ⟨_, _, rfl, bounds.1, ⟨?_, rfl, filled.bufp, size, fits, ?_⟩, rfl, rfl, rfl⟩
    · rw [store_length, memory]
      rw [filled.bufp, List.length_replicate]
      omega
    · rw [filled.bufp, store, List.append_assoc, List.drop_append_of_le_length
        (by rw [List.length_take]; omega), List.drop_take, List.take_append_of_le_length
        (by rw [List.length_take, List.length_drop]; omega), List.take_take,
        min_eq_left (by omega)]
      exact filled.contents

/-- The header is written twice: once without the checksum, and then its first bytes with
it. -/
theorem serBlockHeader_buf (dev : BlockDevice) (block : DevBlock) :
    (serBlockHeader dev block).buf =
      serialUint32 (serBlockHeader dev block).checkSum ++
        (headerTail block ++ block.buf.drop BLKHDR2_LENGTH) ∧
    (dev.doChecksum = true → (serBlockHeader dev block).checkSum =
      dev.bcrc32 ((headerTail block ++ block.buf.drop BLKHDR2_LENGTH).take
        (block.binbuf - BLKHDR_CS_LENGTH))) := by
  have first : store block.buf 0 (serialUint32 0 ++ headerTail block) =
      serialUint32 0 ++ (headerTail block ++ block.buf.drop BLKHDR2_LENGTH) := by
    have length : (serialUint32 0 ++ headerTail block).length = BLKHDR2_LENGTH := by
      rw [List.length_append, serialUint32_length, headerTail_length]
      rfl
    rw [store, length, List.take_zero, List.nil_append, Nat.zero_add, List.append_assoc]
  have behind (c : UInt32) (rest : List UInt8) :
      (serialUint32 c ++ rest).drop BLKHDR_CS_LENGTH = rest :=
    List.drop_left' (serialUint32_length c)
  simp only [serBlockHeader, first, behind]
  constructor
  · rw [store, serialUint32_length, List.take_zero, List.nil_append, Nat.zero_add]
    exact congrArg _ (behind 0 _)
  · intro checked
    rw [if_pos checked]

/-- A filled block on the device: its header, what was put into it, and the zeros that a
tape wants. -/
theorem writeBlockToDev_spec {dev : BlockDevice} {block : DevBlock} {payload : List UInt8}
    (filled : block.Filled dev payload) (data : payload ≠ []) :
    ∃ checkSum padding next, writeBlockToDev dev block =
        some ([serialUint32 checkSum ++ (headerTail block ++ (payload ++ padding))], next) ∧
      (dev.doChecksum = true → checkSum = dev.bcrc32 (headerTail block ++ payload)) ∧
      next.buf.length = dev.bufLen ∧ next.bufLen = dev.bufLen ∧
      next.binbuf = WRITE_BLKHDR_LENGTH ∧ next.bufp = WRITE_BLKHDR_LENGTH ∧
      next.blockNumber = block.blockNumber + 1 := by
  obtain ⟨wlen, cleared, result, low, filled', number, sid, time⟩ :=
    getLenAndClearBlock_spec filled
  have size := filled.binbuf
  have binbuf : cleared.binbuf = block.binbuf := filled'.binbuf.trans size.symm
  have positive : 0 < payload.length := List.length_pos_iff.mpr data
  have notEmpty : block.isEmpty = false := by
    rw [DevBlock.isEmpty, decide_eq_false_iff_not, size]
    omega
  have tail : headerTail cleared = headerTail block := by
    rw [headerTail, headerTail, binbuf, number, sid, time]
  obtain ⟨rest, behind⟩ : ∃ rest, cleared.buf.drop BLKHDR2_LENGTH = payload ++ rest :=
    ⟨_, (List.take_append_drop payload.length _).symm.trans
      (congrArg (· ++ _) filled'.contents)⟩
  obtain ⟨written, checked⟩ := serBlockHeader_buf dev cleared
  have memory : (cleared.buf.drop BLKHDR2_LENGTH).length = dev.bufLen - BLKHDR2_LENGTH := by
    rw [List.length_drop, filled'.memory]
  have fits := filled.fits
  rw [tail, behind] at written checked
  rw [behind] at memory
  refine ⟨(serBlockHeader dev cleared).checkSum,
    rest.take (wlen - WRITE_BLKHDR_LENGTH - payload.length),
    emptyBlock { serBlockHeader dev cleared with
      blockNumber := (serBlockHeader dev cleared).blockNumber + 1 }, ?_, ?_, ?_, filled'.bufLen,
        rfl, rfl, ?_⟩
  · have cut : (payload ++ rest).take (wlen - WRITE_BLKHDR_LENGTH) =
        payload ++ rest.take (wlen - WRITE_BLKHDR_LENGTH - payload.length) := by
      rw [List.take_append, List.take_of_length_le (by omega)]
    have length : (serialUint32 (serBlockHeader dev cleared).checkSum ++ headerTail block).length =
        WRITE_BLKHDR_LENGTH := by
      rw [List.length_append, serialUint32_length, headerTail_length]
      rfl
    simp only [writeBlockToDev, notEmpty, Bool.false_eq_true, if_false, result]
    rw [written, ← List.append_assoc, List.take_append, length, List.take_of_length_le (by omega),
      cut, List.append_assoc]
  · intro checksum
    rw [checked checksum, binbuf, size]
    congr 1
    rw [← List.append_assoc]
    apply List.take_left'
    rw [List.length_append, headerTail_length]
    unfold WRITE_BLKHDR_LENGTH BLKHDR2_LENGTH BLKHDR_CS_LENGTH
    omega
  · change (serBlockHeader dev cleared).buf.length = dev.bufLen
    rw [written]
    unfold WRITE_BLKHDR_LENGTH BLKHDR2_LENGTH at *
    simp only [List.length_append, serialUint32_length, headerTail_length] at memory ⊢
    omega
  · exact congrArg (· + 1) number

/-- The header of a written block is read: it tells what is in the block. -/
theorem unserBlockHeader_head {dev : BlockDevice} {block read : DevBlock} {behind : List UInt8}
    {checkSum : UInt32}
    (buf : read.buf = serialUint32 checkSum ++ (headerTail block ++ behind)) :
    unserBlockHeader dev read = unserBlockEnd dev { read with
        blockVer := 2
        volSessionId := block.volSessionId
        volSessionTime := block.volSessionTime }
      ⟨checkSum, UInt32.ofNat block.binbuf, block.blockNumber, BLKHDR2_ID⟩ BLKHDR2_LENGTH := by
  have id : BLKHDR2_ID.length = 4 := by decide
  have head : unserBlockHead.run read.buf = .ok (⟨checkSum, UInt32.ofNat block.binbuf,
      block.blockNumber, BLKHDR2_ID⟩, serialUint32 block.volSessionId ++
        (serialUint32 block.volSessionTime ++ behind)) := by
    rw [buf]
    simp -implicitDefEqProofs only [unserBlockHead, headerTail, List.append_assoc,
      StateT.run_bind, StateT.run_pure, ok_bind, unserialUint32_serial, bytes_append _ _ _ id]
    rfl
  have session : unserSession.run (serialUint32 block.volSessionId ++
      (serialUint32 block.volSessionTime ++ behind)) =
        .ok ((block.volSessionId, block.volSessionTime), behind) := by
    simp -implicitDefEqProofs only [unserSession, StateT.run_bind, StateT.run_pure, ok_bind,
      unserialUint32_serial]
    rfl
  have two : BLKHDR2_ID[3]? = some 50 := by decide
  have notOne : ¬ BLKHDR2_ID[3]? = some 49 := by decide
  simp only [unserBlockHeader, head]
  rw [if_neg notOne, if_pos two]
  simp only [session, if_true]

/-- A written block is read back, and `bufp` stands at the bytes that were put. -/
theorem unserBlockHeader_written {dev : BlockDevice} {block read : DevBlock}
    {payload padding : List UInt8} {checkSum : UInt32}
    (binbuf : block.binbuf = WRITE_BLKHDR_LENGTH + payload.length)
    (sane : block.binbuf ≤ MAX_BLOCK_LENGTH)
    (checked : dev.doChecksum = true → checkSum = dev.bcrc32 (headerTail block ++ payload))
    (buf : read.buf = serialUint32 checkSum ++ (headerTail block ++ (payload ++ padding)))
    (readLen : block.binbuf ≤ read.readLen) :
    unserBlockHeader dev read = .ok (some { read with
      blockVer := 2
      volSessionId := block.volSessionId
      volSessionTime := block.volSessionTime
      checkSum := checkSum
      bufp := WRITE_BLKHDR_LENGTH
      binbuf := payload.length
      blockLen := block.binbuf
      blockNumber := block.blockNumber }) := by
  have small : block.binbuf < 2 ^ 32 := lt_of_le_of_lt sane (by decide)
  have len : (UInt32.ofNat block.binbuf).toNat = block.binbuf := UInt32.toNat_ofNat_of_lt' small
  have behind : read.buf.drop BLKHDR_CS_LENGTH = headerTail block ++ (payload ++ padding) := by
    rw [buf]
    exact List.drop_left' (serialUint32_length _)
  have covered : (headerTail block ++ (payload ++ padding)).take
      (block.binbuf - BLKHDR_CS_LENGTH) = headerTail block ++ payload := by
    rw [← List.append_assoc]
    apply List.take_left'
    rw [List.length_append, headerTail_length, binbuf]
    unfold WRITE_BLKHDR_LENGTH BLKHDR2_LENGTH BLKHDR_CS_LENGTH
    omega
  have wrapped : (block.binbuf + 2 ^ 32 - BLKHDR2_LENGTH) % 2 ^ 32 = payload.length := by
    unfold WRITE_BLKHDR_LENGTH BLKHDR2_LENGTH at *
    omega
  have notShort : ¬ block.binbuf < BLKHDR_CS_LENGTH := by
    rw [binbuf]
    unfold WRITE_BLKHDR_LENGTH BLKHDR2_LENGTH BLKHDR_CS_LENGTH
    omega
  rw [unserBlockHeader_head buf]
  simp only [unserBlockEnd, len, not_lt.mpr sane, if_false, not_lt.mpr readLen, wrapped, behind,
    covered, decide_eq_true readLen, Bool.true_and, notShort]
  by_cases checksum : dev.doChecksum = true
  · rw [if_pos checksum, if_pos (checked checksum).symm]
    rfl
  · rw [if_neg checksum]
    rfl

/-- A block above `MAX_BLOCK_LENGTH` is not read back. -/
theorem unserBlockHeader_large {dev : BlockDevice} {block read : DevBlock} {behind : List UInt8}
    {checkSum : UInt32} (large : MAX_BLOCK_LENGTH < block.binbuf) (fits : block.binbuf < 2 ^ 32)
    (buf : read.buf = serialUint32 checkSum ++ (headerTail block ++ behind)) :
    unserBlockHeader dev read = .ok none := by
  have len : (UInt32.ofNat block.binbuf).toNat = block.binbuf := UInt32.toNat_ofNat_of_lt' fits
  rw [unserBlockHeader_head buf, unserBlockEnd, len]
  exact if_pos large

end Written

end Bacula
