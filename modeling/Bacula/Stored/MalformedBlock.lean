import Bacula.Stored.RecordRead

/-! Blocks with any contents: what `unser_block_header` of `stored/block_util.c` makes of the
header, and what the loop over the records reads of the block. -/
namespace Bacula.MalformedBlock
open ByteCodec

/-- A block after a read of `readLen` bytes, not fewer than `read_block_from_dev` accepts. -/
structure WasRead (block : DevBlock) : Prop where
  memory : block.buf.length = block.bufLen
  header : BLKHDR2_LENGTH ≤ block.readLen
  inside : block.readLen ≤ block.bufLen
  word : block.bufLen < 2 ^ 32

/-- The records of a block are read from its first `k` bytes: the same records come from
every memory that begins with them. A record is not in the middle of its data between two
calls. -/
def ReadsInside (k : ℕ) (block : DevBlock) : Prop :=
  ∀ memory, memory.take k = block.buf.take k → ∀ endAddr fuel rec calls, rec.rstate ≠ .data →
    ∃ r, readBlockRecords endAddr fuel block rec calls = .ok r ∧
      readBlockRecords endAddr fuel { block with buf := memory } rec calls = .ok r

/-- The header is read without a checksum outside of the buffer, and an accepted block is
read inside the bytes that were read. -/
def Contained (dev : BlockDevice) (block : DevBlock) : Prop :=
  (∃ result, unserBlockHeader dev block = .ok result) ∧
  ∀ accepted, unserBlockHeader dev block = .ok (some accepted) →
    accepted.bufp + accepted.binbuf ≤ block.readLen ∧ ReadsInside block.readLen accepted

def checkSumField (buf : List UInt8) : UInt32 := UInt32.ofNat (number (buf.take 4))

def lengthField (buf : List UInt8) : UInt32 := UInt32.ofNat (number ((buf.drop 4).take 4))

def numberField (buf : List UInt8) : UInt32 := UInt32.ofNat (number ((buf.drop 8).take 4))

def idField (buf : List UInt8) : List UInt8 := (buf.drop 12).take 4

/-- The length of the header that goes with the id. -/
def headerLength (buf : List UInt8) : Option ℕ :=
  if idField buf = BLKHDR1_ID then some BLKHDR1_LENGTH
  else if idField buf = BLKHDR2_ID then some BLKHDR2_LENGTH
  else none

/-- The length in the header is below that of the header, and no checksum tells. -/
def ShortHeader (dev : BlockDevice) (block : DevBlock) : Prop :=
  ∃ bhl, headerLength block.buf = some bhl ∧ (lengthField block.buf).toNat < bhl ∧
    (dev.doChecksum = true → (lengthField block.buf).toNat < BLKHDR_CS_LENGTH ∨
      dev.bcrc32 ((block.buf.drop BLKHDR_CS_LENGTH).take
        ((lengthField block.buf).toNat - BLKHDR_CS_LENGTH)) = checkSumField block.buf)

section Records

variable {k : ℕ} {block : DevBlock} {memory : List UInt8}

/-- What is left of a block lies in the first `k` bytes of both memories. -/
structure Inside (k : ℕ) (block : DevBlock) (memory : List UInt8) : Prop where
  bound : block.bufp + block.binbuf ≤ k
  there : k ≤ block.buf.length
  agree : memory.take k = block.buf.take k

theorem Inside.drop (inside : Inside k block memory) (pos : ℕ) :
    (memory.drop pos).take (k - pos) = (block.buf.drop pos).take (k - pos) := by
  rw [← List.drop_take, ← List.drop_take, inside.agree]

theorem Inside.peek (inside : Inside k block memory) {n : ℕ} (room : n ≤ block.binbuf) :
    DevBlock.peek { block with buf := memory } n = block.peek n := by
  have bound := inside.bound
  have cut := congrArg (List.take n) (inside.drop block.bufp)
  rwa [List.take_take, List.take_take, min_eq_left (by omega)] at cut

theorem Inside.advance (inside : Inside k block memory) {n : ℕ} (room : n ≤ block.binbuf) :
    Inside k (block.advance n) memory := by
  have bound := inside.bound
  refine ⟨?_, inside.there, inside.agree⟩
  change block.bufp + n + (block.binbuf - n) ≤ k
  omega

theorem Inside.noteIndex (inside : Inside k block memory) (fileIndex : Int32) :
    Inside k (block.noteIndex fileIndex) memory := by
  unfold DevBlock.noteIndex
  split
  · exact ⟨inside.bound, inside.there, inside.agree⟩
  · exact inside

theorem noteIndex_memory (block : DevBlock) (memory : List UInt8) (fileIndex : Int32) :
    DevBlock.noteIndex { block with buf := memory } fileIndex =
      { block.noteIndex fileIndex with buf := memory } := by
  unfold DevBlock.noteIndex
  split
  · rfl
  · rfl

theorem noteIndex_binbuf (block : DevBlock) (fileIndex : Int32) :
    (block.noteIndex fileIndex).binbuf = block.binbuf := by
  unfold DevBlock.noteIndex
  split
  · rfl
  · rfl

theorem reads_unserialUint32 : Reads 4 unserialUint32 := (reads_natural 4).map _

theorem reads_unserialInt32 : Reads 4 unserialInt32 := reads_unserialUint32.map _

theorem reads_unserRecordFields (key : SessionKey) : Reads 12 (unserRecordFields key) :=
  reads_unserialInt32.bind fun _ => reads_unserialInt32.bind fun _ =>
    reads_unserialUint32.bind fun _ => reads_pure _

theorem reads_unserSession : Reads 8 unserSession :=
  reads_unserialUint32.bind fun _ => reads_unserialUint32.bind fun _ => reads_pure _

/-- The length of the record headers of a block. -/
def recordHeaderLength (block : DevBlock) : ℕ :=
  if block.blockVer = 1 then RECHDR1_LENGTH else RECHDR2_LENGTH

theorem reads_unserRecordHead (block : DevBlock) :
    Reads (recordHeaderLength block) (unserRecordHead block) := by
  unfold unserRecordHead recordHeaderLength
  split
  · exact reads_unserSession.bind fun _ => reads_unserRecordFields _
  · exact reads_unserRecordFields _

/-- The record header is the same in both memories. -/
theorem Inside.recordHead (inside : Inside k block memory)
    (room : recordHeaderLength block ≤ block.binbuf) :
    ∃ head left left', (unserRecordHead block).run (block.buf.drop block.bufp) = .ok (head, left) ∧
      (unserRecordHead block).run (memory.drop block.bufp) = .ok (head, left') := by
  have bound := inside.bound
  have there := inside.there
  have within : recordHeaderLength block ≤ k - block.bufp := by omega
  have present : k - block.bufp ≤ (block.buf.drop block.bufp).length := by
    rw [List.length_drop]
    omega
  obtain ⟨head, here, elsewhere⟩ :=
    (reads_unserRecordHead block).agree within present (inside.drop block.bufp)
  exact ⟨head, _, _, here, elsewhere⟩

/-- What `read_header` does behind the header. -/
def afterHead (endAddr : ℕ) (block : DevBlock) (rec : DevRecord) (head : RecordHead) :
    Bool × DevBlock × DevRecord :=
  let behind := block.advance (recordHeaderLength block)
  let rec' := { rec with
    stateBits := {}, addr := endAddr, dataBytes := head.dataBytes.toNat,
    remlen := rec.remlen - recordHeaderLength block }
  match rec'.acceptHead head with
  | .error stateBits => (false, behind, { rec' with stateBits })
  | .ok rec' =>
      let noted := behind.noteIndex head.fileIndex
      if MAX_BLOCK_LENGTH ≤ rec'.dataBytes then
        (false, emptyBlock noted, { rec' with
          stateBits := { rec'.stateBits with noHeader := true, blockEmpty := true } })
      else
        (true, noted, { rec' with
          data := checkPoolMemorySize rec'.data (rec'.dataLen + rec'.dataBytes)
          rstate := .data })

variable (block) in
theorem readHeader_eq {endAddr : ℕ} {rec : DevRecord} {head : RecordHead} {left : List UInt8}
    (room : ¬ rec.remlen < recordHeaderLength block)
    (run : (unserRecordHead block).run (block.buf.drop block.bufp) = .ok (head, left)) :
    readHeader endAddr block rec = .ok (afterHead endAddr block rec head) := by
  unfold recordHeaderLength at room
  unfold readHeader afterHead recordHeaderLength
  simp only [room, if_false, run]
  generalize DevRecord.acceptHead _ head = outcome
  cases outcome with
  | error stateBits => rfl
  | ok after =>
      simp only
      split <;> rfl

theorem acceptHead_remlen {rec after : DevRecord} {head : RecordHead}
    (accepted : rec.acceptHead head = .ok after) : after.remlen = rec.remlen := by
  unfold DevRecord.acceptHead at accepted
  split_ifs at accepted
  all_goals
    cases accepted
    rfl

theorem afterHead_inside (inside : Inside k block memory) (endAddr : ℕ) {rec : DevRecord}
    (head : RecordHead) (room : rec.remlen = block.binbuf)
    (full : ¬ block.binbuf < recordHeaderLength block) :
    ∃ good next after, afterHead endAddr block rec head = (good, next, after) ∧
      afterHead endAddr { block with buf := memory } rec head =
        (good, { next with buf := memory }, after) ∧
      (good = true → Inside k next memory ∧ after.remlen = next.binbuf) := by
  unfold afterHead
  rw [show recordHeaderLength { block with buf := memory } = recordHeaderLength block from rfl]
  simp only
  generalize takes : DevRecord.acceptHead _ head = answer
  cases answer with
  | error stateBits => exact ⟨_, _, _, rfl, rfl, Bool.noConfusion⟩
  | ok rec' =>
      by_cases insane : MAX_BLOCK_LENGTH ≤ rec'.dataBytes
      · simp only [insane, if_true]
        refine ⟨_, _, _, rfl, ?_, Bool.noConfusion⟩
        rw [show DevBlock.advance { block with buf := memory } (recordHeaderLength block) =
          { block.advance (recordHeaderLength block) with buf := memory } from rfl,
          noteIndex_memory]
        rfl
      · simp only [insane, if_false]
        refine ⟨_, _, _, rfl, ?_, fun _ => ⟨?_, ?_⟩⟩
        · rw [show DevBlock.advance { block with buf := memory } (recordHeaderLength block) =
            { block.advance (recordHeaderLength block) with buf := memory } from rfl,
            noteIndex_memory]
        · exact (inside.advance (not_lt.mp full)).noteIndex _
        · rw [noteIndex_binbuf]
          change rec'.remlen = block.binbuf - recordHeaderLength block
          rw [acceptHead_remlen takes, ← room]

theorem readHeader_inside (inside : Inside k block memory) (endAddr : ℕ) (rec : DevRecord)
    (room : rec.remlen = block.binbuf) :
    ∃ good next after, readHeader endAddr block rec = .ok (good, next, after) ∧
      readHeader endAddr { block with buf := memory } rec =
        .ok (good, { next with buf := memory }, after) ∧
      (good = true → Inside k next memory ∧ after.remlen = next.binbuf) := by
  by_cases full : rec.remlen < recordHeaderLength block
  · refine ⟨false, emptyBlock block, { rec with
      stateBits := { noHeader := true, blockEmpty := true }, addr := endAddr }, ?_, ?_,
      Bool.noConfusion⟩
    · exact if_pos full
    · exact if_pos full
  · obtain ⟨head, left, left', here, elsewhere⟩ := inside.recordHead (by omega)
    obtain ⟨good, next, after, read, other, good_inside⟩ :=
      afterHead_inside inside endAddr head room (by omega)
    refine ⟨good, next, after, ?_, ?_, good_inside⟩
    · rw [readHeader_eq block full here, read]
    · rw [readHeader_eq { block with buf := memory } full elsewhere, other]

/-- The data comes from the bytes that are left of the block. -/
theorem readData_inside (inside : Inside k block memory) {rec : DevRecord}
    (room : rec.remlen = block.binbuf) :
    ∃ next after, readData block rec = (next, after) ∧
      readData { block with buf := memory } rec = ({ next with buf := memory }, after) ∧
      Inside k next memory := by
  unfold readData
  by_cases whole : rec.dataBytes ≤ rec.remlen
  · have fits : rec.dataBytes ≤ block.binbuf := whole.trans room.le
    simp only [whole, if_true]
    rw [inside.peek fits]
    exact ⟨_, _, rfl, rfl, inside.advance fits⟩
  · simp only [whole, if_false]
    rw [inside.peek room.le]
    exact ⟨_, _, rfl, rfl, inside.advance room.le⟩

theorem readRecordFromBlock_noHeader {endAddr : ℕ} {block next : DevBlock} {rec after : DevRecord}
    (state : rec.rstate = .none ∨ rec.rstate = .header)
    (read : readHeader endAddr { block with recNum := block.recNum + 1 }
      { rec.begin block with remlen := block.binbuf } = .ok (false, next, after)) :
    readRecordFromBlock endAddr block rec = .ok (false, next, { after with rstate := .none }) := by
  unfold readRecordFromBlock
  cases state with
  | inl state => simp only [state, read]
  | inr state => simp only [state, read]

theorem readRecordFromBlock_header {endAddr : ℕ} {block next : DevBlock} {rec after : DevRecord}
    (state : rec.rstate = .none ∨ rec.rstate = .header)
    (read : readHeader endAddr { block with recNum := block.recNum + 1 }
      { rec.begin block with remlen := block.binbuf } = .ok (true, next, after)) :
    readRecordFromBlock endAddr block rec = .ok (readDataState next after) := by
  unfold readRecordFromBlock
  cases state with
  | inl state => simp only [state, read]
  | inr state => simp only [state, read]

/-- One call leaves a record that is not in the middle of its data. -/
theorem readRecordFromBlock_inside (inside : Inside k block memory) (endAddr : ℕ)
    {rec : DevRecord} (between : rec.rstate ≠ .data) :
    ∃ good next after, readRecordFromBlock endAddr block rec = .ok (good, next, after) ∧
      readRecordFromBlock endAddr { block with buf := memory } rec =
        .ok (good, { next with buf := memory }, after) ∧
      (good = true → Inside k next memory ∧ after.rstate ≠ .data) := by
  have counted : Inside k { block with recNum := block.recNum + 1 } memory :=
    ⟨inside.bound, inside.there, inside.agree⟩
  obtain ⟨good, next, after, read, other, good_inside⟩ := readHeader_inside counted endAddr
    { rec.begin block with remlen := block.binbuf } rfl
  have reading (state : rec.rstate = .none ∨ rec.rstate = .header) :
      ∃ good next after, readRecordFromBlock endAddr block rec = .ok (good, next, after) ∧
      readRecordFromBlock endAddr { block with buf := memory } rec =
        .ok (good, { next with buf := memory }, after) ∧
      (good = true → Inside k next memory ∧ after.rstate ≠ .data) := by
    cases good with
    | false =>
        exact ⟨_, _, _, readRecordFromBlock_noHeader state read,
          readRecordFromBlock_noHeader state other, Bool.noConfusion⟩
    | true =>
        obtain ⟨unread, room⟩ := good_inside rfl
        obtain ⟨last, taken, data, same, left⟩ := readData_inside unread room
        refine ⟨true, last, { taken with rstate := .header }, ?_, ?_,
          fun _ => ⟨left, RecState.noConfusion⟩⟩
        · rw [readRecordFromBlock_header state read]
          simp only [readDataState, data]
        · rw [readRecordFromBlock_header state other]
          simp only [readDataState, same]
  cases state : rec.rstate with
  | none => exact reading (.inl state)
  | header => exact reading (.inr state)
  | data => exact absurd state between
  | contHeader =>
      refine ⟨false, { block with recNum := block.recNum + 1 },
        { rec.begin block with rstate := .none }, ?_, ?_, Bool.noConfusion⟩
      · unfold readRecordFromBlock
        rw [state]
      · unfold readRecordFromBlock
        rw [state]
        rfl

/-- The loop, by induction on the rounds. -/
theorem readBlockRecords_inside (inside : Inside k block memory) (endAddr fuel : ℕ)
    (rec : DevRecord) (calls : List DevRecord) (between : rec.rstate ≠ .data) :
    ∃ r, readBlockRecords endAddr fuel block rec calls = .ok r ∧
      readBlockRecords endAddr fuel { block with buf := memory } rec calls = .ok r := by
  induction fuel generalizing block rec calls with
  | zero => exact ⟨_, rfl, rfl⟩
  | succ fuel ih =>
      unfold readBlockRecords
      by_cases empty : rec.stateBits.blockEmpty = true
      · simp only [empty, if_true]
        exact ⟨_, rfl, rfl⟩
      · obtain ⟨good, next, after, read, other, good_inside⟩ :=
          readRecordFromBlock_inside inside endAddr between
        simp only [empty, Bool.false_eq_true, if_false, read, other]
        cases good with
        | false => exact ⟨_, rfl, rfl⟩
        | true =>
            obtain ⟨left, ready⟩ := good_inside rfl
            have more := ih left { after with invalid := false } (calls ++ [after]) ready
            simp only
            split_ifs
            · exact ⟨_, rfl, rfl⟩
            · exact more
            · exact ⟨_, rfl, rfl⟩
            · exact more

end Records

section Header

variable {dev : BlockDevice} {block : DevBlock}

theorem unserialUint32_run (input : List UInt8) (there : 4 ≤ input.length) :
    unserialUint32.run input = .ok (UInt32.ofNat (number (input.take 4)), input.drop 4) := by
  have four : (input.take 4).length = 4 := List.length_take_of_le there
  have run := bytes_append (input.take 4) (input.drop 4) 4 four
  rw [List.take_append_drop] at run
  rw [unserialUint32, StateT.run_map, natural, run_bind_ok run]
  rfl

theorem unserBlockHead_run {buf : List UInt8} (there : BLKHDR2_LENGTH ≤ buf.length) :
    unserBlockHead.run buf =
      .ok (⟨checkSumField buf, lengthField buf, numberField buf, idField buf⟩, buf.drop 16) := by
  unfold BLKHDR2_LENGTH at there
  have id : (bytes 4).run (buf.drop 12) = .ok (idField buf, buf.drop 16) := by
    have four : (idField buf).length = 4 := by
      rw [idField, List.length_take, List.length_drop]
      omega
    have run := bytes_append (idField buf) ((buf.drop 12).drop 4) 4 four
    rwa [idField, List.take_append_drop, List.drop_drop] at run
  have second := unserialUint32_run (buf.drop 4) (by rw [List.length_drop]; omega)
  have third := unserialUint32_run (buf.drop 8) (by rw [List.length_drop]; omega)
  rw [List.drop_drop] at second third
  rw [unserBlockHead, run_bind_ok (unserialUint32_run _ (by omega)), run_bind_ok second,
    run_bind_ok third, run_bind_ok id]
  rfl

variable (dev) in
/-- A header with one of the two ids is read to its end. -/
theorem unserBlockHeader_eq (there : BLKHDR2_LENGTH ≤ block.buf.length) :
    match headerLength block.buf with
    | none => unserBlockHeader dev block = .ok none
    | some bhl => ∃ blockVer volSessionId volSessionTime, unserBlockHeader dev block =
        unserBlockEnd dev { block with blockVer, volSessionId, volSessionTime }
          ⟨checkSumField block.buf, lengthField block.buf, numberField block.buf,
            idField block.buf⟩ bhl := by
  have one : BLKHDR1_ID[3]? = some 49 := by decide
  have two : BLKHDR2_ID[3]? = some 50 := by decide
  have present : 8 ≤ (block.buf.drop 16).length := by
    rw [List.length_drop]
    unfold BLKHDR2_LENGTH at there
    omega
  obtain ⟨session, run, -⟩ := reads_unserSession.agree (k := 8) le_rfl present rfl
  unfold unserBlockHeader headerLength
  rw [unserBlockHead_run there]
  simp only [run]
  by_cases first : idField block.buf = BLKHDR1_ID
  · rw [if_pos first, first, if_pos one, if_pos rfl]
    exact ⟨1, block.volSessionId, block.volSessionTime, rfl⟩
  · rw [if_neg first]
    by_cases second : idField block.buf = BLKHDR2_ID
    · rw [if_pos second, second, if_neg (by rw [two]; decide), if_pos two, if_pos rfl]
      exact ⟨2, session.1, session.2, rfl⟩
    · rw [if_neg second]
      simp only [first, second, if_false, ite_self]

variable (dev block) in
/-- The end of `unser_block_header` when the length holds the header. -/
theorem unserBlockEnd_long (head : BlockHead) {bhl : ℕ} (header : bhl = 16 ∨ bhl = 24)
    (long : bhl ≤ head.blockLen.toNat) (read : bhl ≤ block.readLen) (word : block.readLen < 2 ^ 32) :
    unserBlockEnd dev block head bhl = .ok none ∨
    ∃ accepted, unserBlockEnd dev block head bhl = .ok (some accepted) ∧
      accepted.bufp + accepted.binbuf ≤ block.readLen ∧ accepted.buf = block.buf := by
  have covered : ¬ head.blockLen.toNat < BLKHDR_CS_LENGTH := by
    unfold BLKHDR_CS_LENGTH
    omega
  let blockEnd := if block.readLen < head.blockLen.toNat then block.readLen else head.blockLen.toNat
  have bound : bhl + (blockEnd + 2 ^ 32 - bhl) % 2 ^ 32 ≤ block.readLen := by
    have lower : bhl ≤ blockEnd ∧ blockEnd ≤ block.readLen := by
      unfold blockEnd
      split_ifs with cut
      · exact ⟨read, le_rfl⟩
      · exact ⟨long, not_lt.mp cut⟩
    omega
  unfold unserBlockEnd
  simp only [covered, if_false]
  by_cases insane : MAX_BLOCK_LENGTH < head.blockLen.toNat
  · exact .inl (if_pos insane)
  · rw [if_neg insane]
    by_cases checked : (decide (head.blockLen.toNat ≤ block.readLen) && dev.doChecksum) = true
    · rw [if_pos checked]
      by_cases matching : dev.bcrc32 ((block.buf.drop BLKHDR_CS_LENGTH).take
          (head.blockLen.toNat - BLKHDR_CS_LENGTH)) = head.checkSum
      · rw [if_pos matching]
        exact .inr ⟨_, rfl, bound, rfl⟩
      · exact .inl (if_neg matching)
    · rw [if_neg checked]
      exact .inr ⟨_, rfl, bound, rfl⟩

variable (dev block) in
/-- A length below that of the header: the block is accepted as one that goes on for
almost 2^32 bytes. -/
theorem unserBlockEnd_short (head : BlockHead) {bhl : ℕ} (header : bhl = 16 ∨ bhl = 24)
    (short : head.blockLen.toNat < bhl) (read : bhl ≤ block.readLen) :
    if dev.doChecksum then
      if head.blockLen.toNat < BLKHDR_CS_LENGTH then
        unserBlockEnd dev block head bhl = .error .readPastEnd
      else if dev.bcrc32 ((block.buf.drop BLKHDR_CS_LENGTH).take
          (head.blockLen.toNat - BLKHDR_CS_LENGTH)) = head.checkSum then
        ∃ accepted, unserBlockEnd dev block head bhl = .ok (some accepted) ∧
          accepted.bufp + accepted.binbuf = 2 ^ 32 + head.blockLen.toNat
      else unserBlockEnd dev block head bhl = .ok none
    else ∃ accepted, unserBlockEnd dev block head bhl = .ok (some accepted) ∧
      accepted.bufp + accepted.binbuf = 2 ^ 32 + head.blockLen.toNat := by
  have sane : ¬ MAX_BLOCK_LENGTH < head.blockLen.toNat := by
    unfold MAX_BLOCK_LENGTH
    omega
  have inside : head.blockLen.toNat ≤ block.readLen := by omega
  have notBehind : ¬ block.readLen < head.blockLen.toNat := by omega
  have wrapped : bhl + (head.blockLen.toNat + 2 ^ 32 - bhl) % 2 ^ 32 =
      2 ^ 32 + head.blockLen.toNat := by omega
  unfold unserBlockEnd
  simp only [sane, notBehind, inside, if_false, decide_true, Bool.true_and]
  by_cases checked : dev.doChecksum = true
  · rw [if_pos checked, if_pos checked]
    by_cases tiny : head.blockLen.toNat < BLKHDR_CS_LENGTH
    · rw [if_pos tiny, if_pos tiny]
    · rw [if_neg tiny, if_neg tiny]
      split_ifs
      · exact ⟨_, rfl, wrapped⟩
      · rfl
  · simp only [checked, Bool.false_eq_true, if_false]
    exact ⟨_, rfl, wrapped⟩

theorem headerLength_cases {buf : List UInt8} {bhl : ℕ} (known : headerLength buf = some bhl) :
    bhl = 16 ∨ bhl = 24 := by
  unfold headerLength at known
  split_ifs at known
  · exact .inl (Option.some.inj known).symm
  · exact .inr (Option.some.inj known).symm

/-- A short header that no checksum tells leaves the bytes that were read. -/
theorem ShortHeader.escapes (read : WasRead block) (short : ShortHeader dev block) :
    ¬ Contained dev block := by
  obtain ⟨bhl, known, below, missed⟩ := short
  have header := headerLength_cases known
  have there : BLKHDR2_LENGTH ≤ block.buf.length := read.memory ▸ read.header.trans read.inside
  have fits : bhl ≤ block.readLen := by
    have least := read.header
    unfold BLKHDR2_LENGTH at least
    omega
  have eq := unserBlockHeader_eq dev there
  rw [known] at eq
  obtain ⟨blockVer, volSessionId, volSessionTime, eq⟩ := eq
  have ending := unserBlockEnd_short dev { block with blockVer, volSessionId, volSessionTime }
    ⟨checkSumField block.buf, lengthField block.buf, numberField block.buf,
      idField block.buf⟩ header below fits
  rintro ⟨⟨result, returns⟩, within⟩
  rw [eq] at returns within
  have wraps (accepted : DevBlock) (bound : accepted.bufp + accepted.binbuf =
      2 ^ 32 + (lengthField block.buf).toNat) : ¬ accepted.bufp + accepted.binbuf ≤ block.readLen := by
    have inside := read.inside
    have word := read.word
    omega
  by_cases checked : dev.doChecksum = true
  · rw [if_pos checked] at ending
    by_cases tiny : (lengthField block.buf).toNat < BLKHDR_CS_LENGTH
    · rw [if_pos tiny] at ending
      rw [ending] at returns
      cases returns
    · have passes := (missed checked).resolve_left tiny
      rw [if_neg tiny, if_pos passes] at ending
      obtain ⟨accepted, run, bound⟩ := ending
      exact wraps accepted bound (within accepted run).1
  · rw [if_neg checked] at ending
    obtain ⟨accepted, run, bound⟩ := ending
    exact wraps accepted bound (within accepted run).1

/-- Any other header is refused, or its block lies in the bytes that were read. -/
theorem contained_of_not_short (read : WasRead block) (fine : ¬ ShortHeader dev block) :
    Contained dev block := by
  have there : BLKHDR2_LENGTH ≤ block.buf.length := read.memory ▸ read.header.trans read.inside
  have eq := unserBlockHeader_eq dev there
  cases known : headerLength block.buf with
  | none =>
      rw [known] at eq
      refine ⟨⟨none, eq⟩, fun accepted run => ?_⟩
      rw [eq] at run
      cases run
  | some bhl =>
      rw [known] at eq
      obtain ⟨blockVer, volSessionId, volSessionTime, eq⟩ := eq
      have header := headerLength_cases known
      have fits : bhl ≤ block.readLen := by
        have least := read.header
        unfold BLKHDR2_LENGTH at least
        omega
      have refused (none : unserBlockHeader dev block = .ok none) : Contained dev block := by
        refine ⟨⟨_, none⟩, fun accepted run => ?_⟩
        rw [none] at run
        cases run
      by_cases short : (lengthField block.buf).toNat < bhl
      · have ending := unserBlockEnd_short dev { block with blockVer, volSessionId, volSessionTime }
          ⟨checkSumField block.buf, lengthField block.buf, numberField block.buf,
            idField block.buf⟩ header short fits
        have noticed : ¬ (dev.doChecksum = true → (lengthField block.buf).toNat < BLKHDR_CS_LENGTH ∨
            dev.bcrc32 ((block.buf.drop BLKHDR_CS_LENGTH).take
              ((lengthField block.buf).toNat - BLKHDR_CS_LENGTH)) = checkSumField block.buf) :=
          fun missed => fine ⟨bhl, known, short, missed⟩
        push Not at noticed
        obtain ⟨checked, covered, differs⟩ := noticed
        rw [if_pos checked, if_neg (not_lt.mpr covered), if_neg differs] at ending
        exact refused (eq.trans ending)
      · have word := read.inside.trans_lt read.word
        obtain ending | ⟨accepted, ending, bound, memory⟩ := unserBlockEnd_long dev
          { block with blockVer, volSessionId, volSessionTime }
          ⟨checkSumField block.buf, lengthField block.buf, numberField block.buf,
            idField block.buf⟩ header (not_lt.mp short) fits word
        · exact refused (eq.trans ending)
        · refine ⟨⟨_, eq.trans ending⟩, fun other run => ?_⟩
          rw [eq.trans ending] at run
          obtain rfl := Option.some.inj (Except.ok.inj run)
          refine ⟨bound, fun bytes agree endAddr fuel rec calls between => ?_⟩
          have present : block.readLen ≤ accepted.buf.length := by
            rw [memory]
            exact read.memory ▸ read.inside
          exact readBlockRecords_inside ⟨bound, present, agree⟩ endAddr fuel rec calls between

end Header

theorem contained_iff (dev : BlockDevice) (block : DevBlock) (read : WasRead block) :
    Contained dev block ↔ ¬ ShortHeader dev block :=
  ⟨fun contained short => short.escapes read contained, contained_of_not_short read⟩

section Instance

/-- A disk device without checksums. -/
def plainDevice : BlockDevice where
  bufLen := 24
  isTape := false
  minBlockSize := 0
  maxBlockSize := 24
  doChecksum := false
  bcrc32 _ := 0
  tape no := Bool.noConfusion no

/-- A `BB02` header whose length is 10, and nothing else. -/
def truncatedBlock : DevBlock :=
  { buf := serialUint32 0 ++ serialUint32 10 ++ serialUint32 1 ++ BLKHDR2_ID ++
      serialUint32 1 ++ serialUint32 1
    bufLen := 24
    bufp := 0
    binbuf := 0
    readLen := 24 }

theorem truncatedBlock_read : WasRead truncatedBlock := by
  refine ⟨by decide, by decide, by decide, by decide⟩

theorem truncatedBlock_short : ShortHeader plainDevice truncatedBlock :=
  ⟨24, by decide, by decide, fun checked => Bool.noConfusion checked⟩

theorem short_header_escapes : WasRead truncatedBlock ∧ ¬ Contained plainDevice truncatedBlock :=
  ⟨truncatedBlock_read, truncatedBlock_short.escapes truncatedBlock_read⟩

theorem truncatedBlock_contained_iff :
    Contained plainDevice truncatedBlock ↔ ¬ ShortHeader plainDevice truncatedBlock :=
  contained_iff plainDevice truncatedBlock truncatedBlock_read

end Instance

end Bacula.MalformedBlock
