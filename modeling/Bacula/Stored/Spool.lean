import Bacula.Lib.Serial

/-! The spool file of `stored/spool.c`: blocks are written to it with a header, and a
despooling reads them into a block of its own and writes them to the device. The device
takes every block; a write to the spool file may be short. -/
namespace Bacula.Spool
open ByteCodec

/-- `struct FILEMEDIA_ITEM`, with the two pointers of its link. -/
structure FileMediaItem where
  next : UInt64 := 0
  prev : UInt64 := 0
  recordNo : UInt32
  fileIndex : UInt32
  blockAddr : UInt64
  fileOffset : UInt64
  volMediaId : Int64
  deriving DecidableEq, Repr

/-- `struct spool_hdr`. -/
structure SpoolHdr where
  firstIndex : Int32
  lastIndex : Int32
  len : UInt32
  nbFileMedia : UInt32
  deriving DecidableEq, Repr

/-- The parts of `DEV_BLOCK` that matter for spooling; `buf` has the `binbuf` bytes that are
in use. -/
structure DevBlock where
  buf : List UInt8 := []
  firstIndex : Int32 := 0
  lastIndex : Int32 := 0
  volSessionId : UInt32 := 0
  volSessionTime : UInt32 := 0
  blockNumber : UInt32 := 0
  fileMedia : List FileMediaItem := []
  deriving DecidableEq, Repr

def WRITE_BLKHDR_LENGTH : ℕ := 24

/-- `is_block_empty`: no data in it. -/
def DevBlock.isEmpty (block : DevBlock) : Prop := block.buf.length ≤ WRITE_BLKHDR_LENGTH

instance (block : DevBlock) : Decidable block.isEmpty := inferInstanceAs (Decidable (_ ≤ _))

/-- `empty_block`. The number of the block stays. -/
def emptyBlock (block : DevBlock) : DevBlock :=
  { block with
    buf := List.replicate WRITE_BLKHDR_LENGTH 0, firstIndex := 0, lastIndex := 0, fileMedia := [] }

/-- The session of the job and the size of the block buffers of its device. -/
structure Config where
  volSessionId : UInt32
  volSessionTime : UInt32
  bufLen : UInt32

/-- A block that the job has filled. It fits the buffer and belongs to the session. -/
structure JobBlock (cfg : Config) where
  buf : List UInt8
  firstIndex : Int32
  lastIndex : Int32
  fileMedia : List FileMediaItem
  fits : buf.length ≤ cfg.bufLen.toNat
  items : fileMedia.length < 2 ^ 32

variable {cfg : Config}

/-- The block as it is handed to the device with a number. -/
def JobBlock.numbered (b : JobBlock cfg) (blockNumber : UInt32) : DevBlock where
  buf := b.buf
  firstIndex := b.firstIndex
  lastIndex := b.lastIndex
  volSessionId := cfg.volSessionId
  volSessionTime := cfg.volSessionTime
  blockNumber := blockNumber
  fileMedia := b.fileMedia

section Memory

/-- The memory of a number of 32 or 64 bits. -/
def memory32 (v : UInt32) : List UInt8 := littleEndian 4 v.toNat

def memory64 (v : UInt64) : List UInt8 := littleEndian 8 v.toNat

def readMemory32 : Decoder UInt32 := UInt32.ofNat <$> naturalLE 4

def readMemory64 : Decoder UInt64 := UInt64.ofNat <$> naturalLE 8

@[simp] theorem readMemory32_memory (v : UInt32) (rest : List UInt8) :
    readMemory32.run (memory32 v ++ rest) = .ok (v, rest) := by
  simp [readMemory32, memory32]

@[simp] theorem readMemory64_memory (v : UInt64) (rest : List UInt8) :
    readMemory64.run (memory64 v ++ rest) = .ok (v, rest) := by
  simp [readMemory64, memory64]

def FileMediaItem.memory (fm : FileMediaItem) : List UInt8 :=
  memory64 fm.next ++ (memory64 fm.prev ++ (memory32 fm.recordNo ++ (memory32 fm.fileIndex ++
    (memory64 fm.blockAddr ++ (memory64 fm.fileOffset ++ memory64 fm.volMediaId.toUInt64)))))

def SpoolHdr.memory (hdr : SpoolHdr) : List UInt8 :=
  memory32 hdr.firstIndex.toUInt32 ++ (memory32 hdr.lastIndex.toUInt32 ++
    (memory32 hdr.len ++ memory32 hdr.nbFileMedia))

def readFileMediaItem : Decoder FileMediaItem := do
  let next ← readMemory64
  let prev ← readMemory64
  let recordNo ← readMemory32
  let fileIndex ← readMemory32
  let blockAddr ← readMemory64
  let fileOffset ← readMemory64
  let volMediaId ← readMemory64
  pure ⟨next, prev, recordNo, fileIndex, blockAddr, fileOffset, volMediaId.toInt64⟩

def readSpoolHdr : Decoder SpoolHdr := do
  let firstIndex ← readMemory32
  let lastIndex ← readMemory32
  let len ← readMemory32
  let nbFileMedia ← readMemory32
  pure ⟨firstIndex.toInt32, lastIndex.toInt32, len, nbFileMedia⟩

def readFileMedia : ℕ → Decoder (List FileMediaItem)
  | 0 => pure []
  | n + 1 => do
      let fm ← readFileMediaItem
      let rest ← readFileMedia n
      pure (fm :: rest)

@[simp] theorem readFileMediaItem_memory (fm : FileMediaItem) (rest : List UInt8) :
    readFileMediaItem.run (fm.memory ++ rest) = .ok (fm, rest) := by
  simp -implicitDefEqProofs only [readFileMediaItem, FileMediaItem.memory, List.append_assoc,
    StateT.run_bind, StateT.run_pure, ok_bind, readMemory64_memory, readMemory32_memory,
    Int64.toInt64_toUInt64]
  rfl

@[simp] theorem readSpoolHdr_memory (hdr : SpoolHdr) (rest : List UInt8) :
    readSpoolHdr.run (hdr.memory ++ rest) = .ok (hdr, rest) := by
  simp -implicitDefEqProofs only [readSpoolHdr, SpoolHdr.memory, List.append_assoc,
    StateT.run_bind, StateT.run_pure, ok_bind, readMemory32_memory, Int32.toInt32_toUInt32]
  rfl

theorem readFileMedia_memory (items : List FileMediaItem) (rest : List UInt8) :
    (readFileMedia items.length).run (items.flatMap FileMediaItem.memory ++ rest) =
      .ok (items, rest) := by
  induction items with
  | nil => rfl
  | cons fm items ih =>
      simp -implicitDefEqProofs only [List.length_cons, readFileMedia, List.flatMap_cons,
        List.append_assoc, StateT.run_bind, StateT.run_pure, ok_bind, readFileMediaItem_memory, ih]
      rfl

end Memory

/-- What `write_spool_header`, `write_spool_data` and `write_spool_filemedia` put into the
file one after the other. -/
def JobBlock.spooled (b : JobBlock cfg) : List UInt8 :=
  let hdr : SpoolHdr := ⟨b.firstIndex, b.lastIndex, UInt32.ofNat b.buf.length,
    UInt32.ofNat b.fileMedia.length⟩
  hdr.memory ++ (b.buf ++ b.fileMedia.flatMap FileMediaItem.memory)

/-- Results of `read_block_from_spool_file`: the block and the rest of the file. -/
inductive ReadResult where
  | eot
  | error
  | ok (block : DevBlock) (file : List UInt8)
  deriving DecidableEq

/-- `read_block_from_spool_file`. -/
def readBlockFromSpoolFile (cfg : Config) (block : DevBlock) (file : List UInt8) : ReadResult :=
  if file = [] then .eot
  else match readSpoolHdr.run file with
    | .error _ => .error
    | .ok (hdr, file) =>
      if cfg.bufLen < hdr.len then .error
      else match (bytes hdr.len.toNat).run file with
        | .error _ => .error
        | .ok (data, file) => match (readFileMedia hdr.nbFileMedia.toNat).run file with
          | .error _ => .error
          | .ok (items, file) => .ok { block with
              buf := data
              firstIndex := hdr.firstIndex
              lastIndex := hdr.lastIndex
              volSessionId := cfg.volSessionId
              volSessionTime := cfg.volSessionTime
              fileMedia := block.fileMedia ++ items } file

/-- `write_block_to_dev`: the device gets the block, which is emptied and gets the next
number. -/
def writeBlockToDevice (block : DevBlock) (device : List DevBlock) : DevBlock × List DevBlock :=
  if block.isEmpty then (block, device)
  else (emptyBlock { block with blockNumber := block.blockNumber + 1 }, device ++ [block])

/-- The loop of `despool_data`: the blocks on the device, or nothing after a read error. -/
def despoolLoop (cfg : Config) : ℕ → DevBlock → List UInt8 → List DevBlock → Option (List DevBlock)
  | 0, _, _, _ => none
  | fuel + 1, block, file, device =>
      match readBlockFromSpoolFile cfg block file with
      | .eot => some device
      | .error => none
      | .ok block file =>
          let (block, device) := writeBlockToDevice block device
          despoolLoop cfg fuel block file device

/-- The spool file and the device. -/
structure SpoolState where
  file : List UInt8 := []
  device : List DevBlock := []
  deriving DecidableEq

/-- `despool_data`: the blocks go through the new block of a temporary dcr, then the file
is truncated. Every block takes some bytes of the file, so its length is fuel enough. -/
def despoolData (cfg : Config) (s : SpoolState) : Option SpoolState :=
  match despoolLoop cfg (s.file.length + 1) (emptyBlock {}) s.file s.device with
  | some device => some { file := [], device }
  | none => none

/-- What the first write of a block to the spool file does; the second one is complete. -/
inductive FirstWrite (total : ℕ) where
  | complete
  | short (size : Fin total)

/-- `write_spool_block` with `rewind_spoolfile`: after a short write of some bytes they are
truncated, and the file is despooled before the second write. -/
def writeSpoolBlock (b : JobBlock cfg) (s : SpoolState) :
    FirstWrite b.spooled.length → Option SpoolState
  | .complete => some { s with file := s.file ++ b.spooled }
  | .short size => do
      let s := { s with file := s.file ++ b.spooled.take size }
      let s ← (if 0 < size.val then
          despoolData cfg { s with file := s.file.take (s.file.length - size) }
        else some s)
      some { s with file := s.file ++ b.spooled }

/-- A block of the job with what happens to it: whether a size limit is reached with it, and
its first write. -/
structure Event (cfg : Config) where
  block : JobBlock cfg
  despool : Bool
  write : FirstWrite block.spooled.length

/-- `write_block_to_spool_file`. -/
def writeBlockToSpoolFile (s : SpoolState) (e : Event cfg) : Option SpoolState :=
  if e.block.buf.length ≤ WRITE_BLKHDR_LENGTH then some s
  else do
    let s ← (if e.despool then despoolData cfg s else some s)
    writeSpoolBlock e.block s e.write

/-- A job with spooling on, until its data is committed: the blocks on the device. -/
def spoolJob (cfg : Config) (events : List (Event cfg)) : Option (List DevBlock) := do
  let s ← events.foldlM writeBlockToSpoolFile {}
  let s ← despoolData cfg s
  some s.device

/-- The same blocks with spooling off, through the block of the job: its next number and
the blocks on the device. -/
def directWrite (s : UInt32 × List DevBlock) (b : JobBlock cfg) : UInt32 × List DevBlock :=
  let (block, device) := writeBlockToDevice (b.numbered s.1) s.2
  (block.blockNumber, device)

def directJob (blockNumber : UInt32) (blocks : List (JobBlock cfg)) : List DevBlock :=
  (blocks.foldl directWrite (blockNumber, [])).2

/-! What spooling does to the sequence of blocks: it cuts it into batches, one for every
despooling, and numbers each from zero. -/

/-- Blocks with consecutive numbers. -/
def numberFrom : UInt32 → List (JobBlock cfg) → List DevBlock
  | _, [] => []
  | n, b :: rest => b.numbered n :: numberFrom (n + 1) rest

/-- The batches handed on before and the blocks in the spool file. -/
structure Batches (cfg : Config) where
  handed : List (List (JobBlock cfg)) := []
  pending : List (JobBlock cfg) := []

def Batches.flush (s : Batches cfg) : Batches cfg :=
  { handed := s.handed ++ [s.pending], pending := [] }

/-- An empty block leaves no trace. A limit and a short write of some bytes end a batch. -/
def Batches.add (s : Batches cfg) (e : Event cfg) : Batches cfg :=
  if e.block.buf.length ≤ WRITE_BLKHDR_LENGTH then s
  else
    let s := if e.despool then s.flush else s
    let s := match e.write with
      | .complete => s
      | .short size => if 0 < size.val then s.flush else s
    { s with pending := s.pending ++ [e.block] }

/-- The batches of a whole job, the last is handed on by the commit. -/
def batches (events : List (Event cfg)) : List (List (JobBlock cfg)) :=
  (events.foldl Batches.add {}).flush.handed

theorem numberFrom_append (n : UInt32) (a b : List (JobBlock cfg)) :
    numberFrom n (a ++ b) = numberFrom n a ++ numberFrom (n + UInt32.ofNat a.length) b := by
  induction a generalizing n with
  | nil => simp [numberFrom]
  | cons x a ih =>
      have next : n + 1 + UInt32.ofNat a.length = n + UInt32.ofNat (x :: a).length := by
        rw [List.length_cons, UInt32.ofNat_add, add_assoc, add_comm (UInt32.ofNat a.length)]
        rfl
      simp only [List.cons_append, numberFrom, ih, next]

@[simp] theorem numberFrom_length (n : UInt32) (a : List (JobBlock cfg)) :
    (numberFrom n a).length = a.length := by
  induction a generalizing n with
  | nil => rfl
  | cons x a ih => simp only [numberFrom, List.length_cons, ih]

theorem numberFrom_eq_iff (n m : UInt32) (a : List (JobBlock cfg)) :
    numberFrom n a = numberFrom m a ↔ a ≠ [] → n = m := by
  cases a with
  | nil => simp [numberFrom]
  | cons x a =>
      constructor
      · intro same _
        simp only [numberFrom, List.cons.injEq] at same
        exact congrArg DevBlock.blockNumber same.1
      · intro same
        rw [same (List.cons_ne_nil x a)]

/-- The blocks of the job that have data. -/
def nonempty (blocks : List (JobBlock cfg)) : List (JobBlock cfg) :=
  blocks.filter fun b => WRITE_BLKHDR_LENGTH < b.buf.length

theorem directJob_eq (n : UInt32) (blocks : List (JobBlock cfg)) :
    directJob n blocks = numberFrom n (nonempty blocks) := by
  suffices run : ∀ (blocks : List (JobBlock cfg)) n device,
      (blocks.foldl directWrite (n, device)).2 = device ++ numberFrom n (nonempty blocks) by
    exact (run blocks n []).trans (List.nil_append _)
  intro blocks
  induction blocks with
  | nil => intro n device; simp [nonempty, numberFrom]
  | cons b rest ih =>
      intro n device
      by_cases empty : b.buf.length ≤ WRITE_BLKHDR_LENGTH
      · have skipped : directWrite (n, device) b = (n, device) := by
          have : (b.numbered n).isEmpty := empty
          simp only [directWrite, writeBlockToDevice, this, if_true]
          rfl
        have noData : nonempty (b :: rest) = nonempty rest := by
          simp [nonempty, empty]
        rw [List.foldl_cons, skipped, ih, noData]
      · have written : directWrite (n, device) b = (n + 1, device ++ [b.numbered n]) := by
          have : ¬ (b.numbered n).isEmpty := empty
          simp only [directWrite, writeBlockToDevice, this, if_false]
          rfl
        have data : nonempty (b :: rest) = b :: nonempty rest := by
          simp [nonempty, not_le.mp empty]
        rw [List.foldl_cons, written, ih, data, numberFrom, List.append_assoc]
        rfl

@[simp] theorem SpoolHdr.memory_length (hdr : SpoolHdr) : hdr.memory.length = 16 := by
  simp only [SpoolHdr.memory, memory32, List.length_append, littleEndian_length]

theorem JobBlock.header_le_spooled (b : JobBlock cfg) : 16 ≤ b.spooled.length := by
  rw [JobBlock.spooled, List.length_append, SpoolHdr.memory_length]
  exact Nat.le_add_right 16 _

theorem JobBlock.spooled_append_ne_nil (b : JobBlock cfg) (file : List UInt8) :
    b.spooled ++ file ≠ [] := by
  intro nothing
  have none : b.spooled.length = 0 := by
    rw [(List.append_eq_nil_iff.mp nothing).1, List.length_nil]
  have := b.header_le_spooled
  omega

/-- A block that was spooled is read back into the block of the temporary dcr. -/
theorem readBlockFromSpoolFile_spooled (b : JobBlock cfg) (block : DevBlock)
    (file : List UInt8) (clean : block.fileMedia = []) :
    readBlockFromSpoolFile cfg block (b.spooled ++ file) =
      .ok (b.numbered block.blockNumber) file := by
  have len : (UInt32.ofNat b.buf.length).toNat = b.buf.length :=
    UInt32.toNat_ofNat_of_lt' (lt_of_le_of_lt b.fits cfg.bufLen.toNat_lt)
  have nb : (UInt32.ofNat b.fileMedia.length).toNat = b.fileMedia.length :=
    UInt32.toNat_ofNat_of_lt' b.items
  have small : ¬ cfg.bufLen < UInt32.ofNat b.buf.length := by
    rw [UInt32.lt_iff_toNat_lt, len]
    exact not_lt.mpr b.fits
  rw [readBlockFromSpoolFile, if_neg (b.spooled_append_ne_nil file), JobBlock.spooled,
    List.append_assoc, readSpoolHdr_memory]
  simp -implicitDefEqProofs only [small, if_false, len, nb, List.append_assoc]
  rw [bytes_append _ _ _ rfl]
  simp -implicitDefEqProofs only [readFileMedia_memory, clean, List.nil_append]
  rfl

theorem despoolLoop_spooled (pending : List (JobBlock cfg)) (fuel : ℕ) (block : DevBlock)
    (device : List DevBlock) (clean : block.fileMedia = []) (enough : pending.length < fuel)
    (data : ∀ b ∈ pending, WRITE_BLKHDR_LENGTH < b.buf.length) :
    despoolLoop cfg fuel block (pending.flatMap JobBlock.spooled) device =
      some (device ++ numberFrom block.blockNumber pending) := by
  induction pending generalizing fuel block device with
  | nil =>
      cases fuel with
      | zero => exact absurd enough (Nat.not_lt_zero _)
      | succ fuel => simp [despoolLoop, readBlockFromSpoolFile, numberFrom]
  | cons b rest ih =>
      cases fuel with
      | zero => exact absurd enough (Nat.not_lt_zero _)
      | succ fuel =>
          have full : ¬ (b.numbered block.blockNumber).isEmpty :=
            not_le.mpr (data b List.mem_cons_self)
          have written : writeBlockToDevice (b.numbered block.blockNumber) device =
              (emptyBlock (b.numbered (block.blockNumber + 1)),
                device ++ [b.numbered block.blockNumber]) := by
            rw [writeBlockToDevice, if_neg full]
            rfl
          rw [despoolLoop, List.flatMap_cons, readBlockFromSpoolFile_spooled b block _ clean]
          have next := ih fuel (emptyBlock (b.numbered (block.blockNumber + 1)))
            (device ++ [b.numbered block.blockNumber]) rfl (Nat.lt_of_succ_lt_succ enough)
            (fun x hx => data x (List.mem_cons_of_mem b hx))
          simp only [written, next, numberFrom, List.append_assoc]
          rfl

/-- The state of the spool refines the batches. -/
structure Refines (s : SpoolState) (a : Batches cfg) : Prop where
  file : s.file = a.pending.flatMap JobBlock.spooled
  device : s.device = a.handed.flatMap (numberFrom 0)
  data : ∀ b ∈ a.pending, WRITE_BLKHDR_LENGTH < b.buf.length

theorem length_le_flatMap_spooled (pending : List (JobBlock cfg)) :
    pending.length ≤ (pending.flatMap JobBlock.spooled).length := by
  induction pending with
  | nil => exact le_refl 0
  | cons b rest ih =>
      have header := b.header_le_spooled
      simp only [List.length_cons, List.flatMap_cons, List.length_append]
      omega

theorem Refines.despool {s : SpoolState} {a : Batches cfg} (ref : Refines s a) :
    ∃ t, despoolData cfg s = some t ∧ Refines t a.flush := by
  have loop := despoolLoop_spooled a.pending (s.file.length + 1) (emptyBlock {}) s.device rfl
    (by rw [ref.file]; exact Nat.lt_succ_of_le (length_le_flatMap_spooled a.pending)) ref.data
  refine ⟨⟨[], s.device ++ numberFrom 0 a.pending⟩, ?_, ?_⟩
  · rw [despoolData, ref.file]
    rw [ref.file] at loop
    rw [loop]
    rfl
  · refine ⟨rfl, ?_, by simp [Batches.flush]⟩
    simp only [Batches.flush, List.flatMap_append, ref.device, List.flatMap_cons, List.flatMap_nil,
      List.append_nil]

theorem Refines.append {s : SpoolState} {a : Batches cfg} (ref : Refines s a) (b : JobBlock cfg)
    (data : WRITE_BLKHDR_LENGTH < b.buf.length) :
    Refines { s with file := s.file ++ b.spooled } { a with pending := a.pending ++ [b] } := by
  refine ⟨?_, ref.device, ?_⟩
  · simp only [ref.file, List.flatMap_append, List.flatMap_cons, List.flatMap_nil, List.append_nil]
  · intro x hx
    rcases List.mem_append.mp hx with old | new
    · exact ref.data x old
    · rw [List.mem_singleton.mp new]
      exact data

theorem Refines.write {s : SpoolState} {a : Batches cfg} (ref : Refines s a) (e : Event cfg) :
    ∃ t, writeBlockToSpoolFile s e = some t ∧ Refines t (a.add e) := by
  unfold writeBlockToSpoolFile Batches.add
  by_cases empty : e.block.buf.length ≤ WRITE_BLKHDR_LENGTH
  · rw [if_pos empty, if_pos empty]
    exact ⟨s, rfl, ref⟩
  · rw [if_neg empty, if_neg empty]
    have data := not_le.mp empty
    obtain ⟨s', forced, ref'⟩ : ∃ s', (if e.despool then despoolData cfg s else some s) = some s' ∧
        Refines s' (if e.despool then a.flush else a) := by
      cases e.despool
      · exact ⟨s, rfl, ref⟩
      · exact ref.despool
    simp only [forced, Option.bind_eq_bind, Option.bind_some]
    cases first : e.write with
    | complete => exact ⟨_, rfl, ref'.append e.block data⟩
    | short size =>
        by_cases some_bytes : 0 < size.val
        · have truncated : (s'.file ++ e.block.spooled.take size).take
              ((s'.file ++ e.block.spooled.take size).length - size) = s'.file := by
            have : (e.block.spooled.take size).length = size :=
              List.length_take_of_le (Nat.le_of_lt size.isLt)
            rw [List.length_append, this, Nat.add_sub_cancel, List.take_left]
          obtain ⟨t, despooled, ref''⟩ := ref'.despool
          simp only [writeSpoolBlock, some_bytes, if_true, truncated, Option.bind_eq_bind]
          rw [despooled]
          exact ⟨_, rfl, ref''.append e.block data⟩
        · have none : size.val = 0 := by omega
          simp only [writeSpoolBlock, none, lt_irrefl, if_false, List.take_zero, List.append_nil,
            Option.bind_eq_bind, Option.bind_some]
          exact ⟨_, rfl, ref'.append e.block data⟩

theorem Refines.run {s : SpoolState} {a : Batches cfg} (ref : Refines s a)
    (events : List (Event cfg)) :
    ∃ t, events.foldlM writeBlockToSpoolFile s = some t ∧
      Refines t (events.foldl Batches.add a) := by
  induction events generalizing s a with
  | nil => exact ⟨s, rfl, ref⟩
  | cons e rest ih =>
      obtain ⟨s', written, ref'⟩ := ref.write e
      obtain ⟨t, done, refT⟩ := ih ref'
      refine ⟨t, ?_, refT⟩
      simp only [List.foldlM_cons, written, Option.bind_eq_bind, Option.bind_some, done]

/-- A job with spooling never fails, and the device gets its batches, each numbered from
zero. -/
theorem spoolJob_eq (events : List (Event cfg)) :
    spoolJob cfg events = some ((batches events).flatMap (numberFrom 0)) := by
  have start : Refines ({} : SpoolState) ({} : Batches cfg) :=
    ⟨rfl, rfl, fun b hb => absurd hb List.not_mem_nil⟩
  obtain ⟨s, written, ref⟩ := start.run events
  obtain ⟨t, committed, refT⟩ := ref.despool
  have device := refT.device
  simp only [spoolJob, written, committed, Option.bind_eq_bind, Option.bind_some, device, batches]

/-- The numbers of a spooled block are right if the next block of a job without spooling has
number zero whenever a batch with a block in it starts. -/
def Aligned : UInt32 → List (List (JobBlock cfg)) → Prop
  | _, [] => True
  | n, batch :: rest => (batch ≠ [] → n = 0) ∧ Aligned (n + UInt32.ofNat batch.length) rest

theorem flatMap_numberFrom_iff (n : UInt32) (parts : List (List (JobBlock cfg))) :
    parts.flatMap (numberFrom 0) = numberFrom n parts.flatten ↔ Aligned n parts := by
  induction parts generalizing n with
  | nil => simp [Aligned, numberFrom]
  | cons batch rest ih =>
      have lengths : (numberFrom 0 batch).length = (numberFrom n batch).length := by
        rw [numberFrom_length, numberFrom_length]
      rw [List.flatMap_cons, List.flatten_cons, numberFrom_append, Aligned, ← ih]
      constructor
      · intro same
        obtain ⟨here, later⟩ := List.append_inj same lengths
        exact ⟨fun data => ((numberFrom_eq_iff 0 n batch).mp here data).symm, later⟩
      · intro ⟨zero, later⟩
        rw [later, (numberFrom_eq_iff 0 n batch).mpr fun data => (zero data).symm]

/-- The blocks in the order in which they reach the device. -/
def Batches.blocks (a : Batches cfg) : List (JobBlock cfg) := a.handed.flatten ++ a.pending

theorem Batches.blocks_flush (a : Batches cfg) : a.flush.blocks = a.blocks := by
  simp [Batches.blocks, Batches.flush]

theorem Batches.blocks_add (a : Batches cfg) (e : Event cfg) :
    (a.add e).blocks = a.blocks ++ nonempty [e.block] := by
  have put : ∀ a : Batches cfg,
      Batches.blocks { a with pending := a.pending ++ [e.block] } = a.blocks ++ [e.block] := by
    intro a
    simp [Batches.blocks]
  unfold Batches.add
  by_cases empty : e.block.buf.length ≤ WRITE_BLKHDR_LENGTH
  · simp [nonempty, empty]
  · have data : nonempty [e.block] = [e.block] := by simp [nonempty, not_le.mp empty]
    rw [if_neg empty, put, data]
    congr 1
    cases e.write with
    | complete => cases e.despool <;> simp [Batches.blocks_flush]
    | short size => cases e.despool <;> (simp only; split <;> simp [Batches.blocks_flush])

/-- No block is lost, none is doubled, and their order stays. -/
theorem batches_flatten (events : List (Event cfg)) :
    (batches events).flatten = nonempty (events.map Event.block) := by
  suffices run : ∀ (events : List (Event cfg)) (a : Batches cfg),
      (events.foldl Batches.add a).blocks = a.blocks ++ nonempty (events.map Event.block) by
    have all := run events {}
    rw [← Batches.blocks_flush] at all
    simpa [Batches.blocks, Batches.flush, batches] using all
  intro events
  induction events with
  | nil => intro a; simp [nonempty]
  | cons e rest ih =>
      intro a
      rw [List.foldl_cons, ih, Batches.blocks_add, List.append_assoc]
      simp [nonempty, ← List.filter_append]

/-- A block without its number. -/
def DevBlock.contents (block : DevBlock) : DevBlock := { block with blockNumber := 0 }

theorem numberFrom_contents (n : UInt32) (a : List (JobBlock cfg)) :
    (numberFrom n a).map DevBlock.contents = a.map (JobBlock.numbered · 0) := by
  induction a generalizing n with
  | nil => rfl
  | cons b rest ih =>
      rw [numberFrom, List.map_cons, List.map_cons, ih]
      rfl

/-- Apart from the numbers spooling is transparent. -/
theorem spoolJob_contents (blockNumber : UInt32) (events : List (Event cfg)) :
    ∃ device, spoolJob cfg events = some device ∧
      device.map DevBlock.contents =
        (directJob blockNumber (events.map Event.block)).map DevBlock.contents := by
  refine ⟨_, spoolJob_eq events, ?_⟩
  rw [directJob_eq, numberFrom_contents, ← batches_flatten]
  induction batches events with
  | nil => rfl
  | cons batch rest ih =>
      rw [List.flatMap_cons, List.map_append, numberFrom_contents, ih, List.flatten_cons,
        List.map_append]

/-- Spooling is transparent exactly when the numbers that start again with every
despooling are those of a job without spooling. -/
theorem spoolJob_transparent_iff (blockNumber : UInt32) (events : List (Event cfg)) :
    spoolJob cfg events = some (directJob blockNumber (events.map Event.block)) ↔
      Aligned blockNumber (batches events) := by
  rw [spoolJob_eq, Option.some_inj, directJob_eq, ← batches_flatten, flatMap_numberFrom_iff]

def smallConfig : Config := ⟨1, 1, 64512⟩

/-- A block with one byte of data. -/
def oneByte : JobBlock smallConfig where
  buf := List.replicate 25 0
  firstIndex := 1
  lastIndex := 1
  fileMedia := []
  fits := by decide
  items := by decide

/-- The first block of a job is despooled when the second one reaches a limit, and both get
the number zero. -/
theorem despool_restarts_numbers :
    ¬ ∀ (cfg : Config) (blockNumber : UInt32) (events : List (Event cfg)),
      spoolJob cfg events = some (directJob blockNumber (events.map Event.block)) := by
  intro transparent
  have same := transparent smallConfig 0
    [⟨oneByte, false, .complete⟩, ⟨oneByte, true, .complete⟩]
  rw [spoolJob_eq, directJob_eq, Option.some_inj] at same
  exact absurd (congrArg (List.map DevBlock.blockNumber) same) (by decide)

end Bacula.Spool
