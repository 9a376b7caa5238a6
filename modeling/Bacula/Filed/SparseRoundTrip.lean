import Bacula.Filed.Restore

/-! A file saved with its block addresses comes back with the same bytes: the blocks that were
left out are zeros, and the last block is left out only if the file has no size to reach. -/
namespace Bacula.Filed
open ByteCodec BlockStream SparseFile

theorem number_eq_zero {bytes : List UInt8} (zero : number bytes = 0) : ∀ b ∈ bytes, b = 0 := by
  induction bytes with
  | nil => simp
  | cons b rest ih =>
      rw [number, Nat.add_eq_zero_iff, Nat.mul_eq_zero] at zero
      obtain ⟨first | impossible, later⟩ := zero
      · have head : b = 0 := UInt8.toNat_inj.mp first
        simpa [head] using ih later
      · exact absurd impossible (Nat.pos_of_ne_zero (by positivity)).ne'

theorem words_zero {buf : List UInt8} {n : ℕ}
    (zero : ∀ i < n, number ((buf.drop (8 * i)).take 8) = 0) : ∀ b ∈ buf.take (8 * n), b = 0 := by
  induction n with
  | zero => simp
  | succ n ih =>
      rw [Nat.mul_succ, List.take_add]
      intro b inside
      rcases List.mem_append.mp inside with first | word
      · exact ih (fun i lt => zero i (Nat.lt_succ_of_lt lt)) b first
      · exact number_eq_zero (zero n (Nat.lt_succ_self n)) b word

theorem isBufZero_zero {buf : List UInt8} (zero : isBufZero buf = true) : ∀ b ∈ buf, b = 0 := by
  simp only [isBufZero, Bool.and_eq_true, List.all_eq_true, List.mem_range, decide_eq_true_eq] at zero
  obtain ⟨⟨-, words⟩, rest⟩ := zero
  intro b inside
  rw [← List.take_append_drop (8 * (buf.length / 8)) buf] at inside
  rcases List.mem_append.mp inside with front | back
  · exact words_zero words b front
  · exact rest b back

/-- Whatever the buffer holds behind the data, a block that is left out is all zeros. -/
theorem allZeros_zero {rsize : ℕ} {ff : FFPkt} {fileAddr : UInt64} {read : BufRead rsize}
    (skipped : allZeros ff fileAddr read = true) : ∀ b ∈ read.data, b = 0 := by
  rw [allZeros, Bool.and_eq_true] at skipped
  exact fun b inside => isBufZero_zero skipped.2 b (List.mem_append_left _ inside)

/-- The size up to which the skipped blocks can be told from the end of the file. -/
theorem allZeros_size {rsize : ℕ} {ff : FFPkt} {fileAddr : UInt64} {read : BufRead rsize}
    (skipped : allZeros ff fileAddr read = true) :
    fileAddr + .ofNat read.data.length < ff.stSize.toUInt64 ∨ ff.stSize.toUInt64 = 0 := by
  simp only [allZeros, Bool.and_eq_true, Bool.or_eq_true, decide_eq_true_eq] at skipped
  exact skipped.1.imp And.right And.right

/-- The reader finds the options of the writer in the stream. -/
theorem restoreFlags_select {pkt ff : FFPkt} {stream : DataStream}
    (selected : selectDataStream pkt = (stream, ff)) :
    restoreFlags stream ff.flags.offsets = ff.flags := by
  obtain ⟨type, stSize, ⟨sparse, offsets, compress, encrypt⟩, algo⟩ := pkt
  obtain ⟨rfl, rfl⟩ := Prod.mk.inj selected.symm
  cases sparse <;> cases compress <;> cases encrypt <;> cases algo <;> rfl

theorem hasHeader_select {pkt ff : FFPkt} {stream : DataStream}
    (selected : selectDataStream pkt = (stream, ff)) :
    stream.hasHeader = (ff.flags.compress && ff.compressAlgo = .lzo1x) := by
  obtain ⟨type, stSize, ⟨sparse, offsets, compress, encrypt⟩, algo⟩ := pkt
  obtain ⟨rfl, rfl⟩ := Prod.mk.inj selected.symm
  cases sparse <;> cases compress <;> cases encrypt <;> cases algo <;> rfl

@[simp] theorem compStreamHeader_length (n : ℕ) : (compStreamHeader n).length = 12 := by
  simp [compStreamHeader]

theorem compHeader_run (n : ℕ) (rest : List UInt8) :
    compHeader.run (compStreamHeader n ++ rest) =
      .ok ((COMPRESS_LZO1X, .ofNat n, 0, COMP_HEAD_VERSION), rest) := by
  simp only [compStreamHeader, List.append_assoc]
  rw [compHeader, run_bind_ok (unserialUint32_serial _ _), run_bind_ok (unserialUint32_serial _ _),
    run_bind_ok (unserialUint16_serial _ _), run_bind_ok (unserialUint16_serial _ _)]
  rfl

theorem JCR.maxCompressLen_lt (jcr : JCR) (flags : FileOptions) :
    maxCompressLen jcr flags + 16 < 2 ^ 31 := by
  have := jcr.small
  have sizes : jcr.compressBufSize = jcr.bufSize + jcr.bufSize / 16 + 67 + 12 := by
    rw [JCR.compressBufSize, max_eq_left (by omega)]
  rw [maxCompressLen]
  split <;> omega

/-- What was compressed for the stream is decompressed again. -/
theorem decompress_compress {jcr : JCR} {codec : Codec} (lossless : codec.Lossless)
    {pkt ff : FFPkt} {stream : DataStream} (selected : selectDataStream pkt = (stream, ff))
    {data first block : List UInt8} (libz : doLibzCompression jcr codec ff data = some first)
    (lzo : doLzoCompression jcr codec ff first = some block) :
    (if ff.flags.compress then decompressData codec stream block else some block) = some data := by
  have header := hasHeader_select selected
  rw [doLibzCompression] at libz
  rw [doLzoCompression] at lzo
  by_cases compress : ff.flags.compress = true
  · rw [if_pos compress, decompressData, header, compress, Bool.true_and]
    rw [compress, Bool.true_and] at libz lzo
    cases algo : ff.compressAlgo with
    | gzip =>
        simp only [algo, decide_true, if_true, reduceCtorEq, decide_false, Bool.false_eq_true,
          if_false, Option.some.injEq] at libz lzo ⊢
        split at libz
        · obtain rfl := Option.some_inj.mp libz
          rw [← lzo]
          exact lossless.gzip data
        · cases libz
    | lzo1x =>
        simp only [algo, decide_true, if_true, reduceCtorEq, decide_false, Bool.false_eq_true,
          if_false, Option.some.injEq] at libz lzo ⊢
        subst libz
        split at lzo
        case isFalse => cases lzo
        case isTrue fits =>
          obtain rfl := Option.some_inj.mp lzo
          have bound := jcr.maxCompressLen_lt ff.flags
          have len : (UInt32.ofNat (codec.lzo1xCompress data).length).toNat =
              (codec.lzo1xCompress data).length := UInt32.toNat_ofNat_of_lt' (by
            change _ < 2 ^ 32
            omega)
          simp only [compHeader_run, len, ne_eq, not_true, if_false, List.length_append,
            compStreamHeader_length, add_comm _ 12, if_true]
          exact lossless.lzo1x data
  · have off : ff.flags.compress = false := by simpa using compress
    rw [if_neg compress]
    simp only [off, Bool.false_and, Bool.false_eq_true, if_false, Option.some.injEq] at libz lzo
    rw [libz, lzo]

variable {σ τ : Type}

/-- What the reader has made of the part `content` of a file: it has written no further, and what
it has not written are zeros. -/
structure Restoring (content : List UInt8) (rctx : RCtx τ) : Prop where
  agrees : Agrees rctx.file content
  short : rctx.file.length ≤ content.length
  atAddr : rctx.pos = rctx.fileAddr.toNat

/-- Before the end of a file of size `stSize`, only blocks at the end can be missing; a size of 0
is no bound. -/
def Reaches (stSize : UInt64) (content : List UInt8) (rctx : RCtx τ) : Prop :=
  rctx.file.length = content.length ∨ content.length < stSize.toNat ∨ stSize = 0

theorem sparseData_run (rctx : RCtx τ) (atAddr : rctx.pos = rctx.fileAddr.toNat) {addr : UInt64}
    (small : addr.toNat < 2 ^ 63) (data : List UInt8) :
    sparseData rctx (serialUint64 addr ++ data) =
      some ({ rctx with fileAddr := addr, pos := addr.toNat }, data) := by
  rw [sparseData, unserialUint64_serial]
  by_cases moved : rctx.fileAddr = addr
  · subst moved
    simp only [ne_eq, not_true, if_false, ← atAddr]
  · simp only [ne_eq, moved, not_false_eq_true, if_true, RCtx.seek, small, Option.map_some]

/-- One block that carries its address. -/
theorem extractData_block {jcr : JCR} {codec : Codec} (lossless : codec.Lossless)
    (decrypter : Transformer τ UInt8) {pkt ff : FFPkt} {stream : DataStream}
    (selected : selectDataStream pkt = (stream, ff)) (plain : ff.flags.encrypt = false)
    (addressed : ff.flags.addressed = true) {data first block : List UInt8}
    (libz : doLibzCompression jcr codec ff data = some first)
    (lzo : doLzoCompression jcr codec ff first = some block) (some : data ≠ [])
    {content : List UInt8} {rctx : RCtx τ} (restoring : Restoring content rctx)
    (small : content.length + data.length < 2 ^ 63) :
    ∃ rctx', extractData codec decrypter stream (restoreFlags stream ff.flags.offsets) rctx
        (serialUint64 (.ofNat content.length) ++ block) = .some rctx' ∧
      Restoring (content ++ data) rctx' ∧ rctx'.file.length = (content ++ data).length := by
  have addr : (UInt64.ofNat content.length).toNat = content.length :=
    UInt64.toNat_ofNat_of_lt' (by change _ < 2 ^ 64; omega)
  have filtered :
      filterBlock codec stream ff.flags rctx (serialUint64 (.ofNat content.length) ++ block) =
      .some ({ rctx with fileAddr := .ofNat content.length, pos := content.length }, data) := by
    have undone := decompress_compress lossless selected libz lzo
    rw [filterBlock, addressed, if_pos rfl,
      sparseData_run rctx restoring.atAddr (by rw [addr]; omega) block, addr]
    cases compress : ff.flags.compress with
    | true =>
        rw [compress, if_pos rfl] at undone
        simp only [Option.bind_eq_bind, Option.bind_some, if_true, undone, Option.pure_def]
    | false =>
        rw [compress, if_neg Bool.false_ne_true] at undone
        simp only [Option.bind_eq_bind, Option.bind_some, Bool.false_eq_true, if_false,
          Option.some_inj.mp undone, Option.pure_def]
  have next : (UInt64.ofNat content.length + .ofNat data.length).toNat =
      content.length + data.length := by
    rw [UInt64.toNat_add, addr, UInt64.toNat_ofNat_of_lt' (by change _ < 2 ^ 64; omega)]
    omega
  have extracted : extractData codec decrypter stream (restoreFlags stream ff.flags.offsets) rctx
      (serialUint64 (.ofNat content.length) ++ block) = .some ((storeData
        { rctx with fileAddr := .ofNat content.length, pos := content.length } data).advance
          data.length) := by
    rw [restoreFlags_select selected, extractData, plain, if_neg Bool.false_ne_true, filtered]
    rfl
  have length : (SparseFile.write rctx.file content.length data).length = (content ++ data).length := by
    have := restoring.short
    rw [write_length some, List.length_append]
    omega
  exact ⟨_, extracted, ⟨restoring.agrees.write restoring.short, length.le, next.symm⟩, length⟩

/-- Every read of a plugin reports where its data stand in the file. -/
def Located {rsize : ℕ} : ℕ → List (BufRead rsize) → Prop
  | _, [] => True
  | pos, read :: reads =>
      read.offset.toUInt64 = .ofNat pos ∧ Located (pos + read.data.length) reads

/-- A block is left out only if all its bytes are zero. -/
theorem skipped_zero {rsize : ℕ} {jcr : JCR} {codec : Codec} {encrypter : Transformer σ UInt8}
    {ff : FFPkt} (plain : ff.flags.encrypt = false) {bctx bctx' : BCtx σ} {read : BufRead rsize}
    (skipped : processAndSendData jcr codec encrypter ff bctx read = some (bctx', none)) :
    ∀ b ∈ read.data, b = 0 := by
  rw [processAndSendData] at skipped
  split at skipped
  case isTrue zeros => exact allZeros_zero (Bool.and_eq_true .. ▸ zeros).2
  case isFalse =>
    simp [plain, Option.bind_eq_some_iff] at skipped

/-- One read of a file with addresses: the writer sends nothing for a block of zeros before the
end, or the block with its place in the file. -/
theorem processAndSendData_cases {rsize : ℕ} {jcr : JCR} {codec : Codec}
    {encrypter : Transformer σ UInt8} {ff : FFPkt} (plain : ff.flags.encrypt = false)
    (addressed : ff.flags.addressed = true) {pos : ℕ} {bctx bctx' : BCtx σ}
    (atPos : ff.flags.sparse = true → bctx.fileAddr = .ofNat pos) {read : BufRead rsize}
    (located : ff.flags.sparse = false → read.offset.toUInt64 = .ofNat pos)
    {record : Option (List UInt8)} (small : pos + read.data.length < 2 ^ 63)
    (sent : processAndSendData jcr codec encrypter ff bctx read = some (bctx', record)) :
    (ff.flags.sparse = true → bctx'.fileAddr = .ofNat (pos + read.data.length)) ∧
      ((record = none ∧ (pos + read.data.length < ff.stSize.toUInt64.toNat ∨ ff.stSize.toUInt64 = 0) ∧
          ∀ b ∈ read.data, b = 0) ∨
        ∃ first block, doLibzCompression jcr codec ff read.data = some first ∧
          doLzoCompression jcr codec ff first = some block ∧
          record = some (serialUint64 (.ofNat pos) ++ block)) := by
  have next : ff.flags.sparse = true →
      bctx.fileAddr + .ofNat read.data.length = .ofNat (pos + read.data.length) := by
    intro sparse
    rw [atPos sparse, UInt64.ofNat_add]
  rw [processAndSendData] at sent
  split at sent
  case isTrue zeros =>
    obtain ⟨sparse, zeros⟩ := Bool.and_eq_true .. ▸ zeros
    obtain ⟨rfl, rfl⟩ := Prod.mk.inj (Option.some_inj.mp sent)
    refine ⟨fun _ => by rw [if_pos sparse, next sparse], .inl ⟨rfl, ?_, allZeros_zero zeros⟩⟩
    refine (allZeros_size zeros).imp_left fun lt => ?_
    rw [next sparse, UInt64.lt_iff_toNat_lt,
      UInt64.toNat_ofNat_of_lt' (by change _ < 2 ^ 64; omega)] at lt
    exact lt
  case isFalse =>
    simp only [plain, Bool.false_eq_true, if_false, Option.bind_eq_bind, Option.bind_eq_some_iff,
      Option.pure_def, Option.some.injEq, Prod.mk.injEq] at sent
    obtain ⟨first, libz, block, lzo, rfl, rfl⟩ := sent
    refine ⟨fun sparse => by rw [if_pos sparse, next sparse], .inr ⟨first, block, libz, lzo, ?_⟩⟩
    rw [blockAddress]
    by_cases sparse : ff.flags.sparse = true
    · rw [if_pos sparse, atPos sparse]
    · have offsets : ff.flags.offsets = true := by
        simpa [FileOptions.addressed, sparse] using addressed
      rw [if_neg sparse, if_pos offsets, located (by simpa using sparse)]

/-- The loop over the reads against the loop over the records. -/
theorem sendLoop_restoring {jcr : JCR} {codec : Codec} (lossless : codec.Lossless)
    {encrypter : Transformer σ UInt8} (decrypter : Transformer τ UInt8) {pkt ff : FFPkt}
    {stream : DataStream} (selected : selectDataStream pkt = (stream, ff))
    (plain : ff.flags.encrypt = false) (addressed : ff.flags.addressed = true)
    {rsize : ℕ} {reads : List (BufRead rsize)} (content : List UInt8) {bctx bctx' : BCtx σ}
    (atPos : ff.flags.sparse = true → bctx.fileAddr = .ofNat content.length)
    (located : ff.flags.sparse = false → Located content.length reads)
    (small : content.length + (contents reads).length < 2 ^ 63) {records : List (List UInt8)}
    (sent : sendLoop jcr codec encrypter ff bctx reads = some (bctx', records)) {rctx : RCtx τ}
    (restoring : Restoring content rctx) (reaches : Reaches ff.stSize.toUInt64 content rctx) :
    ∃ rctx', records.foldlM (extractData codec decrypter stream (restoreFlags stream ff.flags.offsets))
        rctx = some rctx' ∧
      Restoring (content ++ contents reads) rctx' ∧
      Reaches ff.stSize.toUInt64 (content ++ contents reads) rctx' := by
  induction reads generalizing content bctx records rctx with
  | nil =>
      obtain ⟨-, rfl⟩ := Prod.mk.inj (Option.some_inj.mp sent)
      exact ⟨rctx, rfl, by simpa [contents] using restoring, by simpa [contents] using reaches⟩
  | cons read reads ih =>
      simp only [sendLoop, Option.bind_eq_bind, Option.bind_eq_some_iff, Option.pure_def,
        Option.some.injEq, Prod.mk.injEq, Prod.exists] at sent
      obtain ⟨bctx₁, record, one, bctx₂, rest, loop, rfl, rfl⟩ := sent
      have total : (contents (read :: reads)) = read.data ++ contents reads := List.flatMap_cons
      rw [total, List.length_append] at small
      rw [total, ← List.append_assoc]
      have appended : (content ++ read.data).length = content.length + read.data.length :=
        List.length_append
      obtain ⟨atPos', skipped | ⟨first, block, libz, lzo, rfl⟩⟩ :=
        processAndSendData_cases plain addressed
        atPos (fun offsets => (located offsets).1) (by omega) one
      · obtain ⟨rfl, size, zeros⟩ := skipped
        refine ih (content ++ read.data) (appended ▸ atPos')
          (fun offsets => appended ▸ (located offsets).2) (by omega) loop
          ⟨restoring.agrees.skip zeros, ?_, restoring.atAddr⟩ ?_
        · have := restoring.short
          omega
        · exact .inr (appended ▸ size)
      · obtain ⟨rctx₁, extracted, restoring₁, length⟩ :=
          extractData_block lossless decrypter selected plain
          addressed libz lzo read.some restoring (by omega)
        obtain ⟨rctx', folded, result⟩ := ih (content ++ read.data) (appended ▸ atPos')
          (fun offsets => appended ▸ (located offsets).2) (by omega) loop restoring₁ (.inl length)
        refine ⟨rctx', ?_, result⟩
        rw [Option.toList_some, List.singleton_append, List.foldlM_cons, extracted]
        exact folded

theorem toUInt64_toNat {size : Int64} (nonneg : 0 ≤ size.toInt) :
    size.toUInt64.toNat = size.toInt.toNat := by
  have signed : size.toInt = size.toUInt64.toBitVec.toInt := rfl
  rw [BitVec.toInt_eq_toNat_cond] at signed
  change size.toUInt64.toBitVec.toNat = _
  split at signed <;> omega

theorem toInt_toNat_le (size : Int64) : size.toInt.toNat ≤ size.toUInt64.toNat := by
  rcases le_or_gt 0 size.toInt with nonneg | negative
  · exact (toUInt64_toNat nonneg).ge
  · omega

/-- A file saved with `FO_SPARSE` or `FO_OFFSETS`, compressed or not, comes back with the same
bytes at every position and over its whole length up to `st_size`, and only zeros are left out. -/
theorem sparse_round_trip {jcr : JCR} {codec : Codec} (lossless : codec.Lossless)
    (encrypter : Transformer σ UInt8) (encStart : σ) (decrypter : Transformer τ UInt8) (decStart : τ)
    {pkt ff : FFPkt} {stream : DataStream} (selected : selectDataStream pkt = (stream, ff))
    (plain : ff.flags.encrypt = false) (addressed : ff.flags.addressed = true)
    (reads : List (BufRead (jcr.rsize ff.flags)))
    (located : ff.flags.sparse = false → Located 0 reads)
    (small : (contents reads).length < 2 ^ 63)
    (unchanged : ff.stSize.toInt ≤ (contents reads).length) {records : List (List UInt8)}
    (sent : sendData jcr codec encrypter encStart ff reads = some records) :
    (∃ rctx, restoreData codec decrypter decStart stream ff.flags.offsets records = some rctx ∧
      Agrees rctx.file (contents reads) ∧
      rctx.file.take ff.stSize.toInt.toNat = (contents reads).take ff.stSize.toInt.toNat) ∧
    ∀ (bctx bctx' : BCtx σ) (read : BufRead (jcr.rsize ff.flags)),
      processAndSendData jcr codec encrypter ff bctx read = some (bctx', none) →
        ∀ b ∈ read.data, b = 0 := by
  refine ⟨?_, fun bctx bctx' read skipped => skipped_zero plain skipped⟩
  simp only [sendData, plain, Bool.false_and, Bool.false_eq_true, if_false, finishSending,
    Option.bind_eq_bind, Option.bind_eq_some_iff, Option.pure_def, Option.some.injEq,
    Prod.exists] at sent
  obtain ⟨bctx, sentRecords, loop, final, rfl, rfl⟩ := sent
  have start : Restoring [] (RCtx.start decStart) := ⟨Agrees.refl [], le_refl _, rfl⟩
  have small' : ([] : List UInt8).length + (contents reads).length < 2 ^ 63 := by simpa using small
  obtain ⟨rctx, folded, restoring, reaches⟩ :=
    sendLoop_restoring lossless decrypter selected plain addressed
    [] (fun _ => rfl) located small' loop start (.inl rfl)
  rw [List.nil_append] at restoring reaches
  have flags := restoreFlags_select selected
  refine ⟨rctx, ?_, restoring.agrees, restoring.agrees.take_eq ?_ (by omega)⟩
  · rw [flags] at folded
    rw [List.append_nil, restoreData]
    simp only [folded, flags, plain, Option.bind_eq_bind, Option.bind_some, Bool.false_and,
      Bool.false_eq_true, if_false, Option.pure_def]
  · rcases reaches with whole | before | none
    · omega
    · rcases le_or_gt 0 ff.stSize.toInt with size | negative
      · rw [toUInt64_toNat size] at before
        omega
      · omega
    · have noSize : ff.stSize.toInt.toNat ≤ ff.stSize.toUInt64.toNat := toInt_toNat_le _
      rw [none] at noSize
      exact noSize.trans (Nat.zero_le _)

/-- A codec that stores the bytes as they are. -/
def storedCodec : Codec := ⟨id, some, id, some⟩

theorem storedCodec_lossless : storedCodec.Lossless := ⟨fun _ => rfl, fun _ => rfl⟩

def jcr16 : JCR := ⟨16, false, false, by decide⟩

def sparseFile : FFPkt := ⟨.reg, 18, ⟨true, false, true, false⟩, .lzo1x⟩

/-- Reads of eight bytes: data, a hole, and the end of the file in a buffer with old bytes. -/
def holeReads : List (BufRead (jcr16.rsize sparseFile.flags)) :=
  [⟨[1, 2, 3, 4, 5, 6, 7, 8], [], 0, by decide, rfl⟩, ⟨[0, 0, 0, 0, 0, 0, 0, 0], [], 0, by decide, rfl⟩,
    ⟨[9, 0], [0, 0, 0, 0, 0, 0], 0, by decide, rfl⟩]

def noCipher : Transformer (List UInt8) UInt8 := ofTotal id id id

theorem sparse_round_trip_hole :
    (∃ rctx, restoreData storedCodec noCipher [] .sparseCompressedData false
        [[0, 0, 0, 0, 0, 0, 0, 0, 0x4c, 0x5a, 0x4f, 0x58, 0, 0, 0, 8, 0, 0, 0, 1, 1, 2, 3, 4, 5, 6,
      7, 8],
          [0, 0, 0, 0, 0, 0, 0, 16, 0x4c, 0x5a, 0x4f, 0x58, 0, 0, 0, 2, 0, 0, 0, 1, 9, 0]] = some rctx ∧
      Agrees rctx.file (contents holeReads) ∧
      rctx.file.take 18 = (contents holeReads).take 18) ∧
    ∀ (bctx bctx' : BCtx (List UInt8)) (read : BufRead (jcr16.rsize sparseFile.flags)),
      processAndSendData jcr16 storedCodec noCipher sparseFile bctx read = some (bctx', none) →
        ∀ b ∈ read.data, b = 0 :=
  sparse_round_trip storedCodec_lossless noCipher [] noCipher []
    (show selectDataStream sparseFile = _ from rfl) rfl rfl holeReads
    (fun offsets => (nomatch offsets)) (by decide) (by decide) (by decide +kernel)

end Bacula.Filed
