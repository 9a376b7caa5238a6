import Bacula.Filed.SparseRoundTrip
import Bacula.Library.Backlog

/-! An encrypted file comes back exactly when the reader keeps pace: the writer sends a record
when the cipher puts something out, the reader takes at most one packet out of what a record
decrypts to, and at most two packets at the end. -/
namespace Bacula.Filed
open ByteCodec BlockStream SparseFile Backlog

variable {σ τ : Type}

/-- A cipher with blocks of `block` bytes and PKCS padding: what the encrypter makes of an input
the decrypter turns back. Of `n` bytes of input `encEmitted n` and `decEmitted n` bytes are out. -/
structure CipherPair (encrypter : Transformer σ UInt8) (encStart : σ) (decrypter : Transformer τ UInt8)
    (decStart : τ) (block : ℕ) (encEmitted decEmitted : ℕ → ℕ) (encryption : List UInt8 → List UInt8) :
    Prop where
  encrypts : ∀ input, Streams encrypter encStart encEmitted input (encryption input)
  decrypts : ∀ input, Streams decrypter decStart decEmitted (encryption input) input
  length : ∀ input, (encryption input).length = (input.length / block + 1) * block
  encHeld : ∀ n, encEmitted n ≤ n
  positive : 0 < block

/-- What the writer gives to the cipher, or the file system if there is no cipher. -/
def compressBlock (jcr : JCR) (codec : Codec) (ff : FFPkt) (data : List UInt8) : Option (List UInt8) :=
  (doLibzCompression jcr codec ff data).bind (doLzoCompression jcr codec ff)

/-- A packet of the cipher stream. -/
def frame (block : List UInt8) : List UInt8 := serialUint32 (.ofNat block.length) ++ block

@[simp] theorem frame_length (block : List UInt8) : (frame block).length = 4 + block.length := by
  rw [frame, List.length_append, serialUint32_length]

/-- The lengths of the records for packets of the given sizes, `n` bytes of input having gone
before: what the cipher has put out with each packet, if anything, and the rest at the end. -/
def recordSizes (encEmitted : ℕ → ℕ) (total : ℕ) : ℕ → List ℕ → List ℕ
  | n, [] => [total - encEmitted n]
  | n, size :: sizes =>
      if encEmitted (n + size) = encEmitted n then recordSizes encEmitted total (n + size) sizes
      else (encEmitted (n + size) - encEmitted n) :: recordSizes encEmitted total (n + size) sizes

/-- How many of the packets are complete in the first `m` bytes. -/
def complete : List ℕ → ℕ → ℕ
  | [], _ => 0
  | size :: sizes, m => if size ≤ m then complete sizes (m - size) + 1 else 0

/-- The packets complete after each record that decrypts to something, `c` bytes of the cipher
stream having gone before. -/
def arrivals (decEmitted : ℕ → ℕ) (sizes : List ℕ) : ℕ → List ℕ → List ℕ
  | _, [] => []
  | c, record :: records =>
      if decEmitted (c + record) = decEmitted c then arrivals decEmitted sizes (c + record) records
      else complete sizes (decEmitted (c + record)) :: arrivals decEmitted sizes (c + record) records

theorem complete_append {taken rest : List ℕ} {m : ℕ} (enough : taken.sum ≤ m) :
    complete (taken ++ rest) m = taken.length + complete rest (m - taken.sum) := by
  induction taken generalizing m with
  | nil => simp
  | cons size taken ih =>
      rw [List.sum_cons] at enough
      rw [List.cons_append, complete, if_pos (by omega), ih (by omega), List.sum_cons, List.length_cons,
        Nat.sub_sub]
      omega

/-! ## The writer -/

theorem select_encrypt {pkt ff : FFPkt} {stream : DataStream}
    (selected : selectDataStream pkt = (stream, ff)) (encrypt : ff.flags.encrypt = true) :
    ff.flags.sparse = false := by
  obtain ⟨type, stSize, ⟨sparse, offsets, compress, crypt⟩, algo⟩ := pkt
  obtain ⟨rfl, rfl⟩ := Prod.mk.inj selected.symm
  cases sparse <;> cases compress <;> cases crypt <;> cases algo <;> first | rfl | cases encrypt

variable {encrypter : Transformer σ UInt8} {encStart cipher : σ} {encEmitted : ℕ → ℕ}
  {plain encrypted : List UInt8} {n : ℕ}

/-- One packet: the record is what the cipher puts out between the two positions. -/
theorem encryptBlock_run (streams : Streams encrypter encStart encEmitted plain encrypted)
    (reached : Reached encrypter encStart plain n cipher) {block : List UInt8}
    (next : frame block <+: plain.drop n) :
    ∃ cipher', Reached encrypter encStart plain (n + (frame block).length) cipher' ∧
      encryptBlock encrypter cipher block = some (cipher',
        if encEmitted (n + (frame block).length) = encEmitted n then none
        else some (slice encrypted (encEmitted n) (encEmitted (n + (frame block).length)))) := by
  have header : serialUint32 (.ofNat block.length) <+: plain.drop n :=
    (List.prefix_append _ _).trans next
  obtain ⟨cipher₁, first, reached₁⟩ := streams.update reached header
  rw [serialUint32_length] at first reached₁
  have body : block <+: plain.drop (n + 4) := by
    obtain ⟨tail, split⟩ := next
    have dropped := congrArg (List.drop 4) split
    rw [List.drop_drop, frame, List.append_assoc,
      List.drop_left' (serialUint32_length _)] at dropped
    exact ⟨tail, dropped⟩
  obtain ⟨cipher₂, second, reached₂⟩ := streams.update reached₁ body
  have size : n + (frame block).length = n + 4 + block.length := by
    rw [frame_length]
    omega
  have both := slice_append_slice encrypted (streams.mono (Nat.le_add_right n 4))
    (streams.mono (Nat.le_add_right (n + 4) block.length))
  have inside := streams.emitted_le reached₂.1
  have mono := streams.mono (show n ≤ n + 4 + block.length by omega)
  refine ⟨cipher₂, size ▸ reached₂, ?_⟩
  rw [encryptBlock, first, Option.bind_eq_bind, Option.bind_some]
  simp only [second, Option.bind_some, ← List.length_append, both, slice_length inside,
    Option.pure_def, size]
  split <;> rename_i h
  · rw [if_pos (by omega)]
  · rw [if_neg (by omega)]

theorem processAndSendData_encrypt {rsize : ℕ} {jcr : JCR} {codec : Codec} {ff : FFPkt}
    (noSparse : ff.flags.sparse = false) (encrypt : ff.flags.encrypt = true) {bctx : BCtx σ}
    {read : BufRead rsize} {block : List UInt8}
    (compressed : compressBlock jcr codec ff read.data = some block) :
    processAndSendData jcr codec encrypter ff bctx read =
      (encryptBlock encrypter bctx.cipher block).map fun r => (⟨bctx.fileAddr, r.1⟩, r.2) := by
  rw [compressBlock, Option.bind_eq_some_iff] at compressed
  obtain ⟨first, libz, lzo⟩ := compressed
  simp only [processAndSendData, noSparse, encrypt, Bool.false_and, Bool.false_eq_true, if_false,
    if_true, libz, lzo, Option.bind_eq_bind, Option.bind_some]
  cases encryptBlock encrypter bctx.cipher block <;> rfl

/-- The reads, packet by packet. -/
theorem sendLoop_encrypt (streams : Streams encrypter encStart encEmitted plain encrypted)
    {rsize : ℕ} {jcr : JCR} {codec : Codec} {ff : FFPkt} (noSparse : ff.flags.sparse = false)
    (encrypt : ff.flags.encrypt = true) {reads : List (BufRead rsize)} {blocks : List (List UInt8)}
    (compressed : reads.mapM (fun read => compressBlock jcr codec ff read.data) = some blocks)
    {bctx : BCtx σ} (reached : Reached encrypter encStart plain n bctx.cipher)
    (left : plain.drop n = blocks.flatMap frame) (total : ℕ) :
    ∃ bctx' records, sendLoop jcr codec encrypter ff bctx reads = some (bctx', records) ∧
      Reached encrypter encStart plain plain.length bctx'.cipher ∧
      records.flatten = slice encrypted (encEmitted n) (encEmitted plain.length) ∧
      records.map List.length ++ [total - encEmitted plain.length] =
        recordSizes encEmitted total n (blocks.map fun block => (frame block).length) := by
  induction reads generalizing blocks bctx n with
  | nil =>
      obtain rfl : [] = blocks := Option.some_inj.mp compressed
      have ended : plain.length = n := by
        have len := congrArg List.length left
        have := reached.1
        rw [List.length_drop, List.flatMap_nil, List.length_nil] at len
        omega
      rw [ended]
      refine ⟨bctx, [], rfl, reached, ?_, rfl⟩
      exact (List.drop_eq_nil_of_le (List.length_take_le _ _)).symm
  | cons read reads ih =>
      simp only [List.mapM_cons, Option.bind_eq_bind, Option.bind_eq_some_iff, Option.pure_def,
        Option.some.injEq] at compressed
      obtain ⟨block, here, rest, later, rfl⟩ := compressed
      rw [List.flatMap_cons] at left
      obtain ⟨cipher', reached', one⟩ := encryptBlock_run streams reached ⟨_, left.symm⟩
      have leftNext : plain.drop (n + (frame block).length) = rest.flatMap frame := by
        rw [← List.drop_drop, left, List.drop_left]
      have reachedNext : Reached encrypter encStart plain (n + (frame block).length)
          (⟨bctx.fileAddr, cipher'⟩ : BCtx σ).cipher := reached'
      obtain ⟨bctx', records, loop, final, flat, sizes⟩ := ih later reachedNext leftNext
      rw [List.map_cons, recordSizes, sendLoop, processAndSendData_encrypt noSparse encrypt here, one,
        Option.map_some, Option.bind_eq_bind, Option.bind_some]
      simp only [loop, Option.pure_def]
      have grows := streams.mono (Nat.le_add_right n (frame block).length)
      have growsOn := streams.mono reached'.1
      refine ⟨bctx', _, rfl, final, ?_, ?_⟩
      · split
        case isTrue same =>
          rw [Option.toList_none, List.nil_append, flat, same]
        case isFalse =>
          rw [Option.toList_some, List.singleton_append, List.flatten_cons, flat,
            slice_append_slice _ grows growsOn]
      · split
        case isTrue =>
          rw [Option.toList_none, List.nil_append, sizes]
        case isFalse =>
          rw [Option.toList_some, List.singleton_append, List.map_cons, List.cons_append, sizes,
            slice_length (streams.emitted_le reached'.1)]

/-- All the records of an encrypted file. -/
theorem sendData_encrypt (streams : Streams encrypter encStart encEmitted plain encrypted)
    (more : encEmitted plain.length < encrypted.length) {jcr : JCR} {codec : Codec} {ff : FFPkt}
    (noSparse : ff.flags.sparse = false) (noOffsets : ff.flags.offsets = false)
    (encrypt : ff.flags.encrypt = true) {reads : List (BufRead (jcr.rsize ff.flags))}
    {blocks : List (List UInt8)}
    (compressed : reads.mapM (fun read => compressBlock jcr codec ff read.data) = some blocks)
    (packets : plain = blocks.flatMap frame) :
    ∃ records, sendData jcr codec encrypter encStart ff reads = some records ∧
      records.flatten = encrypted ∧ records.map List.length =
        recordSizes encEmitted encrypted.length 0 (blocks.map fun block => (frame block).length) := by
  obtain ⟨bctx, records, loop, final, flat, sizes⟩ :=
    sendLoop_encrypt streams noSparse encrypt compressed
    (show Reached encrypter encStart plain 0 (⟨0, encStart⟩ : BCtx σ).cipher from reached_start _ _ _)
    (by rw [List.drop_zero, packets]) encrypted.length
  obtain ⟨_, finalized⟩ := streams.finalize final
  have rest : (encrypted.drop (encEmitted plain.length)).length =
      encrypted.length - encEmitted plain.length :=
    List.length_drop
  refine ⟨records ++ [encrypted.drop (encEmitted plain.length)], ?_, ?_, ?_⟩
  · simp only [sendData, FileOptions.addressed, noSparse, noOffsets, encrypt, Bool.or_false,
      Bool.and_false, Bool.false_eq_true, if_false, loop, Option.bind_eq_bind, Option.bind_some,
      finishSending, if_true, finalized, rest, Option.pure_def]
    rw [if_pos (by omega)]
  · rw [List.flatten_append, flat, List.flatten_singleton,
      slice_append_drop _ (streams.mono (Nat.zero_le _)), streams.emitted_zero, List.drop_zero]
  · rw [List.map_append, List.map_singleton, rest, sizes]

/-! ## The reader -/

/-- A block of the writer with the data that the filters of the reader make of it. -/
structure Packet (codec : Codec) (stream : DataStream) (flags : FileOptions) where
  block : List UInt8
  data : List UInt8
  undone : (if flags.compress then decompressData codec stream block else some block) = some data
  small : block.length + 4 < 2 ^ 31

/-- The value of `packet_len` for a block. -/
def packetSize (block : List UInt8) : Int32 :=
  (UInt32.ofNat block.length).toInt32 + .ofNat CRYPTO_LEN_SIZE

variable {codec : Codec} {stream : DataStream} {flags : FileOptions}

theorem packetSize_toInt {block : List UInt8} (small : block.length + 4 < 2 ^ 31) :
    (packetSize block).toInt = 4 + block.length := by
  have length : (UInt32.ofNat block.length).toInt32.toInt = block.length := by
    change (UInt32.ofNat block.length).toBitVec.toInt = block.length
    rw [BitVec.toInt_eq_toNat_cond]
    change (if 2 * (UInt32.ofNat block.length).toNat < 2 ^ 32 then _ else _) = _
    have nat : (UInt32.ofNat block.length).toBitVec.toNat = block.length :=
      UInt32.toNat_ofNat_of_lt' (by change _ < 2 ^ 32; omega)
    rw [if_pos (by change 2 * (UInt32.ofNat block.length).toBitVec.toNat < _; omega), nat]
  have four : (Int32.ofNat CRYPTO_LEN_SIZE).toInt = 4 := by decide
  rw [packetSize, Int32.toInt_add, length, four]
  exact (Int.bmod_eq_of_le (by norm_num; omega) (by norm_num; omega)).trans (add_comm _ _)

theorem packetSize_ne_zero {block : List UInt8} (small : block.length + 4 < 2 ^ 31) :
    packetSize block ≠ 0 := by
  intro zero
  have size := packetSize_toInt small
  rw [zero] at size
  change (0 : ℤ) = _ at size
  omega

theorem filterBlock_packet (noAddress : flags.addressed = false) (p : Packet codec stream flags)
    (rctx : RCtx τ) : filterBlock codec stream flags rctx p.block = some (rctx, p.data) := by
  have undone := p.undone
  simp only [filterBlock, noAddress, Bool.false_eq_true, if_false, Option.bind_eq_bind,
    Option.bind_some]
  split at undone
  case isTrue compress => simp only [compress, if_true, undone, Option.bind_some, Option.pure_def]
  case isFalse compress =>
    simp only [compress, Bool.false_eq_true, if_false, Option.some_inj.mp undone, Option.pure_def]

/-- The length of the packet at the front is known once four bytes of it are there. -/
theorem unser_front (p : Packet codec stream flags) {rctx : RCtx τ} {unread tail : List UInt8}
    (buf : rctx.buf ++ unread = frame p.block ++ tail) (enough : 4 ≤ rctx.buf.length)
    (known : rctx.packetLen = 0 ∨ rctx.packetLen = packetSize p.block) :
    unserCryptoPacketLen rctx = { rctx with packetLen := packetSize p.block } := by
  rcases known with zero | known
  · have front : rctx.buf = serialUint32 (.ofNat p.block.length) ++ rctx.buf.drop 4 := by
      have first := congrArg (List.take 4) buf
      rw [List.take_append_of_le_length enough, frame, List.append_assoc,
        List.take_left' (serialUint32_length _)] at first
      rw [← first, List.take_append_drop]
    rw [unserCryptoPacketLen, if_pos ⟨zero, enough⟩, front, unserialUint32_serial]
    simp only [← front, packetSize]
  · rw [unserCryptoPacketLen, if_neg (fun h => packetSize_ne_zero p.small (known ▸ h.1)), ← known]

/-- A packet that is complete is taken as it is. -/
theorem packet_front (p : Packet codec stream flags) {rctx : RCtx τ} {tail : List UInt8}
    (buf : rctx.buf = frame p.block ++ tail) (known : rctx.packetLen = packetSize p.block) :
    rctx.incomplete = false ∧ rctx.packet = p.block ∧ rctx.shift.buf = tail := by
  have size := packetSize_toInt p.small
  have natSize : rctx.packetLen.toInt.toNat = (frame p.block).length := by
    rw [known, size, frame_length]
    omega
  refine ⟨?_, ?_, ?_⟩
  · have length := congrArg List.length buf
    rw [List.length_append, frame_length] at length
    simp only [RCtx.incomplete, known, packetSize_ne_zero p.small, decide_false, Bool.false_or, size,
      decide_eq_false_iff_not]
    omega
  · rw [RCtx.packet, natSize, buf, List.take_left, frame]
    exact List.drop_left' (serialUint32_length _)
  · rw [RCtx.shift, natSize, buf, List.drop_left]

/-- A packet that is not complete is left in the buffer. -/
theorem incomplete_front (p : Packet codec stream flags) {rctx : RCtx τ} {unread tail : List UInt8}
    (buf : rctx.buf ++ unread = frame p.block ++ tail)
    (short : rctx.buf.length < (frame p.block).length)
    (known : rctx.packetLen = 0 ∨ rctx.packetLen = packetSize p.block) :
    ∃ len, unserCryptoPacketLen rctx = { rctx with packetLen := len } ∧
      (len = 0 ∨ len = packetSize p.block) ∧ RCtx.incomplete { rctx with packetLen := len } = true := by
  have size := packetSize_toInt p.small
  have behind : RCtx.incomplete { rctx with packetLen := packetSize p.block } = true := by
    rw [frame_length] at short
    simp only [RCtx.incomplete, size, Bool.or_eq_true, decide_eq_true_eq]
    omega
  rcases Nat.lt_or_ge rctx.buf.length 4 with few | enough
  · refine ⟨rctx.packetLen, ?_, known, ?_⟩
    · rw [unserCryptoPacketLen, if_neg (fun h => absurd h.2 (by rw [CRYPTO_LEN_SIZE]; omega))]
    · rcases known with zero | known
      · rw [zero]
        rfl
      · rw [known]
        exact behind
  · exact ⟨packetSize p.block, unser_front p buf enough known, .inr rfl, behind⟩

/-- The cipher stream of a list of packets. -/
def packetStream (packets : List (Packet codec stream flags)) : List UInt8 :=
  packets.flatMap fun p => frame p.block

def packetSizes (packets : List (Packet codec stream flags)) : List ℕ :=
  packets.map fun p => (frame p.block).length

/-- The file that packets make up. -/
def packetData (packets : List (Packet codec stream flags)) : List UInt8 :=
  packets.flatMap Packet.data

theorem packetStream_length (packets : List (Packet codec stream flags)) :
    (packetStream packets).length = (packetSizes packets).sum := by
  rw [packetStream, packetSizes, List.length_flatMap]

theorem packetStream_cons (p : Packet codec stream flags) (packets : List (Packet codec stream flags)) :
    packetStream (p :: packets) = frame p.block ++ packetStream packets := List.flatMap_cons

theorem packetData_append (first second : List (Packet codec stream flags)) :
    packetData (first ++ second) = packetData first ++ packetData second := List.flatMap_append

variable {decrypter : Transformer τ UInt8} {decStart : τ} {decEmitted : ℕ → ℕ}
  {packets : List (Packet codec stream flags)}

/-- The reader has been given the first `c` bytes of the cipher stream and has taken the packets
`taken`, not those of `left`. -/
structure Reading (decrypter : Transformer τ UInt8) (decStart : τ) (decEmitted : ℕ → ℕ)
    (encrypted : List UInt8) (taken left : List (Packet codec stream flags)) (c : ℕ) (rctx : RCtx τ) :
    Prop where
  reached : Reached decrypter decStart encrypted c rctx.cipher
  kept : rctx.buf ++ (packetStream (taken ++ left)).drop (decEmitted c) = packetStream left
  known : rctx.packetLen = 0 ∨ ∃ p rest, left = p :: rest ∧ rctx.packetLen = packetSize p.block
  file : rctx.file = packetData taken
  atEnd : rctx.pos = rctx.file.length

/-- A packet at the front of the buffer is written to the end of the file. -/
theorem store_packet {rctx : RCtx τ} {taken : List (Packet codec stream flags)}
    (file : rctx.file = packetData taken) (atEnd : rctx.pos = rctx.file.length)
    (p : Packet codec stream flags) :
    (storeData rctx p.data).file = packetData (taken ++ [p]) ∧
      (storeData rctx p.data).pos = (storeData rctx p.data).file.length := by
  have written : (storeData rctx p.data).file = rctx.file ++ p.data := by
    rw [storeData, atEnd, SparseFile.write_end]
  refine ⟨?_, ?_⟩
  · rw [written, packetData_append, file, packetData, packetData, List.flatMap_singleton]
  · rw [written, List.length_append, ← atEnd]
    rfl

namespace Reading

variable {taken left : List (Packet codec stream flags)} {c : ℕ} {rctx : RCtx τ}

/-- As much has been decrypted as was taken and is kept. -/
theorem decrypted (reading : Reading decrypter decStart decEmitted encrypted taken left c rctx)
    (streams : Streams decrypter decStart decEmitted encrypted (packetStream (taken ++ left))) :
    decEmitted c = (packetSizes taken).sum + rctx.buf.length := by
  have lengths := congrArg List.length reading.kept
  have inside := streams.emitted_le reading.reached.1
  have split : (packetStream (taken ++ left)).length =
      (packetStream taken).length + (packetStream left).length := by
    rw [packetStream, List.flatMap_append, List.length_append, packetStream, packetStream]
  rw [List.length_append, List.length_drop] at lengths
  rw [← packetStream_length]
  omega

/-- One record: nothing is decrypted, or at most one packet is taken. -/
theorem record (reading : Reading decrypter decStart decEmitted encrypted taken left c rctx)
    (streams : Streams decrypter decStart decEmitted encrypted (packetStream (taken ++ left)))
    (encrypt : flags.encrypt = true) (noAddress : flags.addressed = false) {record : List UInt8}
    (next : record <+: encrypted.drop c) :
    ∃ rctx' more left', left = more ++ left' ∧
      extractData codec decrypter stream flags rctx record = some rctx' ∧
      Reading decrypter decStart decEmitted encrypted (taken ++ more) left' (c + record.length) rctx' ∧
      (taken ++ more).length =
        if decEmitted (c + record.length) = decEmitted c then taken.length
        else min (taken.length + 1)
          (complete (packetSizes (taken ++ left)) (decEmitted (c + record.length))) := by
  obtain ⟨cipher, updated, reached'⟩ := streams.update reading.reached next
  have sum := reading.decrypted streams
  generalize bytes :
      slice (packetStream (taken ++ left)) (decEmitted c) (decEmitted (c + record.length)) =
    out at updated
  have outLength : out.length = decEmitted (c + record.length) - decEmitted c := by
    rw [← bytes, slice_length (streams.emitted_le reached'.1)]
  have grows := streams.mono (Nat.le_add_right c record.length)
  have kept : (rctx.decrypted cipher out).buf ++
      (packetStream (taken ++ left)).drop (decEmitted (c + record.length)) = packetStream left := by
    rw [← reading.kept, ← slice_append_drop _ grows, bytes, RCtx.decrypted, List.append_assoc]
  by_cases none : decEmitted (c + record.length) = decEmitted c
  · refine ⟨rctx.decrypted cipher out, [], left, rfl, ?_, ?_, ?_⟩
    · rw [extractData, encrypt, if_pos rfl, updated, Option.bind_eq_bind, Option.bind_some]
      simp only [outLength, none, Nat.sub_self, if_true, Option.pure_def]
    · exact ⟨reached', by rw [List.append_nil]; exact kept, reading.known, by
        rw [List.append_nil]; exact reading.file, reading.atEnd⟩
    · rw [if_pos none, List.append_nil]
  have some : out.length ≠ 0 := by omega
  have bufLength : (rctx.decrypted cipher out).buf.length = rctx.buf.length + out.length := by
    rw [RCtx.decrypted, List.length_append]
  have due : complete (packetSizes (taken ++ left)) (decEmitted (c + record.length)) =
      taken.length + complete (packetSizes left) (rctx.decrypted cipher out).buf.length := by
    rw [packetSizes, List.map_append, complete_append (by change (packetSizes taken).sum ≤ _; omega),
      List.length_map]
    congr 2
    change _ - (packetSizes taken).sum = _
    omega
  have atRecord : extractData codec decrypter stream flags rctx record =
      (let rctx := unserCryptoPacketLen (rctx.decrypted cipher out)
      if rctx.incomplete then .some rctx
      else (filterBlock codec stream flags rctx rctx.packet).map fun r =>
        ((storeData r.1 r.2).advance r.2.length).shift) := by
    rw [extractData, encrypt, if_pos rfl, updated, Option.bind_eq_bind, Option.bind_some]
    simp only [some, if_false]
    split
    · rfl
    · cases filterBlock codec stream flags _ _ <;> rfl
  rw [if_neg none, due, atRecord]
  cases left with
  | nil =>
      have empty := congrArg List.length kept
      change _ = 0 at empty
      rw [List.length_append] at empty
      omega
  | cons p rest =>
      have front : (rctx.decrypted cipher out).buf ++
          (packetStream (taken ++ p :: rest)).drop (decEmitted (c + record.length)) =
          frame p.block ++ packetStream rest := kept
      have known : (rctx.decrypted cipher out).packetLen = 0 ∨
          (rctx.decrypted cipher out).packetLen = packetSize p.block := by
        refine reading.known.imp_right ?_
        rintro ⟨q, others, split, len⟩
        rw [(List.cons.inj split).1]
        exact len
      rw [packetSizes, List.map_cons, complete]
      rcases Nat.lt_or_ge (rctx.decrypted cipher out).buf.length (frame p.block).length
        with short | enough
      · obtain ⟨len, unser, ok, incomplete⟩ := incomplete_front p front short known
        refine ⟨{ rctx.decrypted cipher out with packetLen := len }, [], p :: rest, rfl, ?_,
          ⟨reached', ?_, ?_, ?_, reading.atEnd⟩, ?_⟩
        · simp only [unser, incomplete, if_true]
        · rw [List.append_nil]
          exact kept
        · exact ok.imp_right fun len => ⟨p, rest, rfl, len⟩
        · rw [List.append_nil]
          exact reading.file
        · rw [if_neg (by omega), List.append_nil]
          omega
      · have four : 4 ≤ (rctx.decrypted cipher out).buf.length := by
          rw [frame_length] at enough
          omega
        obtain ⟨tail, buf⟩ : ∃ tail, (rctx.decrypted cipher out).buf = frame p.block ++ tail :=
          by
          obtain ⟨tail, split⟩ := List.prefix_of_prefix_length_le ⟨_, rfl⟩ ⟨_, front⟩ enough
          exact ⟨tail, split.symm⟩
        have unser := unser_front p front four known
        obtain ⟨whole, packet, shifted⟩ := packet_front p
          (show RCtx.buf { rctx.decrypted cipher out with packetLen := packetSize p.block } =
            _ from buf) rfl
        obtain ⟨file, atEnd⟩ := store_packet reading.file reading.atEnd p
        refine ⟨((storeData { rctx.decrypted cipher out with packetLen := packetSize p.block }
          p.data).advance p.data.length).shift, [p], rest, rfl, ?_,
          ⟨reached', ?_, .inl rfl, file, atEnd⟩, ?_⟩
        · simp only [unser, whole, Bool.false_eq_true, if_false, packet, filterBlock_packet noAddress p,
            Option.map_some]
        · rw [List.append_assoc]
          have cancel := front
          rw [buf, List.append_assoc] at cancel
          exact (congrArg (· ++ _) shifted).trans (List.append_cancel_left cancel)
        · rw [if_pos enough, List.length_append, List.length_singleton]
          omega

/-- All the records: each one that decrypts to something is a round in which the reader takes a
packet if there is one. -/
theorem records (reading : Reading decrypter decStart decEmitted encrypted taken left c rctx)
    (streams : Streams decrypter decStart decEmitted encrypted (packetStream (taken ++ left)))
    (encrypt : flags.encrypt = true) (noAddress : flags.addressed = false) {records : List (List UInt8)}
    (flat : records.flatten = encrypted.drop c) :
    ∃ rctx' more left', left = more ++ left' ∧
      records.foldlM (extractData codec decrypter stream flags) rctx = some rctx' ∧
      Reading decrypter decStart decEmitted encrypted (taken ++ more) left' encrypted.length rctx' ∧
      (taken ++ more).length = served taken.length
        (arrivals decEmitted (packetSizes (taken ++ left)) c (records.map List.length)) := by
  induction records generalizing taken left c rctx with
  | nil =>
      have ended : encrypted.length = c := by
        have length := congrArg List.length flat
        have := reading.reached.1
        rw [List.flatten_nil, List.length_nil, List.length_drop] at length
        omega
      refine ⟨rctx, [], left, rfl, rfl, ?_, ?_⟩
      · rw [List.append_nil, ended]
        exact reading
      · rw [List.append_nil]
        rfl
  | cons record records ih =>
      rw [List.flatten_cons] at flat
      obtain ⟨rctx₁, first, left₁, split, one, reading₁, count⟩ :=
        reading.record streams encrypt noAddress ⟨_, flat⟩
      have same : taken ++ left = (taken ++ first) ++ left₁ := by rw [split, List.append_assoc]
      have flatNext : records.flatten = encrypted.drop (c + record.length) := by
        rw [← List.drop_drop, ← flat, List.drop_left]
      obtain ⟨rctx', more, left', splitNext, folded, reading', served⟩ :=
        ih reading₁ (same ▸ streams) flatNext
      refine ⟨rctx', first ++ more, left', by rw [split, splitNext, List.append_assoc], ?_, ?_, ?_⟩
      · rw [List.foldlM_cons, one]
        exact folded
      · rw [← List.append_assoc]
        exact reading'
      · rw [← List.append_assoc, served, count, ← same, List.map_cons, arrivals]
        split
        · rfl
        · rw [served_cons]

end Reading

/-- One pass of the flush with a whole packet at the front. -/
theorem flushPass_packet (noAddress : flags.addressed = false) (p : Packet codec stream flags)
    {rctx : RCtx τ} {cipher : τ} {ok : Bool} {bytes tail : List UInt8}
    (final : decrypter.finalize rctx.cipher = (cipher, ok, bytes))
    (buf : rctx.buf ++ bytes = frame p.block ++ tail)
    (known : rctx.packetLen = 0 ∨ rctx.packetLen = packetSize p.block) :
    ∃ rctx', flushPass codec decrypter stream flags rctx = some (rctx', true) ∧ rctx'.buf = tail ∧
      rctx'.packetLen = 0 ∧ rctx'.file = (storeData rctx p.data).file ∧
      rctx'.pos = (storeData rctx p.data).pos := by
  have enough : 4 ≤ (rctx.decrypted cipher bytes).buf.length := by
    rw [RCtx.decrypted, buf, List.length_append, frame_length]
    omega
  have front : (rctx.decrypted cipher bytes).buf ++ [] = frame p.block ++ tail := by
    rw [List.append_nil]
    exact buf
  have unser := unser_front p front enough known
  obtain ⟨whole, packet, shifted⟩ := packet_front p
    (show RCtx.buf { rctx.decrypted cipher bytes with packetLen := packetSize p.block } =
      _ from buf) rfl
  refine ⟨(storeData { rctx.decrypted cipher bytes with packetLen := packetSize p.block } p.data).shift,
    ?_, shifted, rfl, rfl, rfl⟩
  have some : (rctx.decrypted cipher bytes).buf.length ≠ 0 := by omega
  simp only [flushPass, final, some, if_false, unser, whole, Bool.false_eq_true, packet,
    filterBlock_packet noAddress p, Option.bind_eq_bind, Option.bind_some, Option.pure_def]

/-- The flush takes at most two of the packets that are left. -/
theorem Reading.flush {taken left : List (Packet codec stream flags)} {rctx : RCtx τ}
    (reading : Reading decrypter decStart decEmitted encrypted taken left encrypted.length rctx)
    (streams : Streams decrypter decStart decEmitted encrypted (packetStream (taken ++ left)))
    (noAddress : flags.addressed = false) :
    ∃ rctx', flushCipher codec decrypter stream flags rctx = some rctx' ∧
      rctx'.file = packetData (taken ++ left.take 2) := by
  obtain ⟨cipher, final⟩ := streams.finalize reading.reached
  have kept := reading.kept
  cases left with
  | nil =>
      have empty :
        (rctx.decrypted cipher
          ((packetStream (taken ++ [])).drop (decEmitted encrypted.length))).buf.length
          = 0 := congrArg List.length kept
      refine ⟨rctx.decrypted cipher
        ((packetStream (taken ++ [])).drop (decEmitted encrypted.length)), ?_, ?_⟩
      · simp only [flushCipher, flushPass, final, empty, if_true, Option.bind_eq_bind, Option.bind_some,
          Bool.false_and, Bool.false_eq_true, if_false, Option.pure_def]
      · rw [List.take_nil, List.append_nil]
        exact reading.file
  | cons p rest =>
      have known : rctx.packetLen = 0 ∨ rctx.packetLen = packetSize p.block := by
        refine reading.known.imp_right ?_
        rintro ⟨q, others, split, len⟩
        rw [(List.cons.inj split).1]
        exact len
      obtain ⟨rctx₁, first, buf₁, len₁, file₁, pos₁⟩ := flushPass_packet noAddress p final kept known
      obtain ⟨file, atEnd⟩ := store_packet reading.file reading.atEnd p
      rw [← file₁] at file
      rw [← file₁, ← pos₁] at atEnd
      cases rest with
      | nil =>
          refine ⟨rctx₁, ?_, file⟩
          have done : rctx₁.buf.length = 0 := congrArg List.length buf₁
          simp only [flushCipher, first, Option.bind_eq_bind, Option.bind_some, done, gt_iff_lt,
            lt_irrefl, decide_false, Bool.and_false, Bool.false_eq_true, if_false, Option.pure_def]
      | cons q rest =>
          -- the second call of finalize may put anything behind the packets
          generalize again : decrypter.finalize rctx₁.cipher = r
          obtain ⟨cipher₂, ok, junk⟩ := r
          change rctx₁.buf = packetStream (q :: rest) at buf₁
          have buf₂ : rctx₁.buf ++ junk = frame q.block ++ (packetStream rest ++ junk) := by
            rw [buf₁, packetStream_cons, List.append_assoc]
          obtain ⟨rctx₂, second, -, -, file₂, -⟩ := flushPass_packet noAddress q again buf₂ (.inl len₁)
          have more : rctx₁.buf.length > 0 := by
            rw [buf₁, packetStream_cons, List.length_append, frame_length]
            omega
          refine ⟨{ rctx₂ with buf := [], packetLen := 0 }, ?_, ?_⟩
          · simp only [flushCipher, first, second, Option.bind_eq_bind, Option.bind_some, more,
              decide_true, Bool.and_true, if_true, Option.pure_def]
          · change rctx₂.file = _
            rw [file₂, (store_packet file atEnd q).1, List.append_assoc]
            rfl

/-! ## The round trip -/

/-- The condition on the sizes of the packets: from the start and from each record that decrypts to
something, the packets complete by then, one for each later such record and two for the end are
all the packets there are. -/
def Drained (block : ℕ) (encEmitted decEmitted : ℕ → ℕ) (sizes : List ℕ) : Prop :=
  KeepsPace (sizes.length - 2) (0 :: arrivals decEmitted sizes 0
    (recordSizes encEmitted ((sizes.sum / block + 1) * block) 0 sizes))

theorem JCR.rsize_le (jcr : JCR) (flags : FileOptions) : jcr.rsize flags ≤ jcr.bufSize := by
  rw [JCR.rsize]
  split
  case isFalse => exact le_refl _
  case isTrue =>
    dsimp only
    split <;> split <;> omega

theorem compressBlock_length {jcr : JCR} {ff : FFPkt} {data block : List UInt8}
    (compressed : compressBlock jcr codec ff data = some block) (fits : data.length ≤ jcr.bufSize) :
    block.length + 4 < 2 ^ 31 := by
  have bound := jcr.maxCompressLen_lt ff.flags
  have := jcr.small
  rw [compressBlock, Option.bind_eq_some_iff] at compressed
  obtain ⟨first, libz, lzo⟩ := compressed
  have firstFits : first.length + 16 < 2 ^ 31 := by
    rw [doLibzCompression] at libz
    split at libz
    · dsimp only at libz
      split at libz
      · cases Option.some_inj.mp libz
        omega
      · cases libz
    · cases Option.some_inj.mp libz
      omega
  rw [doLzoCompression] at lzo
  split at lzo
  · dsimp only at lzo
    split at lzo
    · cases Option.some_inj.mp lzo
      rw [List.length_append, compStreamHeader_length]
      omega
    · cases lzo
  · cases Option.some_inj.mp lzo
    omega

/-- The compressed reads as packets. -/
theorem exists_packets {jcr : JCR} (lossless : codec.Lossless) {pkt ff : FFPkt}
    (selected : selectDataStream pkt = (stream, ff)) {reads : List (BufRead (jcr.rsize ff.flags))}
    {blocks : List (List UInt8)}
    (compressed : reads.mapM (fun read => compressBlock jcr codec ff read.data) = some blocks) :
    ∃ packets : List (Packet codec stream ff.flags),
      packets.map Packet.block = blocks ∧ packets.map Packet.data = reads.map BufRead.data := by
  induction reads generalizing blocks with
  | nil =>
      obtain rfl : [] = blocks := Option.some_inj.mp compressed
      exact ⟨[], rfl, rfl⟩
  | cons read reads ih =>
      simp only [List.mapM_cons, Option.bind_eq_bind, Option.bind_eq_some_iff, Option.pure_def,
        Option.some.injEq] at compressed
      obtain ⟨block, here, rest, later, rfl⟩ := compressed
      obtain ⟨packets, blocksEq, dataEq⟩ := ih later
      have fits : read.data.length ≤ jcr.bufSize := by
        have := read.fits
        have := jcr.rsize_le ff.flags
        omega
      obtain ⟨first, libz, lzo⟩ := Option.bind_eq_some_iff.mp here
      refine ⟨⟨block, read.data, decompress_compress lossless selected libz lzo,
        compressBlock_length here fits⟩ :: packets, ?_, ?_⟩
      · rw [List.map_cons, blocksEq]
      · rw [List.map_cons, List.map_cons, dataEq]

theorem packetData_take {packets : List (Packet codec stream flags)}
    (nonempty : ∀ p ∈ packets, p.data ≠ []) (k : ℕ) :
    packetData (packets.take k) = packetData packets ↔ packets.length ≤ k := by
  constructor
  · intro same
    by_contra short
    have split := congrArg packetData (List.take_append_drop k packets)
    rw [packetData_append, same, List.append_right_eq_self, packetData,
      List.flatMap_eq_nil_iff] at split
    have some : packets.drop k ≠ [] := fun none => short (List.drop_eq_nil_iff.mp none)
    obtain ⟨p, inside⟩ := List.exists_mem_of_ne_nil _ some
    exact nonempty p (List.mem_of_mem_drop inside) (split p inside)
  · intro all
    rw [List.take_of_length_le all]

/-- An encrypted file, compressed or not, comes back from the records of its backup exactly when
the packets drain. -/
theorem cipher_round_trip_iff {jcr : JCR} (lossless : codec.Lossless) {block : ℕ}
    {encryption : List UInt8 → List UInt8}
    (pair : CipherPair encrypter encStart decrypter decStart block encEmitted decEmitted encryption)
    {pkt ff : FFPkt} (selected : selectDataStream pkt = (stream, ff))
    (encrypt : ff.flags.encrypt = true) (noOffsets : ff.flags.offsets = false)
    (reads : List (BufRead (jcr.rsize ff.flags))) {blocks : List (List UInt8)}
    (compressed : reads.mapM (fun read => compressBlock jcr codec ff read.data) = some blocks) :
    ∃ records, sendData jcr codec encrypter encStart ff reads = some records ∧
      ((restoreData codec decrypter decStart stream ff.flags.offsets records).map RCtx.file =
          some (contents reads) ↔
        Drained block encEmitted decEmitted (blocks.map fun block => (frame block).length)) := by
  obtain ⟨packets, rfl, dataEq⟩ := exists_packets lossless selected compressed
  have noSparse := select_encrypt selected encrypt
  have stream_eq : (packets.map Packet.block).flatMap frame = packetStream packets := by
    rw [List.flatMap_map, packetStream]
  have sizes_eq : ((packets.map Packet.block).map fun block => (frame block).length) =
      packetSizes packets := by
    rw [List.map_map, packetSizes]
    rfl
  have contents_eq : contents reads = packetData packets := by
    rw [contents, packetData, List.flatMap_def, List.flatMap_def, dataEq]
  have encrypts := pair.encrypts (packetStream packets)
  have decrypts := pair.decrypts (packetStream packets)
  have total : (encryption (packetStream packets)).length =
      ((packetSizes packets).sum / block + 1) * block := by
    rw [pair.length, packetStream_length]
  have padded : (packetStream packets).length < (encryption (packetStream packets)).length := by
    rw [pair.length]
    exact Nat.lt_mul_of_div_lt (Nat.lt_succ_self _) pair.positive
  obtain ⟨records, sent, flat, lengths⟩ := sendData_encrypt encrypts
    ((pair.encHeld _).trans_lt padded) noSparse noOffsets encrypt compressed stream_eq.symm
  refine ⟨records, sent, ?_⟩
  have noAddress : ff.flags.addressed = false := by
    rw [FileOptions.addressed, noSparse, noOffsets]
    rfl
  have start : Reading decrypter decStart decEmitted (encryption (packetStream packets)) [] packets 0
      (RCtx.start decStart) := by
    refine ⟨reached_start _ _ _, ?_, .inl rfl, rfl, rfl⟩
    rw [decrypts.emitted_zero, List.drop_zero]
    rfl
  obtain ⟨rctx, taken, left, split, folded, reading, count⟩ :=
    start.records decrypts encrypt noAddress (flat.trans List.drop_zero.symm)
  rw [List.nil_append] at reading count
  obtain ⟨rctx', flushed, file⟩ := reading.flush (split ▸ decrypts) noAddress
  have some : records.isEmpty = false := by
    cases records with
    | nil =>
        have := congrArg List.length flat
        rw [List.flatten_nil, List.length_nil] at this
        omega
    | cons => rfl
  have restored : restoreData codec decrypter decStart stream ff.flags.offsets records =
      .some rctx' := by
    simp only [restoreData, restoreFlags_select selected, folded, Option.bind_eq_bind, Option.bind_some,
      encrypt, some, Bool.not_false, Bool.and_true, if_true, flushed, Option.pure_def]
  have front : taken ++ left.take 2 = packets.take (taken.length + 2) := by
    rw [split, List.take_length_add_append]
  have nonempty : ∀ p ∈ packets, p.data ≠ [] := by
    intro p inside
    obtain ⟨read, -, data⟩ := List.mem_map.mp (dataEq ▸ List.mem_map_of_mem inside)
    exact data ▸ read.some
  rw [restored, Option.map_some, Option.some_inj, contents_eq, file, front,
    packetData_take nonempty, sizes_eq, Drained, ← le_served_iff, ← total, count, lengths, sizes_eq,
    List.nil_append, List.length_nil, packetSizes, List.length_map, Nat.sub_le_iff_le_add]

/-! A cipher with blocks of 16 bytes that changes no byte, padded as by PKCS. -/

def padding (n : ℕ) : ℕ := 16 - n % 16

def pad (input : List UInt8) : List UInt8 :=
  input ++ List.replicate (padding input.length) (.ofNat (padding input.length))

def unpad (padded : List UInt8) : List UInt8 :=
  padded.take (padded.length - (padded.getLast?.getD 0).toNat)

theorem padding_bounds (n : ℕ) : 0 < padding n ∧ padding n ≤ 16 := by
  rw [padding]
  omega

theorem pad_length (input : List UInt8) : (pad input).length = (input.length / 16 + 1) * 16 := by
  rw [pad, List.length_append, List.length_replicate, padding]
  omega

theorem unpad_pad (input : List UInt8) : unpad (pad input) = input := by
  obtain ⟨positive, small⟩ := padding_bounds input.length
  have last : ((pad input).getLast?.getD 0).toNat = padding input.length := by
    rw [pad, List.getLast?_append, List.getLast?_replicate, if_neg (by omega)]
    exact UInt8.toNat_ofNat_of_lt' (by change _ < 256; omega)
  rw [unpad, last, pad, List.length_append, List.length_replicate, Nat.add_sub_cancel, List.take_left]

def plainEncrypter : Transformer (List UInt8) UInt8 := ofTotal id pad fun n => n / 16 * 16
def plainDecrypter : Transformer (List UInt8) UInt8 := ofTotal id unpad fun n => (n - 1) / 16 * 16

theorem plainPair : CipherPair plainEncrypter [] plainDecrypter [] 16 (fun n => n / 16 * 16)
    (fun n => (n - 1) / 16 * 16) pad where
  encrypts input := by
    refine ofTotal_streams ?_ ?_ rfl ?_
    · rintro seen ⟨rest, rfl⟩
      rw [id, pad, List.append_assoc, List.take_append_of_le_length (by omega)]
    · intro n m le
      exact Nat.mul_le_mul_right 16 (Nat.div_le_div_right le)
    · rw [pad_length]
      omega
  decrypts input := by
    have length := pad_length input
    have streams :
        Streams plainDecrypter [] (fun n => (n - 1) / 16 * 16) (pad input) (unpad (pad input)) := by
      refine ofTotal_streams ?_ ?_ rfl ?_
      · rintro seen ⟨rest, split⟩
        have lengths := congrArg List.length split
        rw [List.length_append, length] at lengths
        have front : seen.take ((seen.length - 1) / 16 * 16) =
            (seen ++ rest).take ((seen.length - 1) / 16 * 16) :=
          (List.take_append_of_le_length (by omega)).symm
        rw [unpad_pad, id, front, split, pad, List.take_append_of_le_length (by omega)]
      · intro n m le
        exact Nat.mul_le_mul_right 16 (Nat.div_le_div_right (Nat.sub_le_sub_right le 1))
      · rw [unpad_pad, length]
        omega
    rwa [unpad_pad] at streams
  length := pad_length
  encHeld n := by omega
  positive := by decide

def encryptedFile : FFPkt := ⟨.fifo, 0, ⟨false, false, false, true⟩, .gzip⟩

/-- A pipe that delivers one byte at a time. -/
def byteReads : List (BufRead (jcr16.rsize encryptedFile.flags)) :=
  [⟨[1], List.replicate 15 0, 0, by decide, rfl⟩, ⟨[2], List.replicate 15 0, 0, by decide, rfl⟩,
    ⟨[3], List.replicate 15 0, 0, by decide, rfl⟩, ⟨[4], List.replicate 15 0, 0, by decide, rfl⟩]

theorem cipher_round_trip_bytes :
    ∃ records, sendData jcr16 storedCodec plainEncrypter [] encryptedFile byteReads = some records ∧
      ((restoreData storedCodec plainDecrypter [] .encryptedFileData false records).map RCtx.file =
          some (contents byteReads) ↔
        Drained 16 (fun n => n / 16 * 16) (fun n => (n - 1) / 16 * 16) [5, 5, 5, 5]) :=
  cipher_round_trip_iff storedCodec_lossless plainPair
    (show selectDataStream encryptedFile = _ from rfl) rfl rfl
    byteReads (show _ = some [[1], [2], [3], [4]] from rfl)

/-- Twenty bytes of packets make two records. Only the second one decrypts to something, so one
packet is taken from it and two at the end: the fourth byte is lost. -/
theorem fourth_byte_lost :
    CipherPair plainEncrypter [] plainDecrypter [] 16 (fun n => n / 16 * 16)
      (fun n => (n - 1) / 16 * 16) pad ∧ storedCodec.Lossless ∧
      ∃ records, sendData jcr16 storedCodec plainEncrypter [] encryptedFile byteReads = some records ∧
        (restoreData storedCodec plainDecrypter [] .encryptedFileData false records).map RCtx.file =
          some [1, 2, 3] ∧
        contents byteReads = [1, 2, 3, 4] :=
  ⟨plainPair, storedCodec_lossless,
    [[0, 0, 0, 1, 1, 0, 0, 0, 1, 2, 0, 0, 0, 1, 3, 0],
    [0, 0, 1, 4, 12, 12, 12, 12, 12, 12, 12, 12, 12, 12, 12,
    12]], by decide +kernel, by decide +kernel, rfl⟩

end Bacula.Filed
