import Bacula.Library.BlockStream
import Bacula.Lib.Serial

/-! The data of one file on its way to the Storage daemon: `select_data_stream` of
`findlib/attribs.c`, `send_data` and `process_and_send_data` of `filed/backup.c`. A record is the
body of one message. Reads and sends succeed, the build has both compression libraries, the file
is saved in portable format and deduplication on the client is off. -/
namespace Bacula.Filed
open ByteCodec BlockStream

inductive CompressAlgo where
  | gzip
  | lzo1x
  deriving DecidableEq, Repr

def COMPRESS_LZO1X : UInt32 := 0x4c5a4f58
def COMP_HEAD_VERSION : UInt16 := 1

/-- Of the file types the data path asks only for the two kinds of devices. -/
inductive FileType where
  | reg
  | rege
  | raw
  | fifo
  | other
  deriving DecidableEq, Repr

/-- The `FO_` options that concern the data. -/
structure FileOptions where
  sparse : Bool
  offsets : Bool
  compress : Bool
  encrypt : Bool
  deriving DecidableEq, Repr

structure FFPkt where
  type : FileType
  stSize : Int64
  flags : FileOptions
  compressAlgo : CompressAlgo
  deriving DecidableEq, Repr

/-- The data streams of a portable backup. -/
inductive DataStream where
  | fileData
  | gzipData
  | compressedData
  | sparseData
  | sparseGzipData
  | sparseCompressedData
  | encryptedFileData
  | encryptedFileGzipData
  | encryptedFileCompressedData
  deriving DecidableEq, Repr

/-- The compression libraries. -/
structure Codec where
  deflate : List UInt8 → List UInt8
  uncompress : List UInt8 → Option (List UInt8)
  lzo1xCompress : List UInt8 → List UInt8
  lzo1xDecompressSafe : List UInt8 → Option (List UInt8)

/-- Each library undoes its own compression. -/
structure Codec.Lossless (codec : Codec) : Prop where
  gzip : ∀ data, codec.uncompress (codec.deflate data) = some data
  lzo1x : ∀ data, codec.lzo1xDecompressSafe (codec.lzo1xCompress data) = some data

/-- Sizes that the connection to the Storage daemon determines. -/
structure JCR where
  bufSize : ℕ
  sdDedup : Bool
  /-- `HAVE_FREEBSD_OS`: sizes of reads are multiples of 512. -/
  freebsd : Bool
  /-- The sizes computed from `buf_size` are `int32_t` values. -/
  small : bufSize + bufSize / 16 + 95 < 2 ^ 31

/-- `sizeof(comp_stream_header)` is 12. -/
def JCR.compressBufSize (jcr : JCR) : ℕ :=
  max (jcr.bufSize + jcr.bufSize / 16 + 67 + 12) (jcr.bufSize + (jcr.bufSize + 999) / 1000 + 30)

def OFFSET_FADDR_SIZE : ℕ := 8

/-- Whether each block of the file carries its address. -/
def FileOptions.addressed (flags : FileOptions) : Bool := flags.sparse || flags.offsets

def selectDataStream (ff : FFPkt) : DataStream × FFPkt :=
  -- no sparse option for encrypted data
  let flags := if ff.flags.encrypt then { ff.flags with sparse := false } else ff.flags
  let stream := if flags.sparse then DataStream.sparseData else .fileData
  -- encryption is only supported for file data
  let flags := if stream ≠ .fileData then { flags with encrypt := false } else flags
  let stream := if flags.compress then
    match ff.compressAlgo with
    | .gzip => if stream = .sparseData then DataStream.sparseGzipData else .gzipData
    | .lzo1x => if stream = .sparseData then DataStream.sparseCompressedData else .compressedData
    else stream
  let stream := if flags.encrypt then
    match stream with
    | .fileData => DataStream.encryptedFileData
    | .gzipData => .encryptedFileGzipData
    | .compressedData => .encryptedFileCompressedData
    | other => other
    else stream
  (stream, { ff with flags := flags })

/-- The size of a read as `send_data` sets it. -/
def JCR.rsize (jcr : JCR) (flags : FileOptions) : ℕ :=
  if flags.addressed then
    let size := if flags.sparse || jcr.sdDedup then jcr.bufSize - OFFSET_FADDR_SIZE else jcr.bufSize
    if jcr.freebsd then size / 512 * 512 else size
  else jcr.bufSize

/-- What `bread` has delivered: the data, the bytes behind them that an earlier use has left in
the read buffer, and the offset that a plugin reports with the data. -/
structure BufRead (rsize : ℕ) where
  data : List UInt8
  behind : List UInt8
  offset : Int64
  some : data ≠ []
  fits : data.length + behind.length = rsize
  deriving DecidableEq, Repr

/-- The whole read buffer. -/
def BufRead.rbuf {rsize : ℕ} (read : BufRead rsize) : List UInt8 := read.data ++ read.behind

/-- What a list of reads has delivered. -/
def contents {rsize : ℕ} (reads : List (BufRead rsize)) : List UInt8 := reads.flatMap (·.data)

/-- The eight bytes of a word at a time, then the rest byte by byte. -/
def isBufZero (buf : List UInt8) : Bool :=
  let len64 := buf.length / 8
  buf.head? = some 0 &&
    ((List.range len64).all fun i => number ((buf.drop (8 * i)).take 8) = 0) &&
    (buf.drop (8 * len64)).all (· = 0)

/-- The condition under which a block is left out of the stream. -/
def allZeros {rsize : ℕ} (ff : FFPkt) (fileAddr : UInt64) (read : BufRead rsize) : Bool :=
  ((read.data.length = rsize && fileAddr + .ofNat read.data.length < ff.stSize.toUInt64) ||
    ((ff.type = .raw || ff.type = .fifo) && ff.stSize.toUInt64 = 0)) && isBufZero read.rbuf

def maxCompressLen (jcr : JCR) (flags : FileOptions) : ℕ :=
  if flags.addressed then jcr.compressBufSize - OFFSET_FADDR_SIZE else jcr.compressBufSize

def doLibzCompression (jcr : JCR) (codec : Codec) (ff : FFPkt) (data : List UInt8) :
    Option (List UInt8) :=
  if ff.flags.compress && ff.compressAlgo = .gzip then
    let out := codec.deflate data
    if out.length ≤ maxCompressLen jcr ff.flags then some out else none
  else some data

/-- The header of LZO data, with compression level 0. -/
def compStreamHeader (compressLen : ℕ) : List UInt8 :=
  serialUint32 COMPRESS_LZO1X ++ serialUint32 (.ofNat compressLen) ++ serialUint16 0 ++
    serialUint16 COMP_HEAD_VERSION

def doLzoCompression (jcr : JCR) (codec : Codec) (ff : FFPkt) (data : List UInt8) :
    Option (List UInt8) :=
  if ff.flags.compress && ff.compressAlgo = .lzo1x then
    let out := codec.lzo1xCompress data
    if out.length ≤ maxCompressLen jcr ff.flags then some (compStreamHeader out.length ++ out) else none
  else some data

/-- The context of the data of one file; `cipher` is the encryption context. -/
structure BCtx (σ : Type) where
  fileAddr : UInt64
  cipher : σ

/-- What stands before the data of a block. -/
def blockAddress {rsize : ℕ} (ff : FFPkt) (fileAddr : UInt64) (read : BufRead rsize) : List UInt8 :=
  if ff.flags.sparse then serialUint64 fileAddr
  else if ff.flags.offsets then serialUint64 read.offset.toUInt64
  else []

variable {σ : Type}

/-- The length of the block and the block go through the cipher in two calls; nothing is sent
while the cipher has no full block. -/
def encryptBlock (encrypter : Transformer σ UInt8) (cipher : σ) (input : List UInt8) :
    Option (σ × Option (List UInt8)) := do
  let (cipher, initial) ← encrypter.update cipher (serialUint32 (.ofNat input.length))
  let (cipher, encrypted) ← encrypter.update cipher input
  if initial.length + encrypted.length = 0 then return (cipher, none)
  return (cipher, some (initial ++ encrypted))

/-- One call with what has been read, and the record it sends. There is no address before
encrypted data, as `crypto_allocate_ctx` refuses it. -/
def processAndSendData {rsize : ℕ} (jcr : JCR) (codec : Codec) (encrypter : Transformer σ UInt8)
    (ff : FFPkt) (bctx : BCtx σ) (read : BufRead rsize) : Option (BCtx σ × Option (List UInt8)) :=
  let fileAddr := bctx.fileAddr
  let next := if ff.flags.sparse then fileAddr + .ofNat read.data.length else fileAddr
  if ff.flags.sparse && allZeros ff fileAddr read then some (⟨next, bctx.cipher⟩, none)
  else do
    let block ← doLibzCompression jcr codec ff read.data
    let block ← doLzoCompression jcr codec ff block
    if ff.flags.encrypt then
      let (cipher, record) ← encryptBlock encrypter bctx.cipher block
      return (⟨next, cipher⟩, record)
    else return (⟨next, bctx.cipher⟩, some (blockAddress ff fileAddr read ++ block))

/-- The loop over the reads, up to the end of the file. -/
def sendLoop {rsize : ℕ} (jcr : JCR) (codec : Codec) (encrypter : Transformer σ UInt8) (ff : FFPkt) :
    BCtx σ → List (BufRead rsize) → Option (BCtx σ × List (List UInt8))
  | bctx, [] => some (bctx, [])
  | bctx, read :: reads => do
      let (bctx, record) ← processAndSendData jcr codec encrypter ff bctx read
      let (bctx, records) ← sendLoop jcr codec encrypter ff bctx reads
      return (bctx, record.toList ++ records)

/-- What `crypto_cipher_finalize` pushes out is a record of its own. -/
def finishSending (encrypter : Transformer σ UInt8) (ff : FFPkt) (cipher : σ) :
    Option (List (List UInt8)) :=
  if ff.flags.encrypt then
    match encrypter.finalize cipher with
    | (_, false, _) => none
    | (_, true, encrypted) => some (if encrypted.length > 0 then [encrypted] else [])
  else some []

/-- The data records of a file, with a new encryption context `start`. -/
def sendData (jcr : JCR) (codec : Codec) (encrypter : Transformer σ UInt8) (start : σ) (ff : FFPkt)
    (reads : List (BufRead (jcr.rsize ff.flags))) : Option (List (List UInt8)) :=
  -- `crypto_allocate_ctx`
  if ff.flags.encrypt && ff.flags.addressed then none
  else do
    let (bctx, records) ← sendLoop jcr codec encrypter ff ⟨0, start⟩ reads
    let final ← finishSending encrypter ff bctx.cipher
    return records ++ final

end Bacula.Filed
