import Bacula.Filed.Backup
import Bacula.Library.SparseFile

/-! The data records of one file on their way back to the disk: the data streams of
`do_restore`, `extract_data`, `sparse_data`, `decompress_data` and `flush_cipher` of
`filed/restore.c`. Seeks to valid positions and writes succeed. -/
namespace Bacula.Filed
open ByteCodec BlockStream

/-- The flags that `do_restore` finds from the stream of a record and its offsets bit. -/
def restoreFlags (stream : DataStream) (bitOffsets : Bool) : FileOptions where
  sparse := stream = .sparseData || stream = .sparseCompressedData || stream = .sparseGzipData
  offsets := bitOffsets
  compress := stream = .gzipData || stream = .sparseGzipData || stream = .encryptedFileGzipData ||
    stream = .compressedData || stream = .sparseCompressedData || stream = .encryptedFileCompressedData
  encrypt := stream = .encryptedFileData || stream = .encryptedFileGzipData ||
    stream = .encryptedFileCompressedData

/-- The restore context while one file is extracted: the open file and its position, the running
address, the decryption context with the decrypted bytes that are kept for a whole packet, and
the length of that packet with its header, 0 while it is not known. -/
structure RCtx (σ : Type) where
  file : List UInt8
  pos : ℕ
  fileAddr : UInt64
  cipher : σ
  buf : List UInt8
  packetLen : Int32
  deriving DecidableEq, Repr

variable {σ : Type}

def RCtx.start (cipher : σ) : RCtx σ := ⟨[], 0, 0, cipher, [], 0⟩

/-- `bwrite` at the position of the file. -/
def storeData (rctx : RCtx σ) (data : List UInt8) : RCtx σ :=
  { rctx with file := SparseFile.write rctx.file rctx.pos data, pos := rctx.pos + data.length }

/-- `blseek` takes a signed offset. -/
def RCtx.seek (rctx : RCtx σ) (addr : UInt64) : Option (RCtx σ) :=
  if addr.toNat < 2 ^ 63 then some { rctx with fileAddr := addr, pos := addr.toNat } else none

/-- Seek if the block does not follow the last one; the address is taken off the data. -/
def sparseData (rctx : RCtx σ) (data : List UInt8) : Option (RCtx σ × List UInt8) :=
  match unserialUint64.run data with
  | .error _ => none
  | .ok (faddr, data) =>
      if rctx.fileAddr ≠ faddr then (rctx.seek faddr).map fun rctx => (rctx, data)
      else some (rctx, data)

/-- The streams whose data have a header before the compressed bytes. -/
def DataStream.hasHeader (stream : DataStream) : Bool :=
  stream = .compressedData || stream = .sparseCompressedData || stream = .encryptedFileCompressedData

def compHeader : Decoder (UInt32 × UInt32 × UInt16 × UInt16) := do
  let magic ← unserialUint32
  let len ← unserialUint32
  let level ← unserialUint16
  let version ← unserialUint16
  return (magic, len, level, version)

def decompressData (codec : Codec) (stream : DataStream) (data : List UInt8) : Option (List UInt8) :=
  if stream.hasHeader then
    match compHeader.run data with
    | .error _ => none
    | .ok ((magic, len, _, version), rest) =>
        if version ≠ COMP_HEAD_VERSION then none
        else if len.toNat + 12 ≠ data.length then none
        else if magic = COMPRESS_LZO1X then codec.lzo1xDecompressSafe rest
        else none
  else codec.uncompress data

/-- The filters of a block, in the reverse order of the backup. -/
def filterBlock (codec : Codec) (stream : DataStream) (flags : FileOptions) (rctx : RCtx σ)
    (wbuf : List UInt8) : Option (RCtx σ × List UInt8) := do
  let (rctx, wbuf) ← if flags.addressed then sparseData rctx wbuf else some (rctx, wbuf)
  let wbuf ← if flags.compress then decompressData codec stream wbuf else some wbuf
  return (rctx, wbuf)

def RCtx.advance (rctx : RCtx σ) (wsize : ℕ) : RCtx σ :=
  { rctx with fileAddr := rctx.fileAddr + .ofNat wsize }

def CRYPTO_LEN_SIZE : ℕ := 4

/-- Decrypted bytes go behind those that are kept. -/
def RCtx.decrypted (rctx : RCtx σ) (cipher : σ) (bytes : List UInt8) : RCtx σ :=
  { rctx with cipher := cipher, buf := rctx.buf ++ bytes }

def unserCryptoPacketLen (rctx : RCtx σ) : RCtx σ :=
  if rctx.packetLen = 0 ∧ CRYPTO_LEN_SIZE ≤ rctx.buf.length then
    match unserialUint32.run rctx.buf with
    | .ok (len, _) => { rctx with packetLen := len.toInt32 + .ofNat CRYPTO_LEN_SIZE }
    | .error _ => rctx
  else rctx

/-- Whether the packet at the front of the buffer is not known to be complete. -/
def RCtx.incomplete (rctx : RCtx σ) : Bool :=
  rctx.packetLen = 0 || (rctx.buf.length : ℤ) < rctx.packetLen.toInt

/-- The packet at the front of the buffer, without its length. -/
def RCtx.packet (rctx : RCtx σ) : List UInt8 :=
  (rctx.buf.take rctx.packetLen.toInt.toNat).drop CRYPTO_LEN_SIZE

/-- The packet has been written: the remaining bytes move to the front. -/
def RCtx.shift (rctx : RCtx σ) : RCtx σ :=
  { rctx with buf := rctx.buf.drop rctx.packetLen.toInt.toNat, packetLen := 0 }

/-- One record; `none` is the error return. -/
def extractData (codec : Codec) (decrypter : Transformer σ UInt8) (stream : DataStream)
    (flags : FileOptions) (rctx : RCtx σ) (buf : List UInt8) : Option (RCtx σ) :=
  if flags.encrypt then do
    let (cipher, bytes) ← decrypter.update rctx.cipher buf
    let rctx := rctx.decrypted cipher bytes
    -- no full block of encrypted data available
    if bytes.length = 0 then return rctx
    let rctx := unserCryptoPacketLen rctx
    if rctx.incomplete then return rctx
    let (rctx, wbuf) ← filterBlock codec stream flags rctx rctx.packet
    return ((storeData rctx wbuf).advance wbuf.length).shift
  else do
    let (rctx, wbuf) ← filterBlock codec stream flags rctx buf
    return (storeData rctx wbuf).advance wbuf.length

/-- One pass over the rest of the cipher stream, with whether there was anything to write. A
packet that is not complete would be written from memory behind the decrypted bytes; here the
pass fails. -/
def flushPass (codec : Codec) (decrypter : Transformer σ UInt8) (stream : DataStream)
    (flags : FileOptions) (rctx : RCtx σ) : Option (RCtx σ × Bool) :=
  let (cipher, _, bytes) := decrypter.finalize rctx.cipher
  let rctx := rctx.decrypted cipher bytes
  if rctx.buf.length = 0 then some (rctx, false)
  else
    let rctx := unserCryptoPacketLen rctx
    if rctx.incomplete then none
    else do
      let (rctx, wbuf) ← filterBlock codec stream flags rctx rctx.packet
      return ((storeData rctx wbuf).shift, true)

/-- At most two passes; what is left after them is dropped. -/
def flushCipher (codec : Codec) (decrypter : Transformer σ UInt8) (stream : DataStream)
    (flags : FileOptions) (rctx : RCtx σ) : Option (RCtx σ) := do
  let (rctx, wrote) ← flushPass codec decrypter stream flags rctx
  if wrote && rctx.buf.length > 0 then
    let (rctx, _) ← flushPass codec decrypter stream flags rctx
    return { rctx with buf := [], packetLen := 0 }
  else return rctx

/-- The data records of a file in order, and what `deallocate_cipher` does at the end if a
decryption context was made. -/
def restoreData (codec : Codec) (decrypter : Transformer σ UInt8) (start : σ) (stream : DataStream)
    (bitOffsets : Bool) (records : List (List UInt8)) : Option (RCtx σ) := do
  let flags := restoreFlags stream bitOffsets
  let rctx ← records.foldlM (extractData codec decrypter stream flags) (RCtx.start start)
  if flags.encrypt && !records.isEmpty then flushCipher codec decrypter stream flags rctx
  else return rctx

end Bacula.Filed
