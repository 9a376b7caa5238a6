import Bacula.Lib.Attr
import Bacula.Lib.Serial

/-! The attributes and digests that the Storage daemon sends and `update_attribute` of
`dird/catreq.c` puts into the catalog. The catalog is the list of its records; it does not fail. -/
namespace Bacula.Catreq
open Scan ByteCodec

inductive CryptoDigest where
  | none
  | md5
  | sha1
  | sha256
  | sha512
  deriving DecidableEq, Repr

/-- `crypto_digest_stream_type`. -/
def cryptoDigestStreamType (stream : Int32) : CryptoDigest :=
  if stream = 3 then .md5
  else if stream = 10 then .sha1
  else if stream = 17 then .sha256
  else if stream = 18 then .sha512
  else .none

/-- The sizes `CRYPTO_DIGEST_MD5_SIZE` and so on. -/
def CryptoDigest.size : CryptoDigest → ℕ
  | none => 0
  | md5 => 16
  | sha1 => 20
  | sha256 => 32
  | sha512 => 64

def CryptoDigest.streamToAscii : CryptoDigest → List UInt8
  | none => []
  | md5 => ascii "MD5 digest"
  | sha1 => ascii "SHA1 digest"
  | sha256 => ascii "SHA256 digest"
  | sha512 => ascii "SHA512 digest"

def CRYPTO_DIGEST_MAX_SIZE : ℕ := 64

/-- What the Storage daemon sends in front of a record. -/
structure SdHeader where
  volSessionId : UInt32
  volSessionTime : UInt32
  fileIndex : Int32
  stream : Int32
  reclen : UInt32
  deriving DecidableEq, Repr

/-- `dir_update_file_attributes` of the Storage daemon. -/
def dirUpdateFileAttributes (jobId : ℕ) (volSessionId volSessionTime : UInt32)
    (fileIndex stream : Int32) (data : List UInt8) : List UInt8 :=
  ascii "UpdCat JobId=" ++ (decimal jobId ++ (ascii " FileAttributes " ++ (serialUint32 volSessionId ++
    (serialUint32 volSessionTime ++ (serialInt32 fileIndex ++ (serialInt32 stream ++
      (serialUint32 (UInt32.ofNat data.length) ++ data)))))))

structure AttrDbr where
  fname : List UInt8
  link : Option (List UInt8)
  attr : List UInt8
  fileIndex : Int32
  stream : Int32
  fileType : Int32
  deltaSeq : Int32
  jobId : ℕ
  digest : Option (List UInt8)
  digestType : CryptoDigest
  deriving DecidableEq

structure RobjectDbr where
  objectName : List UInt8
  object : List UInt8
  pluginName : List UInt8
  objectLen : Int32
  objectFullLen : Int32
  objectIndex : Int32
  objectCompression : Int32
  fileIndex : Int32
  stream : Int32
  fileType : Int32
  jobId : ℕ
  deriving DecidableEq

/-- What a job keeps of its attributes, and what it put into the catalog. -/
structure Jcr where
  jobId : ℕ
  wjcr : Option ℕ
  ar : AttrDbr
  fileId : ℕ
  cachedAttribute : Bool
  created : List AttrDbr
  objects : List RobjectDbr
  digests : List (ℕ × List UInt8 × CryptoDigest)
  fatal : List (List UInt8)
  deriving DecidableEq

/-- `db_create_attributes_record`. -/
def createAttributesRecord (jcr : Jcr) : Jcr :=
  { jcr with created := jcr.created ++ [jcr.ar], fileId := jcr.created.length + 1 }

/-- The cached attribute goes into the catalog. -/
def flushCached (jcr : Jcr) : Jcr :=
  if jcr.cachedAttribute then { createAttributesRecord jcr with cachedAttribute := false } else jcr

/-- `flush_file_records` at the end of a job. -/
def flushFileRecords (jcr : Jcr) : Jcr := flushCached jcr

def unserSdHeader : Decoder SdHeader := do
  let volSessionId ← unserialUint32
  let volSessionTime ← unserialUint32
  let fileIndex ← unserialInt32
  let stream ← unserialInt32
  let reclen ← unserialUint32
  return ⟨volSessionId, volSessionTime, fileIndex, stream, reclen⟩

/-- The header and the raw record. -/
def scanMessage (msg : List UInt8) : Except Fault (SdHeader × List UInt8) :=
  let p := Scan.skipSpaces (skipNonspaces msg)                -- UpdCat
  let p := Scan.skipSpaces (skipNonspaces p)                  -- Job=nnn
  let p := skipNonspaces p                               -- FileAttributes
  unserSdHeader.run p.tail

/-- The branch of the file attributes. -/
def cacheAttributes (jcr : Jcr) (header : SdHeader) (p : List UInt8) : Jcr :=
  let jcr := flushCached jcr
  let p := Scan.skipSpaces (skipNonspaces p)                  -- skip FileIndex
  let fileType := strToInt32 p
  let fname := Scan.skipSpaces (skipNonspaces p)              -- skip FileType
  let attr := afterNul fname
  -- older FDs don't have a delta sequence, so check if it is there
  let delta := afterNul (afterNul (afterNul attr))
  let deltaSeq := if fileType = Int32.ofNat FT.REG.code ∧ delta ≠ [] then strToInt32 delta else 0
  { jcr with
    ar := { fname := cstr fname, link := none, attr := cstr attr, stream := header.stream,
            fileType, deltaSeq,
            fileIndex :=
              if fileType = Int32.ofNat FT.DELETED.code then -header.fileIndex else header.fileIndex,
            jobId := jcr.wjcr.getD jcr.jobId, digest := none, digestType := .none },
    cachedAttribute := true }

/-- The branch of the restore objects. -/
def createRestoreObject (jcr : Jcr) (header : SdHeader) (p : List UInt8) : Jcr :=
  let fileType := Scan.skipSpaces (skipNonspaces p)
  let objectIndex := Scan.skipSpaces (skipNonspaces fileType)
  let objectLen := Scan.skipSpaces (skipNonspaces objectIndex)
  let objectFullLen := Scan.skipSpaces (skipNonspaces objectLen)
  let objectCompression := Scan.skipSpaces (skipNonspaces objectFullLen)
  let pluginName := Scan.skipSpaces (skipNonspaces objectCompression)
  let objectName := afterNul pluginName
  let ro : RobjectDbr :=
    { objectName := cstr objectName,
      object := (afterNul objectName).take (strToInt32 objectLen).toInt.toNat,
      pluginName := cstr pluginName, objectLen := strToInt32 objectLen,
      objectFullLen := strToInt32 objectFullLen,
      objectIndex := strToInt32 objectIndex, objectCompression := strToInt32 objectCompression,
      fileIndex := header.fileIndex, stream := header.stream, fileType := strToInt32 fileType,
      jobId := jcr.wjcr.getD jcr.jobId }
  { jcr with objects := jcr.objects ++ [ro] }

/-- The branch of the digests. -/
def updateDigest (jcr : Jcr) (header : SdHeader) (digest : List UInt8) : Jcr :=
  let type := cryptoDigestStreamType header.stream
  let fileIndex := if jcr.ar.fileIndex < 0 then -header.fileIndex else header.fileIndex
  let digestbuf := binToBase64 (base64Size CRYPTO_DIGEST_MAX_SIZE) digest
  if jcr.ar.fileIndex ≠ fileIndex then
    { jcr with fatal := jcr.fatal ++
        [type.streamToAscii ++ ascii " not same FileIndex=" ++ signed fileIndex ++
          ascii " as attributes FI=" ++
            signed jcr.ar.fileIndex ++ [10],
          ascii "Error detected between digest[" ++ signed fileIndex ++ ascii "]=\"" ++ digestbuf ++
            ascii "\" and name[" ++ signed jcr.ar.fileIndex ++ ascii "]=\"" ++ jcr.ar.fname ++
              ascii "\"\n"] }
  else if jcr.cachedAttribute then
    { createAttributesRecord { jcr with
      ar := { jcr.ar with digest := some digestbuf, digestType := type } } with
      cachedAttribute := false }
  else { jcr with digests := jcr.digests ++ [(jcr.fileId, digestbuf, type)] }

def updateAttribute (jcr : Jcr) (msg : List UInt8) : Except Fault Jcr := do
  let (header, p) ← scanMessage msg
  if header.stream = STREAM_UNIX_ATTRIBUTES ∨ header.stream = STREAM_UNIX_ATTRIBUTES_EX then
    return cacheAttributes jcr header p
  else if header.stream = STREAM_RESTORE_OBJECT then
    return createRestoreObject jcr header p
  else if cryptoDigestStreamType header.stream ≠ .none then
    let (digest, _) ← (bytes (cryptoDigestStreamType header.stream).size).run p
    return updateDigest jcr header digest
  else return jcr

end Bacula.Catreq
