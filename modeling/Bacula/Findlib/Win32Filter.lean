import Bacula.Library.ByteCodec

/-! The filter of `findlib/win32filter.c` that finds the file data in a BackupRead stream, and its
caller in `findlib/bfile.c`. Positions are offsets into the record; every `bwrite` succeeds. -/
namespace Bacula.Win32Filter
open ByteCodec

def WIN32_STREAM_HEADER_SIZE : ℕ := 20

def WIN32_BACKUP_DATA : ℤ := 1

def int64 (x : ℤ) : ℤ := x.bmod (2 ^ 64)

/-! ## The header -/

/-- The number that `bits` bits stand for in a signed type. -/
def signed (bits n : ℕ) : ℤ := if n < 2 ^ (bits - 1) then n else (n : ℤ) - 2 ^ bits

/-- The signed number in `width` bytes at `start`, on a little-endian machine. -/
def field (header : List UInt8) (start width : ℕ) : ℤ :=
  signed (8 * width) (number ((header.drop start).take width).reverse)

def dwStreamId (header : List UInt8) : ℤ := field header 0 4

def size (header : List UInt8) : ℤ := field header 8 8

def dwStreamNameSize (header : List UInt8) : ℤ := field header 16 4

/-- `memcpy` to a position inside of the destination. -/
def memcpy (destination : List UInt8) (pos : ℕ) (source : List UInt8) : List UInt8 :=
  destination.take pos ++ (source ++ destination.drop (pos + source.length))

/-! ## `have_data` -/

structure Filter where
  error : Bool
  skipSize : ℤ
  dataSize : ℤ
  headerPos : ℕ
  header : List UInt8

/-- The memory of the header, which nothing initializes. -/
abbrev Header := {bytes : List UInt8 // bytes.length = WIN32_STREAM_HEADER_SIZE}

def init (header : Header) : Filter := ⟨false, 0, 0, 0, header⟩

/-- The filter with what the caller's pointers point to. -/
structure Scan extends Filter where
  raw : ℤ
  rawLen : ℤ
  useLen : ℤ

def Scan.skip (s : Scan) : Scan :=
  if s.skipSize > 0 then
    let size := if s.rawLen < s.skipSize then s.rawLen else s.skipSize
    { s with skipSize := s.skipSize - size, rawLen := s.rawLen - size, raw := s.raw + size }
  else s

/-- What a complete header says. -/
def Scan.parseHeader (s : Scan) : Scan :=
  if dwStreamNameSize s.header < 0 ∨ size s.header < 0 then { s with error := true }
  else if dwStreamId s.header = WIN32_BACKUP_DATA then
    { s with headerPos := 0, skipSize := dwStreamNameSize s.header, dataSize := size s.header }
  else
    { s with headerPos := 0, skipSize := int64 (dwStreamNameSize s.header + size s.header) }

/-- Copy what the record has of the header. -/
def Scan.copyHeader (record : List UInt8) (s : Scan) : Scan :=
  let size : ℤ := WIN32_STREAM_HEADER_SIZE - s.headerPos
  let size := if s.rawLen < size then s.rawLen else size
  { s with
    header := memcpy s.header s.headerPos ((record.drop s.raw.toNat).take size.toNat)
    headerPos := s.headerPos + size.toNat
    rawLen := s.rawLen - size
    raw := s.raw + size }

def Scan.readHeader (record : List UInt8) (s : Scan) : Scan :=
  if s.dataSize = 0 ∧ s.skipSize = 0 ∧ s.rawLen > 0 then
    let s := s.copyHeader record
    if s.headerPos = WIN32_STREAM_HEADER_SIZE then s.parseHeader else s
  else s

/-- What the pointers and the filter are when there is data to return. -/
def Scan.takeData (s : Scan) : Scan :=
  let size := if s.rawLen < s.dataSize then s.rawLen else s.dataSize
  { s with dataSize := s.dataSize - size, rawLen := s.rawLen - size, useLen := size }

/-- `none` when the fuel does not suffice for the loop. -/
def haveData (record : List UInt8) : ℕ → Scan → Option (Scan × Bool)
  | 0, _ => none
  | fuel+1, s =>
      if s.error = false ∧ s.rawLen > 0 then
        let s := s.skip.readHeader record
        if s.error then some ({ s with rawLen := 0 }, false)
        else if s.dataSize > 0 ∧ s.skipSize = 0 ∧ s.rawLen > 0 then some (s.takeData, true)
        else haveData record fuel s
      else if s.error then some ({ s with rawLen := 0 }, false)
      else some (s, false)

/-! ## `processWin32BackupAPIBlock` -/

/-- A piece of the record that is written to the file. -/
structure Fragment where
  record : List UInt8
  raw : ℤ
  useLen : ℤ

def Fragment.Inside (f : Fragment) : Prop :=
  0 ≤ f.raw ∧ 0 ≤ f.useLen ∧ f.raw + f.useLen ≤ f.record.length

def Fragment.bytes (f : Fragment) : List UInt8 := (f.record.drop f.raw.toNat).take f.useLen.toNat

/-- The loop of calls. Each call has all of the fuel, `calls` is the fuel for the loop itself. -/
def blockLoop (fuel : ℕ) (record : List UInt8) : ℕ → Scan → Option (Filter × List Fragment)
  | 0, _ => none
  | calls+1, s =>
      if s.rawLen > 0 then
        match haveData record fuel s with
        | none => none
        | some (s, false) => some (s.toFilter, [])
        | some (s, true) =>
            (blockLoop fuel record calls { s with raw := s.raw + s.useLen }).map
              fun (filter, fragments) =>
              (filter, ⟨record, s.raw, s.useLen⟩ :: fragments)
      else some (s.toFilter, [])

def processWin32BackupAPIBlock (fuel : ℕ) (filter : Filter) (record : List UInt8) :
    Option (Filter × List Fragment) :=
  blockLoop fuel record fuel ⟨filter, 0, record.length, 0⟩

def processRecords (fuel : ℕ) : Filter → List (List UInt8) → Option (Filter × List Fragment)
  | filter, [] => some (filter, [])
  | filter, record :: records => do
      let (filter, first) ← processWin32BackupAPIBlock fuel filter record
      let (filter, rest) ← processRecords fuel filter records
      return (filter, first ++ rest)

/-! ## The stream -/

/-- A sub-stream of BackupRead. -/
structure SubStream where
  streamId : UInt32
  attributes : UInt32
  name : List UInt8
  payload : List UInt8
  nameFits : name.length < 2 ^ 31
  payloadFits : payload.length < 2 ^ 63

def SubStream.headerBytes (sub : SubStream) : List UInt8 :=
  littleEndian 4 sub.streamId.toNat ++ (littleEndian 4 sub.attributes.toNat ++
    (littleEndian 8 sub.payload.length ++ littleEndian 4 sub.name.length))

def SubStream.bytes (sub : SubStream) : List UInt8 := sub.headerBytes ++ (sub.name ++ sub.payload)

def SubStream.data (sub : SubStream) : List UInt8 := if sub.streamId = 1 then sub.payload else []

/-- The calls return on every record, the fragments are inside of their records, and of a stream
that is well formed they are the data. -/
def Law (header : Header) (records : List (List UInt8)) : Prop :=
  ∃ filter fragments,
    (∃ enough, ∀ fuel, enough ≤ fuel →
      processRecords fuel (init header) records = some (filter, fragments)) ∧
    (∀ f ∈ fragments, f.Inside) ∧
    ∀ subs : List SubStream, records.flatten = subs.flatMap SubStream.bytes →
      fragments.flatMap Fragment.bytes = subs.flatMap SubStream.data

/-- No header of a sub-stream that is not data has sizes that together are too large for 64 bits,
unless the stream ends behind it. -/
def Fits (stream : List UInt8) : Prop :=
  if stream.length ≤ WIN32_STREAM_HEADER_SIZE then True
  else if dwStreamNameSize stream < 0 ∨ size stream < 0 then True
  else
    (dwStreamId stream = WIN32_BACKUP_DATA ∨ dwStreamNameSize stream + size stream < 2 ^ 63) ∧
      Fits (stream.drop (WIN32_STREAM_HEADER_SIZE + (dwStreamNameSize stream + size stream).toNat))
termination_by stream.length
decreasing_by
  simp only [List.length_drop, WIN32_STREAM_HEADER_SIZE] at *
  omega

end Bacula.Win32Filter
