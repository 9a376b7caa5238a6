import Bacula.Findlib.Win32Filter

/-! What is still to come of the data is the same before and after every part of a pass, so the
records may be cut anywhere. -/
namespace Bacula.Win32Filter
open ByteCodec

/-! ## Header bytes -/

theorem field_append {start width : ℕ} {header : List UInt8}
    (inside : start + width ≤ header.length) (rest : List UInt8) :
    field (header ++ rest) start width = field header start width := by
  rw [field, field, List.drop_append_of_le_length (by omega), List.take_append_of_le_length]
  rw [List.length_drop]
  omega

section Whole

variable {header : List UInt8} (whole : header.length = WIN32_STREAM_HEADER_SIZE)
include whole

theorem dwStreamId_append (rest : List UInt8) : dwStreamId (header ++ rest) = dwStreamId header :=
  field_append (by rw [whole]; decide) rest

theorem size_append (rest : List UInt8) : size (header ++ rest) = size header :=
  field_append (by rw [whole]; decide) rest

theorem dwStreamNameSize_append (rest : List UInt8) :
    dwStreamNameSize (header ++ rest) = dwStreamNameSize header :=
  field_append (by rw [whole]; decide) rest

theorem drop_header (rest : List UInt8) (more : ℕ) :
    (header ++ rest).drop (WIN32_STREAM_HEADER_SIZE + more) = rest.drop more := by
  rw [← whole, List.drop_append, List.drop_eq_nil_of_le (by omega), List.nil_append]
  congr 1
  omega

end Whole

section Memcpy

variable {destination source : List UInt8} {pos : ℕ} (inside : pos + source.length ≤ destination.length)
include inside

theorem memcpy_length : (memcpy destination pos source).length = destination.length := by
  simp only [memcpy, List.length_append, List.length_take, List.length_drop]
  omega

/-- The bytes that were there stay, and the new ones follow them. -/
theorem memcpy_take :
    (memcpy destination pos source).take (pos + source.length) = destination.take pos ++ source := by
  have kept : (destination.take pos ++ source).length = pos + source.length := by
    rw [List.length_append, List.length_take, min_eq_left (by omega)]
  rw [memcpy, ← List.append_assoc, ← kept, List.take_left]

end Memcpy

theorem field_lt (header : List UInt8) (start width : ℕ) :
    field header start width < 2 ^ (8 * width - 1) := by
  have digits := number_lt ((header.drop start).take width).reverse
  have few : ((header.drop start).take width).reverse.length ≤ width := by
    rw [List.length_reverse]
    exact List.length_take_le _ _
  have bound : number ((header.drop start).take width).reverse < 2 ^ (8 * width) := by
    rw [pow_mul]
    exact lt_of_lt_of_le digits (Nat.pow_le_pow_right (by decide) few)
  rw [field, signed]
  split
  case isTrue small => exact_mod_cast small
  case isFalse =>
    have negative : (number ((header.drop start).take width).reverse : ℤ) < 2 ^ (8 * width) := by
      exact_mod_cast bound
    have positive : (0 : ℤ) < 2 ^ (8 * width - 1) := by positivity
    omega

/-! ## What is still to come -/

theorem drop_header_lt {stream : List UInt8} (long : ¬ stream.length ≤ WIN32_STREAM_HEADER_SIZE)
    (more : ℕ) :
    (stream.drop (WIN32_STREAM_HEADER_SIZE + more)).length < stream.length := by
  rw [WIN32_STREAM_HEADER_SIZE] at *
  rw [List.length_drop]
  omega

/-- The data of the sub-stream whose header is in front. -/
def headData (stream : List UInt8) : List UInt8 :=
  if dwStreamId stream = WIN32_BACKUP_DATA then
    (stream.drop (WIN32_STREAM_HEADER_SIZE + (dwStreamNameSize stream).toNat)).take (size stream).toNat
  else []

/-- The data in what follows a complete sub-stream. -/
def dataOf (stream : List UInt8) : List UInt8 :=
  if stream.length ≤ WIN32_STREAM_HEADER_SIZE then []
  else if dwStreamNameSize stream < 0 ∨ size stream < 0 then []
  else headData stream ++
    dataOf (stream.drop (WIN32_STREAM_HEADER_SIZE + (dwStreamNameSize stream + size stream).toNat))
termination_by stream.length
decreasing_by exact drop_header_lt ‹_› _

/-- What is known of a filter between two parts of a pass. -/
structure Filter.Valid (f : Filter) : Prop where
  whole : f.header.length = WIN32_STREAM_HEADER_SIZE
  partly : f.headerPos < WIN32_STREAM_HEADER_SIZE
  data : 0 ≤ f.dataSize
  between : f.skipSize ≠ 0 ∨ f.dataSize ≠ 0 → f.headerPos = 0

/-- What follows the sub-stream that the filter is in, from the start of its header. -/
def Filter.next (f : Filter) (stream : List UInt8) : List UInt8 :=
  f.header.take f.headerPos ++ stream.drop (f.skipSize.toNat + f.dataSize.toNat)

def Filter.future (f : Filter) (stream : List UInt8) : List UInt8 :=
  if f.error then [] else (stream.drop f.skipSize.toNat).take f.dataSize.toNat ++ dataOf (f.next stream)

def Filter.Fine (f : Filter) (stream : List UInt8) : Prop :=
  f.error = false → (f.skipSize < 0 → stream = []) ∧ Fits (f.next stream)

theorem fits_short {stream : List UInt8} (short : stream.length ≤ WIN32_STREAM_HEADER_SIZE) :
    Fits stream := by
  rw [Fits, if_pos short]
  trivial

theorem dataOf_short {stream : List UInt8} (short : stream.length ≤ WIN32_STREAM_HEADER_SIZE) :
    dataOf stream = [] := by
  rw [dataOf, if_pos short]

theorem Filter.Valid.short {f : Filter} (valid : f.Valid) :
    (f.next []).length ≤ WIN32_STREAM_HEADER_SIZE := by
  have partly := valid.partly
  rw [next, List.drop_nil, List.append_nil, List.length_take]
  omega

theorem Filter.fine_nil {f : Filter} (valid : f.error = false → f.Valid) : f.Fine [] :=
  fun good => ⟨fun _ => rfl, fits_short (valid good).short⟩

theorem Filter.future_nil {f : Filter} (valid : f.error = false → f.Valid) : f.future [] = [] := by
  rw [future]
  split
  case isTrue => rfl
  case isFalse good =>
    rw [List.drop_nil, List.take_nil,
      dataOf_short (valid (Bool.eq_false_of_not_eq_true good)).short, List.nil_append]

/-! ## A pass -/

/-- The pointers are inside of the record. -/
structure Scan.At (record : List UInt8) (s : Scan) : Prop where
  raw : 0 ≤ s.raw
  rawLen : 0 ≤ s.rawLen
  rest : s.raw + s.rawLen = record.length

/-- The bytes that are still to be filtered, up to the end of the stream. -/
def Scan.stream (record later : List UInt8) (s : Scan) : List UInt8 := record.drop s.raw.toNat ++ later

/-- A part of a pass goes on in the stream, and nothing that is to come changes. -/
structure Scan.Goes (record later : List UInt8) (s t : Scan) : Prop where
  inside : t.At record
  valid : t.error = false → t.Valid
  fine : s.toFilter.Fine (s.stream record later) ↔ t.toFilter.Fine (t.stream record later)
  future : t.toFilter.Fine (t.stream record later) →
    s.toFilter.future (s.stream record later) = t.toFilter.future (t.stream record later)
  shorter : t.rawLen ≤ s.rawLen

theorem Scan.At.stream_drop {record : List UInt8} {s : Scan} (inside : s.At record)
    (later : List UInt8) {size : ℤ} (positive : 0 ≤ size) (within : size ≤ s.rawLen) :
    record.drop (s.raw + size).toNat ++ later = (s.stream record later).drop size.toNat := by
  have rest := inside.rest
  have raw := inside.raw
  rw [stream, List.drop_append_of_le_length (by rw [List.length_drop]; omega), List.drop_drop,
    Int.toNat_add raw positive]

theorem Scan.Goes.refl {record : List UInt8} {s : Scan} (inside : s.At record) (valid : s.Valid)
    (later : List UInt8) : s.Goes record later s :=
  ⟨inside, fun _ => valid, Iff.rfl, fun _ => rfl, le_refl _⟩

/-- A part of a pass that consumes `size` bytes. -/
theorem Scan.Goes.of_consumed {record later : List UInt8} {s t : Scan} {size : ℤ} (inside : s.At record)
    (positive : 0 ≤ size) (within : size ≤ s.rawLen) (raw : t.raw = s.raw + size)
    (rawLen : t.rawLen = s.rawLen - size) (valid : t.error = false → t.Valid)
    (fine : s.toFilter.Fine (s.stream record later) ↔
      t.toFilter.Fine ((s.stream record later).drop size.toNat))
    (future : t.toFilter.Fine ((s.stream record later).drop size.toNat) →
      s.toFilter.future (s.stream record later) =
        t.toFilter.future ((s.stream record later).drop size.toNat)) :
    s.Goes record later t := by
  have start := inside.raw
  have rest := inside.rest
  have stream : t.stream record later = (s.stream record later).drop size.toNat := by
    rw [← inside.stream_drop later positive within, Scan.stream, raw]
  refine ⟨⟨?_, ?_, ?_⟩, valid, ?_, ?_, ?_⟩
  · omega
  · omega
  · omega
  · rw [stream]
    exact fine
  · rw [stream]
    exact future
  · omega

theorem Filter.next_skip (f : Filter) {size : ℤ} (positive : 0 ≤ size) (within : size ≤ f.skipSize)
    (stream : List UInt8) :
    Filter.next { f with skipSize := f.skipSize - size } (stream.drop size.toNat) = f.next stream := by
  rw [next, next, List.drop_drop]
  congr 2
  dsimp only
  omega

theorem Scan.skip_goes {record : List UInt8} {s : Scan} (inside : s.At record) (valid : s.Valid)
    (later : List UInt8) : s.Goes record later s.skip := by
  unfold skip
  split
  case isFalse => exact .refl inside valid later
  case isTrue skips =>
    have rawLen := inside.rawLen
    generalize sized : (if s.rawLen < s.skipSize then s.rawLen else s.skipSize) = size
    have bounds : 0 ≤ size ∧ size ≤ s.rawLen ∧ size ≤ s.skipSize := by
      rw [← sized]
      split <;> omega
    obtain ⟨positive, within, skipped⟩ := bounds
    have empty : s.headerPos = 0 := valid.between (.inl (by omega))
    refine .of_consumed inside positive within rfl rfl
      (fun _ => ⟨valid.whole, valid.partly, valid.data, fun _ => empty⟩) ?_ ?_
    · have next := s.toFilter.next_skip positive skipped (s.stream record later)
      rw [Filter.Fine, Filter.Fine, next]
      refine imp_congr_right fun _ => and_congr_left fun _ =>
        iff_of_true (fun negative => ?_) (fun (negative : s.skipSize - size < 0) => ?_) <;> omega
    · intro _
      have next := s.toFilter.next_skip positive skipped (s.stream record later)
      rw [Filter.future, Filter.future, next, List.drop_drop]
      dsimp only
      rw [show size.toNat + (s.skipSize - size).toNat = s.skipSize.toNat by omega]

theorem int64_of_fits {x : ℤ} (positive : 0 ≤ x) (fits : x < 2 ^ 63) : int64 x = x := by
  rw [int64]
  exact Int.bmod_eq_of_le (by omega) (by norm_num; omega)

/-- The sum of two sizes has at most 64 bits, and is negative when it is too large. -/
theorem int64_negative {x : ℤ} (large : 2 ^ 63 ≤ x) (small : x < 2 ^ 64) : int64 x < 0 := by
  rw [int64]
  have bounds : x.bmod (2 ^ 64) = x - 2 ^ 64 := by
    rw [Int.bmod_def]
    norm_num
    omega
  omega

/-- The filter has all of a header, and nothing of what follows it. -/
structure Filter.Complete (f : Filter) : Prop where
  error : f.error = false
  whole : f.header.length = WIN32_STREAM_HEADER_SIZE
  headerPos : f.headerPos = WIN32_STREAM_HEADER_SIZE
  skipSize : f.skipSize = 0
  dataSize : f.dataSize = 0

theorem Filter.Complete.next {f : Filter} (complete : f.Complete) (stream : List UInt8) :
    f.next stream = f.header ++ stream := by
  rw [Filter.next, complete.headerPos, complete.skipSize, complete.dataSize, ← complete.whole,
    List.take_length]
  rfl

theorem fits_append {header : List UInt8} (whole : header.length = WIN32_STREAM_HEADER_SIZE)
    (rest : List UInt8) :
    Fits (header ++ rest) ↔ rest = [] ∨ (dwStreamNameSize header < 0 ∨ size header < 0) ∨
      (dwStreamId header = WIN32_BACKUP_DATA ∨ dwStreamNameSize header + size header < 2 ^ 63) ∧
        Fits (rest.drop (dwStreamNameSize header + size header).toNat) := by
  rw [Fits, drop_header whole, dwStreamNameSize_append whole, size_append whole,
    dwStreamId_append whole, List.length_append, whole]
  rcases rest with _ | ⟨byte, rest⟩
  · simp
  · rw [if_neg (by rw [List.length_cons]; omega)]
    split <;> simp_all

theorem dataOf_append {header : List UInt8} (whole : header.length = WIN32_STREAM_HEADER_SIZE)
    (rest : List UInt8) :
    dataOf (header ++ rest) =
      if dwStreamNameSize header < 0 ∨ size header < 0 then []
      else (if dwStreamId header = WIN32_BACKUP_DATA then
          (rest.drop (dwStreamNameSize header).toNat).take (size header).toNat else []) ++
        dataOf (rest.drop (dwStreamNameSize header + size header).toNat) := by
  rw [dataOf, headData, drop_header whole, drop_header whole, dwStreamNameSize_append whole,
    size_append whole, dwStreamId_append whole, List.length_append, whole]
  rcases rest with _ | ⟨byte, rest⟩
  · rw [List.length_nil, Nat.add_zero, if_pos (le_refl _), List.drop_nil, List.drop_nil, List.take_nil,
      dataOf_short (Nat.zero_le _), ite_self, List.nil_append, ite_self]
  · rw [if_neg (by rw [List.length_cons]; omega)]

/-- What the filter is to skip and to return behind a header with sizes that are not negative. -/
structure Scan.Parsed (s t : Scan) (skip data : ℤ) : Prop where
  error : t.error = false
  header : t.header = s.header
  headerPos : t.headerPos = 0
  skipSize : t.skipSize = skip
  dataSize : t.dataSize = data
  raw : t.raw = s.raw
  rawLen : t.rawLen = s.rawLen
  cases : (dwStreamId s.header = WIN32_BACKUP_DATA ∧ skip = dwStreamNameSize s.header ∧
      data = size s.header) ∨
    (dwStreamId s.header ≠ WIN32_BACKUP_DATA ∧
      skip = int64 (dwStreamNameSize s.header + size s.header) ∧ data = 0)

theorem Scan.parseHeader_bad {s : Scan} (bad : dwStreamNameSize s.header < 0 ∨ size s.header < 0) :
    s.parseHeader = { s with error := true } :=
  if_pos bad

theorem Scan.parseHeader_parsed {s : Scan} (complete : s.toFilter.Complete)
    (positive : ¬ (dwStreamNameSize s.header < 0 ∨ size s.header < 0)) :
    ∃ skip data, s.Parsed s.parseHeader skip data := by
  by_cases same : dwStreamId s.header = WIN32_BACKUP_DATA
  · have parsed : s.parseHeader =
        { s with headerPos := 0, skipSize := dwStreamNameSize s.header,
                 dataSize := size s.header } := by
      rw [parseHeader, if_neg positive, if_pos same]
    rw [parsed]
    exact ⟨_, _, complete.error, rfl, rfl, rfl, rfl, rfl, rfl, .inl ⟨same, rfl, rfl⟩⟩
  · have parsed : s.parseHeader =
        { s with headerPos := 0, skipSize := int64 (dwStreamNameSize s.header + size s.header) } := by
      rw [parseHeader, if_neg positive, if_neg same]
    rw [parsed]
    generalize sum : int64 (dwStreamNameSize s.header + size s.header) = skip
    exact ⟨skip, 0, complete.error, rfl, rfl, rfl, complete.dataSize, rfl, rfl,
      .inr ⟨same, sum.symm, rfl⟩⟩

theorem Filter.fine_iff {f : Filter} {skip data : ℤ} (error : f.error = false)
    (headerPos : f.headerPos = 0) (skipSize : f.skipSize = skip) (dataSize : f.dataSize = data)
    (stream : List UInt8) :
    f.Fine stream ↔ (skip < 0 → stream = []) ∧ Fits (stream.drop (skip.toNat + data.toNat)) := by
  rw [Fine, next, headerPos, skipSize, dataSize, List.take_zero, List.nil_append]
  exact forall_prop_of_true error

theorem Filter.future_eq {f : Filter} {skip data : ℤ} (error : f.error = false)
    (headerPos : f.headerPos = 0) (skipSize : f.skipSize = skip) (dataSize : f.dataSize = data)
    (stream : List UInt8) :
    f.future stream =
      (stream.drop skip.toNat).take data.toNat ++ dataOf (stream.drop (skip.toNat + data.toNat)) := by
  rw [future, next, headerPos, skipSize, dataSize, List.take_zero, List.nil_append, error]
  rfl

theorem fits_nil : Fits [] := fits_short (Nat.zero_le _)

theorem Scan.Parsed.valid {s t : Scan} {skip data : ℤ} (parsed : s.Parsed t skip data)
    (complete : s.toFilter.Complete) (positive : 0 ≤ size s.header) : t.Valid := by
  refine ⟨parsed.header ▸ complete.whole, ?_, ?_, fun _ => parsed.headerPos⟩
  · rw [parsed.headerPos]
    exact Nat.zero_lt_succ 19
  · rw [parsed.dataSize]
    rcases parsed.cases with ⟨-, -, rfl⟩ | ⟨-, -, rfl⟩
    · exact positive
    · exact le_refl 0

/-- The sum of the sizes is what follows the header, unless it is too large. -/
theorem Scan.Parsed.sizes {s t : Scan} {skip data : ℤ} (parsed : s.Parsed t skip data)
    (name : 0 ≤ dwStreamNameSize s.header) (positive : 0 ≤ size s.header) :
    ((dwStreamId s.header = WIN32_BACKUP_DATA ∨
      dwStreamNameSize s.header + size s.header < 2 ^ 63) ∧ 0 ≤ skip ∧
      skip.toNat + data.toNat = (dwStreamNameSize s.header + size s.header).toNat) ∨
    (¬ (dwStreamId s.header = WIN32_BACKUP_DATA ∨
      dwStreamNameSize s.header + size s.header < 2 ^ 63) ∧ skip < 0) := by
  rcases parsed.cases with ⟨same, rfl, rfl⟩ | ⟨other, rfl, rfl⟩
  · exact .inl ⟨.inl same, name, (Int.toNat_add name positive).symm⟩
  · rcases lt_or_ge (dwStreamNameSize s.header + size s.header) (2 ^ 63) with fits | large
    · rw [int64_of_fits (add_nonneg name positive) fits]
      exact .inl ⟨.inr fits, add_nonneg name positive, Nat.add_zero _⟩
    · have upper : size s.header < 2 ^ 63 := field_lt s.header 8 8
      have small : dwStreamNameSize s.header < 2 ^ 31 := field_lt s.header 16 4
      refine .inr ⟨not_or.mpr ⟨other, not_lt.mpr large⟩, int64_negative large ?_⟩
      omega

theorem Scan.fine_complete {s : Scan} (complete : s.toFilter.Complete) (stream : List UInt8) :
    s.toFilter.Fine stream ↔ Fits (s.header ++ stream) := by
  rw [Filter.Fine, complete.next, complete.skipSize]
  exact ⟨fun fine => (fine complete.error).2,
    fun fits _ => ⟨fun negative => absurd negative (lt_irrefl _), fits⟩⟩

theorem Scan.future_complete {s : Scan} (complete : s.toFilter.Complete) (stream : List UInt8) :
    s.toFilter.future stream = dataOf (s.header ++ stream) := by
  rw [Filter.future, complete.next, complete.skipSize, complete.dataSize, complete.error]
  rfl

theorem Scan.Parsed.fine {s t : Scan} {skip data : ℤ} (parsed : s.Parsed t skip data)
    (complete : s.toFilter.Complete)
    (positive : ¬ (dwStreamNameSize s.header < 0 ∨ size s.header < 0)) (stream : List UInt8) :
    s.toFilter.Fine stream ↔ t.toFilter.Fine stream := by
  have bounds := positive
  rw [not_or, not_lt, not_lt] at bounds
  rw [fine_complete complete, fits_append complete.whole,
    Filter.fine_iff parsed.error parsed.headerPos parsed.skipSize parsed.dataSize]
  rcases stream with _ | ⟨byte, stream⟩
  · simp [fits_nil]
  · rcases parsed.sizes bounds.1 bounds.2 with ⟨fits, skipped, sum⟩ | ⟨large, skipped⟩
    · rw [sum]
      constructor
      · rintro (empty | bad | ⟨-, rest⟩)
        · cases empty
        · exact absurd bad positive
        · exact ⟨fun negative => absurd skipped (not_le.mpr negative), rest⟩
      · exact fun fine => .inr (.inr ⟨fits, fine.2⟩)
    · constructor
      · rintro (empty | bad | ⟨fits, -⟩)
        · cases empty
        · exact absurd bad positive
        · exact absurd fits large
      · exact fun fine => .inl (fine.1 skipped)

theorem Scan.Parsed.future {s t : Scan} {skip data : ℤ} (parsed : s.Parsed t skip data)
    (complete : s.toFilter.Complete)
    (positive : ¬ (dwStreamNameSize s.header < 0 ∨ size s.header < 0)) {stream : List UInt8}
    (fine : t.toFilter.Fine stream) : s.toFilter.future stream = t.toFilter.future stream := by
  have bounds := positive
  rw [not_or, not_lt, not_lt] at bounds
  rw [Filter.fine_iff parsed.error parsed.headerPos parsed.skipSize parsed.dataSize] at fine
  rw [future_complete complete, dataOf_append complete.whole, if_neg positive,
    Filter.future_eq parsed.error parsed.headerPos parsed.skipSize parsed.dataSize]
  rcases parsed.sizes bounds.1 bounds.2 with ⟨fits, skipped, sum⟩ | ⟨large, skipped⟩
  · rw [sum]
    congr 1
    rcases parsed.cases with ⟨same, rfl, rfl⟩ | ⟨other, -, rfl⟩
    · rw [if_pos same]
    · rw [if_neg other]
      rfl
  · rw [fine.1 skipped]
    simp

/-- The header as far as it is read, and what follows it. -/
theorem Filter.next_read {f : Filter} {stream : List UInt8} {count : ℕ} (valid : f.Valid)
    (skip : f.skipSize = 0) (data : f.dataSize = 0) (there : count ≤ stream.length)
    (inside : f.headerPos + count ≤ WIN32_STREAM_HEADER_SIZE) :
    (memcpy f.header f.headerPos (stream.take count)).take (f.headerPos + count) ++ stream.drop count =
      f.next stream := by
  have source : (stream.take count).length = count := by rw [List.length_take, min_eq_left there]
  have taken := memcpy_take (show f.headerPos + (stream.take count).length ≤ f.header.length by
    rw [source, valid.whole]; exact inside)
  rw [source] at taken
  rw [next, skip, data, taken, List.append_assoc]
  simp

/-- `size` more bytes of the header are read. -/
structure Scan.Copied (record later : List UInt8) (s t : Scan) (size : ℤ) : Prop where
  positive : 0 < size
  within : size ≤ s.rawLen
  error : t.error = false
  skipSize : t.skipSize = 0
  dataSize : t.dataSize = 0
  headerPos : t.headerPos ≤ WIN32_STREAM_HEADER_SIZE
  whole : t.header.length = WIN32_STREAM_HEADER_SIZE
  raw : t.raw = s.raw + size
  rawLen : t.rawLen = s.rawLen - size
  next : t.toFilter.next ((s.stream record later).drop size.toNat) =
      s.toFilter.next (s.stream record later)

theorem Scan.copyHeader_copied {record : List UInt8} {s : Scan} (inside : s.At record)
    (good : s.error = false) (valid : s.Valid) (data : s.dataSize = 0) (skip : s.skipSize = 0)
    (some : s.rawLen > 0) (later : List UInt8) :
    ∃ size, s.Copied record later (s.copyHeader record) size := by
  have partly := valid.partly
  have start := inside.raw
  have rest := inside.rest
  refine ⟨if s.rawLen < (WIN32_STREAM_HEADER_SIZE : ℤ) - s.headerPos then s.rawLen
    else (WIN32_STREAM_HEADER_SIZE : ℤ) - s.headerPos, ?_⟩
  unfold copyHeader
  dsimp only
  generalize sized : (if s.rawLen < (WIN32_STREAM_HEADER_SIZE : ℤ) - s.headerPos then s.rawLen
    else (WIN32_STREAM_HEADER_SIZE : ℤ) - s.headerPos) = size
  have bounds : 0 < size ∧ size ≤ s.rawLen ∧ size ≤ (WIN32_STREAM_HEADER_SIZE : ℤ) - s.headerPos := by
    rw [← sized]
    split <;> omega
  obtain ⟨positive, within, fits⟩ := bounds
  have source : (record.drop s.raw.toNat).take size.toNat =
      (s.stream record later).take size.toNat := by
    rw [stream, List.take_append_of_le_length]
    rw [List.length_drop]
    omega
  have there : size.toNat ≤ (s.stream record later).length := by
    rw [stream, List.length_append, List.length_drop]
    omega
  refine ⟨positive, within, good, skip, data, ?_, ?_, rfl, rfl, ?_⟩
  · dsimp only
    omega
  · dsimp only
    rw [memcpy_length, valid.whole]
    rw [valid.whole, List.length_take]
    omega
  · dsimp only
    rw [source, ← Filter.next_read valid skip data there (by omega), Filter.next]
    dsimp only
    rw [skip, data]
    rfl

theorem Scan.readHeader_goes {record : List UInt8} {s : Scan} (inside : s.At record)
    (good : s.error = false) (valid : s.Valid) (later : List UInt8) :
    s.Goes record later (s.readHeader record) := by
  by_cases reads : s.dataSize = 0 ∧ s.skipSize = 0 ∧ s.rawLen > 0
  · obtain ⟨data, skip, some⟩ := reads
    obtain ⟨size, copied⟩ := copyHeader_copied inside good valid data skip some later
    have header : s.readHeader record =
        if (s.copyHeader record).headerPos = WIN32_STREAM_HEADER_SIZE then
          (s.copyHeader record).parseHeader
        else s.copyHeader record := if_pos ⟨data, skip, some⟩
    rw [header]
    generalize s.copyHeader record = t at copied
    have fine : s.toFilter.Fine (s.stream record later) ↔
        t.toFilter.Fine ((s.stream record later).drop size.toNat) := by
      rw [Filter.Fine, Filter.Fine, copied.next, good, copied.error, skip, copied.skipSize]
      simp
    have future : s.toFilter.future (s.stream record later) =
        t.toFilter.future ((s.stream record later).drop size.toNat) := by
      rw [Filter.future, Filter.future, copied.next, good, copied.error, data, copied.dataSize]
      simp
    have positive := le_of_lt copied.positive
    split
    case isFalse partly =>
      have valid' : t.Valid :=
        ⟨copied.whole, lt_of_le_of_ne copied.headerPos partly, le_of_eq copied.dataSize.symm,
        fun busy => by rcases busy with busy | busy <;> simp_all [copied.skipSize, copied.dataSize]⟩
      exact .of_consumed inside positive copied.within copied.raw copied.rawLen (fun _ => valid')
        fine fun _ => future
    case isTrue full =>
      have complete : t.toFilter.Complete :=
        ⟨copied.error, copied.whole, full, copied.skipSize, copied.dataSize⟩
      by_cases bad : dwStreamNameSize t.header < 0 ∨ Win32Filter.size t.header < 0
      · rw [parseHeader_bad bad]
        have start := complete.next ((s.stream record later).drop size.toNat)
        refine .of_consumed inside positive copied.within copied.raw copied.rawLen
          (fun good => by cases good) ?_ ?_
        · rw [fine, Filter.Fine, start, fits_append complete.whole, complete.skipSize]
          simp [bad, Filter.Fine]
        · intro _
          rw [future, Scan.future_complete complete, dataOf_append complete.whole, if_pos bad]
          rfl
      · obtain ⟨skip, data, parsed⟩ := parseHeader_parsed complete bad
        generalize t.parseHeader = u at parsed
        refine .of_consumed inside positive copied.within (parsed.raw.trans copied.raw)
          (parsed.rawLen.trans copied.rawLen)
          (fun _ => parsed.valid complete (not_lt.mp (not_or.mp bad).2)) ?_ ?_
        · exact fine.trans (parsed.fine complete bad _)
        · exact fun fine => future.trans (parsed.future complete bad fine)
  · have header : s.readHeader record = s := if_neg reads
    rw [header]
    exact .refl inside valid later

theorem Scan.Goes.trans {record later : List UInt8} {s t u : Scan} (first : s.Goes record later t)
    (second : t.Goes record later u) : s.Goes record later u where
  inside := second.inside
  valid := second.valid
  fine := first.fine.trans second.fine
  future fine := (first.future (second.fine.mpr fine)).trans (second.future fine)
  shorter := second.shorter.trans first.shorter

theorem Scan.skip_error (s : Scan) : s.skip.error = s.error := by
  unfold skip
  split <;> rfl

/-- The part of a pass that does not return. -/
theorem Scan.pass_goes {record : List UInt8} {s : Scan} (inside : s.At record) (good : s.error = false)
    (valid : s.Valid) (later : List UInt8) : s.Goes record later (s.skip.readHeader record) := by
  have skips := skip_goes inside valid later
  have still : s.skip.error = false := (skip_error s).trans good
  exact skips.trans (readHeader_goes skips.inside still (skips.valid still) later)

/-- A pass that does not return consumes something, unless the filter is to skip a negative number of
bytes. -/
theorem Scan.pass_shorter {record : List UInt8} {s : Scan} (inside : s.At record)
    (good : s.error = false) (valid : s.Valid) (some : 0 < s.rawLen) (skipSize : 0 ≤ s.skipSize) :
    ((s.skip.readHeader record).dataSize > 0 ∧ (s.skip.readHeader record).skipSize = 0 ∧
      (s.skip.readHeader record).rawLen > 0) ∨ (s.skip.readHeader record).rawLen < s.rawLen := by
  have skips := skip_goes inside valid []
  have still : s.skip.error = false := (skip_error s).trans good
  have reads := readHeader_goes skips.inside still (skips.valid still) []
  rcases lt_or_eq_of_le skipSize with skipping | none
  · refine .inr (lt_of_le_of_lt reads.shorter ?_)
    rw [skip, if_pos skipping]
    dsimp only
    split <;> omega
  · have same : s.skip = s := if_neg (by omega)
    rw [same]
    rcases lt_or_eq_of_le valid.data with filled | empty
    · have same : s.readHeader record = s := if_neg (by omega)
      rw [same]
      exact .inl ⟨filled, none.symm, some⟩
    · right
      obtain ⟨size, copied⟩ := copyHeader_copied inside good valid empty.symm none.symm some []
      have read : (s.readHeader record).rawLen = (s.copyHeader record).rawLen := by
        rw [readHeader, if_pos ⟨empty.symm, none.symm, some⟩]
        dsimp only
        split
        · rw [parseHeader]
          split_ifs <;> rfl
        · rfl
      have positive := copied.positive
      have shorter := copied.rawLen
      omega

/-! ## A call -/

/-- The stream behind the data that was returned. -/
def Scan.after (record later : List UInt8) (t : Scan) : List UInt8 :=
  record.drop (t.raw + t.useLen).toNat ++ later

/-- The call returned data; the caller moves on behind it. -/
structure Scan.Found (record later : List UInt8) (s t : Scan) : Prop where
  inside : Scan.At record { t with raw := t.raw + t.useLen }
  fragment : Fragment.Inside ⟨record, t.raw, t.useLen⟩
  valid : t.error = false → t.Valid
  fine : s.toFilter.Fine (s.stream record later) ↔
    t.toFilter.Fine (t.after record later)
  future : t.toFilter.Fine (t.after record later) →
    s.toFilter.future (s.stream record later) = Fragment.bytes ⟨record, t.raw, t.useLen⟩ ++
      t.toFilter.future (t.after record later)
  shorter : t.rawLen < s.rawLen

/-- The call has used up the record. -/
structure Scan.Done (record later : List UInt8) (s : Scan) (t : Filter) : Prop where
  valid : t.error = false → t.Valid
  fine : s.toFilter.Fine (s.stream record later) ↔ t.Fine later
  future : t.Fine later → s.toFilter.future (s.stream record later) = t.future later

def Scan.Returned (record later : List UInt8) (s t : Scan) : Bool → Prop
  | true => s.Found record later t
  | false => s.Done record later t.toFilter

theorem Scan.Goes.returned {record later : List UInt8} {s t u : Scan} {found : Bool}
    (goes : s.Goes record later t) (returned : t.Returned record later u found) :
    s.Returned record later u found := by
  cases found with
  | true =>
      exact ⟨returned.inside, returned.fragment, returned.valid, goes.fine.trans returned.fine,
        fun fine => (goes.future (returned.fine.mpr fine)).trans (returned.future fine),
        lt_of_lt_of_le returned.shorter goes.shorter⟩
  | false =>
      exact ⟨returned.valid, goes.fine.trans returned.fine,
        fun fine => (goes.future (returned.fine.mpr fine)).trans (returned.future fine)⟩

theorem Scan.error_done {record later : List UInt8} {s : Scan} {t : Filter} (bad : s.error = true)
    (bad' : t.error = true) :
    s.Done record later t where
  valid good := absurd (bad'.symm.trans good) (by decide)
  fine := by rw [Filter.Fine, Filter.Fine, bad, bad']; simp
  future _ := by rw [Filter.future, Filter.future, bad, bad']; rfl

theorem Scan.end_done {record later : List UInt8} {s : Scan} (inside : s.At record)
    (valid : s.error = false → s.Valid) (none : s.rawLen = 0) : s.Done record later s.toFilter := by
  have start := inside.raw
  have rest := inside.rest
  have stream : s.stream record later = later := by
    rw [stream, List.drop_eq_nil_of_le (by omega), List.nil_append]
  exact ⟨valid, by rw [stream], fun _ => by rw [stream]⟩

theorem Scan.takeData_found {record later : List UInt8} {s : Scan} (inside : s.At record)
    (good : s.error = false) (valid : s.Valid) (data : s.dataSize > 0) (skip : s.skipSize = 0)
    (some : s.rawLen > 0) :
    s.Found record later s.takeData := by
  have start := inside.raw
  have rest := inside.rest
  unfold takeData
  dsimp only
  generalize sized : (if s.rawLen < s.dataSize then s.rawLen else s.dataSize) = size
  have bounds : 0 < size ∧ size ≤ s.rawLen ∧ size ≤ s.dataSize := by
    rw [← sized]
    split <;> omega
  obtain ⟨positive, within, fits⟩ := bounds
  have empty : s.headerPos = 0 := valid.between (.inr (by omega))
  have stream' := inside.stream_drop later (le_of_lt positive) within
  have next : Filter.next { s.toFilter with dataSize := s.dataSize - size }
      ((s.stream record later).drop size.toNat) = s.toFilter.next (s.stream record later) := by
    rw [Filter.next, Filter.next, List.drop_drop]
    congr 2
    dsimp only
    omega
  have bytes : Fragment.bytes ⟨record, s.raw, size⟩ = (s.stream record later).take size.toNat := by
    rw [Fragment.bytes, stream, List.take_append_of_le_length]
    rw [List.length_drop]
    omega
  refine ⟨⟨?_, ?_, ?_⟩, ⟨start, le_of_lt positive, ?_⟩,
    fun _ => ⟨valid.whole, valid.partly, ?_, fun _ => empty⟩, ?_, ?_, ?_⟩
  · dsimp only; omega
  · dsimp only; omega
  · dsimp only; omega
  · dsimp only; omega
  · dsimp only; omega
  · rw [Scan.after, stream', Filter.Fine, Filter.Fine, next]
    simp [skip]
  · intro _
    rw [bytes, Scan.after, stream', Filter.future, Filter.future, next, good]
    dsimp only
    rw [skip]
    simp only [Int.toNat_zero, List.drop_zero, Bool.false_eq_true, if_false]
    rw [← List.append_assoc, ← List.take_add,
      show size.toNat + (s.dataSize - size).toNat = s.dataSize.toNat by omega]
  · dsimp only; omega

theorem haveData_returned {record : List UInt8} (later : List UInt8) {fuel : ℕ} {s t : Scan}
    {found : Bool} (run : haveData record fuel s = some (t, found)) (inside : s.At record)
    (valid : s.error = false → s.Valid) :
    s.Returned record later t found := by
  induction fuel generalizing s with
  | zero => cases run
  | succ fuel ih =>
      rw [haveData] at run
      by_cases going : s.error = false ∧ s.rawLen > 0
      · rw [if_pos going] at run
        have goes := Scan.pass_goes inside going.1 (valid going.1) later
        dsimp only at run
        generalize s.skip.readHeader record = u at run goes
        refine goes.returned ?_
        by_cases bad : u.error = true
        · rw [if_pos bad] at run
          cases run
          exact Scan.error_done bad bad
        · rw [if_neg bad] at run
          have good := Bool.eq_false_of_not_eq_true bad
          by_cases data : u.dataSize > 0 ∧ u.skipSize = 0 ∧ u.rawLen > 0
          · rw [if_pos data] at run
            cases run
            exact Scan.takeData_found goes.inside good (goes.valid good) data.1 data.2.1 data.2.2
          · rw [if_neg data] at run
            exact ih run goes.inside goes.valid
      · rw [if_neg going] at run
        by_cases bad : s.error = true
        · rw [if_pos bad] at run
          cases run
          exact Scan.error_done bad bad
        · rw [if_neg bad] at run
          have rawLen := inside.rawLen
          have none : s.rawLen = 0 := by
            by_contra some
            exact going ⟨Bool.eq_false_of_not_eq_true bad, by omega⟩
          cases run
          exact Scan.end_done inside valid none

theorem haveData_terminates {record : List UInt8} (later : List UInt8) {fuel : ℕ} {s : Scan}
    (inside : s.At record) (valid : s.error = false → s.Valid)
    (fine : s.toFilter.Fine (s.stream record later)) (enough : s.rawLen < fuel) :
    ∃ result, haveData record fuel s = some result := by
  induction fuel generalizing s with
  | zero => exact absurd inside.rawLen (by omega)
  | succ fuel ih =>
      rw [haveData]
      by_cases going : s.error = false ∧ s.rawLen > 0
      · rw [if_pos going]
        have goes := Scan.pass_goes inside going.1 (valid going.1) later
        have skipSize : 0 ≤ s.skipSize := by
          have start := inside.raw
          have rest := inside.rest
          by_contra negative
          have ended := congrArg List.length ((fine going.1).1 (not_le.mp negative))
          rw [Scan.stream, List.length_append, List.length_drop, List.length_nil] at ended
          omega
        have shorter := Scan.pass_shorter inside going.1 (valid going.1) going.2 skipSize
        dsimp only
        generalize s.skip.readHeader record = u at goes shorter
        split_ifs with bad data
        · exact ⟨_, rfl⟩
        · exact ⟨_, rfl⟩
        · refine ih goes.inside goes.valid (goes.fine.mp fine) ?_
          rcases shorter with found | less
          · exact absurd found data
          · omega
      · rw [if_neg going]
        split_ifs
        · exact ⟨_, rfl⟩
        · exact ⟨_, rfl⟩

theorem haveData_more {record : List UInt8} {fuel more : ℕ} (le : fuel ≤ more) {s : Scan}
    {result : Scan × Bool} (run : haveData record fuel s = some result) :
    haveData record more s = some result := by
  induction fuel generalizing s more with
  | zero => cases run
  | succ fuel ih =>
      obtain ⟨more, rfl⟩ : ∃ less, more = less + 1 := ⟨more - 1, by omega⟩
      rw [haveData] at run ⊢
      split
      case isFalse stop => rwa [if_neg stop] at run
      case isTrue going =>
        rw [if_pos going] at run
        dsimp only at run ⊢
        split_ifs at run ⊢
        · exact run
        · exact run
        · exact ih (by omega) run

/-! ## A record -/

theorem blockLoop_spec {record : List UInt8} (later : List UInt8) {fuel calls : ℕ} {s : Scan}
    {filter : Filter} {fragments : List Fragment}
    (run : blockLoop fuel record calls s = some (filter, fragments)) (inside : s.At record)
    (valid : s.error = false → s.Valid) :
    (filter.error = false → filter.Valid) ∧
    (s.toFilter.Fine (s.stream record later) ↔ filter.Fine later) ∧
      (filter.Fine later → s.toFilter.future (s.stream record later) =
        fragments.flatMap Fragment.bytes ++ filter.future later) ∧ ∀ f ∈ fragments, f.Inside := by
  induction calls generalizing s filter fragments with
  | zero => cases run
  | succ calls ih =>
      rw [blockLoop] at run
      split at run
      case isFalse none =>
        have rawLen := inside.rawLen
        cases run
        have done : s.Done record later s.toFilter := Scan.end_done inside valid (by omega)
        exact ⟨done.valid, done.fine, done.future, by simp⟩
      case isTrue some =>
        split at run
        · cases run
        case _ t called =>
          have done : s.Done record later t.toFilter := haveData_returned later called inside valid
          cases run
          exact ⟨done.valid, done.fine, done.future, by simp⟩
        case _ t called =>
          have found : s.Found record later t := haveData_returned later called inside valid
          obtain ⟨⟨filter', rest⟩, run', same⟩ := Option.map_eq_some_iff.mp run
          obtain ⟨rfl, rfl⟩ := Prod.mk.inj same
          obtain ⟨valid', fine, future, fragmentsInside⟩ := ih run' found.inside found.valid
          refine ⟨valid', found.fine.trans fine, fun good => ?_, ?_⟩
          · rw [found.future (fine.mpr good), List.flatMap_cons, List.append_assoc]
            congr 1
            exact future good
          · rintro f (_ | ⟨_, rest⟩)
            · exact found.fragment
            · exact fragmentsInside f ‹_›

theorem blockLoop_terminates {record : List UInt8} (later : List UInt8) {fuel calls : ℕ} {s : Scan}
    (inside : s.At record) (valid : s.error = false → s.Valid)
    (fine : s.toFilter.Fine (s.stream record later)) (enough : s.rawLen < fuel)
    (enoughCalls : s.rawLen < calls) : ∃ result, blockLoop fuel record calls s = some result := by
  induction calls generalizing s with
  | zero => exact absurd inside.rawLen (by omega)
  | succ calls ih =>
      obtain ⟨⟨t, found⟩, called⟩ := haveData_terminates later inside valid fine enough
      rw [blockLoop, called]
      split
      · cases found with
        | false => exact ⟨_, rfl⟩
        | true =>
            have found : s.Found record later t := haveData_returned later called inside valid
            have shorter := found.shorter
            obtain ⟨result, run⟩ :=
              ih found.inside found.valid (found.fine.mp fine) (by dsimp only; omega)
              (by dsimp only; omega)
            dsimp only
            rw [run]
            exact ⟨_, rfl⟩
      · exact ⟨_, rfl⟩

theorem blockLoop_more {record : List UInt8} {fuel calls more moreCalls : ℕ} (le : fuel ≤ more)
    (leCalls : calls ≤ moreCalls) {s : Scan} {result : Filter × List Fragment}
    (run : blockLoop fuel record calls s = some result) :
    blockLoop more record moreCalls s = some result := by
  induction calls generalizing s moreCalls result with
  | zero => cases run
  | succ calls ih =>
      obtain ⟨moreCalls, rfl⟩ : ∃ less, moreCalls = less + 1 := ⟨moreCalls - 1, by omega⟩
      rw [blockLoop] at run ⊢
      split
      case isFalse stop => rwa [if_neg stop] at run
      case isTrue going =>
        rw [if_pos going] at run
        split at run
        · cases run
        case _ t called => rwa [haveData_more le called]
        case _ t called =>
          obtain ⟨rest, run', same⟩ := Option.map_eq_some_iff.mp run
          rw [haveData_more le called]
          dsimp only
          rw [ih (by omega) run']
          exact congrArg some same

/-! ## All records -/

theorem start_at (filter : Filter) (record : List UInt8) :
    Scan.At record ⟨filter, 0, record.length, 0⟩ :=
  ⟨le_refl 0, Int.natCast_nonneg _, zero_add _⟩

theorem start_stream (filter : Filter) (record later : List UInt8) :
    Scan.stream record later ⟨filter, 0, record.length, 0⟩ = record ++ later := rfl

theorem processRecords_spec {fuel : ℕ} {filter filter' : Filter} {records : List (List UInt8)}
    {fragments : List Fragment}
    (run : processRecords fuel filter records = some (filter', fragments))
    (valid : filter.error = false → filter.Valid) :
    filter.Fine records.flatten ∧ filter.future records.flatten = fragments.flatMap Fragment.bytes ∧
      ∀ f ∈ fragments, f.Inside := by
  induction records generalizing filter fragments with
  | nil =>
      cases run
      exact ⟨Filter.fine_nil valid, Filter.future_nil valid, by simp⟩
  | cons record records ih =>
      rw [processRecords] at run
      obtain ⟨⟨middle, first⟩, block, run⟩ := Option.bind_eq_some_iff.mp run
      obtain ⟨⟨last, rest⟩, others, same⟩ := Option.bind_eq_some_iff.mp run
      cases same
      obtain ⟨valid', fine, future, inside⟩ :=
        blockLoop_spec records.flatten block (start_at filter record) valid
      obtain ⟨fine', future', inside'⟩ := ih others valid'
      rw [start_stream] at fine future
      rw [List.flatten_cons, List.flatMap_append]
      refine ⟨fine.mpr fine', ?_, ?_⟩
      · rw [future fine', future']
      · intro f either
        rcases List.mem_append.mp either with here | there
        · exact inside f here
        · exact inside' f there

theorem processRecords_terminates {fuel : ℕ} {filter : Filter} {records : List (List UInt8)}
    (valid : filter.error = false → filter.Valid) (fine : filter.Fine records.flatten)
    (enough : ∀ record ∈ records, record.length < fuel) :
    ∃ result, processRecords fuel filter records = some result := by
  induction records generalizing filter with
  | nil => exact ⟨_, rfl⟩
  | cons record records ih =>
      have here := enough record List.mem_cons_self
      obtain ⟨⟨middle, first⟩, block⟩ :=
        blockLoop_terminates records.flatten (start_at filter record) valid fine
        (show (record.length : ℤ) < fuel by omega) (show (record.length : ℤ) < fuel by omega)
      obtain ⟨valid', fine', -, -⟩ :=
        blockLoop_spec records.flatten block (start_at filter record) valid
      obtain ⟨⟨last, rest⟩, run⟩ :=
        ih valid' (fine'.mp fine) fun record there => enough record (List.mem_cons_of_mem _ there)
      have called : processWin32BackupAPIBlock fuel filter record = some (middle, first) := block
      refine ⟨(last, first ++ rest), ?_⟩
      rw [processRecords, called]
      dsimp only [Option.bind_eq_bind, Option.bind_some]
      rw [run]
      rfl

theorem processRecords_more {fuel more : ℕ} (le : fuel ≤ more) {filter : Filter}
    {records : List (List UInt8)} {result : Filter × List Fragment}
    (run : processRecords fuel filter records = some result) :
    processRecords more filter records = some result := by
  induction records generalizing filter result with
  | nil => exact run
  | cons record records ih =>
      rw [processRecords] at run ⊢
      obtain ⟨⟨middle, first⟩, block, run⟩ := Option.bind_eq_some_iff.mp run
      obtain ⟨⟨last, rest⟩, others, same⟩ := Option.bind_eq_some_iff.mp run
      have called : processWin32BackupAPIBlock more filter record = some (middle, first) :=
        blockLoop_more le le block
      rw [called]
      dsimp only [Option.bind_eq_bind, Option.bind_some]
      rw [ih others]
      exact same

/-! ## Well formed streams -/

theorem signed_small {bits n : ℕ} (small : n < 2 ^ (bits - 1)) : signed bits n = n := if_pos small

theorem field_number (before digits after : List UInt8) {start width : ℕ}
    (start' : before.length = start) (width' : digits.length = width) :
    field (before ++ (digits ++ after)) start width = signed (8 * width) (number digits.reverse) := by
  rw [field, ← start', List.drop_left, ← width', List.take_left]

theorem SubStream.header_whole (sub : SubStream) :
    sub.headerBytes.length = WIN32_STREAM_HEADER_SIZE := by
  simp only [headerBytes, List.length_append, littleEndian_length]
  rfl

theorem signed_eq_one {n : ℕ} (small : n < 2 ^ 32) : signed 32 n = 1 ↔ n = 1 := by
  rw [signed]
  split <;> omega

theorem SubStream.dwStreamId (sub : SubStream) :
    Win32Filter.dwStreamId sub.headerBytes = WIN32_BACKUP_DATA ↔ sub.streamId = 1 := by
  have bits := sub.streamId.toNat_lt
  have first : Win32Filter.dwStreamId sub.headerBytes =
      signed (8 * 4) (number (littleEndian 4 sub.streamId.toNat).reverse) :=
    field_number [] _ _ rfl (littleEndian_length 4 _)
  rw [first, number_littleEndian, Nat.mod_eq_of_lt (lt_of_lt_of_eq bits (by norm_num))]
  refine (signed_eq_one bits).trans ?_
  rw [← UInt32.toNat_inj]
  rfl

theorem SubStream.size (sub : SubStream) : Win32Filter.size sub.headerBytes = sub.payload.length := by
  have third := field_number (littleEndian 4 sub.streamId.toNat ++ littleEndian 4 sub.attributes.toNat)
    (littleEndian 8 sub.payload.length) (littleEndian 4 sub.name.length)
    (by rw [List.length_append, littleEndian_length, littleEndian_length]) (littleEndian_length 8 _)
  rw [List.append_assoc, number_littleEndian, Nat.mod_eq_of_lt (lt_trans sub.payloadFits (by norm_num)),
    signed_small sub.payloadFits] at third
  exact third

theorem SubStream.dwStreamNameSize (sub : SubStream) :
    Win32Filter.dwStreamNameSize sub.headerBytes = sub.name.length := by
  have before : (littleEndian 4 sub.streamId.toNat ++ (littleEndian 4 sub.attributes.toNat ++
      littleEndian 8 sub.payload.length)).length = 16 := by
    rw [List.length_append, List.length_append, littleEndian_length, littleEndian_length,
      littleEndian_length]
  have fourth := field_number _ (littleEndian 4 sub.name.length) [] before (littleEndian_length 4 _)
  rw [List.append_assoc, List.append_assoc, List.append_nil, number_littleEndian,
    Nat.mod_eq_of_lt (lt_trans sub.nameFits (by norm_num)), signed_small sub.nameFits] at fourth
  exact fourth

theorem dataOf_subs (subs : List SubStream) :
    dataOf (subs.flatMap SubStream.bytes) = subs.flatMap SubStream.data := by
  induction subs with
  | nil => exact dataOf_short (Nat.zero_le _)
  | cons sub subs ih =>
      have sum : ((sub.name.length : ℤ) + sub.payload.length).toNat =
          (sub.name ++ sub.payload).length := by
        rw [List.length_append]
        omega
      rw [List.flatMap_cons, List.flatMap_cons, SubStream.bytes, List.append_assoc,
        dataOf_append sub.header_whole, sub.size, sub.dwStreamNameSize, if_neg (by omega), ← ih,
        sum, List.drop_left, Int.toNat_natCast, Int.toNat_natCast, List.append_assoc,
        List.drop_left, List.take_left, SubStream.data]
      congr 1
      simp only [sub.dwStreamId]

/-! ## The filter's law -/

theorem init_valid (header : Header) : (init header).Valid where
  whole := header.property
  partly := Nat.zero_lt_succ 19
  data := le_refl 0
  between _ := rfl

theorem init_fine (header : Header) (stream : List UInt8) : (init header).Fine stream ↔ Fits stream :=
  (Filter.fine_iff (f := init header) rfl rfl rfl rfl stream).trans
    ⟨fun fine => fine.2, fun fits => ⟨fun negative => absurd negative (lt_irrefl 0), fits⟩⟩

theorem init_future (header : Header) (stream : List UInt8) :
    (init header).future stream = dataOf stream :=
  Filter.future_eq (f := init header) rfl rfl rfl rfl stream

theorem law_iff_fits (header : Header) (records : List (List UInt8)) :
    Law header records ↔ Fits records.flatten := by
  constructor
  · rintro ⟨filter, fragments, ⟨enough, run⟩, -, -⟩
    exact (init_fine header _).mp
      (processRecords_spec (run enough (le_refl _)) fun _ => init_valid header).1
  · intro fits
    have fine := (init_fine header _).mpr fits
    obtain ⟨⟨filter, fragments⟩, run⟩ :
        ∃ result, processRecords (records.flatten.length + 1) (init header) records = some result :=
      processRecords_terminates (fun _ => init_valid header) fine fun record there =>
        Nat.lt_succ_of_le (List.sublist_flatten_of_mem there).length_le
    obtain ⟨-, future, inside⟩ := processRecords_spec run fun _ => init_valid header
    refine ⟨filter, fragments, ⟨_, fun fuel enough => processRecords_more enough run⟩, inside,
      fun subs stream => ?_⟩
    rw [← future, init_future, stream, dataOf_subs]

/-- A header whose sizes are too large together, and one byte behind it. -/
def overlong : List UInt8 :=
  [2, 0, 0, 0, 0, 0, 0, 0, 255, 255, 255, 255, 255, 255, 255, 127, 1, 0, 0, 0, 0]

theorem overlong_loops : ¬ Law ⟨List.replicate 20 0, rfl⟩ [overlong] := by
  rintro ⟨filter, fragments, ⟨enough, run⟩, -, -⟩
  have fits := (init_fine _ _).mp (processRecords_spec (run enough (le_refl _)) fun _ => init_valid _).1
  rw [Fits, if_neg (by decide), if_neg (by decide +kernel)] at fits
  exact absurd fits.1 (by decide +kernel)

end Bacula.Win32Filter
