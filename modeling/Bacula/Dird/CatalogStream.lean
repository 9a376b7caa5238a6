import Bacula.Dird.AttributeRecord

/-! The attributes and digests of a job in the catalog: one record for each file, in the order of the
messages, unless the name of a file starts with a blank. -/
namespace Bacula.Catreq
open Scan ByteCodec

/-- A digest that was sent. -/
structure Digest where
  stream : Int32
  value : List UInt8
  known : cryptoDigestStreamType stream ≠ .none
  sized : value.length = (cryptoDigestStreamType stream).size

/-- An attribute record of a job, with the restore objects and the digest that follow it. -/
structure File where
  volSessionId : UInt32
  volSessionTime : UInt32
  fileIndex : Int32
  positive : 0 < fileIndex
  stream : Int32
  attributes : stream = STREAM_UNIX_ATTRIBUTES ∨ stream = STREAM_UNIX_ATTRIBUTES_EX
  recordIndex : ℕ
  type : FT
  name : List UInt8
  attribs : List UInt8
  link : List UInt8
  attribsEx : List UInt8
  name_terminated : 0 ∉ name
  attribs_terminated : 0 ∉ attribs
  link_terminated : 0 ∉ link
  attribsEx_terminated : 0 ∉ attribsEx
  delta : List UInt8
  objects : List (Int32 × List UInt8)
  digest : Option Digest

def File.message (jobId : ℕ) (f : File) (fileIndex stream : Int32) (data : List UInt8) : List UInt8 :=
  dirUpdateFileAttributes jobId f.volSessionId f.volSessionTime fileIndex stream data

def File.messages (jobId : ℕ) (f : File) : List (List UInt8) :=
  f.message jobId f.fileIndex f.stream
      (SendAttributes.attributesRecord f.recordIndex f.type f.name f.attribs f.link f.attribsEx
        f.delta) ::
    (f.objects.map fun object => f.message jobId object.1 STREAM_RESTORE_OBJECT object.2) ++
    f.digest.toList.map fun digest => f.message jobId f.fileIndex digest.stream digest.value

/-- What the catalog keeps of a file. -/
structure FileRow where
  name : List UInt8
  attribs : List UInt8
  fileIndex : Int32
  digest : Option (List UInt8)
  deriving DecidableEq

def AttrDbr.row (ar : AttrDbr) : FileRow := ⟨ar.fname, ar.attr, ar.fileIndex, ar.digest⟩

/-- What it should keep. -/
def File.row (f : File) : FileRow :=
  ⟨f.name, f.attribs, if f.type = .DELETED then -f.fileIndex else f.fileIndex,
    f.digest.map fun digest => base64 digest.value⟩

def updateAttributes (jcr : Jcr) (messages : List (List UInt8)) : Except Fault Jcr :=
  messages.foldlM updateAttribute jcr

/-- The records that are in the catalog when the cached attribute is flushed. -/
def Jcr.rows (jcr : Jcr) : List FileRow := (flushFileRecords jcr).created.map AttrDbr.row

theorem rows_of_cached {jcr : Jcr} (cached : jcr.cachedAttribute = true) :
    jcr.rows = jcr.created.map AttrDbr.row ++ [jcr.ar.row] := by
  rw [Jcr.rows, flushFileRecords, flushCached, cached]
  exact List.map_append

theorem rows_of_flushed {jcr : Jcr} (flushed : jcr.cachedAttribute = false) :
    jcr.rows = jcr.created.map AttrDbr.row := by
  rw [Jcr.rows, flushFileRecords, flushCached, flushed]
  rfl

/-! ## The messages of a file -/

/-- What restore objects leave alone. -/
structure SameFile (jcr jcr' : Jcr) : Prop where
  ar : jcr'.ar = jcr.ar
  cachedAttribute : jcr'.cachedAttribute = jcr.cachedAttribute
  created : jcr'.created = jcr.created

theorem SameFile.rows {jcr jcr' : Jcr} (same : SameFile jcr jcr') : jcr'.rows = jcr.rows := by
  cases cached : jcr.cachedAttribute with
  | true => rw [rows_of_cached (same.cachedAttribute.trans cached), rows_of_cached cached,
      same.created, same.ar]
  | false => rw [rows_of_flushed (same.cachedAttribute.trans cached), rows_of_flushed cached,
      same.created]

theorem updateAttribute_object (jcr : Jcr) (jobId : ℕ) (volSessionId volSessionTime : UInt32)
    (fileIndex : Int32) (data : List UInt8) :
    ∃ jcr', updateAttribute jcr (dirUpdateFileAttributes jobId volSessionId volSessionTime fileIndex
      STREAM_RESTORE_OBJECT data) = .ok jcr' ∧ SameFile jcr jcr' := by
  rw [updateAttribute, scanMessage_run, ok_bind]
  exact ⟨_, rfl, rfl, rfl, rfl⟩

theorem updateAttributes_objects (jobId : ℕ) (f : File) (objects : List (Int32 × List UInt8))
    (jcr : Jcr) :
    ∃ jcr', updateAttributes jcr
      (objects.map fun object => f.message jobId object.1 STREAM_RESTORE_OBJECT object.2) =
      .ok jcr' ∧ SameFile jcr jcr' := by
  induction objects generalizing jcr with
  | nil => exact ⟨jcr, rfl, rfl, rfl, rfl⟩
  | cons object objects ih =>
      obtain ⟨middle, first, same⟩ :=
        updateAttribute_object jcr jobId f.volSessionId f.volSessionTime object.1 object.2
      obtain ⟨jcr', rest, same'⟩ := ih middle
      refine ⟨jcr', ?_, same'.ar.trans same.ar, same'.cachedAttribute.trans same.cachedAttribute,
        same'.created.trans same.created⟩
      rw [List.map_cons, updateAttributes, List.foldlM_cons, File.message, first, ok_bind]
      exact rest

theorem neg_of_pos {x : Int32} (positive : 0 < x) : -x < 0 := by
  rw [Int32.lt_iff_toInt_lt] at positive ⊢
  have top := x.toInt_lt
  rw [Int32.toInt_neg]
  change 0 < x.toInt at positive
  change (-x.toInt).bmod (2 ^ 32) < 0
  rw [Int.bmod_eq_of_le (by omega) (by omega)]
  omega

/-- The digest goes to the cached record of the same file. -/
theorem updateAttribute_digest {jcr : Jcr} (jobId : ℕ) (f : File) (digest : Digest)
    (cached : jcr.cachedAttribute = true)
    (same : jcr.ar.fileIndex = if f.type = .DELETED then -f.fileIndex else f.fileIndex) :
    ∃ jcr', updateAttribute jcr (f.message jobId f.fileIndex digest.stream digest.value) = .ok jcr' ∧
      jcr'.cachedAttribute = false ∧
      jcr'.created.map AttrDbr.row =
        jcr.created.map AttrDbr.row ++ [{ jcr.ar.row with digest := some (base64 digest.value) }] := by
  have notAttributes :
      ¬ (digest.stream = STREAM_UNIX_ATTRIBUTES ∨ digest.stream = STREAM_UNIX_ATTRIBUTES_EX) := by
    rintro (eq | eq) <;> exact digest.known (by rw [eq]; rfl)
  have notObject : digest.stream ≠ STREAM_RESTORE_OBJECT := fun eq => digest.known (by rw [eq]; rfl)
  have index : jcr.ar.fileIndex = if jcr.ar.fileIndex < 0 then -f.fileIndex else f.fileIndex := by
    rw [same]
    by_cases deleted : f.type = .DELETED
    · rw [if_pos deleted, if_pos (neg_of_pos f.positive)]
    · rw [if_neg deleted, if_neg (Int32.lt_asymm f.positive)]
  have size : (base64 digest.value).length < base64Size CRYPTO_DIGEST_MAX_SIZE := by
    have short : (cryptoDigestStreamType digest.stream).size ≤ 64 := by
      cases cryptoDigestStreamType digest.stream <;> decide
    rw [base64_length, digest.sized, base64Size, CRYPTO_DIGEST_MAX_SIZE]
    omega
  have read : (bytes (cryptoDigestStreamType digest.stream).size).run digest.value =
      .ok (digest.value, []) := by
    have whole := bytes_append digest.value [] _ digest.sized
    rwa [List.append_nil] at whole
  rw [updateAttribute, File.message, scanMessage_run, ok_bind]
  dsimp only
  rw [if_neg notAttributes, if_neg notObject, if_pos digest.known, read, ok_bind]
  refine ⟨updateDigest jcr _ digest.value, rfl, ?_⟩
  rw [updateDigest]
  dsimp only
  rw [if_neg (not_not.mpr index), if_pos cached, binToBase64_eq size]
  exact ⟨rfl, List.map_append⟩

/-- The catalog keeps a file under its name without the blanks in front. -/
theorem updateAttributes_file (jobId : ℕ) (f : File) (jcr : Jcr) :
    ∃ jcr', updateAttributes jcr (f.messages jobId) = .ok jcr' ∧
      jcr'.rows = jcr.rows ++ [{ f.row with name := Scan.skipSpaces f.name }] := by
  let record :=
    SendAttributes.attributesRecord f.recordIndex f.type f.name f.attribs f.link f.attribsEx f.delta
  have first : updateAttribute jcr (f.message jobId f.fileIndex f.stream record) =
      .ok (cacheAttributes jcr
      ⟨f.volSessionId, f.volSessionTime, f.fileIndex, f.stream, UInt32.ofNat record.length⟩ record) :=
    updateAttribute_attributes jcr jobId f.volSessionId f.volSessionTime f.fileIndex f.attributes record
  rw [cacheAttributes_attributesRecord f.name_terminated f.attribs_terminated f.link_terminated
    f.attribsEx_terminated] at first
  generalize cachedJcr : ({ flushCached jcr with ar := _, cachedAttribute := true } : Jcr) =
      middle at first
  have cached : middle.cachedAttribute = true := by rw [← cachedJcr]
  have index : middle.ar.fileIndex =
      if f.type = .DELETED then -f.fileIndex else f.fileIndex := by rw [← cachedJcr]
  have row : middle.ar.row =
      ⟨Scan.skipSpaces f.name, f.attribs, if f.type = .DELETED then -f.fileIndex else f.fileIndex,
        none⟩ := by
    rw [← cachedJcr]
    rfl
  have created : middle.created.map AttrDbr.row = jcr.rows := by
    rw [← cachedJcr]
    rfl
  obtain ⟨behind, objects, same⟩ := updateAttributes_objects jobId f f.objects middle
  have start : updateAttributes jcr (f.messages jobId) = updateAttributes behind
      (f.digest.toList.map fun digest => f.message jobId f.fileIndex digest.stream digest.value) := by
    rw [File.messages, List.cons_append, updateAttributes, List.foldlM_cons, first, ok_bind,
      List.foldlM_append]
    have := objects
    rw [updateAttributes] at this
    rw [this, ok_bind]
    rfl
  rw [start]
  cases digest : f.digest with
  | none =>
      refine ⟨behind, rfl, ?_⟩
      rw [same.rows, rows_of_cached cached, created, row, File.row, digest]
      rfl
  | some sent =>
      obtain ⟨jcr', last, flushed, rows⟩ :=
        updateAttribute_digest jobId f sent (same.cachedAttribute.trans cached)
        (by rw [same.ar, index])
      refine ⟨jcr', ?_, ?_⟩
      · rw [Option.toList_some, List.map_singleton, updateAttributes, List.foldlM_cons, last, ok_bind]
        rfl
      · rw [rows_of_flushed flushed, rows, same.created, created, same.ar, row, File.row, digest]
        rfl

/-! ## The messages of a job -/

/-- Restore objects can be sent between the files, too. -/
inductive SentItem where
  | file (f : File)
  | object (volSessionId volSessionTime : UInt32) (fileIndex : Int32) (data : List UInt8)

def SentItem.messages (jobId : ℕ) : SentItem → List (List UInt8)
  | file f => f.messages jobId
  | object volSessionId volSessionTime fileIndex data =>
      [dirUpdateFileAttributes jobId volSessionId volSessionTime fileIndex STREAM_RESTORE_OBJECT data]

def SentItem.files : SentItem → List File
  | file f => [f]
  | object .. => []

theorem updateAttributes_items (jobId : ℕ) (items : List SentItem) (jcr : Jcr) :
    ∃ jcr', updateAttributes jcr (items.flatMap (SentItem.messages jobId)) = .ok jcr' ∧
      jcr'.rows = jcr.rows ++ (items.flatMap SentItem.files).map fun f =>
        { f.row with name := Scan.skipSpaces f.name } := by
  induction items generalizing jcr with
  | nil => exact ⟨jcr, rfl, (List.append_nil _).symm⟩
  | cons item items ih =>
      have first : ∃ middle, updateAttributes jcr (item.messages jobId) = .ok middle ∧
          middle.rows = jcr.rows ++ item.files.map fun f =>
            { f.row with name := Scan.skipSpaces f.name } := by
        cases item with
        | file f => exact updateAttributes_file jobId f jcr
        | object volSessionId volSessionTime fileIndex data =>
            obtain ⟨middle, step, same⟩ :=
              updateAttribute_object jcr jobId volSessionId volSessionTime fileIndex data
            refine ⟨middle, ?_, ?_⟩
            · rw [SentItem.messages, updateAttributes, List.foldlM_cons, step, ok_bind]
              rfl
            · rw [same.rows, SentItem.files, List.map_nil, List.append_nil]
      obtain ⟨middle, step, rows⟩ := first
      obtain ⟨jcr', rest, rows'⟩ := ih middle
      refine ⟨jcr', ?_, ?_⟩
      · rw [updateAttributes] at step
        rw [List.flatMap_cons, updateAttributes, List.foldlM_append, step, ok_bind]
        exact rest
      · rw [rows', rows, List.append_assoc, List.flatMap_cons, List.map_append]

theorem skipSpaces_eq_self_iff {name : List UInt8} :
    Scan.skipSpaces name = name ↔ ∀ b, name.head? = some b → bIsSpace b = false := by
  constructor
  · intro same b first
    cases name with
    | nil => cases first
    | cons c name =>
        obtain rfl := Option.some_inj.mp first
        cases space : bIsSpace c with
        | false => rfl
        | true =>
            rw [Scan.skipSpaces, List.dropWhile_cons, space] at same
            have := congrArg List.length same
            have shorter := (List.dropWhile_suffix bIsSpace (l := name)).length_le
            simp only [if_true, List.length_cons] at this
            omega
  · exact skipSpaces_eq_self

/-- The catalog holds what was sent exactly when no name starts with a blank. -/
theorem catalog_stream_iff (jobId : ℕ) (items : List SentItem) (jcr : Jcr)
    (flushed : jcr.cachedAttribute = false) (empty : jcr.created = []) :
    (∃ jcr', updateAttributes jcr (items.flatMap (SentItem.messages jobId)) = .ok jcr' ∧
        (flushFileRecords jcr').created.map AttrDbr.row = (items.flatMap SentItem.files).map File.row) ↔
      ∀ f ∈ items.flatMap SentItem.files, ∀ b, f.name.head? = some b → bIsSpace b = false := by
  obtain ⟨jcr', run, rows⟩ := updateAttributes_items jobId items jcr
  have start : jcr.rows = [] := by rw [rows_of_flushed flushed, empty, List.map_nil]
  rw [start, List.nil_append] at rows
  have same (f : File) : ({ f.row with name := Scan.skipSpaces f.name } : FileRow) = f.row ↔
      ∀ b, f.name.head? = some b → bIsSpace b = false := by
    rw [← skipSpaces_eq_self_iff]
    constructor
    · exact fun eq => congrArg FileRow.name eq
    · intro eq
      rw [eq]
      rfl
  have all : jcr'.rows = (items.flatMap SentItem.files).map File.row ↔
      ∀ f ∈ items.flatMap SentItem.files, ∀ b, f.name.head? = some b → bIsSpace b = false := by
    rw [rows, List.map_inj_left]
    exact forall₂_congr fun f _ => same f
  rw [← all]
  constructor
  · rintro ⟨other, run', eq⟩
    obtain rfl := Except.ok.inj (run.symm.trans run')
    exact eq
  · exact fun eq => ⟨jcr', run, eq⟩

theorem nil_terminated : (0 : UInt8) ∉ ([] : List UInt8) := List.not_mem_nil

/-- A regular file without a digest. -/
def plainFile (name : List UInt8) (name_terminated : 0 ∉ name) : File where
  volSessionId := 1
  volSessionTime := 2
  fileIndex := 1
  positive := by decide
  stream := STREAM_UNIX_ATTRIBUTES
  attributes := .inl rfl
  recordIndex := 1
  type := .REG
  name := name
  attribs := ascii "P0A"
  link := []
  attribsEx := []
  name_terminated := name_terminated
  attribs_terminated := by decide
  link_terminated := nil_terminated
  attribsEx_terminated := nil_terminated
  delta := ascii "0"
  objects := []
  digest := none

/-- A job before its first message. -/
def newJcr : Jcr where
  jobId := 7
  wjcr := none
  ar := ⟨[], none, [], 0, 0, 0, 0, 0, none, .none⟩
  fileId := 0
  cachedAttribute := false
  created := []
  objects := []
  digests := []
  fatal := []

/-- An MD5 digest. -/
def md5Digest : Digest where
  stream := 3
  known := by decide
  value := List.replicate 16 7
  sized := by decide

/-- A directory, and a file with a digest. -/
def twoFiles : List SentItem :=
  [.file (plainFile (ascii "/etc") (by decide)),
    .file { plainFile (ascii "/etc/hosts") (by decide) with
      fileIndex := 2, positive := by decide, digest := some md5Digest }]

theorem two_files_cataloged :
    ∃ jcr', updateAttributes newJcr (twoFiles.flatMap (SentItem.messages 7)) = .ok jcr' ∧
      (flushFileRecords jcr').created.map AttrDbr.row =
    (twoFiles.flatMap SentItem.files).map File.row := by
  refine (catalog_stream_iff 7 _ newJcr rfl rfl).mpr fun f inside b first => ?_
  rcases List.mem_cons.mp inside with rfl | inside
  · obtain rfl := Option.some_inj.mp first
    decide +kernel
  · obtain rfl := List.mem_singleton.mp inside
    obtain rfl := Option.some_inj.mp first
    decide +kernel

/-- The catalog has the name without its blank. -/
theorem leading_blank_lost :
    ∃ jcr', updateAttributes newJcr
        ([SentItem.file (plainFile (ascii " x") (by decide))].flatMap (SentItem.messages 7)) =
    .ok jcr' ∧
      (flushFileRecords jcr').created.map (fun ar => ar.row.name) = [ascii "x"] := by
  obtain ⟨jcr', run, rows⟩ :=
    updateAttributes_items 7 [.file (plainFile (ascii " x") (by decide))] newJcr
  refine ⟨jcr', run, ?_⟩
  have names := congrArg (List.map FileRow.name) rows
  rw [Jcr.rows, List.map_map] at names
  exact names.trans (by decide +kernel)

end Bacula.Catreq
