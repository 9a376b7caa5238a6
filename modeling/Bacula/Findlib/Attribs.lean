import Bacula.Lib.Base64

/-! The attributes of a file as text: `encode_stat` and `decode_stat` of `findlib/attribs.c`. -/
namespace Bacula.Attribs
open ByteCodec

/-- The fields of `struct stat` that are encoded. -/
inductive StatField where
  | dev | ino | mode | nlink | uid | gid | rdev | size | blksize | blocks | atime | mtime | ctime
  | flags
  | fattrs
  deriving DecidableEq, Repr

/-- An integer type of at most 64 bits. -/
structure IntType where
  signed : Bool
  width : ℕ
  fits : width ≤ 64

/-- The types of the fields, and what the build defines. -/
structure Platform where
  type : StatField → IntType
  haveChflags : Bool
  haveMingw : Bool

abbrev Stat (p : Platform) := (field : StatField) → BitVec (p.type field).width

/-- The conversion to `int64_t`. -/
def IntType.toInt64 (t : IntType) (value : BitVec t.width) : Int64 :=
  .ofBitVec (if t.signed then value.signExtend 64 else value.setWidth 64)

/-- `plug`: the conversion from `uint64_t` to the type of a field. -/
def plug {p : Platform} (stat : Stat p) (field : StatField) (val : Int64) : Stat p :=
  Function.update stat field (val.toBitVec.setWidth (p.type field).width)

/-- The fields from `st_dev` to `st_ctime`, in the order of the text. -/
def headFields : List StatField :=
  [.dev, .ino, .mode, .nlink, .uid, .gid, .rdev, .size, .blksize, .blocks, .atime, .mtime, .ctime]

/-- A field for which a MINGW build has a place holder only. -/
def Platform.placeHolder (p : Platform) (field : StatField) : Bool :=
  p.haveMingw && (field = .blksize || field = .blocks)

/-- The number that is output for a field. -/
def Platform.output (p : Platform) (stat : Stat p) (field : StatField) : Int64 :=
  if p.placeHolder field then 0 else (p.type field).toInt64 (stat field)

/-- `encode_stat`, with the end of the string. -/
def encodeStat {p : Platform} (stat : Stat p) (linkFI dataStream : Int32) : List UInt8 :=
  headFields.flatMap (fun field => toBase64 (p.output stat field) ++ [space]) ++
    (toBase64 linkFI.toInt64 ++ [space] ++
      (toBase64 (if p.haveChflags then (p.type .flags).toInt64 (stat .flags) else 0) ++ [space] ++
        (toBase64 dataStream.toInt64 ++
          ((if p.haveMingw then [space] ++ toBase64 ((p.type .fattrs).toInt64 (stat .fattrs))
            else []) ++ [0]))))

/-- `p += from_base64(&val, p)`. -/
def nextNumber : Decoder Int64 := fun text =>
  match fromBase64 text with
  | .error fault => .error fault
  | .ok (val, n) => .ok (val, text.drop n)

/-- `p++`. -/
def skip : Decoder Unit := fun text => .ok ((), text.drop 1)

/-- The test for another number: `*p == ' ' || (*p != 0 && *(p+1) == ' ')`. -/
def another : Decoder Bool := fun text =>
  match text with
  | [] => .error .readPastEnd
  | c :: rest =>
      if c = space then .ok (true, text)
      else if c = 0 then .ok (false, text)
      else match rest with
        | [] => .error .readPastEnd
        | d :: _ => .ok (decide (d = space), text)

/-- The fields in front of the optional numbers; `p++` stands between two of them. -/
def decodeFields {p : Platform} : List StatField → Stat p → Decoder (Stat p)
  | [], stat => pure stat
  | field :: rest, stat => do
      let val ← nextNumber
      let stat := if p.placeHolder field then stat else plug stat field val
      if rest = [] then pure stat
      else do
        skip
        decodeFields rest stat

structure DecodedStat (p : Platform) where
  stat : Stat p
  linkFI : Int32
  dataStream : Int32

/-- An optional number. -/
def optional : Decoder (Option Int64) := do
  if ← another then do
    skip
    let val ← nextNumber
    pure (some val)
  else pure none

/-- FreeBSD user flags. -/
def decodeFlags {p : Platform} (stat : Stat p) : Decoder (Stat p) := do
  let flags ← optional
  pure (if p.haveChflags then plug stat .flags (flags.getD 0) else stat)

/-- The file attributes of a MINGW build. -/
def decodeFattrs {p : Platform} (stat : Stat p) : Decoder (Stat p) :=
  if p.haveMingw then do
    let fattrs ← optional
    pure (plug stat .fattrs (fattrs.getD 0))
  else pure stat

/-- `decode_stat`; `statp` is the packet before. -/
def decodeStat {p : Platform} (statp : Stat p) : Decoder (DecodedStat p) := do
  let stat ← decodeFields headFields statp
  match ← optional with
  | none => pure ⟨stat, 0, 0⟩
  | some linkFI =>
      let stat ← decodeFlags stat
      let dataStream ← optional
      let stat ← decodeFattrs stat
      pure ⟨stat, linkFI.toInt32, (dataStream.getD 0).toInt32⟩

/-- What `decode_stat` makes of the packet: the encoded fields, and the other ones as they
were. -/
def restored {p : Platform} (statp stat : Stat p) : Stat p := fun field =>
  if p.placeHolder field || (field = .flags && !p.haveChflags) ||
      (field = .fattrs && !p.haveMingw) then statp field
  else stat field

theorem nextNumber_toBase64 (value : Int64) {stop : UInt8} (stops : stop = 0 ∨ stop = space)
    (rest : List UInt8) :
    nextNumber.run (toBase64 value ++ stop :: rest) = .ok (value, stop :: rest) := by
  unfold nextNumber
  change (match fromBase64 _ with | .error fault => _ | .ok (val, n) => _) = _
  rw [fromBase64_toBase64 value stops rest]
  simp only [List.drop_left]

theorem optional_toBase64 (value : Int64) {stop : UInt8} (stops : stop = 0 ∨ stop = space)
    (rest : List UInt8) :
    optional.run (space :: (toBase64 value ++ stop :: rest)) = .ok (some value, stop :: rest) := by
  have here (text : List UInt8) : another.run (space :: text) = .ok (true, space :: text) := by
    change another (space :: text) = _
    simp only [another, if_true]
  have skipped (text : List UInt8) : skip.run (space :: text) = .ok ((), text) := rfl
  rw [optional, run_bind_ok (here _), if_pos rfl, run_bind_ok (skipped _),
    run_bind_ok (nextNumber_toBase64 value stops rest)]
  rfl

theorem IntType.setWidth_toInt64 (t : IntType) (value : BitVec t.width) :
    (t.toInt64 value).toBitVec.setWidth t.width = value := by
  obtain ⟨signed, width, fits⟩ := t
  cases signed with
  | true =>
      change (value.signExtend 64).setWidth width = value
      ext i inside
      simp only [BitVec.getElem_setWidth, BitVec.getLsbD_signExtend]
      rw [decide_eq_true (by omega), if_pos inside, Bool.true_and]
      exact BitVec.getLsbD_eq_getElem inside
  | false =>
      change (value.setWidth 64).setWidth width = value
      rw [BitVec.setWidth_setWidth_of_le value fits, BitVec.setWidth_eq]

theorem plug_toInt64 {p : Platform} (statp stat : Stat p) (field : StatField) :
    plug statp field ((p.type field).toInt64 (stat field)) =
      Function.update statp field (stat field) := by
  rw [plug, IntType.setWidth_toInt64]

/-- The fields that are read take their encoded values. -/
theorem decodeFields_encoded {p : Platform} (stat : Stat p) {fields : List StatField}
    (some : fields ≠ []) (statp : Stat p) (rest : List UInt8) :
    (decodeFields fields statp).run
        (fields.flatMap (fun field => toBase64 (p.output stat field) ++ [space]) ++ rest) =
      .ok (fun field => if field ∈ fields ∧ p.placeHolder field = false then stat field
        else statp field, space :: rest) := by
  induction fields generalizing statp with
  | nil => exact absurd rfl some
  | cons field fields ih =>
      have plugged : (if p.placeHolder field then statp else
          plug statp field (p.output stat field)) =
          fun f => if f = field ∧ p.placeHolder f = false then stat f else statp f := by
        funext f
        unfold Platform.output
        cases holder : p.placeHolder field with
        | true =>
            rw [if_pos rfl, if_neg]
            rintro ⟨rfl, notHolder⟩
            rw [holder] at notHolder
            cases notHolder
        | false =>
            simp only [Bool.false_eq_true, if_false, plug_toInt64]
            by_cases same : f = field
            · subst same
              rw [Function.update_self, if_pos ⟨rfl, holder⟩]
            · rw [Function.update_of_ne same, if_neg fun both => same both.1]
      have number (behind : List UInt8) := nextNumber_toBase64 (p.output stat field)
        (Or.inr rfl) behind
      rw [List.flatMap_cons, List.append_assoc, List.append_assoc, List.singleton_append,
        decodeFields, run_bind_ok (number _)]
      simp only
      rw [plugged]
      cases fields with
      | nil =>
          rw [if_pos rfl, List.flatMap_nil, List.nil_append]
          simp only [List.mem_singleton]
          rfl
      | cons next more =>
          have skipped (behind : List UInt8) : skip.run (space :: behind) = .ok ((), behind) := rfl
          rw [if_neg (List.cons_ne_nil _ _), run_bind_ok (skipped _), ih (List.cons_ne_nil _ _)]
          congr 2
          funext f
          by_cases inside : f ∈ next :: more
          · simp only [inside, true_and, List.mem_cons_of_mem field inside]
            split
            · rfl
            · rename_i holder
              rw [if_neg fun both => holder both.2]
          · simp only [inside, false_and, if_false, List.mem_cons (b := field), or_false]

/-- The packet after all fields were plugged. -/
theorem restored_eq {p : Platform} {statp stat head : Stat p}
    (headIs : head = fun field =>
      if field ∈ headFields ∧ p.placeHolder field = false then stat field else statp field) :
    (if p.haveMingw then
        Function.update (if p.haveChflags then Function.update head .flags (stat .flags) else head)
          .fattrs (stat .fattrs)
      else if p.haveChflags then Function.update head .flags (stat .flags) else head) =
      restored statp stat := by
  subst headIs
  funext field
  unfold restored
  cases chflags : p.haveChflags <;> cases mingw : p.haveMingw <;> cases field <;>
    simp [mingw, headFields, Platform.placeHolder, Function.update]

theorem decodeFlags_encoded {p : Platform} (head stat : Stat p) {flags : Int64}
    (flagsIs : flags = if p.haveChflags then (p.type .flags).toInt64 (stat .flags) else 0)
    (rest : List UInt8) :
    (decodeFlags head).run (space :: (toBase64 flags ++ space :: rest)) =
      .ok (if p.haveChflags then Function.update head .flags (stat .flags) else head,
        space :: rest) := by
  rw [decodeFlags, run_bind_ok (optional_toBase64 flags (Or.inr rfl) rest), Option.getD_some,
    flagsIs]
  cases p.haveChflags with
  | false => rfl
  | true =>
      simp only [if_true, plug_toInt64]
      rfl

theorem decodeFattrs_encoded {p : Platform} (head stat : Stat p) :
    (decodeFattrs head).run ((if p.haveMingw then
        space :: toBase64 ((p.type .fattrs).toInt64 (stat .fattrs)) else []) ++ [0]) =
      .ok (if p.haveMingw then Function.update head .fattrs (stat .fattrs) else head, [0]) := by
  unfold decodeFattrs
  cases p.haveMingw with
  | false => rfl
  | true =>
      simp only [if_true, List.cons_append]
      rw [run_bind_ok (optional_toBase64 _ (Or.inl rfl) []), Option.getD_some, plug_toInt64]
      rfl

/-- The text of a packet is decoded to the packet. -/
theorem decodeStat_encodeStat {p : Platform} (statp stat : Stat p) (linkFI dataStream : Int32) :
    (decodeStat statp).run (encodeStat stat linkFI dataStream) =
      .ok (⟨restored statp stat, linkFI, dataStream⟩, [0]) := by
  generalize flagsIs : (if p.haveChflags then (p.type .flags).toInt64 (stat .flags) else 0) = flags
  generalize lastIs : (if p.haveMingw then
    space :: toBase64 ((p.type .fattrs).toInt64 (stat .fattrs)) else []) ++ [0] = last
  have text : encodeStat stat linkFI dataStream =
      headFields.flatMap (fun field => toBase64 (p.output stat field) ++ [space]) ++
        (toBase64 linkFI.toInt64 ++ space :: (toBase64 flags ++ space ::
          (toBase64 dataStream.toInt64 ++ last))) := by
    rw [encodeStat, flagsIs, ← lastIs]
    simp only [List.append_assoc, List.singleton_append]
  obtain ⟨stop, behind, stops, lastIs'⟩ : ∃ stop behind, (stop = 0 ∨ stop = space) ∧
      last = stop :: behind := by
    rw [← lastIs]
    cases p.haveMingw with
    | false => exact ⟨_, _, Or.inl rfl, rfl⟩
    | true => exact ⟨_, _, Or.inr rfl, rfl⟩
  have tail := decodeFattrs_encoded
    (if p.haveChflags then Function.update (fun field =>
      if field ∈ headFields ∧ p.placeHolder field = false then stat field else statp field)
        .flags (stat .flags)
      else fun field =>
        if field ∈ headFields ∧ p.placeHolder field = false then stat field else statp field) stat
  rw [lastIs, restored_eq rfl] at tail
  have some : headFields ≠ [] := List.cons_ne_nil _ _
  rw [text, decodeStat, run_bind_ok (decodeFields_encoded stat some statp _),
    run_bind_ok (optional_toBase64 _ (Or.inr rfl) _)]
  simp only
  rw [run_bind_ok (decodeFlags_encoded _ stat flagsIs.symm _), lastIs',
    run_bind_ok (optional_toBase64 _ stops _), ← lastIs', run_bind_ok tail, Option.getD_some]
  simp only [Int32.toInt32_toInt64]
  rfl

/-- Numbers and packets come back from their text, except what a build has no place for. -/
theorem attributes_roundTrip :
    (∀ (value : Int64) (rest : List UInt8),
      fromBase64 (toBase64 value ++ 0 :: rest) = .ok (value, (toBase64 value).length) ∧
      fromBase64 (toBase64 value ++ space :: rest) = .ok (value, (toBase64 value).length)) ∧
    ∀ (p : Platform) (statp stat : Stat p) (linkFI dataStream : Int32),
      (decodeStat statp).run (encodeStat stat linkFI dataStream) =
        .ok (⟨restored statp stat, linkFI, dataStream⟩, [0]) :=
  ⟨fun value rest => ⟨fromBase64_toBase64 value (Or.inl rfl) rest,
    fromBase64_toBase64 value (Or.inr rfl) rest⟩,
    fun _ statp stat linkFI dataStream => decodeStat_encodeStat statp stat linkFI dataStream⟩

/-- A MINGW build with fields of 32 bits. -/
def mingwPlatform : Platform where
  type := fun _ => ⟨false, 32, by decide⟩
  haveChflags := false
  haveMingw := true

theorem mingw_blksize_lost :
    ∃ decoded : DecodedStat mingwPlatform,
      (decodeStat (p := mingwPlatform) fun _ => 0).run
          (encodeStat (p := mingwPlatform) (fun _ => 4096) 7 2) = .ok (decoded, [0]) ∧
        decoded.stat .size = 4096 ∧ decoded.stat .blksize = 0 ∧ decoded.stat .blocks = 0 :=
  ⟨_, decodeStat_encodeStat _ _ 7 2, rfl, rfl, rfl⟩

end Bacula.Attribs
