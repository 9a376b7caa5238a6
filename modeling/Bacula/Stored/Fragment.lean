import Bacula.Stored.RecordRead

/-! A block is a sequence of fragments of records. Here is what a sequence of fragments
means, and that the reading routines compute this meaning. -/
namespace Bacula
open ByteCodec

/-- A record header with the data that follows it in its block. -/
structure Fragment where
  fileIndex : Int32
  stream : Int32
  len : ℕ
  chunk : List UInt8

namespace Fragment

def encode (f : Fragment) : List UInt8 := recordHeader f.fileIndex f.stream f.len ++ f.chunk

/-- The block ends before the data. -/
def Partial (f : Fragment) : Prop := f.chunk.length < f.len

instance (f : Fragment) : Decidable f.Partial := inferInstanceAs (Decidable (_ < _))

/-- A continuation has a negative stream. -/
def recordStream (f : Fragment) : Int32 := if f.stream < 0 then -f.stream else f.stream

/-- A begun record: its stream and its data so far. -/
abbrev Begun := Option (Int32 × List UInt8)

/-- The data that a fragment continues. -/
def sofar (f : Fragment) (begun : Begun) : List UInt8 :=
  if f.stream < 0 then (begun.map Prod.snd).getD [] else []

def data (f : Fragment) (begun : Begun) : List UInt8 := f.sofar begun ++ f.chunk

def next (f : Fragment) (begun : Begun) : Begun :=
  if f.Partial then some (f.recordStream, f.data begun) else none

/-- What the callback sees of a record. -/
structure Delivered where
  fileIndex : Int32
  stream : Int32
  dataLen : ℕ
  data : List UInt8
  complete : Bool
  deriving DecidableEq

/-- Complete records are delivered, and labels in every case. -/
def delivers (f : Fragment) (begun : Begun) : List Delivered :=
  let shown (complete : Bool) : Delivered :=
    ⟨f.fileIndex, f.recordStream, (f.data begun).length, f.data begun, complete⟩
  if f.Partial then if f.fileIndex < 0 then [shown false] else [] else [shown true]

/-- A fragment that can follow a begun record. -/
structure Follows (f : Fragment) (begun : Begun) : Prop where
  notEom : f.fileIndex ≠ EOM_LABEL
  short : f.len < MAX_BLOCK_LENGTH
  chunk : f.chunk.length ≤ f.len
  stream : f.stream < 0 → ∀ r, begun = some r → r.1 = -f.stream

/-- The meaning of a sequence of fragments: what is delivered, and what is begun after it. -/
inductive Assembles : Begun → List Fragment → List Delivered → Begun → Prop where
  | nil (begun : Begun) : Assembles begun [] [] begun
  | cons {f : Fragment} {rest : List Fragment} {ds : List Delivered} {begun after : Begun} :
      f.Follows begun → Assembles (f.next begun) rest ds after →
        Assembles begun (f :: rest) (f.delivers begun ++ ds) after

theorem Assembles.append {a b : List Fragment} {ds es : List Delivered} {p q r : Begun}
    (first : Assembles p a ds q) (second : Assembles q b es r) :
    Assembles p (a ++ b) (ds ++ es) r := by
  induction first with
  | nil begun => exact second
  | cons follows rest ih =>
      rw [List.cons_append, List.append_assoc]
      exact .cons follows (ih second)

/-- Only the last fragment of a block can be partial. -/
def Cut : List Fragment → Prop
  | [] => True
  | f :: rest => (f.Partial → rest = []) ∧ Cut rest

def payload (fs : List Fragment) : List UInt8 := fs.flatMap encode

end Fragment

open Fragment

@[simp] theorem recordHeader_length (fileIndex stream : Int32) (len : ℕ) :
    (recordHeader fileIndex stream len).length = WRITE_RECHDR_LENGTH := by
  simp only [recordHeader, List.length_append, serialInt32_length, serialUint32_length]
  rfl

theorem Fragment.encode_length (f : Fragment) :
    f.encode.length = WRITE_RECHDR_LENGTH + f.chunk.length := by
  rw [encode, List.length_append, recordHeader_length]

/-- What is left to read of a block of a session. -/
structure DevBlock.Unread (block : DevBlock) (key : SessionKey) (bytes : List UInt8) : Prop where
  version : block.blockVer = 2
  key : block.key = key
  binbuf : block.binbuf = bytes.length
  bytes : ∃ behind, block.buf.drop block.bufp = bytes ++ behind

theorem DevBlock.Unread.advance {block : DevBlock} {key : SessionKey} {a b : List UInt8}
    (unread : block.Unread key (a ++ b)) {n : ℕ} (length : a.length = n) :
    (block.advance n).Unread key b ∧ block.peek n = a := by
  obtain ⟨behind, bytes⟩ := unread.bytes
  have size := unread.binbuf
  rw [List.length_append] at size
  constructor
  · refine ⟨unread.version, unread.key, ?_, behind, ?_⟩
    · simp only [DevBlock.advance]
      omega
    · simp only [DevBlock.advance]
      rw [← List.drop_drop, bytes, List.append_assoc, List.drop_left' length]
  · rw [DevBlock.peek, bytes, List.append_assoc, List.take_left' length]

theorem DevBlock.Unread.noteIndex {block : DevBlock} {key : SessionKey} {bytes : List UInt8}
    (unread : block.Unread key bytes) (fileIndex : Int32) :
    (block.noteIndex fileIndex).Unread key bytes := by
  unfold DevBlock.noteIndex
  split
  · exact ⟨unread.version, unread.key, unread.binbuf, unread.bytes⟩
  · exact unread

/-- The record of a session between two reads. -/
structure DevRecord.Holds (rec : DevRecord) (key : SessionKey) (begun : Begun) : Prop where
  ready : rec.rstate = .none ∨ rec.rstate = .header
  fresh : begun = none → rec.remainder = 0
  begun : ∀ r, begun = some r → rec.remainder ≠ 0 ∧ rec.key = key ∧ rec.stream = r.1 ∧
    rec.dataLen = r.2.length ∧ rec.data.take rec.dataLen = r.2

/-- A record whose header was read: its data so far, and room for the data that follows. -/
structure DevRecord.Accepts (rec : DevRecord) (key : SessionKey) (f : Fragment) (begun : Begun) :
    Prop where
  key : rec.key = key
  fileIndex : rec.fileIndex = f.fileIndex
  stream : rec.stream = f.recordStream
  dataLen : rec.dataLen = (f.sofar begun).length
  data : rec.data.take rec.dataLen = f.sofar begun
  dataBytes : rec.dataBytes = f.len
  partialRecord : rec.stateBits.partialRecord = false
  blockEmpty : rec.stateBits.blockEmpty = false

theorem DevRecord.Accepts.dataLen_le {rec : DevRecord} {key : SessionKey} {f : Fragment}
    {begun : Begun} (accepts : rec.Accepts key f begun) : rec.dataLen ≤ rec.data.length := by
  have length := congrArg List.length accepts.data
  rw [List.length_take, ← accepts.dataLen] at length
  omega

theorem DevRecord.Holds.acceptHead {rec : DevRecord} {key : SessionKey} {begun : Begun}
    {f : Fragment} (holds : rec.Holds key begun) (follows : f.Follows begun)
    (dataBytes : rec.dataBytes = f.len) (partialRecord : rec.stateBits.partialRecord = false)
    (blockEmpty : rec.stateBits.blockEmpty = false) :
    ∃ rec', rec.acceptHead ⟨key, f.fileIndex, f.stream, UInt32.ofNat f.len⟩ = .ok rec' ∧
      rec'.Accepts key f begun ∧ rec'.remlen = rec.remlen ∧ rec'.blockNumber = rec.blockNumber ∧
      rec'.invalid = rec.invalid := by
  have sameKey : ¬ (rec.remainder ≠ 0 ∧ rec.key ≠ key) := by
    intro ⟨more, other⟩
    cases begun with
    | none => exact more (holds.fresh rfl)
    | some r => exact other (holds.begun r rfl).2.1
  unfold DevRecord.acceptHead
  rw [if_neg sameKey]
  by_cases continued : f.stream < 0
  · simp only [continued, if_true]
    cases begun with
    | none =>
        rw [if_pos (holds.fresh rfl)]
        refine ⟨_, rfl, ⟨rfl, rfl, ?_, ?_, ?_, dataBytes, partialRecord, blockEmpty⟩, rfl, rfl, rfl⟩
        · simp [recordStream, continued]
        · simp [sofar, continued]
        · simp [sofar, continued]
    | some r =>
        obtain ⟨more, -, stream, dataLen, data⟩ := holds.begun r rfl
        have matching : ¬ rec.stream ≠ -f.stream := by
          rw [stream, not_not]
          exact follows.stream continued r rfl
        rw [if_neg more, if_neg matching]
        refine ⟨_, rfl, ⟨rfl, rfl, ?_, ?_, ?_, dataBytes, partialRecord, blockEmpty⟩, rfl, rfl, rfl⟩
        · simp [recordStream, continued]
        · simpa [sofar, continued] using dataLen
        · simpa [sofar, continued] using data
  · simp only [continued, if_false]
    refine ⟨_, rfl, ⟨rfl, rfl, ?_, ?_, ?_, dataBytes, partialRecord, blockEmpty⟩, rfl, rfl, rfl⟩
    · simp [recordStream, continued]
    · simp [sofar, continued]
    · simp [sofar, continued]

theorem unserRecordHead_fragment {block : DevBlock} {key : SessionKey} {f : Fragment}
    {more : List UInt8} (unread : block.Unread key (f.encode ++ more)) :
    ∃ behind, (unserRecordHead block).run (block.buf.drop block.bufp) =
      .ok (⟨key, f.fileIndex, f.stream, UInt32.ofNat f.len⟩, behind) := by
  obtain ⟨behind, bytes⟩ := unread.bytes
  have notOne : ¬ block.blockVer = 1 := by
    rw [unread.version]
    decide
  have keyIs : (⟨block.volSessionId, block.volSessionTime⟩ : SessionKey) = key := unread.key
  refine ⟨f.chunk ++ (more ++ behind), ?_⟩
  rw [bytes, unserRecordHead, if_neg notOne, keyIs]
  simp -implicitDefEqProofs only [unserRecordFields, encode, recordHeader, List.append_assoc,
    StateT.run_bind, StateT.run_pure, ok_bind, unserialInt32_serial, unserialUint32_serial]
  rfl

/-- The header of a fragment is read. -/
theorem readHeader_fragment {block : DevBlock} {rec : DevRecord} {key : SessionKey}
    {begun : Begun} {f : Fragment} {more : List UInt8} (endAddr : ℕ)
    (unread : block.Unread key (f.encode ++ more)) (holds : rec.Holds key begun)
    (follows : f.Follows begun) (remlen : rec.remlen = block.binbuf) :
    ∃ block' rec', readHeader endAddr block rec = .ok (true, block', rec') ∧
      block'.Unread key (f.chunk ++ more) ∧ rec'.Accepts key f begun ∧
      rec'.remlen = (f.chunk ++ more).length ∧ rec'.blockNumber = rec.blockNumber ∧
        rec'.invalid = rec.invalid := by
  obtain ⟨behind, head⟩ := unserRecordHead_fragment unread
  have short := follows.short
  have small : (UInt32.ofNat f.len).toNat = f.len :=
    UInt32.toNat_ofNat_of_lt' (short.trans (by decide))
  have notOne : ¬ block.blockVer = 1 := by
    rw [unread.version]
    decide
  have size := unread.binbuf
  rw [List.length_append, f.encode_length] at size
  have room : ¬ rec.remlen < RECHDR2_LENGTH := by
    rw [remlen, size]
    unfold RECHDR2_LENGTH WRITE_RECHDR_LENGTH
    omega
  have here : block.Unread key (recordHeader f.fileIndex f.stream f.len ++ (f.chunk ++ more)) := by
    rw [← List.append_assoc]
    exact unread
  obtain ⟨behindHeader, -⟩ := here.advance (recordHeader_length _ _ _)
  let rec₁ : DevRecord := { rec with
    stateBits := {}, addr := endAddr, dataBytes := f.len, remlen := rec.remlen - RECHDR2_LENGTH }
  have holds₁ : rec₁.Holds key begun := ⟨holds.ready, holds.fresh, holds.begun⟩
  obtain ⟨rec', accepted, accepts, remlen', number, invalid⟩ :=
    holds₁.acceptHead follows rfl rfl rfl
  have sane : ¬ MAX_BLOCK_LENGTH ≤ rec'.dataBytes := by
    rw [accepts.dataBytes]
    exact not_le.mpr short
  refine ⟨(block.advance RECHDR2_LENGTH).noteIndex f.fileIndex, { rec' with
    data := checkPoolMemorySize rec'.data (rec'.dataLen + rec'.dataBytes), rstate := .data },
    ?_, behindHeader.noteIndex _, ?_, ?_, number, invalid⟩
  · rw [readHeader]
    simp only [notOne, if_false, room, head, small]
    rw [show _ = Except.ok rec' from accepted]
    simp only [sane, if_false]
  · have inside := accepts.dataLen_le
    refine ⟨accepts.key, accepts.fileIndex, accepts.stream, accepts.dataLen, ?_,
      accepts.dataBytes, accepts.partialRecord, accepts.blockEmpty⟩
    rw [checkPoolMemorySize, List.take_append_of_le_length inside]
    exact accepts.data
  · change rec'.remlen = _
    rw [remlen', List.length_append]
    change rec.remlen - RECHDR2_LENGTH = _
    rw [remlen, size]
    unfold RECHDR2_LENGTH WRITE_RECHDR_LENGTH
    omega

/-- A record after a fragment was read into it. -/
structure DevRecord.Took (rec : DevRecord) (key : SessionKey) (f : Fragment) (begun : Begun) :
    Prop where
  holds : rec.Holds key (f.next begun)
  key : rec.key = key
  fileIndex : rec.fileIndex = f.fileIndex
  stream : rec.stream = f.recordStream
  dataLen : rec.dataLen = (f.data begun).length
  data : rec.data.take rec.dataLen = f.data begun
  partialRecord : rec.stateBits.partialRecord = decide f.Partial
  blockEmpty : rec.stateBits.blockEmpty = decide f.Partial

/-- The data of a fragment is read behind the data of the record so far. -/
theorem readDataState_fragment {block : DevBlock} {rec : DevRecord} {key : SessionKey}
    {begun : Begun} {f : Fragment} {more : List UInt8} (follows : f.Follows begun)
    (last : f.Partial → more = []) (unread : block.Unread key (f.chunk ++ more))
    (accepts : rec.Accepts key f begun) (remlen : rec.remlen = (f.chunk ++ more).length) :
    ∃ block' rec', readDataState block rec = (true, block', rec') ∧ block'.Unread key more ∧
      rec'.Took key f begun ∧ rec'.blockNumber = rec.blockNumber ∧ rec'.invalid = rec.invalid := by
  have inside := accepts.dataLen_le
  have chunk := follows.chunk
  have stored : (store rec.data rec.dataLen f.chunk).take (rec.dataLen + f.chunk.length) =
      f.data begun := by
    rw [store_take f.chunk inside, accepts.data, Fragment.data]
  have dataLen : rec.dataLen + f.chunk.length = (f.data begun).length := by
    rw [Fragment.data, List.length_append, accepts.dataLen]
  unfold readDataState readData
  rw [accepts.dataBytes, remlen]
  by_cases part : f.Partial
  · have nothing := last part
    rw [nothing] at unread remlen ⊢
    rw [List.append_nil] at remlen ⊢
    obtain ⟨after, peek⟩ := unread.advance rfl
    have notAll : ¬ f.len ≤ f.chunk.length := not_le.mpr part
    simp only [notAll, if_false, peek]
    refine ⟨_, _, rfl, after, ⟨⟨Or.inr rfl, ?_, ?_⟩, accepts.key, accepts.fileIndex,
      accepts.stream, dataLen, stored, ?_, ?_⟩, rfl, rfl⟩
    · intro none
      rw [Fragment.next, if_pos part] at none
      cases none
    · intro r some
      rw [Fragment.next, if_pos part] at some
      cases some
      exact ⟨one_ne_zero, accepts.key, accepts.stream, dataLen, stored⟩
    · simp [part]
    · simp [part]
  · have all : f.chunk.length = f.len := le_antisymm chunk (not_lt.mp part)
    have enough : f.len ≤ (f.chunk ++ more).length := by
      rw [List.length_append]
      omega
    obtain ⟨after, peek⟩ := unread.advance all
    rw [all] at stored dataLen
    simp only [enough, if_true, peek]
    refine ⟨_, _, rfl, after, ⟨⟨Or.inr rfl, fun _ => rfl, ?_⟩, accepts.key, accepts.fileIndex,
      accepts.stream, dataLen, stored, ?_, ?_⟩, rfl, rfl⟩
    · intro r some
      rw [Fragment.next, if_neg part] at some
      cases some
    · simp [part, accepts.partialRecord]
    · simp [part, accepts.blockEmpty]

theorem DevRecord.Holds.begin {rec : DevRecord} {key : SessionKey} {begun : Begun}
    (holds : rec.Holds key begun) (block : DevBlock) : (rec.begin block).Holds key begun := by
  unfold DevRecord.begin
  split
  · exact ⟨holds.ready, holds.fresh, holds.begun⟩
  · exact holds

theorem readRecordFromBlock_fragment {block : DevBlock} {rec : DevRecord} {key : SessionKey}
    {begun : Begun} {f : Fragment} {more : List UInt8} (endAddr : ℕ)
    (follows : f.Follows begun) (last : f.Partial → more = [])
    (unread : block.Unread key (f.encode ++ more)) (holds : rec.Holds key begun) :
    ∃ block' rec', readRecordFromBlock endAddr block rec = .ok (true, block', rec') ∧
      block'.Unread key more ∧ rec'.Took key f begun ∧ rec'.blockNumber = rec.blockNumber ∧
      rec'.invalid = rec.invalid := by
  let block₁ : DevBlock := { block with recNum := block.recNum + 1 }
  let rec₁ : DevRecord := { rec.begin block with remlen := block.binbuf }
  have unread₁ : block₁.Unread key (f.encode ++ more) :=
    ⟨unread.version, unread.key, unread.binbuf, unread.bytes⟩
  have begin := holds.begin block
  have holds₁ : rec₁.Holds key begun := ⟨begin.ready, begin.fresh, begin.begun⟩
  have kept : (rec.begin block).blockNumber = rec.blockNumber ∧
      (rec.begin block).invalid = rec.invalid := by
    unfold DevRecord.begin
    split <;> exact ⟨rfl, rfl⟩
  obtain ⟨block₂, rec₂, header, unread₂, accepts, remlen, number, invalid⟩ :=
    readHeader_fragment endAddr unread₁ holds₁ follows rfl
  obtain ⟨block₃, rec₃, data, unread₃, took, number₃, invalid₃⟩ :=
    readDataState_fragment follows last unread₂ accepts remlen
  refine ⟨block₃, rec₃, ?_, unread₃, took, number₃.trans (number.trans kept.1),
    invalid₃.trans (invalid.trans kept.2)⟩
  unfold readRecordFromBlock
  rcases holds.ready with none | header'
  · simp only [none]
    rw [show readHeader endAddr _ _ = _ from header]
    simp only [data]
  · simp only [header']
    rw [show readHeader endAddr _ _ = _ from header]
    simp only [data]

/-- What a record shows to the callback. -/
def DevRecord.view (rec : DevRecord) : Delivered where
  fileIndex := rec.fileIndex
  stream := rec.stream
  dataLen := rec.dataLen
  data := rec.data.take rec.dataLen
  complete := !rec.stateBits.partialRecord

/-- At the end of a block the record is kept as it is. -/
theorem readRecordFromBlock_end {block : DevBlock} {rec : DevRecord} {key : SessionKey}
    {begun : Begun} (endAddr : ℕ) (unread : block.Unread key []) (holds : rec.Holds key begun) :
    ∃ block' rec', readRecordFromBlock endAddr block rec = .ok (false, block', rec') ∧
      rec'.Holds key begun ∧ rec'.key = rec.key ∧ rec'.blockNumber = rec.blockNumber ∧
      rec'.invalid = rec.invalid := by
  have begin := holds.begin block
  have kept : (rec.begin block).key = rec.key ∧ (rec.begin block).blockNumber = rec.blockNumber ∧
      (rec.begin block).invalid = rec.invalid := by
    unfold DevRecord.begin
    split <;> exact ⟨rfl, rfl, rfl⟩
  have notOne : ¬ block.blockVer = 1 := by
    rw [unread.version]
    decide
  have empty : block.binbuf < RECHDR2_LENGTH := by
    rw [unread.binbuf]
    decide
  unfold readRecordFromBlock readHeader
  rcases holds.ready with none | header'
  · simp only [none, notOne, if_false, empty, if_true]
    exact ⟨_, _, rfl, ⟨Or.inl rfl, begin.fresh, begin.begun⟩, kept.1, kept.2.1, kept.2.2⟩
  · simp only [header', notOne, if_false, empty, if_true]
    exact ⟨_, _, rfl, ⟨Or.inl rfl, begin.fresh, begin.begun⟩, kept.1, kept.2.1, kept.2.2⟩

/-- The calls of the callback show these records of a session, none of them invalid. -/
structure Shows (key : SessionKey) (calls : List DevRecord) (ds : List Delivered) : Prop where
  view : calls.map DevRecord.view = ds
  own : ∀ rec ∈ calls, rec.key = key ∧ rec.invalid = false

theorem Shows.append {key : SessionKey} {a b : List DevRecord} {ds es : List Delivered}
    (first : Shows key a ds) (second : Shows key b es) : Shows key (a ++ b) (ds ++ es) := by
  refine ⟨by rw [List.map_append, first.view, second.view], fun rec member => ?_⟩
  rcases List.mem_append.mp member with left | right
  · exact first.own rec left
  · exact second.own rec right

theorem Shows.single {rec : DevRecord} {key : SessionKey} {f : Fragment} {begun : Begun}
    (took : rec.Took key f begun) (valid : rec.invalid = false) :
    Shows key [rec] [⟨f.fileIndex, f.recordStream, (f.data begun).length, f.data begun,
      !decide f.Partial⟩] := by
  refine ⟨?_, fun r member => ?_⟩
  · rw [List.map_singleton, DevRecord.view, took.data, took.dataLen, took.fileIndex, took.stream,
      took.partialRecord]
  · rw [List.mem_singleton.mp member]
    exact ⟨took.key, valid⟩

/-- The loop over the records of a block delivers what its fragments mean. -/
theorem readBlockRecords_fragments {key : SessionKey} (endAddr : ℕ) {fs : List Fragment}
    {ds : List Delivered} {begun after : Begun} (assembles : Assembles begun fs ds after)
    (cut : Cut fs) {fuel : ℕ} (enough : fs.length < fuel) {block : DevBlock} {rec : DevRecord}
    {calls : List DevRecord} (unread : block.Unread key (payload fs)) (holds : rec.Holds key begun)
    (own : rec.key = key ∨ fs ≠ []) (valid : rec.invalid = false)
    (goesOn : rec.stateBits.blockEmpty = false) :
    ∃ rec' new, readBlockRecords endAddr fuel block rec calls = .ok (rec', calls ++ new) ∧
      rec'.Holds key after ∧ rec'.key = key ∧ rec'.blockNumber = rec.blockNumber ∧
      rec'.invalid = false ∧ Shows key new ds := by
  induction assembles generalizing fuel block rec calls with
  | nil begun =>
      cases fuel with
      | zero => exact absurd enough (Nat.not_lt_zero _)
      | succ fuel =>
          obtain ⟨block', rec', result, holds', sameKey, number, invalid⟩ :=
            readRecordFromBlock_end endAddr unread holds
          have key' : rec.key = key := own.resolve_right fun h => h rfl
          refine ⟨rec', [], ?_, holds', sameKey.trans key', number, invalid.trans valid,
            rfl, fun r member => absurd member List.not_mem_nil⟩
          rw [readBlockRecords, goesOn, result, List.append_nil]
          rfl
  | @cons f rest ds begun after follows assembles ih =>
      cases fuel with
      | zero => exact absurd enough (Nat.not_lt_zero _)
      | succ fuel =>
          have last : f.Partial → payload rest = [] := fun part => by rw [cut.1 part]; rfl
          obtain ⟨block', rec', result, unread', took, number, invalid⟩ :=
            readRecordFromBlock_fragment endAddr follows last unread holds
          have shows := Shows.single took (invalid.trans valid)
          have holds' : { rec' with invalid := false }.Holds key (f.next begun) :=
            ⟨took.holds.ready, took.holds.fresh, took.holds.begun⟩
          have notEom : ¬ rec'.fileIndex = EOM_LABEL := by
            rw [took.fileIndex]
            exact follows.notEom
          have partialRecord := took.partialRecord
          rw [readBlockRecords, goesOn, result]
          simp only [Bool.false_eq_true, if_false, notEom]
          by_cases part : f.Partial
          · obtain rfl := cut.1 part
            cases assembles
            have stops := took.blockEmpty
            rw [decide_eq_true part] at stops shows
            obtain ⟨fuel, rfl⟩ : ∃ n, fuel = n + 1 :=
              Nat.exists_eq_add_one.mpr (Nat.lt_of_succ_lt_succ enough)
            by_cases label : rec'.fileIndex < 0
            · refine ⟨{ rec' with invalid := false }, [rec'], ?_, holds', took.key, number, rfl, ?_⟩
              · rw [if_pos label, readBlockRecords, if_pos stops]
              · rw [took.fileIndex] at label
                rw [delivers, if_pos part, if_pos label]
                exact shows
            · refine ⟨rec', [], ?_, took.holds, took.key, number, invalid.trans valid, ?_⟩
              · rw [if_neg label, partialRecord, if_pos (decide_eq_true part), List.append_nil]
              · rw [took.fileIndex] at label
                rw [delivers, if_pos part, if_neg label]
                exact ⟨rfl, fun r member => absurd member List.not_mem_nil⟩
          · have goesOn' : rec'.stateBits.blockEmpty = false := by
              rw [took.blockEmpty, decide_eq_false part]
            obtain ⟨rec'', new, rest', holds'', key'', number'', valid'', shows'⟩ :=
              @ih cut.2 fuel (Nat.lt_of_succ_lt_succ enough) block' { rec' with invalid := false }
                (calls ++ [rec']) unread' holds' (Or.inl took.key) rfl goesOn'
            rw [decide_eq_false part] at shows
            refine ⟨rec'', rec' :: new, ?_, holds'', key'', number''.trans number, valid'', ?_⟩
            · rw [partialRecord, decide_eq_false part, rest', List.append_assoc]
              simp
            · rw [delivers, if_neg part]
              exact shows.append shows'

end Bacula
