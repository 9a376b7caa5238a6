import Bacula.Stored.ReadVolume

/-! The blocks that `write_record` leaves on a volume, and what reading them delivers. -/
namespace Bacula
open ByteCodec Fragment

section Filling

theorem DevBlock.Filled.put {dev : BlockDevice} {block : DevBlock} {payload : List UInt8}
    (filled : block.Filled dev payload) {bytes : List UInt8}
    (room : block.binbuf + bytes.length ≤ dev.bufLen) :
    (block.put bytes).Filled dev (payload ++ bytes) := by
  have memory := filled.memory
  have bufp := filled.bufp
  have binbuf := filled.binbuf
  have here : block.bufp = WRITE_BLKHDR_LENGTH + payload.length := bufp.trans binbuf
  refine ⟨?_, filled.bufLen, ?_, ?_, room, ?_⟩
  · rw [DevBlock.put, store_length (by omega), memory]
  · simp only [DevBlock.put, bufp]
  · simp only [DevBlock.put, binbuf, List.length_append, Nat.add_assoc]
  · have front : (block.buf.take block.bufp).drop WRITE_BLKHDR_LENGTH = payload := by
      rw [here, List.drop_take, Nat.add_sub_cancel_left]
      exact filled.contents
    have low : WRITE_BLKHDR_LENGTH ≤ (block.buf.take block.bufp).length := by
      rw [List.length_take, memory]
      omega
    rw [DevBlock.put, List.take_drop, List.length_append, ← Nat.add_assoc, ← here,
      store_take bytes (by omega), List.drop_append_of_le_length low, front]

theorem DevBlock.Filled.noteIndex {dev : BlockDevice} {block : DevBlock} {payload : List UInt8}
    (filled : block.Filled dev payload) (fileIndex : Int32) :
    (block.noteIndex fileIndex).Filled dev payload := by
  unfold DevBlock.noteIndex
  split
  · exact ⟨filled.memory, filled.bufLen, filled.bufp, filled.binbuf, filled.fits, filled.contents⟩
  · exact filled

/-- A header is put into the block of the session of the record. -/
theorem DevBlock.Filled.putHeader {dev : BlockDevice} {block : DevBlock} {payload : List UInt8}
    (filled : block.Filled dev payload) (room : block.binbuf + WRITE_RECHDR_LENGTH ≤ dev.bufLen)
    (rec : DevRecord) (stream : Int32) (len : ℕ) :
    (block.putHeader rec stream len).Filled dev
        (payload ++ recordHeader rec.fileIndex stream len) ∧
      (block.putHeader rec stream len).key = rec.key ∧
      (block.putHeader rec stream len).blockNumber = block.blockNumber ∧
      (block.putHeader rec stream len).binbuf = block.binbuf + WRITE_RECHDR_LENGTH := by
  let block₁ : DevBlock :=
    { block with volSessionId := rec.volSessionId, volSessionTime := rec.volSessionTime }
  have filled₁ : block₁.Filled dev payload :=
    ⟨filled.memory, filled.bufLen, filled.bufp, filled.binbuf, filled.fits, filled.contents⟩
  have room₁ : block₁.binbuf + (recordHeader rec.fileIndex stream len).length ≤ dev.bufLen := by
    rw [recordHeader_length]
    exact room
  have put := filled₁.put room₁
  have noted := put.noteIndex rec.fileIndex
  have same (b : DevBlock) : (b.noteIndex rec.fileIndex).key = b.key ∧
      (b.noteIndex rec.fileIndex).blockNumber = b.blockNumber ∧
      (b.noteIndex rec.fileIndex).binbuf = b.binbuf := by
    unfold DevBlock.noteIndex
    split <;> exact ⟨rfl, rfl, rfl⟩
  obtain ⟨key, number, binbuf⟩ := same (block₁.put (recordHeader rec.fileIndex stream len))
  refine ⟨⟨noted.memory, noted.bufLen, noted.bufp, noted.binbuf, noted.fits, noted.contents⟩,
    key, number, binbuf.trans ?_⟩
  simp only [DevBlock.put, recordHeader_length, block₁]

end Filling

/-- The packet of a record while it is written. -/
def DataRecord.packetAt (r : DataRecord) (key : SessionKey) (remlen remainder : ℕ)
    (wstate : RecState) : DevRecord :=
  { r.packet key with remlen, remainder, wstate }

def DataRecord.delivered (r : DataRecord) : Delivered :=
  ⟨r.fileIndex, r.stream, r.data.length, r.data, true⟩

/-- A label that is delivered before it is complete. -/
structure DataRecord.Early (r : DataRecord) (d : Delivered) : Prop where
  label : r.fileIndex < 0
  fileIndex : d.fileIndex = r.fileIndex
  stream : d.stream = r.stream
  dataLen : d.dataLen = d.data.length
  data : d.data <+: r.data
  part : d.complete = false

/-- Every record is delivered once, in order, and only a label also before it is complete. -/
inductive Delivers : List DataRecord → List Delivered → Prop where
  | nil : Delivers [] []
  | cons {r : DataRecord} {rest : List DataRecord} {early ds : List Delivered} :
      (∀ d ∈ early, r.Early d) → Delivers rest ds →
        Delivers (r :: rest) (early ++ r.delivered :: ds)

/-- Complete records are the written ones. -/
theorem Delivers.filter_complete {records : List DataRecord} {ds : List Delivered}
    (delivers : Delivers records ds) :
    ds.filter Delivered.complete = records.map DataRecord.delivered := by
  induction delivers with
  | nil => rfl
  | @cons r rest early ds isEarly rest' ih =>
      have none : early.filter Delivered.complete = [] := by
        apply List.filter_eq_nil_iff.mpr
        intro d member
        rw [(isEarly d member).part]
        exact Bool.false_ne_true
      rw [List.filter_append, none, List.nil_append, List.map_cons, ← ih]
      rfl

/-- Without labels every call is a written record. -/
theorem Delivers.eq_of_files {records : List DataRecord} {ds : List Delivered}
    (delivers : Delivers records ds) (files : ∀ r ∈ records, 0 ≤ r.fileIndex) :
    ds = records.map DataRecord.delivered := by
  induction delivers with
  | nil => rfl
  | @cons r rest early ds isEarly rest' ih =>
      have none : early = [] := by
        apply List.eq_nil_iff_forall_not_mem.mpr
        intro d member
        exact absurd (isEarly d member).label (Int32.not_lt.mpr (files r List.mem_cons_self))
      rw [none, List.nil_append, List.map_cons,
        ih fun r member => files r (List.mem_cons_of_mem _ member)]

/-- `write_record_to_block` puts the data that fits behind the header. -/
theorem writeDataState_spec {dev : BlockDevice} {block : DevBlock} {payload : List UInt8}
    (filled : block.Filled dev payload) (r : DataRecord) (key : SessionKey) (remlen : ℕ) {k : ℕ}
    (inside : k ≤ r.data.length) :
    ∃ block' rec', writeDataState block (r.packetAt key remlen (r.data.length - k) .data) =
        (decide (r.data.length ≤ k + (dev.bufLen - block.binbuf)), block', rec') ∧
      block'.Filled dev (payload ++ (r.data.drop k).take (dev.bufLen - block.binbuf)) ∧
      block'.blockNumber = block.blockNumber ∧ block'.key = block.key ∧
      (k + (dev.bufLen - block.binbuf) < r.data.length → ∃ remlen', rec' =
        r.packetAt key remlen' (r.data.length - (k + (dev.bufLen - block.binbuf))) .contHeader) := by
  have fits := filled.fits
  generalize roomIs : dev.bufLen - block.binbuf = room
  have left : (r.data.drop k).length = r.data.length - k := List.length_drop
  by_cases some : 0 < r.data.length - k
  · have from_ : r.data.length - (r.data.length - k) = k := Nat.sub_sub_self inside
    by_cases all : r.data.length - k ≤ room
    · have done : r.data.length ≤ k + room := by omega
      have whole : (r.data.drop k).take room = r.data.drop k :=
        List.take_of_length_le (by rw [left]; exact all)
      refine ⟨block.put (r.data.drop k), r.packetAt key room 0 .none, ?_, ?_, rfl, rfl,
        fun more => by omega⟩
      · simp only [writeDataState, DataRecord.packetAt, DataRecord.packet, some, if_true,
          writeDataToBlock, filled.bufLen, roomIs, all, from_, done, decide_true]
        rw [List.take_of_length_le (le_of_eq left)]
      · rw [whole]
        exact filled.put (by rw [left]; omega)
    · have notDone : ¬ r.data.length ≤ k + room := by omega
      refine ⟨block.put ((r.data.drop k).take room),
        r.packetAt key room (r.data.length - (k + room)) .contHeader, ?_, ?_, rfl, rfl,
        fun _ => ⟨room, rfl⟩⟩
      · simp only [writeDataState, DataRecord.packetAt, DataRecord.packet, some, if_true,
          writeDataToBlock, filled.bufLen, roomIs, all, if_false, from_, notDone, decide_false,
          Bool.false_eq_true, Nat.sub_sub]
      · exact filled.put (by rw [List.length_take, left]; omega)
  · have done : r.data.length ≤ k + room := by omega
    have nothing : (r.data.drop k).take room = [] := by
      rw [List.take_eq_nil_iff]
      exact Or.inr (List.drop_eq_nil_of_le (by omega))
    refine ⟨block, r.packetAt key remlen 0 .none, ?_, ?_, rfl, rfl, fun more => by omega⟩
    · simp only [writeDataState, DataRecord.packetAt, DataRecord.packet, some, if_false, if_true,
        done, decide_true]
    · rw [nothing, List.append_nil]
      exact filled

theorem Fragment.Assembles.cut_append {fs : List Fragment} {ds : List Delivered} {before : Begun}
    (assembles : Assembles before fs ds none) (cut : Cut fs) (last : Fragment) :
    Cut (fs ++ [last]) := by
  generalize afterIs : (none : Begun) = after at assembles
  induction assembles with
  | nil begun => exact ⟨fun _ => rfl, trivial⟩
  | @cons f rest ds begun after follows rest' ih =>
      refine ⟨fun part => ?_, ih cut.2 afterIs⟩
      obtain rfl := cut.1 part
      cases rest'
      rw [Fragment.next, if_pos part] at afterIs
      cases afterIs

/-- The blocks of a session so far, and the fragments `fs` in the block that is filled. With what
is begun after them, they deliver `ds`. -/
structure Wrote (dev : BlockDevice) (key : SessionKey) (start : UInt32)
    (raws : List (List UInt8)) (block : DevBlock) (fs : List Fragment) (begun : Begun)
    (ds : List Delivered) : Prop where
  filled : block.Filled dev (payload fs)
  cut : Cut fs
  own : fs ≠ [] → block.key = key
  past : ∃ before es now, Tells dev key start none raws es block.blockNumber before ∧
    Assembles before fs now begun ∧ ds = es ++ now

namespace Wrote

variable {dev : BlockDevice} {key : SessionKey} {start : UInt32} {raws : List (List UInt8)}
  {block : DevBlock} {fs : List Fragment} {begun : Begun} {ds : List Delivered}

theorem start_ (dev : BlockDevice) (key : SessionKey) (start : UInt32)
    (room : WRITE_BLKHDR_LENGTH ≤ dev.bufLen) :
    Wrote dev key start [] { newBlock dev with blockNumber := start } [] none [] where
  filled := ⟨List.length_replicate, rfl, rfl, rfl, room, rfl⟩
  cut := trivial
  own := fun some => absurd rfl some
  past := ⟨none, [], [], .nil _ _, .nil _, rfl⟩

/-- The block goes to the device. -/
theorem flush (wrote : Wrote dev key start raws block fs begun ds) (some : fs ≠ []) :
    ∃ raw next, writeBlockToDev dev block = .some ([raw], next) ∧
      Wrote dev key start (raws ++ [raw]) next [] begun ds := by
  have filled := wrote.filled
  have data : payload fs ≠ [] := by
    intro nothing
    have length := Fragment.length_le_payload fs
    rw [nothing] at length
    exact some (List.length_eq_zero_iff.mp (Nat.le_zero.mp length))
  obtain ⟨checkSum, padding, next, result, checked, memory, bufLen, binbuf, bufp, number⟩ :=
    writeBlockToDev_spec filled data
  obtain ⟨before, es, now, tells, assembles, rfl⟩ := wrote.past
  have written : Written dev key block.blockNumber fs
      (serialUint32 checkSum ++ (headerTail block ++ (payload fs ++ padding))) :=
    ⟨some, wrote.cut, block, checkSum, padding, wrote.own some, rfl, filled.binbuf,
      filled.fits, checked, rfl⟩
  refine ⟨_, next, result, ⟨⟨memory, bufLen, bufp.trans binbuf.symm, binbuf, ?_, rfl⟩, trivial,
    fun some => absurd rfl some, begun, es ++ now, [], ?_, .nil _, (List.append_nil _).symm⟩⟩
  · have fits := filled.fits
    have size := filled.binbuf
    omega
  · rw [number]
    exact tells.snoc written assembles

/-- A fragment was put into the block. -/
theorem fragment (wrote : Wrote dev key start raws block fs begun ds) {f : Fragment}
    (cut : Cut (fs ++ [f])) (follows : f.Follows begun) {block' : DevBlock}
    (filled : block'.Filled dev (payload fs ++ f.encode)) (own : block'.key = key)
    (number : block'.blockNumber = block.blockNumber) :
    Wrote dev key start raws block' (fs ++ [f]) (f.next begun) (ds ++ f.delivers begun) := by
  obtain ⟨before, es, now, tells, assembles, rfl⟩ := wrote.past
  refine ⟨?_, cut, fun _ => own, before, es, now ++ f.delivers begun, ?_, ?_,
    List.append_assoc _ _ _⟩
  · rw [payload, List.flatMap_append, List.flatMap_singleton]
    exact filled
  · rw [number]
    exact tells
  · have last : Assembles begun [f] (f.delivers begun ++ []) (f.next begun) :=
      .cons follows (.nil _)
    rw [List.append_nil] at last
    exact assembles.append last

end Wrote

/-- How the next fragment of a record begins: with a header, or behind a part of the record with
a continuation header. -/
inductive DataRecord.Opens (r : DataRecord) : ℕ → Int32 → List Fragment → Begun → Prop where
  | header (fs : List Fragment) : r.Opens 0 r.stream fs none
  | continued {k : ℕ} : k < r.data.length →
      r.Opens k (-r.stream) [] (some (r.stream, r.data.take k))

section Record

variable {dev : BlockDevice} {key : SessionKey} {start : UInt32} {raws : List (List UInt8)}
  {block : DevBlock} {fs : List Fragment} {begun : Begun} {ds : List Delivered} {r : DataRecord}
  {k : ℕ} {stream : Int32}

theorem DataRecord.Opens.le (opens : r.Opens k stream fs begun) : k ≤ r.data.length := by
  cases opens with
  | header => exact Nat.zero_le _
  | continued inside => exact le_of_lt inside

theorem neg_stream_lt (positive : 0 < stream) : -stream < 0 := by
  rw [Int32.lt_iff_toInt_lt] at positive ⊢
  have zero : (0 : Int32).toInt = 0 := by decide
  have high := stream.toInt_lt
  rw [zero] at positive ⊢
  rw [Int32.toInt_neg, Int.bmod_eq_of_le (by omega) (by omega)]
  omega

/-- The fragment that a header opens means the data of the record up to its end. -/
theorem DataRecord.Opens.fragment (opens : r.Opens k stream fs begun)
    (notEom : r.fileIndex ≠ EOM_LABEL) {n : ℕ} {f : Fragment}
    (is : f = ⟨r.fileIndex, stream, r.data.length - k, (r.data.drop k).take n⟩) :
    f.Follows begun ∧ f.recordStream = r.stream ∧ f.data begun = r.data.take (k + n) := by
  have chunk : ((r.data.drop k).take n).length ≤ r.data.length - k := by
    rw [List.length_take, List.length_drop]
    exact min_le_right _ _
  have short : r.data.length - k < MAX_BLOCK_LENGTH := lt_of_le_of_lt (Nat.sub_le _ _) r.short
  subst is
  cases opens with
  | header =>
      have notContinued : ¬ r.stream < 0 := Int32.lt_asymm r.positive
      refine ⟨⟨notEom, short, chunk, fun negative => absurd negative notContinued⟩, ?_, ?_⟩
      · rw [recordStream, if_neg notContinued]
      · rw [Fragment.data, sofar, if_neg notContinued, List.nil_append, List.drop_zero,
          Nat.zero_add]
  | continued inside =>
      have isContinued := neg_stream_lt r.positive
      refine ⟨⟨notEom, short, chunk, ?_⟩, ?_, ?_⟩
      · rintro _ _ ⟨⟩
        exact Int32.neg_neg.symm
      · rw [recordStream, if_pos isContinued]
        exact Int32.neg_neg
      · rw [Fragment.data, sofar, if_pos isContinued, List.take_add]
        rfl

/-- Behind the header of a record comes the data that fits into the block. -/
theorem Wrote.data (wrote : Wrote dev key start raws block fs begun ds)
    (opens : r.Opens k stream fs begun) (notEom : r.fileIndex ≠ EOM_LABEL)
    (room : block.binbuf + WRITE_RECHDR_LENGTH ≤ dev.bufLen) {rec : DevRecord}
    (ownKey : rec.key = key) (ownIndex : rec.fileIndex = r.fileIndex) (remlen : ℕ) {k' : ℕ}
    (behind : k' = k + (dev.bufLen - (block.binbuf + WRITE_RECHDR_LENGTH))) :
    ∃ block' rec' fs', writeDataState (block.putHeader rec stream (r.data.length - k))
        (r.packetAt key remlen (r.data.length - k) .data) =
          (decide (r.data.length ≤ k'), block', rec') ∧ fs' ≠ [] ∧
      (r.data.length ≤ k' → Wrote dev key start raws block' fs' none (ds ++ [r.delivered])) ∧
      (k' < r.data.length → ∃ remlen' early,
        rec' = r.packetAt key remlen' (r.data.length - k') .contHeader ∧
        Wrote dev key start raws block' fs' (some (r.stream, r.data.take k')) (ds ++ early) ∧
        ∀ d ∈ early, r.Early d) := by
  obtain ⟨filled, own, number, binbuf⟩ :=
    wrote.filled.putHeader room rec stream (r.data.length - k)
  rw [ownIndex] at filled
  obtain ⟨block', rec', result, filled', number', own', more⟩ :=
    writeDataState_spec filled r key remlen opens.le
  rw [binbuf, ← behind] at result more
  generalize roomIs : dev.bufLen - (block.binbuf + WRITE_RECHDR_LENGTH) = n at behind
  rw [binbuf, roomIs] at filled'
  have cut (f : Fragment) : Cut (fs ++ [f]) := by
    cases opens with
    | header =>
        obtain ⟨_, _, _, -, assembles, -⟩ := wrote.past
        exact assembles.cut_append wrote.cut f
    | continued => exact ⟨fun _ => rfl, trivial⟩
  let f : Fragment := ⟨r.fileIndex, stream, r.data.length - k, (r.data.drop k).take n⟩
  obtain ⟨follows, streamIs, dataIs⟩ := opens.fragment notEom (show f = ⟨_, _, _, _⟩ from rfl)
  have encoded : block'.Filled dev (payload fs ++ f.encode) := by
    rw [encode, ← List.append_assoc]
    exact filled'
  have step := wrote.fragment (cut f) follows encoded (own'.trans (own.trans ownKey))
    (number'.trans number)
  have size : f.chunk.length = min n (r.data.length - k) := by
    change ((r.data.drop k).take n).length = _
    rw [List.length_take, List.length_drop]
  have inside := opens.le
  refine ⟨block', rec', fs ++ [f], result, List.append_ne_nil_of_right_ne_nil _ (by simp),
    fun done => ?_, fun part => ?_⟩
  · have complete : ¬ f.Partial := by
      rw [Fragment.Partial, size]
      change ¬ _ < r.data.length - k
      omega
    have all : f.data begun = r.data := by
      rw [dataIs]
      exact List.take_of_length_le (by omega)
    rw [Fragment.next, if_neg complete, Fragment.delivers, if_neg complete, streamIs, all] at step
    exact step
  · obtain ⟨remlen', recIs⟩ := more part
    have partial_ : f.Partial := by
      rw [Fragment.Partial, size]
      change _ < r.data.length - k
      omega
    have front : f.data begun = r.data.take k' := by
      rw [dataIs, behind]
    rw [Fragment.next, if_pos partial_, streamIs, front] at step
    refine ⟨remlen', f.delivers begun, recIs, step, ?_⟩
    intro d member
    rw [Fragment.delivers, if_pos partial_] at member
    split at member
    · rename_i label
      rw [List.mem_singleton.mp member, streamIs, front]
      exact ⟨label, rfl, rfl, rfl, List.take_prefix _ _, rfl⟩
    · cases member

/-- The loop of `write_record` ends, and the record was delivered. -/
def Completes (dev : BlockDevice) (key : SessionKey) (start : UInt32) (r : DataRecord)
    (fuel : ℕ) (block : DevBlock) (rec : DevRecord) (raws : List (List UInt8))
    (ds : List Delivered) : Prop :=
  ∃ block' raws' fs' early, writeRecordLoop dev fuel block rec raws = some (block', raws') ∧
    Wrote dev key start raws' block' fs' none (ds ++ (early ++ [r.delivered])) ∧
    ∀ d ∈ early, r.Early d

/-- A round that puts a header: the record is complete, or it is continued in the next block. -/
theorem completes_of_round (wrote : Wrote dev key start raws block fs begun ds)
    (opens : r.Opens k stream fs begun)
    (notEom : r.fileIndex ≠ EOM_LABEL)
    (room : block.binbuf + WRITE_RECHDR_LENGTH ≤ dev.bufLen) {rec header : DevRecord}
    (ownKey : header.key = key) (ownIndex : header.fileIndex = r.fileIndex) {remlen fuel k' : ℕ}
    (behind : k' = k + (dev.bufLen - (block.binbuf + WRITE_RECHDR_LENGTH)))
    (round : writeRecordToBlock block rec =
      some (writeDataState (block.putHeader header stream (r.data.length - k))
        (r.packetAt key remlen (r.data.length - k) .data)))
    (continue_ : ∀ raws block ds remlen, k' < r.data.length →
      Wrote dev key start raws block [] (some (r.stream, r.data.take k')) ds →
        Completes dev key start r fuel block
          (r.packetAt key remlen (r.data.length - k') .contHeader) raws ds) :
    Completes dev key start r (fuel + 1) block rec raws ds := by
  obtain ⟨block', rec', fs', result, some', complete, part⟩ :=
    wrote.data opens notEom room ownKey ownIndex remlen behind
  unfold Completes
  rw [writeRecordLoop, round, result]
  by_cases done : r.data.length ≤ k'
  · rw [decide_eq_true done]
    exact ⟨block', raws, fs', [], rfl, complete done, fun d member => absurd member
      List.not_mem_nil⟩
  · rw [decide_eq_false done]
    obtain ⟨remlen', early, rfl, wrote', isEarly⟩ := part (not_le.mp done)
    obtain ⟨raw, next, flushed, wrote''⟩ := wrote'.flush some'
    obtain ⟨block'', raws'', fs'', early', loop, wroteAll, isEarly'⟩ :=
      continue_ _ _ _ remlen' (not_le.mp done) wrote''
    refine ⟨block'', raws'', fs'', early ++ early', ?_, ?_, ?_⟩
    · simp only [flushed]
      exact loop
    · rw [List.append_assoc] at wroteAll
      rw [List.append_assoc]
      exact wroteAll
    · intro d member
      rcases List.mem_append.mp member with left | right
      · exact isEarly d left
      · exact isEarly' d right

/-- A continuation header is put into an empty block. -/
theorem writeRecordToBlock_continued (long : WRITE_BLKHDR_LENGTH + WRITE_RECHDR_LENGTH < dev.bufLen)
    (filled : block.Filled dev []) (remlen : ℕ) (inside : k ≤ r.data.length) :
    writeRecordToBlock block (r.packetAt key remlen (r.data.length - k) .contHeader) =
      some (writeDataState
        (block.putHeader (r.packetAt key remlen (r.data.length - k) .contHeader) (-r.stream)
          (r.data.length - k))
        (r.packetAt key (dev.bufLen - block.binbuf - WRITE_RECHDR_LENGTH) (r.data.length - k)
          .data)) := by
  have binbuf := filled.binbuf
  rw [List.length_nil, Nat.add_zero] at binbuf
  have notFull : ¬ dev.bufLen - block.binbuf = 0 := by omega
  have enough : ¬ dev.bufLen - block.binbuf < WRITE_RECHDR_LENGTH := by omega
  have begun : ¬ r.data.length < r.data.length - k := by omega
  have more : ¬ dev.bufLen - block.binbuf - WRITE_RECHDR_LENGTH = 0 := by omega
  simp only [writeRecordToBlock, writeContinueHeaderToBlock, DataRecord.packetAt,
    DataRecord.packet, filled.bufLen, notFull, enough, begun, more, if_false]

/-- The header of a record that waited for a new block. -/
theorem writeRecordToBlock_waited (long : WRITE_BLKHDR_LENGTH + WRITE_RECHDR_LENGTH < dev.bufLen)
    (filled : block.Filled dev []) (remlen : ℕ) :
    writeRecordToBlock block
        (r.packetAt key remlen (r.data.length + WRITE_RECHDR_LENGTH) .contHeader) =
      some (writeDataState
        (block.putHeader (r.packetAt key remlen (r.data.length + WRITE_RECHDR_LENGTH) .contHeader)
          r.stream r.data.length)
        (r.packetAt key (dev.bufLen - block.binbuf - WRITE_RECHDR_LENGTH) r.data.length
          .data)) := by
  have binbuf := filled.binbuf
  rw [List.length_nil, Nat.add_zero] at binbuf
  have notFull : ¬ dev.bufLen - block.binbuf = 0 := by omega
  have enough : ¬ dev.bufLen - block.binbuf < WRITE_RECHDR_LENGTH := by omega
  have begun : r.data.length < r.data.length + WRITE_RECHDR_LENGTH := by
    unfold WRITE_RECHDR_LENGTH
    omega
  have more : ¬ dev.bufLen - block.binbuf - WRITE_RECHDR_LENGTH = 0 := by omega
  simp only [writeRecordToBlock, writeContinueHeaderToBlock, DataRecord.packetAt,
    DataRecord.packet, filled.bufLen, notFull, enough, begun, more, if_false, if_true]

/-- The rest of a record: every round writes a byte at least. -/
theorem writeRecordLoop_continued
    (long : WRITE_BLKHDR_LENGTH + WRITE_RECHDR_LENGTH < dev.bufLen)
    (notEom : r.fileIndex ≠ EOM_LABEL) {fuel remlen : ℕ}
    (enough : r.data.length - k ≤ fuel) (inside : k < r.data.length)
    (wrote : Wrote dev key start raws block [] (some (r.stream, r.data.take k)) ds) :
    Completes dev key start r fuel block (r.packetAt key remlen (r.data.length - k) .contHeader)
      raws ds := by
  induction fuel generalizing k raws block ds remlen with
  | zero => omega
  | succ fuel ih =>
      have binbuf := wrote.filled.binbuf
      change block.binbuf = WRITE_BLKHDR_LENGTH at binbuf
      apply completes_of_round wrote (.continued inside) notEom (by omega) rfl rfl rfl
        (writeRecordToBlock_continued long wrote.filled remlen (le_of_lt inside))
      intro raws' block' ds' remlen' more wrote'
      exact ih (by omega) more wrote'

/-- The header of a record that fits into the block. -/
theorem writeRecordToBlock_fresh (bufLen : block.bufLen = dev.bufLen)
    (room : block.binbuf + WRITE_RECHDR_LENGTH ≤ dev.bufLen) :
    writeRecordToBlock block (r.packet key) =
      some (writeDataState
        (block.putHeader { r.packet key with wstate := .header } r.stream (r.data.length - 0))
        (r.packetAt key (dev.bufLen - block.binbuf - WRITE_RECHDR_LENGTH) (r.data.length - 0)
          .data)) := by
  have enough : ¬ dev.bufLen - block.binbuf < WRITE_RECHDR_LENGTH := by omega
  simp only [writeRecordToBlock, writeHeaderToBlock, DataRecord.packetAt, DataRecord.packet,
    bufLen, enough, if_false, Nat.sub_zero]

/-- `write_record`, from any block of the session. -/
theorem writeRecord_spec (long : WRITE_BLKHDR_LENGTH + WRITE_RECHDR_LENGTH < dev.bufLen)
    (notEom : r.fileIndex ≠ EOM_LABEL)
    (wrote : Wrote dev key start raws block fs none ds) :
    ∃ block' raws' fs' early, writeRecord dev block (r.packet key) raws = some (block', raws') ∧
      Wrote dev key start raws' block' fs' none (ds ++ (early ++ [r.delivered])) ∧
      ∀ d ∈ early, r.Early d := by
  have binbuf := wrote.filled.binbuf
  have fits := wrote.filled.fits
  have bufLen := wrote.filled.bufLen
  change Completes dev key start r (r.data.length + 1 + 1) block (r.packet key) raws ds
  by_cases room : block.binbuf + WRITE_RECHDR_LENGTH ≤ dev.bufLen
  · apply completes_of_round wrote (.header fs) notEom room rfl rfl rfl
      (writeRecordToBlock_fresh bufLen room)
    intro raws' block' ds' remlen' more wrote'
    exact writeRecordLoop_continued long notEom (by omega) more wrote'
  · have noRoom : dev.bufLen - block.binbuf < WRITE_RECHDR_LENGTH := by omega
    have some' : fs ≠ [] := by
      rintro rfl
      change block.binbuf = WRITE_BLKHDR_LENGTH at binbuf
      omega
    obtain ⟨raw, next, flushed, wrote'⟩ := wrote.flush some'
    have binbuf' := wrote'.filled.binbuf
    change next.binbuf = WRITE_BLKHDR_LENGTH at binbuf'
    have waited : Completes dev key start r (r.data.length + 1) next
        (r.packetAt key (dev.bufLen - block.binbuf) (r.data.length + WRITE_RECHDR_LENGTH)
          .contHeader) (raws ++ [raw]) ds := by
      apply completes_of_round wrote' (.header []) notEom (by omega) rfl rfl rfl
        (writeRecordToBlock_waited long wrote'.filled _)
      intro raws' block' ds' remlen' more wrote''
      exact writeRecordLoop_continued long notEom (by omega) more wrote''
    have round : writeRecordToBlock block (r.packet key) = some (false, block,
        r.packetAt key (dev.bufLen - block.binbuf) (r.data.length + WRITE_RECHDR_LENGTH)
          .contHeader) := by
      simp only [writeRecordToBlock, writeHeaderToBlock, DataRecord.packetAt, DataRecord.packet,
        bufLen, noRoom, if_true]
    unfold Completes at waited ⊢
    rw [writeRecordLoop, round]
    simp only [flushed]
    exact waited

theorem writeRecords_spec (long : WRITE_BLKHDR_LENGTH + WRITE_RECHDR_LENGTH < dev.bufLen)
    {records : List DataRecord} (notEom : ∀ r ∈ records, r.fileIndex ≠ EOM_LABEL)
    (wrote : Wrote dev key start raws block fs none ds) :
    ∃ block' raws' fs' es, writeRecords dev key records (block, raws) = some (block', raws') ∧
      Wrote dev key start raws' block' fs' none (ds ++ es) ∧ Delivers records es := by
  induction records generalizing block raws fs ds with
  | nil =>
      refine ⟨block, raws, fs, [], rfl, ?_, .nil⟩
      rw [List.append_nil]
      exact wrote
  | cons r rest ih =>
      obtain ⟨block', raws', fs', early, result, wrote', isEarly⟩ :=
        writeRecord_spec long (notEom r List.mem_cons_self) wrote
      obtain ⟨block'', raws'', fs'', es, result', wrote'', delivers⟩ :=
        ih (fun r member => notEom r (List.mem_cons_of_mem _ member)) wrote'
      refine ⟨block'', raws'', fs'', early ++ r.delivered :: es, ?_, ?_, .cons isEarly delivers⟩
      · rw [writeRecords, result]
        exact result'
      · rw [List.append_assoc, List.append_assoc] at wrote''
        exact wrote''

/-- All blocks of a session are written, and tell its records. -/
theorem writeSession_spec (long : WRITE_BLKHDR_LENGTH + WRITE_RECHDR_LENGTH < dev.bufLen)
    (key : SessionKey) (start : UInt32) {records : List DataRecord}
    (notEom : ∀ r ∈ records, r.fileIndex ≠ EOM_LABEL) :
    ∃ raws ds last, writeSession dev key start records = some raws ∧
      Tells dev key start none raws ds last none ∧ Delivers records ds := by
  obtain ⟨block, raws, fs, ds, result, wrote, delivers⟩ :=
    writeRecords_spec long notEom (Wrote.start_ dev key start (by omega))
  rw [List.nil_append] at wrote
  have tells {block : DevBlock} {raws : List (List UInt8)}
      (wrote : Wrote dev key start raws block [] none ds) :
      Tells dev key start none raws ds block.blockNumber none := by
    obtain ⟨before, es, now, tells, assembles, rfl⟩ := wrote.past
    cases assembles
    rw [List.append_nil]
    exact tells
  rw [writeSession, result]
  cases fs with
  | nil =>
      have empty : block.isEmpty = true := decide_eq_true (le_of_eq wrote.filled.binbuf)
      refine ⟨raws, ds, _, ?_, tells wrote, delivers⟩
      simp only [writeBlockToDev, empty, if_true, List.append_nil]
  | cons f rest =>
      obtain ⟨raw, next, flushed, wrote'⟩ := wrote.flush (List.cons_ne_nil f rest)
      refine ⟨raws ++ [raw], ds, _, ?_, tells wrote', delivers⟩
      simp only [flushed]

end Record

/-- The sessions on a volume come back: the callback sees every record of every session once and
in order, and nothing else but the beginnings of labels that are split over blocks. -/
theorem sessions_roundTrip {dev : BlockDevice}
    (long : WRITE_BLKHDR_LENGTH + WRITE_RECHDR_LENGTH < dev.bufLen)
    (sane : dev.bufLen ≤ MAX_BLOCK_LENGTH) (discard : Bool) {n : ℕ} {key : Fin n → SessionKey}
    (distinct : Function.Injective key) (start : Fin n → UInt32)
    {records : Fin n → List DataRecord}
    (notEom : ∀ i, ∀ r ∈ records i, r.fileIndex ≠ EOM_LABEL) :
    ∃ written, (∀ i, writeSession dev (key i) (start i) (records i) = some (written i)) ∧
      ∀ volume, Interleaves volume written →
        ∃ s, readRecords dev discard (volume.map Prod.snd) {} = .ok s ∧ s.ok = true ∧
          (∀ rec ∈ s.calls, rec.invalid = false ∧ ∃ i, rec.key = key i) ∧
          ∀ i, Delivers (records i)
            ((s.calls.filter fun rec => rec.key = key i).map DevRecord.view) := by
  have each (i : Fin n) := writeSession_spec long (key i) (start i) (notEom i)
  choose written ds last wrote tells delivers using each
  refine ⟨written, wrote, fun volume interleaves => ?_⟩
  obtain ⟨s, new, result, okIs, callsIs, known, shows⟩ :=
    readRecords_volume distinct sane discard interleaves (s := {}) tells
      (fun i => Keeps.nil (key i) _)
  rw [List.nil_append] at callsIs
  refine ⟨s, result, okIs, fun rec member => ?_, fun i => ?_⟩
  · rw [callsIs] at member
    obtain ⟨i, own⟩ := known rec member
    exact ⟨((shows i).own rec (List.mem_filter.mpr ⟨member, decide_eq_true own⟩)).2, i, own⟩
  · rw [callsIs, (shows i).view]
    exact delivers i

/-- A file device with a block buffer of `bufLen` bytes. -/
def fileDevice (bufLen : ℕ) : BlockDevice where
  bufLen := bufLen
  isTape := false
  minBlockSize := 0
  maxBlockSize := bufLen
  doChecksum := false
  bcrc32 := fun _ => 0
  tape := fun tape => by cases tape

theorem sessions_roundTrip_two :
    let key (i : Fin 2) : SessionKey := ⟨UInt32.ofNat i, 7⟩
    let records (i : Fin 2) : List DataRecord :=
      [⟨SOS_LABEL, 1, List.replicate 30 5, by decide, by decide⟩,
        ⟨1, 2, List.replicate (70 * i) 6, by decide, by revert i; decide⟩]
    ∃ written, (∀ i, writeSession (fileDevice 64) (key i) 0 (records i) = some (written i)) ∧
      ∀ volume, Interleaves volume written →
        ∃ s, readRecords (fileDevice 64) true (volume.map Prod.snd) {} = .ok s ∧ s.ok = true ∧
          (∀ rec ∈ s.calls, rec.invalid = false ∧ ∃ i, rec.key = key i) ∧
          ∀ i, Delivers (records i)
            ((s.calls.filter fun rec => rec.key = key i).map DevRecord.view) :=
  sessions_roundTrip (by decide) (by decide) true (by decide) (fun _ => 0) (by decide)

/-- A session is written and read back. -/
def reread (dev : BlockDevice) (records : List DataRecord) : Option (List Delivered) :=
  match writeSession dev ⟨1, 2⟩ 0 records with
  | none => none
  | some written =>
      match readRecords dev false (written.map fun bytes => ⟨bytes, 0, 0⟩) {} with
      | .error _ => none
      | .ok s => some (s.calls.map DevRecord.view)

/-- A record that fits into an empty block is put there as a whole. -/
theorem writeRecord_whole {dev : BlockDevice} {block : DevBlock} (filled : block.Filled dev [])
    {r : DataRecord} (key : SessionKey)
    (fits : WRITE_BLKHDR_LENGTH + (WRITE_RECHDR_LENGTH + r.data.length) ≤ dev.bufLen) :
    ∃ block' bytes, writeRecord dev block (r.packet key) [] = some (block', []) ∧
      block'.Filled dev bytes ∧ bytes.length = WRITE_RECHDR_LENGTH + r.data.length := by
  have binbuf : block.binbuf = WRITE_BLKHDR_LENGTH := filled.binbuf
  have room : block.binbuf + WRITE_RECHDR_LENGTH ≤ dev.bufLen := by omega
  obtain ⟨headed, -, -, size⟩ :=
    filled.putHeader room { r.packet key with wstate := .header } r.stream (r.data.length - 0)
  obtain ⟨block', rec', data, filled', -, -, -⟩ := writeDataState_spec headed r key
    (dev.bufLen - block.binbuf - WRITE_RECHDR_LENGTH) (Nat.zero_le _)
  have all : r.data.length ≤ 0 + (dev.bufLen - (block.binbuf + WRITE_RECHDR_LENGTH)) := by omega
  rw [size, decide_eq_true all] at data
  refine ⟨block', _, ?_, filled', ?_⟩
  · rw [writeRecord, writeRecordLoop, writeRecordToBlock_fresh filled.bufLen room, data]
  · rw [size, List.nil_append, List.drop_zero, List.take_of_length_le (by omega),
      List.length_append, recordHeader_length]

/-- A block above `MAX_BLOCK_LENGTH` is an error of the read. -/
theorem readBlockFromDev_large {dev : BlockDevice} {block : DevBlock} {behind : List UInt8}
    {checkSum : UInt32} (large : MAX_BLOCK_LENGTH < block.binbuf) (fits : block.binbuf < 2 ^ 32)
    {raw : RawBlock} (at_ : raw.bytes = serialUint32 checkSum ++ (headerTail block ++ behind)) :
    readBlockFromDev dev raw = .ok .error := by
  have long : ¬ raw.bytes.length < BLKHDR2_LENGTH := by
    rw [at_]
    simp only [List.length_append, serialUint32_length, headerTail_length]
    unfold BLKHDR2_LENGTH
    omega
  let fresh : DevBlock :=
    { buf := raw.bytes, bufLen := dev.bufLen, bufp := 0, binbuf := 0
      readLen := raw.bytes.length, blockAddr := raw.blockAddr }
  have header : unserBlockHeader dev fresh = .ok none := unserBlockHeader_large large fits at_
  rw [readBlockFromDev, if_neg long]
  simp only
  rw [show unserBlockHeader dev _ = _ from header]

theorem reread_eq {dev : BlockDevice} {records : List DataRecord} {written : List (List UInt8)}
    {s : ReadState} (session : writeSession dev ⟨1, 2⟩ 0 records = some written)
    (read : readRecords dev false (written.map fun bytes => ⟨bytes, 0, 0⟩) {} = .ok s) :
    reread dev records = some (s.calls.map DevRecord.view) := by
  rw [reread, session]
  simp only [read]

/-- A record that makes its block longer than `MAX_BLOCK_LENGTH` is lost. -/
theorem reread_large {dev : BlockDevice} {r : DataRecord}
    (large : MAX_BLOCK_LENGTH < WRITE_BLKHDR_LENGTH + (WRITE_RECHDR_LENGTH + r.data.length))
    (fits : WRITE_BLKHDR_LENGTH + (WRITE_RECHDR_LENGTH + r.data.length) ≤ dev.bufLen)
    (bound : dev.bufLen < 2 ^ 32) : reread dev [r] = some [] := by
  have filled := (Wrote.start_ dev ⟨1, 2⟩ 0 (by omega)).filled
  obtain ⟨block, bytes, written, filled', length⟩ := writeRecord_whole filled ⟨1, 2⟩ fits
  have data : bytes ≠ [] := by
    apply List.ne_nil_of_length_pos
    rw [length]
    unfold WRITE_RECHDR_LENGTH
    omega
  obtain ⟨checkSum, padding, next, flushed, -⟩ := writeBlockToDev_spec filled' data
  have session : writeSession dev ⟨1, 2⟩ 0 [r] =
      some [serialUint32 checkSum ++ (headerTail block ++ (bytes ++ padding))] := by
    simp only [writeSession, writeRecords, written, flushed, List.nil_append]
  have binbuf := filled'.binbuf
  have inside := filled'.fits
  rw [length] at binbuf
  have refused : readBlockFromDev dev
      ⟨serialUint32 checkSum ++ (headerTail block ++ (bytes ++ padding)), 0, 0⟩ = .ok .error :=
    readBlockFromDev_large (lt_of_lt_of_eq large binbuf.symm) (lt_of_le_of_lt inside bound) rfl
  have read : readRecords dev false
      ([serialUint32 checkSum ++ (headerTail block ++ (bytes ++ padding))].map
        fun bytes => ⟨bytes, 0, 0⟩) {} = .ok { ok := false } := by
    rw [List.map_singleton, readRecords, refused]
  exact reread_eq session read

theorem reread_replicate {m n : ℕ} (short : n < MAX_BLOCK_LENGTH)
    (large : MAX_BLOCK_LENGTH < WRITE_BLKHDR_LENGTH + (WRITE_RECHDR_LENGTH + n))
    (fits : WRITE_BLKHDR_LENGTH + (WRITE_RECHDR_LENGTH + n) ≤ m) (bound : m < 2 ^ 32) :
    reread (fileDevice m) [⟨1, 1, List.replicate n 0, by decide,
      by rw [List.length_replicate]; exact short⟩] = some [] := by
  apply reread_large
  · rw [List.length_replicate]
    exact large
  · rw [List.length_replicate]
    exact fits
  · exact bound

/-- A record with the index of an end of medium label is lost, a label that is split over two
blocks is passed twice, and a block can be too long to be read. -/
theorem sessions_roundTrip_fails :
    reread (fileDevice 64) [⟨EOM_LABEL, 1, [5], by decide, by decide⟩] = some [] ∧
    reread (fileDevice 40) [⟨SOS_LABEL, 1, [5, 6, 7, 8, 9], by decide, by decide⟩] =
      some [⟨SOS_LABEL, 1, 4, [5, 6, 7, 8], false⟩, ⟨SOS_LABEL, 1, 5, [5, 6, 7, 8, 9], true⟩] ∧
    reread (fileDevice (MAX_BLOCK_LENGTH + 100)) [⟨1, 1, List.replicate (MAX_BLOCK_LENGTH - 1) 0,
      by decide, by rw [List.length_replicate]; decide⟩] = some [] :=
  ⟨by decide +kernel, by decide +kernel,
    reread_replicate (by decide) (by decide) (by decide) (by decide)⟩

end Bacula
