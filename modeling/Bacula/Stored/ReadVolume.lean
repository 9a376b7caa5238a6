import Bacula.Stored.Fragment

/-! What `read_records` delivers from the blocks of several sessions on a volume. -/
namespace Bacula
open ByteCodec Fragment

theorem replaceFirst_find {α : Type} (p : α → Bool) {new : α} (hit : p new = true) {l : List α}
    {old : α} (found : l.find? p = some old) : (replaceFirst p new l).find? p = some new := by
  induction l with
  | nil => cases found
  | cons x rest ih =>
      rw [replaceFirst]
      cases here : p x with
      | true => rw [if_pos rfl, List.find?_cons_of_pos hit]
      | false =>
          rw [List.find?_cons_of_neg (by rw [here]; exact Bool.false_ne_true)] at found
          rw [if_neg Bool.false_ne_true,
            List.find?_cons_of_neg (by rw [here]; exact Bool.false_ne_true)]
          exact ih found

theorem replaceFirst_find_other {α : Type} (p q : α → Bool) {new : α} (miss : q new = false)
    (disjoint : ∀ x, p x = true → q x = false) (l : List α) :
    (replaceFirst p new l).find? q = l.find? q := by
  induction l with
  | nil => rfl
  | cons x rest ih =>
      rw [replaceFirst]
      cases here : p x with
      | true => simp only [if_true, List.find?_cons, miss, disjoint x here]
      | false => simp only [Bool.false_eq_true, if_false, List.find?_cons, ih]

/-- The table has the record of a session, with what was begun in the block `last`. -/
def Keeps (recs : List DevRecord) (key : SessionKey) (last : UInt32) (begun : Begun) : Prop :=
  match recs.find? (fun rec => rec.key = key) with
  | none => begun = none
  | some rec => rec.Holds key begun ∧ (begun ≠ none → rec.blockNumber = last) ∧ rec.invalid = false

theorem Keeps.nil (key : SessionKey) (last : UInt32) : Keeps [] key last none := rfl

/-- A record that is continued in the next block is valid. -/
theorem checkInvalid_next {discard : Bool} {block : DevBlock} {rec : DevRecord}
    {key : SessionKey} {begun : Begun} (holds : rec.Holds key begun)
    (previous : begun ≠ none → rec.blockNumber = block.blockNumber - 1) :
    checkInvalid discard block rec = rec := by
  apply if_neg
  intro ⟨more, other, _⟩
  cases begun with
  | none => exact more (holds.fresh rfl)
  | some r => exact other (previous (Option.some_ne_none r))

theorem Fragment.length_le_payload (fs : List Fragment) : fs.length ≤ (payload fs).length := by
  induction fs with
  | nil => exact le_refl _
  | cons f rest ih =>
      have header : f.encode.length = WRITE_RECHDR_LENGTH + f.chunk.length := f.encode_length
      rw [payload, List.flatMap_cons, List.length_append, List.length_cons, header]
      unfold WRITE_RECHDR_LENGTH payload at *
      omega

/-- A round of the loop over blocks delivers what the fragments of the block mean, and keeps the
records of the other sessions. -/
theorem readBlock_fragments {key : SessionKey} (discard : Bool) (endAddr : ℕ)
    {fs : List Fragment} {ds : List Delivered} {begun after : Begun}
    (assembles : Assembles begun fs ds after) (cut : Cut fs) (some : fs ≠ []) {block : DevBlock}
    {recs : List DevRecord} (unread : block.Unread key (payload fs))
    (keeps : Keeps recs key (block.blockNumber - 1) begun) :
    ∃ recs' calls, readBlock discard endAddr block recs = .ok (recs', calls) ∧
      Shows key calls ds ∧ Keeps recs' key block.blockNumber after ∧
      ∀ other, other ≠ key → ∀ last p, Keeps recs other last p → Keeps recs' other last p := by
  have enough : fs.length < block.binbuf + 1 := by
    rw [unread.binbuf]
    exact Nat.lt_succ_of_le (Fragment.length_le_payload fs)
  unfold readBlock
  rw [unread.key]
  unfold Keeps at keeps
  cases found : recs.find? (fun rec => rec.key = key) with
  | none =>
      rw [found] at keeps
      obtain rfl : begun = none := keeps
      let fresh : DevRecord := { blockNumber := block.blockNumber }
      have holds : fresh.Holds key none := ⟨Or.inl rfl, fun _ => rfl, fun r none => by cases none⟩
      obtain ⟨rec', new, result, holds', key', number, valid, shows⟩ :=
        @readBlockRecords_fragments key endAddr fs ds none after assembles cut _ enough block fresh
          [] unread holds (Or.inr some) rfl rfl
      refine ⟨rec' :: recs, new, ?_, shows, ?_, ?_⟩
      · rw [List.nil_append] at result
        simp only [found]
        rw [show readBlockRecords endAddr _ block _ [] = _ from result]
      · rw [Keeps, List.find?_cons_of_pos (by rw [key']; exact decide_eq_true rfl)]
        exact ⟨holds', fun _ => number, valid⟩
      · intro other different last p keeps'
        unfold Keeps at keeps' ⊢
        rw [List.find?_cons_of_neg (by rw [key', decide_eq_true_eq]; exact different.symm)]
        exact keeps'
  | some rec =>
      rw [found] at keeps
      obtain ⟨holds, previous, valid⟩ := keeps
      have key₀ : rec.key = key := by
        have own := List.find?_some found
        exact of_decide_eq_true own
      let ready : DevRecord := { rec with stateBits := {}, blockNumber := block.blockNumber }
      have holds₀ : ready.Holds key begun := ⟨holds.ready, holds.fresh, holds.begun⟩
      obtain ⟨rec', new, result, holds', key', number, valid', shows⟩ :=
        @readBlockRecords_fragments key endAddr fs ds begun after assembles cut _ enough block ready
          [] unread holds₀ (Or.inl key₀) valid rfl
      refine ⟨replaceFirst (fun rec => rec.key = key) rec' recs, new, ?_, shows, ?_, ?_⟩
      · rw [List.nil_append] at result
        simp only [found, checkInvalid_next holds previous]
        rw [show readBlockRecords endAddr _ block _ [] = _ from result]
      · rw [Keeps, replaceFirst_find (fun rec : DevRecord => rec.key = key)
          (decide_eq_true key') found]
        exact ⟨holds', fun _ => number, valid'⟩
      · intro other different last p keeps'
        have miss : decide (rec'.key = other) = false := by
          rw [decide_eq_false_iff_not, key']
          exact different.symm
        have disjoint : ∀ rec : DevRecord, decide (rec.key = key) = true →
            decide (rec.key = other) = false := by
          intro rec own
          rw [decide_eq_false_iff_not, of_decide_eq_true own]
          exact different.symm
        unfold Keeps at keeps' ⊢
        rw [replaceFirst_find_other (fun rec : DevRecord => rec.key = key)
          (fun rec => rec.key = other) miss disjoint]
        exact keeps'

/-- A block on a volume that holds fragments of a session. -/
structure Written (dev : BlockDevice) (key : SessionKey) (number : UInt32) (fs : List Fragment)
    (raw : List UInt8) : Prop where
  some : fs ≠ []
  cut : Cut fs
  bytes : ∃ block checkSum padding, DevBlock.key block = key ∧ block.blockNumber = number ∧
    block.binbuf = WRITE_BLKHDR_LENGTH + (payload fs).length ∧
    block.binbuf ≤ dev.bufLen ∧
    (dev.doChecksum = true → checkSum = dev.bcrc32 (headerTail block ++ payload fs)) ∧
    raw = serialUint32 checkSum ++ (headerTail block ++ (payload fs ++ padding))

/-- A read that begins at a written block gives the block, also when it goes on behind it. -/
theorem Written.read {dev : BlockDevice} {key : SessionKey} {number : UInt32}
    {fs : List Fragment} {bytes : List UInt8} (written : Written dev key number fs bytes)
    (sane : dev.bufLen ≤ MAX_BLOCK_LENGTH) {raw : RawBlock} (at_ : bytes <+: raw.bytes) :
    ∃ block, readBlockFromDev dev raw = .ok (.ok block) ∧ block.Unread key (payload fs) ∧
      block.blockNumber = number := by
  obtain ⟨block, checkSum, padding, rfl, rfl, binbuf, fits, checked, rfl⟩ := written.bytes
  obtain ⟨behind, read⟩ := at_
  let fresh : DevBlock :=
    { buf := raw.bytes, bufLen := dev.bufLen, bufp := 0, binbuf := 0
      readLen := raw.bytes.length, blockAddr := raw.blockAddr }
  have buf : fresh.buf = serialUint32 checkSum ++
      (headerTail block ++ (payload fs ++ (padding ++ behind))) := by
    rw [← List.append_assoc (payload fs), ← List.append_assoc (headerTail block),
      ← List.append_assoc (serialUint32 checkSum), read]
  have length : raw.bytes.length =
      WRITE_BLKHDR_LENGTH + (payload fs).length + (padding ++ behind).length := by
    rw [show raw.bytes = _ from buf]
    simp only [List.length_append, serialUint32_length, headerTail_length]
    unfold WRITE_BLKHDR_LENGTH BLKHDR2_LENGTH
    omega
  have readLen : block.binbuf ≤ fresh.readLen := by
    change _ ≤ raw.bytes.length
    omega
  have header := unserBlockHeader_written binbuf (fits.trans sane) checked buf readLen
  have long : ¬ raw.bytes.length < BLKHDR2_LENGTH := by
    rw [length]
    unfold WRITE_BLKHDR_LENGTH
    omega
  refine ⟨{ fresh with
    blockVer := 2
    volSessionId := block.volSessionId
    volSessionTime := block.volSessionTime
    checkSum := checkSum
    bufp := WRITE_BLKHDR_LENGTH
    binbuf := (payload fs).length
    blockLen := block.binbuf
    blockNumber := block.blockNumber }, ?_, ⟨rfl, rfl, rfl, padding ++ behind, ?_⟩, rfl⟩
  · rw [readBlockFromDev, if_neg long]
    simp only
    rw [show unserBlockHeader dev _ = _ from header]
    simp only
    rw [if_neg (not_lt.mpr readLen)]
  · change fresh.buf.drop WRITE_BLKHDR_LENGTH = _
    rw [buf, ← List.append_assoc]
    apply List.drop_left'
    rw [List.length_append, serialUint32_length, headerTail_length]
    rfl

/-- The blocks of a session between two block numbers, and what they deliver. -/
inductive Tells (dev : BlockDevice) (key : SessionKey) : UInt32 → Begun → List (List UInt8) →
    List Delivered → UInt32 → Begun → Prop where
  | nil (number : UInt32) (begun : Begun) : Tells dev key number begun [] [] number begun
  | cons {number last : UInt32} {begun next after : Begun} {fs : List Fragment}
      {raw : List UInt8} {rest : List (List UInt8)} {ds es : List Delivered} :
      Written dev key number fs raw → Assembles begun fs ds next →
        Tells dev key (number + 1) next rest es last after →
          Tells dev key number begun (raw :: rest) (ds ++ es) last after

theorem Tells.snoc {dev : BlockDevice} {key : SessionKey} {number last : UInt32}
    {begun next after : Begun} {fs : List Fragment} {raw : List UInt8} {raws : List (List UInt8)}
    {ds es : List Delivered} (tells : Tells dev key number begun raws ds last next)
    (written : Written dev key last fs raw) (assembles : Assembles next fs es after) :
    Tells dev key number begun (raws ++ [raw]) (ds ++ es) (last + 1) after := by
  induction tells with
  | nil number begun =>
      rw [List.nil_append, List.nil_append, ← List.append_nil es]
      exact .cons written assembles (.nil _ _)
  | cons here assembles' rest ih =>
      rw [List.cons_append, List.append_assoc]
      exact .cons here assembles' (ih written assembles)

theorem Tells.of_nil {dev : BlockDevice} {key : SessionKey} {number last : UInt32}
    {begun after : Begun} {ds : List Delivered}
    (tells : Tells dev key number begun [] ds last after) : ds = [] := by
  cases tells
  rfl

theorem Tells.of_cons {dev : BlockDevice} {key : SessionKey} {number last : UInt32}
    {begun after : Begun} {raw : List UInt8} {rest : List (List UInt8)} {ds : List Delivered}
    (tells : Tells dev key number begun (raw :: rest) ds last after) :
    ∃ fs next now soon, ds = now ++ soon ∧ Written dev key number fs raw ∧
      Assembles begun fs now next ∧ Tells dev key (number + 1) next rest soon last after := by
  cases tells with
  | cons written assembles rest => exact ⟨_, _, _, _, rfl, written, assembles, rest⟩

/-- The blocks of the sessions on a volume, in their own order, each with the session that wrote
it. A read may go on behind a block. -/
def Interleaves {ι : Type} [DecidableEq ι] (volume : List (ι × RawBlock))
    (written : ι → List (List UInt8)) : Prop :=
  ∀ i, List.Forall₂ (fun bytes entry => bytes <+: (Prod.snd entry).bytes) (written i)
    (volume.filter (fun entry => entry.1 = i))

theorem readRecords_volume {ι : Type} [DecidableEq ι] {key : ι → SessionKey}
    (distinct : Function.Injective key) {dev : BlockDevice}
    (sane : dev.bufLen ≤ MAX_BLOCK_LENGTH) (discard : Bool) {volume : List (ι × RawBlock)}
    {written : ι → List (List UInt8)} (interleaves : Interleaves volume written) {s : ReadState}
    {number last : ι → UInt32} {begun after : ι → Begun} {ds : ι → List Delivered}
    (tells : ∀ i, Tells dev (key i) (number i) (begun i) (written i) (ds i) (last i) (after i))
    (keeps : ∀ i, Keeps s.recs (key i) (number i - 1) (begun i)) :
    ∃ s' new, readRecords dev discard (volume.map Prod.snd) s = .ok s' ∧ s'.ok = s.ok ∧
      s'.calls = s.calls ++ new ∧ (∀ rec ∈ new, ∃ i, rec.key = key i) ∧
      ∀ i, Shows (key i) (new.filter fun rec => rec.key = key i) (ds i) := by
  induction volume generalizing s written number begun ds with
  | nil =>
      refine ⟨s, [], rfl, rfl, (List.append_nil _).symm, fun _ member => absurd member
        List.not_mem_nil, fun i => ?_⟩
      have none : written i = [] := List.forall₂_nil_right_iff.mp (interleaves i)
      have here := tells i
      rw [none] at here
      rw [here.of_nil]
      exact ⟨rfl, fun _ member => absurd member List.not_mem_nil⟩
  | cons entry rest ih =>
      obtain ⟨j, raw⟩ := entry
      have own := interleaves j
      simp only [List.filter_cons, decide_true, if_true] at own
      obtain ⟨bytes, later, at_, behind, writtenIs⟩ := List.forall₂_cons_right_iff.mp own
      have here := tells j
      rw [writtenIs] at here
      obtain ⟨fs, next, now, soon, dsIs, block, assembles, rest'⟩ := here.of_cons
      obtain ⟨block', read, unread, numberIs⟩ := block.read sane at_
      have keeps' := keeps j
      rw [← numberIs] at keeps'
      obtain ⟨recs', calls, round, shows, keeps'', others⟩ :=
        readBlock_fragments discard raw.endAddr assembles block.cut block.some unread keeps'
      have ownKey : ∀ rec ∈ calls, rec.key = key j := fun rec member => (shows.own rec member).1
      have interleaves' : Interleaves rest (Function.update written j later) := by
        intro i
        by_cases same : i = j
        · subst same
          rw [Function.update_self]
          exact behind
        · rw [Function.update_of_ne same]
          have there := interleaves i
          simp only [List.filter_cons, Ne.symm same, decide_false, Bool.false_eq_true, if_false]
            at there
          exact there
      have tells' (i : ι) : Tells dev (key i) (Function.update number j (number j + 1) i)
          (Function.update begun j next i) (Function.update written j later i)
          (Function.update ds j soon i) (last i) (after i) := by
        by_cases same : i = j
        · subst same
          simp only [Function.update_self]
          exact rest'
        · simp only [Function.update_of_ne same]
          exact tells i
      have kept (i : ι) : Keeps recs' (key i) (Function.update number j (number j + 1) i - 1)
          (Function.update begun j next i) := by
        by_cases same : i = j
        · subst same
          simp only [Function.update_self, add_sub_cancel_right]
          rw [numberIs] at keeps''
          exact keeps''
        · simp only [Function.update_of_ne same]
          exact others _ (fun eq => same (distinct eq)) _ _ (keeps i)
      obtain ⟨s', new, result, okIs, callsIs, known, showsAll⟩ :=
        @ih _ interleaves' { s with recs := recs', calls := s.calls ++ calls } _ _ _ tells' kept
      refine ⟨s', calls ++ new, ?_, okIs, ?_, ?_, ?_⟩
      · rw [List.map_cons, readRecords]
        simp only [read, round]
        exact result
      · rw [callsIs, List.append_assoc]
      · intro rec member
        rcases List.mem_append.mp member with left | right
        · exact ⟨j, ownKey rec left⟩
        · exact known rec right
      · intro i
        have showsRest := showsAll i
        rw [List.filter_append]
        by_cases same : i = j
        · subst same
          rw [Function.update_self] at showsRest
          rw [dsIs, List.filter_eq_self.mpr fun rec member => decide_eq_true (ownKey rec member)]
          exact shows.append showsRest
        · rw [Function.update_of_ne same] at showsRest
          have none : calls.filter (fun rec => rec.key = key i) = [] := by
            apply List.filter_eq_nil_iff.mpr
            intro rec member
            rw [decide_eq_true_eq, ownKey rec member]
            exact fun eq => same (distinct eq).symm
          rw [none]
          exact showsRest

end Bacula
