import Bacula.Stored.MatchBsr

/-! What `read_records` passes on of a bootstrap: the records that it selects, all of them and no
others, whatever the flags of the bootstrap and the repositioning leave out. -/
namespace Bacula.MatchBsr
open MatchVoladdr

/-- A bsr as the Director writes it for one JobMedia record. -/
structure Selection where
  volumeName : String
  saddr : UInt64
  eaddr : UInt64
  volSessionId : UInt32
  volSessionTime : UInt32
  findex : List (ℤ × ℤ)
  others : Block → DevRecord → Bool
  some : findex ≠ []
  nonempty : ∀ f ∈ findex, f.1 ≤ f.2
  ascending : findex.Pairwise fun f f' => f.2 < f'.1

/-- How many indexes up to this one are listed. -/
def upTo (findex : List (ℤ × ℤ)) (fileIndex : ℤ) : ℕ :=
  (findex.map fun f => (min f.2 fileIndex - f.1 + 1).toNat).sum

def indexes (findex : List (ℤ × ℤ)) : ℕ := (findex.map fun f => (f.2 - f.1 + 1).toNat).sum

def Selection.bsr (sel : Selection) : BSR where
  volume := [sel.volumeName]
  voladdr := [⟨sel.saddr, sel.eaddr, false⟩]
  sesstime := [sel.volSessionTime]
  sessid := [(sel.volSessionId, sel.volSessionId)]
  fileIndex := sel.findex
  others := sel.others
  count := indexes sel.findex
  found := 0
  done := false

def Selection.takes (sel : Selection) (volumeName : String) (block : Block) : Prop :=
  volumeName = sel.volumeName ∧ (sel.saddr ≤ block.endAddr ∧ block.endAddr ≤ sel.eaddr) ∧
    block.volSessionTime = sel.volSessionTime ∧ block.volSessionId = sel.volSessionId

def inFindex (fileIndex : ℤ) (f : ℤ × ℤ) : Prop := f.1 ≤ fileIndex ∧ fileIndex ≤ f.2

def Selection.selects (sel : Selection) (volumeName : String) (block : Block) (rec : DevRecord) :
    Prop :=
  sel.takes volumeName block ∧ ∃ f ∈ sel.findex, inFindex rec.fileIndex f

instance (sel : Selection) (volumeName : String) (block : Block) :
    Decidable (sel.takes volumeName block) :=
  inferInstanceAs (Decidable (_ ∧ _))

instance (fileIndex : ℤ) (f : ℤ × ℤ) : Decidable (inFindex fileIndex f) :=
  inferInstanceAs (Decidable (_ ∧ _))

instance (sel : Selection) (volumeName : String) (block : Block) (rec : DevRecord) :
    Decidable (sel.selects volumeName block rec) := inferInstanceAs (Decidable (_ ∧ _))

abbrev Wanted (sels : List Selection) (volumeName : String) (block : Block) (rec : DevRecord) : Prop :=
  ∃ sel ∈ sels, sel.selects volumeName block rec

/-- The records of a block that some bsr selects. -/
def selected (sels : List Selection) (volumeName : String) (block : Block) : List DevRecord :=
  block.recs.filter (Wanted sels volumeName block ·)

/-! ## File indexes -/

theorem upTo_mono (findex : List (ℤ × ℤ)) {i j : ℤ} (le : i ≤ j) : upTo findex i ≤ upTo findex j := by
  unfold upTo
  induction findex with
  | nil => exact le_rfl
  | cons f findex ih =>
      simp only [List.map_cons, List.sum_cons]
      omega

theorem upTo_le (findex : List (ℤ × ℤ)) (i : ℤ) : upTo findex i ≤ indexes findex := by
  unfold upTo indexes
  induction findex with
  | nil => exact le_rfl
  | cons f findex ih =>
      simp only [List.map_cons, List.sum_cons]
      omega

/-- A listed index is one more. -/
theorem upTo_lt {findex : List (ℤ × ℤ)} {f : ℤ × ℤ} (here : f ∈ findex) {i j : ℤ} (lt : i < j)
    (inside : inFindex j f) :
    upTo findex i < upTo findex j := by
  induction findex with
  | nil => cases here
  | cons g findex ih =>
      have rest := upTo_mono findex lt.le
      obtain ⟨low, high⟩ := inside
      simp only [upTo, List.map_cons, List.sum_cons] at rest ⊢
      rcases List.mem_cons.mp here with rfl | later
      · omega
      · have less := ih later
        simp only [upTo] at less
        omega

theorem upTo_pos {findex : List (ℤ × ℤ)} {f : ℤ × ℤ} (here : f ∈ findex) {i : ℤ}
    (inside : inFindex i f) :
    0 < upTo findex i :=
  lt_of_le_of_lt (Nat.zero_le _) (upTo_lt here (sub_one_lt i) inside)

theorem Selection.indexes_ne_zero (sel : Selection) : indexes sel.findex ≠ 0 := by
  obtain ⟨f, here⟩ := List.exists_mem_of_ne_nil _ sel.some
  have pos := upTo_pos here (i := f.2) ⟨sel.nonempty f here, le_rfl⟩
  have le := upTo_le sel.findex f.2
  omega

/-- What is left of ascending ranges decides about an index that is not below any index asked before. -/
theorem matchFindex_spec (fileIndex : ℤ) {findex : List (ℤ × ℤ)} (some : findex ≠ [])
    (nonempty : ∀ f ∈ findex, f.1 ≤ f.2) (ascending : findex.Pairwise fun f f' => f.2 < f'.1) :
    ((matchFindex fileIndex findex).1 = true ↔ ∃ f ∈ findex, inFindex fileIndex f) ∧
      (∃ dropped, findex = dropped ++ (matchFindex fileIndex findex).2.1 ∧
        ∀ f ∈ dropped, f.2 < fileIndex) ∧
      (matchFindex fileIndex findex).2.1 ≠ [] ∧
      ((matchFindex fileIndex findex).2.2 = true → ∀ f ∈ findex, f.2 < fileIndex) := by
  fun_induction matchFindex fileIndex findex with
  | case1 => exact absurd rfl some
  | case2 f inside =>
      exact ⟨by simpa [inFindex] using inside, ⟨[], rfl, by simp⟩, by simp, by simp⟩
  | case3 f outside =>
      refine ⟨?_, ⟨[], rfl, by simp⟩, by simp, by simp⟩
      simpa [inFindex] using outside
  | case4 f next rest inside =>
      refine ⟨?_, ⟨[], rfl, by simp⟩, by simp, by simp⟩
      exact iff_of_true rfl ⟨f, List.mem_cons_self, inside⟩
  | case5 f next rest outside past ih =>
      obtain ⟨found, ⟨dropped, split, low⟩, left, done⟩ := ih (List.cons_ne_nil _ _)
        (fun g here => nonempty g (List.mem_cons_of_mem f here)) (List.pairwise_cons.mp ascending).2
      refine ⟨found.trans ?_, ⟨f :: dropped, by rw [List.cons_append, ← split], ?_⟩, left, ?_⟩
      · have notHere : ¬ inFindex fileIndex f := outside
        simp [notHere]
      · exact List.forall_mem_cons.mpr ⟨past, low⟩
      · exact fun finished => List.forall_mem_cons.mpr ⟨past, done finished⟩
  | case6 f next rest outside ahead =>
      refine ⟨iff_of_false (by simp) ?_, ⟨[], rfl, by simp⟩, by simp, by simp⟩
      rintro ⟨g, here, inside⟩
      have low : fileIndex < f.1 := by
        by_contra above
        exact outside ⟨not_lt.mp above, not_lt.mp ahead⟩
      rcases List.mem_cons.mp here with rfl | later
      · exact outside inside
      · have behind := (List.pairwise_cons.mp ascending).1 g later
        have atLeast := nonempty f List.mem_cons_self
        have first := inside.1
        omega

/-! ## One bsr -/

/-- The records that are still to come. -/
abbrev Ahead := String → Block → DevRecord → Prop

/-- What the flags of a bsr have given up was not to come any more. -/
structure Tracks (ahead : Ahead) (sel : Selection) (bsr : BSR) : Prop where
  volume : bsr.volume = [sel.volumeName]
  sesstime : bsr.sesstime = [sel.volSessionTime]
  sessid : bsr.sessid = [(sel.volSessionId, sel.volSessionId)]
  count : bsr.count = indexes sel.findex
  voladdr : ∃ done, bsr.voladdr = [⟨sel.saddr, sel.eaddr, done⟩] ∧ (bsr.done = false → done = false)
  finished : bsr.done = true → ∀ v b r, ahead v b r → ¬ sel.selects v b r
  left : ∃ dropped, sel.findex = dropped ++ bsr.fileIndex ∧
    ∀ f ∈ dropped, ∀ v b r, ahead v b r → sel.takes v b → f.2 < r.fileIndex
  some : bsr.fileIndex ≠ []

theorem Tracks.mono {ahead later : Ahead} {sel : Selection} {bsr : BSR} (tracks : Tracks ahead sel bsr)
    (sub : ∀ v b r, later v b r → ahead v b r) : Tracks later sel bsr :=
  { tracks with
    finished := fun done v b r here => tracks.finished done v b r (sub v b r here)
    left := by
      obtain ⟨dropped, split, low⟩ := tracks.left
      exact ⟨dropped, split, fun f gone v b r here => low f gone v b r (sub v b r here)⟩ }

theorem tracks_start (ahead : Ahead) (sel : Selection) : Tracks ahead sel sel.bsr where
  volume := rfl
  sesstime := rfl
  sessid := rfl
  count := rfl
  voladdr := ⟨false, rfl, fun _ => rfl⟩
  finished done := absurd done (by simp [Selection.bsr])
  left := ⟨[], rfl, by simp⟩
  some := sel.some

/-- The record is read now: nothing of its volume in front of it comes later. -/
structure Now (ahead : Ahead) (volumeName : String) (block : Block) (rec : DevRecord) : Prop where
  here : ahead volumeName block rec
  address : ∀ b r, ahead volumeName b r → block.endAddr ≤ b.endAddr
  fileIndex : ∀ b r, ahead volumeName b r → b.session = block.session → rec.fileIndex ≤ r.fileIndex

theorem takes_session {sel : Selection} {v v' : String} {b b' : Block} (takes : sel.takes v b)
    (takes' : sel.takes v' b') : v = v' ∧ b.session = b'.session := by
  obtain ⟨volume, -, time, id⟩ := takes
  obtain ⟨volume', -, time', id'⟩ := takes'
  exact ⟨volume.trans volume'.symm, by rw [Block.session, Block.session, time, id, time', id']⟩

variable {ahead : Ahead} {sel : Selection} {bsr : BSR} {volumeName : String} {block : Block}
  {rec : DevRecord}

/-- The last test of `match_all`, behind the ones of the volume, the address and the session. -/
theorem findex_spec (tracks : Tracks ahead sel bsr) (now : Now ahead volumeName block rec)
    (takes : sel.takes volumeName block) :
    let past := (matchFindex rec.fileIndex bsr.fileIndex).2.2
    let bsr' := { bsr with
      voladdr := [⟨sel.saddr, sel.eaddr, false⟩]
      fileIndex := (matchFindex rec.fileIndex bsr.fileIndex).2.1
      done := false || past }
    (((matchFindex rec.fileIndex bsr.fileIndex).1 &&
        (bsr'.count ≠ 0 && bsr'.fileIndex ≠ [] || bsr'.others block rec)) = true ↔
      sel.selects volumeName block rec) ∧ Tracks ahead sel bsr' ∧ bsr'.found = bsr.found := by
  intro past bsr'
  obtain ⟨dropped, split, low⟩ := tracks.left
  have part : bsr.fileIndex ⊆ sel.findex := by
    rw [split]
    exact List.subset_append_right _ _
  have ascending := sel.ascending
  rw [split] at ascending
  obtain ⟨found, ⟨gone, split', low'⟩, some, done⟩ := matchFindex_spec rec.fileIndex tracks.some
    (fun f here => sel.nonempty f (part here)) (List.pairwise_append.mp ascending).2.1
  have listed : bsr'.count ≠ 0 ∧ bsr'.fileIndex ≠ [] := ⟨tracks.count ▸ sel.indexes_ne_zero, some⟩
  have onlyLater (f : ℤ × ℤ) (high : f.2 < rec.fileIndex) (v b r) (here : ahead v b r)
    (takes' : sel.takes v b) :
      f.2 < r.fileIndex := by
    obtain ⟨same, session⟩ := takes_session takes' takes
    subst same
    exact lt_of_lt_of_le high (now.fileIndex b r here session)
  refine ⟨?_, ?_, rfl⟩
  · simp only [listed.1, listed.2, ne_eq, not_false_eq_true, decide_true, Bool.and_self,
      Bool.true_or, Bool.and_true]
    rw [found]
    constructor
    · rintro ⟨f, here, inside⟩
      exact ⟨takes, f, part here, inside⟩
    · rintro ⟨-, f, here, inside⟩
      rw [split] at here
      rcases List.mem_append.mp here with gone | left
      · exact absurd (low f gone _ _ _ now.here takes) (not_lt.mpr inside.2)
      · exact ⟨f, left, inside⟩
  · exact { tracks with
      voladdr := ⟨false, rfl, fun _ => rfl⟩
      finished := by
        rintro isDone v b r here ⟨takes', f, listed, inside⟩
        have passed : past = true := (Bool.false_or past).symm.trans isDone
        rw [split] at listed
        rcases List.mem_append.mp listed with gone | left
        · exact absurd (low f gone v b r here takes') (not_lt.mpr inside.2)
        · exact absurd (onlyLater f (done passed f left) v b r here takes') (not_lt.mpr inside.2)
      left := by
        refine ⟨dropped ++ gone, by rw [List.append_assoc, ← split', split], ?_⟩
        intro f here v b r comes takes'
        rcases List.mem_append.mp here with before | now'
        · exact low f before v b r comes takes'
        · exact onlyLater f (low' f now') v b r comes takes'
      some := some }

theorem matchRec_spec (tracks : Tracks ahead sel bsr) (now : Now ahead volumeName block rec) :
    ((bsr.matchRec volumeName block rec).found = true ↔ sel.selects volumeName block rec) ∧
      Tracks ahead sel (bsr.matchRec volumeName block rec).bsr ∧
      (bsr.matchRec volumeName block rec).bsr.found = bsr.found := by
  obtain ⟨localDone, voladdr, fresh⟩ := tracks.voladdr
  unfold BSR.matchRec
  split
  case isTrue done => exact ⟨iff_of_false (by simp) (tracks.finished done _ _ _ now.here), tracks, rfl⟩
  case isFalse notDone =>
    have unset : localDone = false := fresh (Bool.eq_false_iff.mpr notDone)
    subst unset
    split
    case isTrue elsewhere =>
      refine ⟨iff_of_false (by simp) ?_, tracks, rfl⟩
      rintro ⟨⟨same, -⟩, -⟩
      simp [matchVolume, tracks.volume, same] at elsewhere
    case isFalse volume =>
      have sameVolume : volumeName = sel.volumeName := by
        simpa [matchVolume, tracks.volume, eq_comm] using volume
      by_cases inside : sel.saddr ≤ block.endAddr ∧ block.endAddr ≤ sel.eaddr
      · have chain : matchChain block.endAddr bsr.voladdr true =
            (true, [⟨sel.saddr, sel.eaddr, false⟩], false, false) := by
          rw [voladdr, matchChain, if_pos inside]
        rw [chain]
        simp only [not_true_eq_false, if_false]
        have open' :
            Tracks ahead sel { bsr with voladdr := [⟨sel.saddr, sel.eaddr, false⟩], done := false } :=
          { tracks with
            voladdr := ⟨false, rfl, fun _ => rfl⟩
            finished := fun done => absurd done Bool.false_ne_true }
        split
        case isTrue otherTime =>
          refine ⟨iff_of_false (by simp) ?_, open', rfl⟩
          rintro ⟨⟨-, -, same, -⟩, -⟩
          simp [matchSesstime, tracks.sesstime, same] at otherTime
        case isFalse time =>
          split
          case isTrue otherId =>
            refine ⟨iff_of_false (by simp) ?_, open', rfl⟩
            rintro ⟨⟨-, -, -, same⟩, -⟩
            simp [matchSessid, tracks.sessid, same] at otherId
          case isFalse id =>
            have sameTime : block.volSessionTime = sel.volSessionTime := by
              simpa [matchSesstime, tracks.sesstime, eq_comm] using time
            have sameId : block.volSessionId = sel.volSessionId := by
              have both : sel.volSessionId ≤ block.volSessionId ∧
                  block.volSessionId ≤ sel.volSessionId := by
                simpa [matchSessid, tracks.sessid] using id
              exact UInt32.le_antisymm both.2 both.1
            have takes : sel.takes volumeName block := ⟨sameVolume, inside, sameTime, sameId⟩
            exact findex_spec tracks now takes
      · have past : ∀ b r, block.endAddr > sel.eaddr → ahead volumeName b r →
            ¬ sel.selects volumeName b r := by
          rintro b r above here ⟨⟨-, ⟨-, below⟩, -⟩, -⟩
          exact absurd (UInt64.lt_of_lt_of_le above (now.address b r here)) (UInt64.not_lt.mpr below)
        have chain : matchChain block.endAddr bsr.voladdr true =
            (false, [⟨sel.saddr, sel.eaddr, decide (sel.eaddr < block.endAddr)⟩],
              decide (sel.eaddr < block.endAddr), decide (sel.eaddr < block.endAddr)) := by
          rw [voladdr, matchChain, if_neg inside]
          by_cases above : sel.eaddr < block.endAddr <;> simp [BSR_VOLADDR.pass, above]
        rw [chain]
        refine ⟨iff_of_false (by simp) ?_, ?_, rfl⟩
        · rintro ⟨⟨-, within, -⟩, -⟩
          exact inside within
        · exact { tracks with
            voladdr := ⟨_, rfl, id⟩
            finished := by
              intro done v b r here selects
              have above : sel.eaddr < block.endAddr := of_decide_eq_true done
              have same : v = volumeName := selects.1.1.trans sameVolume.symm
              subst same
              exact past b r above here selects }

end Bacula.MatchBsr
