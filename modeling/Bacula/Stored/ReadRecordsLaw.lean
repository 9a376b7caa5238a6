import Bacula.Stored.MatchBsrLaw

/-! `read_records` passes on what the bootstrap selects. The flags say of every bsr what is still to
come of it, from one record to the next, and the device is moved only over blocks of which nothing is
selected. -/
namespace Bacula.MatchBsr
open MatchVoladdr

variable {ahead later : Ahead} {sels : List Selection} {P : Selection → ℕ → Prop}
variable {volumeName : String} {block : Block} {rec : DevRecord} {s : State}

/-! ## The chain -/

abbrev Chained (ahead : Ahead) (P : Selection → ℕ → Prop) : List Selection → List BSR → Prop :=
  List.Forall₂ fun sel bsr => Tracks ahead sel bsr ∧ P sel bsr.found

/-- What `match_all` says of a record, and where the match occurred. -/
def Answer (ahead : Ahead) (sels : List Selection) (volumeName : String) (block : Block)
    (rec : DevRecord) (i : ℕ) (recBsr : Option ℕ) : MatchStat → Prop
  | .matches => ∃ n sel, recBsr = some (i + n) ∧ sels[n]? = some sel ∧ sel.selects volumeName block rec
  | .noMatch => ∀ sel ∈ sels, ¬ sel.selects volumeName block rec
  | .noMore => ∀ sel ∈ sels, ∀ v b r, ahead v b r → ¬ sel.selects v b r

theorem matchAll_spec (now : Now ahead volumeName block rec) {chain : List BSR}
    (kept : Chained ahead P sels chain) (i : ℕ) (done : Bool) :
    Chained ahead P sels (matchAll volumeName block rec chain i done).chain ∧
      Answer ahead sels volumeName block rec i (matchAll volumeName block rec chain i done).recBsr
        (matchAll volumeName block rec chain i done).stat ∧
      ((matchAll volumeName block rec chain i done).stat = .noMore → done = true) := by
  induction kept generalizing i done with
  | nil => cases done <;> simp [matchAll, Answer]
  | @cons sel bsr sels chain head tail ih =>
      obtain ⟨found, tracks, same⟩ := matchRec_spec head.1 now
      have here : Tracks ahead sel (bsr.matchRec volumeName block rec).bsr ∧
          P sel (bsr.matchRec volumeName block rec).bsr.found := ⟨tracks, same ▸ head.2⟩
      unfold matchAll
      by_cases isFound : (bsr.matchRec volumeName block rec).found = true
      · have listed : (bsr.matchRec volumeName block rec).bsr.count ≠ 0 :=
          tracks.count ▸ sel.indexes_ne_zero
        simp only [isFound, if_true, listed, tracks.some, ne_eq, not_false_eq_true, and_self,
          reduceCtorEq, false_implies, and_true]
        exact ⟨List.Forall₂.cons here tail, 0, sel, rfl, rfl, found.mp isFound⟩
      · obtain ⟨kept, answer, all⟩ := ih (i + 1) ((bsr.matchRec volumeName block rec).bsr.done && done)
        simp only [isFound, Bool.false_eq_true, if_false]
        refine ⟨List.Forall₂.cons here kept, ?_, fun noMore => (Bool.and_eq_true _ _ ▸ all noMore).2⟩
        have notHere := isFound ∘ found.mpr
        generalize (matchAll volumeName block rec chain (i + 1) _).recBsr = recBsr at answer ⊢
        generalize (matchAll volumeName block rec chain (i + 1) _).stat = stat at answer all ⊢
        cases stat with
        | «matches» =>
            obtain ⟨n, later, isRec, at', selects⟩ := answer
            exact ⟨n + 1, later, by rw [isRec, Nat.add_assoc, Nat.add_comm 1], at', selects⟩
        | noMatch => exact List.forall_mem_cons.mpr ⟨notHere, answer⟩
        | noMore =>
            have isDone : (bsr.matchRec volumeName block rec).bsr.done = true := by
              have both := all rfl
              rw [Bool.and_eq_true] at both
              exact both.1
            exact List.forall_mem_cons.mpr ⟨tracks.finished isDone, answer⟩


/-- The root's flag says that nothing of the volume is wanted; it is set only where the device can be
positioned. -/
structure Inv (sels : List Selection) (volumeName : String) (ahead : Ahead) (P : Selection → ℕ → Prop)
    (s : State) : Prop where
  kept : Chained ahead P sels s.chain
  mounted : s.mountNextVolume = true → ∀ sel ∈ sels, ∀ b r, ahead volumeName b r →
      ¬ sel.selects volumeName b r
  positioned : s.mountNextVolume = true → s.usePositioning = true ∧ s.canPosition = true

theorem Chained.mono {P' : Selection → ℕ → Prop} (sub : ∀ v b r, later v b r → ahead v b r)
    (weaker : ∀ sel found, P sel found → P' sel found) {chain : List BSR}
    (kept : Chained ahead P sels chain) :
    Chained later P' sels chain :=
  kept.imp fun _ _ both => ⟨both.1.mono sub, weaker _ _ both.2⟩

theorem Inv.mono {P' : Selection → ℕ → Prop} (sub : ∀ v b r, later v b r → ahead v b r)
    (weaker : ∀ sel found, P sel found → P' sel found) (inv : Inv sels volumeName ahead P s) :
    Inv sels volumeName later P' s where
  kept := Chained.mono sub weaker inv.kept
  mounted isSet sel here b r comes := inv.mounted isSet sel here b r (sub _ _ _ comes)
  positioned := inv.positioned

theorem chain_present (present : sels ≠ []) {chain : List BSR} (kept : Chained ahead P sels chain) :
    chain ≠ [] := by
  rintro rfl
  exact present (List.forall₂_nil_right_iff.mp kept)

theorem matchBsr_spec (present : sels ≠ []) (now : Now ahead volumeName block rec)
    (inv : Inv sels volumeName ahead P s) :
    Inv sels volumeName ahead P (matchBsr s volumeName block rec).2 ∧
      Answer ahead sels volumeName block rec 0
        ((matchBsr s volumeName block rec).2.recBsr block.session)
    (matchBsr s volumeName block rec).1 := by
  obtain ⟨kept, answer, -⟩ := matchAll_spec now inv.kept 0 true
  rw [matchBsr, if_neg (chain_present present inv.kept)]
  refine ⟨⟨kept, inv.mounted, inv.positioned⟩, ?_⟩
  dsimp only
  generalize (matchAll volumeName block rec s.chain 0 true).stat = stat at answer ⊢
  cases stat with
  | «matches» =>
      obtain ⟨n, sel, isRec, at', selects⟩ := answer
      exact ⟨n, sel, by rw [isRec]; simp, at', selects⟩
  | noMatch => exact answer
  | noMore => exact answer

/-! ## Positioning -/

/-- The bsr to which the device goes is one of these, and no wanted record is in front of it. -/
def Best (ahead : Ahead) (volumeName : String) (sels : List Selection) : Option BSR → Prop
  | none => ∀ sel ∈ sels, ∀ b r, ahead volumeName b r → ¬ sel.selects volumeName b r
  | some bsr => ∃ start ∈ sels,
      start.volumeName = volumeName ∧ bsr.voladdr = [⟨start.saddr, start.eaddr, false⟩] ∧
      ∀ sel ∈ sels, ∀ b r, ahead volumeName b r → sel.selects volumeName b r → start.saddr ≤ sel.saddr

theorem getSmallestVoladdr_one (saddr eaddr : UInt64) :
    getSmallestVoladdr [⟨saddr, eaddr, false⟩] = some saddr := by
  simp [getSmallestVoladdr]

theorem Best.skip {found : Option BSR} {sel : Selection} (best : Best ahead volumeName sels found)
    (unwanted : ∀ b r, ahead volumeName b r → ¬ sel.selects volumeName b r) :
    Best ahead volumeName (sels ++ [sel]) found := by
  cases found with
  | none => exact List.forall_mem_append.mpr ⟨best, by simpa using unwanted⟩
  | some bsr =>
      obtain ⟨start, here, same, voladdr, least⟩ := best
      refine ⟨start, List.mem_append_left _ here, same, voladdr, List.forall_mem_append.mpr ⟨least, ?_⟩⟩
      simpa using fun b r comes selects => absurd selects (unwanted b r comes)

theorem Best.take {found : Option BSR} {sel : Selection} {bsr : BSR}
    (best : Best ahead volumeName sels found) (same : sel.volumeName = volumeName)
    (voladdr : bsr.voladdr = [⟨sel.saddr, sel.eaddr, false⟩]) :
    Best ahead volumeName (sels ++ [sel])
      (some ((found.map (findSmallestVolfile · bsr)).getD bsr)) := by
  have last : sel ∈ sels ++ [sel] := List.mem_append_right _ List.mem_cons_self
  cases found with
  | none =>
      refine ⟨sel, last, same, voladdr, List.forall_mem_append.mpr ⟨?_, by simp⟩⟩
      exact fun sel' here b r comes selects => absurd selects (best sel' here b r comes)
  | some found =>
      obtain ⟨start, here, sameStart, voladdrStart, least⟩ := best
      simp only [Option.map_some, Option.getD_some, findSmallestVolfile, voladdr, voladdrStart,
        getSmallestVoladdr_one]
      split
      case isTrue lower =>
        refine ⟨sel, last, same, voladdr, List.forall_mem_append.mpr ⟨?_, by simp⟩⟩
        exact fun sel' here b r comes selects =>
          UInt64.le_of_lt (UInt64.lt_of_lt_of_le lower (least sel' here b r comes selects))
      case isFalse lower =>
        refine ⟨start, List.mem_append_left _ here, sameStart, voladdrStart,
          List.forall_mem_append.mpr ⟨least, ?_⟩⟩
        simpa using fun b r comes selects => UInt64.not_lt.mp lower

theorem walkBsrs_spec {chain : List BSR} (kept : Chained ahead P sels chain) {seen : List Selection}
    {found : Option BSR} (best : Best ahead volumeName seen found) :
    Best ahead volumeName (seen ++ sels) (walkBsrs volumeName chain found) := by
  induction kept generalizing seen found with
  | nil => simpa [walkBsrs] using best
  | @cons sel bsr sels chain head tail ih =>
      obtain ⟨tracks, -⟩ := head
      rw [List.append_cons, walkBsrs]
      split
      case isTrue skipped =>
        apply ih
        apply best.skip
        rintro b r comes selects
        rcases skipped with done | elsewhere
        · exact tracks.finished done _ b r comes selects
        · obtain ⟨⟨same, -⟩, -⟩ := selects
          simp [matchVolume, tracks.volume, same] at elsewhere
      case isFalse candidate =>
        obtain ⟨notDone, volume⟩ := not_or.mp candidate
        obtain ⟨done, voladdr, fresh⟩ := tracks.voladdr
        rw [fresh (Bool.eq_false_iff.mpr notDone)] at voladdr
        have same : sel.volumeName = volumeName := by simpa [matchVolume, tracks.volume] using volume
        exact ih (best.take same voladdr)

/-- The flag is as it should be, or it is set anew. -/
theorem findNextBsr_spec (kept : Chained ahead P sels s.chain)
    (positioned : s.mountNextVolume = true → s.usePositioning = true ∧ s.canPosition = true)
    (mounted : s.mountNextVolume = true →
      s.reposition = true ∨ ∀ sel ∈ sels, ∀ b r, ahead volumeName b r → ¬ sel.selects volumeName b r) :
    Inv sels volumeName ahead P (findNextBsr s volumeName).2 ∧
      ∀ bsr, (findNextBsr s volumeName).1 = some bsr → Best ahead volumeName sels (some bsr) := by
  have best : Best ahead volumeName sels (walkBsrs volumeName s.chain none) := by
    rw [← List.nil_append sels]
    exact walkBsrs_spec kept (by simp [Best])
  unfold findNextBsr
  split
  case isTrue stays =>
    refine ⟨⟨kept, ?_, positioned⟩, by simp⟩
    intro isSet
    obtain ⟨use, can⟩ := positioned isSet
    refine (mounted isSet).resolve_left ?_
    intro reposition
    simp [use, can, reposition] at stays
  case isFalse moves =>
    have able : s.usePositioning = true ∧ s.canPosition = true := by
      simp only [Bool.not_eq_true, not_or, Bool.not_eq_false] at moves
      exact ⟨moves.1, moves.2.2⟩
    refine ⟨⟨kept, ?_, fun _ => able⟩, ?_⟩
    · intro isSet
      rw [Option.isNone_iff_eq_none.mp isSet] at best
      exact best
    · intro bsr isFound
      have walked : walkBsrs volumeName s.chain none = some bsr := isFound
      rwa [walked] at best

/-- What makes a move right: nothing that is wanted of the volume is behind the device then. -/
def Justified (ahead : Ahead) (volumeName : String) (sels : List Selection) (devAddr : UInt64) :
    Move → Prop
  | .nextVolume => ∀ sel ∈ sels, ∀ b r, ahead volumeName b r → ¬ sel.selects volumeName b r
  | .reposition addr => devAddr ≤ addr ∧ ∃ start ∈ sels,
      start.volumeName = volumeName ∧ start.saddr = addr ∧
      ∀ sel ∈ sels, ∀ b r, ahead volumeName b r → sel.selects volumeName b r → addr ≤ sel.saddr

theorem tryRepositioning_spec (inv : Inv sels volumeName ahead P s) (devAddr : UInt64) :
    Inv sels volumeName ahead P (tryRepositioning s volumeName devAddr).2 ∧
      ∀ move, (tryRepositioning s volumeName devAddr).1 = some move →
        Justified ahead volumeName sels devAddr move := by
  obtain ⟨inv', best⟩ := findNextBsr_spec inv.kept inv.positioned fun isSet => .inr (inv.mounted isSet)
  unfold tryRepositioning
  generalize findNextBsr s volumeName = found at inv' best ⊢
  obtain ⟨bsr, s'⟩ := found
  cases bsr with
  | none =>
      dsimp only at inv' ⊢
      split
      case isTrue isSet =>
        refine ⟨⟨inv'.kept, by simp, by simp⟩, ?_⟩
        rintro move moved
        cases moved
        exact inv'.mounted isSet
      case isFalse => exact ⟨inv', by simp⟩
  | some bsr =>
      obtain ⟨start, here, same, voladdr, least⟩ := best bsr rfl
      have addr : getBsrStartAddr bsr = start.saddr := by simp [getBsrStartAddr, voladdr]
      dsimp only at inv' ⊢
      rw [addr]
      split
      case isTrue => exact ⟨inv', by simp⟩
      case isFalse notPast =>
        refine ⟨inv', ?_⟩
        rintro move moved
        cases moved
        exact ⟨UInt64.not_lt.mp notPast, start, here, same, rfl, least⟩

/-! ## Counting -/

/-- Up to this index there were more listed ones than were counted, and no smaller one comes. -/
def Passed (ahead : Ahead) (sel : Selection) (found : ℕ) (fileIndex : ℤ) : Prop :=
  found + 1 ≤ upTo sel.findex fileIndex ∧ ∀ v b r, ahead v b r → sel.takes v b → fileIndex ≤ r.fileIndex

def Counted (ahead : Ahead) (sel : Selection) (found : ℕ) : Prop :=
  found = 0 ∨ ∃ fileIndex, Passed ahead sel found fileIndex

/-- In a block, the index of the last record that was passed is counted when another one comes. -/
def InBlock (ahead : Ahead) (volumeName : String) (block : Block) (last : Option ℤ) (sel : Selection)
    (found : ℕ) : Prop :=
  Counted ahead sel found ∧
    ∀ fileIndex, last = some fileIndex → sel.takes volumeName block → Passed ahead sel found fileIndex

variable {sel : Selection} {found : ℕ} {last : Option ℤ} {fileIndex : ℤ}

theorem Passed.mono (sub : ∀ v b r, later v b r → ahead v b r)
    (passed : Passed ahead sel found fileIndex) :
    Passed later sel found fileIndex :=
  ⟨passed.1, fun v b r comes => passed.2 v b r (sub v b r comes)⟩

theorem Counted.mono (sub : ∀ v b r, later v b r → ahead v b r) (counted : Counted ahead sel found) :
    Counted later sel found :=
  counted.imp_right fun ⟨fileIndex, passed⟩ => ⟨fileIndex, passed.mono sub⟩

theorem InBlock.mono (sub : ∀ v b r, later v b r → ahead v b r)
    (counted : InBlock ahead volumeName block last sel found) :
    InBlock later volumeName block last sel found :=
  ⟨counted.1.mono sub, fun fileIndex isLast takes => (counted.2 fileIndex isLast takes).mono sub⟩

theorem Now.passed (now : Now ahead volumeName block rec) (selects : sel.selects volumeName block rec)
    (more : found + 1 ≤ upTo sel.findex rec.fileIndex) : Passed ahead sel found rec.fileIndex := by
  refine ⟨more, ?_⟩
  intro v b r comes takes
  obtain ⟨same, session⟩ := takes_session takes selects.1
  subst same
  exact now.fileIndex b r comes session

/-- A record that is selected is passed without counting it. -/
theorem InBlock.pass (now : Now ahead volumeName block rec)
    (counted : InBlock ahead volumeName block last sel found)
    (alone : sel.takes volumeName block → sel.selects volumeName block rec) :
    InBlock ahead volumeName block (some rec.fileIndex) sel found := by
  refine ⟨counted.1, ?_⟩
  rintro fileIndex isLast takes
  cases isLast
  have selects := alone takes
  obtain ⟨-, f, listed, inside⟩ := id selects
  refine now.passed selects ?_
  rcases counted.1 with none | ⟨m, more, least⟩
  · rw [none]
    exact upTo_pos listed inside
  · exact more.trans (upTo_mono _ (least _ _ _ now.here takes))

/-- Another index than the last one is counted, and is still one of the listed ones. -/
theorem InBlock.count (now : Now ahead volumeName block rec)
    (counted : InBlock ahead volumeName block last sel found) (isLast : last = some fileIndex)
    (other : fileIndex ≠ rec.fileIndex) (selects : sel.selects volumeName block rec) :
    InBlock ahead volumeName block (some rec.fileIndex) sel (found + 1) ∧
      found + 1 < indexes sel.findex := by
  obtain ⟨more, least⟩ := counted.2 fileIndex isLast selects.1
  obtain ⟨-, f, listed, inside⟩ := id selects
  have lower : fileIndex < rec.fileIndex := lt_of_le_of_ne (least _ _ _ now.here selects.1) other
  have further := upTo_lt listed lower inside
  have passed : Passed ahead sel (found + 1) rec.fileIndex := now.passed selects (by omega)
  refine ⟨⟨.inr ⟨_, passed⟩, ?_⟩, ?_⟩
  · rintro i isNow -
    cases isNow
    exact passed
  · have all := upTo_le sel.findex rec.fileIndex
    omega

/-- No block is taken twice. -/
def Selection.Apart (sel sel' : Selection) : Prop :=
  ¬ (sel.volumeName = sel'.volumeName ∧ sel.volSessionTime = sel'.volSessionTime ∧
    sel.volSessionId = sel'.volSessionId ∧ sel.saddr ≤ sel'.eaddr ∧ sel'.saddr ≤ sel.eaddr)

theorem Selection.Apart.takes {sel' : Selection} (apart : sel.Apart sel')
    (takes : sel.takes volumeName block) :
    ¬ sel'.takes volumeName block := by
  rintro ⟨volume', ⟨low', high'⟩, time', id'⟩
  obtain ⟨volume, ⟨low, high⟩, time, id⟩ := takes
  exact apart ⟨volume ▸ volume', time ▸ time', id ▸ id', UInt64.le_trans low high',
    UInt64.le_trans low' high⟩

theorem takes_once (apart : sels.Pairwise Selection.Apart) {n k : ℕ} {sel sel' : Selection}
    (here : sels[n]? = some sel) (takes : sel.takes volumeName block) (there : sels[k]? = some sel')
    (takes' : sel'.takes volumeName block) : k = n := by
  obtain ⟨hn, rfl⟩ := List.getElem?_eq_some_iff.mp here
  obtain ⟨hk, rfl⟩ := List.getElem?_eq_some_iff.mp there
  rw [List.pairwise_iff_getElem] at apart
  rcases lt_trichotomy k n with lt | eq | gt
  · exact absurd takes ((apart k n hk hn lt).takes takes')
  · exact eq
  · exact absurd takes' ((apart n k hn hk gt).takes takes)

theorem chained_get {chain : List BSR} (kept : Chained ahead P sels chain) {n : ℕ} {sel : Selection}
    (here : sels[n]? = some sel) : ∃ bsr, chain[n]? = some bsr ∧ Tracks ahead sel bsr ∧
    P sel bsr.found := by
  induction kept generalizing n with
  | nil => simp at here
  | cons head tail ih =>
      cases n with
      | zero =>
          cases (Option.some_inj.mp here)
          exact ⟨_, rfl, head⟩
      | succ n => exact ih here

theorem chained_imp {P' : Selection → ℕ → Prop} {chain : List BSR} (kept : Chained ahead P sels chain)
    (weaker : ∀ sel ∈ sels, ∀ found, P sel found → P' sel found) : Chained ahead P' sels chain := by
  induction kept with
  | nil => exact List.Forall₂.nil
  | cons head tail ih =>
      obtain ⟨first, rest⟩ := List.forall_mem_cons.mp weaker
      exact List.Forall₂.cons ⟨head.1, first _ head.2⟩ (ih rest)

/-- One bsr of the chain counts a record, and the others do not take the block. -/
theorem chained_set {P' : Selection → ℕ → Prop} {chain : List BSR}
    (kept : Chained ahead P sels chain) (n : ℕ) {sel : Selection} {bsr bsr' : BSR}
    (here : sels[n]? = some sel) (there : chain[n]? = some bsr) (tracks : Tracks ahead sel bsr')
    (counted : P' sel bsr'.found)
    (others : ∀ k sel found, k ≠ n → sels[k]? = some sel → P sel found → P' sel found) :
    Chained ahead P' sels (chain.set n bsr') := by
  induction kept generalizing n with
  | nil => simp at here
  | cons head tail ih =>
      cases n with
      | zero =>
          cases (Option.some_inj.mp here)
          refine List.Forall₂.cons ⟨tracks, counted⟩ (chained_imp tail ?_)
          intro sel inTail found
          obtain ⟨k, at'⟩ := List.mem_iff_getElem?.mp inTail
          exact others (k + 1) sel found (by omega) at'
      | succ n =>
          refine List.Forall₂.cons ⟨head.1, others 0 _ _ (by omega) rfl head.2⟩ (ih n here there ?_)
          exact fun k sel found ne at' => others (k + 1) sel found (by omega) at'

theorem isThisBsrDone_spec (now : Now ahead volumeName block rec)
    (apart : sels.Pairwise Selection.Apart)
    (inv : Inv sels volumeName ahead (InBlock ahead volumeName block last) s)
    (isLast : last = some fileIndex) (other : fileIndex ≠ rec.fileIndex) {n : ℕ}
    (isRec : s.recBsr block.session = some n) (here : sels[n]? = some sel)
    (selects : sel.selects volumeName block rec) :
    (isThisBsrDone s block.session).1 = false ∧
      Inv sels volumeName ahead (InBlock ahead volumeName block (some rec.fileIndex))
        (isThisBsrDone s block.session).2 := by
  obtain ⟨bsr, there, tracks, inBlock⟩ := chained_get inv.kept here
  obtain ⟨counted, less⟩ := inBlock.count now isLast other selects
  have notAll : ¬ (bsr.count ≠ 0 ∧ bsr.count ≤ bsr.found + 1) := by
    rw [tracks.count]
    omega
  simp only [isThisBsrDone, isRec, there, notAll, if_false, true_and]
  refine ⟨?_, inv.mounted, inv.positioned⟩
  have tracks' : Tracks ahead sel { bsr with found := bsr.found + 1 } := { tracks with }
  refine chained_set inv.kept n here there tracks' counted ?_
  intro k sel' found ne at' inBlock'
  refine ⟨inBlock'.1, ?_⟩
  intro _ _ takes'
  exact absurd (takes_once apart here selects.1 at' takes') ne

/-! ## The records of a block -/

/-- The rest of a block, and what comes behind it. -/
def coming (volumeName : String) (block : Block) (rest : List DevRecord) (later : Ahead) : Ahead :=
  fun v b r => (v = volumeName ∧ b = block ∧ r ∈ rest) ∨ later v b r

structure Ordered (later : Ahead) (volumeName : String) (block : Block) (rest : List DevRecord) :
    Prop where
  address : ∀ b r, later volumeName b r → block.endAddr ≤ b.endAddr
  ascending : rest.Pairwise fun r r' => r.fileIndex ≤ r'.fileIndex
  below : ∀ r ∈ rest, ∀ b r', later volumeName b r' → b.session = block.session →
      r.fileIndex ≤ r'.fileIndex

variable {rest : List DevRecord}

theorem coming_sub (v : String) (b : Block) (r : DevRecord)
    (comes : coming volumeName block rest later v b r) :
    coming volumeName block (rec :: rest) later v b r :=
  comes.imp_left fun ⟨volume, isBlock, inRest⟩ => ⟨volume, isBlock, List.mem_cons_of_mem _ inRest⟩

theorem Ordered.tail (ordered : Ordered later volumeName block (rec :: rest)) :
    Ordered later volumeName block rest where
  address := ordered.address
  ascending := (List.pairwise_cons.mp ordered.ascending).2
  below r here := ordered.below r (List.mem_cons_of_mem _ here)

theorem Ordered.now (ordered : Ordered later volumeName block (rec :: rest)) :
    Now (coming volumeName block (rec :: rest) later) volumeName block rec where
  here := .inl ⟨rfl, rfl, List.mem_cons_self⟩
  address := by
    rintro b r (⟨-, rfl, -⟩ | comes)
    · exact UInt64.le_refl _
    · exact ordered.address b r comes
  fileIndex := by
    rintro b r (⟨-, rfl, here⟩ | comes) session
    · rcases List.mem_cons.mp here with rfl | inRest
      · exact le_rfl
      · exact (List.pairwise_cons.mp ordered.ascending).1 r inRest
    · exact ordered.below rec List.mem_cons_self b r comes session

/-- A move leaves out nothing that is wanted of the block. -/
theorem Justified.nothing_here {move : Move} (inFront : block.endAddr < block.devAddr)
    (justified : Justified (coming volumeName block rest later) volumeName sels block.devAddr move) :
    rest.filter (Wanted sels volumeName block ·) = [] := by
  rw [List.filter_eq_nil_iff]
  intro r here wanted
  obtain ⟨sel, inSels, selects⟩ := of_decide_eq_true wanted
  have comes : coming volumeName block rest later volumeName block r := .inl ⟨rfl, rfl, here⟩
  cases move with
  | nextVolume => exact justified sel inSels block r comes selects
  | reposition addr =>
      obtain ⟨beyond, -, -, -, -, least⟩ := justified
      have low := UInt64.le_trans (least sel inSels block r comes selects) selects.1.2.1.1
      exact absurd (UInt64.lt_of_lt_of_le inFront beyond) (UInt64.not_lt.mpr low)

theorem Justified.mono {move : Move} {devAddr : UInt64}
    (justified : Justified ahead volumeName sels devAddr move)
    (sub : ∀ v b r, later v b r → ahead v b r) :
    Justified later volumeName sels devAddr move := by
  cases move with
  | nextVolume => exact fun sel here b r comes => justified sel here b r (sub _ _ _ comes)
  | reposition addr =>
      obtain ⟨beyond, start, here, volume, saddr, least⟩ := justified
      exact ⟨beyond, start, here, volume, saddr,
        fun sel inSels b r comes => least sel inSels b r (sub _ _ _ comes)⟩

def Ends (later : Ahead) (volumeName : String) (sels : List Selection) (devAddr : UInt64) :
    BlockEnd → Prop
  | .nextBlock => True
  | .moved move => Justified later volumeName sels devAddr move
  | .allDone => ∀ sel ∈ sels, ∀ v b r, later v b r → ¬ sel.selects v b r

/-- What holds when the loop over the records of a block ends. -/
structure BlockRead (later : Ahead) (volumeName : String) (sels : List Selection) (block : Block)
    (recs : List DevRecord) (out : ReadBlock) : Prop where
  passed : out.passed = recs.filter (Wanted sels volumeName block ·)
  inv : Inv sels volumeName later (Counted later) out.state
  ends : Ends later volumeName sels block.devAddr out.blockEnd

/-- The loop goes on with the rest of the block. -/
abbrev Going (later : Ahead) (volumeName : String) (sels : List Selection) (block : Block)
    (rest : List DevRecord) (last : Option ℤ) (s : State) : Prop :=
  Inv sels volumeName (coming volumeName block rest later)
    (InBlock (coming volumeName block rest later) volumeName block last) s

theorem Going.tail (going : Going later volumeName sels block (rec :: rest) last s) :
    Going later volumeName sels block rest last s :=
  going.mono coming_sub fun _ _ inBlock => inBlock.mono coming_sub

theorem Going.ended (going : Going later volumeName sels block rest last s) :
    Inv sels volumeName later (Counted later) s :=
  going.mono (fun _ _ _ comes => .inr comes) fun _ _ inBlock => inBlock.1.mono fun _ _ _ comes =>
    .inr comes

theorem readUnfinished_spec (present : sels ≠ [])
    (ordered : Ordered later volumeName block block.unfinished.toList)
    (going : Going later volumeName sels block block.unfinished.toList last s) :
    BlockRead later volumeName sels block [] (readUnfinished s volumeName block) := by
  unfold readUnfinished
  cases isRec : block.unfinished with
  | none =>
      rw [isRec] at going
      exact ⟨rfl, going.ended, trivial⟩
  | some rec =>
      rw [isRec] at ordered going
      obtain ⟨going', answer⟩ := matchBsr_spec present ordered.now going
      dsimp only
      generalize matchBsr s volumeName block rec = matched at going' answer ⊢
      obtain ⟨stat, s'⟩ := matched
      cases stat with
      | «matches» => exact ⟨rfl, Going.ended going', trivial⟩
      | noMatch =>
          obtain ⟨going'', justified⟩ := tryRepositioning_spec (Going.tail going') block.devAddr
          dsimp only
          generalize tryRepositioning s' volumeName block.devAddr = moved at going'' justified ⊢
          obtain ⟨move, s''⟩ := moved
          cases move with
          | none => exact ⟨rfl, Going.ended going'', trivial⟩
          | some move =>
              exact ⟨rfl, Going.ended going'', (justified move rfl).mono fun _ _ _ comes => .inr comes⟩
      | noMore =>
          exact ⟨rfl, Going.ended going',
            fun sel here v b r comes => answer sel here v b r (.inr comes)⟩

/-- A record that is selected is passed, and the bsr is not taken for done by its count. -/
theorem readRecs_matches (recs : List DevRecord) {s' : State}
    (matched : matchBsr s volumeName block rec = (.matches, s'))
    (notDone : ∀ fileIndex, last = some fileIndex → fileIndex ≠ rec.fileIndex →
      (isThisBsrDone s' block.session).1 = false) :
    ∃ s'', (s'' = s' ∨ (∃ fileIndex, last = some fileIndex ∧ fileIndex ≠ rec.fileIndex) ∧
        s'' = (isThisBsrDone s' block.session).2) ∧
      readRecs volumeName block (rec :: recs) last s =
        { readRecs volumeName block recs (some rec.fileIndex) s'' with
          passed := rec :: (readRecs volumeName block recs (some rec.fileIndex) s'').passed } := by
  simp only [readRecs, matched]
  by_cases other : last ≠ none ∧ last ≠ some rec.fileIndex
  · obtain ⟨fileIndex, isLast⟩ := Option.ne_none_iff_exists'.mp other.1
    have differs : fileIndex ≠ rec.fileIndex := by
      rintro rfl
      exact other.2 isLast
    refine ⟨_, .inr ⟨⟨fileIndex, isLast, differs⟩, rfl⟩, ?_⟩
    simp [other, notDone fileIndex isLast differs]
  · refine ⟨s', .inl rfl, ?_⟩
    simp [other]

theorem readRecs_spec (present : sels ≠ []) (apart : sels.Pairwise Selection.Apart)
    (inFront : block.endAddr < block.devAddr) (recs : List DevRecord)
    (ordered : Ordered later volumeName block (recs ++ block.unfinished.toList))
    (going : Going later volumeName sels block (recs ++ block.unfinished.toList) last s) :
    BlockRead later volumeName sels block recs (readRecs volumeName block recs last s) := by
  induction recs generalizing last s with
  | nil => exact readUnfinished_spec present ordered going
  | cons rec recs ih =>
      rw [List.cons_append] at ordered going
      have now := ordered.now
      obtain ⟨going', answer⟩ := matchBsr_spec present now going
      cases matched : matchBsr s volumeName block rec with
      | mk stat s' =>
      rw [matched] at going' answer
      cases stat with
      | «matches» =>
          obtain ⟨n, sel, isRec, here, selects⟩ := answer
          rw [Nat.zero_add] at isRec
          have wanted : Wanted sels volumeName block rec := ⟨sel, List.mem_of_getElem? here, selects⟩
          have same : (rec :: recs).filter (Wanted sels volumeName block ·) =
              rec :: recs.filter (Wanted sels volumeName block ·) :=
            List.filter_cons_of_pos (by simpa using wanted)
          obtain ⟨s'', which, unfolded⟩ := readRecs_matches recs matched fun fileIndex isLast other =>
            (isThisBsrDone_spec now apart going' isLast other isRec here selects).1
          have going'' : Going later volumeName sels block (rec :: (recs ++ block.unfinished.toList))
              (some rec.fileIndex) s'' := by
            rcases which with rfl | ⟨⟨fileIndex, isLast, other⟩, rfl⟩
            · refine ⟨chained_imp going'.kept ?_, going'.mounted, going'.positioned⟩
              intro sel' inSels found inBlock
              apply inBlock.pass now
              intro takes'
              obtain ⟨k, at'⟩ := List.mem_iff_getElem?.mp inSels
              obtain rfl := takes_once apart here selects.1 at' takes'
              obtain rfl := Option.some_inj.mp (at'.symm.trans here)
              exact selects
            · exact (isThisBsrDone_spec now apart going' isLast other isRec here selects).2
          obtain ⟨passed, inv, ends⟩ := ih ordered.tail going''.tail
          rw [unfolded]
          exact ⟨(congrArg (rec :: ·) passed).trans same.symm, inv, ends⟩
      | noMatch =>
          have unwanted : ¬ Wanted sels volumeName block rec := by
            rintro ⟨sel, here, selects⟩
            exact answer sel here selects
          have same : (rec :: recs).filter (Wanted sels volumeName block ·) =
              recs.filter (Wanted sels volumeName block ·) :=
            List.filter_cons_of_neg (by simpa using unwanted)
          obtain ⟨going'', justified⟩ := tryRepositioning_spec (Going.tail going') block.devAddr
          cases moved : tryRepositioning s' volumeName block.devAddr with
          | mk move s'' =>
          rw [moved] at going'' justified
          simp only [readRecs, matched, moved]
          cases move with
          | none =>
              obtain ⟨passed, inv, ends⟩ := ih ordered.tail going''
              exact ⟨passed.trans same.symm, inv, ends⟩
          | some move =>
              have nothing := (justified move rfl).nothing_here inFront
              rw [List.filter_append, List.append_eq_nil_iff] at nothing
              exact ⟨(same.trans nothing.1).symm, Going.ended going'',
                (justified move rfl).mono fun _ _ _ comes => .inr comes⟩
      | noMore =>
          simp only [readRecs, matched]
          refine ⟨?_, Going.ended going',
            fun sel here v b r comes => answer sel here v b r (.inr comes)⟩
          symm
          rw [List.filter_eq_nil_iff]
          intro r here wanted
          obtain ⟨sel, inSels, selects⟩ := of_decide_eq_true wanted
          exact answer sel inSels _ _ _ (.inl ⟨rfl, rfl, List.mem_append_left _ here⟩) selects

end Bacula.MatchBsr
