import Bacula.Stored.ReadRecordsLaw

/-! `read_records` over the blocks of a volume, and over the volumes of a restore. -/
namespace Bacula.MatchBsr

variable {later : Ahead} {sels : List Selection} {volumeName : String} {block : Block}
  {blocks : List Block} {s : State}

def Block.all (block : Block) : List DevRecord := block.recs ++ block.unfinished.toList

/-- A volume as it was written: a block is behind the one before it, and the file indexes of a session
do not descend. -/
structure Written (blocks : List Block) : Prop where
  extent : ∀ b ∈ blocks, b.blockAddr ≤ b.endAddr ∧ b.endAddr < b.devAddr
  inBlock : ∀ b ∈ blocks, b.all.Pairwise fun r r' => r.fileIndex ≤ r'.fileIndex
  follow : blocks.Pairwise fun b b' => b.devAddr ≤ b'.blockAddr ∧
    (b'.session = b.session → ∀ r ∈ b.all, ∀ r' ∈ b'.all, r.fileIndex ≤ r'.fileIndex)

/-- The blocks of the volume, and what comes behind them. -/
def behind (volumeName : String) (blocks : List Block) (later : Ahead) : Ahead :=
  fun v b r => (v = volumeName ∧ b ∈ blocks ∧ r ∈ b.all) ∨ later v b r

theorem Written.in_front (written : Written (block :: blocks)) {b : Block} (here : b ∈ blocks) :
    block.blockAddr < b.blockAddr ∧ block.endAddr < b.blockAddr := by
  obtain ⟨low, high⟩ := written.extent block List.mem_cons_self
  have next := ((List.pairwise_cons.mp written.follow).1 b here).1
  have below := UInt64.lt_of_lt_of_le high next
  exact ⟨UInt64.lt_of_le_of_lt low below, below⟩

theorem Written.suffix {pre : List Block} (written : Written (pre ++ blocks)) : Written blocks where
  extent b here := written.extent b (List.mem_append_right _ here)
  inBlock b here := written.inBlock b (List.mem_append_right _ here)
  follow := (List.pairwise_append.mp written.follow).2.1

theorem Written.tail (written : Written (block :: blocks)) : Written blocks := by
  have whole : Written ([block] ++ blocks) := written
  exact whole.suffix

theorem Written.across {pre : List Block} (written : Written (pre ++ blocks)) {b b' : Block}
    (before : b ∈ pre) (here : b' ∈ blocks) :
    b.blockAddr < b'.blockAddr ∧ b.endAddr < b'.blockAddr := by
  induction pre with
  | nil => cases before
  | cons first pre ih =>
      rw [List.cons_append] at written
      rcases List.mem_cons.mp before with rfl | inPre
      · exact written.in_front (List.mem_append_right _ here)
      · exact ih written.tail inPre

theorem Written.ordered (written : Written (block :: blocks))
    (elsewhere : ∀ b r, ¬ later volumeName b r) :
    Ordered (behind volumeName blocks later) volumeName block block.all where
  address := by
    rintro b r (⟨-, here, -⟩ | comes)
    · obtain ⟨-, below⟩ := written.in_front here
      obtain ⟨low, -⟩ := written.extent b (List.mem_cons_of_mem _ here)
      exact UInt64.le_of_lt (UInt64.lt_of_lt_of_le below low)
    · exact absurd comes (elsewhere b r)
  ascending := written.inBlock block List.mem_cons_self
  below := by
    rintro r inAll b r' (⟨-, here, inAll'⟩ | comes) session
    · exact ((List.pairwise_cons.mp written.follow).1 b here).2 session r inAll r' inAll'
    · exact absurd comes (elsewhere b r')

/-- A bsr starts at a block that is still to be read, or is behind. -/
def Starts (sels : List Selection) (volumeName : String) (blocks : List Block) : Prop :=
  ∀ sel ∈ sels, sel.volumeName = volumeName →
    (∃ b ∈ blocks, b.blockAddr = sel.saddr) ∨ ∀ b ∈ blocks, sel.saddr < b.blockAddr

theorem Starts.suffix {pre : List Block} (written : Written (pre ++ blocks))
    (starts : Starts sels volumeName (pre ++ blocks)) : Starts sels volumeName blocks := by
  intro sel inSels volume
  rcases starts sel inSels volume with ⟨b, here, isStart⟩ | past
  · rcases List.mem_append.mp here with before | still
    · refine .inr ?_
      intro b' here'
      rw [← isStart]
      exact (written.across before here').1
    · exact .inl ⟨b, still, isStart⟩
  · exact .inr fun b here => past b (List.mem_append_right _ here)

theorem Starts.tail (starts : Starts sels volumeName (block :: blocks))
    (written : Written (block :: blocks)) :
    Starts sels volumeName blocks := by
  have whole : Starts sels volumeName ([block] ++ blocks) := starts
  exact whole.suffix written

theorem selected_none (unwanted : ∀ sel ∈ sels, ∀ r, r ∈ block.all → ¬ sel.selects volumeName block r) :
    selected sels volumeName block = [] := by
  rw [selected, List.filter_eq_nil_iff]
  intro r here wanted
  obtain ⟨sel, inSels, selects⟩ := of_decide_eq_true wanted
  exact unwanted sel inSels r (List.mem_append_left _ here) selects

/-- The blocks over which the device is moved have nothing that is wanted. -/
theorem seek_spec {addr : UInt64} (written : Written blocks) {start : Block} (here : start ∈ blocks)
    (isStart : start.blockAddr = addr)
    (least : ∀ sel ∈ sels, ∀ b ∈ blocks, ∀ r ∈ b.all, sel.selects volumeName b r → addr ≤ sel.saddr) :
    ∃ pre, blocks = pre ++ seek addr blocks ∧ ∀ b ∈ pre, selected sels volumeName b = [] := by
  let pre := blocks.takeWhile (·.blockAddr ≠ addr)
  have split : blocks = pre ++ seek addr blocks := (List.takeWhile_append_dropWhile).symm
  refine ⟨pre, split, ?_⟩
  intro b before
  have still : start ∈ seek addr blocks := by
    rw [split] at here
    refine (List.mem_append.mp here).resolve_left ?_
    intro inPre
    have other := List.mem_takeWhile_imp inPre
    simp [isStart] at other
  rw [split] at written
  have below := (written.across before still).2
  rw [isStart] at below
  apply selected_none
  intro sel inSels r inAll selects
  have inBlocks : b ∈ blocks := by
    rw [split]
    exact List.mem_append_left _ before
  have low := UInt64.le_trans (least sel inSels b inBlocks r inAll selects) selects.1.2.1.1
  exact absurd below (UInt64.not_lt.mpr low)

structure VolumeRead (later : Ahead) (volumeName : String) (sels : List Selection) (blocks : List Block)
    (out : ReadVolume) : Prop where
  passed : out.passed = blocks.flatMap (selected sels volumeName)
  inv : Inv sels volumeName later (Counted later) out.state
  ended : out.allDone = true → ∀ sel ∈ sels, ∀ v b r, later v b r → ¬ sel.selects v b r

theorem flatMap_split {pre blocks' : List Block} (split : blocks = pre ++ blocks')
    (unwanted : ∀ b ∈ pre, selected sels volumeName b = []) :
    blocks.flatMap (selected sels volumeName) = blocks'.flatMap (selected sels volumeName) := by
  rw [split, List.flatMap_append, List.flatMap_eq_nil_iff.mpr unwanted, List.nil_append]

theorem behind_cons (v : String) (b : Block) (r : DevRecord)
    (comes : coming volumeName block block.all (behind volumeName blocks later) v b r) :
    behind volumeName (block :: blocks) later v b r := by
  rcases comes with ⟨volume, rfl, here⟩ | ⟨volume, still, here⟩ | comes
  · exact .inl ⟨volume, List.mem_cons_self, here⟩
  · exact .inl ⟨volume, List.mem_cons_of_mem _ still, here⟩
  · exact .inr comes

theorem Inv.suffix {pre : List Block}
    (inv : Inv sels volumeName (behind volumeName (pre ++ blocks) later)
      (Counted (behind volumeName (pre ++ blocks) later)) s) :
    Inv sels volumeName (behind volumeName blocks later)
      (Counted (behind volumeName blocks later)) s := by
  have sub : ∀ v b r, behind volumeName blocks later v b r →
      behind volumeName (pre ++ blocks) later v b r :=
    fun _ _ _ comes => comes.imp_left fun ⟨volume, here, inAll⟩ =>
      ⟨volume, List.mem_append_right _ here, inAll⟩
  exact inv.mono sub fun _ _ counted => counted.mono sub

theorem Inv.over (inv : Inv sels volumeName (behind volumeName blocks later)
      (Counted (behind volumeName blocks later)) s) : Inv sels volumeName later (Counted later) s :=
  inv.mono (fun _ _ _ comes => .inr comes) fun _ _ counted => counted.mono fun _ _ _ comes => .inr comes

theorem block_spec (present : sels ≠ []) (apart : sels.Pairwise Selection.Apart)
    (elsewhere : ∀ b r, ¬ later volumeName b r) (written : Written (block :: blocks))
    (inv : Inv sels volumeName (behind volumeName (block :: blocks) later)
      (Counted (behind volumeName (block :: blocks) later)) s) :
    BlockRead (behind volumeName blocks later) volumeName sels block block.recs
      (readRecs volumeName block block.recs none s) := by
  refine readRecs_spec present apart (written.extent block List.mem_cons_self).2 block.recs
    (written.ordered elsewhere) ?_
  refine inv.mono behind_cons ?_
  intro sel found counted
  exact ⟨counted.mono behind_cons, by simp⟩

theorem readBlocks_spec (present : sels ≠ []) (apart : sels.Pairwise Selection.Apart)
    (elsewhere : ∀ b r, ¬ later volumeName b r) (written : Written blocks)
    (starts : Starts sels volumeName blocks)
    (inv : Inv sels volumeName (behind volumeName blocks later)
      (Counted (behind volumeName blocks later)) s) :
    VolumeRead later volumeName sels blocks (readBlocks volumeName blocks s) := by
  fun_induction readBlocks volumeName blocks s with
  | case1 s => exact ⟨rfl, inv.over, by simp⟩
  | case2 s block blocks now allDone =>
      obtain ⟨passed, inv', ends⟩ := block_spec present apart elsewhere written inv
      rw [allDone] at ends
      have rest : blocks.flatMap (selected sels volumeName) = [] := by
        rw [List.flatMap_eq_nil_iff]
        intro b here
        exact selected_none fun sel inSels r inAll => ends sel inSels _ _ _ (.inl ⟨rfl, here, inAll⟩)
      refine ⟨?_, inv'.over, fun _ sel inSels v b r comes => ends sel inSels v b r (.inr comes)⟩
      rw [List.flatMap_cons, rest, List.append_nil]
      exact passed
  | case3 s block blocks now next =>
      obtain ⟨passed, inv', ends⟩ := block_spec present apart elsewhere written inv
      rw [next] at ends
      have rest : blocks.flatMap (selected sels volumeName) = [] := by
        rw [List.flatMap_eq_nil_iff]
        intro b here
        exact selected_none fun sel inSels r inAll => ends sel inSels b r (.inl ⟨rfl, here, inAll⟩)
      refine ⟨?_, inv'.over, by simp⟩
      rw [List.flatMap_cons, rest, List.append_nil]
      exact passed
  | case4 s block blocks now addr moved read ih =>
      obtain ⟨passed, inv', ends⟩ := block_spec present apart elsewhere written inv
      rw [moved] at ends
      obtain ⟨beyond, start, inSels, volume, saddr, least⟩ := ends
      obtain ⟨low, high⟩ := written.extent block List.mem_cons_self
      have ahead : block.blockAddr < addr :=
        UInt64.lt_of_le_of_lt low (UInt64.lt_of_lt_of_le high beyond)
      obtain ⟨first, still, isStart⟩ : ∃ b ∈ blocks, b.blockAddr = addr := by
        rcases starts start inSels volume with ⟨b, here, isStart⟩ | past
        · rcases List.mem_cons.mp here with rfl | still
          · rw [isStart, saddr] at ahead
            exact absurd ahead (UInt64.lt_irrefl _)
          · exact ⟨b, still, isStart.trans saddr⟩
        · have before := past block List.mem_cons_self
          rw [saddr] at before
          exact absurd before (UInt64.not_lt.mpr (UInt64.le_of_lt ahead))
      obtain ⟨pre, split, unwanted⟩ :=
        seek_spec written.tail still isStart fun sel inSels b here r inAll =>
        least sel inSels b r (.inl ⟨rfl, here, inAll⟩)
      have written' := written.tail
      have starts' := starts.tail written
      have inv'' := inv'
      rw [split] at written' starts' inv''
      obtain ⟨passed', inv', ended⟩ := ih written'.suffix (starts'.suffix written') inv''.suffix
      refine ⟨?_, inv', ended⟩
      rw [List.flatMap_cons, flatMap_split split unwanted]
      exact congrArg₂ (· ++ ·) passed passed'
  | case5 s block blocks now next read ih =>
      obtain ⟨passed, inv', ends⟩ := block_spec present apart elsewhere written inv
      obtain ⟨passed', inv'', ended⟩ := ih written.tail (starts.tail written) inv'
      refine ⟨?_, inv'', ended⟩
      rw [List.flatMap_cons]
      exact congrArg₂ (· ++ ·) passed passed'

/-! ## The volumes of a restore -/

theorem positionToFirstFile_spec {volume : Volume} (written : Written volume.blocks)
    (starts : ∀ sel ∈ sels, sel.volumeName = volume.volumeName →
      ∃ b ∈ volume.blocks, b.blockAddr = sel.saddr)
    (present : sels ≠ [])
    (kept : Chained (behind volume.volumeName volume.blocks later)
      (Counted (behind volume.volumeName volume.blocks later)) sels s.chain)
    (positioned : s.mountNextVolume = true → s.usePositioning = true ∧ s.canPosition = true) :
    ∃ pre, volume.blocks = pre ++ (positionToFirstFile s volume).1 ∧
      (∀ b ∈ pre, selected sels volume.volumeName b = []) ∧
      Inv sels volume.volumeName (behind volume.volumeName volume.blocks later)
        (Counted (behind volume.volumeName volume.blocks later)) (positionToFirstFile s volume).2 := by
  let forced := { s with reposition := true }
  obtain ⟨inv, best⟩ := findNextBsr_spec (s := forced) kept positioned fun _ => .inl rfl
  rw [positionToFirstFile, if_neg (chain_present present kept)]
  generalize findNextBsr forced volume.volumeName = found at inv best ⊢
  obtain ⟨bsr, s'⟩ := found
  cases bsr with
  | none => exact ⟨[], rfl, by simp, inv⟩
  | some bsr =>
      obtain ⟨start, inSels, same, voladdr, least⟩ := best bsr rfl
      have addr : getBsrStartAddr bsr = start.saddr := by simp [getBsrStartAddr, voladdr]
      dsimp only at inv ⊢
      rw [addr]
      split
      case isTrue =>
        obtain ⟨first, here, isStart⟩ := starts start inSels same
        obtain ⟨pre, split, unwanted⟩ := seek_spec written here isStart fun sel inSels b here r inAll =>
          least sel inSels b r (.inl ⟨rfl, here, inAll⟩)
        exact ⟨pre, split, unwanted, inv⟩
      case isFalse => exact ⟨[], rfl, by simp, inv⟩

def onVolumes (volumes : List Volume) : Ahead :=
  fun v b r => ∃ volume ∈ volumes, v = volume.volumeName ∧ b ∈ volume.blocks ∧ r ∈ b.all

theorem onVolumes_cons (volume : Volume) (volumes : List Volume) (v : String) (b : Block)
    (r : DevRecord) :
    behind volume.volumeName volume.blocks (onVolumes volumes) v b r ↔
      onVolumes (volume :: volumes) v b r := by
  simp [behind, onVolumes]

theorem readRecords_spec (present : sels ≠ []) (apart : sels.Pairwise Selection.Apart)
    (volumes : List Volume) (names : (volumes.map Volume.volumeName).Nodup)
    (written : ∀ volume ∈ volumes, Written volume.blocks)
    (starts : ∀ volume ∈ volumes, ∀ sel ∈ sels, sel.volumeName = volume.volumeName →
      ∃ b ∈ volume.blocks, b.blockAddr = sel.saddr)
    (kept : Chained (onVolumes volumes) (Counted (onVolumes volumes)) sels s.chain)
    (positioned : s.mountNextVolume = true → s.usePositioning = true ∧ s.canPosition = true) :
    readRecords volumes s = volumes.flatMap fun volume =>
      volume.blocks.flatMap (selected sels volume.volumeName) := by
  induction volumes generalizing s with
  | nil => rfl
  | cons volume volumes ih =>
      obtain ⟨writtenHere, writtenLater⟩ := List.forall_mem_cons.mp written
      obtain ⟨startsHere, startsLater⟩ := List.forall_mem_cons.mp starts
      rw [List.map_cons, List.nodup_cons] at names
      have elsewhere : ∀ b r, ¬ onVolumes volumes volume.volumeName b r := by
        rintro b r ⟨other, here, same, -⟩
        exact names.1 (same ▸ List.mem_map_of_mem here)
      have split := fun v b r => (onVolumes_cons volume volumes v b r).mp
      obtain ⟨pre, blocks, unwanted, inv⟩ := positionToFirstFile_spec writtenHere startsHere present
        (Chained.mono split (fun _ _ counted => counted.mono split) kept) positioned
      rw [readRecords]
      generalize positionToFirstFile s volume = first at blocks inv ⊢
      obtain ⟨rest, s'⟩ := first
      have startsAll : Starts sels volume.volumeName volume.blocks :=
        fun sel here same => .inl (startsHere sel here same)
      dsimp only at blocks inv ⊢
      have skipped : volume.blocks.flatMap (selected sels volume.volumeName) =
          rest.flatMap (selected sels volume.volumeName) := flatMap_split blocks unwanted
      rw [blocks] at writtenHere startsAll inv
      obtain ⟨passed, inv', ended⟩ := readBlocks_spec present apart elsewhere writtenHere.suffix
        (startsAll.suffix writtenHere) inv.suffix
      rw [List.flatMap_cons, skipped, ← passed]
      split
      case isTrue allDone =>
        have rest : volumes.flatMap
            (fun volume => volume.blocks.flatMap (selected sels volume.volumeName)) = [] := by
          rw [List.flatMap_eq_nil_iff]
          intro other here
          rw [List.flatMap_eq_nil_iff]
          intro b inVolume
          exact selected_none fun sel inSels r inAll =>
            ended allDone sel inSels _ b r ⟨other, here, rfl, inVolume, inAll⟩
        rw [rest, List.append_nil]
      case isFalse =>
        rw [ih names.2 writtenLater startsLater inv'.kept inv'.positioned]

/-- Every record that the bootstrap selects is passed on, in order and once, and no other one. -/
theorem records_selected (sels : List Selection) (volumes : List Volume) (s : State)
    (present : sels ≠ []) (chain : s.chain = sels.map Selection.bsr) (fresh : s.mountNextVolume = false)
    (apart : sels.Pairwise Selection.Apart) (names : (volumes.map Volume.volumeName).Nodup)
    (written : ∀ volume ∈ volumes, Written volume.blocks)
    (starts : ∀ volume ∈ volumes, ∀ sel ∈ sels, sel.volumeName = volume.volumeName →
      ∃ block ∈ volume.blocks, block.blockAddr = sel.saddr) :
    readRecords volumes s = volumes.flatMap fun volume =>
      volume.blocks.flatMap (selected sels volume.volumeName) := by
  refine readRecords_spec present apart volumes names written starts ?_ (by simp [fresh])
  rw [chain, Chained, List.forall₂_map_right_iff, List.forall₂_same]
  exact fun sel _ => ⟨tracks_start _ sel, .inl rfl⟩

/-- Two files of a job that started on one volume and was ended on another. -/
def twoFiles (volumeName : String) (saddr eaddr : UInt64) (findex : ℤ) : Selection where
  volumeName := volumeName
  saddr := saddr
  eaddr := eaddr
  volSessionId := 3
  volSessionTime := 70
  findex := [(findex, findex), (findex + 2, findex + 2)]
  others := fun _ _ => true
  some := by simp
  nonempty := by simp
  ascending := by simp

def oneRecord (blockAddr : UInt64) (volSessionId : UInt32) (fileIndex : ℤ) : Block :=
  ⟨blockAddr, blockAddr + 63, blockAddr + 64, volSessionId, 70,
    [⟨fileIndex, 1, []⟩, ⟨fileIndex, 2, []⟩], none⟩

/-- The device is sent over the blocks of another job. -/
theorem records_selected_two :
    readRecords [⟨"Full-1",
      [oneRecord 64 2 1, oneRecord 128 3 1, oneRecord 192 2 2, oneRecord 256 3 2]⟩,
        ⟨"Full-2", [oneRecord 64 3 3, oneRecord 128 3 4]⟩]
      ⟨[twoFiles "Full-1" 128 400 2, twoFiles "Full-2" 64 400 4].map Selection.bsr, true, true,
        false, false, fun _ => none⟩ =
      [⟨2, 1, []⟩, ⟨2, 2, []⟩, ⟨4, 1, []⟩, ⟨4, 2, []⟩] := by
  refine (records_selected [twoFiles "Full-1" 128 400 2, twoFiles "Full-2" 64 400 4] _ _ (by simp)
    rfl rfl ?_ ?_ ?_ ?_).trans ?_
  · simp [Selection.Apart, twoFiles]
  · decide
  · refine List.forall_mem_cons.mpr ⟨⟨?_, ?_, ?_⟩, List.forall_mem_cons.mpr ⟨⟨?_, ?_, ?_⟩, by simp⟩⟩ <;>
      simp [oneRecord, Block.all, Block.session]
  · simp [oneRecord, twoFiles]
  · decide

end Bacula.MatchBsr
