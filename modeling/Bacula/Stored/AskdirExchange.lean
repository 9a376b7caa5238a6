import Bacula.Stored.AskdirLaw

/-! What the storage daemon has of a volume after it has sent an update to the Director and read
the reply. -/
namespace Bacula.Askdir
open Message Scan VolumeRequest

theorem prepare_name (c : Update) (vol : VolumeCatInfo) :
    (prepare c vol).volCatName = vol.volCatName := by
  unfold prepare
  split <;> rfl

theorem prepare_status (c : Update) {vol : VolumeCatInfo}
    (status : vol.volCatStatus ∈ statusWords) : (prepare c vol).volCatStatus ∈ statusWords := by
  unfold prepare
  split
  · exact List.mem_cons_self
  · exact status

theorem prepare_times (c : Update) (vol : VolumeCatInfo) :
    (prepare c vol).volReadTime = vol.volReadTime ∧
      (prepare c vol).volWriteTime = vol.volWriteTime := by
  unfold prepare
  split <;> exact ⟨rfl, rfl⟩

/-- The expiration changes the status. -/
theorem hasVolumeExpired_eq (d : Director) (mr : MediaDbr) :
    ∃ status, hasVolumeExpired d mr = { mr with volStatus := status } ∧
      (status = mr.volStatus ∨ status = statusWord "Full" ∨ status = statusWord "Used") := by
  unfold hasVolumeExpired
  split
  · split
    · exact ⟨_, rfl, .inr (.inl rfl)⟩
    · split
      · exact ⟨_, rfl, .inr (.inr rfl)⟩
      · exact ⟨_, rfl, .inl rfl⟩
  · split
    · exact ⟨_, rfl, .inr (.inr rfl)⟩
    · exact ⟨_, rfl, .inl rfl⟩

/-- The update keeps the rest of the record, but for its dates. -/
theorem updateRecord_eq (d : Director) (mr : MediaDbr) (u : UpdateMedia) :
    ∃ firstWritten labelDate initialWrite lastWritten, updateRecord d mr u =
      { mr with
        firstWritten, labelDate, initialWrite, lastWritten
        volFiles := if ¬ (u.label ≠ 0 ∨ mr.labelDate = 0) ∧ u.volFiles < mr.volFiles then
            mr.volFiles
          else u.volFiles
        volJobs := u.volJobs
        volBlocks := u.volBlocks
        volBytes := u.volBytes
        volABytes := u.volABytes
        volHoleBytes := u.volHoleBytes
        volHoles := u.volHoles
        volMounts := u.volMounts
        volErrors := u.volErrors
        volWrites := u.volWrites
        slot := u.slot
        inChanger := u.inChanger
        volType := u.volType
        volParts := u.volParts
        volCloudParts := u.volCloudParts
        lastPartBytes := u.lastPartBytes
        enabled := u.enabled
        recycle := u.recycle
        volStatus := u.volStatus
        volReadTime := u.volReadTime
        volWriteTime := u.volWriteTime } := by
  have reads : u.volReadTime ≥ 0 := UInt64.zero_le
  have writes : u.volWriteTime ≥ 0 := UInt64.zero_le
  have first : ∃ firstWritten, (if mr.firstWritten = 0 then
      { mr with firstWritten := if u.volFirstWritten = 0 then d.startTime else u.volFirstWritten }
      else mr) = { mr with firstWritten } := by
    split <;> exact ⟨_, rfl⟩
  obtain ⟨firstWritten, first⟩ := first
  simp only [updateRecord, first, if_pos reads, if_pos writes, decide_eq_true_eq]
  by_cases labeled : u.label ≠ 0 ∨ mr.labelDate = 0
  · by_cases written : mr.volBlocks ≠ u.volBlocks ∧ u.volLastWritten ≠ 0
    · simp only [if_pos labeled, if_pos written]
      exact ⟨_, _, _, _, rfl⟩
    · simp only [if_pos labeled, if_neg written]
      exact ⟨_, _, _, _, rfl⟩
  · by_cases written : mr.volBlocks ≠ u.volBlocks ∧ u.volLastWritten ≠ 0
    · simp only [if_neg labeled, if_pos written]
      exact ⟨_, _, _, _, rfl⟩
    · simp only [if_neg labeled, if_neg written]
      exact ⟨_, _, _, _, rfl⟩

theorem flag_kept (b : Bool) :
    (flag b).toInt32.toUInt32 = flag b ∧ (flag b ≠ 0 ↔ b = true) := by
  cases b <;> decide

/-- What the storage daemon has after the exchange: what it sent, but for what the Director keeps
or decides itself. -/
def answered (c : Update) (d : Director) (mr : MediaDbr) (sent : VolumeCatInfo) :
    VolumeCatInfo :=
  { sent with
    volCatFiles :=
      if ¬ (c.label = true ∨ mr.labelDate = 0) ∧ sent.volCatFiles < mr.volFiles then mr.volFiles
      else sent.volCatFiles
    volCatStatus := (hasVolumeExpired d (updateRecord d mr (received c sent))).volStatus
    volCatBytes := sent.volCatAmetaBytes + sent.volCatAdataBytes
    volCatMaxBytes := mr.maxVolBytes
    volCatCapacityBytes := mr.volCapacityBytes
    volCatMaxJobs := mr.maxVolJobs
    volCatMaxFiles := mr.maxVolFiles
    endFile := mr.endFile
    endBlock := mr.endBlock
    labelType := mr.labelType
    volMediaId := mr.mediaId.toUInt64.toInt64
    volScratchPoolId := mr.scratchPoolId.toUInt64.toInt64
    maxPoolBytes := d.pool.maxPoolBytes.toInt64
    poolBytes := d.pool.poolBytes.toInt64
    volFirstWritten := 0
    volLastWritten := 0 }

theorem replied_update (c : Update) (d : Director) {mr : MediaDbr} {sent : VolumeCatInfo}
    (found : mr.volumeName = sent.volCatName) :
    replied (hasVolumeExpired d (updateRecord d mr (received c sent))) d.pool =
      answered c d mr sent := by
  obtain ⟨status, expired, -⟩ := hasVolumeExpired_eq d (updateRecord d mr (received c sent))
  obtain ⟨firstWritten, labelDate, initialWrite, lastWritten, updated⟩ :=
    updateRecord_eq d mr (received c sent)
  rw [answered, expired, updated]
  have label : (received c sent).label ≠ 0 ↔ c.label = true := by
    cases same : c.label <;> simp [received, same] <;> decide
  simp only [replied, label, found]
  simp [received, flag_kept]

/-- The reply for a record is read back. -/
def Replied (mr : MediaDbr) (pr : PoolDbr) : Prop :=
  ∃ msg writes, sendVolumeInfo mr pr = some msg ∧
    doGetVolumeInfo msg = some { replied mr pr with volCatWrites := writes } ∧
    (mr.volWrites.toNat < 2 ^ 32 → writes.toNat = mr.volWrites.toNat)

theorem replied_of_names {mr : MediaDbr} (pr : PoolDbr) (name : VolumeName mr.volumeName)
    (status : mr.volStatus ∈ statusWords) (reads : mr.volReadTime.toInt64 ≠ Int64.minValue)
    (writes : mr.volWriteTime.toInt64 ≠ Int64.minValue) : Replied mr pr := by
  refine ⟨_, mr.volWrites.toUInt32, sendVolumeInfo_eq pr name status reads writes,
    reply_read pr name status, fun few => ?_⟩
  rw [UInt64.toNat_toUInt32, Nat.mod_eq_of_lt few]

theorem expired_status (d : Director) {mr : MediaDbr} (status : mr.volStatus ∈ statusWords) :
    (hasVolumeExpired d mr).volStatus ∈ statusWords := by
  have words : statusWord "Full" ∈ statusWords ∧ statusWord "Used" ∈ statusWords := by decide
  obtain ⟨after, expired, same | full | used⟩ := hasVolumeExpired_eq d mr
  · rw [expired, same]
    exact status
  · rw [expired, full]
    exact words.1
  · rw [expired, used]
    exact words.2

/-- What of the record the reply depends on. -/
theorem recorded (c : Update) (d : Director) (mr : MediaDbr) (sent : VolumeCatInfo) :
    let after := hasVolumeExpired d (updateRecord d mr (received c sent))
    after.volumeName = mr.volumeName ∧
      after.volReadTime = sent.volReadTime.toUInt64 ∧
      after.volWriteTime = sent.volWriteTime.toUInt64 ∧
      (sent.volCatStatus ∈ statusWords → after.volStatus ∈ statusWords) := by
  obtain ⟨status, expired, -⟩ := hasVolumeExpired_eq d (updateRecord d mr (received c sent))
  obtain ⟨firstWritten, labelDate, initialWrite, lastWritten, updated⟩ :=
    updateRecord_eq d mr (received c sent)
  refine ⟨by rw [expired, updated], by rw [expired, updated]; rfl, by rw [expired, updated]; rfl,
    fun word => expired_status d ?_⟩
  rw [updated]
  exact word

section Exchange

variable (c : Update) {vol : VolumeCatInfo} (name : VolumeName vol.volCatName)
  (status : vol.volCatStatus ∈ statusWords) (reads : vol.volReadTime ≠ Int64.minValue)
  (writes : vol.volWriteTime ≠ Int64.minValue)

include name status reads writes

theorem update_sent : ∃ msg, dirUpdateVolumeInfo c vol = some msg ∧
    catalogRequest msg = .updateMedia (received c (prepare c vol)) := by
  have sentName : VolumeName (prepare c vol).volCatName := (prepare_name c vol).symm ▸ name
  have sentStatus := prepare_status c status
  obtain ⟨sentReads, sentWrites⟩ := prepare_times c vol
  refine ⟨message (updateFields c sentName sentStatus), ?_, update_received c sentName sentStatus⟩
  rw [dirUpdateVolumeInfo, if_neg name.some]
  exact updateMessage_eq c sentName sentStatus (sentReads ▸ reads) (sentWrites ▸ writes)

theorem exchanged (d : Director) {mr : MediaDbr} (found : mr.volumeName = vol.volCatName) :
    exchange c d mr vol = some (answered c d mr (prepare c vol)) := by
  obtain ⟨msg, sent, request⟩ := update_sent c name status reads writes
  obtain ⟨sentReads, sentWrites⟩ := prepare_times c vol
  obtain ⟨named, readTime, writeTime, worded⟩ := recorded c d mr (prepare c vol)
  have replyName := named.trans found ▸ name
  have replyStatus := worded (prepare_status c status)
  have reply := sendVolumeInfo_eq d.pool replyName replyStatus
    (by rw [readTime, sentReads, Int64.toInt64_toUInt64]; exact reads)
    (by rw [writeTime, sentWrites, Int64.toInt64_toUInt64]; exact writes)
  have answer := reply_read d.pool replyName replyStatus
  rw [replied_update c d (found.trans (prepare_name c vol).symm)] at answer
  simp only [exchange, sent, request, replyToUpdate, reply, Option.bind_eq_bind,
    Option.bind_some, answer]

end Exchange

/-- An update arrives as it was sent and its answer is read back with what the Director keeps, and
so is the reply for any record. -/
theorem volume_info_exchanged :
    (∀ (c : Update) (vol : VolumeCatInfo), VolumeName vol.volCatName →
      vol.volCatStatus ∈ statusWords → vol.volReadTime ≠ Int64.minValue →
      vol.volWriteTime ≠ Int64.minValue →
      (∃ msg, dirUpdateVolumeInfo c vol = some msg ∧
        catalogRequest msg = .updateMedia (received c (prepare c vol))) ∧
      ∀ (d : Director) (mr : MediaDbr), mr.volumeName = vol.volCatName →
        exchange c d mr vol = some (answered c d mr (prepare c vol))) ∧
    ∀ (mr : MediaDbr) (pr : PoolDbr), VolumeName mr.volumeName → mr.volStatus ∈ statusWords →
      mr.volReadTime.toInt64 ≠ Int64.minValue → mr.volWriteTime.toInt64 ≠ Int64.minValue →
      Replied mr pr := by
  refine ⟨fun c vol name status reads writes => ⟨?_, fun d mr found => ?_⟩,
    fun mr pr name status reads writes => replied_of_names pr name status reads writes⟩
  · exact update_sent c name status reads writes
  · exact exchanged c name status reads writes d found

/-- A volume of which nothing is written. -/
def unwritten (name : Text) : VolumeCatInfo where
  volCatBytes := 0
  volCatAmetaBytes := 0
  volCatAdataBytes := 0
  volCatBlocks := 0
  volCatWrites := 0
  volCatHoleBytes := 0
  volLastPartBytes := 0
  volCatHoles := 0
  volCatJobs := 0
  volCatFiles := 0
  volCatType := 1
  volCatParts := 0
  volCatCloudParts := 0
  volCatMounts := 0
  volCatErrors := 0
  endFile := 0
  endBlock := 0
  labelType := 0
  slot := 0
  volCatMaxJobs := 0
  volCatMaxFiles := 0
  volCatMaxBytes := 0
  volCatCapacityBytes := 0
  volReadTime := 0
  volWriteTime := 0
  volMediaId := 1
  volScratchPoolId := 0
  maxPoolBytes := 0
  poolBytes := 0
  volFirstWritten := 0
  volLastWritten := 0
  inChanger := false
  volEnabled := true
  volRecycle := true
  volCatStatus := statusWord "Append"
  volCatName := name

/-- The record of a volume that was written and then archived. -/
def archived (name : Text) : MediaDbr where
  mediaId := 1
  volumeName := name
  firstWritten := 1
  lastWritten := 1
  labelDate := 1
  initialWrite := 1
  labelType := 0
  volJobs := 1
  volFiles := 1
  volBlocks := 1
  volParts := 0
  volCloudParts := 0
  volMounts := 1
  volErrors := 0
  volWrites := 3
  volBytes := 64512
  volABytes := 0
  volHoleBytes := 0
  volHoles := 0
  volType := 1
  maxVolBytes := 2 ^ 40
  volCapacityBytes := 0
  lastPartBytes := 0
  volReadTime := 0
  volWriteTime := 1
  volUseDuration := 0
  maxVolJobs := 0
  maxVolFiles := 0
  recycle := 1
  slot := 0
  enabled := 2
  inChanger := 0
  endFile := 0
  endBlock := 1
  volStatus := statusWord "Full"
  scratchPoolId := 0

/-- An update at the end of a job. -/
def ended : Update where
  jobId := 1
  label := false
  useDcrOnly := true
  isWorm := false
  devType := 1
  time := 5

def director : Director where
  startTime := 1
  now := 2
  useVolumeOnce := false
  useMaxPoolBytes := false
  quotaReached := false
  pool := ⟨0, 0⟩

theorem spaced_name : VolumeName (statusWord "Vol 1") where
  some := by decide
  fits := by decide
  chars := by decide +kernel

theorem volume_info_exchanged_spaced :
    exchange ended director (archived (statusWord "Vol 1")) (unwritten (statusWord "Vol 1")) =
        some (answered ended director (archived (statusWord "Vol 1"))
          (prepare ended (unwritten (statusWord "Vol 1")))) ∧
      Replied (archived (statusWord "Vol 1")) director.pool := by
  obtain ⟨updates, replies⟩ := volume_info_exchanged
  constructor
  · exact (updates ended (unwritten (statusWord "Vol 1")) spaced_name (by decide) (by decide)
      (by decide)).2 director (archived (statusWord "Vol 1")) rfl
  · exact replies (archived (statusWord "Vol 1")) director.pool spaced_name (by decide) (by decide)
      (by decide)

/-- An archived volume arrives as an enabled one, the Director does not take over the size that was
sent, and a name with a tab is not read. -/
theorem volume_info_narrowed :
    ((sendVolumeInfo (archived (statusWord "Vol 1")) director.pool).bind doGetVolumeInfo).map
        (fun vol => (flag vol.volEnabled).toInt32) = some 1 ∧
      (archived (statusWord "Vol 1")).enabled = 2 ∧
      (exchange ended director (archived (statusWord "Vol 1"))
        (unwritten (statusWord "Vol 1"))).map (·.volCatMaxBytes) = some (2 ^ 40) ∧
      (unwritten (statusWord "Vol 1")).volCatMaxBytes = 0 ∧
      (dirUpdateVolumeInfo ended (unwritten (statusWord "Vol\t1"))).map
        (fun msg => (bsscanf .text VolumeRequest.Update_media msg).isSome) = some false := by
  decide +kernel

end Bacula.Askdir
