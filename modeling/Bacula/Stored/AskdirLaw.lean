import Bacula.Stored.Askdir

/-! What arrives of the fields that the two daemons send each other about a volume. -/
namespace Bacula.Askdir
open Message Scan VolumeRequest

/-- A volume name, possibly with spaces. -/
structure VolumeName (s : Text) : Prop where
  some : s ≠ []
  fits : s.length ≤ 127
  chars : ∀ b ∈ s, b ≠ 0 ∧ b ≠ 1 ∧ (bIsSpace b = true → b = 32)

/-- The words of the program for the status of a volume. -/
def statusWords : List Text :=
  ["Append", "Archive", "Disabled", "Full", "Used", "Cleaning", "Recycle", "Read-Only", "Error",
    "Purged", "Busy", "Scratch"].map statusWord

theorem bashSpaces_solid {s : Text} (name : VolumeName s) : Solid (bashSpaces s) := by
  intro b member
  obtain ⟨c, inside, rfl⟩ := List.mem_map.mp member
  obtain ⟨nonzero, -, space⟩ := name.chars c inside
  split
  · decide
  · next other =>
      refine ⟨nonzero, ?_⟩
      cases blank : bIsSpace c with
      | false => rfl
      | true => exact absurd (space blank) other

theorem unbashSpaces_bashSpaces {s : Text} (name : VolumeName s) :
    unbashSpaces (bashSpaces s) = s := by
  rw [unbashSpaces, bashSpaces, List.map_map]
  refine (List.map_congr_left fun b member => ?_).trans (List.map_id s)
  obtain ⟨-, other, -⟩ := name.chars b member
  by_cases space : b = 32
  · simp [space]
  · simp [space, other]

theorem statusWord_solid {s : Text} (status : s ∈ statusWords) : Solid s ∧ s.length ≤ 10 := by
  have all : ∀ s ∈ statusWords, (∀ b ∈ s, b ≠ 0 ∧ bIsSpace b = false) ∧ s.length ≤ 10 := by
    decide +kernel
  exact all s status

def Scans.s {text : Text} (solid : Solid text) (fits : text.length ≤ BIG) : Scans text :=
  ⟨"%s", .str text, fun fmt _ stops => string_scanned solid fits fmt stops⟩

def Scans.s127 {text : Text} (solid : Solid text) (fits : text.length ≤ 127) : Scans text :=
  ⟨"%127s", .str text, fun fmt _ stops => string_scanned solid fits fmt stops⟩

def Scans.s20 {text : Text} (solid : Solid text) (fits : text.length ≤ 20) : Scans text :=
  ⟨"%20s", .str text, fun fmt _ stops => string_scanned solid fits fmt stops⟩

def Scans.s10 {text : Text} (solid : Solid text) (fits : text.length ≤ 10) : Scans text :=
  ⟨"%10s", .str text, fun fmt _ stops => string_scanned solid fits fmt stops⟩

section Update

variable (c : Update) {vol : VolumeCatInfo} (name : VolumeName vol.volCatName)
  (status : vol.volCatStatus ∈ statusWords)

/-- The request of an update behind its first two fields. -/
def updateFields : List Field :=
  let solid := bashSpaces_solid name
  let word := statusWord_solid status
  [⟨"CatReq JobId=", _, .ld c.jobId, .ld _, rfl⟩,
    ⟨" UpdateMedia VolName=", _, .s (bashSpaces vol.volCatName) (Solid.terminated solid),
      Scans.s solid (by rw [bashSpaces, List.length_map]; exact name.fits.trans (by decide)), rfl⟩,
    ⟨" VolJobs=", _, .u vol.volCatJobs, .u _, rfl⟩,
    ⟨" VolFiles=", _, .u vol.volCatFiles, .u _, rfl⟩,
    ⟨" VolBlocks=", _, .u vol.volCatBlocks, .u _, rfl⟩,
    ⟨" VolBytes=", _, .edited vol.volCatAmetaBytes.toNat, .lld _, rfl⟩,
    ⟨" VolABytes=", _, .edited vol.volCatAdataBytes.toNat, .lld _, rfl⟩,
    ⟨" VolHoleBytes=", _, .edited vol.volCatHoleBytes.toNat, .lld _, rfl⟩,
    ⟨" VolHoles=", _, .u vol.volCatHoles, .u _, rfl⟩,
    ⟨" VolMounts=", _, .u vol.volCatMounts, .u _, rfl⟩,
    ⟨" VolErrors=", _, .u vol.volCatErrors, .u _, rfl⟩,
    ⟨" VolWrites=", _, .u vol.volCatWrites, .lld _, rfl⟩,
    ⟨" MaxVolBytes=", _, .edited vol.volCatMaxBytes.toNat, .lld _, rfl⟩,
    ⟨" EndTime=", _, .edited vol.volLastWritten.toUInt64.toNat, .lld _, rfl⟩,
    ⟨" VolStatus=", _, .s vol.volCatStatus (Solid.terminated word.1), Scans.s10 word.1 word.2,
      rfl⟩,
    ⟨" Slot=", _, .d vol.slot.toUInt32, .d _, rfl⟩,
    ⟨" relabel=", _, .d (flag c.label), .d _, rfl⟩,
    ⟨" InChanger=", _, .d (flag vol.inChanger), .d _, rfl⟩,
    ⟨" VolReadTime=", _, .edited vol.volReadTime.toInt, .lld _, rfl⟩,
    ⟨" VolWriteTime=", _, .edited vol.volWriteTime.toInt, .lld _, rfl⟩,
    ⟨" VolFirstWritten=", _, .edited vol.volFirstWritten.toUInt64.toNat, .lld _, rfl⟩,
    ⟨" VolType=", _, .u vol.volCatType, .u _, rfl⟩,
    ⟨" VolParts=", _, .d vol.volCatParts, .d _, rfl⟩,
    ⟨" VolCloudParts=", _, .d vol.volCatCloudParts, .d _, rfl⟩,
    ⟨" LastPartBytes=", _, .lld vol.volLastPartBytes, .lld _, rfl⟩,
    ⟨" Enabled=", _, .d (flag vol.volEnabled), .d _, rfl⟩,
    ⟨" Recycle=", _, .d (flag vol.volRecycle), .d _, rfl⟩]

theorem updateFields_sendFormat : sendFormat (updateFields c name status) = Update_media := rfl

theorem updateFields_scanFormat :
    scanFormat (updateFields c name status) = VolumeRequest.Update_media := rfl

end Update

/-- What the Director is to store of an update. -/
def received (c : Update) (vol : VolumeCatInfo) : UpdateMedia where
  jobId := c.jobId
  volumeName := vol.volCatName
  volJobs := vol.volCatJobs
  volFiles := vol.volCatFiles
  volBlocks := vol.volCatBlocks
  volBytes := vol.volCatAmetaBytes
  volABytes := vol.volCatAdataBytes
  volHoleBytes := vol.volCatHoleBytes
  volHoles := vol.volCatHoles
  volMounts := vol.volCatMounts
  volErrors := vol.volCatErrors
  volWrites := vol.volCatWrites.toUInt64
  maxVolBytes := vol.volCatMaxBytes
  volLastWritten := vol.volLastWritten
  volStatus := vol.volCatStatus
  slot := vol.slot
  label := (flag c.label).toInt32
  inChanger := (flag vol.inChanger).toInt32
  volReadTime := vol.volReadTime.toUInt64
  volWriteTime := vol.volWriteTime.toUInt64
  volFirstWritten := vol.volFirstWritten
  volType := vol.volCatType
  volParts := vol.volCatParts
  volCloudParts := vol.volCatCloudParts
  lastPartBytes := vol.volLastPartBytes
  enabled := (flag vol.volEnabled).toInt32
  recycle := (flag vol.volRecycle).toInt32

@[simp] theorem kept_int32 (z : Int32) : (UInt64.ofInt z.toInt).toUInt32 = z.toUInt32 := by
  simpa using kept_d z.toUInt32

theorem spaced_of_labels {fields : List Field}
    (all : (fields.all fun f => f.label.toList.head? = some ' ') = true) : Spaced fields := by
  intro f member
  exact of_decide_eq_true (List.all_eq_true.mp all f member)

section Update

variable (c : Update) {vol : VolumeCatInfo} (name : VolumeName vol.volCatName)
  (status : vol.volCatStatus ∈ statusWords)

theorem updateMessage_eq (reads : vol.volReadTime ≠ Int64.minValue)
    (writes : vol.volWriteTime ≠ Int64.minValue) :
    updateMessage c vol = some (message (updateFields c name status)) := by
  rw [← message_sent, updateFields_sendFormat, updateMessage]
  simp only [editInt64, if_neg reads, if_neg writes]
  rfl

theorem updateFields_spaced : Spaced (updateFields c name status).tail :=
  spaced_of_labels (by simp [updateFields])

theorem update_scanned :
    bsscanf .text VolumeRequest.Update_media (message (updateFields c name status)) =
      some ((updateFields c name status).map fun f => f.scans.value) := by
  rw [← updateFields_scanFormat c name status]
  exact message_scanned _ (updateFields_spaced c name status)

theorem update_stored :
    storeUpdateMedia ((updateFields c name status).map fun f => f.scans.value) =
      some (received c vol, []) := by
  have values : (updateFields c name status).map (fun f => f.scans.value) = [
      .word c.jobId, .str (bashSpaces vol.volCatName), .word vol.volCatJobs, .word vol.volCatFiles,
      .word vol.volCatBlocks, .quad vol.volCatAmetaBytes, .quad vol.volCatAdataBytes,
      .quad vol.volCatHoleBytes, .word vol.volCatHoles, .word vol.volCatMounts,
      .word vol.volCatErrors, .quad vol.volCatWrites.toUInt64, .quad vol.volCatMaxBytes,
      .quad vol.volLastWritten.toUInt64, .str vol.volCatStatus, .word vol.slot.toUInt32,
      .word (flag c.label), .word (flag vol.inChanger), .quad vol.volReadTime.toUInt64,
      .quad vol.volWriteTime.toUInt64, .quad vol.volFirstWritten.toUInt64, .word vol.volCatType,
      .word vol.volCatParts, .word vol.volCatCloudParts, .quad vol.volLastPartBytes,
      .word (flag vol.volEnabled), .word (flag vol.volRecycle)] := by
    simp [updateFields, Scans.u, Scans.ld, Scans.d, Scans.lld, Scans.s, Scans.s10]
  rw [values]
  change some (({ received c vol with volumeName := unbashSpaces (bashSpaces vol.volCatName) } :
    UpdateMedia), ([] : List Value)) = _
  rw [unbashSpaces_bashSpaces name]
  rfl

/-- A request whose second label differs is not an update. -/
theorem not_scanned {label conv : String} {pieces : List (String × String)}
    (differs : ∀ fmt rest, bsscanf .text (label.toList ++ fmt)
      (" UpdateMedia VolName=".toList.map byte ++ rest) = none) :
    bsscanf .text (format (("CatReq JobId=", "%ld") :: (label, conv) :: pieces))
      (message (updateFields c name status)) = none := by
  have jobId : Stops (message (updateFields c name status).tail) :=
    message_stops (updateFields_spaced c name status)
  rw [updateFields, message_cons, format_cons, scan_label (by rfl)]
  refine ((Scans.ld _).scans _ _ jobId).trans ?_
  rw [updateFields, List.tail_cons, message_cons, format_cons, differs]
  rfl

theorem update_received :
    catalogRequest (message (updateFields c name status)) = .updateMedia (received c vol) := by
  have noFind : bsscanf .text Find_media (message (updateFields c name status)) = none :=
    not_scanned c name status fun _ _ => rfl
  have noGet : bsscanf .text Get_Vol_Info (message (updateFields c name status)) = none :=
    not_scanned c name status fun _ _ => rfl
  rw [catalogRequest, noFind, noGet, update_scanned, Option.bind_some, update_stored]
  rfl

end Update

/-! ## The reply -/

/-- What the storage daemon is to store of a reply, but for the number of writes, for which it has
less room. The flags are `bool`. -/
def replied (mr : MediaDbr) (pr : PoolDbr) : VolumeCatInfo where
  volCatBytes := mr.volBytes + mr.volABytes
  volCatAmetaBytes := mr.volBytes
  volCatAdataBytes := mr.volABytes
  volCatBlocks := mr.volBlocks
  volCatWrites := mr.volWrites.toUInt32
  volCatHoleBytes := mr.volHoleBytes
  volLastPartBytes := mr.lastPartBytes
  volCatHoles := mr.volHoles
  volCatJobs := mr.volJobs
  volCatFiles := mr.volFiles
  volCatType := mr.volType
  volCatParts := mr.volParts
  volCatCloudParts := mr.volCloudParts
  volCatMounts := mr.volMounts
  volCatErrors := mr.volErrors
  endFile := mr.endFile
  endBlock := mr.endBlock
  labelType := mr.labelType
  slot := mr.slot
  volCatMaxJobs := mr.maxVolJobs
  volCatMaxFiles := mr.maxVolFiles
  volCatMaxBytes := mr.maxVolBytes
  volCatCapacityBytes := mr.volCapacityBytes
  volReadTime := mr.volReadTime.toInt64
  volWriteTime := mr.volWriteTime.toInt64
  volMediaId := mr.mediaId.toUInt64.toInt64
  volScratchPoolId := mr.scratchPoolId.toUInt64.toInt64
  maxPoolBytes := pr.maxPoolBytes.toInt64
  poolBytes := pr.poolBytes.toInt64
  volFirstWritten := 0
  volLastWritten := 0
  inChanger := mr.inChanger.toUInt32 ≠ 0
  volEnabled := mr.enabled.toUInt32 ≠ 0
  volRecycle := mr.recycle.toUInt32 ≠ 0
  volCatStatus := mr.volStatus
  volCatName := mr.volumeName

section Reply

variable {mr : MediaDbr} (pr : PoolDbr) (name : VolumeName mr.volumeName)
  (status : mr.volStatus ∈ statusWords)

/-- The reply of the Director. -/
def replyFields : List Field :=
  let solid := bashSpaces_solid name
  let word := statusWord_solid status
  [⟨"1000 OK VolName=", _, .s (bashSpaces mr.volumeName) (Solid.terminated solid),
      Scans.s127 solid (by rw [bashSpaces, List.length_map]; exact name.fits), rfl⟩,
    ⟨" VolJobs=", _, .u mr.volJobs, .u _, rfl⟩,
    ⟨" VolFiles=", _, .u mr.volFiles, .lu _, rfl⟩,
    ⟨" VolBlocks=", _, .u mr.volBlocks, .lu _, rfl⟩,
    ⟨" VolBytes=", _, .edited mr.volBytes.toNat, .lld _, rfl⟩,
    ⟨" VolABytes=", _, .edited mr.volABytes.toNat, .lld _, rfl⟩,
    ⟨" VolHoleBytes=", _, .edited mr.volHoleBytes.toNat, .lld _, rfl⟩,
    ⟨" VolHoles=", _, .u mr.volHoles, .lu _, rfl⟩,
    ⟨" VolMounts=", _, .u mr.volMounts, .lu _, rfl⟩,
    ⟨" VolErrors=", _, .u mr.volErrors, .lu _, rfl⟩,
    ⟨" VolWrites=", _, .edited mr.volWrites.toNat, .lu _, rfl⟩,
    ⟨" MaxVolBytes=", _, .edited mr.maxVolBytes.toNat, .lld _, rfl⟩,
    ⟨" VolCapacityBytes=", _, .edited mr.volCapacityBytes.toNat, .lld _, rfl⟩,
    ⟨" VolStatus=", _, .s mr.volStatus (Solid.terminated word.1),
      Scans.s20 word.1 (word.2.trans (by decide)), rfl⟩,
    ⟨" Slot=", _, .d mr.slot.toUInt32, .ld _, rfl⟩,
    ⟨" MaxVolJobs=", _, .u mr.maxVolJobs, .lu _, rfl⟩,
    ⟨" MaxVolFiles=", _, .u mr.maxVolFiles, .lu _, rfl⟩,
    ⟨" InChanger=", _, .d mr.inChanger.toUInt32, .ld _, rfl⟩,
    ⟨" VolReadTime=", _, .edited mr.volReadTime.toInt64.toInt, .lld _, rfl⟩,
    ⟨" VolWriteTime=", _, .edited mr.volWriteTime.toInt64.toInt, .lld _, rfl⟩,
    ⟨" EndFile=", _, .u mr.endFile, .lu _, rfl⟩,
    ⟨" EndBlock=", _, .u mr.endBlock, .lu _, rfl⟩,
    ⟨" VolType=", _, .u mr.volType, .lu _, rfl⟩,
    ⟨" LabelType=", _, .d mr.labelType.toUInt32, .ld _, rfl⟩,
    ⟨" MediaId=", _, .edited mr.mediaId.toUInt64.toNat, .lld _, rfl⟩,
    ⟨" ScratchPoolId=", _, .edited mr.scratchPoolId.toUInt64.toNat, .lld _, rfl⟩,
    ⟨" VolParts=", _, .d mr.volParts, .d _, rfl⟩,
    ⟨" VolCloudParts=", _, .d mr.volCloudParts, .d _, rfl⟩,
    ⟨" LastPartBytes=", _, .lld mr.lastPartBytes, .lld _, rfl⟩,
    ⟨" Enabled=", _, .d mr.enabled.toUInt32, .d _, rfl⟩,
    ⟨" MaxPoolBytes=", _, .edited pr.maxPoolBytes.toNat, .lld _, rfl⟩,
    ⟨" PoolBytes=", _, .edited pr.poolBytes.toNat, .lld _, rfl⟩,
    ⟨" Recycle=", _, .d mr.recycle.toUInt32, .d _, rfl⟩]

theorem replyFields_sendFormat :
    sendFormat (replyFields pr name status) = VolumeRequest.OK_media := rfl

theorem replyFields_scanFormat : scanFormat (replyFields pr name status) = OK_media := rfl

theorem sendVolumeInfo_eq (reads : mr.volReadTime.toInt64 ≠ Int64.minValue)
    (writes : mr.volWriteTime.toInt64 ≠ Int64.minValue) :
    sendVolumeInfo mr pr = some (message (replyFields pr name status)) := by
  rw [← message_sent, replyFields_sendFormat, sendVolumeInfo]
  simp only [editInt64, if_neg reads, if_neg writes]
  rfl

theorem replyFields_spaced : Spaced (replyFields pr name status).tail :=
  spaced_of_labels (by simp [replyFields])

theorem reply_scanned :
    bsscanf .text OK_media (message (replyFields pr name status)) =
      some ((replyFields pr name status).map fun f => f.scans.value) := by
  rw [← replyFields_scanFormat pr name status]
  exact message_scanned _ (replyFields_spaced pr name status)

theorem reply_stored :
    storeVolume ((replyFields pr name status).map fun f => f.scans.value) =
      some (replied mr pr, []) := by
  have values : (replyFields pr name status).map (fun f => f.scans.value) = [
      .str (bashSpaces mr.volumeName), .word mr.volJobs, .word mr.volFiles, .word mr.volBlocks,
      .quad mr.volBytes, .quad mr.volABytes, .quad mr.volHoleBytes, .word mr.volHoles,
      .word mr.volMounts, .word mr.volErrors, .word mr.volWrites.toUInt32, .quad mr.maxVolBytes,
      .quad mr.volCapacityBytes, .str mr.volStatus, .word mr.slot.toUInt32, .word mr.maxVolJobs,
      .word mr.maxVolFiles, .word mr.inChanger.toUInt32, .quad mr.volReadTime,
      .quad mr.volWriteTime, .word mr.endFile, .word mr.endBlock, .word mr.volType,
      .word mr.labelType.toUInt32, .quad mr.mediaId.toUInt64, .quad mr.scratchPoolId.toUInt64,
      .word mr.volParts, .word mr.volCloudParts, .quad mr.lastPartBytes,
      .word mr.enabled.toUInt32, .quad pr.maxPoolBytes, .quad pr.poolBytes,
      .word mr.recycle.toUInt32] := by
    simp [replyFields, Scans.u, Scans.lu, Scans.ld, Scans.d, Scans.lld, Scans.s127, Scans.s20]
  rw [values]
  change some (({ replied mr pr with volCatName := unbashSpaces (bashSpaces mr.volumeName) } :
    VolumeCatInfo), ([] : List Value)) = _
  rw [unbashSpaces_bashSpaces name]
  rfl

theorem reply_read :
    doGetVolumeInfo (message (replyFields pr name status)) = some (replied mr pr) := by
  rw [doGetVolumeInfo, reply_scanned, Option.bind_some, reply_stored]

end Reply

end Bacula.Askdir
