import Bacula.Stored.Record

/-! Volume labels of `stored/label.c`: the label is packed field by field without tags
by `create_volume_label_record` and unpacked by `unser_volume_label`. -/
namespace Bacula.Label
open ByteCodec

/-- `MAX_NAME_LENGTH`, the size of all name arrays. -/
abbrev Name := Field 128

/-- `struct Volume_Label`; dates are the bit patterns of `float64_t`. -/
structure VolumeLabel where
  labelType : Int32
  labelSize : ℕ
  id : Field 32
  verNum : UInt32
  labelDate : UInt64
  labelTime : UInt64
  labelBtime : Int64
  writeBtime : Int64
  writeDate : UInt64
  writeTime : UInt64
  volumeName : Name
  prevVolumeName : Name
  poolName : Name
  poolType : Name
  mediaType : Name
  hostName : Name
  labelProg : Field 50
  progVersion : Field 50
  progDate : Field 50
  alignedVolumeName : Field 132
  firstData : UInt64
  fileAlignment : UInt32
  paddingSize : UInt32
  blockSize : UInt32
  deriving DecidableEq

/-- `BaculaId` and `BaculaTapeVersion`. -/
def baculaId : Field 32 := ⟨ascii "Bacula 1.0 immortal\n", by decide, by decide⟩

def baculaTapeVersion : UInt32 := 11

/-- What the clock gives at the time of writing: `get_current_btime` and the two
parts of `get_current_time`. -/
structure Clock where
  btime : Int64
  julianDayNumber : UInt64
  julianDayFraction : UInt64

/-- The parts of the job control record that go into labels. -/
structure Jcr where
  volSessionId : UInt32
  volSessionTime : UInt32
  numWriteVolumes : Int32
  jobId : UInt32
  /-- Not read by any label function. -/
  startTime : Int64
  jobName : Name
  clientName : Name
  job : Name
  filesetName : Name
  filesetMd5 : Name
  jobType : Int32
  jobLevel : Int32
  jobFiles : UInt32
  jobBytes : UInt64
  jobErrors : UInt32
  jobStatus : Int32

/-- The parts of the device control record that labels use. -/
structure Dcr where
  volumeName : Name
  poolName : Name
  poolType : Name
  startAddr : UInt64
  endAddr : UInt64
  volFirstIndex : UInt32
  volLastIndex : UInt32

/-- `SER_LENGTH_Volume_Label` and `SER_LENGTH_Session_Label`. -/
def serLengthLabel : ℕ := 1024

/-- The fields that `create_volume_label_record` sets while it writes. -/
def VolumeLabel.stamped (h : VolumeLabel) (now : Clock) : VolumeLabel :=
  let h := { h with alignedVolumeName := .empty 131 }
  if 11 ≤ h.verNum then { h with writeBtime := now.btime, writeDate := 0, writeTime := 0 }
  else { h with writeDate := now.julianDayNumber, writeTime := now.julianDayFraction }

/-- The `ser_` statements of `create_volume_label_record`, in their order. -/
def serVolumeLabel (h : VolumeLabel) : List UInt8 :=
  serialString h.id ++ (serialUint32 h.verNum ++
  ((if 11 ≤ h.verNum then serialBtime h.labelBtime ++ serialBtime h.writeBtime
    else serialFloat64 h.labelDate ++ serialFloat64 h.labelTime) ++
  (serialFloat64 h.writeDate ++ (serialFloat64 h.writeTime ++
  (serialString h.volumeName ++ (serialString h.prevVolumeName ++
  (serialString h.poolName ++ (serialString h.poolType ++ (serialString h.mediaType ++
  (serialString h.hostName ++ (serialString h.labelProg ++
  (serialString h.progVersion ++ (serialString h.progDate ++
  (serialString h.alignedVolumeName ++
  (serialUint64 h.firstData ++ (serialUint32 h.fileAlignment ++
  (serialUint32 h.paddingSize ++ serialUint32 h.blockSize)))))))))))))))))

/-- The label record, the header with the fields set on the way, and the volume name
of the dcr. A failed assertion (the build defines `DEBUG`) gives `none`. -/
def createVolumeLabelRecord (now : Clock) (jcr : Jcr) (dcr : Dcr) (volHdr : VolumeLabel)
    (rec : DevRecord) (adata : Bool) : Option (DevRecord × VolumeLabel × Dcr) :=
  let volHdr := volHdr.stamped now
  let stored := serVolumeLabel volHdr
  let dcr := if adata then dcr else { dcr with volumeName := volHdr.volumeName }
  if serLengthLabel < stored.length ∨ dcr.volumeName.text = [] then none
  else
    -- the first `serLengthLabel` bytes of the buffer were cleared
    let buf := checkPoolMemorySize rec.data serLengthLabel
    let cleared := List.replicate serLengthLabel 0 ++ buf.drop serLengthLabel
    some ({ rec with
      data := stored ++ cleared.drop stored.length
      dataLen := stored.length
      fileIndex := volHdr.labelType
      volSessionId := jcr.volSessionId
      volSessionTime := jcr.volSessionTime
      stream := jcr.numWriteVolumes
      maskedStream := jcr.numWriteVolumes }, volHdr, dcr)

/-- The `unser_` statements of `unser_volume_label`, in their order. The aligned
volume name is not among them. -/
def unserVolumeLabelFields (h : VolumeLabel) : Decoder VolumeLabel := do
  let id ← unserialString 32
  let verNum ← unserialUint32
  let h := { h with id, verNum }
  let h ←
    if 11 ≤ verNum then do
      let labelBtime ← unserialBtime
      let writeBtime ← unserialBtime
      pure { h with labelBtime, writeBtime }
    else do
      let labelDate ← unserialFloat64
      let labelTime ← unserialFloat64
      pure { h with labelDate, labelTime }
  let writeDate ← unserialFloat64
  let writeTime ← unserialFloat64
  let volumeName ← unserialString 128
  let prevVolumeName ← unserialString 128
  let poolName ← unserialString 128
  let poolType ← unserialString 128
  let mediaType ← unserialString 128
  let hostName ← unserialString 128
  let labelProg ← unserialString 50
  let progVersion ← unserialString 50
  let progDate ← unserialString 50
  let firstData ← unserialUint64
  let fileAlignment ← unserialUint32
  let paddingSize ← unserialUint32
  let blockSize ← unserialUint32
  pure { h with
    writeDate, writeTime, volumeName, prevVolumeName, poolName, poolType, mediaType, hostName,
    labelProg, progVersion, progDate, firstData, fileAlignment, paddingSize, blockSize,
    alignedVolumeName := .empty 131 }

/-- The returned flag and the device's volume header afterwards. -/
def unserVolumeLabel (forgeOn : Bool) (volHdr : VolumeLabel) (rec : DevRecord) :
    Except Fault (Bool × VolumeLabel) :=
  if rec.fileIndex ≠ VOL_LABEL ∧ rec.fileIndex ≠ PRE_LABEL ∧ forgeOn = false then
    .ok (false, volHdr)
  else
    let h := { volHdr with labelType := rec.fileIndex, labelSize := rec.dataLen }
    let buf := checkPoolMemorySize rec.data serLengthLabel
    match (unserVolumeLabelFields h).run buf with
    | .ok (h, _) => .ok (true, h)
    | .error fault => .error fault

theorem VolumeLabel.stamped_eq (h : VolumeLabel) (now : Clock) :
    ∃ writeBtime writeDate writeTime, h.stamped now =
      { h with alignedVolumeName := .empty 131, writeBtime, writeDate, writeTime } := by
  simp only [VolumeLabel.stamped]
  split
  · exact ⟨now.btime, 0, 0, rfl⟩
  · exact ⟨h.writeBtime, now.julianDayNumber, now.julianDayFraction, rfl⟩

/-- The label as `unser_volume_label` sees it: the terminator of the empty aligned
volume name is taken for the first byte of `FirstData`, and every later number is
displaced by one byte. -/
def VolumeLabel.displaced (h : VolumeLabel) : VolumeLabel :=
  { h with
    firstData := UInt64.ofNat (h.firstData.toNat / 256)
    fileAlignment := shifted (UInt8.ofNat h.firstData.toNat) h.fileAlignment
    paddingSize := shifted (UInt8.ofNat h.fileAlignment.toNat) h.paddingSize
    blockSize := shifted (UInt8.ofNat h.paddingSize.toNat) h.blockSize }

theorem unserVolumeLabelFields_ser (old h : VolumeLabel) (rest : List UInt8)
    (recent : 11 ≤ h.verNum) (unaligned : h.alignedVolumeName = .empty 131) :
    ∃ left, (unserVolumeLabelFields old).run (serVolumeLabel h ++ rest) =
      .ok ({ h.displaced with
        labelType := old.labelType, labelSize := old.labelSize,
        labelDate := old.labelDate, labelTime := old.labelTime }, left) := by
  refine ⟨UInt8.ofNat h.blockSize.toNat :: rest, ?_⟩
  have marker : serialString (.empty 131 : Field 132) = [0] := rfl
  -- checked step by step: as one definitional equation the kernel would run the decoder
  simp -implicitDefEqProofs only
    [unserVolumeLabelFields, serVolumeLabel, recent, unaligned, marker, if_true,
    List.append_assoc, List.cons_append, List.nil_append, StateT.run_bind, StateT.run_pure,
    pure_bind, ok_bind, unserialString_serial, unserialUint32_serial, unserialBtime_serial,
    unserialFloat64_serial, unserialUint64_shifted, unserialUint32_shifted]
  simp only [VolumeLabel.displaced, unaligned]
  rfl

theorem serVolumeLabel_length_le (h : VolumeLabel)
    (unaligned : h.alignedVolumeName = .empty 131) :
    (serVolumeLabel h).length ≤ serLengthLabel := by
  have marker : (serialString h.alignedVolumeName).length = 1 := by rw [unaligned]; rfl
  have id := h.id.stored_length_le
  have volumeName := h.volumeName.stored_length_le
  have prevVolumeName := h.prevVolumeName.stored_length_le
  have poolName := h.poolName.stored_length_le
  have poolType := h.poolType.stored_length_le
  have mediaType := h.mediaType.stored_length_le
  have hostName := h.hostName.stored_length_le
  have labelProg := h.labelProg.stored_length_le
  have progVersion := h.progVersion.stored_length_le
  have progDate := h.progDate.stored_length_le
  have dates : (if 11 ≤ h.verNum then serialBtime h.labelBtime ++ serialBtime h.writeBtime
      else serialFloat64 h.labelDate ++ serialFloat64 h.labelTime).length = 16 := by
    split <;> simp
  simp only [serVolumeLabel, List.length_append, marker, dates, serialUint32_length,
    serialUint64_length, serialFloat64_length]
  simp only [serialString, serLengthLabel]
  linarith

/-- The fields that the two sides exchange have the same values. -/
structure SameLabel (a b : VolumeLabel) : Prop where
  id : a.id = b.id
  verNum : a.verNum = b.verNum
  labelBtime : a.labelBtime = b.labelBtime
  writeBtime : a.writeBtime = b.writeBtime
  volumeName : a.volumeName = b.volumeName
  prevVolumeName : a.prevVolumeName = b.prevVolumeName
  poolName : a.poolName = b.poolName
  poolType : a.poolType = b.poolType
  mediaType : a.mediaType = b.mediaType
  hostName : a.hostName = b.hostName
  labelProg : a.labelProg = b.labelProg
  progVersion : a.progVersion = b.progVersion
  progDate : a.progDate = b.progDate
  firstData : a.firstData = b.firstData
  fileAlignment : a.fileAlignment = b.fileAlignment
  paddingSize : a.paddingSize = b.paddingSize
  blockSize : a.blockSize = b.blockSize

/-- The label type and the fields of old versions are not among the exchanged ones. -/
theorem sameLabel_retyped_iff (a b : VolumeLabel) (labelType : Int32) (labelSize : ℕ)
    (labelDate labelTime : UInt64) :
    SameLabel { a with labelType, labelSize, labelDate, labelTime } b ↔ SameLabel a b := by
  constructor
  · intro s
    exact ⟨s.id, s.verNum, s.labelBtime, s.writeBtime, s.volumeName, s.prevVolumeName, s.poolName,
      s.poolType, s.mediaType, s.hostName, s.labelProg, s.progVersion, s.progDate, s.firstData,
      s.fileAlignment, s.paddingSize, s.blockSize⟩
  · intro s
    exact ⟨s.id, s.verNum, s.labelBtime, s.writeBtime, s.volumeName, s.prevVolumeName, s.poolName,
      s.poolType, s.mediaType, s.hostName, s.labelProg, s.progVersion, s.progDate, s.firstData,
      s.fileAlignment, s.paddingSize, s.blockSize⟩

/-- `unser_volume_label` recovers the header that `create_volume_label_record` left in
the device, whatever the header `old` in the reading device was. -/
def VolumeLabelRoundTrips (now : Clock) (jcr : Jcr) (dcr : Dcr) (volHdr : VolumeLabel)
    (rec : DevRecord) (adata forgeOn : Bool) (old : VolumeLabel) : Prop :=
  ∃ rec' volHdr' dcr' label,
    createVolumeLabelRecord now jcr dcr volHdr rec adata = some (rec', volHdr', dcr') ∧
    unserVolumeLabel forgeOn old rec' = .ok (true, label) ∧
    SameLabel label volHdr' ∧ label.labelType = rec'.fileIndex

theorem shifted_toNat (x : UInt8) (v : UInt32) :
    (shifted x v).toNat = x.toNat * 256 ^ 3 + v.toNat / 256 := by
  have hx := x.toNat_lt
  have hv := v.toNat_lt
  simp only [shifted, UInt32.toNat_ofNat']
  omega

theorem shifted_zero_eq_iff (v : UInt32) : shifted 0 v = v ↔ v = 0 := by
  constructor
  · intro h
    have digits := congrArg UInt32.toNat h
    rw [shifted_toNat] at digits
    apply UInt32.toNat_inj.mp
    simp only [UInt8.toNat_zero, UInt32.toNat_zero] at digits ⊢
    omega
  · rintro rfl
    rfl

/-- The displaced numbers are the stored ones only when all of them vanish. -/
theorem sameLabel_displaced_iff (h : VolumeLabel) :
    SameLabel h.displaced h ↔
      h.firstData = 0 ∧ h.fileAlignment = 0 ∧ h.paddingSize = 0 ∧ h.blockSize = 0 := by
  constructor
  · intro same
    have first : h.firstData = 0 := by
      have digits := congrArg UInt64.toNat same.firstData
      have := h.firstData.toNat_lt
      simp only [VolumeLabel.displaced, UInt64.toNat_ofNat'] at digits
      apply UInt64.toNat_inj.mp
      simp only [UInt64.toNat_zero]
      omega
    have alignment := same.fileAlignment
    have padding := same.paddingSize
    have size := same.blockSize
    simp only [VolumeLabel.displaced, first, UInt64.toNat_zero] at alignment
    have alignment : h.fileAlignment = 0 := (shifted_zero_eq_iff _).mp alignment
    simp only [VolumeLabel.displaced, alignment, UInt32.toNat_zero] at padding
    have padding : h.paddingSize = 0 := (shifted_zero_eq_iff _).mp padding
    simp only [VolumeLabel.displaced, padding, UInt32.toNat_zero] at size
    exact ⟨first, alignment, padding, (shifted_zero_eq_iff _).mp size⟩
  · rintro ⟨first, alignment, padding, size⟩
    have zero : shifted 0 0 = 0 := rfl
    constructor <;> simp [VolumeLabel.displaced, first, alignment, padding, size, zero]

/-- Whether `create_volume_label_record` passes its assertion on the name, and whether
`unser_volume_label` takes the record for a volume label. -/
def labelAccepted (dcr : Dcr) (volHdr : VolumeLabel) (adata forgeOn : Bool) : Prop :=
  (if adata then dcr.volumeName else volHdr.volumeName).text ≠ [] ∧
    (volHdr.labelType = VOL_LABEL ∨ volHdr.labelType = PRE_LABEL ∨ forgeOn = true)

theorem createVolumeLabelRecord_eq (now : Clock) (jcr : Jcr) (dcr : Dcr) (volHdr : VolumeLabel)
    (rec : DevRecord) (adata : Bool)
    (named : (if adata then dcr.volumeName else volHdr.volumeName).text ≠ []) :
    ∃ rec' dcr' rest,
      createVolumeLabelRecord now jcr dcr volHdr rec adata =
        some (rec', volHdr.stamped now, dcr') ∧
      rec'.fileIndex = volHdr.labelType ∧
      rec'.data = serVolumeLabel (volHdr.stamped now) ++ rest := by
  obtain ⟨writeBtime, writeDate, writeTime, stamped⟩ := volHdr.stamped_eq now
  have short : (serVolumeLabel (volHdr.stamped now)).length ≤ serLengthLabel :=
    serVolumeLabel_length_le _ (by rw [stamped])
  have name : (volHdr.stamped now).volumeName = volHdr.volumeName := by rw [stamped]
  have labelType : (volHdr.stamped now).labelType = volHdr.labelType := by rw [stamped]
  have dcrName : (if adata then dcr
      else { dcr with volumeName := (volHdr.stamped now).volumeName }).volumeName.text ≠ [] := by
    cases adata
    · simpa [name] using named
    · simpa using named
  simp only [createVolumeLabelRecord]
  rw [if_neg (not_or.mpr ⟨Nat.not_lt.mpr short, dcrName⟩)]
  exact ⟨_, _, _, rfl, labelType, rfl⟩

theorem createVolumeLabelRecord_unnamed (now : Clock) (jcr : Jcr) (dcr : Dcr)
    (volHdr : VolumeLabel) (rec : DevRecord) (adata : Bool)
    (unnamed : (if adata then dcr.volumeName else volHdr.volumeName).text = []) :
    createVolumeLabelRecord now jcr dcr volHdr rec adata = none := by
  obtain ⟨writeBtime, writeDate, writeTime, stamped⟩ := volHdr.stamped_eq now
  have name : (volHdr.stamped now).volumeName = volHdr.volumeName := by rw [stamped]
  simp only [createVolumeLabelRecord]
  apply if_pos
  right
  cases adata
  · simpa [name] using unnamed
  · simpa using unnamed

theorem unserVolumeLabel_ser (forgeOn : Bool) (old h : VolumeLabel) (rec : DevRecord)
    (rest : List UInt8) (recent : 11 ≤ h.verNum) (unaligned : h.alignedVolumeName = .empty 131)
    (stored : rec.data = serVolumeLabel h ++ rest)
    (accepted : rec.fileIndex = VOL_LABEL ∨ rec.fileIndex = PRE_LABEL ∨ forgeOn = true) :
    unserVolumeLabel forgeOn old rec = .ok (true, { h.displaced with
      labelType := rec.fileIndex, labelSize := rec.dataLen,
      labelDate := old.labelDate, labelTime := old.labelTime }) := by
  have enter : ¬ (rec.fileIndex ≠ VOL_LABEL ∧ rec.fileIndex ≠ PRE_LABEL ∧ forgeOn = false) := by
    rintro ⟨notVol, notPre, off⟩
    rcases accepted with vol | pre | on
    · exact notVol vol
    · exact notPre pre
    · rw [on] at off; cases off
  obtain ⟨left, decoded⟩ := unserVolumeLabelFields_ser
    { old with labelType := rec.fileIndex, labelSize := rec.dataLen } h
    (rest ++ List.replicate (serLengthLabel - rec.data.length) 0) recent unaligned
  have buffer : checkPoolMemorySize rec.data serLengthLabel =
      serVolumeLabel h ++ (rest ++ List.replicate (serLengthLabel - rec.data.length) 0) := by
    rw [← List.append_assoc, ← stored]
    rfl
  simp only [unserVolumeLabel, if_neg enter, buffer, decoded]

theorem unserVolumeLabel_refused (forgeOn : Bool) (old : VolumeLabel) (rec : DevRecord)
    (refused : ¬ (rec.fileIndex = VOL_LABEL ∨ rec.fileIndex = PRE_LABEL ∨ forgeOn = true)) :
    unserVolumeLabel forgeOn old rec = .ok (false, old) := by
  simp only [not_or, Bool.not_eq_true] at refused
  simp only [unserVolumeLabel]
  exact if_pos refused

/-- What one round trip amounts to, before the displaced numbers are compared. -/
theorem volumeLabelRoundTrips_displaced (now : Clock) (jcr : Jcr) (dcr : Dcr)
    (volHdr : VolumeLabel) (rec : DevRecord) (adata forgeOn : Bool) (old : VolumeLabel)
    (recent : 11 ≤ volHdr.verNum) :
    VolumeLabelRoundTrips now jcr dcr volHdr rec adata forgeOn old ↔
      labelAccepted dcr volHdr adata forgeOn ∧
      SameLabel (volHdr.stamped now).displaced (volHdr.stamped now) := by
  obtain ⟨writeBtime, writeDate, writeTime, stamped⟩ := volHdr.stamped_eq now
  by_cases named : (if adata then dcr.volumeName else volHdr.volumeName).text ≠ []
  · obtain ⟨rec', dcr', rest, created, fileIndex, stored⟩ :=
      createVolumeLabelRecord_eq now jcr dcr volHdr rec adata named
    by_cases accepted : volHdr.labelType = VOL_LABEL ∨ volHdr.labelType = PRE_LABEL ∨ forgeOn = true
    · have read := unserVolumeLabel_ser forgeOn old (volHdr.stamped now) rec' rest
        (by rw [stamped]; exact recent) (by rw [stamped]) stored (by rw [fileIndex]; exact accepted)
      constructor
      · rintro ⟨_, _, _, label, created', read', same, -⟩
        rw [created, Option.some_inj, Prod.mk.injEq, Prod.mk.injEq] at created'
        obtain ⟨rfl, rfl, rfl⟩ := created'
        rw [read, Except.ok.injEq, Prod.mk.injEq] at read'
        obtain ⟨-, rfl⟩ := read'
        exact ⟨⟨named, accepted⟩, (sameLabel_retyped_iff _ _ _ _ _ _).mp same⟩
      · rintro ⟨-, same⟩
        exact ⟨rec', _, dcr', _, created, read, (sameLabel_retyped_iff _ _ _ _ _ _).mpr same, rfl⟩
    · have read := unserVolumeLabel_refused forgeOn old rec' (by rw [fileIndex]; exact accepted)
      constructor
      · rintro ⟨_, _, _, label, created', read', -, -⟩
        rw [created, Option.some_inj, Prod.mk.injEq, Prod.mk.injEq] at created'
        obtain ⟨rfl, rfl, rfl⟩ := created'
        rw [read] at read'
        cases read'
      · rintro ⟨⟨-, accepted'⟩, -⟩
        exact absurd accepted' accepted
  · have none := createVolumeLabelRecord_unnamed now jcr dcr volHdr rec adata (not_not.mp named)
    constructor
    · rintro ⟨_, _, _, _, created, -⟩
      rw [none] at created
      cases created
    · rintro ⟨⟨named', -⟩, -⟩
      exact absurd named' named

/-- The label survives the round trip exactly when the four numbers behind the unread
aligned volume name are zero, so that the displacement is not visible. -/
theorem volumeLabel_roundTrips_iff (now : Clock) (jcr : Jcr) (dcr : Dcr) (volHdr : VolumeLabel)
    (rec : DevRecord) (adata forgeOn : Bool) (old : VolumeLabel) (recent : 11 ≤ volHdr.verNum) :
    VolumeLabelRoundTrips now jcr dcr volHdr rec adata forgeOn old ↔
      labelAccepted dcr volHdr adata forgeOn ∧
      volHdr.firstData = 0 ∧ volHdr.fileAlignment = 0 ∧ volHdr.paddingSize = 0 ∧
      volHdr.blockSize = 0 := by
  obtain ⟨writeBtime, writeDate, writeTime, stamped⟩ := volHdr.stamped_eq now
  rw [volumeLabelRoundTrips_displaced now jcr dcr volHdr rec adata forgeOn old recent,
    sameLabel_displaced_iff, stamped]

/-- The header of an ordinary file volume as `create_volume_header` makes it, with the
block size of its device. -/
def fileVolumeHeader (blockSize : UInt32) : VolumeLabel where
  labelType := VOL_LABEL
  labelSize := 0
  id := baculaId
  verNum := baculaTapeVersion
  labelDate := 0
  labelTime := 0
  labelBtime := 1700000000000000
  writeBtime := 0
  writeDate := 0
  writeTime := 0
  volumeName := ⟨ascii "Vol-0001", by decide, by decide⟩
  prevVolumeName := .empty 127
  poolName := ⟨ascii "File", by decide, by decide⟩
  poolType := ⟨ascii "Backup", by decide, by decide⟩
  mediaType := ⟨ascii "File1", by decide, by decide⟩
  hostName := ⟨ascii "backup", by decide, by decide⟩
  labelProg := ⟨ascii "bacula-sd", by decide, by decide⟩
  progVersion := .empty 49
  progDate := .empty 49
  alignedVolumeName := .empty 131
  firstData := 0
  fileAlignment := 0
  paddingSize := 0
  blockSize := blockSize

def idleJcr : Jcr where
  volSessionId := 1
  volSessionTime := 1700000000
  numWriteVolumes := 0
  jobId := 1
  startTime := 1700000000
  jobName := .empty 127
  clientName := .empty 127
  job := .empty 127
  filesetName := .empty 127
  filesetMd5 := .empty 127
  jobType := 66
  jobLevel := 70
  jobFiles := 0
  jobBytes := 0
  jobErrors := 0
  jobStatus := 84

def idleDcr : Dcr where
  volumeName := .empty 127
  poolName := .empty 127
  poolType := .empty 127
  startAddr := 0
  endAddr := 0
  volFirstIndex := 0
  volLastIndex := 0

theorem volumeLabel_roundTrips_iff_file :
    VolumeLabelRoundTrips ⟨1700000001000000, 0, 0⟩ idleJcr idleDcr (fileVolumeHeader 0) {}
      false false (fileVolumeHeader 7) := by
  apply (volumeLabel_roundTrips_iff _ _ _ (fileVolumeHeader 0) _ _ _ _ (by decide)).mpr
  exact ⟨⟨by decide, Or.inl rfl⟩, rfl, rfl, rfl, rfl⟩

/-- A block size of 64512 is read back as 252. -/
theorem blockSize_not_recovered :
    ¬ VolumeLabelRoundTrips ⟨1700000001000000, 0, 0⟩ idleJcr idleDcr (fileVolumeHeader 64512) {}
      false false (fileVolumeHeader 7) := by
  intro trips
  obtain ⟨-, same⟩ := (volumeLabelRoundTrips_displaced _ _ _ (fileVolumeHeader 64512) _ _ _ _
    (by decide)).mp trips
  have size : ((fileVolumeHeader 64512).stamped ⟨1700000001000000, 0, 0⟩).displaced.blockSize =
      252 := by
    decide
  have same := size.symm.trans same.blockSize
  revert same
  decide

end Bacula.Label
