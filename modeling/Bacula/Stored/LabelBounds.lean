import Bacula.Lib.Scan
import Bacula.Stored.MalformedBlock
import Bacula.Stored.SessionLabel

/-! Labels of any content: which strings are written behind their fields, and that no byte is read
behind the buffer of the record. -/
namespace Bacula.Label
open ByteCodec Scan MalformedBlock

/-- What is unserialized: a number of some bytes, or a string into a field of some size. -/
inductive Item where
  | number (width : ℕ)
  | string (max : ℕ)

/-- The end of each string is among the bytes of its field. -/
def StringsEnd : List Item → List UInt8 → Prop
  | [], _ => True
  | .number width :: items, p => StringsEnd items (p.drop width)
  | .string max :: items, p => 0 ∈ p.take max ∧ StringsEnd items (afterNul p)

/-- How many bytes the items are read from at most. -/
def span : List Item → ℕ
  | [] => 0
  | .number width :: items => width + span items
  | .string max :: items => max + span items

/-- The decoder reads only so many bytes, and stays inside the fields when the condition holds of
them. -/
def Keeps {α : Type} (n : ℕ) (P : List UInt8 → Prop) (d : Decoder α) : Prop :=
  ∀ input, n ≤ input.length →
    (P input → ∃ r, d.run input = .ok r) ∧ (¬ P input → d.run input = .error .writePastField)

variable {α β : Type}

theorem keeps_pure (a : α) : Keeps (span []) (StringsEnd []) (pure a : Decoder α) :=
  fun input _ => ⟨fun _ => ⟨(a, input), rfl⟩, fun no => absurd trivial no⟩

/-- Items that are read in every case. -/
theorem Keeps.weaken {n m : ℕ} {P : List UInt8 → Prop} {d : Decoder α} (keeps : Keeps n P d)
    (more : n ≤ m) : Keeps m P d := fun input long => keeps input (more.trans long)

theorem Keeps.number {width : ℕ} {first : Decoder α} {next : α → Decoder β} {n : ℕ}
    {P : List UInt8 → Prop} (reads : Reads width first) (keeps : ∀ a, Keeps n P (next a)) :
    Keeps (width + n) (fun p => P (p.drop width)) (first >>= next) := by
  intro input long
  obtain ⟨a, run⟩ := reads (input.take width) (List.length_take_of_le (by omega))
  have here := run (input.drop width)
  rw [List.take_append_drop] at here
  rw [run_bind_ok here]
  exact keeps a (input.drop width) (by rw [List.length_drop]; omega)

/-- A string ends in its field, or the copy of it ends behind the field. -/
theorem scan_cases (max : ℕ) (input : List UInt8) (long : max ≤ input.length) :
    (0 ∈ input.take max → ∃ f, scan max input = .ok (f, afterNul input) ∧
        (afterNul input).length + max ≥ input.length) ∧
      (0 ∉ input.take max → scan max input = .error .writePastField) := by
  induction max generalizing input with
  | zero => exact ⟨fun member => absurd member List.not_mem_nil, fun _ => rfl⟩
  | succ max ih =>
      cases input with
      | nil => exact absurd long (Nat.not_succ_le_zero max)
      | cons b rest =>
          by_cases zero : b = 0
          · subst zero
            refine ⟨fun _ => ⟨.empty max, ?_, ?_⟩, fun none => absurd List.mem_cons_self none⟩
            · rw [scan, dif_pos rfl]
              rfl
            · change rest.length + (max + 1) ≥ rest.length + 1
              omega
          · obtain ⟨ends, runs⟩ := ih rest (Nat.le_of_succ_le_succ long)
            have behind : afterNul (b :: rest) = afterNul rest := by
              rw [afterNul, List.dropWhile_cons, if_pos (by simpa using zero)]
              rfl
            rw [List.take_succ_cons, behind]
            constructor
            · intro member
              have later : 0 ∈ rest.take max := by
                rcases List.mem_cons.mp member with here | there
                · exact absurd here.symm zero
                · exact there
              obtain ⟨f, eq, length⟩ := ends later
              refine ⟨f.cons b zero, ?_, ?_⟩
              · rw [scan, dif_neg zero, eq]
              · rw [List.length_cons]
                omega
            · intro none
              rw [scan, dif_neg zero, runs fun later => none (List.mem_cons_of_mem _ later)]

theorem Keeps.string {max : ℕ} {next : Field max → Decoder β} {n : ℕ} {P : List UInt8 → Prop}
    (keeps : ∀ f, Keeps n P (next f)) :
    Keeps (max + n) (fun p => 0 ∈ p.take max ∧ P (afterNul p)) (unserialString max >>= next) := by
  intro input long
  obtain ⟨ends, runs⟩ := scan_cases max input (by omega)
  by_cases terminated : 0 ∈ input.take max
  · obtain ⟨f, eq, length⟩ := ends terminated
    have run : (unserialString max).run input = .ok (f, afterNul input) := eq
    obtain ⟨good, bad⟩ := keeps f (afterNul input) (by omega)
    rw [run_bind_ok run]
    exact ⟨fun both => good both.2, fun fails => bad fun later => fails ⟨terminated, later⟩⟩
  · have run : (unserialString max).run input = .error .writePastField := runs terminated
    refine ⟨fun both => absurd both.1 terminated, fun _ => ?_⟩
    rw [StateT.run_bind, run]
    rfl

/-- A number that decides what follows. -/
theorem Keeps.version {next : UInt32 → Decoder β} {n : ℕ} {P : UInt32 → List UInt8 → Prop}
    (keeps : ∀ v, Keeps n (P v) (next v)) :
    Keeps (4 + n) (fun p => P (UInt32.ofNat (ByteCodec.number (p.take 4))) (p.drop 4))
      (unserialUint32 >>= next) := by
  intro input long
  have enough : 4 ≤ input.length := by omega
  have run : unserialUint32.run input =
      .ok (UInt32.ofNat (ByteCodec.number (input.take 4)), input.drop 4) := by
    have taken : (bytes 4).run input = .ok (input.take 4, input.drop 4) := if_pos enough
    rw [unserialUint32, StateT.run_map, natural, run_bind_ok taken]
    rfl
  rw [run_bind_ok run]
  exact keeps _ (input.drop 4) (by rw [List.length_drop]; omega)

/-- The decoder reads the items one after the other. -/
def Follows (items : List Item) (d : Decoder α) : Prop := Keeps (span items) (StringsEnd items) d

theorem Follows.number {width : ℕ} {items : List Item} {first : Decoder α} {next : α → Decoder β}
    (reads : Reads width first) (follows : ∀ a, Follows items (next a)) :
    Follows (.number width :: items) (first >>= next) := Keeps.number reads follows

theorem Follows.string {max : ℕ} {items : List Item} {next : Field max → Decoder β}
    (follows : ∀ f, Follows items (next f)) :
    Follows (.string max :: items) (unserialString max >>= next) := Keeps.string follows

/-! ## The labels -/

theorem reads_unserialUint64 : Reads 8 unserialUint64 := (reads_natural 8).map _

theorem reads_unserialBtime : Reads 8 unserialBtime := reads_unserialUint64.map _

theorem reads_unserialFloat64 : Reads 8 unserialFloat64 := reads_unserialUint64

/-- The statements of `unser_volume_label`; the dates have the same size in all versions. -/
def volumeItems : List Item :=
  [.string 32, .number 4, .number 8, .number 8, .number 8, .number 8, .string 128, .string 128,
    .string 128, .string 128, .string 128, .string 128, .string 50, .string 50, .string 50, .number 8,
    .number 4, .number 4, .number 4]

theorem follows_volume (h : VolumeLabel) : Follows volumeItems (unserVolumeLabelFields h) := by
  unfold unserVolumeLabelFields volumeItems
  refine .string fun id => .number reads_unserialUint32 fun verNum => ?_
  by_cases recent : 11 ≤ verNum
  · simp only [if_pos recent, pure_bind]
    refine .number reads_unserialBtime fun _ => .number reads_unserialBtime fun _ => ?_
    refine .number reads_unserialFloat64 fun _ => .number reads_unserialFloat64 fun _ => ?_
    iterate 9 refine .string fun _ => ?_
    exact .number reads_unserialUint64 fun _ => .number reads_unserialUint32 fun _ =>
      .number reads_unserialUint32 fun _ => .number reads_unserialUint32 fun _ => keeps_pure _
  · simp only [if_neg recent, pure_bind]
    refine .number reads_unserialFloat64 fun _ => .number reads_unserialFloat64 fun _ => ?_
    refine .number reads_unserialFloat64 fun _ => .number reads_unserialFloat64 fun _ => ?_
    iterate 9 refine .string fun _ => ?_
    exact .number reads_unserialUint64 fun _ => .number reads_unserialUint32 fun _ =>
      .number reads_unserialUint32 fun _ => .number reads_unserialUint32 fun _ => keeps_pure _

/-- The totals of an end of session label. -/
def totalItems (verNum : UInt32) : List Item :=
  let status : List Item := if 11 ≤ verNum then [.number 4] else []
  .number 4 :: .number 8 :: .number 4 :: .number 4 :: .number 4 :: .number 4 :: .number 4 :: status

/-- The statements of `unser_session_label` behind the version. -/
def sessionItems (verNum : UInt32) (fileIndex : Int32) : List Item :=
  let totals := if fileIndex = EOS_LABEL then totalItems verNum else []
  let md5 := if 11 ≤ verNum then .string 128 :: totals else totals
  let job := if 10 ≤ verNum then .string 128 :: .string 128 :: .number 4 :: .number 4 :: md5 else md5
  .number 4 :: .number 8 :: .number 8 :: .string 128 :: .string 128 :: .string 128 :: .string 128 :: job

theorem follows_totals (l : SessionLabel) : Follows (totalItems l.verNum) (unserSessionTotals l) := by
  unfold totalItems unserSessionTotals
  by_cases recent : 11 ≤ l.verNum
  · simp only [if_pos recent]
    exact .number reads_unserialUint32 fun _ => .number reads_unserialUint64 fun _ =>
      .number reads_unserialUint32 fun _ => .number reads_unserialUint32 fun _ =>
      .number reads_unserialUint32 fun _ => .number reads_unserialUint32 fun _ =>
      .number reads_unserialUint32 fun _ => .number reads_unserialUint32 fun _ => keeps_pure _
  · simp only [if_neg recent, pure_bind]
    exact .number reads_unserialUint32 fun _ => .number reads_unserialUint64 fun _ =>
      .number reads_unserialUint32 fun _ => .number reads_unserialUint32 fun _ =>
      .number reads_unserialUint32 fun _ => .number reads_unserialUint32 fun _ =>
      .number reads_unserialUint32 fun _ => keeps_pure _

/-- Behind the version of a session label. -/
theorem follows_session (l : SessionLabel) (id : Field 32) (verNum : UInt32) (fileIndex : Int32) :
    Follows (sessionItems verNum fileIndex) (do
      let jobId ← unserialUint32
      let l := { l with id, verNum, jobId }
      let l ←
        if 11 ≤ verNum then do
          let writeBtime ← unserialBtime
          pure { l with writeBtime }
        else do
          let writeDate ← unserialFloat64
          pure { l with writeDate }
      let writeTime ← unserialFloat64
      let poolName ← unserialString 128
      let poolType ← unserialString 128
      let jobName ← unserialString 128
      let clientName ← unserialString 128
      let l := { l with writeTime, poolName, poolType, jobName, clientName }
      let l ←
        if 10 ≤ verNum then do
          let job ← unserialString 128
          let fileSetName ← unserialString 128
          let jobType ← unserialUint32
          let jobLevel ← unserialUint32
          pure { l with job, fileSetName, jobType, jobLevel }
        else pure l
      let fileSetMd5 ← if 11 ≤ verNum then unserialString 128 else pure (.empty 127)
      let l := { l with fileSetMd5 }
      if fileIndex = EOS_LABEL then unserSessionTotals l else pure l) := by
  -- the totals, or the end
  have last (l : SessionLabel) (same : l.verNum = verNum) :
      Follows (if fileIndex = EOS_LABEL then totalItems verNum else [])
        (if fileIndex = EOS_LABEL then unserSessionTotals l else pure l) := by
    split
    · rw [← same]
      exact follows_totals l
    · exact keeps_pure l
  unfold sessionItems
  refine .number reads_unserialUint32 fun jobId => ?_
  by_cases recent : 11 ≤ verNum
  · have unique : 10 ≤ verNum := UInt32.le_trans (by decide) recent
    simp only [if_pos recent, if_pos unique, pure_bind]
    refine .number reads_unserialBtime fun _ => .number reads_unserialFloat64 fun _ => ?_
    iterate 6 refine .string fun _ => ?_
    exact .number reads_unserialUint32 fun _ => .number reads_unserialUint32 fun _ =>
      .string fun _ => last _ rfl
  · by_cases unique : 10 ≤ verNum
    · simp only [if_neg recent, if_pos unique, pure_bind]
      refine .number reads_unserialFloat64 fun _ => .number reads_unserialFloat64 fun _ => ?_
      iterate 6 refine .string fun _ => ?_
      exact .number reads_unserialUint32 fun _ => .number reads_unserialUint32 fun _ => last _ rfl
    · simp only [if_neg recent, if_neg unique, pure_bind]
      refine .number reads_unserialFloat64 fun _ => .number reads_unserialFloat64 fun _ => ?_
      iterate 4 refine .string fun _ => ?_
      exact last _ rfl

/-- The version of a session label whose identification ends in its field. -/
def sessionVersion (buf : List UInt8) : UInt32 :=
  UInt32.ofNat (ByteCodec.number ((afterNul buf).take 4))

def SessionStringsEnd (fileIndex : Int32) (buf : List UInt8) : Prop :=
  0 ∈ buf.take 32 ∧ StringsEnd (sessionItems (sessionVersion buf) fileIndex) ((afterNul buf).drop 4)

theorem span_session (verNum : UInt32) (fileIndex : Int32) :
    span (sessionItems verNum fileIndex) ≤ 960 := by
  unfold sessionItems totalItems
  split
  · split
    · split <;> decide
    · split <;> decide
  · split
    · split <;> decide
    · split <;> decide

theorem keeps_session (l : SessionLabel) (fileIndex : Int32) :
    Keeps 1024 (SessionStringsEnd fileIndex) (unserSessionLabelFields l fileIndex) := by
  have behind (id : Field 32) := Keeps.version fun verNum =>
    (follows_session l id verNum fileIndex).weaken (span_session verNum fileIndex)
  exact (Keeps.string behind).weaken (by decide)

/-- The two functions on a record of any content, with the size of its buffer as it is or grown: a
string is written behind its field exactly when one does not end within it, and nothing is read
behind the buffer. -/
theorem unser_labels_iff (forgeOn : Bool) (volHdr : VolumeLabel) (l : SessionLabel) (rec : DevRecord) :
    (((∃ r, unserVolumeLabel forgeOn volHdr rec = .ok r) ↔
          (rec.fileIndex ≠ VOL_LABEL ∧ rec.fileIndex ≠ PRE_LABEL ∧ forgeOn = false) ∨
            StringsEnd volumeItems (checkPoolMemorySize rec.data serLengthLabel)) ∧
        unserVolumeLabel forgeOn volHdr rec ≠ .error .readPastEnd) ∧
      ((∃ r, unserSessionLabel l rec = .ok r) ↔
          SessionStringsEnd rec.fileIndex (checkPoolMemorySize rec.data serLengthLabel)) ∧
        unserSessionLabel l rec ≠ .error .readPastEnd := by
  have long := le_checkPoolMemorySize rec.data serLengthLabel
  constructor
  · unfold unserVolumeLabel
    by_cases skipped : rec.fileIndex ≠ VOL_LABEL ∧ rec.fileIndex ≠ PRE_LABEL ∧ forgeOn = false
    · rw [if_pos skipped]
      exact ⟨iff_of_true ⟨_, rfl⟩ (.inl skipped), by simp⟩
    · rw [if_neg skipped]
      obtain ⟨good, bad⟩ := follows_volume
        { volHdr with labelType := rec.fileIndex, labelSize := rec.dataLen }
        (checkPoolMemorySize rec.data serLengthLabel) (le_trans (by decide) long)
      by_cases ends : StringsEnd volumeItems (checkPoolMemorySize rec.data serLengthLabel)
      · obtain ⟨r, run⟩ := good ends
        simp only [run]
        exact ⟨iff_of_true ⟨_, rfl⟩ (.inr ends), by simp⟩
      · simp only [bad ends]
        exact ⟨iff_of_false (by simp) fun either => either.elim skipped ends, by simp⟩
  · unfold unserSessionLabel
    obtain ⟨good, bad⟩ :=
      keeps_session l rec.fileIndex (checkPoolMemorySize rec.data serLengthLabel) long
    by_cases ends : SessionStringsEnd rec.fileIndex (checkPoolMemorySize rec.data serLengthLabel)
    · obtain ⟨r, run⟩ := good ends
      simp only [run]
      exact ⟨iff_of_true ⟨_, rfl⟩ ends, by simp⟩
    · simp only [bad ends]
      exact ⟨iff_of_false (by simp) ends, by simp⟩

/-- A volume label record whose identification fills its field. -/
def unterminated : DevRecord :=
  { fileIndex := VOL_LABEL, data := List.replicate 33 65, dataLen := 33 }

def blank : VolumeLabel :=
  ⟨0, 0, .empty 31, 0, 0, 0, 0, 0, 0, 0, .empty 127, .empty 127, .empty 127, .empty 127, .empty 127,
    .empty 127, .empty 49, .empty 49, .empty 49, .empty 131, 0, 0, 0, 0⟩

theorem identification_overflows :
    unserVolumeLabel false blank unterminated = .error .writePastField := by
  unfold unserVolumeLabel
  rw [if_neg (by decide)]
  rfl

end Bacula.Label
