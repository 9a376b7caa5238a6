import Bacula.Filed.AccurateLaw

/-! What an accurate job makes of the Catalog. The list that the Director sends holds of every name the
newest row, unless the row says that the file was deleted. -/
namespace Bacula.Accurate
open Attribs SendAttributes

/-- The rows are in the order of their jobs. -/
def newest (rows : List Row) (name : List UInt8) : Option Row :=
  rows.reverse.find? fun row => row.name = name

/-- `FileIndex > 0`. -/
def present (rows : List Row) (name : List UInt8) : Option Row :=
  (newest rows name).filter (0 < ·.fileIndex)

/-- `db_get_file_list`. -/
def fileList (rows : List Row) : List Row := (rows.map Row.name).dedup.filterMap (present rows)

variable {rows : List Row} {name : List UInt8} {row : Row}

theorem newest_append (rows later : List Row) (name : List UInt8) :
    newest (rows ++ later) name = (newest later name).or (newest rows name) := by
  rw [newest, List.reverse_append, List.find?_append]
  rfl

theorem newest_eq_none : newest rows name = none ↔ name ∉ rows.map Row.name := by
  simp [newest]

theorem newest_mem (found : newest rows name = some row) : row ∈ rows ∧ row.name = name := by
  have here := List.mem_of_find?_eq_some found
  exact ⟨List.mem_reverse.mp here, by simpa using List.find?_some found⟩

theorem present_eq_some : present rows name = some row ↔
    newest rows name = some row ∧ 0 < row.fileIndex := by
  simp [present, Option.filter_eq_some_iff]

theorem mem_fileList : row ∈ fileList rows ↔ present rows row.name = some row := by
  rw [fileList, List.mem_filterMap]
  constructor
  · rintro ⟨name, -, found⟩
    have isName := (newest_mem (present_eq_some.mp found).1).2
    rwa [isName]
  · intro found
    have here := (newest_mem (present_eq_some.mp found).1).1
    exact ⟨row.name, List.mem_dedup.mpr (List.mem_map_of_mem here), found⟩

theorem fileList_sub : fileList rows ⊆ rows := by
  intro row here
  exact (newest_mem (present_eq_some.mp (mem_fileList.mp here)).1).1

theorem fileList_length : (fileList rows).length ≤ rows.length := by
  refine (List.length_filterMap_le _ _).trans ?_
  rw [← List.length_map Row.name]
  exact (List.dedup_sublist _).length_le

theorem fileList_nodup : (fileList rows).Nodup := by
  apply (List.nodup_dedup _).filterMap
  intro name name' row found found'
  exact ((newest_mem (present_eq_some.mp found).1).2).symm.trans
    (newest_mem (present_eq_some.mp found').1).2

theorem listed_fileList (useAccurateChksum : Bool) :
    listed useAccurateChksum (fileList rows) = (fileList rows).map (Row.curFile useAccurateChksum) := by
  rw [listed, List.filter_eq_self.mpr]
  intro row here
  have positive := (present_eq_some.mp (mem_fileList.mp here)).2
  simpa using positive.ne'

theorem listed_names (rows : List Row) (useAccurateChksum : Bool) :
    ((listed useAccurateChksum (fileList rows)).map CurFile.fname).Nodup := by
  rw [listed_fileList, List.map_map]
  apply fileList_nodup.map_on
  intro row here row' here' same
  have isName : row.name = row'.name := same
  have found := mem_fileList.mp here
  rw [isName, mem_fileList.mp here'] at found
  exact (Option.some_inj.mp found).symm

/-- A name is looked up among the newest rows. -/
theorem find_listed (rows : List Row) (useAccurateChksum : Bool) (name : List UInt8) :
    (listed useAccurateChksum (fileList rows)).find? (fun elt => elt.fname = name) =
      (present rows name).map (Row.curFile useAccurateChksum) := by
  ext elt
  rw [find_name_iff (listed_names rows useAccurateChksum), listed_fileList, List.mem_map,
    Option.map_eq_some_iff]
  constructor
  · rintro ⟨⟨row, here, rfl⟩, rfl⟩
    exact ⟨row, mem_fileList.mp here, rfl⟩
  · rintro ⟨row, found, rfl⟩
    have isName := (newest_mem (present_eq_some.mp found).1).2
    refine ⟨⟨row, mem_fileList.mpr ?_, rfl⟩, isName⟩
    rwa [isName]

variable {p : Platform} {jcr : JCR} {rounds : ℕ}

theorem touches_name (level : jcr.level ≠ .full) (file : File p) (elt : CurFile) :
    touches jcr file elt = decide (elt.fname = file.name) := by
  simp [touches, level]

/-- The names that a job reports as deleted. -/
theorem owed_names (level : jcr.level = .incremental ∨ jcr.level = .differential)
    (useAccurateChksum : Bool) (pluginCheckFile : List UInt8 → Bool) (files : List (File p)) :
    name ∈ (owed jcr pluginCheckFile files (listed useAccurateChksum (fileList rows))).map Sent.fname ↔
      (present rows name).isSome ∧ (¬ ∃ file ∈ files, file.name = name) ∧ ¬ pluginCheckFile name := by
  have notFull : jcr.level ≠ .full := by
    rcases level with level | level <;> simp [level]
  have isOwed : owed jcr pluginCheckFile files (listed useAccurateChksum (fileList rows)) =
      ((listed useAccurateChksum (fileList rows)).filter fun elt =>
        ¬ (files.any (touches jcr · elt) ∨ pluginCheckFile elt.fname)).map
          (CurFile.sentAs .DELETED) := by
    rcases level with level | level <;> simp [owed, level]
  have entries : (∃ elt ∈ listed useAccurateChksum (fileList rows), elt.fname = name) ↔
      (present rows name).isSome := by
    have found := find_listed rows useAccurateChksum name
    rw [← Option.isSome_map (f := Row.curFile useAccurateChksum), ← found, List.find?_isSome]
    simp
  have tests (elt : CurFile) : files.any (touches jcr · elt) = true ↔
      ∃ file ∈ files, file.name = elt.fname := by
    rw [List.any_eq_true]
    simp only [touches_name notFull, decide_eq_true_eq]
    exact exists_congr fun file => and_congr_right' eq_comm
  rw [isOwed, List.map_map, ← entries, List.mem_map]
  constructor
  · rintro ⟨elt, here, rfl⟩
    obtain ⟨inList, unseen⟩ := List.mem_filter.mp here
    obtain ⟨untouched, unclaimed⟩ := not_or.mp (of_decide_eq_true unseen)
    exact ⟨⟨elt, inList, rfl⟩, untouched ∘ (tests elt).mpr, unclaimed⟩
  · rintro ⟨⟨elt, inList, rfl⟩, untouched, unclaimed⟩
    refine ⟨elt, List.mem_filter.mpr ⟨inList, decide_eq_true (not_or.mpr ⟨?_, unclaimed⟩)⟩, rfl⟩
    exact untouched ∘ (tests elt).mp

/-- The rows that a job adds: of the files that were backed up, and of those that were deleted. -/
structure Added (files : List (File p)) (run : Run p) (saved deleted : List Row) : Prop where
  savedNames : saved.map Row.name = ((files.zip run.checked).filter (·.2.changed)).map (·.1.name)
  savedIndex : ∀ row ∈ saved, 0 < row.fileIndex
  deletedNames : deleted.map Row.name = run.sent.map Sent.fname
  deletedIndex : ∀ row ∈ deleted, row.fileIndex < 0

/-- The row of a name after the job. -/
theorem present_added (rows : List Row) {files : List (File p)} {run : Run p} {saved deleted : List Row}
    (added : Added files run saved deleted) (name : List UInt8) :
    (name ∈ deleted.map Row.name → present (rows ++ saved ++ deleted) name = none) ∧
      (name ∉ deleted.map Row.name → name ∈ saved.map Row.name →
        (present (rows ++ saved ++ deleted) name).isSome) ∧
      (name ∉ deleted.map Row.name → name ∉ saved.map Row.name →
        present (rows ++ saved ++ deleted) name = present rows name) := by
  refine ⟨?_, ?_, ?_⟩
  · intro gone
    obtain ⟨row, found⟩ := Option.ne_none_iff_exists'.mp (newest_eq_none.not.mpr (not_not.mpr gone))
    have negative := added.deletedIndex row (newest_mem found).1
    rw [present, newest_append, found, Option.some_or]
    simp [negative.le]
  · intro notGone isSaved
    obtain ⟨row, found⟩ := Option.ne_none_iff_exists'.mp (newest_eq_none.not.mpr (not_not.mpr isSaved))
    have positive := added.savedIndex row (newest_mem found).1
    rw [present, newest_append, newest_eq_none.mpr notGone, Option.none_or, newest_append, found,
      Option.some_or]
    simp [positive]
  · intro notGone notSaved
    rw [present, newest_append, newest_eq_none.mpr notGone, Option.none_or, newest_append,
      newest_eq_none.mpr notSaved, Option.none_or, present]

theorem zip_check (files : List (File p)) (cat : List CurFile) :
    files.zip (files.map (check jcr cat)) = files.map fun file => (file, check jcr cat file) := by
  induction files with
  | nil => rfl
  | cons file files ih => rw [List.map_cons, List.zip_cons_cons, ih, List.map_cons]

/-- The names of the files that a job backs up. -/
theorem saved_names {files : List (File p)} {cat : List CurFile} :
    name ∈ ((files.zip (files.map (check jcr cat))).filter (·.2.changed)).map (·.1.name) ↔
      ∃ file ∈ files, (check jcr cat file).changed ∧ file.name = name := by
  rw [zip_check]
  simp [and_assoc]

/-- A build with fields of 64 bits. -/
def widePlatform : Platform where
  type := fun _ => ⟨true, 64, by decide⟩
  haveChflags := false
  haveMingw := false

/-- Attributes that are all zero. -/
def zeroRow (filename : List UInt8) (fileIndex : ℤ) : Row :=
  ⟨[47], filename, fileIndex, (List.replicate 15 [65, 32]).flatten ++ [65], 0, none⟩

theorem toBase64_zero : toBase64 0 = [65] := by
  have digit : outputDigits 0 = [65] := by
    rw [outputDigits, if_pos (by decide)]
    decide
  exact digit

theorem zeroRow_decodes (filename : List UInt8) (fileIndex : ℤ) :
    ((zeroRow filename fileIndex).curFile false).Decodes widePlatform := by
  have zeros (field : StatField) : widePlatform.output (fun _ => 0) field = 0 := by
    cases field <;> decide
  have text : (zeroRow filename fileIndex).lstat ++ [0] =
      encodeStat (p := widePlatform) (fun _ => 0) 0 0 := by
    have zero : Int32.toInt64 0 = 0 := rfl
    have noChflags : widePlatform.haveChflags = false := rfl
    have noMingw : widePlatform.haveMingw = false := rfl
    simp only [encodeStat, headFields, List.flatMap_cons, List.flatMap_nil, zeros, zero, noChflags,
      noMingw, Bool.false_eq_true, if_false, toBase64_zero]
    rfl
  exact ⟨_, _, (congrArg _ text).trans (decodeStat_encodeStat _ _ 0 0)⟩

theorem zeroRow_sound (filename : List UInt8) (fileIndex : ℤ) (terminated : 0 ∉ filename) :
    (zeroRow filename fileIndex).Sound where
  path := by simp [zeroRow]
  filename := terminated
  lstat := by simp [zeroRow]
  md5 := by simp [zeroRow]

/-- A file that was not changed. -/
def zeroFile (fname : List UInt8) : File widePlatform where
  pkt := ⟨.REG, fname, none, 0, false, 0, [], [], 0, 0, [], []⟩
  statp := fun _ => 0
  baseJobOpts := ['m', 's']
  accurateOpts := ['m', 'c', 's']
  incremental := true
  saveTime := 0
  mtimeOnly := false
  digestFlag := false
  digest := none

theorem zeroRows_sound : ∀ row ∈ [zeroRow [97] 1, zeroRow [98] 2], row.Sound := by
  refine List.forall_mem_cons.mpr
    ⟨zeroRow_sound [97] 1 (by simp), List.forall_mem_cons.mpr ⟨?_, by simp⟩⟩
  exact zeroRow_sound [98] 2 (by simp)

theorem zeroRows_decode :
    ∀ row ∈ [zeroRow [97] 1, zeroRow [98] 2], (row.curFile false).Decodes widePlatform := by
  refine List.forall_mem_cons.mpr ⟨zeroRow_decodes [97] 1, List.forall_mem_cons.mpr ⟨?_, by simp⟩⟩
  exact zeroRow_decodes [98] 2

/-- After an accurate job the Catalog has the names of the files that were found, and of the deleted
ones only what a plugin keeps. A file that was not backed up again has the row from before, and no
option sees a difference. -/
theorem accurate_round (jcr : JCR) (useAccurateChksum : Bool) (nb : Int32) (rows : List Row)
    (pluginCheckFile : List UInt8 → Bool) (files : List (File p))
    (level : jcr.level = .incremental ∨ jcr.level = .differential) (going : jcr.stopped = false)
    (sound : ∀ row ∈ rows, row.Sound) (few : rows.length < 2 ^ 29) (enough : rows.length < rounds)
    (decodes : ∀ row ∈ rows, (row.curFile useAccurateChksum).Decodes p) :
    ∃ run, accurateRun rounds jcr useAccurateChksum nb (fileList rows) pluginCheckFile files =
      some run ∧ ∀ saved deleted, Added files run saved deleted →
        (∀ name, (present (rows ++ saved ++ deleted) name).isSome ↔
          (∃ file ∈ files, file.name = name) ∨ (present rows name).isSome ∧ pluginCheckFile name) ∧
        ∀ file ∈ files, file.name ∉ saved.map Row.name → ∃ row, present rows file.name = some row ∧
          present (rows ++ saved ++ deleted) file.name = some row ∧
          changed jcr (row.curFile useAccurateChksum) file = false := by
  have short : (fileList rows).length ≤ rows.length := fileList_length
  have notFull : jcr.level ≠ .full := by
    rcases level with level | level <;> simp [level]
  obtain ⟨run, isRun, checked, sent⟩ :=
    run_spec jcr useAccurateChksum nb (fileList rows) pluginCheckFile files going
    (fun row here => sound row (fileList_sub here)) (by omega)
      (by omega : (fileList rows).length < rounds)
    (listed_names rows useAccurateChksum) (by
      rw [listed_fileList, List.forall_mem_map]
      exact fun row here => decodes row (fileList_sub here))
  refine ⟨run, isRun, ?_⟩
  intro saved deleted added
  have isDeleted (name : List UInt8) : name ∈ deleted.map Row.name ↔
      (present rows name).isSome ∧ (¬ ∃ file ∈ files, file.name = name) ∧ ¬ pluginCheckFile name := by
    rw [added.deletedNames, (sent.map Sent.fname).mem_iff]
    exact owed_names level useAccurateChksum pluginCheckFile files
  have isSaved (name : List UInt8) : name ∈ saved.map Row.name ↔
      ∃ file ∈ files, (check jcr (listed useAccurateChksum (fileList rows)) file).changed ∧
        file.name = name := by
    rw [added.savedNames, checked]
    exact saved_names
  have unchanged (file : File p) (here : file ∈ files) (notSaved : file.name ∉ saved.map Row.name) :
      ∃ row, present rows file.name = some row ∧ changed jcr (row.curFile useAccurateChksum) file =
        false := by
    have same : (check jcr (listed useAccurateChksum (fileList rows)) file).changed = false := by
      by_contra differs
      exact notSaved ((isSaved _).mpr ⟨file, here, Bool.eq_true_of_not_eq_false differs, rfl⟩)
    rw [check, find_listed] at same
    cases found : present rows file.name with
    | none =>
        rw [found] at same
        cases same
    | some row =>
        rw [found] at same
        exact ⟨row, rfl, same⟩
  refine ⟨?_, ?_⟩
  · intro name
    obtain ⟨gone, isNew, kept⟩ := present_added rows added name
    by_cases inDeleted : name ∈ deleted.map Row.name
    · obtain ⟨-, notFound, unclaimed⟩ := (isDeleted name).mp inDeleted
      rw [gone inDeleted]
      simp [notFound, unclaimed]
    · by_cases inSaved : name ∈ saved.map Row.name
      · obtain ⟨file, here, -, isName⟩ := (isSaved name).mp inSaved
        exact iff_of_true (isNew inDeleted inSaved) (.inl ⟨file, here, isName⟩)
      · rw [kept inDeleted inSaved]
        have remains := (isDeleted name).not.mp inDeleted
        constructor
        · intro isPresent
          by_contra neither
          obtain ⟨notFound, unclaimed⟩ := not_or.mp neither
          exact remains ⟨isPresent, notFound, fun claimed => unclaimed ⟨isPresent, claimed⟩⟩
        · rintro (⟨file, here, rfl⟩ | ⟨isPresent, -⟩)
          · obtain ⟨row, found, -⟩ := unchanged file here inSaved
            rw [found]
            rfl
          · exact isPresent
  · intro file here notSaved
    obtain ⟨row, found, same⟩ := unchanged file here notSaved
    have notDeleted : file.name ∉ deleted.map Row.name := by
      intro inDeleted
      exact ((isDeleted _).mp inDeleted).2.1 ⟨file, here, rfl⟩
    obtain ⟨-, -, kept⟩ := present_added rows added file.name
    exact ⟨row, found, (kept notDeleted notSaved).trans found, same⟩

/-- One file of two is left. -/
theorem accurate_round_two :
    ∃ run, accurateRun 4 ⟨true, false, .incremental, false⟩ false 2
      (fileList [zeroRow [97] 1, zeroRow [98] 2])
        (fun _ => false) [zeroFile [47, 97]] = some run ∧
      ∀ saved deleted, Added [zeroFile [47, 97]] run saved deleted →
        (∀ name, (present ([zeroRow [97] 1, zeroRow [98] 2] ++ saved ++ deleted) name).isSome ↔
          (∃ file ∈ [zeroFile [47, 97]], file.name = name) ∨
            (present [zeroRow [97] 1, zeroRow [98] 2] name).isSome ∧ false = true) ∧
        ∀ file ∈ [zeroFile [47, 97]], file.name ∉ saved.map Row.name →
          ∃ row, present [zeroRow [97] 1, zeroRow [98] 2] file.name = some row ∧
            present ([zeroRow [97] 1, zeroRow [98] 2] ++ saved ++ deleted) file.name = some row ∧
            changed ⟨true, false, .incremental, false⟩ (row.curFile false) file = false :=
  accurate_round ⟨true, false, .incremental, false⟩ false 2 [zeroRow [97] 1, zeroRow [98] 2]
    (fun _ => false)
    [zeroFile [47, 97]] (.inl rfl) rfl zeroRows_sound (by decide) (by decide) zeroRows_decode

/-- In a Full job a file that is the same as its row makes it a base file. -/
theorem touches_iff (level : jcr.level = .full) {cat : List CurFile}
    (distinct : (cat.map CurFile.fname).Nodup) (file : File p) :
    (∃ elt ∈ cat, touches jcr file elt = true) ↔ (check jcr cat file).changed = false := by
  have isTouched (elt : CurFile) : touches jcr file elt = true ↔
      elt.fname = file.name ∧ changed jcr elt file = false := by
    simp [touches, level]
  unfold check
  constructor
  · rintro ⟨elt, here, touched⟩
    obtain ⟨isName, same⟩ := (isTouched elt).mp touched
    rw [(find_name_iff distinct).mpr ⟨here, isName⟩]
    exact same
  · intro same
    cases found : cat.find? (fun elt => elt.fname = file.name) with
    | none =>
        rw [found] at same
        cases same
    | some elt =>
        rw [found] at same
        obtain ⟨here, isName⟩ := (find_name_iff distinct).mp found
        exact ⟨elt, here, (isTouched elt).mpr ⟨isName, same⟩⟩

/-- In a Full job with base files, what is not backed up is sent as a base file, once, and nothing
else is. -/
theorem accurate_base (jcr : JCR) (useAccurateChksum : Bool) (nb : Int32) (rows : List Row)
    (pluginCheckFile : List UInt8 → Bool) (files : List (File p)) (level : jcr.level = .full)
    (first : jcr.rerunning = false) (going : jcr.stopped = false) (sound : ∀ row ∈ rows, row.Sound)
    (few : rows.length < 2 ^ 29) (enough : rows.length < rounds)
    (decodes : ∀ row ∈ rows, (row.curFile useAccurateChksum).Decodes p) :
    ∃ run, accurateRun rounds jcr useAccurateChksum nb (fileList rows) pluginCheckFile files =
      some run ∧ (run.sent.map Sent.fname).Nodup ∧ (∀ sent ∈ run.sent, sent.type = .BASE) ∧
      ∀ name, name ∈ run.sent.map Sent.fname ↔
        ∃ found ∈ files.zip run.checked, found.1.name = name ∧ found.2.changed = false := by
  have short : (fileList rows).length ≤ rows.length := fileList_length
  have distinct := listed_names rows useAccurateChksum
  obtain ⟨run, isRun, checked, sent⟩ :=
    run_spec jcr useAccurateChksum nb (fileList rows) pluginCheckFile files going
    (fun row here => sound row (fileList_sub here)) (by omega)
      (by omega : (fileList rows).length < rounds)
    distinct (by
      rw [listed_fileList, List.forall_mem_map]
      exact fun row here => decodes row (fileList_sub here))
  generalize listed useAccurateChksum (fileList rows) = cat at distinct checked sent
  have isOwed : owed jcr pluginCheckFile files cat =
      (cat.filter fun elt => files.any (touches jcr · elt)).map (CurFile.sentAs .BASE) := by
    simp [owed, level, first]
  rw [isOwed] at sent
  have names := sent.map Sent.fname
  rw [List.map_map] at names
  have sameNames : CurFile.fname = Sent.fname ∘ CurFile.sentAs (p := p) .BASE := rfl
  rw [← sameNames] at names
  refine ⟨run, isRun, ?_, ?_, ?_⟩
  · exact names.nodup_iff.mpr (distinct.sublist (List.filter_sublist.map _))
  · intro one here
    obtain ⟨elt, -, rfl⟩ := List.mem_map.mp (sent.subset here)
    rfl
  · intro name
    rw [names.mem_iff, checked, zip_check]
    constructor
    · intro here
      obtain ⟨elt, passed, rfl⟩ := List.mem_map.mp here
      obtain ⟨inCat, touched⟩ := List.mem_filter.mp passed
      obtain ⟨file, inFiles, touched⟩ := List.any_eq_true.mp touched
      have isName : elt.fname = file.name := (of_decide_eq_true touched).1
      exact ⟨_, List.mem_map_of_mem inFiles, isName.symm,
        (touches_iff level distinct file).mp ⟨elt, inCat, touched⟩⟩
    · rintro ⟨found, here, rfl, same⟩
      obtain ⟨file, inFiles, rfl⟩ := List.mem_map.mp here
      obtain ⟨elt, inCat, touched⟩ := (touches_iff level distinct file).mpr same
      have isName : elt.fname = file.name := (of_decide_eq_true touched).1
      refine List.mem_map.mpr ⟨elt, List.mem_filter.mpr ⟨inCat, ?_⟩, isName⟩
      exact List.any_eq_true.mpr ⟨file, inFiles, touched⟩

theorem accurate_base_two :
    ∃ run, accurateRun 4 ⟨true, false, .full, false⟩ false 2 (fileList [zeroRow [97] 1, zeroRow [98] 2])
        (fun _ => false) [zeroFile [47, 97]] = some run ∧
      (run.sent.map Sent.fname).Nodup ∧ (∀ sent ∈ run.sent, sent.type = .BASE) ∧
      ∀ name, name ∈ run.sent.map Sent.fname ↔
        ∃ found ∈ [zeroFile [47, 97]].zip run.checked, found.1.name = name ∧ found.2.changed = false :=
  accurate_base ⟨true, false, .full, false⟩ false 2 [zeroRow [97] 1, zeroRow [98] 2] (fun _ => false)
    [zeroFile [47, 97]] rfl rfl rfl zeroRows_sound (by decide) (by decide) zeroRows_decode

end Bacula.Accurate
