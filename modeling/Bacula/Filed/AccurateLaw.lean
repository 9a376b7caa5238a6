import Bacula.Filed.Accurate

/-! The hash table of an accurate backup keeps a list of files, each name once, and the marks of
what was seen. -/
namespace Bacula.Accurate
open Attribs Scan SendAttributes Htable

/-! ## The list that the table keeps -/

def mark (fname : List UInt8) (cat : List CurFile) : List CurFile :=
  cat.map fun elt => if elt.fname = fname then { elt with seen := true } else elt

/-- The first entry of a name stays. -/
def add (elt : CurFile) (cat : List CurFile) : List CurFile :=
  if cat.any fun old => old.fname = elt.fname then cat else elt :: cat

def Represents (list : FileList) (cat : List CurFile) : Prop :=
  ∃ pwr items, Stores list.mem list.table pwr items ∧ items.length < 4 * 2 ^ pwr ∧
    (∀ x ∈ items, x < list.used) ∧ (∀ x ∈ items, (list.mem x).key = (list.item x).fname) ∧
    cat = items.map list.item

variable {rounds : ℕ} {list : FileList} {cat : List CurFile}

theorem accurateInit_represents (nb : Int32) : Represents (accurateInit nb) [] := by
  obtain ⟨pwr, items, stores, below, empty⟩ :=
    init_refines nb (fun _ : ℕ => (⟨none, 0, ([] : List UInt8)⟩ : Hlink ℕ .key))
  have none : items = [] := by
    cases items with
    | nil => rfl
    | cons x items => simp at empty
  subst none
  exact ⟨pwr, [], stores, below, by simp, by simp, rfl⟩

theorem find_item {items : List ℕ} {fname : List UInt8}
    (keys : ∀ x ∈ items, (list.mem x).key = (list.item x).fname) :
    (items.map list.item).find? (fun elt => elt.fname = fname) =
      (itemAt list.mem items fname).map list.item := by
  unfold itemAt
  rw [List.find?_map]
  congr 1
  apply List.find?_congr
  intro x here
  have same : (list.item x).fname = (list.mem x).key := (keys x here).symm
  exact decide_eq_decide.mpr ⟨same.symm.trans, same.trans⟩

/-- The table after a lookup. -/
def FileList.hashed (list : FileList) (fname : List UInt8) : FileList :=
  { list with table := @Htable.hashIndex ℕ .key list.table fname }

theorem lookup_items {pwr : ℕ} {items : List ℕ} (stores : Stores list.mem list.table pwr items)
    (enough : items.length ≤ rounds) (fname : List UInt8) :
    list.lookup rounds fname = some (itemAt list.mem items fname, list.hashed fname) := by
  have looked := stores.lookup fname enough
  simp [FileList.lookup, looked, FileList.hashed]

theorem lookup_spec (represents : Represents list cat) (enough : cat.length ≤ rounds)
    (fname : List UInt8) :
    ∃ found list', list.lookup rounds fname = some (found, list') ∧ Represents list' cat ∧
      found.map list'.item = cat.find? (fun elt => elt.fname = fname) := by
  obtain ⟨pwr, items, stores, below, used, keys, rfl⟩ := represents
  rw [List.length_map] at enough
  refine ⟨_, _, lookup_items stores enough fname, ?_, (find_item keys).symm⟩
  exact ⟨pwr, items, @Stores.hashIndex ℕ .key _ _ _ _ stores fname, below, used, keys, rfl⟩

theorem mark_spec (represents : Represents list cat) (enough : cat.length ≤ rounds)
    (fname : List UInt8) :
    ∃ list', accurateMarkFileAsSeen rounds list fname = some list' ∧
      Represents list' (mark fname cat) := by
  obtain ⟨pwr, items, stores, below, used, keys, rfl⟩ := represents
  rw [List.length_map] at enough
  have looked := lookup_items stores enough fname
  have stores' := @Stores.hashIndex ℕ .key _ _ _ _ stores fname
  have distinct := stores.distinct
  unfold accurateMarkFileAsSeen
  rw [looked]
  cases found : itemAt list.mem items fname with
  | none =>
      refine ⟨list.hashed fname, rfl, pwr, items, stores', below, used, keys, ?_⟩
      rw [mark, List.map_map]
      apply List.map_congr_left
      intro x here
      have other : (list.item x).fname ≠ fname := by
        rw [← keys x here]
        exact itemAt_eq_none.mp found x here
      simp [other, FileList.hashed]
  | some temp =>
      obtain ⟨inItems, isKey⟩ := (itemAt_eq_some distinct).mp found
      have isName : (list.item temp).fname = fname := (keys temp inItems).symm.trans isKey
      refine ⟨_, rfl, pwr, items, stores', below, used, ?_, ?_⟩
      · intro x here
        by_cases same : x = temp
        · subst same
          simpa [FileList.hashed] using keys x here
        · simpa [FileList.hashed, Function.update_of_ne same] using keys x here
      · rw [mark, List.map_map]
        apply List.map_congr_left
        intro x here
        by_cases same : x = temp
        · subst same
          simp [FileList.hashed, isName]
        · have other : (list.item x).fname ≠ fname := by
            rw [← keys x here, ← isKey]
            exact fun eq => same (List.inj_on_of_nodup_map distinct here inItems eq)
          simp [FileList.hashed, Function.update_of_ne same, other]

theorem add_spec (represents : Represents list cat) (few : cat.length + 1 < 2 ^ 29)
    (enough : cat.length + 1 < rounds) (fname lstat chksum : List UInt8) (delta : Int32) :
    ∃ list', accurateAddFile rounds list fname lstat chksum delta = some list' ∧
      Represents list' (add ⟨fname, lstat, chksum, delta, false⟩ cat) := by
  obtain ⟨pwr, items, stores, below, used, keys, rfl⟩ := represents
  rw [List.length_map] at few enough
  have fresh : list.used ∉ items := fun here => lt_irrefl _ (used _ here)
  have kept : ∀ x ∈ items,
      Function.update list.item list.used ⟨fname, lstat, chksum, delta, false⟩ x = list.item x :=
    fun x here => Function.update_of_ne (by rintro rfl; exact fresh here) _ _
  have atUsed :=
    Function.update_self list.used (⟨fname, lstat, chksum, delta, false⟩ : CurFile) list.item
  have sameKeys {mem : ℕ → Hlink ℕ .key} (keys' : ∀ x ∈ items, (mem x).key = (list.mem x).key) :
      ∀ x ∈ items, (mem x).key =
        (Function.update list.item list.used ⟨fname, lstat, chksum, delta, false⟩ x).fname :=
    fun x here => (keys' x here).trans ((keys x here).trans (congrArg CurFile.fname (kept x here)).symm)
  unfold accurateAddFile
  cases found : itemAt list.mem items fname with
  | some x =>
      obtain ⟨inItems, isKey⟩ := (itemAt_eq_some stores.distinct).mp found
      have stores' := @Stores.hashIndex ℕ .key _ _ _ _ stores fname
      have present : (items.map list.item).any (fun old => old.fname = fname) = true := by
        rw [List.any_map, List.any_eq_true]
        exact ⟨x, inItems, decide_eq_true ((keys x inItems).symm.trans isKey)⟩
      rw [stores.insert_present found (by omega) list.used]
      refine ⟨_, rfl, pwr, items, stores', below, fun x here => Nat.lt_succ_of_lt (used x here),
        sameKeys fun _ _ => rfl, ?_⟩
      rw [add, if_pos present]
      exact (List.map_congr_left kept).symm
  | none =>
      have absent : (items.map list.item).any (fun old => old.fname = fname) ≠ true := by
        rw [List.any_map, Ne, List.any_eq_true]
        rintro ⟨x, here, same⟩
        have isName : (list.item x).fname = fname := by simpa using same
        exact itemAt_eq_none.mp found x here ((keys x here).trans isName)
      obtain ⟨pwr', table, mem, inserted, stores', below', atItem, keys'⟩ :=
        stores.insert_absent below fresh found few enough
      rw [inserted]
      refine ⟨_, rfl, pwr', list.used :: items, stores', below', ?_, ?_, ?_⟩
      · refine List.forall_mem_cons.mpr ⟨Nat.lt_succ_self _, ?_⟩
        exact fun x here => Nat.lt_succ_of_lt (used x here)
      · exact List.forall_mem_cons.mpr
          ⟨atItem.trans (congrArg CurFile.fname atUsed).symm, sameKeys keys'⟩
      · rw [add, if_neg absent]
        exact congrArg₂ List.cons atUsed.symm (List.map_congr_left kept).symm

theorem items_spec (represents : Represents list cat) (enough : cat.length ≤ rounds) :
    ∃ order, list.items rounds = some order ∧ order.Perm cat := by
  obtain ⟨pwr, items, ⟨sized, chains, table, perm⟩, -, -, -, rfl⟩ := represents
  have positive : 0 < list.table.buckets := by
    rw [sized.buckets]
    exact Nat.two_pow_pos pwr
  obtain ⟨table', drains⟩ := table.drains positive
  have short : chains.flatten.length ≤ rounds := by
    rwa [perm.length_eq, ← List.length_map list.item]
  refine ⟨chains.flatten.map list.item, ?_, perm.map list.item⟩
  rw [FileList.items, drains.run short]
  rfl

theorem Represents.distinct (represents : Represents list cat) : (cat.map CurFile.fname).Nodup := by
  obtain ⟨pwr, items, stores, -, -, keys, rfl⟩ := represents
  rw [List.map_map]
  have same : items.map (CurFile.fname ∘ list.item) = items.map fun x => (list.mem x).key :=
    List.map_congr_left fun x here => (keys x here).symm
  rw [same]
  exact stores.distinct

/-! ## The messages of the Director -/

def Row.name (row : Row) : List UInt8 := row.path ++ row.filename

/-- The texts of a row end where they end. -/
structure Row.Sound (row : Row) : Prop where
  path : 0 ∉ row.path
  filename : 0 ∉ row.filename
  lstat : 0 ∉ row.lstat
  md5 : ∀ md5, row.md5 = some md5 → 0 ∉ md5

def Row.chksum (useAccurateChksum : Bool) (row : Row) : List UInt8 :=
  (row.md5.filter fun md5 => useAccurateChksum ∧ 2 ≤ md5.length).getD []

/-- What the client makes of a row. -/
def Row.curFile (useAccurateChksum : Bool) (row : Row) : CurFile :=
  ⟨row.name, row.lstat, row.chksum useAccurateChksum, row.deltaSeq.toUInt32.toInt32, false⟩

theorem accurateListHandler_eq (useAccurateChksum : Bool) {row : Row} (kept : row.fileIndex ≠ 0) :
    accurateListHandler useAccurateChksum row =
      some (row.name ++ 0 ::
        (row.lstat ++ 0 :: (row.chksum useAccurateChksum ++ 0 :: decimal row.deltaSeq.toNat))) := by
  rw [accurateListHandler, if_neg kept]
  unfold Row.chksum Row.name
  cases row.md5 with
  | none => rfl
  | some md5 =>
      by_cases sends : useAccurateChksum ∧ 2 ≤ md5.length
      · simp [sends.1, sends.2, Option.filter]
      · simp [sends, Option.filter]

theorem strToInt32_last (n : ℕ) : strToInt32 (decimal n) = Int32.ofNat n := by
  have ends : cstr (decimal n) = cstr (decimal n ++ [0]) := by
    rw [cstr_append (decimal_terminated n), cstr, List.takeWhile_eq_self_iff]
    exact fun b inside => decide_eq_true fun zero => decimal_terminated n (zero ▸ inside)
  rw [strToInt32, ends]
  exact strToInt32_decimal n ⟨0, [], rfl, .inl rfl⟩

theorem deltaSeq_roundTrip (deltaSeq : UInt16) :
    (Int32.ofNat deltaSeq.toNat).toUInt32.toUInt16 = deltaSeq := by
  apply UInt16.toNat_inj.mp
  have small := deltaSeq.toNat_lt
  simp

theorem receive_row (useAccurateChksum : Bool) {row : Row} (sound : row.Sound) :
    receive rounds list
        (row.name ++ 0 ::
          (row.lstat ++ 0 :: (row.chksum useAccurateChksum ++ 0 :: decimal row.deltaSeq.toNat))) =
      accurateAddFile rounds list (row.curFile useAccurateChksum).fname
        (row.curFile useAccurateChksum).lstat
        (row.curFile useAccurateChksum).chksum (row.curFile useAccurateChksum).deltaSeq := by
  have name : 0 ∉ row.name := by simp [Row.name, sound.path, sound.filename]
  have chksum : 0 ∉ row.chksum useAccurateChksum := by
    unfold Row.chksum
    cases isMd5 : row.md5 with
    | none => simp
    | some md5 =>
        have md5Sound := sound.md5 md5 isMd5
        by_cases sends : useAccurateChksum ∧ 2 ≤ md5.length <;> simp [Option.filter, md5Sound, sends]
  have lstat :=
    afterNul_append name
      (row.lstat ++ 0 :: (row.chksum useAccurateChksum ++ 0 :: decimal row.deltaSeq.toNat))
  have behind :=
    afterNul_append sound.lstat (row.chksum useAccurateChksum ++ 0 :: decimal row.deltaSeq.toNat)
  unfold receive
  simp only [lstat, behind, afterNul_append chksum, cstr_append name, cstr_append sound.lstat,
    cstr_append chksum]
  rw [if_neg (by simp), if_neg (by simp), strToInt32_last, deltaSeq_roundTrip]
  rfl

/-- The rows that are sent, as the client keeps them. -/
def listed (useAccurateChksum : Bool) (rows : List Row) : List CurFile :=
  (rows.filter (·.fileIndex ≠ 0)).map (Row.curFile useAccurateChksum)

theorem foldlM_receive (useAccurateChksum : Bool) {rows : List Row} (sound : ∀ row ∈ rows, row.Sound)
    (represents : Represents list cat) (few : cat.length + rows.length < 2 ^ 29)
    (enough : cat.length + rows.length < rounds)
    (distinct : ((listed useAccurateChksum rows).map CurFile.fname ++ cat.map CurFile.fname).Nodup) :
    ∃ list', (rows.filterMap (accurateListHandler useAccurateChksum)).foldlM (receive rounds) list =
      some list' ∧ Represents list' ((listed useAccurateChksum rows).reverse ++ cat) := by
  induction rows generalizing list cat with
  | nil => exact ⟨list, rfl, represents⟩
  | cons row rows ih =>
      obtain ⟨first, rest⟩ := List.forall_mem_cons.mp sound
      by_cases kept : row.fileIndex = 0
      · have none : accurateListHandler useAccurateChksum row = none := if_pos kept
        have same : listed useAccurateChksum (row :: rows) = listed useAccurateChksum rows := by
          simp [listed, kept]
        rw [same] at distinct ⊢
        rw [List.filterMap_cons_none none]
        exact ih rest represents (by simp at few; omega) (by simp at enough; omega) distinct
      · have more : listed useAccurateChksum (row :: rows) =
            row.curFile useAccurateChksum :: listed useAccurateChksum rows := by
          simp [listed, kept]
        rw [more] at distinct ⊢
        simp only [List.length_cons] at few enough
        have room : cat.length + 1 < rounds := by omega
        obtain ⟨list', added, represents'⟩ := add_spec represents (by omega) room
          (row.curFile useAccurateChksum).fname (row.curFile useAccurateChksum).lstat
          (row.curFile useAccurateChksum).chksum (row.curFile useAccurateChksum).deltaSeq
        rw [List.map_cons, List.cons_append] at distinct
        obtain ⟨fresh, distinct'⟩ := List.nodup_cons.mp distinct
        have new : add (row.curFile useAccurateChksum) cat = row.curFile useAccurateChksum :: cat := by
          apply if_neg
          rw [List.any_eq_true]
          rintro ⟨old, here, same⟩
          have inCat := List.mem_map_of_mem (f := CurFile.fname) here
          rw [of_decide_eq_true same] at inCat
          exact fresh (List.mem_append_right _ inCat)
        have sent := accurateListHandler_eq useAccurateChksum kept
        obtain ⟨last, received, final⟩ :=
          ih rest (new ▸ represents') (by simp; omega) (by simp; omega) (by
          rw [List.map_cons]
          exact (List.perm_middle.nodup_iff).mpr distinct)
        refine ⟨last, ?_, ?_⟩
        · rw [List.filterMap_cons_some sent, List.foldlM_cons, receive_row useAccurateChksum first,
            added]
          exact received
        · rw [List.reverse_cons, List.append_assoc, List.singleton_append]
          exact final

theorem accurateCmd_spec (useAccurateChksum : Bool) (nb : Int32) {rows : List Row}
    (sound : ∀ row ∈ rows, row.Sound) (few : rows.length < 2 ^ 29) (enough : rows.length < rounds)
    (distinct : ((listed useAccurateChksum rows).map CurFile.fname).Nodup) :
    ∃ list, accurateCmd rounds nb (rows.filterMap (accurateListHandler useAccurateChksum)) = some list ∧
      Represents list (listed useAccurateChksum rows).reverse := by
  obtain ⟨list, received, represents⟩ :=
    foldlM_receive useAccurateChksum sound (accurateInit_represents nb)
    (by simpa using few) (by simpa using enough) (by simpa using distinct)
  exact ⟨list, received, by simpa using represents⟩

/-! ## The files that are found -/

variable {p : Platform} {jcr : JCR}

/-- The text of the attributes can be decoded. -/
def CurFile.Decodes (p : Platform) (elt : CurFile) : Prop :=
  ∃ decoded rest, (decodeStat (p := p) fun _ => 0).run (elt.lstat ++ [0]) = .ok (decoded, rest)

def CurFile.statc (elt : CurFile) : Stat p :=
  match (decodeStat (p := p) fun _ => 0).run (elt.lstat ++ [0]) with
  | .ok (decoded, _) => decoded.stat
  | .error _ => fun _ => 0

theorem CurFile.Decodes.run {elt : CurFile} (decodes : elt.Decodes p) :
    ∃ decoded rest, (decodeStat (p := p) fun _ => 0).run (elt.lstat ++ [0]) = .ok (decoded, rest) ∧
      decoded.stat = elt.statc := by
  obtain ⟨decoded, rest, run⟩ := decodes
  exact ⟨decoded, rest, run, by rw [CurFile.statc, run]⟩

/-- One of the options of the file sees a difference. -/
def changed (jcr : JCR) (elt : CurFile) (file : File p) : Bool :=
  (file.opts jcr).any (optDiffers jcr elt.chksum elt.statc file)

/-- What the comparison with the entry of the same name says. -/
def check (jcr : JCR) (cat : List CurFile) (file : File p) : Checked :=
  match cat.find? (fun elt => elt.fname = file.name) with
  | none => ⟨true, false, 0⟩
  | some elt => ⟨changed jcr elt file, true, elt.deltaSeq⟩

/-- The file makes the entry one that was seen: it has its name, and in a Full job it is the same
file. -/
def touches (jcr : JCR) (file : File p) (elt : CurFile) : Bool :=
  elt.fname = file.name ∧ ¬ (jcr.level = .full ∧ changed jcr elt file)

def seeing (jcr : JCR) (files : List (File p)) (elt : CurFile) : CurFile :=
  { elt with seen := elt.seen || files.any (touches jcr · elt) }

theorem check_seeing (files : List (File p)) (file : File p) :
    check jcr (cat.map (seeing jcr files)) file = check jcr cat file := by
  unfold check
  rw [List.find?_map]
  have same : ((fun elt : CurFile => decide (elt.fname = file.name)) ∘ seeing jcr files) =
      fun elt => decide (elt.fname = file.name) := rfl
  rw [same]
  cases cat.find? (fun elt => decide (elt.fname = file.name)) <;> rfl

theorem seeing_nil (elt : CurFile) : seeing jcr ([] : List (File p)) elt = elt := by
  simp [seeing]

theorem seeing_seeing (file : File p) (files : List (File p)) (elt : CurFile) :
    seeing jcr files (seeing jcr [file] elt) = seeing jcr (file :: files) elt := by
  have same (file' : File p) : touches jcr file' (seeing jcr [file] elt) = touches jcr file' elt := rfl
  simp only [seeing, List.any_cons, List.any_nil, Bool.or_false, Bool.or_assoc]
  congr 2

theorem accurateCheckFile_spec (accurate : jcr.accurate = true) (represents : Represents list cat)
    (enough : cat.length ≤ rounds) (decodes : ∀ elt ∈ cat, elt.Decodes p) (file : File p) :
    ∃ list', accurateCheckFile rounds jcr list file = some (check jcr cat file, list') ∧
      Represents list' (cat.map (seeing jcr [file])) := by
  obtain ⟨found, list', looked, represents', isFound⟩ := lookup_spec represents enough file.name
  have inactive : ¬ (¬ jcr.accurate ∧ ¬ jcr.rerunning) := by simp [accurate]
  unfold accurateCheckFile check
  rw [if_neg inactive, looked, ← isFound]
  cases found with
  | none =>
      refine ⟨list', rfl, ?_⟩
      have unseen : cat.map (seeing jcr [file]) = cat := by
        refine (List.map_congr_left ?_).trans cat.map_id
        intro elt here
        have other : elt.fname ≠ file.name := by
          simpa using List.find?_eq_none.mp isFound.symm elt here
        simp [seeing, touches, other]
      rwa [unseen]
  | some temp =>
      have inCat : list'.item temp ∈ cat := List.mem_of_find?_eq_some isFound.symm
      have isName : (list'.item temp).fname = file.name := by
        simpa using List.find?_some isFound.symm
      have sole {elt : CurFile} (here : elt ∈ cat) (same : elt.fname = file.name) : elt =
          list'.item temp :=
        List.inj_on_of_nodup_map represents.distinct here inCat (same.trans isName.symm)
      obtain ⟨decoded, rest, run, stat⟩ := (decodes _ inCat).run
      simp only [Option.bind_eq_bind, Option.bind_some, Option.map_some, run, Except.toOption, stat]
      by_cases kept : jcr.level = .full ∧ changed jcr (list'.item temp) file = true
      · have unseen : cat.map (seeing jcr [file]) = cat := by
          refine (List.map_congr_left ?_).trans cat.map_id
          intro elt here
          have untouched : touches jcr file elt = false := by
            by_cases same : elt.fname = file.name
            · rw [sole here same]
              simp [touches, kept]
            · simp [touches, same]
          simp [seeing, untouched]
        rw [unseen]
        refine ⟨list', ?_, represents'⟩
        unfold changed at kept
        simp [kept, changed]
      · obtain ⟨list'', marked, represents''⟩ := mark_spec represents' enough (list'.item temp).fname
        have seen : cat.map (seeing jcr [file]) = mark (list'.item temp).fname cat := by
          rw [mark]
          apply List.map_congr_left
          intro elt here
          by_cases same : elt.fname = file.name
          · have touched : touches jcr file elt = true := by
              rw [sole here same]
              exact decide_eq_true ⟨isName, kept⟩
            simp [seeing, touched, isName, same]
          · simp [seeing, touches, isName, same]
        rw [seen]
        refine ⟨list'', ?_, represents''⟩
        unfold changed at kept
        rw [if_neg kept, marked]
        rfl

theorem checkFiles_spec (accurate : jcr.accurate = true) (files : List (File p))
    (represents : Represents list cat) (enough : cat.length ≤ rounds)
    (decodes : ∀ elt ∈ cat, elt.Decodes p) :
    ∃ list', checkFiles rounds jcr files list = some (files.map (check jcr cat), list') ∧
      Represents list' (cat.map (seeing jcr files)) := by
  induction files generalizing list cat with
  | nil =>
      refine ⟨list, rfl, ?_⟩
      have same : cat.map (seeing jcr ([] : List (File p))) = cat :=
        (List.map_congr_left fun elt _ => seeing_nil elt).trans cat.map_id
      rwa [same]
  | cons file files ih =>
      obtain ⟨list', checked, represents'⟩ :=
        accurateCheckFile_spec accurate represents enough decodes file
      obtain ⟨last, rest, final⟩ := ih represents' (by rwa [List.length_map]) (by
        rw [List.forall_mem_map]
        exact decodes)
      refine ⟨last, ?_, ?_⟩
      · have same : check jcr (cat.map (seeing jcr [file])) = check (p := p) jcr cat :=
          funext fun file' => check_seeing [file] file'
        rw [same] at rest
        simp [checkFiles, checked, rest]
      · rw [List.map_map] at final
        have same : cat.map (seeing jcr files ∘ seeing jcr [file]) =
            cat.map (seeing jcr (file :: files)) :=
          List.map_congr_left fun elt _ => seeing_seeing file files elt
        rwa [same] at final

/-! ## The end of the job -/

def CurFile.sentAs (type : FT) (elt : CurFile) : Sent p :=
  match type with
  | .DELETED => ⟨type, elt.fname, Function.update
      (Function.update (fun _ => 0) .mtime (elt.statc .mtime)) .ctime (elt.statc .ctime)⟩
  | _ => ⟨type, elt.fname, elt.statc⟩

theorem mapM_sent (type : FT) {elts : List CurFile} (decodes : ∀ elt ∈ elts, elt.Decodes p) :
    elts.mapM (CurFile.sent (p := p) type) = some (elts.map (CurFile.sentAs type)) := by
  induction elts with
  | nil => rfl
  | cons elt elts ih =>
      obtain ⟨first, rest⟩ := List.forall_mem_cons.mp decodes
      obtain ⟨decoded, behind, run, stat⟩ := first.run
      have sent : elt.sent (p := p) type = some (elt.sentAs type) := by
        rw [CurFile.sent, run]
        cases type <;> simp [CurFile.sentAs, Except.toOption, stat]
      rw [List.mapM_cons, sent, ih rest]
      rfl

/-- What the job owes of the list: in a Full job the entries that are the same, else those that were
not found. -/
def owed (jcr : JCR) (pluginCheckFile : List UInt8 → Bool) (files : List (File p))
    (cat : List CurFile) :
    List (Sent p) :=
  match jcr.level with
  | .full =>
      if jcr.rerunning then []
      else (cat.filter fun elt => files.any (touches jcr · elt)).map (CurFile.sentAs .BASE)
  | .verifyData => []
  | _ => (cat.filter fun elt => ¬ (files.any (touches jcr · elt) ∨ pluginCheckFile elt.fname)).map
      (CurFile.sentAs .DELETED)

theorem accurateFinish_spec (accurate : jcr.accurate = true) (going : jcr.stopped = false)
    (files : List (File p)) (fresh : ∀ elt ∈ cat, elt.seen = false)
    (represents : Represents list (cat.map (seeing jcr files))) (enough : cat.length ≤ rounds)
    (decodes : ∀ elt ∈ cat, elt.Decodes p) (pluginCheckFile : List UInt8 → Bool) :
    ∃ ret sent, accurateFinish rounds jcr pluginCheckFile list = some (ret, sent) ∧
      sent.Perm (owed jcr pluginCheckFile files cat) := by
  have short : (cat.map (seeing jcr files)).length ≤ rounds := by rwa [List.length_map]
  obtain ⟨order, items, perm⟩ := items_spec represents short
  have decodes' : ∀ elt ∈ order, elt.Decodes p := by
    intro elt here
    obtain ⟨old, inCat, rfl⟩ := List.mem_map.mp (perm.subset here)
    exact decodes old inCat
  -- the entries that pass the test on the marks, in the order of the table
  have passed (type : FT) (test test' : CurFile → Bool)
      (same : ∀ elt ∈ cat, test (seeing jcr files elt) = test' elt) :
      ∃ sent, (order.filter test).mapM (CurFile.sent (p := p) type) = some sent ∧
        sent.Perm ((cat.filter test').map (CurFile.sentAs type)) := by
    refine ⟨_, mapM_sent type fun elt here => decodes' elt (List.mem_of_mem_filter here), ?_⟩
    refine ((perm.filter test).map _).trans ?_
    rw [List.filter_map, List.map_map]
    have filtered : cat.filter (test ∘ seeing jcr files) = cat.filter test' := List.filter_congr same
    rw [filtered]
    exact List.Perm.of_eq (List.map_congr_left fun elt _ => by cases type <;> rfl)
  have deleted : ∃ sent, accurateSendDeletedList (p := p) rounds pluginCheckFile list = some sent ∧
      sent.Perm ((cat.filter fun elt =>
        ¬ (files.any (touches jcr · elt) ∨ pluginCheckFile elt.fname)).map
        (CurFile.sentAs .DELETED)) := by
    unfold accurateSendDeletedList
    rw [items]
    refine passed .DELETED _ _ fun elt here => ?_
    simp [seeing, fresh elt here]
  unfold accurateFinish owed
  rw [if_neg (by simp [going, accurate])]
  cases level : jcr.level with
  | full =>
      by_cases rerunning : jcr.rerunning = true
      · simp [rerunning]
      · obtain ⟨sent, base, same⟩ :=
          passed .BASE CurFile.seen (fun elt => files.any (touches jcr · elt))
          fun elt here => by simp [seeing, fresh elt here]
        refine ⟨true, sent, ?_, by simpa [rerunning] using same⟩
        simp [rerunning, accurateSendBaseFileList, items, base]
  | verifyData =>
      refine ⟨order.all CurFile.seen, [], ?_, List.Perm.refl _⟩
      simp [accurateCheckDeletedList, items]
  | incremental =>
      obtain ⟨sent, isSent, same⟩ := deleted
      exact ⟨true, sent, by rw [isSent]; rfl, same⟩
  | differential =>
      obtain ⟨sent, isSent, same⟩ := deleted
      exact ⟨true, sent, by rw [isSent]; rfl, same⟩

theorem find_name_iff (distinct : (cat.map CurFile.fname).Nodup) {name : List UInt8} {elt : CurFile} :
    cat.find? (fun elt => elt.fname = name) = some elt ↔ elt ∈ cat ∧ elt.fname = name := by
  constructor
  · intro found
    exact ⟨List.mem_of_find?_eq_some found, by simpa using List.find?_some found⟩
  · rintro ⟨here, isName⟩
    cases found : cat.find? (fun elt => elt.fname = name) with
    | none => exact absurd (decide_eq_true isName) (List.find?_eq_none.mp found elt here)
    | some other =>
        have otherName : other.fname = name := by simpa using List.find?_some found
        rw [List.inj_on_of_nodup_map distinct (List.mem_of_find?_eq_some found) here
          (otherName.trans isName.symm)]

/-- The order of the list does not matter. -/
theorem check_perm {cat' : List CurFile} (perm : cat.Perm cat')
    (distinct : (cat.map CurFile.fname).Nodup) (file : File p) :
    check jcr cat file = check jcr cat' file := by
  have distinct' : (cat'.map CurFile.fname).Nodup := (perm.map _).nodup_iff.mp distinct
  have same : cat.find? (fun elt => elt.fname = file.name) =
      cat'.find? (fun elt => elt.fname = file.name) := by
    ext elt
    exact (find_name_iff distinct).trans
      ((and_congr_left' perm.mem_iff).trans (find_name_iff distinct').symm)
  rw [check, check, same]

theorem owed_perm {cat' : List CurFile} (perm : cat.Perm cat') (pluginCheckFile : List UInt8 → Bool)
    (files : List (File p)) :
    (owed jcr pluginCheckFile files cat).Perm (owed jcr pluginCheckFile files cat') := by
  unfold owed
  cases jcr.level with
  | full =>
      by_cases rerunning : jcr.rerunning = true
      · simp [rerunning]
      · simpa [rerunning] using (perm.filter _).map _
  | verifyData => exact List.Perm.refl _
  | incremental => exact (perm.filter _).map _
  | differential => exact (perm.filter _).map _

/-- The job compares every file with the row of its name, and sends what it owes of the rows, each once:
neither the hash table nor the messages change anything. -/
theorem run_spec (jcr : JCR) (useAccurateChksum : Bool) (nb : Int32) (rows : List Row)
    (pluginCheckFile : List UInt8 → Bool) (files : List (File p)) (going : jcr.stopped = false)
    (sound : ∀ row ∈ rows, row.Sound) (few : rows.length < 2 ^ 29) (enough : rows.length < rounds)
    (distinct : ((listed useAccurateChksum rows).map CurFile.fname).Nodup)
    (decodes : ∀ elt ∈ listed useAccurateChksum rows, elt.Decodes p) :
    ∃ run, accurateRun rounds jcr useAccurateChksum nb rows pluginCheckFile files = some run ∧
      run.checked = files.map (check jcr (listed useAccurateChksum rows)) ∧
      run.sent.Perm (owed jcr pluginCheckFile files (listed useAccurateChksum rows)) := by
  have order := List.reverse_perm (listed useAccurateChksum rows)
  have short : (listed useAccurateChksum rows).reverse.length ≤ rounds := by
    rw [List.length_reverse, listed, List.length_map]
    exact (List.length_filter_le _ _).trans enough.le
  have fresh : ∀ elt ∈ (listed useAccurateChksum rows).reverse, elt.seen = false := by
    intro elt here
    obtain ⟨row, -, rfl⟩ := List.mem_map.mp (order.subset here)
    rfl
  have decodes' : ∀ elt ∈ (listed useAccurateChksum rows).reverse, elt.Decodes p :=
    fun elt here => decodes elt (order.subset here)
  obtain ⟨list, received, represents⟩ := accurateCmd_spec useAccurateChksum nb sound few enough distinct
  let active := { jcr with accurate := true }
  have accurate : active.accurate = true := rfl
  have going' : active.stopped = false := going
  obtain ⟨list', checked, represents'⟩ := checkFiles_spec accurate files represents short decodes'
  obtain ⟨ret, sent, finished, perm⟩ :=
    accurateFinish_spec accurate going' files fresh represents' short decodes'
    pluginCheckFile
  refine ⟨⟨files.map (check active (listed useAccurateChksum rows).reverse), ret, sent⟩, ?_, ?_,
    perm.trans (owed_perm order pluginCheckFile files)⟩
  · unfold accurateRun
    rw [received]
    exact (congrArg (· >>= _) checked).trans (congrArg (· >>= _) finished)
  · apply List.map_congr_left
    intro file _
    exact check_perm order ((order.map _).nodup_iff.mpr distinct) file

end Bacula.Accurate
