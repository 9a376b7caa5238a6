import Bacula.Lib.Rblist
import Bacula.Library.Segments

/-! The FileIndex sets of a restore bootstrap record in `dird/bsr.c`: `add_findex` collects
the indexes of a job in ranges, `write_findex` prints the part of them that is on a volume. -/
namespace Bacula.Bsr
open Segments Zipper

structure RbsrFindex where
  findex : Int32
  findex2 : Int32
  deriving DecidableEq

/-- A bootstrap record; the preallocated `m_fi` is a matter of memory only. -/
structure Rbsr where
  jobId : UInt32
  fiList : Rblist RbsrFindex

def searchRbsr (bsr1 bsr : Rbsr) : Ordering :=
  if bsr.jobId = bsr1.jobId then .eq
  else if bsr.jobId < bsr1.jobId then .gt
  else .lt

def searchFi (f1 f2 : RbsrFindex) : Ordering :=
  if f1.findex = f2.findex - 1 then .eq
  else if f1.findex2 = f2.findex2 + 1 then .eq
  else if f2.findex ≤ f1.findex ∧ f1.findex2 ≤ f2.findex2 then .eq
  else if f2.findex < f1.findex then .gt
  else .lt

/-- What `add_findex` does with the range that compares equal. -/
def extend (findex : Int32) (nfi : RbsrFindex) : RbsrFindex :=
  if findex = nfi.findex2 + 1 then { nfi with findex2 := findex }
  else if findex = nfi.findex - 1 then { nfi with findex }
  else nfi

/-- The end of `add_findex`, with the list of the job. -/
def addToList (findex : Int32) (fiList : Rblist RbsrFindex) : Rblist RbsrFindex :=
  match Rblist.insert searchFi ⟨findex, findex⟩ fiList with
  | .inserted fiList => fiList
  | .found nfi => Rblist.write nfi (extend findex nfi.item.item)

/-- `add_findex`. A new record is shown with its first index in it when it is inserted. -/
def addFindex (bsrList : Rblist Rbsr) (jobId : UInt32) (findex : Int32) : Rblist Rbsr :=
  if findex = 0 then bsrList
  else
    let findex := if findex < 0 then -findex else findex
    match Rblist.search searchRbsr ⟨jobId, .nil⟩ bsrList with
    | some bsr =>
        Rblist.write bsr { bsr.item.item with fiList := addToList findex bsr.item.item.fiList }
    | none =>
        match Rblist.insert searchRbsr ⟨jobId, addToList findex .nil⟩ bsrList with
        | .inserted bsrList => bsrList
        | .found _ => bsrList

/-- The lines `FileIndex=%d` and `FileIndex=%d-%d`. -/
inductive Line where
  | single (findex : Int32)
  | range (findex findex2 : Int32)
  deriving DecidableEq

/-- What `write_findex` has printed and counted. -/
structure Output where
  lines : List Line := []
  count : UInt32 := 0
  deriving DecidableEq

/-- The block of indexes is clipped and printed if it matches the volume. -/
def printBlock (firstIndex lastIndex findex findex2 : Int32) (out : Output) : Output :=
  if (firstIndex ≤ findex ∧ findex ≤ lastIndex) ∨ (firstIndex ≤ findex2 ∧ findex2 ≤ lastIndex) ∨
      (findex < firstIndex ∧ lastIndex < findex2) then
    let findex := if findex < firstIndex then firstIndex else findex
    let findex2 := if lastIndex < findex2 then lastIndex else findex2
    if findex = findex2 then ⟨out.lines ++ [.single findex], out.count + 1⟩
    else ⟨out.lines ++ [.range findex findex2], out.count + (findex2 - findex + 1).toUInt32⟩
  else out

/-- The loops of `write_findex`: ranges that follow each other are merged into a block. -/
def writeBlocks (firstIndex lastIndex findex findex2 : Int32) : List RbsrFindex → Output → Output
  | [], out => printBlock firstIndex lastIndex findex findex2 out
  | nextFi :: rest, out =>
      if nextFi.findex = findex2 + 1 then
        writeBlocks firstIndex lastIndex findex nextFi.findex2 rest out
      else
        writeBlocks firstIndex lastIndex nextFi.findex nextFi.findex2 rest
          (printBlock firstIndex lastIndex findex findex2 out)

/-- `write_findex`. -/
def writeFindex (fiList : Rblist RbsrFindex) (firstIndex lastIndex : Int32) : Output :=
  match Rblist.foreach fiList with
  | [] => {}
  | fi :: rest => writeBlocks firstIndex lastIndex fi.findex fi.findex2 rest {}

/-- The list of the job. -/
def fiList (bsrList : Rblist Rbsr) (jobId : UInt32) : Rblist RbsrFindex :=
  match Rblist.search searchRbsr ⟨jobId, .nil⟩ bsrList with
  | some bsr => bsr.item.item.fiList
  | none => .nil

/-- A call of `add_findex`; there is no absolute value of INT32_MIN. -/
structure Call where
  jobId : UInt32
  findex : Int32
  proper : findex ≠ Int32.minValue

def addAll (calls : List Call) : Rblist Rbsr :=
  calls.foldl (fun bsrList c => addFindex bsrList c.jobId c.findex) .nil

section Numbers

def RbsrFindex.indexes (fi : RbsrFindex) : List ℤ := segment fi.findex.toInt fi.findex2.toInt

def Line.indexes : Line → List ℤ
  | .single findex => [findex.toInt]
  | .range findex findex2 => segment findex.toInt findex2.toInt

/-- A range with a smallest and a largest index. -/
structure RbsrFindex.Valid (fi : RbsrFindex) : Prop where
  positive : 1 ≤ fi.findex.toInt
  ordered : fi.findex.toInt ≤ fi.findex2.toInt

theorem eq_add_one_iff {f b : Int32} (positive : 1 ≤ f.toInt) :
    f = b + 1 ↔ f.toInt = b.toInt + 1 := by
  have low := b.le_toInt
  have high := b.toInt_lt
  have highF := f.toInt_lt
  have one : (1 : Int32).toInt = 1 := rfl
  rw [← Int32.toInt_inj, Int32.toInt_add, one]
  simp only [Int.bmod]
  split <;> omega

theorem eq_sub_one_iff {f b : Int32} (positive : 1 ≤ b.toInt) :
    f = b - 1 ↔ f.toInt = b.toInt - 1 := by
  have high := b.toInt_lt
  have one : (1 : Int32).toInt = 1 := rfl
  rw [← Int32.toInt_inj, Int32.toInt_sub, one]
  simp only [Int.bmod]
  split <;> omega

/-- The absolute value that `add_findex` takes. -/
theorem toInt_magnitude {findex : Int32} (proper : findex ≠ Int32.minValue) :
    (if findex < 0 then -findex else findex).toInt = |findex.toInt| := by
  have low := findex.le_toInt
  have high := findex.toInt_lt
  have notMin : findex.toInt ≠ -2 ^ 31 := fun h => proper (Int32.toInt_inj.mp h)
  have zero : (0 : Int32).toInt = 0 := rfl
  by_cases negative : findex.toInt < 0
  · have below : findex < 0 := Int32.lt_iff_toInt_lt.mpr (by rw [zero]; exact negative)
    rw [if_pos below, Int32.toInt_neg, abs_of_neg negative]
    simp only [Int.bmod]
    split <;> omega
  · have notBelow : ¬ findex < 0 := fun below =>
      negative (by simpa only [zero] using Int32.lt_iff_toInt_lt.mp below)
    rw [if_neg notBelow, abs_of_nonneg (not_lt.mp negative)]

/-- `search_fi` compares an index with a range: equal means in it or next to it. -/
theorem searchFi_eq_iff {f : Int32} {fi : RbsrFindex} (positive : 1 ≤ f.toInt) (valid : fi.Valid) :
    searchFi ⟨f, f⟩ fi = .eq ↔ fi.findex.toInt - 1 ≤ f.toInt ∧ f.toInt ≤ fi.findex2.toInt + 1 := by
  have below := eq_sub_one_iff (f := f) valid.positive
  have above := eq_add_one_iff (b := fi.findex2) positive
  have ordered := valid.ordered
  unfold searchFi
  simp only [below, above, Int32.le_iff_toInt_le]
  split
  · simp only [true_iff]
    omega
  · split
    · simp only [true_iff]
      omega
    · split
      · simp only [true_iff]
        omega
      · have : (if fi.findex < f then Ordering.gt else Ordering.lt) ≠ .eq := by split <;> decide
        simp only [this, false_iff]
        omega

/-- The range that is found has the index afterwards, and no other new one. -/
theorem extend_indexes {f : Int32} {fi : RbsrFindex} (positive : 1 ≤ f.toInt) (valid : fi.Valid)
    (equal : searchFi ⟨f, f⟩ fi = .eq) :
    (extend f fi).Valid ∧ (f.toInt ∈ fi.indexes → extend f fi = fi) ∧
      (f.toInt ∉ fi.indexes → (extend f fi).indexes.Perm (f.toInt :: fi.indexes)) := by
  have below := eq_sub_one_iff (f := f) valid.positive
  have above := eq_add_one_iff (b := fi.findex2) positive
  have ordered := valid.ordered
  have near := (searchFi_eq_iff positive valid).mp equal
  simp only [RbsrFindex.indexes, mem_segment, extend, above, below]
  split
  · rename_i next
    refine ⟨⟨valid.positive, by simp only; omega⟩, fun inside => absurd inside (by omega), fun _ => ?_⟩
    have joined := segment_append fi.findex.toInt fi.findex2.toInt f.toInt
      (by omega) (by omega)
    rw [← joined, ← next, segment_self]
    exact List.perm_append_singleton _ _
  · split
    · rename_i previous
      refine ⟨⟨positive, by simp only; omega⟩, fun inside => absurd inside (by omega), fun _ => ?_⟩
      have joined := segment_append f.toInt f.toInt fi.findex2.toInt
        (by omega) (by omega)
      rw [← joined, segment_self, show f.toInt + 1 = fi.findex.toInt by omega]
      exact List.Perm.refl _
    · exact ⟨valid, fun _ => rfl, fun outside => absurd outside (by omega)⟩

/-- All indexes in the order in which the ranges list them. -/
def numbers (ranges : List RbsrFindex) : List ℤ := ranges.flatMap RbsrFindex.indexes

/-- The descent for an index meets first, of all ranges that compare equal, one that has it. -/
def OwnFirst (f : Int32) (fiList : Rblist RbsrFindex) : Prop :=
  ∃ place, Rblist.search searchFi ⟨f, f⟩ fiList = some place ∧
    f.toInt ∈ place.item.item.indexes

theorem OwnFirst.mem_numbers {f : Int32} {fiList : Rblist RbsrFindex} (own : OwnFirst f fiList) :
    f.toInt ∈ numbers (Rblist.items fiList) := by
  obtain ⟨place, found, inside⟩ := own
  obtain ⟨rfl, -⟩ := Rblist.search_eq_some found
  exact List.mem_flatMap.mpr ⟨place.item.item, by rw [Rblist.items_place]; simp, inside⟩

/-- An index is listed once more unless a range that has it is met first. -/
theorem addToList_spec {f : Int32} {fiList : Rblist RbsrFindex} (positive : 1 ≤ f.toInt)
    (valid : ∀ fi ∈ Rblist.items fiList, fi.Valid) :
    (∀ fi ∈ Rblist.items (addToList f fiList), fi.Valid) ∧
      (OwnFirst f fiList → Rblist.items (addToList f fiList) = Rblist.items fiList) ∧
      (¬ OwnFirst f fiList → (numbers (Rblist.items (addToList f fiList))).Perm
        (f.toInt :: numbers (Rblist.items fiList))) := by
  cases result : Rblist.search searchFi ⟨f, f⟩ fiList with
  | none =>
      obtain ⟨u, pre, post, inserted, old, now⟩ := Rblist.insert_of_search_none result
      have added : addToList f fiList = u := by rw [addToList, inserted]
      rw [added, now]
      rw [old] at valid ⊢
      refine ⟨?_, ?_, fun _ => ?_⟩
      · intro fi member
        rcases List.mem_append.mp member with before | here
        · exact valid fi (List.mem_append_left _ before)
        · rcases List.mem_cons.mp here with rfl | after
          · exact ⟨positive, le_refl _⟩
          · exact valid fi (List.mem_append_right _ after)
      · intro ⟨place, found, _⟩
        rw [result] at found
        cases found
      · have single : RbsrFindex.indexes ⟨f, f⟩ = [f.toInt] := segment_self f.toInt
        simp only [numbers, List.flatMap_append, List.flatMap_cons, single]
        exact List.perm_middle
  | some place =>
      have added : addToList f fiList = Rblist.write place (extend f place.item.item) := by
        rw [addToList, Rblist.insert_of_search_some result]
      obtain ⟨rfl, equal⟩ := Rblist.search_eq_some result
      rw [added, Rblist.items_write]
      rw [Rblist.items_place] at valid ⊢
      have here := valid place.item.item (List.mem_append_right _ List.mem_cons_self)
      obtain ⟨validNow, same, more⟩ := extend_indexes positive here equal
      have own : OwnFirst f place.tree ↔ f.toInt ∈ place.item.item.indexes := by
        constructor
        · intro ⟨other, found, inside⟩
          rw [result, Option.some_inj] at found
          exact found ▸ inside
        · intro inside
          exact ⟨place, result, inside⟩
      rw [own]
      refine ⟨?_, fun inside => by rw [same inside], fun outside => ?_⟩
      · intro fi member
        rcases List.mem_append.mp member with before | here
        · exact valid fi (List.mem_append_left _ before)
        · rcases List.mem_cons.mp here with rfl | after
          · exact validNow
          · exact valid fi (List.mem_append_right _ (List.mem_cons_of_mem _ after))
      · simp only [numbers, List.flatMap_append, List.flatMap_cons]
        refine (List.Perm.append_left _ (List.Perm.append_right _ (more outside))).trans ?_
        exact List.perm_middle

/-- What the next index does to the two halves of the set law. -/
theorem addToList_numbers {f : Int32} {fiList : Rblist RbsrFindex} (positive : 1 ≤ f.toInt)
    (valid : ∀ fi ∈ Rblist.items fiList, fi.Valid) :
    (∀ x, x ∈ numbers (Rblist.items (addToList f fiList)) ↔
      x = f.toInt ∨ x ∈ numbers (Rblist.items fiList)) ∧
    ((numbers (Rblist.items (addToList f fiList))).Nodup ↔
      (numbers (Rblist.items fiList)).Nodup ∧
        (f.toInt ∈ numbers (Rblist.items fiList) → OwnFirst f fiList)) := by
  obtain ⟨-, same, more⟩ := addToList_spec positive valid
  by_cases own : OwnFirst f fiList
  · rw [same own]
    refine ⟨fun x => ?_, by simp [own]⟩
    constructor
    · intro member
      exact Or.inr member
    · rintro (rfl | member)
      · exact own.mem_numbers
      · exact member
  · refine ⟨fun x => by rw [(more own).mem_iff, List.mem_cons], ?_⟩
    rw [(more own).nodup_iff, List.nodup_cons]
    constructor
    · intro ⟨fresh, nodup⟩
      exact ⟨nodup, fun member => absurd member fresh⟩
    · intro ⟨nodup, covered⟩
      exact ⟨fun member => own (covered member), nodup⟩

/-- The indexes that a volume has, of all. -/
def inside (firstIndex lastIndex : Int32) (xs : List ℤ) : List ℤ :=
  xs.filter fun x => firstIndex.toInt ≤ x ∧ x ≤ lastIndex.toInt

/-- The output shows these indexes and has counted them. -/
structure Output.Shows (out : Output) (xs : List ℤ) : Prop where
  lines : out.lines.flatMap Line.indexes = xs
  count : out.count = UInt32.ofNat xs.length

theorem toInt_clip (low a : Int32) :
    (if a < low then low else a).toInt = max low.toInt a.toInt := by
  by_cases below : a < low
  · rw [if_pos below, max_eq_left (le_of_lt (Int32.lt_iff_toInt_lt.mp below))]
  · have above := not_lt.mp fun h => below (Int32.lt_iff_toInt_lt.mpr h)
    rw [if_neg below, max_eq_right above]

theorem toInt_clip2 (high a : Int32) :
    (if high < a then high else a).toInt = min a.toInt high.toInt := by
  by_cases above : high < a
  · rw [if_pos above, min_eq_right (le_of_lt (Int32.lt_iff_toInt_lt.mp above))]
  · have below := not_lt.mp fun h => above (Int32.lt_iff_toInt_lt.mpr h)
    rw [if_neg above, min_eq_left below]

/-- The number of indexes of a clipped block, as it is counted. -/
theorem toUInt32_length {a b : Int32} (positive : 1 ≤ a.toInt) (ordered : a.toInt ≤ b.toInt) :
    (b - a + 1).toUInt32 = UInt32.ofNat (segment a.toInt b.toInt).length := by
  have high := b.toInt_lt
  have one : (1 : Int32).toInt = 1 := rfl
  have number : b - a + 1 = Int32.ofNat (segment a.toInt b.toInt).length := by
    rw [segment_length, ← Int32.toInt_inj, Int32.toInt_ofNat_of_lt (by omega), Int32.toInt_add,
      Int32.toInt_sub, one]
    simp only [Int.bmod]
    split <;> split <;> omega
  rw [number, Int32.toUInt32_ofNat']

theorem Output.Shows.print {out : Output} {xs : List ℤ} (shows : out.Shows xs) {line : Line}
    {n : UInt32} (counted : n = UInt32.ofNat line.indexes.length) :
    Output.Shows ⟨out.lines ++ [line], out.count + n⟩ (xs ++ line.indexes) := by
  refine ⟨?_, ?_⟩
  · simp only [List.flatMap_append, List.flatMap_singleton, shows.lines]
  · rw [List.length_append, UInt32.ofNat_add, ← shows.count, counted]

theorem printBlock_shows {firstIndex lastIndex findex findex2 : Int32} {out : Output}
    {xs : List ℤ} (bounds : firstIndex ≤ lastIndex) (valid : RbsrFindex.Valid ⟨findex, findex2⟩)
    (shows : out.Shows xs) :
    (printBlock firstIndex lastIndex findex findex2 out).Shows
      (xs ++ inside firstIndex lastIndex (segment findex.toInt findex2.toInt)) := by
  have positive := valid.positive
  have ordered := valid.ordered
  simp only at positive ordered
  rw [Int32.le_iff_toInt_le] at bounds
  have matched : ((firstIndex ≤ findex ∧ findex ≤ lastIndex) ∨
      (firstIndex ≤ findex2 ∧ findex2 ≤ lastIndex) ∨ (findex < firstIndex ∧ lastIndex < findex2)) ↔
      max firstIndex.toInt findex.toInt ≤ min findex2.toInt lastIndex.toInt := by
    simp only [Int32.le_iff_toInt_le, Int32.lt_iff_toInt_lt]
    omega
  unfold printBlock inside
  rw [segment_filter]
  split
  · rename_i overlap
    have clipped := toInt_clip firstIndex findex
    have clipped2 := toInt_clip2 lastIndex findex2
    rw [matched, ← clipped, ← clipped2] at overlap
    rw [← clipped, ← clipped2]
    generalize (if findex < firstIndex then firstIndex else findex) = lo at clipped overlap ⊢
    generalize (if lastIndex < findex2 then lastIndex else findex2) = hi at overlap ⊢
    by_cases same : lo = hi
    · simp only [same, if_true]
      rw [segment_self]
      exact shows.print rfl
    · simp only [same, if_false]
      exact shows.print (toUInt32_length (by omega) overlap)
  · rename_i apart
    rw [matched, not_le] at apart
    have none : segment (max firstIndex.toInt findex.toInt) (min findex2.toInt lastIndex.toInt) =
        [] := by
      rw [List.eq_nil_iff_forall_not_mem]
      intro x member
      rw [mem_segment] at member
      omega
    rw [none, List.append_nil]
    exact shows

theorem writeBlocks_shows {firstIndex lastIndex : Int32} (bounds : firstIndex ≤ lastIndex)
    (rest : List RbsrFindex) {findex findex2 : Int32} {out : Output} {xs : List ℤ}
    (valid : RbsrFindex.Valid ⟨findex, findex2⟩) (validRest : ∀ fi ∈ rest, fi.Valid)
    (shows : out.Shows xs) :
    (writeBlocks firstIndex lastIndex findex findex2 rest out).Shows
      (xs ++ inside firstIndex lastIndex
        (segment findex.toInt findex2.toInt ++ numbers rest)) := by
  induction rest generalizing findex findex2 out xs with
  | nil => simpa only [writeBlocks, numbers, List.flatMap_nil, List.append_nil] using
      printBlock_shows bounds valid shows
  | cons fi rest ih =>
      have validFi := validRest fi List.mem_cons_self
      have validRest' : ∀ fi ∈ rest, fi.Valid := fun x hx => validRest x (List.mem_cons_of_mem _ hx)
      have unfolded : numbers (fi :: rest) = segment fi.findex.toInt fi.findex2.toInt ++ numbers rest :=
        List.flatMap_cons
      rw [writeBlocks, unfolded]
      split
      · rename_i follows
        have next := (eq_add_one_iff validFi.positive).mp follows
        have ordered := valid.ordered
        have orderedFi := validFi.ordered
        simp only at ordered
        have validMerged : RbsrFindex.Valid ⟨findex, fi.findex2⟩ :=
          ⟨valid.positive, by simp only; omega⟩
        have merged := ih validMerged validRest' shows
        rwa [← segment_append findex.toInt findex2.toInt fi.findex2.toInt (by omega) (by omega),
          ← next, List.append_assoc] at merged
      · have printed := ih validFi validRest' (printBlock_shows bounds valid shows)
        rw [List.append_assoc] at printed
        rwa [inside, List.filter_append]

/-- `write_findex` prints the indexes on the volume, each as often as the ranges list it. -/
theorem writeFindex_shows {fiList : Rblist RbsrFindex} {firstIndex lastIndex : Int32}
    (bounds : firstIndex ≤ lastIndex) (valid : ∀ fi ∈ Rblist.items fiList, fi.Valid) :
    (writeFindex fiList firstIndex lastIndex).Shows
      (inside firstIndex lastIndex (numbers (Rblist.items fiList))) := by
  rw [writeFindex, Rblist.foreach_eq]
  have empty : Output.Shows {} [] := ⟨rfl, rfl⟩
  cases ranges : Rblist.items fiList with
  | nil => exact empty
  | cons fi rest =>
      rw [ranges] at valid
      exact writeBlocks_shows bounds rest (valid fi List.mem_cons_self)
        (fun x hx => valid x (List.mem_cons_of_mem _ hx)) empty

end Numbers

section Jobs

theorem searchRbsr_eq (a b : Rbsr) : searchRbsr a b = compare a.jobId b.jobId := by
  unfold searchRbsr
  by_cases same : b.jobId = a.jobId
  · have self : compare a.jobId a.jobId = .eq := Std.ReflCmp.compare_self
    rw [if_pos same, same, self]
  · rw [if_neg same]
    by_cases less : b.jobId < a.jobId
    · rw [if_pos less, Std.compare_eq_gt.mpr less]
    · have more : a.jobId < b.jobId :=
        UInt32.lt_of_le_of_ne (UInt32.not_lt.mp less) (Ne.symm same)
      rw [if_neg less, Std.compare_eq_lt.mpr more]

instance : Std.TransCmp searchRbsr := by
  have byJobId : searchRbsr = compareOn Rbsr.jobId := by
    funext a b
    exact searchRbsr_eq a b
  rw [byJobId]
  infer_instance

theorem searchRbsr_eq_iff (a b : Rbsr) : searchRbsr a b = .eq ↔ a.jobId = b.jobId := by
  rw [searchRbsr_eq, Std.compare_eq_iff_eq]

theorem jobId_ne_of_lt {a b : Rbsr} (less : searchRbsr a b = .lt) : a.jobId ≠ b.jobId := by
  intro same
  rw [(searchRbsr_eq_iff a b).mpr same] at less
  cases less

theorem sorted_iff (bsrList : Rblist Rbsr) :
    Rblist.Sorted searchRbsr bsrList ↔
      ((Rblist.items bsrList).map Rbsr.jobId).Pairwise (· < ·) := by
  rw [List.pairwise_map, Rblist.Sorted]
  simp only [searchRbsr_eq, Std.compare_eq_lt]

/-- The list of a job in an enumeration of the records. -/
def lookup (records : List Rbsr) (jobId : UInt32) : Rblist RbsrFindex :=
  ((records.find? fun bsr => bsr.jobId = jobId).map Rbsr.fiList).getD .nil

theorem lookup_middle {pre : List Rbsr} {bsr : Rbsr}
    (other : ∀ b ∈ pre, b.jobId ≠ bsr.jobId) (post : List Rbsr) (jobId : UInt32) :
    lookup (pre ++ bsr :: post) jobId =
      if jobId = bsr.jobId then bsr.fiList else lookup (pre ++ post) jobId := by
  unfold lookup
  rw [List.find?_append, List.find?_append, List.find?_cons]
  by_cases here : jobId = bsr.jobId
  · have none : pre.find? (fun b => b.jobId = jobId) = none := by
      rw [List.find?_eq_none]
      intro b member
      rw [here]
      simpa using other b member
    rw [none, if_pos here]
    simp [here]
  · rw [if_neg here]
    simp [Ne.symm here]

theorem earlier_ne {place : Place (Linked Rbsr)}
    (sorted : Rblist.Sorted searchRbsr place.tree) :
    ∀ b ∈ place.earlier.map Linked.item, b.jobId ≠ place.item.item.jobId := by
  intro b member
  rw [Rblist.Sorted, Rblist.items_place] at sorted
  exact jobId_ne_of_lt ((List.pairwise_append.mp sorted).2.2 b member _ List.mem_cons_self)

theorem fiList_eq_lookup {bsrList : Rblist Rbsr} (sorted : Rblist.Sorted searchRbsr bsrList)
    (jobId : UInt32) : fiList bsrList jobId = lookup (Rblist.items bsrList) jobId := by
  unfold fiList
  cases result : Rblist.search searchRbsr ⟨jobId, .nil⟩ bsrList with
  | some place =>
      obtain ⟨rfl, equal⟩ := Rblist.search_eq_some result
      rw [Rblist.items_place, lookup_middle (earlier_ne sorted),
        if_pos ((searchRbsr_eq_iff _ _).mp equal)]
  | none =>
      have absent : (Rblist.items bsrList).find? (fun b => b.jobId = jobId) = none := by
        rw [List.find?_eq_none]
        intro b member here
        have found := (sorted.search_isSome_iff ⟨jobId, .nil⟩).mpr
          ⟨b, member, (searchRbsr_eq_iff _ _).mpr (of_decide_eq_true here).symm⟩
        rw [result] at found
        cases found
      rw [lookup, absent]
      rfl

/-- The way of `add_findex` and `add_findex_all`: the list of the job is changed, and a job
without one gets a record. -/
def updateJob (bsrList : Rblist Rbsr) (jobId : UInt32)
    (change : Rblist RbsrFindex → Rblist RbsrFindex) : Rblist Rbsr :=
  match Rblist.search searchRbsr ⟨jobId, .nil⟩ bsrList with
  | some bsr =>
      Rblist.write bsr { bsr.item.item with fiList := change bsr.item.item.fiList }
  | none =>
      match Rblist.insert searchRbsr ⟨jobId, change .nil⟩ bsrList with
      | .inserted bsrList => bsrList
      | .found _ => bsrList

theorem updateJob_spec {bsrList : Rblist Rbsr} (sorted : Rblist.Sorted searchRbsr bsrList)
    (jobId : UInt32) (change : Rblist RbsrFindex → Rblist RbsrFindex) :
    Rblist.Sorted searchRbsr (updateJob bsrList jobId change) ∧
      ∀ job, fiList (updateJob bsrList jobId change) job =
        if job = jobId then change (fiList bsrList jobId) else fiList bsrList job := by
  unfold updateJob
  cases result : Rblist.search searchRbsr ⟨jobId, .nil⟩ bsrList with
  | some place =>
      obtain ⟨rfl, equal⟩ := Rblist.search_eq_some result
      have job : jobId = place.item.item.jobId := (searchRbsr_eq_iff _ _).mp equal
      have other := earlier_ne sorted
      have own : fiList place.tree jobId = place.item.item.fiList := by
        simp only [fiList, result]
      have sorted' : Rblist.Sorted searchRbsr (Rblist.write place
          { place.item.item with fiList := change place.item.item.fiList }) := by
        rw [sorted_iff, Rblist.items_place] at sorted
        rw [sorted_iff, Rblist.items_write]
        simpa only [List.map_append, List.map_cons] using sorted
      refine ⟨sorted', ?_⟩
      intro j
      let updated : Rbsr := ⟨place.item.item.jobId, change place.item.item.fiList⟩
      have otherUpdated : ∀ b ∈ place.earlier.map Linked.item, b.jobId ≠ updated.jobId := other
      have now := lookup_middle otherUpdated (place.later.map Linked.item) j
      rw [fiList_eq_lookup sorted', Rblist.items_write, now, own, fiList_eq_lookup sorted j,
        Rblist.items_place, lookup_middle other, job]
      by_cases here : j = place.item.item.jobId
      · rw [if_pos here, if_pos here]
      · rw [if_neg here, if_neg here, if_neg here]
  | none =>
      rcases sorted.search_cases ⟨jobId, change .nil⟩ with
        ⟨place, found⟩ | ⟨u, pre, post, -, inserted, old, now, small, large⟩
      · obtain ⟨rfl, equal⟩ := Rblist.search_eq_some found
        have there := (sorted.search_isSome_iff ⟨jobId, .nil⟩).mpr
          ⟨place.item.item, by rw [Rblist.items_place]; simp,
            (searchRbsr_eq_iff _ _).mpr ((searchRbsr_eq_iff _ _).mp equal)⟩
        rw [result] at there
        cases there
      · have own : fiList bsrList jobId = .nil := by simp only [fiList, result]
        have other : ∀ b ∈ pre, b.jobId ≠ jobId := fun b member => jobId_ne_of_lt (small b member)
        have sorted' := sorted.insert inserted
        rw [inserted]
        refine ⟨sorted', ?_⟩
        intro j
        rw [fiList_eq_lookup sorted', fiList_eq_lookup sorted j, now, old, lookup_middle other, own]

/-- `add_findex` gives the index to the list of its job. -/
theorem addFindex_spec {bsrList : Rblist Rbsr} (sorted : Rblist.Sorted searchRbsr bsrList)
    (jobId : UInt32) {findex : Int32} (nonzero : findex ≠ 0) :
    Rblist.Sorted searchRbsr (addFindex bsrList jobId findex) ∧
      ∀ job, fiList (addFindex bsrList jobId findex) job =
        if job = jobId then
          addToList (if findex < 0 then -findex else findex) (fiList bsrList jobId)
        else fiList bsrList job := by
  have same : addFindex bsrList jobId findex =
      updateJob bsrList jobId (addToList (if findex < 0 then -findex else findex)) :=
    if_neg nonzero
  rw [same]
  exact updateJob_spec sorted jobId _

end Jobs

section Law

/-- The index that a call adds. -/
def Call.index (c : Call) : Int32 := if c.findex < 0 then -c.findex else c.findex

theorem Call.index_toInt (c : Call) : c.index.toInt = |c.findex.toInt| :=
  toInt_magnitude c.proper

theorem Call.index_positive (c : Call) (nonzero : c.findex ≠ 0) : 1 ≤ c.index.toInt := by
  have positive := abs_pos.mpr fun zero => nonzero (Int32.toInt_inj.mp zero)
  rw [c.index_toInt]
  exact positive

/-- The set of indexes that a history of calls has added for a job. -/
def added (jobId : UInt32) (calls : List Call) : Finset ℤ :=
  ((calls.filter fun c => c.jobId = jobId ∧ c.findex ≠ 0).map fun c => |c.findex.toInt|).toFinset

/-- The ranges of a list are a set of indexes, each of them in one range. -/
structure SetLaw (fiList : Rblist RbsrFindex) (added : Finset ℤ) : Prop where
  covers : ∀ x, (∃ fi ∈ Rblist.foreach fiList, x ∈ fi.indexes) ↔ x ∈ added
  disjoint : (Rblist.foreach fiList).Pairwise fun a b => a.indexes.Disjoint b.indexes
  prints : ∀ firstIndex lastIndex, firstIndex ≤ lastIndex → ∀ x,
    (∃ line ∈ (writeFindex fiList firstIndex lastIndex).lines, x ∈ line.indexes) ↔
      x ∈ added ∧ firstIndex.toInt ≤ x ∧ x ≤ lastIndex.toInt
  counts : ∀ firstIndex lastIndex, firstIndex ≤ lastIndex →
    (writeFindex fiList firstIndex lastIndex).count.toNat =
      (added.filter fun x => firstIndex.toInt ≤ x ∧ x ≤ lastIndex.toInt).card

/-- Whenever an index is added again, a range that has it is met first, and not one that
ends just before it or begins just behind it. -/
def Settled (jobId : UInt32) (calls : List Call) : Prop :=
  ∀ before c after, calls = before ++ c :: after → c.jobId = jobId → c.findex ≠ 0 →
    c.index.toInt ∈ added jobId before → OwnFirst c.index (fiList (addAll before) jobId)

theorem addAll_append (calls : List Call) (c : Call) :
    addAll (calls ++ [c]) = addFindex (addAll calls) c.jobId c.findex := by
  simp only [addAll, List.foldl_append, List.foldl_cons, List.foldl_nil]

theorem mem_added_append (jobId : UInt32) (calls : List Call) (c : Call) (x : ℤ) :
    x ∈ added jobId (calls ++ [c]) ↔
      (c.jobId = jobId ∧ c.findex ≠ 0 ∧ x = c.index.toInt) ∨ x ∈ added jobId calls := by
  rw [c.index_toInt]
  simp only [added, List.mem_toFinset, List.filter_append, List.map_append, List.mem_append,
    List.mem_map, List.mem_filter, List.mem_singleton, decide_eq_true_iff]
  constructor
  · rintro (old | ⟨d, ⟨rfl, same, nonzero⟩, rfl⟩)
    · exact Or.inr old
    · exact Or.inl ⟨same, nonzero, rfl⟩
  · rintro (⟨same, nonzero, rfl⟩ | old)
    · exact Or.inr ⟨c, ⟨rfl, same, nonzero⟩, rfl⟩
    · exact Or.inl old

theorem settled_append_iff (jobId : UInt32) (calls : List Call) (c : Call) :
    Settled jobId (calls ++ [c]) ↔ Settled jobId calls ∧ (c.jobId = jobId → c.findex ≠ 0 →
      c.index.toInt ∈ added jobId calls → OwnFirst c.index (fiList (addAll calls) jobId)) := by
  constructor
  · intro settled
    refine ⟨?_, settled calls c [] rfl⟩
    intro before d after parts
    exact settled before d (after ++ [c]) (by rw [parts, List.append_assoc]; rfl)
  · intro ⟨settled, last⟩ before d after parts
    rcases List.eq_nil_or_concat after with rfl | ⟨after', e, rfl⟩
    · obtain ⟨rfl, rest⟩ := List.append_inj' parts rfl
      obtain rfl := List.singleton_inj.mp rest
      exact last
    · rw [List.concat_eq_append, ← List.cons_append, ← List.append_assoc] at parts
      obtain ⟨rfl, -⟩ := List.append_inj' parts rfl
      exact settled before d after' rfl

/-- The lists of all jobs after a history of calls. -/
structure Tracks (calls : List Call) (bsrList : Rblist Rbsr) : Prop where
  sorted : Rblist.Sorted searchRbsr bsrList
  valid : ∀ jobId, ∀ fi ∈ Rblist.items (fiList bsrList jobId), fi.Valid
  covers : ∀ jobId x, x ∈ numbers (Rblist.items (fiList bsrList jobId)) ↔ x ∈ added jobId calls
  nodup : ∀ jobId, (numbers (Rblist.items (fiList bsrList jobId))).Nodup ↔ Settled jobId calls

theorem tracks_nil : Tracks [] (addAll []) := by
  have sorted : Rblist.Sorted searchRbsr .nil := List.Pairwise.nil
  have empty (jobId : UInt32) : fiList .nil jobId = .nil := rfl
  refine ⟨sorted, ?_, ?_, ?_⟩
  · intro jobId fi member
    rw [addAll, List.foldl_nil, empty] at member
    cases member
  · intro jobId x
    exact ⟨fun member => absurd member List.not_mem_nil, fun member => absurd member (by simp [added])⟩
  · intro jobId
    constructor
    · intro _ before c after parts
      cases before <;> cases parts
    · intro _
      exact List.nodup_nil

theorem Tracks.append {calls : List Call} (tracks : Tracks calls (addAll calls)) (c : Call) :
    Tracks (calls ++ [c]) (addAll (calls ++ [c])) := by
  rw [addAll_append]
  by_cases zero : c.findex = 0
  · have unchanged : addFindex (addAll calls) c.jobId c.findex = addAll calls := if_pos zero
    rw [unchanged]
    refine ⟨tracks.sorted, tracks.valid, ?_, ?_⟩
    · intro jobId x
      rw [mem_added_append, tracks.covers]
      simp [zero]
    · intro jobId
      rw [settled_append_iff, tracks.nodup]
      simp [zero]
  · obtain ⟨sorted, lists⟩ := addFindex_spec tracks.sorted c.jobId zero
    have positive := c.index_positive zero
    obtain ⟨validNow, -, -⟩ := addToList_spec positive (tracks.valid c.jobId)
    obtain ⟨coversNow, nodupNow⟩ := addToList_numbers positive (tracks.valid c.jobId)
    have own : fiList (addFindex (addAll calls) c.jobId c.findex) c.jobId =
        addToList c.index (fiList (addAll calls) c.jobId) := (lists c.jobId).trans (if_pos rfl)
    have others (jobId : UInt32) (other : jobId ≠ c.jobId) :
        fiList (addFindex (addAll calls) c.jobId c.findex) jobId = fiList (addAll calls) jobId :=
      (lists jobId).trans (if_neg other)
    refine ⟨sorted, ?_, ?_, ?_⟩
    · intro jobId
      by_cases here : jobId = c.jobId
      · rw [here, own]
        exact validNow
      · rw [others jobId here]
        exact tracks.valid jobId
    · intro jobId x
      by_cases here : jobId = c.jobId
      · rw [here, own, coversNow, tracks.covers, mem_added_append]
        simp [zero]
      · rw [others jobId here, tracks.covers, mem_added_append]
        simp [Ne.symm here]
    · intro jobId
      rw [settled_append_iff]
      by_cases here : jobId = c.jobId
      · rw [here, own, nodupNow, tracks.nodup, tracks.covers]
        simp [zero]
      · rw [others jobId here, tracks.nodup]
        simp [Ne.symm here]

theorem addAll_tracks (calls : List Call) : Tracks calls (addAll calls) := by
  induction calls using List.reverseRecOn with
  | nil => exact tracks_nil
  | append_singleton calls c ih => exact ih.append c

/-- There are not more indexes than positive numbers. -/
theorem numbers_length_lt {ranges : List RbsrFindex} (valid : ∀ fi ∈ ranges, fi.Valid)
    (nodup : (numbers ranges).Nodup) : (numbers ranges).length < 2 ^ 32 := by
  have within : numbers ranges ⊆ segment 1 (2 ^ 31) := by
    intro x member
    obtain ⟨fi, here, bounds⟩ := List.mem_flatMap.mp member
    have positive := (valid fi here).positive
    have high := fi.findex2.toInt_lt
    rw [RbsrFindex.indexes, mem_segment] at bounds
    rw [mem_segment]
    omega
  have few := (List.subperm_of_subset nodup within).length_le
  rw [segment_length] at few
  omega

/-- A list obeys the set law when no index is listed twice. -/
theorem setLaw_iff_nodup {fiList : Rblist RbsrFindex} {added : Finset ℤ}
    (valid : ∀ fi ∈ Rblist.items fiList, fi.Valid)
    (covers : ∀ x, x ∈ numbers (Rblist.items fiList) ↔ x ∈ added) :
    SetLaw fiList added ↔ (numbers (Rblist.items fiList)).Nodup := by
  have disjoint : (numbers (Rblist.items fiList)).Nodup ↔
      (Rblist.items fiList).Pairwise fun a b => a.indexes.Disjoint b.indexes := by
    rw [numbers, List.nodup_flatMap]
    constructor
    · intro ⟨_, apart⟩
      exact apart
    · intro apart
      exact ⟨fun fi _ => segment_nodup _ _, apart⟩
  rw [disjoint]
  constructor
  · intro law
    rw [← Rblist.foreach_eq]
    exact law.disjoint
  · intro apart
    have nodup := disjoint.mpr apart
    rw [← Rblist.foreach_eq] at apart
    refine ⟨?_, apart, ?_, ?_⟩
    · intro x
      rw [← covers, numbers, List.mem_flatMap, Rblist.foreach_eq]
    · intro firstIndex lastIndex bounds x
      have shown := (writeFindex_shows bounds valid).lines
      rw [← List.mem_flatMap, shown, inside, List.mem_filter, covers, decide_eq_true_iff]
    · intro firstIndex lastIndex bounds
      have counted := (writeFindex_shows bounds valid).count
      have same : (inside firstIndex lastIndex (numbers (Rblist.items fiList))).toFinset =
          added.filter fun x => firstIndex.toInt ≤ x ∧ x ≤ lastIndex.toInt := by
        ext x
        rw [List.mem_toFinset, inside, List.mem_filter, covers, Finset.mem_filter,
          decide_eq_true_iff]
      have nodupInside : (inside firstIndex lastIndex (numbers (Rblist.items fiList))).Nodup :=
        nodup.filter _
      have few : (inside firstIndex lastIndex (numbers (Rblist.items fiList))).length < 2 ^ 32 :=
        lt_of_le_of_lt List.filter_sublist.length_le (numbers_length_lt valid nodup)
      rw [counted, UInt32.toNat_ofNat_of_lt' few, ← same, List.toFinset_card_of_nodup nodupInside]

/-- After any calls of `add_findex` the list of a job obeys the set law exactly when every
repeated index met first a range that has it. -/
theorem setLaw_iff_settled (jobId : UInt32) (calls : List Call) :
    SetLaw (fiList (addAll calls) jobId) (added jobId calls) ↔ Settled jobId calls := by
  have tracks := addAll_tracks calls
  rw [setLaw_iff_nodup (tracks.valid jobId) (tracks.covers jobId), tracks.nodup]

/-- A history in which no index of the job is repeated is settled. -/
theorem settled_of_once (jobId : UInt32) (calls : List Call)
    (once : ((calls.filter fun c => c.jobId = jobId ∧ c.findex ≠ 0).map
      fun c => |c.findex.toInt|).Nodup) : Settled jobId calls := by
  intro before c after parts same nonzero again
  rw [parts, List.filter_append, List.map_append] at once
  rw [c.index_toInt, added, List.mem_toFinset] at again
  refine absurd rfl ((List.nodup_append.mp once).2.2 _ again _ ?_)
  exact List.mem_map_of_mem (List.mem_filter.mpr ⟨List.mem_cons_self, by simp [same, nonzero]⟩)

def callsOf (findexes : List Int32) : List Call :=
  findexes.filterMap fun findex => if h : findex ≠ Int32.minValue then some ⟨1, findex, h⟩ else none

/-- After 1, 3, 2 the ranges are 1-2 and 3-3. Another 3 extends the first of them, and
`write_findex` counts four indexes of three. -/
theorem repeated_index_counted_twice :
    ¬ ∀ jobId calls, SetLaw (fiList (addAll calls) jobId) (added jobId calls) := by
  intro law
  have counted := (law 1 (callsOf [1, 3, 2, 3])).counts 1 3 (by decide)
  exact absurd counted (by decide)

end Law

end Bacula.Bsr
