import Bacula.Dird.Bsr

/-! The selection of a whole job in `dird/bsr.c`: `add_findex_all` inserts one range with all
indexes. The range is compared on its way down like the ranges of `add_findex`, to which a
range next to it counts as equal. -/
namespace Bacula.Bsr
open Zipper Segments

def INT32_MAX : Int32 := 0x7FFFFFFF

def wholeJob : RbsrFindex := ⟨1, INT32_MAX⟩

/-- The end of `add_findex_all`: an equal range that `insert` returns is not looked at. -/
def insertWhole (fiList : Rblist RbsrFindex) : Rblist RbsrFindex :=
  match Rblist.insert searchFi wholeJob fiList with
  | .inserted fiList => fiList
  | .found _ => fiList

/-- `add_findex_all`, without the regular expression for the file daemon. -/
def addFindexAll (bsrList : Rblist Rbsr) (jobId : UInt32) : Rblist Rbsr :=
  match Rblist.search searchRbsr ⟨jobId, .nil⟩ bsrList with
  | some bsr =>
      Rblist.write bsr { bsr.item.item with fiList := insertWhole bsr.item.item.fiList }
  | none =>
      match Rblist.insert searchRbsr ⟨jobId, insertWhole .nil⟩ bsrList with
      | .inserted bsrList => bsrList
      | .found _ => bsrList

/-- Calls while the files of a restore are selected. -/
inductive Selection where
  | findex (call : Call)
  | whole (jobId : UInt32)

def Selection.apply (bsrList : Rblist Rbsr) : Selection → Rblist Rbsr
  | .findex c => addFindex bsrList c.jobId c.findex
  | .whole jobId => addFindexAll bsrList jobId

def selectAll (calls : List Selection) : Rblist Rbsr := calls.foldl Selection.apply .nil

/-- Every index of a job is in a range. -/
def Covers (fiList : Rblist RbsrFindex) : Prop :=
  ∀ x : ℤ, 1 ≤ x → x ≤ INT32_MAX.toInt → ∃ fi ∈ Rblist.foreach fiList, x ∈ fi.indexes

/-- The ranges from the head to the first one. -/
def leftSpine : Rblist RbsrFindex → List RbsrFindex
  | .nil => []
  | .node l fi _ => fi.item :: leftSpine l

/-- A range that is not the whole job and still compares equal to it. -/
def Swallows (fi : RbsrFindex) : Prop := fi.findex = 2 ∨ fi.findex2 = INT32_MAX - 1

section Insert

theorem mem_items_of_leftSpine {fi : RbsrFindex} {t : Rblist RbsrFindex}
    (member : fi ∈ leftSpine t) : fi ∈ Rblist.items t := by
  induction t with
  | nil => cases member
  | node l x r ihl ihr =>
      rw [Rblist.items_node]
      rcases List.mem_cons.mp member with rfl | below
      · exact List.mem_append_right _ List.mem_cons_self
      · exact List.mem_append_left _ (ihl below)

theorem wholeJob_valid : wholeJob.Valid := ⟨by decide, by decide⟩

theorem mem_wholeJob (x : ℤ) : x ∈ wholeJob.indexes ↔ 1 ≤ x ∧ x ≤ INT32_MAX.toInt :=
  mem_segment

theorem swallows_iff (fi : RbsrFindex) :
    Swallows fi ↔ fi.findex.toInt = 2 ∨ fi.findex2.toInt = 2147483646 := by
  unfold Swallows
  rw [← Int32.toInt_inj, ← Int32.toInt_inj]
  rfl

/-- No range is smaller than the whole job. -/
theorem searchFi_whole {fi : RbsrFindex} (valid : fi.Valid) :
    (searchFi wholeJob fi = .eq ∧ (Swallows fi ∨ fi = wholeJob)) ∨
      (searchFi wholeJob fi = .lt ∧ ¬ Swallows fi) := by
  have one : wholeJob.findex.toInt = 1 := rfl
  have max : wholeJob.findex2.toInt = 2147483647 := rfl
  have below := eq_sub_one_iff (f := wholeJob.findex) valid.positive
  have above := eq_add_one_iff (f := wholeJob.findex2) (b := fi.findex2) (by rw [max]; decide)
  have positive := valid.positive
  have high := fi.findex2.toInt_lt
  rw [swallows_iff]
  unfold searchFi
  simp only [below, above, Int32.le_iff_toInt_le, Int32.lt_iff_toInt_lt, one, max]
  by_cases second : fi.findex.toInt = 2
  · rw [if_pos (by omega)]
    exact .inl ⟨rfl, .inl (.inl second)⟩
  · rw [if_neg (by omega)]
    by_cases last : fi.findex2.toInt = 2147483646
    · rw [if_pos (by omega)]
      exact .inl ⟨rfl, .inl (.inr last)⟩
    · rw [if_neg (by omega)]
      by_cases whole : fi.findex.toInt ≤ 1 ∧ 2147483647 ≤ fi.findex2.toInt
      · rw [if_pos whole]
        have first : fi.findex = wholeJob.findex := Int32.toInt_inj.mp (by omega)
        have end_ : fi.findex2 = wholeJob.findex2 := Int32.toInt_inj.mp (by omega)
        refine .inl ⟨rfl, .inr ?_⟩
        cases fi
        exact congrArg₂ RbsrFindex.mk first end_
      · rw [if_neg whole, if_neg (by omega)]
        exact .inr ⟨rfl, by omega⟩

/-- The way down keeps to the left, up to the first range that compares equal. -/
theorem descend_whole {t : Rblist RbsrFindex} (valid : ∀ fi ∈ Rblist.items t, fi.Valid)
    (path : Path (Linked RbsrFindex)) :
    (∃ place, Rblist.descend searchFi wholeJob t path = .found place ∧
      ∃ fi ∈ leftSpine t, Swallows fi ∨ fi = wholeJob) ∨
    (∃ up, Rblist.descend searchFi wholeJob t path = .leaf up ∧
      ∀ fi ∈ leftSpine t, ¬ Swallows fi) := by
  induction t generalizing path with
  | nil => exact .inr ⟨path, rfl, fun fi member => absurd member List.not_mem_nil⟩
  | node l x r ihl ihr =>
      rw [Rblist.items_node] at valid
      have here := valid x.item (List.mem_append_right _ List.mem_cons_self)
      rcases searchFi_whole here with ⟨order, kind⟩ | ⟨order, passed⟩
      · simp only [Rblist.descend, order]
        exact .inl ⟨_, rfl, x.item, List.mem_cons_self, kind⟩
      · simp only [Rblist.descend, order]
        rcases ihl (fun fi member => valid fi (List.mem_append_left _ member)) (⟨.left, x, r⟩ :: path)
          with ⟨place, found, fi, member, kind⟩ | ⟨up, leaf, clear⟩
        · exact .inl ⟨place, found, fi, List.mem_cons_of_mem _ member, kind⟩
        · refine .inr ⟨up, leaf, fun fi member => ?_⟩
          rcases List.mem_cons.mp member with rfl | below
          · exact passed
          · exact clear fi below

theorem covers_iff (t : Rblist RbsrFindex) :
    Covers t ↔ ∀ x : ℤ, 1 ≤ x → x ≤ INT32_MAX.toInt → ∃ fi ∈ Rblist.items t, x ∈ fi.indexes := by
  unfold Covers
  rw [Rblist.foreach_eq]

theorem covers_of_mem_whole {t : Rblist RbsrFindex} (member : wholeJob ∈ Rblist.items t) :
    Covers t :=
  (covers_iff t).mpr fun x low high => ⟨wholeJob, member, (mem_wholeJob x).mpr ⟨low, high⟩⟩

/-- The whole job is put in unless a range on the left takes it for itself. -/
theorem insertWhole_spec {t : Rblist RbsrFindex} (valid : ∀ fi ∈ Rblist.items t, fi.Valid) :
    (∀ fi ∈ Rblist.items (insertWhole t), fi.Valid) ∧
      (Covers (insertWhole t) ↔ Covers t ∨ ∀ fi ∈ leftSpine t, ¬ Swallows fi) := by
  unfold insertWhole
  rcases descend_whole valid [] with ⟨place, found, fi, member, kind⟩ | ⟨up, leaf, clear⟩
  · have kept : Rblist.insert searchFi wholeJob t = .found place := by
      unfold Rblist.insert
      rw [found]
    simp only [kept]
    refine ⟨valid, Or.inl, ?_⟩
    rintro (covers | clear)
    · exact covers
    · rcases kind with swallows | rfl
      · exact absurd swallows (clear fi member)
      · exact covers_of_mem_whole (mem_items_of_leftSpine member)
  · obtain ⟨u, inserted, now⟩ := Rblist.insert_of_leaf leaf
    have old : Rblist.items t = (before up).map Linked.item ++ (after up).map Linked.item := by
      rcases Rblist.descend_cases searchFi wholeJob t [] with ⟨place, found, -⟩ | ⟨up', leaf', same⟩
      · rw [leaf] at found
        cases found
      · rw [leaf] at leaf'
        cases leaf'
        exact Rblist.items_leaf same
    simp only [inserted]
    have member : wholeJob ∈ Rblist.items u := by
      rw [now]
      exact List.mem_append_right _ List.mem_cons_self
    refine ⟨fun fi here => ?_, fun _ => .inr clear, fun _ => covers_of_mem_whole member⟩
    rw [now] at here
    rcases List.mem_append.mp here with left | right
    · exact valid fi (old ▸ List.mem_append_left _ left)
    · rcases List.mem_cons.mp right with rfl | right
      · exact wholeJob_valid
      · exact valid fi (old ▸ List.mem_append_right _ right)

end Insert

section Law

/-- The lists of all jobs while files are selected. -/
structure WellFormed (bsrList : Rblist Rbsr) : Prop where
  sorted : Rblist.Sorted searchRbsr bsrList
  valid : ∀ jobId, ∀ fi ∈ Rblist.items (fiList bsrList jobId), fi.Valid

theorem addFindexAll_eq (bsrList : Rblist Rbsr) (jobId : UInt32) :
    addFindexAll bsrList jobId = updateJob bsrList jobId insertWhole := rfl

theorem WellFormed.updateJob {bsrList : Rblist Rbsr} (well : WellFormed bsrList) (jobId : UInt32)
    {change : Rblist RbsrFindex → Rblist RbsrFindex}
    (keeps : ∀ fi ∈ Rblist.items (change (fiList bsrList jobId)), fi.Valid) :
    WellFormed (updateJob bsrList jobId change) := by
  obtain ⟨sorted, lists⟩ := updateJob_spec well.sorted jobId change
  refine ⟨sorted, fun job => ?_⟩
  rw [lists job]
  split
  · exact keeps
  · exact well.valid job

theorem WellFormed.apply {bsrList : Rblist Rbsr} (well : WellFormed bsrList) (call : Selection) :
    WellFormed (call.apply bsrList) := by
  cases call with
  | findex c =>
      by_cases zero : c.findex = 0
      · have unchanged : addFindex bsrList c.jobId c.findex = bsrList := if_pos zero
        rw [Selection.apply, unchanged]
        exact well
      · have changed : addFindex bsrList c.jobId c.findex =
            Bsr.updateJob bsrList c.jobId (addToList c.index) := if_neg zero
        rw [Selection.apply, changed]
        exact well.updateJob c.jobId
          (addToList_spec (c.index_positive zero) (well.valid c.jobId)).1
  | whole jobId =>
      rw [Selection.apply, addFindexAll_eq]
      exact well.updateJob jobId (insertWhole_spec (well.valid jobId)).1

theorem selectAll_wellFormed (calls : List Selection) : WellFormed (selectAll calls) := by
  induction calls using List.reverseRecOn with
  | nil => exact ⟨List.Pairwise.nil, fun jobId fi member => absurd member List.not_mem_nil⟩
  | append_singleton calls call ih =>
      rw [selectAll, List.foldl_append]
      exact ih.apply call

/-- The whole job is selected by `add_findex_all`, after any calls, exactly when it was selected
before or no range between the head and the first one begins with 2 or ends before INT32_MAX by
one. -/
theorem whole_job_selected_iff (calls : List Selection) (jobId : UInt32) :
    Covers (fiList (addFindexAll (selectAll calls) jobId) jobId) ↔
      Covers (fiList (selectAll calls) jobId) ∨
        ∀ fi ∈ leftSpine (fiList (selectAll calls) jobId), ¬ Swallows fi := by
  have well := selectAll_wellFormed calls
  rw [addFindexAll_eq, (updateJob_spec well.sorted jobId insertWhole).2 jobId, if_pos rfl]
  exact (insertWhole_spec (well.valid jobId)).2

/-- File 2 is selected, then the whole job: only file 2 is. -/
theorem second_file_swallows_job :
    ¬ Covers (fiList (addFindexAll (selectAll [.findex ⟨1, 2, by decide⟩]) 1) 1) := by
  intro covers
  obtain ⟨fi, member, inside⟩ := covers 1 (by decide) (by decide)
  have only : Rblist.foreach (fiList (addFindexAll (selectAll [.findex ⟨1, 2, by decide⟩]) 1) 1) =
      [⟨2, 2⟩] := by decide
  rw [only, List.mem_singleton] at member
  subst member
  exact absurd inside (by decide)

end Law

end Bacula.Bsr
