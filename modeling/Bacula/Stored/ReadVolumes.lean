import Bacula.Lib.Dlist

/-! The list of volumes reserved for reading, `read_vol_list` of `stored/vol_mgr.c`. -/
namespace Bacula.VolMgr
open Bisection Dlist

/-- A volume name is the bytes before its terminator. -/
abbrev VolName := List UInt8

/-- The order of `strcmp`: by unsigned bytes, a shorter string before its extensions. -/
def strcmp (a b : VolName) : Ordering := compare a b

instance : Std.TransCmp strcmp :=
  inferInstanceAs (Std.TransCmp (compare : VolName → VolName → Ordering))

instance : Std.LawfulEqCmp strcmp :=
  inferInstanceAs (Std.LawfulEqCmp (compare : VolName → VolName → Ordering))

/-- The fields of a `VOLRES` that matter in the read list. -/
structure ReadVol where
  jobId : UInt32
  volName : VolName
  deriving DecidableEq, Repr

/-- For read volumes the key is JobId, VolumeName. -/
def readCompare (vol1 vol2 : ReadVol) : Ordering :=
  if vol1.jobId = vol2.jobId then strcmp vol1.volName vol2.volName
  else if vol1.jobId < vol2.jobId then .lt
  else .gt

/-- `name_compare` of a volume that has only a name. -/
def nameCompare (volName : VolName) (vol : ReadVol) : Ordering := strcmp volName vol.volName

def addReadVolume (jobId : UInt32) (volName : VolName) (readVolList : List ReadVol) :
    List ReadVol :=
  (binaryInsert readCompare ⟨jobId, volName⟩ readVolList).1

def removeReadVolume (jobId : UInt32) (volName : VolName) (readVolList : List ReadVol) :
    List ReadVol :=
  match binarySearch (readCompare ⟨jobId, volName⟩) readVolList with
  | some fvol => remove readVolList fvol
  | none => readVolList

def isReadVolume (volName : VolName) (readVolList : List ReadVol) : Bool :=
  (binarySearch (nameCompare volName) readVolList).isSome

def findReadVolume (volName : VolName) (readVolList : List ReadVol) : Option ReadVol :=
  if readVolList.isEmpty then none else binarySearch (nameCompare volName) readVolList

/-- A call by some job. -/
inductive ReadCall where
  | add (jobId : UInt32) (volName : VolName)
  | remove (jobId : UInt32) (volName : VolName)
  deriving DecidableEq, Repr

def ReadCall.apply (readVolList : List ReadVol) : ReadCall → List ReadVol
  | .add jobId volName => addReadVolume jobId volName readVolList
  | .remove jobId volName => removeReadVolume jobId volName readVolList

/-- The list after a history of calls. -/
def readVolList (history : List ReadCall) : List ReadVol := history.foldl ReadCall.apply []

/-- What the list is for: the set of registrations that were not taken back. -/
def ReadCall.register (registered : Set ReadVol) : ReadCall → Set ReadVol
  | .add jobId volName => insert ⟨jobId, volName⟩ registered
  | .remove jobId volName => registered \ {⟨jobId, volName⟩}

def registered (history : List ReadCall) : Set ReadVol := history.foldl ReadCall.register ∅

/-- Some job has the volume registered for reading. -/
def RegisteredForReading (history : List ReadCall) (volName : VolName) : Prop :=
  ∃ jobId, ⟨jobId, volName⟩ ∈ registered history

theorem readCompare_eq_then (a b : ReadVol) :
    readCompare a b = (compare a.jobId b.jobId).then (strcmp a.volName b.volName) := by
  unfold readCompare
  by_cases same : a.jobId = b.jobId
  · have self : compare b.jobId b.jobId = .eq := Std.ReflCmp.compare_self
    rw [if_pos same, same, self]
    rfl
  · rw [if_neg same]
    by_cases less : a.jobId < b.jobId
    · rw [if_pos less, Std.compare_eq_lt.mpr less]
      rfl
    · have more : b.jobId < a.jobId :=
        UInt32.lt_of_le_of_ne (UInt32.not_lt.mp less) (Ne.symm same)
      rw [if_neg less, Std.compare_eq_gt.mpr more]
      rfl

instance : Std.TransCmp readCompare := by
  have lexicographic :
      readCompare = compareLex (compareOn ReadVol.jobId) (compareOn ReadVol.volName) := by
    funext a b
    exact readCompare_eq_then a b
  rw [lexicographic]
  infer_instance

theorem readCompare_eq_iff (a b : ReadVol) : readCompare a b = .eq ↔ a = b := by
  rw [readCompare_eq_then, Ordering.then_eq_eq, Std.compare_eq_iff_eq]
  constructor
  · rintro ⟨job, name⟩
    have name := Std.LawfulEqCmp.eq_of_compare name
    cases a; cases b
    simp only at job name
    rw [job, name]
  · rintro rfl
    exact ⟨rfl, Std.ReflCmp.compare_self⟩

/-- The list is a sorted enumeration of the set. -/
structure Represents (readVolList : List ReadVol) (registered : Set ReadVol) : Prop where
  sorted : Sorted readCompare readVolList
  mem_iff : ∀ vol, vol ∈ readVolList ↔ vol ∈ registered

theorem Represents.add {list : List ReadVol} {registered : Set ReadVol}
    (rep : Represents list registered) (jobId : UInt32) (volName : VolName) :
    Represents (addReadVolume jobId volName list) (insert ⟨jobId, volName⟩ registered) := by
  refine ⟨rep.sorted.binaryInsert _, ?_⟩
  intro vol
  unfold addReadVolume
  rcases rep.sorted.binaryInsert_cases ⟨jobId, volName⟩ with
    ⟨present, member, same, unchanged⟩ | ⟨pre, post, parts, -, -, inserted⟩
  · obtain rfl := (readCompare_eq_iff _ _).mp same
    rw [unchanged, rep.mem_iff vol, Set.mem_insert_iff]
    constructor
    · exact Or.inr
    · rintro (rfl | old)
      · exact (rep.mem_iff _).mp member
      · exact old
  · rw [inserted, Set.mem_insert_iff, ← rep.mem_iff vol, parts]
    simp only [List.mem_append, List.mem_cons]
    tauto

theorem Represents.remove {list : List ReadVol} {registered : Set ReadVol}
    (rep : Represents list registered) (jobId : UInt32) (volName : VolName) :
    Represents (removeReadVolume jobId volName list) (registered \ {⟨jobId, volName⟩}) := by
  unfold removeReadVolume
  cases found : binarySearch (readCompare ⟨jobId, volName⟩) list with
  | some fvol =>
      obtain ⟨-, hit⟩ := binarySearch_eq_some found
      obtain rfl := (readCompare_eq_iff _ _).mp hit
      refine ⟨rep.sorted.remove _, ?_⟩
      intro vol
      rw [rep.sorted.mem_remove_iff, rep.mem_iff vol, Set.mem_sdiff, Set.mem_singleton_iff]
      tauto
  | none =>
      have absent : (⟨jobId, volName⟩ : ReadVol) ∉ registered := by
        intro member
        have isSome := rep.sorted.binarySearch_isSome ((rep.mem_iff _).mpr member)
          ((readCompare_eq_iff _ _).mpr rfl)
        rw [found] at isSome
        cases isSome
      rw [Set.sdiff_singleton_eq_self absent]
      exact rep

theorem Represents.apply {list : List ReadVol} {registered : Set ReadVol}
    (rep : Represents list registered) (call : ReadCall) :
    Represents (call.apply list) (call.register registered) := by
  cases call with
  | add jobId volName => exact rep.add jobId volName
  | remove jobId volName => exact rep.remove jobId volName

/-- After every history the list enumerates the registrations. -/
theorem readVolList_represents (history : List ReadCall) :
    Represents (readVolList history) (registered history) := by
  suffices run : ∀ (history : List ReadCall) list set, Represents list set →
      Represents (history.foldl ReadCall.apply list) (history.foldl ReadCall.register set) by
    exact run history [] ∅ ⟨List.Pairwise.nil, by simp⟩
  intro history
  induction history with
  | nil => intro list set rep; exact rep
  | cons call history ih => intro list set rep; exact ih _ _ (rep.apply call)

/-- The list is ordered by names along the way on which a bisection comes to some entry
with this name: at every position compared before, the name there is not behind the
sought one when the search has to go on to the right, and not before it when it has to
go on to the left. -/
def Findable (readVolList : List ReadVol) (volName : VolName) : Prop :=
  ∃ j vol, 1 ≤ j ∧ readVolList[j - 1]? = some vol ∧ vol.volName = volName ∧
    ∀ m ∈ probes 1 readVolList.length j, ∀ other, readVolList[m - 1]? = some other →
      (m < j → strcmp volName other.volName ≠ .lt) ∧ (j < m → strcmp volName other.volName ≠ .gt)

theorem isReadVolume_iff (volName : VolName) (list : List ReadVol) :
    isReadVolume volName list = true ↔ Findable list volName := by
  unfold isReadVolume Findable
  rw [binarySearch_isSome_iff]
  have compared : ∀ m other, list[m - 1]? = some other →
      compAt (nameCompare volName) list m = strcmp volName other.volName := by
    intro m other at_m
    simp only [compAt, at_m, nameCompare]
  constructor
  · rintro ⟨j, vol, oneJ, at_j, hit, leads⟩
    refine ⟨j, vol, oneJ, at_j, (Std.LawfulEqCmp.eq_of_compare hit).symm, ?_⟩
    intro m hm other at_m
    rw [← compared m other at_m]
    exact leads m hm
  · rintro ⟨j, vol, oneJ, at_j, rfl, leads⟩
    refine ⟨j, vol, oneJ, at_j, Std.ReflCmp.compare_self, ?_⟩
    intro m hm
    have inside : m - 1 < list.length := by
      have := probes_bounds hm
      omega
    have at_m := List.getElem?_eq_getElem inside
    rw [compared m _ at_m]
    exact leads m hm _ at_m

theorem findReadVolume_isSome (volName : VolName) (list : List ReadVol) :
    (findReadVolume volName list).isSome = isReadVolume volName list := by
  unfold findReadVolume isReadVolume
  by_cases empty : list.isEmpty
  · rw [if_pos empty, List.isEmpty_iff.mp empty]
    rfl
  · rw [if_neg empty]

/-- An entry found by name has the name. -/
theorem registered_of_isReadVolume {history : List ReadCall} {volName : VolName}
    (found : isReadVolume volName (readVolList history) = true) :
    RegisteredForReading history volName := by
  obtain ⟨j, vol, -, at_j, rfl, -⟩ := (isReadVolume_iff _ _).mp found
  exact ⟨vol.jobId, ((readVolList_represents history).mem_iff vol).mp (List.mem_of_getElem? at_j)⟩

end Bacula.VolMgr
