import Bacula.Lib.RblistDestroy

/-! Runs of a list on its pointers. In any order the calls are those on a sorted list of items, and
`destroy` frees each of these items once. -/
namespace Bacula.Rblist
open Zipper Zipper.BinTree

variable {ι : Type}

inductive Call (ι : Type) where
  | insert (item : ι)
  | search (item : ι)
  | foreach

inductive Answer (ι : Type) where
  | item (found : Option ι)
  | items (all : List ι)

section Spec

variable (compare : ι → ι → Ordering)

/-- The item that compares equal. -/
def lookup (item : ι) (all : List ι) : Option ι := all.find? fun x => compare item x = .eq

/-- The calls on a sorted list of items. -/
def Call.answer (all : List ι) : Call ι → Answer ι × List ι
  | .insert item =>
      match lookup compare item all with
      | some found => (.item found, all)
      | none => (.item item, all.orderedInsert (fun a b => compare a b = .lt) item)
  | .search item => (.item (lookup compare item all), all)
  | .foreach => (.items all, all)

def answers : List (Call ι) → List ι → List (Answer ι) × List ι
  | [], all => ([], all)
  | call :: calls, all =>
      let (first, all) := call.answer compare all
      let (rest, all) := answers calls all
      (first :: rest, all)

end Spec

section Code

variable [DecidableEq ι]

def State.call (rounds : ℕ) (compare : ι → ι → Ordering) (s : State ι) :
    Call ι → Option (Answer ι × State ι)
  | .insert item => (s.insert rounds compare item).map fun (found, s) => (.item found, s)
  | .search item => (s.search rounds compare item).map fun found => (.item found, s)
  | .foreach => (s.foreach rounds).map fun (all, s) => (.items all, s)

def State.run (rounds : ℕ) (compare : ι → ι → Ordering) :
    List (Call ι) → State ι → Option (List (Answer ι) × State ι)
  | [], s => some ([], s)
  | call :: calls, s => do
      let (first, s) ← s.call rounds compare call
      let (rest, s) ← run rounds compare calls s
      some (first :: rest, s)

end Code

section Refine

variable {compare : ι → ι → Ordering} [Std.TransCmp compare]

theorem lookup_of_search {t : Rblist ι} (sorted : Sorted compare t) {item : ι}
    {place : Place (Linked ι)} (found : Rblist.search compare item t = some place) :
    lookup compare item (items t) = some place.item.item := by
  obtain ⟨rfl, equal⟩ := search_eq_some found
  rw [lookup, items_place, List.find?_eq_some_iff_append]
  refine ⟨by simpa using equal, _, _, rfl, ?_⟩
  intro a before
  have smaller : compare a place.item.item = .lt := by
    rw [Sorted, items_place] at sorted
    exact (List.pairwise_append.mp sorted).2.2 a before _ List.mem_cons_self
  have greater : compare item a = .gt :=
    Std.OrientedCmp.gt_iff_lt.mpr (Std.TransCmp.lt_of_lt_of_eq smaller (Std.OrientedCmp.eq_symm equal))
  simp [greater]

theorem lookup_none {item : ι} {pre post : List ι} (small : ∀ a ∈ pre, compare a item = .lt)
    (large : ∀ b ∈ post, compare item b = .lt) : lookup compare item (pre ++ post) = none := by
  rw [lookup, List.find?_eq_none]
  intro a inside
  rcases List.mem_append.mp inside with before | after
  · have greater : compare item a = .gt := Std.OrientedCmp.gt_iff_lt.mpr (small a before)
    simp [greater]
  · simp [large a after]

theorem orderedInsert_between {item : ι} {pre post : List ι} (small : ∀ a ∈ pre, compare a item = .lt)
    (large : ∀ b ∈ post, compare item b = .lt) :
    (pre ++ post).orderedInsert (fun a b => compare a b = .lt) item = pre ++ item :: post := by
  induction pre with
  | nil =>
      cases post with
      | nil => rfl
      | cons b post => simp [large b List.mem_cons_self]
  | cons a pre ih =>
      have greater : compare item a = .gt := Std.OrientedCmp.gt_iff_lt.mpr (small a List.mem_cons_self)
      simp [greater, ih fun a inside => small a (List.mem_cons_of_mem _ inside)]

variable [DecidableEq ι]

theorem insert_refines {s : State ι} {t : Rblist ι} (stored : Stored s t)
    (sorted : Sorted compare t) {rounds : ℕ} (enough : (items t).length < rounds)
    (room : (items t).length + 1 < 2 ^ 32) (item : ι) :
    ∃ s' u, s.call rounds compare (.insert item) =
      some (((Call.insert item).answer compare (items t)).1, s') ∧
      Stored s' u ∧ Sorted compare u ∧ items u = ((Call.insert item).answer compare (items t)).2 := by
  rcases sorted.search_cases item
    with ⟨place, found⟩ | ⟨u, pre, post, absent, inserted, old, now, small, large⟩
  · have present := lookup_of_search sorted found
    have done := insert_found stored compare item enough.le found
    refine ⟨s, t, ?_, stored, sorted, ?_⟩
    · simp [State.call, done, Call.answer, present]
    · simp [Call.answer, present]
  · have none : lookup compare item (items t) = none := by
      rw [old]
      exact lookup_none small large
    have outside : item ∉ items t := by
      intro inside
      have isSome := (sorted.search_isSome_iff item).mpr ⟨item, inside, Std.ReflCmp.compare_self⟩
      rw [absent] at isSome
      cases isSome
    rcases descend_cases compare item t [] with ⟨place, result, -⟩ | ⟨up, result, same⟩
    · rw [Rblist.search, result] at absent
      cases absent
    · obtain ⟨u', s', insertedU, done, stored'⟩ :=
        insert_leaf stored compare item enough room outside result same
      rw [inserted] at insertedU
      cases insertedU
      refine ⟨s', u, ?_, stored', sorted.insert inserted, ?_⟩
      · simp [State.call, done, Call.answer, none]
      · simp only [Call.answer, none]
        rw [old, now, orderedInsert_between small large]

/-- One call on the pointers is the call on the list of items. -/
theorem call_refines {s : State ι} {t : Rblist ι} (stored : Stored s t) (sorted : Sorted compare t)
    {rounds : ℕ} (enough : (items t).length < rounds) (room : (items t).length + 1 < 2 ^ 32)
    (call : Call ι) :
    ∃ s' u, s.call rounds compare call = some ((call.answer compare (items t)).1, s') ∧ Stored s' u ∧
      Sorted compare u ∧ items u = (call.answer compare (items t)).2 := by
  cases call with
  | insert item => exact insert_refines stored sorted enough room item
  | search item =>
      have done := search_spec stored.holds compare item enough.le
      refine ⟨s, t, ?_, stored, sorted, rfl⟩
      rcases sorted.search_cases item
        with ⟨place, found⟩ | ⟨u, pre, post, absent, -, old, -, small, large⟩
      · simp [State.call, done, found, Call.answer, lookup_of_search sorted found]
      · have none : lookup compare item (items t) = none := by
          rw [old]
          exact lookup_none small large
        simp [State.call, done, absent, Call.answer, none]
  | foreach =>
      obtain ⟨down, done⟩ := foreach_spec stored.holds enough.le
      refine ⟨{ s with down }, t, ?_, ⟨stored.holds.congr rfl rfl, stored.count, stored.black⟩,
        sorted, rfl⟩
      simp [State.call, done, Call.answer]

omit [DecidableEq ι] [Std.TransCmp compare] in
theorem answer_length (all : List ι) (call : Call ι) :
    (call.answer compare all).2.length ≤ all.length + 1 := by
  cases call with
  | insert item =>
      unfold Call.answer
      dsimp only
      split
      · exact Nat.le_succ _
      · exact (List.orderedInsert_length _ _ _).le
  | search item => exact Nat.le_succ _
  | foreach => exact Nat.le_succ _

/-- A run on the pointers is the run on the list of items. -/
theorem calls_refine {s : State ι} {t : Rblist ι} (stored : Stored s t) (sorted : Sorted compare t)
    {rounds : ℕ} (calls : List (Call ι)) (enough : (items t).length + calls.length < rounds)
    (room : (items t).length + calls.length < 2 ^ 32) :
    ∃ s' u, s.run rounds compare calls = some ((answers compare calls (items t)).1, s') ∧ Stored s' u ∧
      items u = (answers compare calls (items t)).2 ∧
        (items u).length ≤ (items t).length + calls.length := by
  induction calls generalizing s t with
  | nil => exact ⟨s, t, rfl, stored, rfl, Nat.le_refl _⟩
  | cons call calls ih =>
      rw [List.length_cons] at enough room
      obtain ⟨s1, u, first, stored1, sorted1, now⟩ :=
        call_refines stored sorted (show _ < rounds by omega) (by omega) call
      have size : (call.answer compare (items t)).2.length ≤ (items t).length + 1 :=
        answer_length _ call
      rw [← now] at size
      obtain ⟨s', u', rest, stored', all, size'⟩ := ih stored1 sorted1 (by omega) (by omega)
      rw [now] at rest all
      refine ⟨s', u', ?_, stored', all, by rw [List.length_cons]; omega⟩
      simp only [State.run, Option.bind_eq_bind, first, Option.bind_some, rest, answers]

/-- A list from its creation to `destroy`: every call gives the answer of a sorted list of items, and
`destroy` frees exactly the items of this list. -/
theorem list_life {s : State ι} (empty : s.head = none) (noItems : s.numItems = 0)
    (allocated : ∀ z, (s.heap z).isSome) (calls : List (Call ι)) (few : calls.length < 2 ^ 32)
    {rounds : ℕ} (enough : 2 * calls.length < rounds) :
    ∃ s' s'', s.run rounds compare calls = some ((answers compare calls []).1, s') ∧
      s'.destroy rounds = some s'' ∧ s''.head = none ∧ s''.numItems = 0 ∧
      ∀ z, s''.heap z = none ↔ z ∈ (answers compare calls []).2 := by
  have stored : Stored s .nil := ⟨⟨empty, trivial, List.nodup_nil, allocated⟩, noItems, rfl⟩
  have sorted : Sorted compare (.nil : Rblist ι) := List.Pairwise.nil
  have size0 : (items (.nil : Rblist ι)).length = 0 := rfl
  obtain ⟨s', u, ran, stored', all, size⟩ :=
    calls_refine stored sorted calls (show _ < rounds by omega) (by omega)
  obtain ⟨s'', destroyed, head, numItems, freed, kept⟩ :=
    destroy_spec stored' (show _ < 2 ^ 32 by omega) (show _ < rounds by omega)
  refine ⟨s', s'', ran, destroyed, head, numItems, fun z => ?_⟩
  change _ ↔ z ∈ (answers compare calls (items .nil)).2
  rw [← all]
  constructor
  · intro gone
    by_contra outside
    have there := stored'.holds.allocated z
    rw [← kept z outside, gone] at there
    cases there
  · exact freed z

end Refine

/-- An empty list in a memory of links that nothing was written to. -/
def State.new : State ℕ := ⟨none, 0, true, fun _ => some ⟨none, none, none, false⟩⟩

theorem list_life_three : ∃ s' s'',
    State.new.run 9 Ord.compare [.insert 2, .insert 1, .search 2, .foreach] =
      some ([.item (some 2), .item (some 1), .item (some 2), .items [1, 2]], s') ∧
    s'.destroy 9 = some s'' ∧ s''.head = none ∧ s''.numItems = 0 ∧
    ∀ z, s''.heap z = none ↔ z ∈ [1, 2] :=
  list_life rfl rfl (fun _ => rfl) [.insert 2, .insert 1, .search 2, .foreach] (by decide) (by decide)

end Bacula.Rblist
