import Bacula.Library.Bisection

/-! The searching operations of `lib/dlist.c`. A doubly linked list is the list of its
items from head to tail; the links are not modelled. -/
namespace Bacula.Dlist
open Bisection

variable {α : Type}

/-- `compare(item, cur_item)` for the item at a position; the first position is 1. -/
def compAt (comp : α → Ordering) (xs : List α) (cur : ℕ) : Ordering :=
  match xs[cur - 1]? with
  | some x => comp x
  | none => .lt

/-- `dlist::binary_search`, where `comp` is the comparison of the wanted item with an
item of the list. -/
def binarySearch (comp : α → Ordering) : List α → Option α
  | [] => none
  | [x] => if comp x = .eq then some x else none
  | x :: y :: rest =>
      let xs := x :: y :: rest
      match settle (compAt comp xs) (search (compAt comp xs) 1 xs.length 1) with
      | some cur => xs[cur - 1]?
      | none => none

/-- `dlist::binary_insert`: the list afterwards, and the item that compares equal when
there is one (it is returned in the place of the new item, which is not inserted). -/
def binaryInsert (compare : α → α → Ordering) (item : α) : List α → List α × Option α
  | [] => ([item], none)
  | [x] =>
      match compare item x with
      | .lt => ([item, x], none)
      | .gt => ([x, item], none)
      | .eq => ([x], some x)
  | x :: y :: rest =>
      let xs := x :: y :: rest
      let last := (y :: rest).getLast (List.cons_ne_nil y rest)
      match compare item last with
      | .gt => (xs ++ [item], none)
      | .eq => (xs, some last)
      | .lt =>
        match compare item x with
        | .lt => (item :: xs, none)
        | .eq => (xs, some x)
        | .gt =>
          if xs.length = 2 then (xs.insertIdx 1 item, none)
          else match search (compAt (compare item) xs) 1 xs.length 1 with
            | .found cur => (xs, xs[cur - 1]?)
            | .stopped _ high cur =>
                if high = cur then (xs.insertIdx (cur - 1) item, none)
                else (xs.insertIdx cur item, none)

/-- `dlist::remove`. -/
def remove [DecidableEq α] (xs : List α) (item : α) : List α := xs.erase item

theorem compAt_eq_iff (comp : α → Ordering) (xs : List α) {p : ℕ} (h : 1 ≤ p ∧ p ≤ xs.length) :
    ∃ x, xs[p - 1]? = some x ∧ x ∈ xs ∧ compAt comp xs p = comp x := by
  have inside : p - 1 < xs.length := by omega
  refine ⟨xs[p - 1], List.getElem?_eq_getElem inside, List.getElem_mem inside, ?_⟩
  simp [compAt, List.getElem?_eq_getElem inside]

/-- `binary_search` in any list: it succeeds when the comparisons lead to some item that
compares equal. -/
theorem binarySearch_isSome_iff (comp : α → Ordering) (xs : List α) :
    (binarySearch comp xs).isSome ↔
      ∃ j x, 1 ≤ j ∧ xs[j - 1]? = some x ∧ comp x = .eq ∧
        Leads (compAt comp xs) 1 xs.length j := by
  match xs with
  | [] => simp [binarySearch]
  | [x] =>
      have leads : Leads (compAt comp [x]) 1 [x].length 1 := by
        intro m hm
        simp [probes] at hm
      constructor
      · intro found
        have hit : comp x = .eq := by by_contra no; simp [binarySearch, no] at found
        exact ⟨1, x, le_refl 1, rfl, hit, leads⟩
      · rintro ⟨j, z, -, at_j, hit, -⟩
        have : z = x := by simpa using List.mem_of_getElem? at_j
        rw [this] at hit
        simp [binarySearch, hit]
  | x :: y :: rest =>
      have long : 1 < (x :: y :: rest).length := by simp
      have reached := settle_search_isSome_iff (compAt comp (x :: y :: rest)) 1 _ 1 long
      have same : (binarySearch comp (x :: y :: rest)).isSome ↔
          (settle (compAt comp (x :: y :: rest)) (search (compAt comp (x :: y :: rest)) 1
            (x :: y :: rest).length 1)).isSome := by
        simp only [binarySearch]
        cases result : settle (compAt comp (x :: y :: rest)) (search (compAt comp (x :: y :: rest)) 1
            (x :: y :: rest).length 1) with
        | none => simp
        | some cur =>
            have inside := settle_search_eq_some long result
            have : cur - 1 < (x :: y :: rest).length := by omega
            simp only [List.getElem?_eq_getElem this, Option.isSome_some]
      rw [same, reached]
      constructor
      · rintro ⟨j, oneJ, jLength, hit, leads⟩
        obtain ⟨z, at_j, -, value⟩ := compAt_eq_iff comp _ ⟨oneJ, jLength⟩
        exact ⟨j, z, oneJ, at_j, value ▸ hit, leads⟩
      · rintro ⟨j, z, oneJ, at_j, hit, leads⟩
        obtain ⟨inside, -⟩ := List.getElem?_eq_some_iff.mp at_j
        exact ⟨j, oneJ, by omega, by simpa only [compAt, at_j] using hit, leads⟩

theorem binarySearch_eq_some {comp : α → Ordering} {xs : List α} {x : α}
    (found : binarySearch comp xs = some x) : x ∈ xs ∧ comp x = .eq := by
  match xs with
  | [] => simp [binarySearch] at found
  | [y] =>
      simp only [binarySearch] at found
      split at found
      · cases found
        exact ⟨by simp, ‹_›⟩
      · cases found
  | y :: z :: rest =>
      simp only [binarySearch] at found
      split at found
      · rename_i cur result
        have inside := settle_search_eq_some (by simp) result
        obtain ⟨w, at_cur, member, value⟩ := compAt_eq_iff comp _ ⟨inside.1, inside.2.1⟩
        rw [at_cur, Option.some_inj] at found
        subst found
        exact ⟨member, value ▸ inside.2.2⟩
      · cases found

theorem insertIdx_eq_take_drop {xs : List α} {k : ℕ} {item : α} (h : k ≤ xs.length) :
    xs.insertIdx k item = xs.take k ++ item :: xs.drop k := by
  induction xs generalizing k with
  | nil =>
      obtain rfl : k = 0 := Nat.le_zero.mp h
      rfl
  | cons x xs ih =>
      cases k with
      | zero => rfl
      | succ k => simp [List.insertIdx_succ_cons, ih (Nat.le_of_succ_le_succ h)]

section Sorted
variable (compare : α → α → Ordering)

/-- Strictly ascending, so no two items compare equal. -/
def Sorted (xs : List α) : Prop := xs.Pairwise fun a b => compare a b = .lt

variable [Std.TransCmp compare] {compare}

theorem Sorted.ascending {xs : List α} (sorted : Sorted compare xs) (item : α) :
    Ascending (compAt (compare item) xs) xs.length := by
  have order : ∀ {i j}, 1 ≤ i → i < j → j ≤ xs.length → ∃ x y, compare x y = .lt ∧
      compAt (compare item) xs i = compare item x ∧ compAt (compare item) xs j = compare item y := by
    intro i j oneI iJ jLength
    obtain ⟨x, at_i, -, valueX⟩ := compAt_eq_iff (compare item) xs (p := i) (by omega)
    obtain ⟨y, at_j, -, valueY⟩ := compAt_eq_iff (compare item) xs (p := j) (by omega)
    obtain ⟨hi, rfl⟩ := List.getElem?_eq_some_iff.mp at_i
    obtain ⟨hj, rfl⟩ := List.getElem?_eq_some_iff.mp at_j
    exact ⟨_, _, List.pairwise_iff_getElem.mp sorted _ _ hi hj (by omega), valueX, valueY⟩
  constructor
  · intro i j oneI iJ jLength notGt
    obtain ⟨x, y, xy, valueX, valueY⟩ := order oneI iJ jLength
    rw [valueX] at notGt
    rw [valueY]
    have notLt : compare item x = .lt ∨ compare item x = .eq := by
      cases h : compare item x with
      | lt => exact Or.inl rfl
      | eq => exact Or.inr rfl
      | gt => exact absurd h notGt
    rcases notLt with lt | eq
    · exact Std.TransCmp.lt_trans lt xy
    · exact (Std.TransCmp.congr_left eq).trans xy
  · intro i j oneI iJ jLength notLt
    obtain ⟨x, y, xy, valueX, valueY⟩ := order oneI iJ jLength
    rw [valueY] at notLt
    rw [valueX, Std.OrientedCmp.gt_iff_lt]
    have : compare y item = .lt ∨ compare item y = .eq := by
      cases h : compare item y with
      | lt => exact absurd h notLt
      | eq => exact Or.inr rfl
      | gt => exact Or.inl (Std.OrientedCmp.gt_iff_lt.mp h)
    rcases this with lt | eq
    · exact Std.TransCmp.lt_trans xy lt
    · exact (Std.TransCmp.congr_right eq).trans xy

/-- In a sorted list `binary_search` finds what is there. -/
theorem Sorted.binarySearch_isSome {xs : List α} (sorted : Sorted compare xs) {item x : α}
    (member : x ∈ xs) (hit : compare item x = .eq) :
    (binarySearch (compare item) xs).isSome := by
  obtain ⟨i, inside, rfl⟩ := List.mem_iff_getElem.mp member
  have at_i : xs[i + 1 - 1]? = some xs[i] := by simp
  rw [binarySearch_isSome_iff]
  refine ⟨i + 1, xs[i], by omega, at_i, hit, ?_⟩
  apply (sorted.ascending item).leads (le_refl 1) (le_refl _) (by omega)
  simpa only [compAt, at_i] using hit

theorem Sorted.split (xs : List α) {item : α} {k : ℕ}
    (below : ∀ p, 1 ≤ p → p ≤ k → compAt (compare item) xs p = .gt)
    (above : ∀ p, k < p → p ≤ xs.length → compAt (compare item) xs p = .lt) :
    (∀ a ∈ xs.take k, compare a item = .lt) ∧ ∀ b ∈ xs.drop k, compare item b = .lt := by
  constructor
  · intro a ha
    obtain ⟨i, hi, rfl⟩ := List.mem_take_iff_getElem.mp ha
    have here := below (i + 1) (by omega) (by omega)
    have at_i : xs[i + 1 - 1]? = some xs[i] := by simp
    simp only [compAt, at_i] at here
    exact Std.OrientedCmp.gt_iff_lt.mp here
  · intro b hb
    obtain ⟨i, hi, rfl⟩ := List.mem_drop_iff_getElem.mp hb
    have here := above (k + i + 1) (by omega) (by omega)
    have at_i : xs[k + i + 1 - 1]? = some xs[k + i] := by simp
    simpa only [compAt, at_i] using here

/-- `binary_insert` in a sorted list: an equal item is returned, or the new item stands
between the smaller and the larger ones. -/
theorem Sorted.binaryInsert_cases {xs : List α} (sorted : Sorted compare xs) (item : α) :
    (∃ y ∈ xs, compare item y = .eq ∧ binaryInsert compare item xs = (xs, some y)) ∨
    (∃ pre post, xs = pre ++ post ∧ (∀ a ∈ pre, compare a item = .lt) ∧
      (∀ b ∈ post, compare item b = .lt) ∧
      binaryInsert compare item xs = (pre ++ item :: post, none)) := by
  match xs with
  | [] => exact Or.inr ⟨[], [], rfl, by simp, by simp, rfl⟩
  | [x] =>
      cases h : compare item x with
      | lt => exact Or.inr ⟨[], [x], rfl, by simp, by simp [h], by simp [binaryInsert, h]⟩
      | eq => exact Or.inl ⟨x, by simp, h, by simp [binaryInsert, h]⟩
      | gt =>
          have h' : compare x item = .lt := Std.OrientedCmp.gt_iff_lt.mp h
          exact Or.inr ⟨[x], [], rfl, by simp [h'], by simp, by simp [binaryInsert, h]⟩
  | x :: y :: rest =>
      have asc := sorted.ascending item
      have atFirst : compAt (compare item) (x :: y :: rest) 1 = compare item x := rfl
      have atLast : compAt (compare item) (x :: y :: rest) (x :: y :: rest).length =
          compare item ((y :: rest).getLast (List.cons_ne_nil y rest)) := by
        simp [compAt, List.getLast_eq_getElem]
      have memLast : (y :: rest).getLast (List.cons_ne_nil y rest) ∈ x :: y :: rest :=
        List.mem_cons_of_mem x (List.getLast_mem _)
      -- an insertion before position `k + 1`
      have between : ∀ k, k ≤ (x :: y :: rest).length →
          (∀ p, 1 ≤ p → p ≤ k → compAt (compare item) (x :: y :: rest) p = .gt) →
          (∀ p, k < p → p ≤ (x :: y :: rest).length →
            compAt (compare item) (x :: y :: rest) p = .lt) →
          binaryInsert compare item (x :: y :: rest) =
            ((x :: y :: rest).insertIdx k item, none) →
          ∃ pre post, x :: y :: rest = pre ++ post ∧ (∀ a ∈ pre, compare a item = .lt) ∧
            (∀ b ∈ post, compare item b = .lt) ∧
            binaryInsert compare item (x :: y :: rest) = (pre ++ item :: post, none) := by
        intro k inside below above result
        obtain ⟨small, large⟩ := Sorted.split _ below above
        refine ⟨_, _, (List.take_append_drop k _).symm, small, large, ?_⟩
        rw [result, insertIdx_eq_take_drop inside]
      cases hlast : compare item ((y :: rest).getLast (List.cons_ne_nil y rest)) with
      | gt =>
          right
          apply between (x :: y :: rest).length (le_refl _)
          · intro p oneP pLength
            by_cases here : p = (x :: y :: rest).length
            · rw [here, atLast, hlast]
            · exact asc.gt_of_gt oneP (by omega) (le_refl _) (by rw [atLast, hlast]; decide)
          · intro p after inside
            omega
          · simp only [binaryInsert, hlast]
            rw [List.insertIdx_length_self]
      | eq => exact Or.inl ⟨_, memLast, hlast, by simp only [binaryInsert, hlast]⟩
      | lt =>
          cases hfirst : compare item x with
          | lt =>
              right
              apply between 0 (Nat.zero_le _)
              · intro p oneP pZero
                omega
              · intro p positive inside
                by_cases here : p = 1
                · rw [here, atFirst, hfirst]
                · exact asc.lt_of_lt (le_refl 1) (by omega) inside (by rw [atFirst, hfirst]; decide)
              · simp only [binaryInsert, hlast, hfirst, List.insertIdx_zero]
          | eq => exact Or.inl ⟨x, by simp, hfirst, by simp only [binaryInsert, hlast, hfirst]⟩
          | gt =>
              by_cases two : (x :: y :: rest).length = 2
              · right
                apply between 1 (by omega)
                · intro p oneP pOne
                  rw [show p = 1 by omega, atFirst, hfirst]
                · intro p after inside
                  rw [show p = (x :: y :: rest).length by omega, atLast, hlast]
                · simp only [binaryInsert, hlast, hfirst, two, if_true]
              · cases result : search (compAt (compare item) (x :: y :: rest)) 1
                    (x :: y :: rest).length 1 with
                | found cur =>
                    left
                    have settled : settle (compAt (compare item) (x :: y :: rest))
                        (search (compAt (compare item) (x :: y :: rest)) 1
                          (x :: y :: rest).length 1) = some cur := by rw [result]; rfl
                    have inside := settle_search_eq_some (by simp) settled
                    obtain ⟨z, at_cur, member, value⟩ :=
                      compAt_eq_iff (compare item) _ ⟨inside.1, inside.2.1⟩
                    refine ⟨z, member, value ▸ inside.2.2, ?_⟩
                    simp only [binaryInsert, hlast, hfirst, two, if_false, result, at_cur]
                | stopped low high cur =>
                    right
                    obtain ⟨meet, oneLow, lowLength, curCases, below, above⟩ :=
                      asc.search_stopped (by simp) (by intros; omega)
                        (by
                          intro p lengthP pLength
                          rw [show p = (x :: y :: rest).length by omega, atLast, hlast])
                        result
                    apply between (low - 1) (by omega)
                    · intro p oneP pLow
                      exact below p oneP (by omega)
                    · intro p after inside
                      exact above p (by omega) inside
                    · simp only [binaryInsert, hlast, hfirst, two, if_false, result]
                      by_cases before : high = cur
                      · rw [if_pos before, ← before, ← meet]
                      · rw [if_neg before, show cur = low - 1 by omega]

theorem Sorted.binaryInsert {xs : List α} (sorted : Sorted compare xs) (item : α) :
    Sorted compare (Dlist.binaryInsert compare item xs).1 := by
  rcases sorted.binaryInsert_cases item
    with ⟨y, -, -, same⟩ | ⟨pre, post, parts, small, large, inserted⟩
  · rw [same]
    exact sorted
  · rw [inserted]
    rw [parts] at sorted
    obtain ⟨sortedPre, sortedPost, across⟩ := List.pairwise_append.mp sorted
    apply List.pairwise_append.mpr
    refine ⟨sortedPre, List.pairwise_cons.mpr ⟨large, sortedPost⟩, ?_⟩
    intro a ha b hb
    rcases List.mem_cons.mp hb with rfl | hb
    · exact small a ha
    · exact across a ha b hb

theorem Sorted.eq_of_compare {xs : List α} (sorted : Sorted compare xs) {a b : α} (ha : a ∈ xs)
    (hb : b ∈ xs) (same : compare a b = .eq) : a = b := by
  obtain ⟨i, hi, rfl⟩ := List.mem_iff_getElem.mp ha
  obtain ⟨j, hj, rfl⟩ := List.mem_iff_getElem.mp hb
  rcases Nat.lt_trichotomy i j with less | rfl | more
  · rw [List.pairwise_iff_getElem.mp sorted i j hi hj less] at same
    cases same
  · rfl
  · rw [Std.OrientedCmp.gt_iff_lt.mpr (List.pairwise_iff_getElem.mp sorted j i hj hi more)] at same
    cases same

omit [Std.TransCmp compare] in
theorem Sorted.remove [DecidableEq α] {xs : List α} (sorted : Sorted compare xs) (item : α) :
    Sorted compare (Dlist.remove xs item) :=
  sorted.sublist List.erase_sublist

theorem Sorted.nodup {xs : List α} (sorted : Sorted compare xs) : xs.Nodup := by
  apply List.Pairwise.imp _ sorted
  rintro a b ab rfl
  have self : compare a a = .eq := Std.ReflCmp.compare_self
  rw [self] at ab
  cases ab

theorem Sorted.mem_remove_iff [DecidableEq α] {xs : List α} (sorted : Sorted compare xs)
    (item x : α) : x ∈ Dlist.remove xs item ↔ x ≠ item ∧ x ∈ xs :=
  sorted.nodup.mem_erase_iff

end Sorted

end Bacula.Dlist
