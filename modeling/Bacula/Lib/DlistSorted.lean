import Bacula.Lib.DlistLinks
import Bacula.Library.Transition

/-! Sorted lists, as `binary_insert` and `remove` build them. -/
namespace Bacula.Dlist.State
open Transition

variable {ι : Type}

/-- The items that one meets from the head on. -/
def items (l : State ι) : List ι := (List.range l.numItems).filterMap fun i => l.next^[i] l.head

theorem filterMap_range_length (xs : List ι) :
    (List.range xs.length).filterMap (fun i => xs[i]?) = xs := by
  induction xs with
  | nil => rfl
  | cons x xs ih =>
      rw [List.length_cons, List.range_succ_eq_map,
        List.filterMap_cons_some (show (x :: xs)[0]? = some x from rfl), List.filterMap_map]
      exact congrArg (x :: ·) ih

theorem Represents.items {l : State ι} {xs : List ι} (rep : l.Represents xs) : l.items = xs := by
  have walked (i : ℕ) (inside : i ∈ List.range xs.length) : l.next^[i] l.head = xs[i]? := by
    rw [rep.head, List.head?_eq_getElem?, rep.next_iterate (k := 0)
      (by rw [Nat.zero_add]; exact le_of_lt (List.mem_range.mp inside)), Nat.zero_add]
  rw [State.items, rep.numItems, List.filterMap_congr walked]
  exact filterMap_range_length xs

/-- A call for one comparator. -/
inductive Op (ι : Type) where
  | binaryInsert (item : ι)
  | remove (item : ι)
  | binarySearch (item : ι)

/-- The links are those of the items, which are strictly ascending. -/
structure Sound (compare : ι → ι → Ordering) (l : State ι) : Prop where
  represents : l.Represents l.items
  sorted : Sorted compare l.items

/-- What a call of `binary_search` does: an equal item is found, if and only if there is one. -/
def Searches (compare : ι → ι → Ordering) (l : State ι) (item : ι) : Prop :=
  ∃ result, l.binarySearch compare item = some result ∧
    (∀ x, result = some x → x ∈ l.items ∧ compare item x = .eq) ∧
    (result.isSome ↔ ∃ x ∈ l.items, compare item x = .eq)

section Sorted

variable {compare : ι → ι → Ordering}

theorem Represents.sound {l : State ι} {xs : List ι} (rep : l.Represents xs)
    (sorted : Sorted compare xs) : l.Sound compare := by
  have same := rep.items
  exact ⟨by rwa [same], by rwa [same]⟩

variable [Std.TransCmp compare]

theorem Sound.searches {l : State ι} (sound : l.Sound compare) (item : ι) :
    l.Searches compare item := by
  refine ⟨_, sound.represents.binarySearch compare item, fun x found => ?_, fun found => ?_, ?_⟩
  · exact binarySearch_eq_some found
  · obtain ⟨x, found⟩ := Option.isSome_iff_exists.mp found
    exact ⟨x, binarySearch_eq_some found⟩
  · rintro ⟨x, member, hit⟩
    exact sound.sorted.binarySearch_isSome member hit

end Sorted

variable [DecidableEq ι]

/-- The list after a call; a fault gives no list. -/
def Step (compare : ι → ι → Ordering) (l : State ι) : Op ι → State ι → Prop
  | .binaryInsert item, l' => ∃ result, l.binaryInsert compare item = some (result, l')
  | .remove item, l' => l.remove item = some l'
  | .binarySearch item, l' => l' = l ∧ ∃ result, l.binarySearch compare item = some result

/-- Only an item of the list is removed. -/
def Allowed (l : State ι) : Op ι → Prop
  | .remove item => item ∈ l.items
  | _ => True

/-- What a call of `binary_insert` does: an equal item is returned, and nothing changes, or the
new item is linked in between the smaller and the larger ones. -/
def InsertsOnce (compare : ι → ι → Ordering) (l : State ι) (item : ι) : Prop :=
  ∃ result l', l.binaryInsert compare item = some (result, l') ∧
    ((result ∈ l.items ∧ compare item result = .eq ∧ l' = l) ∨
      (result = item ∧ (∀ x ∈ l.items, compare item x ≠ .eq) ∧ l'.Sound compare ∧
        ∃ pre post, l.items = pre ++ post ∧ l'.items = pre ++ item :: post))

/-- What a call of `remove` does to an item of the list. -/
def RemovesOne (compare : ι → ι → Ordering) (l : State ι) (item : ι) : Prop :=
  ∃ l', l.remove item = some l' ∧ l'.Sound compare ∧ l'.items = l.items.erase item

variable {compare : ι → ι → Ordering}

theorem Sound.removes {l : State ι} (sound : l.Sound compare) {item : ι}
    (member : item ∈ l.items) : l.RemovesOne compare item := by
  obtain ⟨pre, post, -, parts, erased⟩ := List.exists_erase_eq member
  have rep := sound.represents
  rw [parts] at rep
  obtain ⟨l', called, rep', -⟩ := rep.remove
  rw [← erased] at rep'
  exact ⟨l', called, rep'.sound (sound.sorted.remove item), rep'.items⟩

variable [Std.TransCmp compare]

theorem Sound.inserts {l : State ι} (sound : l.Sound compare) (item : ι) :
    l.InsertsOnce compare item := by
  obtain ⟨result, l', called, outcome⟩ := sound.represents.binaryInsert compare item
  refine ⟨result, l', called, ?_⟩
  rcases sound.sorted.binaryInsert_cases item with
    ⟨y, member, hit, same⟩ | ⟨pre, post, parts, small, large, inserted⟩
  · rw [same] at outcome
    obtain ⟨rfl, rfl⟩ := outcome
    exact Or.inl ⟨member, hit, rfl⟩
  · have sorted := sound.sorted.binaryInsert item
    rw [inserted] at outcome sorted
    obtain ⟨rfl, represents⟩ := outcome
    have other : ∀ x ∈ l.items, compare result x ≠ .eq := by
      intro x member
      rw [parts] at member
      rcases List.mem_append.mp member with before | behind
      · rw [Std.OrientedCmp.gt_iff_lt.mpr (small x before)]
        decide
      · rw [large x behind]
        decide
    have fresh : result ∉ l.items := fun member => other result member Std.ReflCmp.compare_self
    have rep := represents fresh
    exact Or.inr ⟨rfl, other, rep.sound sorted, pre, post, parts, rep.items⟩

theorem Sound.step {l l' : State ι} {op : Op ι} (sound : l.Sound compare)
    (step : Guarded (Step compare) Allowed l op l') : l'.Sound compare := by
  obtain ⟨allowed, step⟩ := step
  cases op with
  | binaryInsert item =>
      obtain ⟨result, called⟩ := step
      obtain ⟨result', l'', called', ⟨-, -, rfl⟩ | ⟨-, -, sound', -⟩⟩ := sound.inserts item
      · cases called.symm.trans called'
        exact sound
      · cases called.symm.trans called'
        exact sound'
  | remove item =>
      obtain ⟨l'', called, sound', -⟩ := sound.removes allowed
      cases Option.some.inj (step.symm.trans called)
      exact sound'
  | binarySearch item =>
      rw [step.1]
      exact sound

/-- After every sequence of calls on an empty list, the list is sorted and its links are those
of its items; and the next call does what it should. -/
theorem run_sound (link : ι → Dlink ι) {ops : List (Op ι)} {l : State ι}
    (run : Run (Guarded (Step compare) Allowed) (init link) ops l) :
    l.Sound compare ∧ (∀ item, l.InsertsOnce compare item) ∧
      (∀ item ∈ l.items, l.RemovesOne compare item) ∧ ∀ item, l.Searches compare item := by
  have empty : (init link).Represents [] := ⟨⟨rfl, rfl⟩, List.nodup_nil, rfl⟩
  have sound := run.invariant (fun s a s' inv step => Sound.step inv step)
    (empty.sound List.Pairwise.nil)
  exact ⟨sound, sound.inserts, fun item member => sound.removes member, sound.searches⟩

theorem run_sound_two : ∃ ops l, Run (Guarded (Step (Ord.compare : ℕ → ℕ → Ordering)) Allowed)
      (init fun _ => ⟨none, none⟩) ops l ∧ l.items = [1, 3] ∧ l.Sound Ord.compare := by
  let one := (init fun _ : ℕ => ⟨none, none⟩).append 3
  let two := one.prepend 1
  have run : Run (Guarded (Step Ord.compare) Allowed) (init fun _ => ⟨none, none⟩)
      [.binaryInsert 3, .binaryInsert 1] two :=
    .cons ⟨trivial, 3, rfl⟩ (.cons ⟨trivial, 1, rfl⟩ (.nil _))
  exact ⟨_, two, run, by decide, (run_sound _ run).1⟩

end Bacula.Dlist.State
