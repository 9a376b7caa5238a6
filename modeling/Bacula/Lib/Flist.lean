import Bacula.Library.Calls
import Bacula.Library.CircularArray

/-! The fifo list of `lib/flist.c`. The items are not NULL, and the memory of the array is not set
when it is allocated. -/
namespace Bacula
open CircularArray Function

structure Flist (α : Type) where
  items : ℕ → Option α
  numItems : ℕ
  maxItems : ℕ
  addItem : ℕ
  getItem : ℕ

namespace Flist

variable {α : Type}

/-- `init`, with what is in the memory before. -/
def init (num : ℕ) (junk : ℕ → Option α) : Flist α := ⟨junk, 0, num, 0, 0⟩

def empty (f : Flist α) : Bool := f.numItems = 0

def full (f : Flist α) : Bool := f.numItems = f.maxItems

def queue (f : Flist α) (item : α) : Bool × Flist α :=
  if f.numItems = f.maxItems then (false, f)
  else
    let addItem := f.addItem + 1
    (true, { f with
      numItems := f.numItems + 1
      items := update f.items f.addItem (some item)
      addItem := if addItem ≥ f.maxItems then 0 else addItem })

def dequeue (f : Flist α) : Option α × Flist α :=
  if f.numItems = 0 then (none, f)
  else
    let getItem := f.getItem + 1
    (f.items f.getItem, { f with
      numItems := f.numItems - 1
      items := update f.items f.getItem none
      getItem := if getItem ≥ f.maxItems then 0 else getItem })

/-- The items in the order of the list. -/
def contents (f : Flist α) : List α :=
  (window f.items f.maxItems f.getItem f.numItems).reduceOption

/-- The list is well formed and has these items. -/
structure Holds (f : Flist α) (xs : List α) : Prop where
  items : window f.items f.maxItems f.getItem f.numItems = xs.map some
  add : f.addItem = (f.getItem + f.numItems) % f.maxItems
  get : f.getItem % f.maxItems = f.getItem
  room : f.numItems ≤ f.maxItems

variable {f : Flist α} {xs : List α} {x : α}

theorem holds_init (num : ℕ) (junk : ℕ → Option α) : (init num junk).Holds [] :=
  ⟨rfl, (Nat.zero_mod num).symm, Nat.zero_mod num, Nat.zero_le num⟩

theorem Holds.contents (holds : f.Holds xs) : f.contents = xs := by
  rw [Flist.contents, holds.items]
  clear holds
  induction xs with
  | nil => rfl
  | cons x xs ih => rw [List.map_cons, List.reduceOption_cons_of_some, ih]

theorem Holds.length (holds : f.Holds xs) : xs.length = f.numItems := by
  rw [← List.length_map (f := some), ← holds.items, window_length]

theorem Holds.length_le (holds : f.Holds xs) : xs.length ≤ f.maxItems := by
  rw [holds.length]
  exact holds.room

theorem Holds.empty_eq (holds : f.Holds xs) : f.empty = xs.isEmpty := by
  rw [empty, ← holds.length]
  cases xs with
  | nil => rfl
  | cons x xs => simp

theorem Holds.full_eq (holds : f.Holds xs) : f.full = decide (xs.length = f.maxItems) := by
  rw [full, holds.length]

/-- An index is moved on, and back to the first cell behind the last one. -/
theorem wrap (index size : ℕ) (inside : index % size = index) (room : 0 < size) :
    (if index + 1 ≥ size then 0 else index + 1) = (index + 1) % size := by
  have below : index < size := inside ▸ Nat.mod_lt index room
  split
  case isTrue last =>
      have same : index + 1 = size := by omega
      rw [same, Nat.mod_self]
  case isFalse more => exact (Nat.mod_eq_of_lt (not_le.mp more)).symm

theorem Holds.queue_full (holds : f.Holds xs) (full : xs.length = f.maxItems) :
    f.queue x = (false, f) := by
  rw [queue, if_pos (holds.length ▸ full)]

theorem Holds.queue (holds : f.Holds xs) (room : xs.length < f.maxItems) (x : α) :
    (f.queue x).1 = true ∧ (f.queue x).2.Holds (xs ++ [x]) ∧ (f.queue x).2.maxItems = f.maxItems := by
  have length := holds.length
  have some : f.numItems < f.maxItems := length ▸ room
  have inside : f.addItem % f.maxItems = f.addItem := by rw [holds.add, Nat.mod_mod]
  rw [Flist.queue, if_neg some.ne]
  refine ⟨rfl, ⟨?_, ?_, holds.get, some⟩, rfl⟩
  · rw [holds.add, window_push some, holds.items, List.map_append]
    rfl
  · dsimp only
    rw [wrap f.addItem f.maxItems inside (Nat.zero_lt_of_lt some), holds.add, Nat.mod_add_mod,
      Nat.add_assoc]

theorem Holds.dequeue_nil (holds : f.Holds []) : f.dequeue = (none, f) := by
  have none : f.numItems = 0 := holds.length.symm
  rw [Flist.dequeue, if_pos none]

theorem Holds.dequeue (holds : f.Holds (x :: xs)) :
    f.dequeue.1 = some x ∧ f.dequeue.2.Holds xs ∧ f.dequeue.2.maxItems = f.maxItems := by
  have length := holds.length
  rw [List.length_cons] at length
  have room := holds.room
  have items := holds.items
  rw [← length, window_succ, List.map_cons, List.cons.injEq, holds.get] at items
  rw [Flist.dequeue, if_neg (by omega : f.numItems ≠ 0)]
  refine ⟨items.1, ⟨?_, ?_, ?_, ?_⟩, rfl⟩ <;> dsimp only
  · rw [wrap f.getItem f.maxItems holds.get (by omega), window_mod, ← length, Nat.add_sub_cancel]
    have clear : window (update f.items (f.getItem % f.maxItems) none) f.maxItems (f.getItem + 1)
        xs.length = window f.items f.maxItems (f.getItem + 1) xs.length := window_clear (by omega)
    rw [holds.get] at clear
    rw [clear, items.2]
  · rw [wrap f.getItem f.maxItems holds.get (by omega), holds.add, Nat.mod_add_mod]
    congr 1
    omega
  · rw [wrap f.getItem f.maxItems holds.get (by omega), Nat.mod_mod]
  · omega

/-! ## A bounded queue -/

inductive Call (α : Type) where
  | queue (item : α)
  | dequeue

inductive Answer (α : Type) where
  | queued (done : Bool)
  | item (item : Option α)

def call (f : Flist α) : Call α → Answer α × Flist α
  | .queue item => ((f.queue item).map .queued id)
  | .dequeue => f.dequeue.map .item id

/-- A queue that holds no more than `size` items. -/
def answer (size : ℕ) (xs : List α) : Call α → Answer α × List α
  | .queue item => if xs.length < size then (.queued true, xs ++ [item]) else (.queued false, xs)
  | .dequeue => (.item xs.head?, xs.tail)

theorem call_answer (size : ℕ) (c : Call α) (holds : f.Holds xs) (max : f.maxItems = size) :
    (f.call c).1 = (answer size xs c).1 ∧
      (f.call c).2.Holds (answer size xs c).2 ∧ (f.call c).2.maxItems = size := by
  subst max
  cases c with
  | queue item =>
      by_cases room : xs.length < f.maxItems
      · obtain ⟨queued, holds', max⟩ := holds.queue room item
        rw [answer, if_pos room]
        exact ⟨congrArg Answer.queued queued, holds', max⟩
      · have full := le_antisymm holds.length_le (not_lt.mp room)
        rw [answer, if_neg room, call, holds.queue_full full]
        exact ⟨rfl, holds, rfl⟩
  | dequeue =>
      cases xs with
      | nil =>
          rw [call, holds.dequeue_nil]
          exact ⟨rfl, holds, rfl⟩
      | cons x xs =>
          obtain ⟨item, holds', max⟩ := holds.dequeue
          exact ⟨congrArg Answer.item item, holds', max⟩

/-- A new list answers every sequence of calls as the bounded queue does. -/
theorem answers_eq (size : ℕ) (junk : ℕ → Option α) (calls : List (Call α)) :
    (Calls.spec call (init size junk) calls).1 = (Calls.spec (answer size) [] calls).1 := by
  have all (f : Flist α) (xs : List α) (holds : f.Holds xs) (max : f.maxItems = size) :
      (Calls.spec call f calls).1 = (Calls.spec (answer size) xs calls).1 := by
    induction calls generalizing f xs with
    | nil => rfl
    | cons c calls ih =>
        obtain ⟨same, holds', max'⟩ := call_answer size c holds max
        have rest := ih _ _ holds' max'
        simp only [Calls.spec, same, rest]
  exact all (init size junk) [] (holds_init size junk) rfl

end Flist

end Bacula
