import Bacula.Library.Iterator

/-! The array of pointers of `lib/alist.c`. An access outside of the array is a fault and gives
`none`. -/
namespace Bacula
open Iterator

/-- `baselist`. The array has `max_items` slots, and none at all when `items` is NULL; a
`num_grow` below zero is zero here. -/
structure Alist (α : Type) where
  items : List (Option α)
  numItems : ℕ
  /-- maximum item index (1..n) -/
  lastItem : ℕ
  numGrow : ℕ
  curItem : ℕ

namespace Alist

variable {α : Type}

/-- `baselist::init`, which does not set `cur_item`. -/
def init (num curItem : ℕ) : Alist α := ⟨[], 0, 0, num, curItem⟩

/-- `baselist::grow_list`. -/
def growList (l : Alist α) : Alist α :=
  let numGrow := max l.numGrow (max 10 (l.lastItem + 1))
  let items :=
    if l.items = [] then List.replicate numGrow none
    else if l.items.length ≤ l.lastItem then
      l.items ++ List.replicate (l.lastItem + numGrow - l.items.length) none
    else l.items
  { l with items, numGrow }

/-- An item is stored in a slot of the array. -/
def setItem (items : List (Option α)) (i : ℕ) (item : Option α) : Option (List (Option α)) :=
  if i < items.length then some (items.set i item) else none

/-- `baselist::append` and `push`. -/
def append (l : Alist α) (item : α) : Option (Alist α) := do
  let l := l.growList
  let items ← setItem l.items l.lastItem (some item)
  pure { l with items, lastItem := l.lastItem + 1, numItems := l.numItems + 1 }

/-- The loop of `prepend`, from slot `i` down to the first one. -/
def shiftUp : ℕ → List (Option α) → Option (List (Option α))
  | 0, items => some items
  | i + 1, items => do
      let item ← items[i]?
      shiftUp i (← setItem items (i + 1) item)

/-- `alist::prepend`. -/
def prepend (l : Alist α) (item : α) : Option (Alist α) := do
  let l := l.growList
  if l.numItems = 0 then
    let items ← setItem l.items 0 (some item)
    pure { l with items, numItems := 1, lastItem := max 1 l.lastItem }
  else
    let items ← setItem (← shiftUp l.lastItem l.items) 0 (some item)
    pure { l with items, numItems := l.numItems + 1, lastItem := l.lastItem + 1 }

/-- The loop of `remove_item`: `n` rounds from slot `i` on. -/
def shiftDown : ℕ → ℕ → List (Option α) → Option (List (Option α))
  | 0, _, items => some items
  | n + 1, i, items => do
      let item ← items[i + 1]?
      shiftDown n (i + 1) (← setItem items i item)

/-- `baselist::remove_item`, with the removed item. -/
def remove (l : Alist α) (index : ℤ) : Option (Option α × Alist α) :=
  if index < 0 ∨ (l.lastItem : ℤ) ≤ index then some (none, l)
  else do
    let item ← l.items[index.toNat]?
    let items ← shiftDown (l.lastItem - 1 - index.toNat) index.toNat l.items
    let items ← setItem items (l.lastItem - 1) none
    pure (item, { l with items, lastItem := l.lastItem - 1, numItems := l.numItems - 1 })

/-- `baselist::pop`. -/
def pop (l : Alist α) : Option (Option α × Alist α) := l.remove ((l.numItems : ℤ) - 1)

/-- A slot of the array. -/
def slot (l : Alist α) (i : ℕ) : Option α := (l.items[i]?).join

/-- `baselist::get`. -/
def get (l : Alist α) (index : ℤ) : Option α :=
  if l.items = [] ∨ index < 0 ∨ (l.lastItem : ℤ) ≤ index then none else l.slot index.toNat

/-- `alist::first`. -/
def first (l : Alist α) : Option α × Alist α :=
  (if l.numItems = 0 then none else l.slot 0, { l with curItem := 1 })

/-- `alist::last`. -/
def last (l : Alist α) : Option α × Alist α :=
  if l.numItems = 0 then (none, l) else (l.slot (l.lastItem - 1), { l with curItem := l.lastItem })

/-- `alist::next`. -/
def next (l : Alist α) : Option α × Alist α :=
  if l.lastItem ≤ l.curItem then (none, l) else (l.slot l.curItem, { l with curItem := l.curItem + 1 })

/-- `alist::prev`. -/
def prev (l : Alist α) : Option α × Alist α :=
  if l.curItem ≤ 1 then (none, l)
  else (l.slot (l.curItem - 1), { l with curItem := l.curItem - 1 })

inductive Op (α : Type) where
  | append (item : α)
  | prepend (item : α)
  | remove (index : ℤ)
  | push (item : α)
  | pop
  | first | next | last | prev

def step (l : Alist α) : Op α → Option (Alist α)
  | .append item | .push item => l.append item
  | .prepend item => l.prepend item
  | .remove index => (l.remove index).map Prod.snd
  | .pop => l.pop.map Prod.snd
  | .first => some l.first.2
  | .next => some l.next.2
  | .last => some l.last.2
  | .prev => some l.prev.2

def run : Alist α → List (Op α) → Option (Alist α)
  | l, [] => some l
  | l, op :: ops => (l.step op).bind fun l => run l ops

/-- The items of a list after an operation. -/
def contentsStep (contents : List α) : Op α → List α
  | .append item | .push item => contents ++ [item]
  | .prepend item => item :: contents
  | .remove index => if index < 0 then contents else contents.eraseIdx index.toNat
  | .pop => contents.dropLast
  | .first | .next | .last | .prev => contents

/-- The items of a list that operations built. -/
def contents (ops : List (Op α)) : List α := ops.foldl contentsStep []

/-- A list that holds these items in its first slots. -/
structure Holds (l : Alist α) (contents : List α) : Prop where
  numItems : l.numItems = contents.length
  lastItem : l.lastItem = contents.length
  slots : ∀ i < contents.length, l.items[i]? = some contents[i]?

theorem Holds.le {l : Alist α} {contents : List α} (holds : l.Holds contents) :
    contents.length ≤ l.items.length := by
  by_contra short
  have outside := holds.slots l.items.length (not_le.mp short)
  rw [List.getElem?_eq_none (le_refl _)] at outside
  cases outside

theorem Holds.slot_eq {l : Alist α} {contents : List α} (holds : l.Holds contents) {i : ℕ}
    (inside : i < contents.length) : l.slot i = contents[i]? := by
  rw [slot, holds.slots i inside]
  rfl

theorem Holds.growList {l : Alist α} {contents : List α} (holds : l.Holds contents) :
    l.growList.Holds contents ∧ contents.length < l.growList.items.length := by
  have last := holds.lastItem
  have size := holds.le
  unfold Alist.growList
  simp only [last]
  split
  · rename_i null
    rw [null, List.length_nil, Nat.le_zero] at size
    refine ⟨⟨holds.numItems, rfl, fun i inside => by omega⟩, ?_⟩
    rw [List.length_replicate]
    omega
  · split
    · refine ⟨⟨holds.numItems, rfl, fun i inside => ?_⟩, ?_⟩
      · rw [List.getElem?_append_left (lt_of_lt_of_le inside size)]
        exact holds.slots i inside
      · rw [List.length_append, List.length_replicate]
        omega
    · rename_i room
      exact ⟨⟨holds.numItems, rfl, holds.slots⟩, not_le.mp room⟩

theorem Holds.append {l : Alist α} {contents : List α} (holds : l.Holds contents) (item : α) :
    ∃ l', l.append item = some l' ∧ l'.Holds (contents ++ [item]) := by
  obtain ⟨grown, room⟩ := holds.growList
  have last : l.growList.lastItem = contents.length := grown.lastItem
  have stored : setItem l.growList.items l.growList.lastItem (some item) =
      some (l.growList.items.set contents.length (some item)) := by
    rw [setItem, last, if_pos room]
  refine ⟨_, by simp only [Alist.append, stored]; rfl, ⟨?_, ?_, fun i inside => ?_⟩⟩
  · simp only [grown.numItems, List.length_append, List.length_singleton]
  · simp only [last, List.length_append, List.length_singleton]
  · rw [List.length_append, List.length_singleton] at inside
    rcases Nat.lt_succ_iff_lt_or_eq.mp inside with before | rfl
    · rw [List.getElem?_set_ne (Nat.ne_of_gt before), List.getElem?_append_left before]
      exact grown.slots i before
    · rw [List.getElem?_set_self room, List.getElem?_concat_length]

/-- The slots from the second one to slot `i` get the items below them. -/
theorem shiftUp_spec {i : ℕ} {items : List (Option α)} (inside : i < items.length) :
    ∃ shifted, shiftUp i items = some shifted ∧ shifted.length = items.length ∧
      ∀ j, shifted[j]? = if 0 < j ∧ j ≤ i then items[j - 1]? else items[j]? := by
  induction i generalizing items with
  | zero =>
      refine ⟨items, rfl, rfl, fun j => ?_⟩
      rw [if_neg (by omega)]
  | succ i ih =>
      have here : i < items.length := Nat.lt_of_succ_lt inside
      have stored : setItem items (i + 1) items[i] = some (items.set (i + 1) items[i]) :=
        if_pos inside
      obtain ⟨shifted, result, length, slots⟩ :=
        @ih (items.set (i + 1) items[i]) (by rw [List.length_set]; exact here)
      refine ⟨shifted, ?_, length.trans List.length_set, fun j => ?_⟩
      · simp only [shiftUp, List.getElem?_eq_getElem here, Option.bind_eq_bind, Option.bind_some,
          stored]
        exact result
      · rw [slots j]
        by_cases moved : j = i + 1
        · subst moved
          rw [if_neg (by omega), if_pos (by omega), List.getElem?_set_self inside,
            Nat.add_sub_cancel, List.getElem?_eq_getElem here]
        · have same : (0 < j ∧ j ≤ i) ↔ (0 < j ∧ j ≤ i + 1) := by omega
          simp only [same]
          split
          · rw [List.getElem?_set_ne (by omega)]
          · rw [List.getElem?_set_ne (Ne.symm moved)]

theorem Holds.prepend {l : Alist α} {contents : List α} (holds : l.Holds contents) (item : α) :
    ∃ l', l.prepend item = some l' ∧ l'.Holds (item :: contents) := by
  obtain ⟨grown, room⟩ := holds.growList
  have last : l.growList.lastItem = contents.length := grown.lastItem
  have first : 0 < l.growList.items.length := Nat.zero_lt_of_lt room
  unfold Alist.prepend
  by_cases empty : l.growList.numItems = 0
  · have none : contents = [] := List.length_eq_zero_iff.mp (grown.numItems.symm.trans empty)
    have stored : setItem l.growList.items 0 (some item) =
        some (l.growList.items.set 0 (some item)) := if_pos first
    refine ⟨_, by simp only [empty, if_true, stored]; rfl, ⟨?_, ?_, fun i inside => ?_⟩⟩
    · rw [none]
      rfl
    · rw [last, none]
      rfl
    · rw [none] at inside ⊢
      obtain rfl : i = 0 := Nat.lt_one_iff.mp inside
      rw [List.getElem?_set_self first]
      rfl
  · obtain ⟨shifted, result, length, slots⟩ :=
      @shiftUp_spec α l.growList.lastItem l.growList.items (by rw [last]; exact room)
    have stored : setItem shifted 0 (some item) = some (shifted.set 0 (some item)) :=
      if_pos (by rw [length]; exact first)
    simp only [empty, if_false, result, Option.bind_eq_bind, Option.bind_some, stored]
    refine ⟨_, rfl, ⟨?_, ?_, fun i inside => ?_⟩⟩
    · simp only [grown.numItems, List.length_cons]
    · simp only [last, List.length_cons]
    · cases i with
      | zero =>
          rw [List.getElem?_set_self (by rw [length]; exact first)]
          rfl
      | succ i =>
          have before : i < contents.length := Nat.lt_of_succ_lt_succ inside
          rw [List.getElem?_set_ne (Nat.succ_ne_zero i).symm, slots, last, if_pos (by omega),
            List.getElem?_cons_succ]
          exact grown.slots i before

/-- `n` slots from slot `i` on get the items above them. -/
theorem shiftDown_spec {n i : ℕ} {items : List (Option α)} (inside : i + n < items.length) :
    ∃ shifted, shiftDown n i items = some shifted ∧ shifted.length = items.length ∧
      ∀ j, shifted[j]? = if i ≤ j ∧ j < i + n then items[j + 1]? else items[j]? := by
  induction n generalizing i items with
  | zero =>
      refine ⟨items, rfl, rfl, fun j => ?_⟩
      rw [if_neg (by omega)]
  | succ n ih =>
      have above : i + 1 < items.length := by omega
      have stored : setItem items i items[i + 1] = some (items.set i items[i + 1]) :=
        if_pos (by omega)
      obtain ⟨shifted, result, length, slots⟩ :=
        @ih (i + 1) (items.set i items[i + 1]) (by rw [List.length_set]; omega)
      refine ⟨shifted, ?_, length.trans List.length_set, fun j => ?_⟩
      · simp only [shiftDown, List.getElem?_eq_getElem above, Option.bind_eq_bind,
          Option.bind_some, stored]
        exact result
      · rw [slots j]
        by_cases moved : j = i
        · subst moved
          rw [if_neg (by omega), if_pos (by omega), List.getElem?_set_self (by omega),
            List.getElem?_eq_getElem above]
        · have same : (i + 1 ≤ j ∧ j < i + 1 + n) ↔ (i ≤ j ∧ j < i + (n + 1)) := by omega
          simp only [same]
          split
          · rw [List.getElem?_set_ne (by omega)]
          · rw [List.getElem?_set_ne (Ne.symm moved)]

theorem Holds.remove {l : Alist α} {contents : List α} (holds : l.Holds contents) (index : ℤ) :
    ∃ item l', l.remove index = some (item, l') ∧
      l'.Holds (if index < 0 then contents else contents.eraseIdx index.toNat) := by
  have last := holds.lastItem
  have size := holds.le
  unfold Alist.remove
  by_cases outside : index < 0 ∨ (l.lastItem : ℤ) ≤ index
  · refine ⟨none, l, if_pos outside, ?_⟩
    split
    · exact holds
    · rename_i positive
      rw [List.eraseIdx_of_length_le (by omega)]
      exact holds
  · rw [if_neg outside]
    obtain ⟨i, rfl⟩ : ∃ i : ℕ, index = i := ⟨index.toNat, by omega⟩
    have inside : i < contents.length := by omega
    have here : i < l.items.length := lt_of_lt_of_le inside size
    obtain ⟨shifted, result, length, slots⟩ :=
      @shiftDown_spec α (contents.length - 1 - i) i l.items (by omega)
    have stored : setItem shifted (contents.length - 1) none =
        some (shifted.set (contents.length - 1) none) := if_pos (by omega)
    simp only [Int.toNat_natCast, List.getElem?_eq_getElem here, Option.bind_eq_bind,
      Option.bind_some, last, result, stored]
    refine ⟨_, _, rfl, ?_⟩
    rw [if_neg (by omega)]
    have shorter := List.length_eraseIdx_of_lt inside
    refine ⟨?_, ?_, fun j before => ?_⟩
    · simp only [holds.numItems, shorter]
    · exact shorter.symm
    · rw [shorter] at before
      rw [List.getElem?_set_ne (by omega), slots j, List.getElem?_eraseIdx]
      by_cases below : j < i
      · rw [if_neg (by omega), if_pos below]
        exact holds.slots j (by omega)
      · rw [if_pos (by omega), if_neg below]
        exact holds.slots (j + 1) (by omega)

/-- An operation changes a list as it changes the sequence of its items. -/
theorem Holds.step {l : Alist α} {contents : List α} (holds : l.Holds contents) (op : Op α) :
    ∃ l', l.step op = some l' ∧ l'.Holds (contentsStep contents op) := by
  have moved {l' : Alist α} (items : l'.items = l.items) (num : l'.numItems = l.numItems)
      (last : l'.lastItem = l.lastItem) : l'.Holds contents :=
    ⟨num.trans holds.numItems, last.trans holds.lastItem, fun i inside => by
      rw [items]
      exact holds.slots i inside⟩
  cases op with
  | append item => exact holds.append item
  | push item => exact holds.append item
  | prepend item => exact holds.prepend item
  | remove index =>
      obtain ⟨item, l', result, holds'⟩ := holds.remove index
      exact ⟨l', by rw [Alist.step, result]; rfl, holds'⟩
  | pop =>
      obtain ⟨item, l', result, holds'⟩ := holds.remove (l.numItems - 1)
      refine ⟨l', by rw [Alist.step, pop, result]; rfl, ?_⟩
      rw [holds.numItems] at holds'
      have dropped : contentsStep contents .pop = if ((contents.length : ℤ) - 1) < 0 then contents
          else contents.eraseIdx ((contents.length : ℤ) - 1).toNat := by
        split
        · rw [contentsStep, List.length_eq_zero_iff.mp (show contents.length = 0 by omega)]
          rfl
        · rw [contentsStep, show ((contents.length : ℤ) - 1).toNat = contents.length - 1 by omega,
            List.eraseIdx_eq_take_drop_succ, List.drop_eq_nil_of_le (by omega), List.append_nil,
            List.dropLast_eq_take]
      rw [dropped]
      exact holds'
  | first => exact ⟨_, rfl, moved rfl rfl rfl⟩
  | next =>
      refine ⟨_, rfl, ?_⟩
      unfold next
      split
      · exact holds
      · exact moved rfl rfl rfl
  | last =>
      refine ⟨_, rfl, ?_⟩
      unfold last
      split
      · exact holds
      · exact moved rfl rfl rfl
  | prev =>
      refine ⟨_, rfl, ?_⟩
      unfold prev
      split
      · exact holds
      · exact moved rfl rfl rfl

theorem Holds.run {l : Alist α} {contents : List α} (holds : l.Holds contents)
    (ops : List (Op α)) : ∃ l', l.run ops = some l' ∧ l'.Holds (ops.foldl contentsStep contents) := by
  induction ops generalizing l contents with
  | nil => exact ⟨l, rfl, holds⟩
  | cons op ops ih =>
      obtain ⟨l', result, holds'⟩ := holds.step op
      obtain ⟨l'', results, holds''⟩ := ih holds'
      exact ⟨l'', by rw [Alist.run, result]; exact results, holds''⟩

section Enumeration

variable {l : Alist α} {contents : List α}

theorem Holds.setCur (holds : l.Holds contents) (cur : ℕ) :
    { l with curItem := cur }.Holds contents := ⟨holds.numItems, holds.lastItem, holds.slots⟩

theorem Holds.get (holds : l.Holds contents) (index : ℤ) :
    l.get index = if index < 0 then none else contents[index.toNat]? := by
  have last := holds.lastItem
  have size := holds.le
  unfold Alist.get
  by_cases negative : index < 0
  · rw [if_pos (Or.inr (Or.inl negative)), if_pos negative]
  · rw [if_neg negative]
    by_cases inside : index.toNat < contents.length
    · rw [if_neg, holds.slot_eq inside]
      rintro (null | before | behind)
      · rw [null, List.length_nil] at size
        omega
      · exact negative before
      · omega
    · rw [if_pos (Or.inr (Or.inr (by omega))), List.getElem?_eq_none (not_lt.mp inside)]

/-- `next` goes on from the current slot. -/
theorem Holds.next_drains (holds : l.Holds contents) {i : ℕ} (inside : i ≤ contents.length) :
    Drains Alist.next (Alist.next { l with curItem := i }) (contents.drop i)
      { l with curItem := contents.length } := by
  induction left : contents.length - i generalizing i with
  | zero =>
      obtain rfl : i = contents.length := by omega
      have done : Alist.next { l with curItem := contents.length } =
          (none, { l with curItem := contents.length }) := if_pos (le_of_eq holds.lastItem)
      rw [done, List.drop_length]
      exact .null _
  | succ n ih =>
      have more : i < contents.length := by omega
      have here : Alist.next { l with curItem := i } =
          (some contents[i], { l with curItem := i + 1 }) := by
        rw [Alist.next, if_neg (by rw [holds.lastItem]; exact not_le.mpr more)]
        rw [show slot { l with curItem := i } i = _ from (holds.setCur i).slot_eq more,
          List.getElem?_eq_getElem more]
      rw [here, List.drop_eq_getElem_cons more]
      exact .item (ih more (by omega))

theorem Holds.first_drains (holds : l.Holds contents) :
    ∃ l', Drains Alist.next l.first contents l' := by
  cases contents with
  | nil =>
      have none : l.first = (none, { l with curItem := 1 }) := by
        rw [Alist.first, if_pos (show l.numItems = 0 from holds.numItems)]
      rw [none]
      exact ⟨_, .null _⟩
  | cons a rest =>
      have first : l.first = (some a, { l with curItem := 1 }) := by
        have some : l.numItems ≠ 0 := by
          rw [holds.numItems]
          exact Nat.succ_ne_zero _
        rw [Alist.first, if_neg some, holds.slot_eq (Nat.zero_lt_succ _)]
        rfl
      refine ⟨{ l with curItem := (a :: rest).length }, ?_⟩
      rw [first]
      exact .item (holds.next_drains (Nat.succ_le_succ (Nat.zero_le _)))

/-- `prev` gives the items below the current number, but not the first one. -/
theorem Holds.prev_drains (holds : l.Holds contents) {cur : ℕ} (inside : cur ≤ contents.length) :
    ∃ l', Drains Alist.prev (Alist.prev { l with curItem := cur })
      ((contents.take cur).drop 1).reverse l' := by
  induction cur with
  | zero => exact ⟨{ l with curItem := 0 }, .null _⟩
  | succ cur ih =>
      cases cur with
      | zero =>
          refine ⟨{ l with curItem := 1 }, ?_⟩
          rw [List.drop_eq_nil_of_le (by rw [List.length_take]; exact min_le_left _ _)]
          exact .null _
      | succ cur =>
          obtain ⟨l', rest⟩ := ih (Nat.le_of_succ_le inside)
          have more : cur + 1 < contents.length := inside
          have here : Alist.prev { l with curItem := cur + 1 + 1 } =
              (some contents[cur + 1], { l with curItem := cur + 1 }) := by
            rw [Alist.prev, if_neg (by simp)]
            rw [show slot { l with curItem := cur + 1 + 1 } (cur + 1 + 1 - 1) = contents[cur + 1]?
              from (holds.setCur _).slot_eq more, List.getElem?_eq_getElem more]
            rfl
          refine ⟨l', ?_⟩
          rw [here, List.take_succ_eq_append_getElem more, List.drop_append_of_le_length
            (by rw [List.length_take]; omega), List.reverse_append, List.reverse_singleton]
          exact .item rest

/-- The loop with `last` and `prev` gives the last item twice, and not the first one. -/
theorem Holds.last_drains (holds : l.Holds contents) :
    ∃ l', Drains Alist.prev l.last (contents.getLast?.toList ++ (contents.drop 1).reverse) l' := by
  cases contents with
  | nil =>
      have none : l.last = (none, l) := if_pos holds.numItems
      rw [none]
      exact ⟨l, .null _⟩
  | cons a rest =>
      have size : l.lastItem = rest.length + 1 := holds.lastItem
      have last : l.last = ((a :: rest).getLast?, { l with curItem := (a :: rest).length }) := by
        have some : l.numItems ≠ 0 := by
          rw [holds.numItems]
          exact Nat.succ_ne_zero _
        rw [Alist.last, if_neg some, size,
          Nat.add_sub_cancel, holds.slot_eq (Nat.lt_succ_self _), List.getLast?_eq_getElem?]
        rfl
      obtain ⟨l', drains⟩ := holds.prev_drains (le_refl (a :: rest).length)
      rw [List.take_length] at drains
      refine ⟨l', ?_⟩
      rw [last, List.getLast?_eq_some_getLast (List.cons_ne_nil a rest)]
      exact .item drains

theorem cons_eq_concat_iff (x a : α) (l : List α) :
    x :: l = l ++ [a] ↔ a = x ∧ ∀ y ∈ l, y = x := by
  induction l generalizing x with
  | nil => simp [eq_comm]
  | cons y l ih =>
      rw [List.cons_append, List.cons.injEq, ih, List.forall_mem_cons]
      constructor
      · rintro ⟨rfl, same, rest⟩
        exact ⟨same, rfl, rest⟩
      · rintro ⟨same, rfl, rest⟩
        exact ⟨rfl, same, rest⟩

theorem reverse_eq_last_twice_iff (contents : List α) :
    contents.getLast?.toList ++ (contents.drop 1).reverse = contents.reverse ↔
      ∀ a ∈ contents, ∀ b ∈ contents, a = b := by
  cases contents with
  | nil => simp
  | cons a rest =>
      rw [List.getLast?_eq_some_getLast (List.cons_ne_nil a rest), Option.toList_some,
        List.drop_one, List.tail_cons, List.reverse_cons, List.singleton_append,
        cons_eq_concat_iff]
      have last := List.getLast_mem (List.cons_ne_nil a rest)
      constructor
      · rintro ⟨first, others⟩
        have all (b : α) (member : b ∈ a :: rest) : b = a := by
          rcases List.mem_cons.mp member with rfl | member
          · rfl
          · exact (others b (List.mem_reverse.mpr member)).trans first.symm
        intro b memberB c memberC
        rw [all b memberB, all c memberC]
      · intro same
        exact ⟨same a List.mem_cons_self _ last, fun b member =>
          same b (List.mem_cons_of_mem a (List.mem_reverse.mp member)) _ last⟩

end Enumeration

/-- A list that operations built is enumerated forwards by its indexes. Backwards it is
enumerated only when all its items are the same. -/
theorem enumerated_iff (num curItem : ℕ) (ops : List (Op α)) :
    ∃ l, (init num curItem).run ops = some l ∧
      (((∃ l', Drains next l.first (contents ops) l') ∧
        (∃ l', Drains prev l.last (contents ops).reverse l') ∧
        ∀ index, l.get index = if index < 0 then none else (contents ops)[index.toNat]?) ↔
      ∀ a ∈ contents ops, ∀ b ∈ contents ops, a = b) := by
  have empty : (init num curItem : Alist α).Holds [] := ⟨rfl, rfl, fun i inside => by cases inside⟩
  obtain ⟨l, result, holds⟩ := empty.run ops
  obtain ⟨l', last⟩ := holds.last_drains
  refine ⟨l, result, ?_⟩
  rw [← reverse_eq_last_twice_iff]
  constructor
  · rintro ⟨-, ⟨l'', backwards⟩, -⟩
    exact (last.unique backwards).1
  · intro same
    have backwards : Drains prev l.last (contents ops).reverse l' := same ▸ last
    exact ⟨holds.first_drains, ⟨l', backwards⟩, holds.get⟩

/-- Three items: the last one is seen twice and the first one not at all. -/
theorem last_prev_misses_first :
    ((init 10 0).run [.append 'a', .append 'b', .append 'c']).bind
        (fun l => (drain prev 10 l.last).map Prod.fst) = some ['c', 'c', 'b'] := by
  decide

end Alist
end Bacula
