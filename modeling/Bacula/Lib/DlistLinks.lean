import Bacula.Lib.Dlist
import Bacula.Library.Ring

/-! The links of `lib/dlist.c`. An item is a pointer, and its link is looked up in the memory.
A write through NULL, or a comparison with NULL, is a fault and gives `none`. -/
namespace Bacula.Dlist
open Ring

/-- `struct dlink`. -/
structure Dlink (ι : Type) where
  next : Option ι
  prev : Option ι

/-- `class dlist` with the links of all items. -/
structure State (ι : Type) where
  head : Option ι
  tail : Option ι
  numItems : ℕ
  link : ι → Dlink ι

namespace State

variable {ι : Type}

/-- `dlist::init`. The memory of the items is not touched. -/
def init (link : ι → Dlink ι) : State ι := ⟨none, none, 0, link⟩

/-- `dlist::next`. -/
def next (l : State ι) : Option ι → Option ι
  | none => l.head
  | some item => (l.link item).next

/-- `dlist::prev`. -/
def prev (l : State ι) : Option ι → Option ι
  | none => l.tail
  | some item => (l.link item).prev

def setHead (l : State ι) (head : Option ι) : State ι := { l with head }

def setTail (l : State ι) (tail : Option ι) : State ι := { l with tail }

def setNumItems (l : State ι) (numItems : ℕ) : State ι := { l with numItems }

section Fields

variable (l : State ι) (value : Option ι) (num : ℕ)

@[simp] theorem setHead_prev : (l.setHead value).prev = l.prev := by
  funext n
  cases n <;> rfl

@[simp] theorem setTail_next : (l.setTail value).next = l.next := by
  funext n
  cases n <;> rfl

@[simp] theorem setNum_next : (l.setNumItems num).next = l.next := by
  funext n
  cases n <;> rfl

@[simp] theorem setNum_prev : (l.setNumItems num).prev = l.prev := by
  funext n
  cases n <;> rfl

@[simp] theorem setHead_link : (l.setHead value).link = l.link := rfl
@[simp] theorem setTail_link : (l.setTail value).link = l.link := rfl
@[simp] theorem setHead_head : (l.setHead value).head = value := rfl
@[simp] theorem setHead_tail : (l.setHead value).tail = l.tail := rfl
@[simp] theorem setHead_numItems : (l.setHead value).numItems = l.numItems := rfl
@[simp] theorem setTail_head : (l.setTail value).head = l.head := rfl
@[simp] theorem setTail_tail : (l.setTail value).tail = value := rfl
@[simp] theorem setTail_numItems : (l.setTail value).numItems = l.numItems := rfl
@[simp] theorem setNum_head : (l.setNumItems num).head = l.head := rfl
@[simp] theorem setNum_tail : (l.setNumItems num).tail = l.tail := rfl
@[simp] theorem setNum_numItems : (l.setNumItems num).numItems = num := rfl

end Fields

/-- The two loops that walk from position `cur` to `nxt`. -/
def walk (l : State ι) (cur : ℕ) (curItem : Option ι) (nxt : ℕ) : Option ι :=
  if cur < nxt then l.next^[nxt - cur] curItem else l.prev^[cur - nxt] curItem

/-- How the search ends, with the item that was compared last. -/
inductive Ended (ι : Type) where
  | found (item : ι)
  | stopped (low high cur : ℕ) (curItem : Option ι)

/-- The loop of `binary_insert` and `binary_search`. -/
def bisect (l : State ι) (compare : ι → ι → Ordering) (item : ι) (low high cur : ℕ)
    (curItem : Option ι) : Option (Ended ι) :=
  if low < high then
    let nxt := (low + high) / 2
    match l.walk cur curItem nxt with
    | none => none
    | some curItem =>
        match compare item curItem with
        | .lt => l.bisect compare item low nxt nxt (some curItem)
        | .gt => l.bisect compare item (nxt + 1) high nxt (some curItem)
        | .eq => some (.found curItem)
  else some (.stopped low high cur curItem)
termination_by high - low

/-- `dlist::binary_search`. -/
def binarySearch (l : State ι) (compare : ι → ι → Ordering) (item : ι) :
    Option (Option ι) :=
  if l.numItems = 0 then some none
  else do
    let first ← l.head
    if l.numItems = 1 then
      some (if compare item first = .eq then some first else none)
    else
      match ← l.bisect compare item 1 l.numItems 1 (some first) with
      | .found curItem => some (some curItem)
      | .stopped low high _ curItem =>
          if low = high then do
            let curItem ← l.next curItem
            some (if compare item curItem = .eq then some curItem else none)
          else some none

/-- The list links these items, in this order. -/
structure Represents (l : State ι) (xs : List ι) : Prop where
  linked : Linked l.next l.prev none (xs.map some) none
  nodup : xs.Nodup
  numItems : l.numItems = xs.length

section Represents

variable {l : State ι} {item : ι} {pre post xs : List ι}

theorem Represents.head (rep : l.Represents xs) : l.head = xs.head? := by
  have first := rep.linked.next_eq
  rw [show l.next none = l.head from rfl] at first
  rw [first]
  cases xs <;> rfl

theorem Represents.tail (rep : l.Represents xs) : l.tail = xs.getLast? := by
  have last := rep.linked.prev_eq
  rw [show l.prev none = l.tail from rfl] at last
  rw [last, List.getLastD_eq_getLast?, List.getLast?_map]
  cases xs.getLast? <;> rfl

theorem getLastD_map_some (xs : List ι) : (xs.map some).getLastD none = xs.getLast? := by
  rw [List.getLastD_eq_getLast?, List.getLast?_map]
  cases xs.getLast? <;> rfl

theorem headD_map_some (xs : List ι) : (xs.map some).headD none = xs.head? := by
  cases xs <;> rfl

theorem Represents.neighbours (rep : l.Represents (pre ++ item :: post)) :
    (l.link item).next = post.head? ∧ (l.link item).prev = pre.getLast? := by
  have linked := rep.linked
  rw [List.map_append, List.map_cons] at linked
  obtain ⟨before, -, behind⟩ := linked_append.mp linked
  rw [← headD_map_some, ← getLastD_map_some]
  exact ⟨behind.next_eq, before.prev_eq⟩

theorem Represents.head_eq_none (rep : l.Represents xs) : l.head = none ↔ l.tail = none := by
  rw [rep.head, rep.tail, List.head?_eq_none_iff, List.getLast?_eq_none_iff]

theorem Represents.empty (rep : l.Represents xs) :
    (if l.numItems = 0 then (l.setHead none).setTail none else l).Represents xs := by
  split
  · rename_i none
    have nil : xs = [] := List.length_eq_zero_iff.mp (rep.numItems.symm.trans none)
    subst nil
    exact ⟨⟨rfl, rfl⟩, rep.nodup, none⟩
  · exact rep

/-- An item without an item before it is the head. -/
theorem Represents.head_iff (rep : l.Represents (pre ++ item :: post)) :
    l.head = some item ↔ (l.link item).prev = none := by
  rw [rep.head, rep.neighbours.2, List.getLast?_eq_none_iff]
  cases pre with
  | nil => exact ⟨fun _ => rfl, fun _ => rfl⟩
  | cons first pre =>
      refine ⟨fun same => ?_, fun none => by cases none⟩
      have nodup := rep.nodup
      rw [show first = item from Option.some.inj same] at nodup
      exact absurd (List.mem_append_right pre List.mem_cons_self) (List.nodup_cons.mp nodup).1

/-- An item without an item behind it is the tail. -/
theorem Represents.tail_iff (rep : l.Represents (pre ++ item :: post)) :
    l.tail = some item ↔ (l.link item).next = none := by
  rw [rep.tail, rep.neighbours.1, List.head?_eq_none_iff, List.getLast?_append_cons]
  cases post with
  | nil => exact ⟨fun _ => rfl, fun _ => rfl⟩
  | cons next post =>
      refine ⟨fun same => ?_, fun none => by cases none⟩
      rw [List.getLast?_cons_cons] at same
      have nodup := (List.nodup_append.mp rep.nodup).2.1
      exact absurd (List.mem_of_getLast? same) (List.nodup_cons.mp nodup).1

theorem distinct_ring (nodup : xs.Nodup) : (none :: xs.map some).Nodup := by
  rw [List.nodup_cons]
  refine ⟨by simp, nodup.map (Option.some_injective ι)⟩

/-- One link in each direction; behind the last item there is none. -/
theorem Represents.step (rep : l.Represents xs) {k : ℕ} (inside : k < xs.length) :
    l.next xs[k]? = xs[k + 1]? ∧ l.prev xs[k + 1]? = xs[k]? := by
  have here : k + 1 < (xs.map some).length + 1 := by
    rw [List.length_map]
    exact Nat.succ_lt_succ inside
  have links := rep.linked.getElem here
  have first : (none :: xs.map some).getD (k + 1) none = xs[k]? := by
    rw [List.getD_cons_succ, List.getD_eq_getElem?_getD, List.getElem?_map,
      List.getElem?_eq_getElem inside]
    rfl
  have second : (xs.map some ++ [none]).getD (k + 1) none = xs[k + 1]? := by
    rw [List.getD_eq_getElem?_getD, List.getElem?_append, List.length_map]
    by_cases more : k + 1 < xs.length
    · rw [if_pos more, List.getElem?_map, List.getElem?_eq_getElem more]
      rfl
    · rw [if_neg more, List.getElem?_eq_none (not_lt.mp more), show k + 1 - xs.length = 0 by omega]
      rfl
  rwa [first, second] at links

theorem Represents.next_iterate (rep : l.Represents xs) {k m : ℕ} (inside : k + m ≤ xs.length) :
    l.next^[m] xs[k]? = xs[k + m]? := by
  induction m with
  | zero => rfl
  | succ m ih =>
      rw [Function.iterate_succ_apply', ih (by omega), (rep.step (by omega)).1]
      rfl

theorem Represents.prev_iterate (rep : l.Represents xs) {k m : ℕ} (inside : k + m ≤ xs.length) :
    l.prev^[m] xs[k + m]? = xs[k]? := by
  induction m with
  | zero => rfl
  | succ m ih =>
      rw [Function.iterate_succ_apply, ← Nat.add_assoc, (rep.step (by omega)).2]
      exact ih (by omega)

/-- A walk from one position comes to the other. -/
theorem Represents.walk (rep : l.Represents xs) {cur nxt : ℕ} (oneCur : 1 ≤ cur) (oneNxt : 1 ≤ nxt)
    (curLength : cur ≤ xs.length) (nxtLength : nxt ≤ xs.length) :
    l.walk cur xs[cur - 1]? nxt = xs[nxt - 1]? := by
  unfold State.walk
  split
  · rw [rep.next_iterate (by omega), show cur - 1 + (nxt - cur) = nxt - 1 by omega]
  · have back := rep.prev_iterate (k := nxt - 1) (m := cur - nxt) (by omega)
    rwa [show nxt - 1 + (cur - nxt) = cur - 1 by omega] at back

/-- The search in the links is the search by positions. -/
theorem Represents.bisect (rep : l.Represents xs) (compare : ι → ι → Ordering) (item : ι)
    {low high cur : ℕ}
    (oneLow : 1 ≤ low) (highLength : high ≤ xs.length) (oneCur : 1 ≤ cur)
    (curLength : cur ≤ xs.length) :
    l.bisect compare item low high cur xs[cur - 1]? =
      match Bisection.search (compAt (compare item) xs) low high cur with
      | .found cur => xs[cur - 1]?.map Ended.found
      | .stopped low high cur => some (.stopped low high cur xs[cur - 1]?) := by
  fun_induction Bisection.search (compAt (compare item) xs) low high cur with
  | case1 low high cur wide nxt result ih =>
      obtain ⟨x, at_nxt, -, value⟩ := compAt_eq_iff (compare item) xs (p := nxt) (by omega)
      rw [State.bisect, if_pos wide]
      dsimp only
      rw [rep.walk oneCur (by omega) curLength (by omega), at_nxt]
      dsimp only
      rw [← value, result]
      dsimp only
      rw [← at_nxt]
      exact ih oneLow (by omega) (by omega) (by omega)
  | case2 low high cur wide nxt result ih =>
      obtain ⟨x, at_nxt, -, value⟩ := compAt_eq_iff (compare item) xs (p := nxt) (by omega)
      rw [State.bisect, if_pos wide]
      dsimp only
      rw [rep.walk oneCur (by omega) curLength (by omega), at_nxt]
      dsimp only
      rw [← value, result]
      dsimp only
      rw [← at_nxt]
      exact ih (by omega) highLength (by omega) (by omega)
  | case3 low high cur wide nxt result =>
      obtain ⟨x, at_nxt, -, value⟩ := compAt_eq_iff (compare item) xs (p := nxt) (by omega)
      rw [State.bisect, if_pos wide]
      dsimp only
      rw [rep.walk oneCur (by omega) curLength (by omega), at_nxt]
      dsimp only
      rw [← value, result]
      rfl
  | case4 low high cur closed => rw [State.bisect, if_neg closed]

/-- `binary_search` in the links is the search in the list of the items. -/
theorem Represents.binarySearch (rep : l.Represents xs) (compare : ι → ι → Ordering) (item : ι) :
    l.binarySearch compare item = some (Dlist.binarySearch (compare item) xs) := by
  match xs, rep with
  | [], rep =>
      unfold State.binarySearch
      rw [rep.numItems]
      rfl
  | [x], rep =>
      unfold State.binarySearch
      rw [rep.numItems, rep.head]
      rfl
  | x :: y :: rest, rep =>
      have long : 1 < (x :: y :: rest).length := by simp
      have search := rep.bisect compare item (le_refl 1) (le_refl _) (le_refl 1) (le_of_lt long)
      unfold State.binarySearch Dlist.binarySearch
      rw [rep.numItems, rep.head, if_neg (by simp), List.head?_cons, Option.bind_eq_bind,
        Option.bind_some, if_neg (by simp)]
      dsimp only
      rw [show (some x : Option ι) = (x :: y :: rest)[1 - 1]? from rfl, search]
      cases result : Bisection.search (compAt (compare item) (x :: y :: rest)) 1
          (x :: y :: rest).length 1 with
      | found cur =>
          have inside := Bisection.settle_search_eq_some (j := cur) long (by rw [result]; rfl)
          obtain ⟨z, at_cur, -, -⟩ := compAt_eq_iff (compare item) (x :: y :: rest) (p := cur)
            ⟨inside.1, inside.2.1⟩
          dsimp only [Bisection.settle]
          rw [at_cur]
          rfl
      | stopped low high cur =>
          have bounds := Bisection.search_stopped_bounds long result
          obtain ⟨z, at_next, -, value⟩ := compAt_eq_iff (compare item) (x :: y :: rest)
            (p := cur + 1) ⟨by omega, by omega⟩
          rw [Nat.add_sub_cancel] at at_next
          have next := (rep.step (k := cur - 1) (by omega)).1
          rw [show cur - 1 + 1 = cur by omega, at_next] at next
          dsimp only [Bisection.settle]
          rw [Option.bind_eq_bind, Option.bind_some]
          dsimp only
          by_cases meet : low = high
          · rw [if_pos meet, next, Option.bind_some, value]
            by_cases hit : compare item z = .eq
            · rw [if_pos hit, if_pos ⟨meet, hit⟩]
              exact congrArg some at_next.symm
            · rw [if_neg hit, if_neg fun both => hit both.2]
          · rw [if_neg meet, if_neg fun both => meet both.1]

/-- A call of `binary_insert` and the insertion into the list of the items: both find the same
equal item, or the links are those of the longer list. -/
def Inserted (l : State ι) (xs : List ι) (item : ι) (abstract : List ι × Option ι)
    (called : Option (ι × State ι)) : Prop :=
  ∃ result l', called = some (result, l') ∧
    match abstract.2 with
    | some y => result = y ∧ l' = l
    | none => result = item ∧ (item ∉ xs → l'.Represents abstract.1)

theorem inserted_found (ys : List ι) (y : ι) : Inserted l xs item (ys, some y) (some (y, l)) :=
  ⟨y, l, rfl, rfl, rfl⟩

theorem inserted_new {l' : State ι} {ys : List ι} (rep : item ∉ xs → l'.Represents ys) :
    Inserted l xs item (ys, none) (some (item, l')) :=
  ⟨item, l', rfl, rfl, rep⟩

end Represents

section Writes

variable [DecidableEq ι]

def setNext (l : State ι) (item : ι) (next : Option ι) : State ι :=
  { l with link := Function.update l.link item { l.link item with next } }

def setPrev (l : State ι) (item : ι) (prev : Option ι) : State ι :=
  { l with link := Function.update l.link item { l.link item with prev } }

/-- `dlist::append`. -/
def append (l : State ι) (item : ι) : State ι :=
  let l := (l.setNext item none).setPrev item l.tail
  let l := match l.tail with
    | some tail => l.setNext tail (some item)
    | none => l
  let l := l.setTail (some item)
  -- if empty list, item is head as well
  let l := if l.head = none then l.setHead (some item) else l
  l.setNumItems (l.numItems + 1)

/-- `dlist::prepend`. -/
def prepend (l : State ι) (item : ι) : State ι :=
  let l := (l.setNext item l.head).setPrev item none
  let l := match l.head with
    | some head => l.setPrev head (some item)
    | none => l
  let l := l.setHead (some item)
  -- if empty list, item is tail too
  let l := if l.tail = none then l.setTail (some item) else l
  l.setNumItems (l.numItems + 1)

/-- `dlist::insert_before`. -/
def insertBefore (l : State ι) (item place : ι) : State ι :=
  let l := l.setNext item (some place)
  let l := l.setPrev item (l.link place).prev
  let l := match (l.link place).prev with
    | some before => l.setNext before (some item)
    | none => l
  let l := l.setPrev place (some item)
  let l := if l.head = some place then l.setHead (some item) else l
  l.setNumItems (l.numItems + 1)

/-- `dlist::insert_after`. -/
def insertAfter (l : State ι) (item place : ι) : State ι :=
  let l := l.setNext item (l.link place).next
  let l := l.setPrev item (some place)
  let l := match (l.link place).next with
    | some behind => l.setPrev behind (some item)
    | none => l
  let l := l.setNext place (some item)
  let l := if l.tail = some place then l.setTail (some item) else l
  l.setNumItems (l.numItems + 1)

/-- The part of `remove` that unlinks the item from its neighbours. -/
def unlink (l : State ι) (item : ι) : Option (State ι) :=
  if l.head = some item then
    let l := l.setHead (l.link item).next
    let l := match l.head with
      | some head => l.setPrev head none
      | none => l
    some (if l.tail = some item then l.setTail (l.link item).prev else l)
  else if l.tail = some item then
    let l := l.setTail (l.link item).prev
    some (match l.tail with
      | some tail => l.setNext tail none
      | none => l)
  else do
    let behind ← (l.link item).next
    let l := l.setPrev behind (l.link item).prev
    let before ← (l.link item).prev
    some (l.setNext before (l.link item).next)

/-- `dlist::remove`. -/
def remove (l : State ι) (item : ι) : Option (State ι) := do
  let l ← l.unlink item
  let l := l.setNumItems (l.numItems - 1)
  let l := if l.numItems = 0 then (l.setHead none).setTail none else l
  some ((l.setPrev item none).setNext item none)

/-- `dlist::binary_insert`, with the item that it returns. -/
def binaryInsert (l : State ι) (compare : ι → ι → Ordering) (item : ι) :
    Option (ι × State ι) :=
  if l.numItems = 0 then some (item, l.append item)
  else do
    let first ← l.head
    if l.numItems = 1 then
      match compare item first with
      | .lt => some (item, l.prepend item)
      | .gt => some (item, l.insertAfter item first)
      | .eq => some (first, l)
    else
      -- Check against last item
      let last ← l.tail
      match compare item last with
      | .gt => some (item, l.append item)
      | .eq => some (last, l)
      | .lt =>
          -- Check against first item
          match compare item first with
          | .lt => some (item, l.prepend item)
          | .eq => some (first, l)
          | .gt =>
              if l.numItems = 2 then some (item, l.insertAfter item first)
              else match ← l.bisect compare item 1 l.numItems 1 (some first) with
                | .found curItem => some (curItem, l)
                | .stopped _ high cur curItem => do
                    let curItem ← curItem
                    some (item, if high = cur then l.insertBefore item curItem
                      else l.insertAfter item curItem)

section Fields

variable (l : State ι) (item : ι) (value : Option ι)

@[simp] theorem setNext_next :
    (l.setNext item value).next = Function.update l.next (some item) value := by
  funext n
  cases n with
  | none => rfl
  | some other =>
      by_cases same : other = item
      · subst same
        simp [setNext, next]
      · simp [setNext, next, same]

@[simp] theorem setNext_prev : (l.setNext item value).prev = l.prev := by
  funext n
  cases n with
  | none => rfl
  | some other =>
      by_cases same : other = item
      · subst same
        simp [setNext, prev]
      · simp [setNext, prev, same]

@[simp] theorem setPrev_prev :
    (l.setPrev item value).prev = Function.update l.prev (some item) value := by
  funext n
  cases n with
  | none => rfl
  | some other =>
      by_cases same : other = item
      · subst same
        simp [setPrev, prev]
      · simp [setPrev, prev, same]

@[simp] theorem setPrev_next : (l.setPrev item value).next = l.next := by
  funext n
  cases n with
  | none => rfl
  | some other =>
      by_cases same : other = item
      · subst same
        simp [setPrev, next]
      · simp [setPrev, next, same]

@[simp] theorem setHead_next :
    (l.setHead value).next = Function.update l.next none value := by
  funext n
  cases n <;> simp [next, setHead]

@[simp] theorem setTail_prev :
    (l.setTail value).prev = Function.update l.prev none value := by
  funext n
  cases n <;> simp [prev, setTail]

@[simp] theorem setNext_head : (l.setNext item value).head = l.head := rfl
@[simp] theorem setNext_tail : (l.setNext item value).tail = l.tail := rfl
@[simp] theorem setNext_numItems : (l.setNext item value).numItems = l.numItems := rfl
@[simp] theorem setPrev_head : (l.setPrev item value).head = l.head := rfl
@[simp] theorem setPrev_tail : (l.setPrev item value).tail = l.tail := rfl
@[simp] theorem setPrev_numItems : (l.setPrev item value).numItems = l.numItems := rfl

end Fields

section Operations

variable {l l' : State ι} {item : ι} {pre post xs : List ι}

/-- What an insertion between two neighbours does to the links; no neighbour is the header. -/
structure Inserts (l l' : State ι) (before : Option ι) (item : ι) (behind : Option ι) : Prop where
  next : l'.next = Function.update (Function.update l.next before (some item)) (some item) behind
  prev : l'.prev = Function.update (Function.update l.prev behind (some item)) (some item) before
  numItems : l'.numItems = l.numItems + 1

/-- A list after an item was linked in between its neighbours. -/
theorem Represents.insert (rep : l.Represents (pre ++ post)) (fresh : item ∉ pre ++ post)
    (inserts : Inserts l l' pre.getLast? item post.head?) :
    l'.Represents (pre ++ item :: post) := by
  have linked := rep.linked
  have distinct := distinct_ring rep.nodup
  rw [List.map_append] at linked distinct
  have inserted := linked.insert distinct (x := some item) (by simpa using fresh)
  rw [getLastD_map_some, headD_map_some, ← inserts.next, ← inserts.prev] at inserted
  refine ⟨?_, List.nodup_middle.mpr (List.nodup_cons.mpr ⟨fresh, rep.nodup⟩), ?_⟩
  · rw [List.map_append, List.map_cons]
    exact inserted
  · rw [inserts.numItems, rep.numItems, List.length_append, List.length_append, List.length_cons]
    rfl

theorem append_inserts (empty : l.head = none ↔ l.tail = none) (fresh : l.tail ≠ some item) :
    Inserts l (l.append item) l.tail item none := by
  have header := Option.some_ne_none item
  cases last : l.tail with
  | none =>
      have first := empty.mpr last
      refine ⟨?_, ?_, by simp [append, last, first]⟩
      · simpa [append, last, first] using Function.update_comm header none (some item) l.next
      · simpa [append, last, first] using Function.update_comm header none (some item) l.prev
  | some tail =>
      have other : some item ≠ some tail := fun same => fresh (last.trans same.symm)
      have first : l.head ≠ none := fun none => by
        rw [empty.mp none] at last
        cases last
      refine ⟨?_, ?_, by simp [append, last, first]⟩
      · simpa [append, last, first] using Function.update_comm other none (some item) l.next
      · simpa [append, last, first] using
          Function.update_comm header (some tail) (some item) l.prev

theorem prepend_inserts (empty : l.head = none ↔ l.tail = none) (fresh : l.head ≠ some item) :
    Inserts l (l.prepend item) none item l.head := by
  have header := Option.some_ne_none item
  cases first : l.head with
  | none =>
      have last := empty.mp first
      refine ⟨?_, ?_, by simp [prepend, last, first]⟩
      · simpa [prepend, last, first] using Function.update_comm header none (some item) l.next
      · simpa [prepend, last, first] using Function.update_comm header none (some item) l.prev
  | some head =>
      have other : some item ≠ some head := fun same => fresh (first.trans same.symm)
      have last : l.tail ≠ none := fun none => by
        rw [empty.mpr none] at first
        cases first
      refine ⟨?_, ?_, by simp [prepend, last, first]⟩
      · simpa [prepend, last, first] using
          Function.update_comm header (some head) (some item) l.next
      · simpa [prepend, last, first] using Function.update_comm other none (some item) l.prev

theorem setNext_link_prev (item other : ι) (value : Option ι) :
    ((l.setNext item value).link other).prev = (l.link other).prev :=
  congrFun (setNext_prev l item value) (some other)

theorem setPrev_link_next (item other : ι) (value : Option ι) :
    ((l.setPrev item value).link other).next = (l.link other).next :=
  congrFun (setPrev_next l item value) (some other)

theorem setNext_link_next {item other : ι} (apart : other ≠ item) (value : Option ι) :
    ((l.setNext item value).link other).next = (l.link other).next := by
  have read := congrFun (setNext_next l item value) (some other)
  rwa [Function.update_of_ne (fun same => apart (Option.some.inj same))] at read

theorem setPrev_link_prev {item other : ι} (apart : other ≠ item) (value : Option ι) :
    ((l.setPrev item value).link other).prev = (l.link other).prev := by
  have read := congrFun (setPrev_prev l item value) (some other)
  rwa [Function.update_of_ne (fun same => apart (Option.some.inj same))] at read

theorem insertBefore_inserts {place : ι} (first : l.head = some place ↔ (l.link place).prev = none)
    (apart : place ≠ item) (fresh : (l.link place).prev ≠ some item) :
    Inserts l (l.insertBefore item place) (l.link place).prev item (some place) := by
  have header := Option.some_ne_none item
  have apart' : some item ≠ some place := fun same => apart (Option.some.inj same).symm
  cases before : (l.link place).prev with
  | none =>
      have front := first.mpr before
      refine ⟨?_, ?_, by simp [insertBefore, setNext_link_prev, setPrev_link_prev apart, before, front]⟩
      · simpa [insertBefore, setNext_link_prev, setPrev_link_prev apart, before, front] using
          Function.update_comm header (some place) (some item) l.next
      · simpa [insertBefore, setNext_link_prev, setPrev_link_prev apart, before, front] using
          Function.update_comm apart' none (some item) l.prev
  | some neighbour =>
      have other : some item ≠ some neighbour := fun same => fresh (before.trans same.symm)
      have inner : l.head ≠ some place := fun same => by
        rw [first.mp same] at before
        cases before
      refine ⟨?_, ?_, by simp [insertBefore, setNext_link_prev, setPrev_link_prev apart, before, inner]⟩
      · simpa [insertBefore, setNext_link_prev, setPrev_link_prev apart, before, inner] using
          Function.update_comm other (some place) (some item) l.next
      · simpa [insertBefore, setNext_link_prev, setPrev_link_prev apart, before, inner] using
          Function.update_comm apart' (some neighbour) (some item) l.prev

theorem insertAfter_inserts {place : ι} (last : l.tail = some place ↔ (l.link place).next = none)
    (apart : place ≠ item) (fresh : (l.link place).next ≠ some item) :
    Inserts l (l.insertAfter item place) (some place) item (l.link place).next := by
  have header := Option.some_ne_none item
  have apart' : some item ≠ some place := fun same => apart (Option.some.inj same).symm
  cases behind : (l.link place).next with
  | none =>
      have back := last.mpr behind
      refine ⟨?_, ?_, by simp [insertAfter, setNext_link_next apart, setPrev_link_next, behind, back]⟩
      · simpa [insertAfter, setNext_link_next apart, setPrev_link_next, behind, back] using
          Function.update_comm apart' none (some item) l.next
      · simpa [insertAfter, setNext_link_next apart, setPrev_link_next, behind, back] using
          Function.update_comm header (some place) (some item) l.prev
  | some neighbour =>
      have other : some item ≠ some neighbour := fun same => fresh (behind.trans same.symm)
      have inner : l.tail ≠ some place := fun same => by
        rw [last.mp same] at behind
        cases behind
      refine ⟨?_, ?_, by simp [insertAfter, setNext_link_next apart, setPrev_link_next, behind, inner]⟩
      · simpa [insertAfter, setNext_link_next apart, setPrev_link_next, behind, inner] using
          Function.update_comm apart' (some neighbour) (some item) l.next
      · simpa [insertAfter, setNext_link_next apart, setPrev_link_next, behind, inner] using
          Function.update_comm other (some place) (some item) l.prev

theorem Represents.append (rep : l.Represents xs) (fresh : item ∉ xs) :
    (l.append item).Represents (xs ++ [item]) := by
  have inserts := append_inserts rep.head_eq_none fun same =>
    fresh (List.mem_of_getLast? (rep.tail.symm.trans same))
  rw [rep.tail] at inserts
  rw [← List.append_nil xs] at rep fresh
  exact rep.insert fresh inserts

theorem Represents.prepend (rep : l.Represents xs) (fresh : item ∉ xs) :
    (l.prepend item).Represents (item :: xs) := by
  have inserts := prepend_inserts rep.head_eq_none fun same =>
    fresh (List.mem_of_head? (rep.head.symm.trans same))
  rw [rep.head] at inserts
  rw [← List.nil_append xs] at rep fresh
  exact rep.insert fresh inserts

theorem Represents.insertBefore {place : ι} (rep : l.Represents (pre ++ place :: post))
    (fresh : item ∉ pre ++ place :: post) :
    (l.insertBefore item place).Represents (pre ++ item :: place :: post) := by
  have before := rep.neighbours.2
  have inserts : Inserts l (l.insertBefore item place) (l.link place).prev item (some place) := by
    refine insertBefore_inserts rep.head_iff ?_ ?_
    · rintro rfl
      exact fresh (List.mem_append_right pre List.mem_cons_self)
    · rw [before]
      exact fun same => fresh (List.mem_append_left _ (List.mem_of_getLast? same))
  rw [before] at inserts
  exact rep.insert fresh inserts

theorem Represents.insertAfter {place : ι} (rep : l.Represents (pre ++ place :: post))
    (fresh : item ∉ pre ++ place :: post) :
    (l.insertAfter item place).Represents (pre ++ place :: item :: post) := by
  have behind := rep.neighbours.1
  have inserts : Inserts l (l.insertAfter item place) (some place) item (l.link place).next := by
    refine insertAfter_inserts rep.tail_iff ?_ ?_
    · rintro rfl
      exact fresh (List.mem_append_right pre List.mem_cons_self)
    · rw [behind]
      exact fun same => fresh (List.mem_append_right pre
        (List.mem_cons_of_mem place (List.mem_of_head? same)))
  rw [behind] at inserts
  have split : pre ++ place :: post = (pre ++ [place]) ++ post := by simp
  rw [split] at rep fresh
  have inserted := rep.insert fresh (by rw [List.getLast?_concat]; exact inserts)
  rwa [List.append_assoc] at inserted

theorem Represents.insertAfter_head {x : ι} (rep : l.Represents (x :: xs)) (fresh : item ∉ x :: xs) :
    (l.insertAfter item x).Represents (x :: item :: xs) := by
  rw [← List.nil_append (x :: xs)] at rep fresh
  exact rep.insertAfter fresh

/-- The neighbours of an item become neighbours. -/
structure Removes (l l' : State ι) (before behind : Option ι) : Prop where
  next : l'.next = Function.update l.next before behind
  prev : l'.prev = Function.update l.prev behind before
  numItems : l'.numItems = l.numItems

theorem unlink_removes (first : l.head = some item ↔ (l.link item).prev = none)
    (last : l.tail = some item ↔ (l.link item).next = none)
    (apartNext : (l.link item).next ≠ some item) (apartPrev : (l.link item).prev ≠ some item) :
    ∃ l', l.unlink item = some l' ∧ Removes l l' (l.link item).prev (l.link item).next := by
  cases before : (l.link item).prev with
  | none =>
      have front := first.mpr before
      cases behind : (l.link item).next with
      | none =>
          have back := last.mpr behind
          refine ⟨(l.setHead none).setTail none, by simp [unlink, front, back, before, behind], ?_⟩
          exact ⟨by simp, by simp, rfl⟩
      | some next =>
          have inner : l.tail ≠ some item := fun same => by
            rw [last.mp same] at behind
            cases behind
          refine ⟨(l.setHead next).setPrev next none, by simp [unlink, front, inner, behind], ?_⟩
          exact ⟨by simp, by simp, rfl⟩
  | some prev =>
      have inner : l.head ≠ some item := fun same => by
        rw [first.mp same] at before
        cases before
      have otherPrev : item ≠ prev := fun same => apartPrev (by rw [before, same])
      cases behind : (l.link item).next with
      | none =>
          have back := last.mpr behind
          refine ⟨(l.setTail prev).setNext prev none, by simp [unlink, inner, back, before], ?_⟩
          exact ⟨by simp, by simp, rfl⟩
      | some next =>
          have inner' : l.tail ≠ some item := fun same => by
            rw [last.mp same] at behind
            cases behind
          have otherNext : item ≠ next := fun same => apartNext (by rw [behind, same])
          refine ⟨(l.setPrev next prev).setNext prev next, by
            simp [unlink, inner, inner', before, behind, setPrev_link_prev otherNext,
              setPrev_link_next], ?_⟩
          exact ⟨by simp, by simp, rfl⟩

/-- The links of an item that is not in the list can be changed. -/
theorem Represents.clear (rep : l.Represents xs) (absent : item ∉ xs) :
    ((l.setPrev item none).setNext item none).Represents xs := by
  have outside (n : Option ι) (member : n ∈ none :: xs.map some) : n ≠ some item := by
    rintro rfl
    rw [List.mem_cons] at member
    exact absent (by simpa using member)
  refine ⟨rep.linked.congr (fun n member => ?_) (fun n member => ?_), rep.nodup, rep.numItems⟩
  · rw [setNext_next, Function.update_of_ne (outside n member), setPrev_next]
  · rw [setNext_prev, setPrev_prev, Function.update_of_ne (outside n ?_)]
    rcases List.mem_append.mp member with inside | last
    · exact List.mem_cons_of_mem _ inside
    · rw [List.mem_singleton.mp last]
      exact List.mem_cons_self

/-- `remove` takes the item out of the list, and leaves it without links. -/
theorem Represents.remove (rep : l.Represents (pre ++ item :: post)) :
    ∃ l', l.remove item = some l' ∧ l'.Represents (pre ++ post) ∧
      (l'.link item).next = none ∧ (l'.link item).prev = none := by
  obtain ⟨behind, before⟩ := rep.neighbours
  have nodup := rep.nodup
  have absent : item ∉ pre ++ post := (List.nodup_middle.mp nodup |> List.nodup_cons.mp).1
  obtain ⟨l₁, unlinked, removes⟩ := unlink_removes rep.head_iff rep.tail_iff
    (by
      rw [behind]
      exact fun same => absent (List.mem_append_right pre (List.mem_of_head? same)))
    (by
      rw [before]
      exact fun same => absent (List.mem_append_left post (List.mem_of_getLast? same)))
  rw [before, behind] at removes
  have distinct : (pre ++ post).Nodup := (List.nodup_cons.mp (List.nodup_middle.mp nodup)).2
  have linked : Linked l₁.next l₁.prev none ((pre ++ post).map some) none := by
    have ring := distinct_ring distinct
    have start := rep.linked
    rw [List.map_append] at ring ⊢
    rw [List.map_append, List.map_cons] at start
    have after := start.remove ring
    rwa [getLastD_map_some, headD_map_some, ← removes.next, ← removes.prev] at after
  have count : l₁.numItems - 1 = (pre ++ post).length := by
    rw [removes.numItems, rep.numItems, List.length_append, List.length_append, List.length_cons]
    rfl
  have shorter : (l₁.setNumItems (l₁.numItems - 1)).Represents (pre ++ post) :=
    ⟨by rw [setNum_next, setNum_prev]; exact linked, distinct, count⟩
  refine ⟨_, by rw [State.remove, unlinked]; rfl, shorter.empty.clear absent, ?_, ?_⟩
  · simp [setNext]
  · simp [setNext, setPrev]

/-- The search of `binary_insert` and what it does at the place that it comes to. -/
theorem Represents.binaryInsert_search {x : ι} (rep : l.Represents (x :: xs))
    (compare : ι → ι → Ordering) (item : ι) (long : 1 < (x :: xs).length) :
    Inserted l (x :: xs) item
      (match Bisection.search (compAt (compare item) (x :: xs)) 1 (x :: xs).length 1 with
      | .found cur => (x :: xs, (x :: xs)[cur - 1]?)
      | .stopped _ high cur =>
          if high = cur then ((x :: xs).insertIdx (cur - 1) item, none)
          else ((x :: xs).insertIdx cur item, none))
      (do
        match ← l.bisect compare item 1 (x :: xs).length 1 (some x) with
        | .found curItem => some (curItem, l)
        | .stopped _ high cur curItem => do
            let curItem ← curItem
            some (item, if high = cur then l.insertBefore item curItem
              else l.insertAfter item curItem)) := by
  have search := rep.bisect compare item (le_refl 1) (le_refl _) (le_refl 1) (le_of_lt long)
  rw [show (some x : Option ι) = (x :: xs)[1 - 1]? from rfl, search]
  cases result : Bisection.search (compAt (compare item) (x :: xs)) 1 (x :: xs).length 1 with
  | found cur =>
      have inside := Bisection.settle_search_eq_some (j := cur) long (by rw [result]; rfl)
      obtain ⟨z, at_cur, -, -⟩ := compAt_eq_iff (compare item) (x :: xs) (p := cur)
        ⟨inside.1, inside.2.1⟩
      dsimp only
      rw [at_cur]
      exact inserted_found _ z
  | stopped low high cur =>
      obtain ⟨oneCur, curLength⟩ := Bisection.search_stopped_bounds long result
      obtain ⟨k, rfl⟩ : ∃ k, cur = k + 1 := ⟨cur - 1, by omega⟩
      have here : k < (x :: xs).length := by omega
      have split : (x :: xs).take k ++ (x :: xs)[k] :: (x :: xs).drop (k + 1) = x :: xs := by
        rw [List.cons_getElem_drop_succ, List.take_append_drop]
      have rep' := rep
      rw [← split] at rep'
      dsimp only
      rw [Nat.add_sub_cancel, List.getElem?_eq_getElem here, Option.bind_eq_bind,
        Option.bind_some]
      dsimp only
      rw [Option.bind_eq_bind, Option.bind_some]
      by_cases before : high = k + 1
      · rw [if_pos before, if_pos before, insertIdx_eq_take_drop (by omega),
          ← List.cons_getElem_drop_succ (h := here)]
        exact inserted_new fun fresh => rep'.insertBefore (by rwa [split])
      · rw [if_neg before, if_neg before, insertIdx_eq_take_drop (by omega),
          ← List.take_append_getElem here, List.append_assoc]
        exact inserted_new fun fresh => rep'.insertAfter (by rwa [split])

/-- `binary_insert` in the links is the insertion into the list of the items. -/
theorem Represents.binaryInsert (rep : l.Represents xs) (compare : ι → ι → Ordering)
    (item : ι) :
    Inserted l xs item (Dlist.binaryInsert compare item xs) (l.binaryInsert compare item) := by
  unfold State.binaryInsert Dlist.binaryInsert
  match xs, rep with
  | [], rep =>
      have zero : l.numItems = 0 := rep.numItems
      rw [if_pos zero]
      exact inserted_new fun fresh => rep.append fresh
  | [x], rep =>
      have one : l.numItems = 1 := rep.numItems
      rw [if_neg (by rw [one]; exact one_ne_zero), rep.head, List.head?_cons,
        Option.bind_eq_bind, Option.bind_some, if_pos one]
      dsimp only
      cases compare item x with
      | lt => exact inserted_new fun fresh => rep.prepend fresh
      | gt => exact inserted_new fun fresh => rep.insertAfter_head fresh
      | eq => exact inserted_found _ x
  | x :: y :: rest, rep =>
      have long : 1 < (x :: y :: rest).length := by simp
      have tail : l.tail = some ((y :: rest).getLast (List.cons_ne_nil y rest)) := by
        rw [rep.tail, List.getLast?_cons_cons, List.getLast?_eq_some_getLast]
      rw [if_neg (by rw [rep.numItems]; simp), rep.head, List.head?_cons, Option.bind_eq_bind,
        Option.bind_some, if_neg (by rw [rep.numItems]; simp), tail, Option.bind_eq_bind,
        Option.bind_some]
      dsimp only
      cases compare item ((y :: rest).getLast (List.cons_ne_nil y rest)) with
      | gt => exact inserted_new fun fresh => rep.append fresh
      | eq => exact inserted_found _ _
      | lt =>
          cases compare item x with
          | lt => exact inserted_new fun fresh => rep.prepend fresh
          | eq => exact inserted_found _ x
          | gt =>
              dsimp only
              rw [rep.numItems]
              by_cases two : (x :: y :: rest).length = 2
              · rw [if_pos two, if_pos two]
                exact inserted_new fun fresh => rep.insertAfter_head fresh
              · rw [if_neg two, if_neg two]
                exact rep.binaryInsert_search compare item long

end Operations

end Writes

end State
end Bacula.Dlist
