import Mathlib

/-! The indexed list of `lib/ilist.c`, as `put` builds it. The list can have holes: a slot of
the array that is NULL. `put` is exact as long as the lengths of the array are `int`s, `putInt` is
the same call with the sums of `int`. -/
namespace Bacula

/-- A slot of an array of pointers. -/
def slot {α : Type} (items : List (Option α)) (i : ℕ) : Option α := (items[i]?).join

/-- `ilist`. The array is empty when `items` is NULL; its length is `max_items`. -/
structure Ilist (α : Type) where
  items : List (Option α)
  numItems : ℕ
  /-- maximum item index -/
  lastItem : ℕ
  numGrow : ℕ
  /-- The last index is inside of the array. -/
  room : items = [] ∧ lastItem = 0 ∨ lastItem < items.length
  /-- No item is above the last index. -/
  above : ∀ i, lastItem < i → slot items i = none

namespace Ilist

variable {α : Type}

/-- `ilist::init`. -/
def init (num : ℕ) : Ilist α where
  items := []
  numItems := 0
  lastItem := 0
  numGrow := num
  room := Or.inl ⟨rfl, rfl⟩
  above _ _ := rfl

/-- The length that an `int` holds after a sum: a negative one leaves no room. -/
def int (n : ℕ) : ℕ := ((n : ℤ).bmod (2 ^ 32)).toNat

/-- `ilist::grow_list`, with the new `items` and `num_grow`. The sums are those of `int`. -/
def growList (items : List (Option α)) (lastItem numGrow : ℕ) : List (Option α) × ℕ :=
  let numGrow := max numGrow (max 10 (int (lastItem + 1)))
  if items = [] then (List.replicate numGrow none, numGrow)
  else if items.length ≤ lastItem then
    let newMaxItems := int (lastItem + numGrow)
    (items.take newMaxItems ++ List.replicate (newMaxItems - items.length) none, numGrow)
  else (items, numGrow)

/-- No sum of `grow_list` is larger than an `int`. -/
def Grows (items : List (Option α)) (lastItem numGrow : ℕ) : Prop :=
  if items = [] then lastItem + 1 < 2 ^ 31
  else lastItem < items.length ∨ lastItem + max numGrow (max 10 (lastItem + 1)) < 2 ^ 31

instance (items : List (Option α)) (lastItem numGrow : ℕ) : Decidable (Grows items lastItem numGrow) :=
  inferInstanceAs (Decidable (if items = [] then _ else _))

/-- What `grow_list` does when its sums are exact. -/
def extend (items : List (Option α)) (lastItem numGrow : ℕ) : List (Option α) × ℕ :=
  let numGrow := max numGrow (max 10 (lastItem + 1))
  if items = [] then (List.replicate numGrow none, numGrow)
  else if items.length ≤ lastItem then
    (items ++ List.replicate (lastItem + numGrow - items.length) none, numGrow)
  else (items, numGrow)

theorem int_exact {n : ℕ} (small : n < 2 ^ 31) : int n = n := by
  unfold int Int.bmod
  dsimp only
  split <;> omega

theorem int_negative {n : ℕ} (large : 2 ^ 31 ≤ n) (small : n < 2 ^ 32) : int n = 0 := by
  unfold int Int.bmod
  dsimp only
  split <;> omega

theorem growList_eq {items : List (Option α)} {lastItem numGrow : ℕ} (length : items.length < 2 ^ 31)
    (grows : Grows items lastItem numGrow) :
    growList items lastItem numGrow = extend items lastItem numGrow := by
  unfold Grows at grows
  unfold growList extend
  by_cases null : items = []
  · rw [if_pos null] at grows
    rw [int_exact grows, if_pos null, if_pos null]
  · rw [if_neg null] at grows
    have last : lastItem + 1 < 2 ^ 31 := by omega
    rw [int_exact last, if_neg null, if_neg null]
    by_cases full : items.length ≤ lastItem
    · have sum := grows.resolve_left (not_lt.mpr full)
      dsimp only
      rw [if_pos full, if_pos full, int_exact sum, List.take_of_length_le (by omega)]
    · rw [if_neg full, if_neg full]

/-- A sum that is too large leaves an array without the last item, and one that was there is lost. -/
theorem growList_short {items : List (Option α)} {lastItem numGrow : ℕ} (last : lastItem < 2 ^ 31)
    (grow : numGrow < 2 ^ 31) (overflows : ¬ Grows items lastItem numGrow) :
    (growList items lastItem numGrow).1.length ≤ if items = [] then lastItem else 0 := by
  unfold Grows at overflows
  unfold growList
  by_cases null : items = []
  · rw [if_pos null] at overflows
    rw [if_pos null, if_pos null, List.length_replicate, int_negative (by omega) (by omega)]
    omega
  · rw [if_neg null, not_or, not_lt] at overflows
    rw [if_neg null, if_neg null, if_pos overflows.1]
    have bound : int (lastItem + 1) ≤ lastItem + 1 := by
      unfold int Int.bmod
      dsimp only
      split <;> omega
    have large : int (lastItem + 1) = lastItem + 1 ∨ lastItem + 1 = 2 ^ 31 := by
      rcases Nat.lt_or_ge (lastItem + 1) (2 ^ 31) with small | large
      · exact .inl (int_exact small)
      · exact .inr (by omega)
    dsimp only
    rw [int_negative (by omega) (by omega), List.take_zero, Nat.zero_sub, List.replicate_zero]
    exact le_refl 0

/-- The array and its growth stay within an `int`. -/
theorem growList_bounds {items : List (Option α)} {lastItem numGrow : ℕ}
    (length : items.length < 2 ^ 31) (grow : numGrow < 2 ^ 31) (grows : Grows items lastItem numGrow) :
    (growList items lastItem numGrow).1.length < 2 ^ 31 ∧
    (growList items lastItem numGrow).2 < 2 ^ 31 := by
  rw [growList_eq length grows]
  unfold Grows at grows
  unfold extend
  by_cases null : items = []
  · rw [if_pos null] at grows ⊢
    rw [List.length_replicate]
    constructor <;> omega
  · rw [if_neg null] at grows ⊢
    split
    · rw [List.length_append, List.length_replicate]
      constructor <;> omega
    · constructor
      · exact length
      · dsimp only
        omega

theorem lt_extend_length (items : List (Option α)) (lastItem numGrow : ℕ) :
    lastItem < (extend items lastItem numGrow).1.length := by
  unfold extend
  dsimp only
  split
  · rw [List.length_replicate]
    omega
  · split
    · rw [List.length_append, List.length_replicate]
      omega
    · rename_i room
      exact not_le.mp room

theorem slot_append_replicate (items : List (Option α)) (n i : ℕ) :
    slot (items ++ List.replicate n none) i = slot items i := by
  unfold slot
  by_cases inside : i < items.length
  · rw [List.getElem?_append_left inside]
  · rw [List.getElem?_append_right (not_lt.mp inside), List.getElem?_replicate,
      List.getElem?_eq_none (not_lt.mp inside)]
    split <;> rfl

theorem extend_slot (items : List (Option α)) (lastItem numGrow i : ℕ) :
    slot (extend items lastItem numGrow).1 i = slot items i := by
  unfold extend
  dsimp only
  split
  · rename_i null
    rw [null]
    exact slot_append_replicate [] _ i
  · split
    · exact slot_append_replicate items _ i
    · rfl

theorem extend_countP (items : List (Option α)) (lastItem numGrow : ℕ) :
    (extend items lastItem numGrow).1.countP Option.isSome = items.countP Option.isSome := by
  unfold extend
  dsimp only
  split
  · rename_i null
    rw [null, List.countP_replicate]
    rfl
  · split
    · rw [List.countP_append, List.countP_replicate]
      rfl
    · rfl

theorem slot_set {items : List (Option α)} {index : ℕ} (inside : index < items.length)
    (item : Option α) (i : ℕ) :
    slot (items.set index item) i = if i = index then item else slot items i := by
  unfold slot
  split
  · rename_i same
    rw [same, List.getElem?_set_self inside]
    rfl
  · rename_i other
    rw [List.getElem?_set_ne (Ne.symm other)]

/-- `ilist::put` while the sums of `grow_list` are exact. A slot that was NULL counts as a new item,
also when the item is NULL. -/
def put (l : Ilist α) (index : ℕ) (item : Option α) : Ilist α :=
  let lastItem := if l.lastItem < index then index else l.lastItem
  let grown := extend l.items lastItem l.numGrow
  have inside : index ≤ lastItem := by
    dsimp only [lastItem]
    split <;> omega
  have room : lastItem < grown.1.length := lt_extend_length _ _ _
  { items := grown.1.set index item
    numItems := if slot grown.1 index = none then l.numItems + 1 else l.numItems
    lastItem
    numGrow := grown.2
    room := Or.inr (by rw [List.length_set]; exact room)
    above := fun i behind => by
      rw [slot_set (lt_of_le_of_lt inside room), if_neg (ne_of_gt (lt_of_le_of_lt inside behind)),
        extend_slot]
      refine l.above i (lt_of_le_of_lt ?_ behind)
      dsimp only [lastItem]
      split <;> omega }

/-- `ilist::get`. -/
def get (l : Ilist α) (index : ℤ) : Option α :=
  if l.items = [] ∨ index < 0 ∨ (l.lastItem : ℤ) < index then none else slot l.items index.toNat

/-- `ilist::size`. -/
def size (l : Ilist α) : ℕ := l.numItems

/-- The number of items that are in the list. -/
def count (l : Ilist α) : ℕ := l.items.countP Option.isSome

theorem get_eq (l : Ilist α) (index : ℤ) :
    l.get index = if index < 0 then none else slot l.items index.toNat := by
  unfold get
  by_cases negative : index < 0
  · rw [if_pos (Or.inr (Or.inl negative)), if_pos negative]
  · rw [if_neg negative]
    split
    · rename_i outside
      rcases outside with null | before | behind
      · rw [null]
        rfl
      · exact absurd before negative
      · exact (l.above index.toNat (by omega)).symm
    · rfl

theorem put_inside (l : Ilist α) (index : ℕ) :
    index < (extend l.items (if l.lastItem < index then index else l.lastItem) l.numGrow).1.length := by
  refine lt_of_le_of_lt ?_ (lt_extend_length _ _ _)
  split <;> omega

theorem put_slot (l : Ilist α) (index : ℕ) (item : Option α) (i : ℕ) :
    slot (l.put index item).items i = if i = index then item else slot l.items i := by
  unfold put
  dsimp only
  rw [slot_set (l.put_inside index), extend_slot]

/-- An item that is put into an empty slot is one item more, but NULL is none. -/
theorem put_count (l : Ilist α) {index : ℕ} (free : slot l.items index = none)
    (item : Option α) :
    (l.put index item).count = l.count + if item.isSome then 1 else 0 := by
  have inside := l.put_inside index
  have before := extend_slot l.items (if l.lastItem < index then index else l.lastItem)
    l.numGrow index
  rw [free, slot, List.getElem?_eq_getElem inside, Option.join_some] at before
  unfold count put
  dsimp only
  rw [List.countP_set inside, before, extend_countP]
  simp

theorem put_size (l : Ilist α) {index : ℕ} (free : slot l.items index = none)
    (item : Option α) : (l.put index item).size = l.size + 1 := by
  unfold size put
  dsimp only
  rw [extend_slot, if_pos free]

section Int

theorem growList_kept {items : List (Option α)} {lastItem : ℕ} (numGrow : ℕ)
    (inside : lastItem < items.length) :
    (growList items lastItem numGrow).1 = items := by
  have some : items ≠ [] := List.ne_nil_of_length_pos (Nat.zero_lt_of_lt inside)
  unfold growList
  dsimp only
  rw [if_neg some, if_neg (not_le.mpr inside)]

theorem growList_free {items : List (Option α)} {i : ℕ} (lastItem numGrow : ℕ)
    (free : slot items i = none) :
    slot (growList items lastItem numGrow).1 i = none := by
  unfold growList
  dsimp only
  split
  · exact slot_append_replicate [] _ i
  · split
    · rw [slot_append_replicate]
      unfold slot
      rw [List.getElem?_take]
      split
      · exact free
      · rfl
    · exact free

theorem room_of_inside (l : Ilist α) {index : ℕ}
    (inside : index <
      (growList l.items (if l.lastItem < index then index else l.lastItem) l.numGrow).1.length) :
    (if l.lastItem < index then index else l.lastItem) <
      (growList l.items (if l.lastItem < index then index else l.lastItem) l.numGrow).1.length := by
  by_cases above : l.lastItem < index
  · rw [if_pos above] at inside ⊢
    exact inside
  · rw [if_neg above]
    rcases l.room with ⟨null, zero⟩ | room
    · unfold growList
      dsimp only
      rw [if_pos null, List.length_replicate]
      omega
    · rw [growList_kept l.numGrow room]
      exact room

/-- `ilist::put`. There is no list when the item is written outside of the array. -/
def putInt (l : Ilist α) (index : ℕ) (item : Option α) : Option (Ilist α) :=
  let lastItem := if l.lastItem < index then index else l.lastItem
  let grown := growList l.items lastItem l.numGrow
  if inside : index < grown.1.length then
    some
      { items := grown.1.set index item
        numItems := if slot grown.1 index = none then l.numItems + 1 else l.numItems
        lastItem
        numGrow := grown.2
        room := Or.inr (by rw [List.length_set]; exact l.room_of_inside inside)
        above := fun i behind => by
          have last : index ≤ lastItem ∧ l.lastItem ≤ lastItem := by
            dsimp only [lastItem]
            split <;> omega
          rw [slot_set inside, if_neg (by omega)]
          exact growList_free _ _ (l.above i (by omega)) }
  else none

/-- A list that starts with room for 100 items, and its array as long as it grows. -/
def Tidy (l : Ilist α) : Prop :=
  if l.items = [] then l.numGrow = 100
  else 100 ≤ l.items.length ∧ l.items.length < 2 ^ 31 ∧ l.numGrow ≤ l.items.length

/-- The length of an array of `size` slots after a put, if it is an `int`. -/
def fill (size index : ℕ) : ℕ :=
  if size = 0 then max 100 (index + 1) else if index < size then size else 2 * index + 1

theorem init_tidy : (init 100 : Ilist α).Tidy := by
  simp [Tidy, init]

theorem Tidy.grows {l : Ilist α} (tidy : l.Tidy) (index : ℕ) :
    Grows l.items (max l.lastItem index) l.numGrow ↔ fill l.items.length index < 2 ^ 31 := by
  unfold Tidy at tidy
  unfold Grows fill
  by_cases null : l.items = []
  · obtain ⟨-, zero⟩ | room := l.room
    · rw [if_pos null, if_pos (List.length_eq_zero_iff.mpr null), zero]
      omega
    · rw [null] at room
      exact absurd room (Nat.not_lt_zero _)
  · rw [if_neg null] at tidy ⊢
    have room := l.room.resolve_left fun none => null none.1
    rw [if_neg (fun zero => null (List.length_eq_zero_iff.mp zero))]
    split <;> omega

theorem Tidy.length {l : Ilist α} (tidy : l.Tidy) : l.items.length < 2 ^ 31 := by
  unfold Tidy at tidy
  split at tidy
  · rename_i null
    rw [null]
    exact Nat.two_pow_pos 31
  · exact tidy.2.1

theorem Tidy.last {l : Ilist α} (tidy : l.Tidy) : l.lastItem + 1 < 2 ^ 31 := by
  have length := tidy.length
  have room := l.room
  omega

/-- A put that has room is at an `int`. -/
theorem lt_of_fill {size index : ℕ} (length : size < 2 ^ 31) (room : fill size index < 2 ^ 31) :
    index < 2 ^ 31 := by
  unfold fill at room
  split at room
  · omega
  · split at room <;> omega

/-- A put that has room is the exact one. -/
theorem Tidy.putInt_eq {l : Ilist α} (tidy : l.Tidy) {index : ℕ}
    (room : fill l.items.length index < 2 ^ 31) (item : Option α) :
    l.putInt index item = some (l.put index item) := by
  have last : (if l.lastItem < index then index else l.lastItem) = max l.lastItem index := by
    split <;> omega
  have grows := (tidy.grows index).mpr room
  rw [← last] at grows
  have exact := growList_eq tidy.length grows
  have inside := l.put_inside index
  unfold Ilist.putInt Ilist.put
  simp only [exact, dif_pos inside]

theorem Tidy.putInt_none {l : Ilist α} (tidy : l.Tidy) {index : ℕ} (int : index < 2 ^ 31)
    (full : ¬ fill l.items.length index < 2 ^ 31) (item : Option α) : l.putInt index item = none := by
  have last : (if l.lastItem < index then index else l.lastItem) = max l.lastItem index := by
    split <;> omega
  have length := tidy.length
  have overflows := fun grows => full ((tidy.grows index).mp grows)
  unfold Tidy at tidy
  unfold Ilist.putInt
  dsimp only
  rw [dif_neg]
  rw [last]
  by_cases null : l.items = []
  · rw [if_pos null] at tidy
    obtain ⟨-, zero⟩ | room := l.room
    · have short := growList_short (by omega) (by omega) overflows
      rw [if_pos null] at short
      omega
    · rw [null] at room
      exact absurd room (Nat.not_lt_zero _)
  · rw [if_neg null] at tidy
    have room := l.room.resolve_left fun none => null none.1
    have short := growList_short (by omega) (by omega) overflows
    rw [if_neg null] at short
    omega

/-- The array after a put that has room. -/
theorem Tidy.put {l : Ilist α} (tidy : l.Tidy) {index : ℕ} (room : fill l.items.length index < 2 ^ 31)
    (item : Option α) :
    (l.put index item).Tidy ∧ (l.put index item).items.length = fill l.items.length index := by
  have last : (if l.lastItem < index then index else l.lastItem) = max l.lastItem index := by
    split <;> omega
  have grown : (l.put index item).items.length = fill l.items.length index ∧
      100 ≤ fill l.items.length index ∧ (l.put index item).numGrow ≤ fill l.items.length index := by
    change (List.set (extend l.items _ l.numGrow).1 index item).length = _ ∧ _ ∧
      (extend l.items _ l.numGrow).2 ≤ _
    rw [List.length_set, last]
    unfold Tidy at tidy
    unfold extend fill
    dsimp only
    by_cases null : l.items = []
    · rw [if_pos null] at tidy
      obtain ⟨-, zero⟩ | room := l.room
      · rw [if_pos null, if_pos (List.length_eq_zero_iff.mpr null), List.length_replicate, zero, tidy]
        omega
      · rw [null] at room
        exact absurd room (Nat.not_lt_zero _)
    · rw [if_neg null] at tidy ⊢
      have inside := l.room.resolve_left fun none => null none.1
      rw [if_neg (fun zero => null (List.length_eq_zero_iff.mp zero))]
      by_cases below : index < l.items.length
      · rw [if_pos below, if_neg (by omega)]
        exact ⟨rfl, tidy.1, by dsimp only; omega⟩
      · rw [if_neg below, if_pos (by omega), List.length_append, List.length_replicate]
        dsimp only
        omega
  refine ⟨?_, grown.1⟩
  have some : (l.put index item).items ≠ [] := by
    intro null
    rw [null, List.length_nil] at grown
    omega
  unfold Tidy
  rw [if_neg some, grown.1]
  exact ⟨grown.2.1, room, grown.2.2⟩

/-- The array of a list, and those of the puts at some indexes after each other, have a length that
is an `int`. -/
def Fits : ℕ → List ℕ → Prop
  | _, [] => True
  | size, index :: rest => fill size index < 2 ^ 31 ∧ Fits (fill size index) rest

/-- A loop that puts an item at some of the indexes is the exact one, or it leaves the array. -/
theorem puts_fit {round : Ilist α → ℕ → Option (Ilist α)} {exact : Ilist α → ℕ → Ilist α}
    {puts : ℕ → Bool} (rounds : ∀ l index,
      puts index = true ∧
        (∃ item, round l index = l.putInt index item ∧ exact l index = l.put index item) ∨
      puts index = false ∧ round l index = some l ∧ exact l index = l)
    {indexes : List ℕ} (ints : ∀ index ∈ indexes, index < 2 ^ 31) {l : Ilist α} (tidy : l.Tidy) :
    (Fits l.items.length (indexes.filter puts) →
      indexes.foldlM round l = some (indexes.foldl exact l) ∧ (indexes.foldl exact l).Tidy) ∧
    (¬ Fits l.items.length (indexes.filter puts) → indexes.foldlM round l = none) := by
  induction indexes generalizing l with
  | nil => exact ⟨fun _ => ⟨rfl, tidy⟩, fun out => absurd trivial out⟩
  | cons index indexes ih =>
      have later := fun index inside => ints index (List.mem_cons_of_mem _ inside)
      rw [List.foldlM_cons, List.foldl_cons, List.filter_cons]
      rcases rounds l index with ⟨put, item, round, exact⟩ | ⟨stay, round, exact⟩
      · rw [if_pos put, round, exact]
        by_cases room : fill l.items.length index < 2 ^ 31
        · obtain ⟨next, length⟩ := tidy.put room item
          obtain ⟨fits, leaves⟩ := ih later next
          rw [tidy.putInt_eq room, Option.bind_eq_bind, Option.bind_some]
          rw [length] at fits leaves
          exact ⟨fun all => fits all.2, fun out => leaves fun rest => out ⟨room, rest⟩⟩
        · have none := tidy.putInt_none (ints index List.mem_cons_self) room item
          rw [none]
          exact ⟨fun all => absurd all.1 room, fun _ => rfl⟩
      · rw [if_neg (by rw [stay]; exact Bool.false_ne_true), round, exact]
        exact ih later tidy

end Int

section Map

variable {β : Type}

theorem slot_map (f : α → β) (items : List (Option α)) (i : ℕ) :
    slot (items.map (Option.map f)) i = (slot items i).map f := by
  unfold slot
  rw [List.getElem?_map]
  cases items[i]? <;> rfl

/-- The list of what is at the pointers of a list. -/
def map (f : α → β) (l : Ilist α) : Ilist β where
  items := l.items.map (Option.map f)
  numItems := l.numItems
  lastItem := l.lastItem
  numGrow := l.numGrow
  room := by
    rw [List.map_eq_nil_iff, List.length_map]
    exact l.room
  above i behind := by
    rw [slot_map, l.above i behind]
    rfl

/-- The last index is that of an item, or the list has no item above index 0. -/
def Tight (l : Ilist α) : Prop := l.lastItem = 0 ∨ slot l.items l.lastItem ≠ none

theorem init_tight (num : ℕ) : (init num : Ilist α).Tight := Or.inl rfl

theorem put_lastItem (l : Ilist α) (index : ℕ) (item : Option α) :
    (l.put index item).lastItem = max l.lastItem index := by
  change (if l.lastItem < index then index else l.lastItem) = _
  split <;> omega

theorem Tight.put {l : Ilist α} (tight : l.Tight) (index : ℕ) (item : α) :
    (l.put index (some item)).Tight := by
  unfold Tight
  rw [put_lastItem, put_slot]
  rcases le_total l.lastItem index with below | above
  · rw [max_eq_right below, if_pos rfl]
    exact Or.inr (Option.some_ne_none item)
  · rw [max_eq_left above]
    by_cases same : l.lastItem = index
    · rw [if_pos same]
      exact Or.inr (Option.some_ne_none item)
    · rw [if_neg same]
      exact tight

end Map

end Ilist
end Bacula
