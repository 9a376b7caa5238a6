import Bacula.Lib.IlistOps

/-! The runs in which the list is the map from indexes to items. -/
namespace Bacula.IlistOps

variable {α : Type}

theorem slot_eq_none {items : List (Option α)} {i : ℕ} (outside : items.length ≤ i) :
    slot items i = none := by
  rw [slot, List.getElem?_eq_none outside]
  rfl

theorem lt_of_slot {items : List (Option α)} {i : ℕ} (used : slot items i ≠ none) : i < items.length :=
  not_le.mp fun outside => used (slot_eq_none outside)

theorem finite_slots (items : List (Option α)) : {i | slot items i ≠ none}.Finite :=
  (Set.finite_Iio items.length).subset fun _ used => lt_of_slot used

/-- The items that are not NULL, counted by their indexes. -/
theorem mapSize_slot (items : List (Option α)) : mapSize (slot items) = items.countP Option.isSome := by
  induction items with
  | nil =>
      have none : {i | slot ([] : List (Option α)) i ≠ none} = ∅ :=
        Set.eq_empty_of_forall_notMem fun i (used : slot [] i ≠ none) => used rfl
      rw [mapSize, none, Set.ncard_empty]
      rfl
  | cons a items ih =>
      have rest : (Nat.succ '' {i | slot items i ≠ none}).ncard = items.countP Option.isSome := by
        rw [Set.ncard_image_of_injective _ Nat.succ_injective]
        exact ih
      have zero : 0 ∉ Nat.succ '' {i | slot items i ≠ none} := by
        rintro ⟨i, -, eq⟩
        exact Nat.succ_ne_zero i eq
      cases a with
      | none =>
          have same : {i | slot (none :: items) i ≠ none} = Nat.succ '' {i | slot items i ≠ none} := by
            ext i
            cases i with
            | zero => exact ⟨fun used => absurd rfl used, fun inside => absurd inside zero⟩
            | succ i => exact ⟨fun used => ⟨i, used, rfl⟩,
                fun ⟨j, used, eq⟩ => Nat.succ_injective eq ▸ used⟩
          rw [mapSize, same, rest]
          rfl
      | some x =>
          have same : {i | slot (some x :: items) i ≠ none} =
              insert 0 (Nat.succ '' {i | slot items i ≠ none}) := by
            ext i
            cases i with
            | zero => exact ⟨fun _ => Set.mem_insert _ _, fun _ => Option.some_ne_none x⟩
            | succ i =>
                exact ⟨fun used => .inr ⟨i, used, rfl⟩, fun inside => by
                  obtain ⟨j, used, eq⟩ := inside.resolve_left (Nat.succ_ne_zero i)
                  exact Nat.succ_injective eq ▸ used⟩
          rw [mapSize, same, Set.ncard_insert_of_notMem zero ((finite_slots items).image _), rest,
            List.countP_cons_of_pos rfl]

/-- What the fields are while every call is settled: all slots below a free last index are in use. -/
structure Sound (l : Fields α) : Prop where
  room : l.lastItem ≤ l.items.length
  above : ∀ i, l.lastItem < i → slot l.items i = none
  dense : slot l.items l.lastItem = none → ∀ i < l.lastItem, slot l.items i ≠ none
  count : l.numItems = l.items.countP Option.isSome
  length : l.items.length < 2 ^ 31
  grow : l.numGrow < 2 ^ 31

theorem init_sound (num : Fin (2 ^ 31)) : Sound (init num : Fields α) where
  room := le_refl 0
  above _ _ := rfl
  dense _ i below := absurd below (Nat.not_lt_zero i)
  count := rfl
  length := Nat.two_pow_pos 31
  grow := num.isLt

theorem Sound.get {l : Fields α} (sound : Sound l) (index : ℤ) :
    get l index = if index < 0 then none else slot l.items index.toNat := by
  unfold IlistOps.get
  by_cases negative : index < 0
  · rw [if_pos (.inr (.inl negative)), if_pos negative]
  · rw [if_neg negative]
    split
    · rename_i outside
      rcases outside with null | before | behind
      · rw [null]
        rfl
      · exact absurd before negative
      · exact (sound.above index.toNat (by omega)).symm
    · rfl

theorem Sound.shows {l : Fields α} (sound : Sound l) : Shows l (slot l.items) where
  get := sound.get
  size := by rw [mapSize_slot]; exact sound.count

/-- The last index is the first free one, or the highest in use. -/
theorem Sound.next {l : Fields α} (sound : Sound l) :
    next (slot l.items) = if slot l.items l.lastItem = none then l.lastItem else l.lastItem + 1 := by
  split
  case isTrue free =>
    refine IsLeast.csInf_eq ⟨fun i above => ?_, fun n all => ?_⟩
    · rcases Nat.lt_or_eq_of_le above with above | rfl
      · exact sound.above i above
      · exact free
    · refine not_lt.mp fun below => ?_
      exact sound.dense free n below (all n (le_refl n))
  case isFalse used =>
    refine IsLeast.csInf_eq ⟨fun i above => sound.above i above, fun n all => ?_⟩
    refine not_lt.mp fun below => ?_
    exact used (all l.lastItem (Nat.lt_succ_iff.mp below))

theorem Sound.full {l : Fields α} (sound : Sound l) (free : slot l.items l.lastItem = none) :
    l.items.countP Option.isSome = l.lastItem := by
  have used : {i | slot l.items i ≠ none} = Set.Iio l.lastItem := by
    ext i
    refine ⟨fun used => Set.mem_Iio.mpr (not_le.mp fun above => used ?_),
      fun below => sound.dense free i below⟩
    rcases Nat.lt_or_eq_of_le above with above | rfl
    · exact sound.above i above
    · exact free
  rw [← mapSize_slot, mapSize, used, Set.ncard_eq_toFinset_card', Set.toFinset_Iio, Nat.card_Iio]

/-! ## A call that is settled -/

/-- The fields after a call, and the map. -/
structure Follows (l : Fields α) (op : Op α) : Prop where
  inside : Inside l op
  result : (step l op).2 = (mapStep (slot l.items) op).2
  items : slot (step l op).1.items = (mapStep (slot l.items) op).1
  sound : Sound (step l op).1

/-- Storing an item at an index up to the new last index. -/
theorem store_slots {l : Fields α} (sound : Sound l) {lastItem index : ℕ}
    (inside : index ≤ lastItem) (x : α) (grows : Ilist.Grows l.items lastItem l.numGrow) :
    let grown := (Ilist.growList l.items lastItem l.numGrow).1
    slot (grown.set index (some x)) = Function.update (slot l.items) index (some x) ∧
      (grown.set index (some x)).countP Option.isSome =
        l.items.countP Option.isSome + (if slot l.items index = none then 1 else 0) ∧
      lastItem < (grown.set index (some x)).length := by
  rw [Ilist.growList_eq sound.length grows]
  intro grown
  have room : lastItem < grown.length := Ilist.lt_extend_length _ _ _
  have same (i : ℕ) : slot grown i = slot l.items i := Ilist.extend_slot _ _ _ i
  refine ⟨?_, ?_, ?_⟩
  · funext i
    rw [Ilist.slot_set (lt_of_le_of_lt inside room), same, Function.update_apply]
  · have count : grown.countP Option.isSome = l.items.countP Option.isSome := Ilist.extend_countP _ _ _
    have here := same index
    have bound : index < grown.length := lt_of_le_of_lt inside room
    rw [slot, List.getElem?_eq_getElem bound, Option.join_some] at here
    rw [List.countP_set bound, here, ← count]
    have some : slot l.items index ≠ none → 0 < grown.countP Option.isSome := by
      intro used
      rw [← here] at used
      exact List.countP_pos_iff.mpr ⟨_, List.getElem_mem bound, Option.isSome_iff_ne_none.mpr used⟩
    cases used : slot l.items index with
    | none => simp [grown]
    | some y =>
        have positive := some (by rw [used]; exact Option.some_ne_none y)
        simp only [Option.isSome_some, if_true, reduceCtorEq, if_false, add_zero]
        omega
  · rw [List.length_set]
    exact room

/-- `put` with the last index as a maximum. -/
theorem put_eq (l : Fields α) (index : ℕ) (item : Option α) :
    let grown := Ilist.growList l.items (max l.lastItem index) l.numGrow
    put l index item =
      { items := grown.1.set index item
        numItems := if slot grown.1 index = none then l.numItems + 1 else l.numItems
        lastItem := max l.lastItem index
        numGrow := grown.2 } := by
  have last : (if index > l.lastItem then index else l.lastItem) = max l.lastItem index := by
    split <;> omega
  unfold put Fields.grown
  rw [last]

theorem put_follows {l : Fields α} (sound : Sound l) (index : Fin (2 ^ 31)) (x : α)
    (grows : Ilist.Grows l.items (max l.lastItem index) l.numGrow) :
    Follows l (.put index (some x)) := by
  obtain ⟨slots, count, room⟩ := store_slots sound (le_max_right l.lastItem index) x grows
  obtain ⟨bound, grow⟩ := Ilist.growList_bounds sound.length sound.grow grows
  have kept : slot (Ilist.growList l.items (max l.lastItem index) l.numGrow).1 index =
      slot l.items index := by
    rw [Ilist.growList_eq sound.length grows, Ilist.extend_slot]
  have inside := lt_of_le_of_lt (le_max_right _ _) room
  have step : step l (.put index (some x)) =
      (⟨(Ilist.growList l.items (max l.lastItem index) l.numGrow).1.set index (some x),
        if slot l.items index = none then l.numItems + 1 else l.numItems, max l.lastItem index,
        (Ilist.growList l.items (max l.lastItem index) l.numGrow).2⟩, none) := by
    rw [← kept, IlistOps.step, put_eq]
  rw [← List.length_set (a := some x) (i := index)] at bound
  generalize (Ilist.growList l.items (max l.lastItem index) l.numGrow).1.set index (some x) = items
    at slots count room bound inside step
  refine ⟨?_, ?_, ?_, ?_⟩
  · change (index : ℕ) < (IlistOps.step l (.put index (some x))).1.items.length
    rw [step]
    exact inside
  · rfl
  · rw [step]
    exact slots
  · rw [step]
    refine ⟨le_of_lt room, fun i behind => ?_, fun free i below => ?_, ?_, bound, grow⟩
    · dsimp only at behind ⊢
      rw [slots, Function.update_apply, if_neg (by omega)]
      exact sound.above i (by omega)
    · dsimp only at free below ⊢
      rw [slots, Function.update_apply] at free ⊢
      -- the last index is free, so the item was stored below it
      have other : max l.lastItem index ≠ index := by
        intro same
        rw [if_pos same] at free
        exact Option.some_ne_none x free
      rw [if_neg other, show max l.lastItem index = l.lastItem by omega] at free
      split
      · exact Option.some_ne_none x
      · exact sound.dense free i (by omega)
    · dsimp only
      rw [count, sound.count]
      split <;> simp

theorem append_follows {l : Fields α} (sound : Sound l) (x : α) (free : slot l.items l.lastItem = none)
    (grows : Ilist.Grows l.items l.lastItem l.numGrow) : Follows l (.append (some x)) := by
  obtain ⟨slots, count, room⟩ := store_slots sound (le_refl l.lastItem) x grows
  obtain ⟨bound, grow⟩ := Ilist.growList_bounds sound.length sound.grow grows
  rw [← List.length_set (a := some x) (i := l.lastItem)] at bound
  change slot (append l (some x)).items = _ at slots
  change (append l (some x)).items.countP Option.isSome = _ at count
  change l.lastItem < (append l (some x)).items.length at room
  refine ⟨room, rfl, ?_, room, fun i behind => ?_, fun _ i below => ?_, ?_, bound, grow⟩
  · change slot (append l (some x)).items =
      Function.update (slot l.items) (next (slot l.items)) (some x)
    rw [sound.next, if_pos free]
    exact slots
  · change slot (append l (some x)).items i = none
    change l.lastItem + 1 < i at behind
    rw [slots, Function.update_apply, if_neg (by omega)]
    exact sound.above i (by omega)
  · change slot (append l (some x)).items i ≠ none
    change i < l.lastItem + 1 at below
    rw [slots, Function.update_apply]
    split
    · exact Option.some_ne_none x
    · exact sound.dense free i (by omega)
  · change l.numItems + 1 = ((append l (some x)).items.countP Option.isSome : ℕ)
    rw [count, sound.count, if_pos free]
    rfl

/-- Every item of a range is replaced by the one behind it. -/
theorem shift_slot {items : List (Option α)} {start k : ℕ} (room : start + k ≤ items.length) :
    let shifted := (List.range' start k).foldl (fun items i => items.set i (slot items (i + 1))) items
    shifted.length = items.length ∧
      ∀ i, slot shifted i = if start ≤ i ∧ i < start + k then slot items (i + 1) else slot items i := by
  induction k with
  | zero => exact ⟨rfl, fun i => (if_neg (by omega)).symm⟩
  | succ k ih =>
      obtain ⟨length, slots⟩ := ih (by omega)
      rw [List.range'_1_concat, List.foldl_append, List.foldl_cons, List.foldl_nil]
      generalize (List.range' start k).foldl (fun items i => items.set i (slot items (i + 1)))
        items = shifted
        at length slots ⊢
      refine ⟨(List.length_set ..).trans length, fun i => ?_⟩
      rw [Ilist.slot_set (by omega), slots, slots]
      by_cases last : i = start + k
      · rw [if_pos last, if_neg (by omega), if_pos (by omega), last]
      · rw [if_neg last]
        by_cases inside : start ≤ i ∧ i < start + k
        · rw [if_pos inside, if_pos (by omega)]
        · rw [if_neg inside, if_neg (by omega)]

/-- The array after an item below the last index was removed. -/
theorem removeItem_slots {l : Fields α} (room : l.lastItem ≤ l.items.length) {index : ℕ}
    (below : index < l.lastItem) :
    (removeItem l index).1.lastItem = l.lastItem - 1 ∧
    (removeItem l index).1.numItems = l.numItems - 1 ∧
      (removeItem l index).1.numGrow = l.numGrow ∧ (removeItem l index).2 = slot l.items index ∧
      (removeItem l index).1.items.length = l.items.length ∧ ∀ i, slot (removeItem l index).1.items i =
        if i = l.lastItem - 1 then none
        else if index ≤ i ∧ i < l.lastItem - 1 then slot l.items (i + 1) else slot l.items i := by
  obtain ⟨length, slots⟩ := shift_slot (show index + (l.lastItem - 1 - index) ≤ l.items.length by omega)
  rw [removeItem, if_neg (by omega)]
  refine ⟨rfl, rfl, rfl, rfl, (List.length_set ..).trans length, fun i => ?_⟩
  change slot (List.set _ (l.lastItem - 1) none) i = _
  rw [Ilist.slot_set]
  · split
    · rfl
    · rw [Int.toNat_natCast, slots, show index + (l.lastItem - 1 - index) = l.lastItem - 1 by omega]
  · rw [Int.toNat_natCast, length]
    omega

/-- What the map keeps when the item at an index was removed. -/
theorem mapStep_removeItem (m : ℕ → Option α) (index : ℕ) :
    mapStep m (.removeItem index) = (fun i => if i < index then m i else m (i + 1), m index) := by
  rw [mapStep, if_neg (by omega)]
  rfl

theorem removeItem_follows {l : Fields α} (sound : Sound l) {index : ℤ}
    (settled : Settled l (.removeItem index)) :
    Follows l (.removeItem index) := by
  have inside : Inside l (.removeItem index) := fun _ => sound.room
  rcases Int.lt_or_le index 0 with negative | positive
  · have stays : step l (.removeItem index) = (l, none) := if_pos (.inl negative)
    have map : mapStep (slot l.items) (.removeItem index) = (slot l.items, none) := if_pos negative
    refine ⟨inside, ?_, ?_, ?_⟩ <;> rw [stays]
    · rw [map]
    · rw [map]
    · exact sound
  · obtain ⟨index, rfl⟩ := Int.eq_ofNat_of_zero_le positive
    have map := mapStep_removeItem (slot l.items) index
    rcases Nat.lt_or_ge index l.lastItem with below | behind
    · have free : slot l.items l.lastItem = none := by
        rcases settled with negative | above | free
        · omega
        · omega
        · exact free
      obtain ⟨lastItem, numItems, numGrow, item, length, slots⟩ := removeItem_slots sound.room below
      have shifted : slot (removeItem l index).1.items = fun i =>
          if i < index then slot l.items i else slot l.items (i + 1) := by
        funext i
        rw [slots]
        by_cases last : i = l.lastItem - 1
        · rw [if_pos last, if_neg (by omega), show i + 1 = l.lastItem by omega, free]
        · rw [if_neg last]
          by_cases moved : index ≤ i ∧ i < l.lastItem - 1
          · rw [if_pos moved, if_neg (by omega)]
          · rw [if_neg moved]
            by_cases front : i < index
            · rw [if_pos front]
            · rw [if_neg front, sound.above (i + 1) (by omega)]
              rcases Nat.lt_or_eq_of_le (show l.lastItem ≤ i by omega) with above | same
              · exact sound.above i above
              · rw [← same, free]
      have dense (i : ℕ) (front : i < l.lastItem - 1) : slot (removeItem l index).1.items i ≠ none := by
        rw [shifted]
        dsimp only
        split
        · exact sound.dense free i (by omega)
        · exact sound.dense free (i + 1) (by omega)
      have above (i : ℕ) (high : l.lastItem - 1 ≤ i) : slot (removeItem l index).1.items i = none := by
        rw [shifted]
        dsimp only
        rw [if_neg (by omega)]
        rcases Nat.lt_or_eq_of_le (show l.lastItem ≤ i + 1 by omega) with above | same
        · exact sound.above _ above
        · rw [← same, free]
      refine ⟨inside, ?_, ?_, ?_⟩
      · rw [map]
        exact item
      · rw [map]
        exact shifted
      · have bound : (removeItem l index).1.items.length < 2 ^ 31 := length ▸ sound.length
        have grow : (removeItem l index).1.numGrow < 2 ^ 31 := numGrow ▸ sound.grow
        have after : Sound { (removeItem l index).1 with
            numItems := ((removeItem l index).1.items.countP Option.isSome : ℕ) } := by
          refine ⟨?_, fun i high => above i ?_, fun _ i front => dense i ?_, rfl, bound, grow⟩
          · change (removeItem l index).1.lastItem ≤ (removeItem l index).1.items.length
            rw [lastItem, length]
            exact le_trans (Nat.sub_le _ _) sound.room
          · change (removeItem l index).1.lastItem < i at high
            omega
          · change i < (removeItem l index).1.lastItem at front
            omega
        have count := after.full (by
          change slot (removeItem l index).1.items (removeItem l index).1.lastItem = none
          exact above _ (by omega))
        change (removeItem l index).1.items.countP Option.isSome =
          (removeItem l index).1.lastItem at count
        refine ⟨after.room, after.above, after.dense, ?_, bound, grow⟩
        change (removeItem l index).1.numItems = ((removeItem l index).1.items.countP Option.isSome : ℕ)
        rw [count, numItems, lastItem, sound.count, sound.full free]
        omega
    · have stays : step l (.removeItem index) = (l, none) := if_pos (.inr (by omega))
      have none (i : ℕ) (high : index ≤ i) : slot l.items i = none := by
        rcases Nat.lt_or_eq_of_le (le_trans behind high) with above | same
        · exact sound.above i above
        · rcases settled with negative | above | free
          · omega
          · omega
          · rw [← same, free]
      refine ⟨inside, ?_, ?_, ?_⟩ <;> rw [stays]
      · rw [map, none index (le_refl _)]
      · rw [map]
        funext i
        dsimp only
        split
        · rfl
        · rw [none i (by omega), none (i + 1) (by omega)]
      · exact sound

theorem get_follows {l : Fields α} (sound : Sound l) {index : ℤ} (settled : Settled l (.get index)) :
    Follows l (.get index) := by
  refine ⟨fun reads => ?_, sound.get index, rfl, sound⟩
  have room := sound.room
  by_contra outside
  refine settled ⟨fun null => reads (.inl null), ?_, ?_⟩ <;> omega

theorem follows_of_settled {l : Fields α} (sound : Sound l) {op : Op α} (settled : Settled l op) :
    Follows l op := by
  cases op with
  | put index item =>
      obtain ⟨x, rfl⟩ := Option.ne_none_iff_exists'.mp settled.1
      exact put_follows sound index x settled.2
  | append item =>
      obtain ⟨x, rfl⟩ := Option.ne_none_iff_exists'.mp settled.1
      exact append_follows sound x settled.2.1 settled.2.2
  | removeItem index => exact removeItem_follows sound settled
  | get index => exact get_follows sound settled

/-! ## A call that is not settled -/

/-- A list that has no room for its last index is written outside of the array. -/
theorem grows_of_inside {l : Fields α} (sound : Sound l) {index : ℕ} (int : index < 2 ^ 31)
    (inside : index < (Ilist.growList l.items (max l.lastItem index) l.numGrow).1.length) :
    Ilist.Grows l.items (max l.lastItem index) l.numGrow := by
  by_contra overflows
  have room := sound.room
  have bound := sound.length
  have short := Ilist.growList_short (max_lt (by omega) int) sound.grow overflows
  by_cases null : l.items = []
  · rw [null, List.length_nil] at room
    rw [if_pos null] at short
    omega
  · rw [if_neg null] at short
    omega

/-- NULL counts as an item where none was, and takes none away where one was. -/
theorem put_null_counts {l : Fields α} (sound : Sound l) {index : ℕ}
    (grows : Ilist.Grows l.items (max l.lastItem index) l.numGrow) :
    ¬ Shows (put l index none) (Function.update (slot l.items) index none) := by
  intro shows
  have size : (put l index none).numItems = mapSize (Function.update (slot l.items) index none) :=
    shows.size
  have numItems : (put l index none).numItems =
      if slot l.items index = none then l.numItems + 1 else l.numItems := by
    rw [put_eq, Ilist.growList_eq sound.length grows, Ilist.extend_slot]
  rw [numItems, sound.count, ← mapSize_slot] at size
  by_cases free : slot l.items index = none
  · rw [if_pos free, ← free, Function.update_eq_self] at size
    omega
  · have fewer : {i | Function.update (slot l.items) index none i ≠ none} =
        {i | slot l.items i ≠ none} \ {index} := by
      ext i
      rw [Set.mem_ofPred_eq, Function.update_apply, Set.mem_sdiff, Set.mem_ofPred_eq,
        Set.mem_singleton_iff]
      by_cases same : i = index
      · simp [same]
      · simp [same]
    have less :=
      Set.ncard_sdiff_singleton_lt_of_mem (show index ∈ {i | slot l.items i ≠ none} from free)
      (finite_slots l.items)
    rw [if_neg free, mapSize, mapSize, fewer] at size
    omega

theorem append_null_counts {l : Fields α} (sound : Sound l) :
    ¬ Shows (append l none) (Function.update (slot l.items) (next (slot l.items)) none) := by
  intro shows
  have size : l.numItems + 1 =
      mapSize (Function.update (slot l.items) (next (slot l.items)) none) := shows.size
  have free : slot l.items (next (slot l.items)) = none := by
    rw [sound.next]
    split
    case isTrue free => exact free
    case isFalse => exact sound.above _ (Nat.lt_succ_self _)
  rw [sound.count, ← mapSize_slot, ← free, Function.update_eq_self] at size
  omega

/-- What is appended while the last index is in use replaces the item there. -/
theorem append_overwrites {l : Fields α} (sound : Sound l) (used : slot l.items l.lastItem ≠ none)
    (x : α) (grows : Ilist.Grows l.items l.lastItem l.numGrow) :
    ¬ Shows (append l (some x)) (Function.update (slot l.items) (next (slot l.items)) (some x)) := by
  intro shows
  obtain ⟨slots, -, -⟩ := store_slots sound (le_refl l.lastItem) x grows
  change slot (append l (some x)).items = _ at slots
  have shown := shows.get ((l.lastItem + 1 : ℕ) : ℤ)
  rw [if_neg (by omega), Int.toNat_natCast, sound.next, if_neg used, Function.update_self] at shown
  unfold get at shown
  split at shown
  · cases shown
  · rw [Int.toNat_natCast, slots, Function.update_apply, if_neg (Nat.succ_ne_self _),
      sound.above _ (Nat.lt_succ_self _)] at shown
    cases shown

/-- The item at the last index is not removed, and not shifted. -/
theorem removeItem_loses {l : Fields α} (sound : Sound l) (used : slot l.items l.lastItem ≠ none)
    {index : ℕ} (inside : index ≤ l.lastItem) :
    ¬ Shows (removeItem l index).1 fun i =>
      if i < index then slot l.items i else slot l.items (i + 1) := by
  intro shows
  rcases Nat.lt_or_eq_of_le inside with below | last
  · obtain ⟨lastItem, -, -, -, -, slots⟩ := removeItem_slots sound.room below
    have shown := shows.get ((l.lastItem - 1 : ℕ) : ℤ)
    rw [if_neg (by omega), Int.toNat_natCast, if_neg (by omega),
      show l.lastItem - 1 + 1 = l.lastItem by omega] at shown
    unfold get at shown
    split at shown
    · exact used shown.symm
    · rw [Int.toNat_natCast, slots, if_pos rfl] at shown
      exact used shown.symm
  · have stays : removeItem l (index : ℤ) = (l, none) := if_pos (.inr (by omega))
    have shown := shows.get (index : ℤ)
    rw [stays, sound.get, if_neg (by omega), Int.toNat_natCast, if_neg (lt_irrefl _), last,
      sound.above _ (Nat.lt_succ_self _)] at shown
    exact used shown

theorem settled_of_lawful {l : Fields α} (sound : Sound l) {op : Op α} (inside : Inside l op)
    (shows : Shows (step l op).1 (mapStep (slot l.items) op).1) : Settled l op := by
  cases op with
  | put index item =>
      have stored : (index : ℕ) < (put l index item).items.length := inside
      rw [put_eq, List.length_set] at stored
      have grows := grows_of_inside sound index.isLt stored
      refine ⟨?_, grows⟩
      rintro rfl
      exact put_null_counts sound grows shows
  | append item =>
      cases item with
      | none => exact absurd shows (append_null_counts sound)
      | some x =>
          have stored : l.lastItem < (append l (some x)).items.length := inside
          rw [append, List.length_set] at stored
          have room := sound.room
          have bound := sound.length
          have below : l.lastItem < 2 ^ 31 := by omega
          have grows := grows_of_inside sound below (by rw [max_self]; exact stored)
          rw [max_self] at grows
          refine ⟨Option.some_ne_none x, ?_, grows⟩
          by_contra used
          exact append_overwrites sound used x grows shows
  | removeItem index =>
      rcases Int.lt_or_le index 0 with negative | positive
      · exact .inl negative
      · obtain ⟨index, rfl⟩ := Int.eq_ofNat_of_zero_le positive
        rw [mapStep_removeItem] at shows
        by_contra unsettled
        rw [Settled, not_or, not_or] at unsettled
        exact removeItem_loses sound unsettled.2.2 (by omega) shows
  | get index =>
      rintro ⟨some, last, full⟩
      have reads := inside (by
        rintro (null | negative | behind)
        · exact some null
        · omega
        · omega)
      omega

/-- A run is that of the map exactly when all of its calls are settled. -/
theorem lawful_iff_of_sound {l : Fields α} (sound : Sound l) (ops : List (Op α)) :
    Lawful l (slot l.items) ops ↔ AllSettled l ops := by
  induction ops generalizing l with
  | nil => exact Iff.rfl
  | cons op ops ih =>
      constructor
      · rintro ⟨inside, -, shows, rest⟩
        have settled := settled_of_lawful sound inside shows
        have follows := follows_of_settled sound settled
        rw [← follows.items] at rest
        exact ⟨settled, (ih follows.sound).mp rest⟩
      · rintro ⟨settled, rest⟩
        have follows := follows_of_settled sound settled
        refine ⟨follows.inside, follows.result, ?_, ?_⟩ <;> rw [← follows.items]
        · exact follows.sound.shows
        · exact (ih follows.sound).mpr rest

theorem lawful_iff_settled (num : Fin (2 ^ 31)) (ops : List (Op α)) :
    Lawful (init num) (fun _ => none) ops ↔ AllSettled (init num) ops :=
  lawful_iff_of_sound (init_sound num) ops

/-- An item is put at an index, and the next one that is appended takes its place. -/
theorem put_append_overwrites :
    ¬ Lawful (init 10 : Fields ℕ) (fun _ => none) [.put 3 (some 1), .append (some 2)] := by
  intro lawful
  have sound : Sound (init 10 : Fields ℕ) := init_sound 10
  obtain ⟨-, ⟨-, free, -⟩, -⟩ := (lawful_iff_of_sound sound _).mp lawful
  exact absurd free (by decide)

end Bacula.IlistOps
