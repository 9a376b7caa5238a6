import Bacula.Lib.Htable

/-! The chains of a hash table. Every bucket of the table holds the head of one chain. -/
namespace Bacula.Htable
open Iterator

variable {ι : Type} {kind : Kind}

/-- The items are linked in this order, and the last one to nothing. -/
def Linked (mem : ι → Hlink ι kind) : List ι → Prop
  | [] => True
  | x :: xs => (mem x).next = xs.head? ∧ Linked mem xs

theorem Linked.congr {mem mem' : ι → Hlink ι kind} {xs : List ι} (linked : Linked mem xs)
    (same : ∀ x ∈ xs, mem' x = mem x) : Linked mem' xs := by
  induction xs with
  | nil => trivial
  | cons x xs ih =>
      rw [List.forall_mem_cons] at same
      exact ⟨by rw [same.1]; exact linked.1, ih linked.2 same.2⟩

/-- A table with these chains. -/
structure Table (mem : ι → Hlink ι kind) (t : Htable ι) (chains : List (List ι)) : Prop where
  heads : t.table = chains.map List.head?
  length : chains.length = t.buckets
  linked : ∀ c ∈ chains, Linked mem c
  hashed : ∀ x ∈ chains.flatten, (mem x).hash = kind.hash (mem x).key
  placed : ∀ i c, chains[i]? = some c → ∀ x ∈ c, t.bucket (mem x).hash = i
  nodup : chains.flatten.Nodup
  distinct : (chains.flatten.map fun x => (mem x).key).Nodup
  numItems : t.numItems = chains.flatten.length

/-- The item under a key. -/
def itemAt (mem : ι → Hlink ι kind) (items : List ι) (key : kind.Val) : Option ι :=
  items.find? fun x => (mem x).key = key

theorem itemAt_eq_some {mem : ι → Hlink ι kind} {items : List ι}
    (distinct : (items.map fun x => (mem x).key).Nodup) {key : kind.Val} {x : ι} :
    itemAt mem items key = some x ↔ x ∈ items ∧ (mem x).key = key := by
  constructor
  · intro found
    exact ⟨List.mem_of_find?_eq_some found, by simpa using List.find?_some found⟩
  · intro ⟨member, hit⟩
    cases found : itemAt mem items key with
    | none => exact absurd (decide_eq_true hit) (List.find?_eq_none.mp found x member)
    | some y =>
        have hitY : (mem y).key = key := by simpa using List.find?_some found
        rw [List.inj_on_of_nodup_map distinct (List.mem_of_find?_eq_some found) member
          (hitY.trans hit.symm)]

theorem itemAt_eq_none {mem : ι → Hlink ι kind} {items : List ι} {key : kind.Val} :
    itemAt mem items key = none ↔ ∀ x ∈ items, (mem x).key ≠ key := by
  simp [itemAt]

/-- The order of the items does not matter. -/
theorem itemAt_perm {mem : ι → Hlink ι kind} {items items' : List ι} (perm : items.Perm items')
    (distinct : (items.map fun x => (mem x).key).Nodup) (key : kind.Val) :
    itemAt mem items key = itemAt mem items' key := by
  ext x
  rw [itemAt_eq_some distinct, itemAt_eq_some ((perm.map _).nodup_iff.mp distinct), perm.mem_iff]

theorem find_eq {mem : ι → Hlink ι kind} {c : List ι} (linked : Linked mem c)
    (hashed : ∀ x ∈ c, (mem x).hash = kind.hash (mem x).key) (key : kind.Val) {rounds : ℕ}
    (enough : c.length ≤ rounds) :
    find mem key (kind.hash key) rounds c.head? = some (itemAt mem c key) := by
  induction c generalizing rounds with
  | nil =>
      rw [List.head?_nil]
      cases rounds <;> rfl
  | cons x c ih =>
      cases rounds with
      | zero => cases enough
      | succ rounds =>
          rw [List.forall_mem_cons] at hashed
          rw [List.head?_cons, find, itemAt, List.find?_cons]
          by_cases hit : (mem x).key = key
          · rw [if_pos ⟨by rw [hashed.1, hit], hit.symm⟩, decide_eq_true hit]
          · rw [if_neg fun both => hit both.2.symm, decide_eq_false hit, linked.1]
            exact ih linked.2 hashed.2 (Nat.le_of_succ_le_succ enough)

section Table

variable {mem : ι → Hlink ι kind} {t : Htable ι} {chains : List (List ι)}

/-- An item is in the chain of its key. -/
theorem Table.mem_chain (table : Table mem t chains) {c : List ι} {x : ι} {key : kind.Val}
    (here : chains[t.bucket (kind.hash key)]? = some c) (member : x ∈ chains.flatten)
    (hit : (mem x).key = key) : x ∈ c := by
  obtain ⟨c', memberC, inside⟩ := List.mem_flatten.mp member
  obtain ⟨i, at_i⟩ := List.mem_iff_getElem?.mp memberC
  have place := table.placed i c' at_i x inside
  rw [table.hashed x member, hit] at place
  rw [place, at_i] at here
  rwa [← Option.some.inj here]

theorem Table.itemAt_chain (table : Table mem t chains) {c : List ι} {key : kind.Val}
    (here : chains[t.bucket (kind.hash key)]? = some c) :
    itemAt mem c key = itemAt mem chains.flatten key := by
  have sub : c.Sublist chains.flatten :=
    List.sublist_flatten_of_mem (List.mem_of_getElem? here)
  ext x
  rw [itemAt_eq_some (table.distinct.sublist (sub.map _)), itemAt_eq_some table.distinct]
  constructor
  · exact fun ⟨inside, hit⟩ => ⟨sub.subset inside, hit⟩
  · exact fun ⟨member, hit⟩ => ⟨table.mem_chain here member hit, hit⟩

theorem Table.chain (table : Table mem t chains) {i : ℕ} (inside : i < t.buckets) :
    ∃ c, chains[i]? = some c ∧ t.table[i]? = some c.head? := by
  rw [← table.length] at inside
  refine ⟨chains[i], List.getElem?_eq_getElem inside, ?_⟩
  rw [table.heads, List.getElem?_map, List.getElem?_eq_getElem inside]
  rfl

/-- `lookup` finds the item under a key, wherever it is. -/
theorem Table.lookup (table : Table mem t chains) (key : kind.Val)
    (inside : t.bucket (kind.hash key) < t.buckets) {rounds : ℕ}
    (enough : chains.flatten.length ≤ rounds) :
    t.lookup rounds mem key = some (itemAt mem chains.flatten key, t.hashIndex key) := by
  obtain ⟨c, here, head⟩ := table.chain inside
  have memberC := List.mem_of_getElem? here
  have sub : ∀ x ∈ c, x ∈ chains.flatten := fun x within =>
    List.mem_flatten.mpr ⟨c, memberC, within⟩
  have short : c.length ≤ chains.flatten.length :=
    (List.sublist_flatten_of_mem memberC).length_le
  have found := find_eq (table.linked c memberC) (fun x within => table.hashed x (sub x within))
    key (le_trans short enough)
  unfold Htable.lookup
  dsimp only [hashIndex]
  rw [head, Option.bind_eq_bind, Option.bind_some, found, Option.bind_some,
    table.itemAt_chain here]

theorem Table.empty (mem : ι → Hlink ι kind) (table : t.table = List.replicate t.buckets none)
    (numItems : t.numItems = 0) : Table mem t (List.replicate t.buckets []) := by
  have noItem : ∀ c ∈ List.replicate t.buckets ([] : List ι), c = [] := fun c member =>
    List.eq_of_mem_replicate member
  refine ⟨?_, List.length_replicate, ?_, ?_, ?_, ?_, ?_, ?_⟩
  · rw [table, List.map_replicate]
    rfl
  · intro c member
    rw [noItem c member]
    trivial
  · simp
  · intro i c at_i x inside
    rw [noItem c (List.mem_of_getElem? at_i)] at inside
    cases inside
  · simp
  · simp
  · simpa using numItems

theorem flatten_set_perm {α : Type} {chains : List (List α)} {i : ℕ} {c : List α} (x : α)
    (here : chains[i]? = some c) : (chains.set i (x :: c)).flatten.Perm (x :: chains.flatten) := by
  induction chains generalizing i with
  | nil => cases here
  | cons d chains ih =>
      cases i with
      | zero =>
          cases here
          exact List.Perm.refl _
      | succ i =>
          rw [List.set_cons_succ, List.flatten_cons, List.flatten_cons]
          exact ((ih here).append_left d).trans List.perm_middle

/-- An item with a new key that goes before the head of its chain. -/
theorem Table.link [DecidableEq ι] (table : Table mem t chains) {key : kind.Val} {item : ι}
    {c : List ι} (here : chains[t.bucket (kind.hash key)]? = some c)
    (fresh : item ∉ chains.flatten) (absent : itemAt mem chains.flatten key = none)
    (small : chains.flatten.length + 1 < 2 ^ 32) :
    Table ((t.hashIndex key).link mem c.head? key item).2
      ((t.hashIndex key).link mem c.head? key item).1
      (chains.set (t.bucket (kind.hash key)) (item :: c)) := by
  have perm := flatten_set_perm item here
  have memberC := List.mem_of_getElem? here
  set mem' := ((t.hashIndex key).link mem c.head? key item).2
  have atItem : mem' item = ⟨c.head?, kind.hash key, key⟩ := Function.update_self item _ _
  have kept (x : ι) (member : x ∈ chains.flatten) : mem' x = mem x :=
    Function.update_of_ne (by rintro rfl; exact fresh member) _ _
  have keptC {d : List ι} (member : d ∈ chains) : ∀ x ∈ d, mem' x = mem x := fun x inside =>
    kept x (List.mem_flatten.mpr ⟨d, member, inside⟩)
  have keys : (chains.flatten.map fun x => (mem' x).key) =
      chains.flatten.map fun x => (mem x).key :=
    List.map_congr_left fun x member => by rw [kept x member]
  refine ⟨?_, ?_, ?_, ?_, ?_, ?_, ?_, ?_⟩
  · rw [List.map_set, ← table.heads]
    rfl
  · rw [List.length_set, table.length]
    rfl
  · intro d member
    rcases List.mem_or_eq_of_mem_set member with old | rfl
    · exact (table.linked d old).congr (keptC old)
    · exact ⟨by rw [atItem], (table.linked c memberC).congr (keptC memberC)⟩
  · intro x member
    rcases List.mem_cons.mp (perm.mem_iff.mp member) with rfl | old
    · rw [atItem]
    · rw [kept x old]
      exact table.hashed x old
  · intro i d at_i x inside
    change t.bucket (mem' x).hash = i
    rw [List.getElem?_set] at at_i
    split at at_i
    · rename_i same
      split at at_i
      · cases at_i
        rcases List.mem_cons.mp inside with rfl | old
        · rw [atItem]
          exact same
        · rw [keptC memberC x old, ← same]
          exact table.placed _ c here x old
      · cases at_i
    · rw [keptC (List.mem_of_getElem? at_i) x inside]
      exact table.placed i d at_i x inside
  · exact perm.nodup_iff.mpr (List.nodup_cons.mpr ⟨fresh, table.nodup⟩)
  · refine (perm.map _).nodup_iff.mpr ?_
    rw [List.map_cons, keys, atItem]
    refine List.nodup_cons.mpr ⟨fun member => ?_, table.distinct⟩
    obtain ⟨x, old, hit⟩ := List.mem_map.mp member
    exact List.find?_eq_none.mp absent x old (decide_eq_true hit)
  · rw [perm.length_eq, List.length_cons, ← table.numItems]
    rw [← table.numItems] at small
    exact Nat.mod_eq_of_lt small

end Table

section Walk

variable {mem : ι → Hlink ι kind} {t : Htable ι} {chains : List (List ι)}

/-- A pointer into a chain with the number of the next bucket, and the items from there on. The
items before may have other links. -/
def Cursor (mem : ι → Hlink ι kind) (chains : List (List ι)) (walk : Option ι × ℕ)
    (rest : List ι) : Prop :=
  ∃ c, Linked mem c ∧ (∀ d ∈ chains.drop walk.2, Linked mem d) ∧ walk.1 = c.head? ∧
    rest = c ++ (chains.drop walk.2).flatten ∧ (c = [] → rest = [])

theorem Cursor.head {walk : Option ι × ℕ} {rest : List ι} (cursor : Cursor mem chains walk rest) :
    walk.1 = rest.head? := by
  obtain ⟨c, -, -, head, rfl, empty⟩ := cursor
  rw [head]
  cases c with
  | nil =>
      rw [empty rfl]
  | cons x c => rfl

theorem nextBucket_cursor (heads : t.table = chains.map List.head?)
    (length : chains.length = t.buckets) (j : ℕ) (linked : ∀ d ∈ chains.drop j, Linked mem d) :
    Cursor mem chains (t.nextBucket j) (chains.drop j).flatten := by
  fun_induction nextBucket t j with
  | case1 j inside hp found =>
      rw [← length] at inside
      have here : chains[j]? = some chains[j] := List.getElem?_eq_getElem inside
      rw [heads, List.getElem?_map, here, Option.map_some, Option.join_some] at found
      rw [List.drop_eq_getElem_cons inside, List.forall_mem_cons] at linked
      refine ⟨chains[j], linked.1, linked.2, found.symm, ?_, fun empty => ?_⟩
      · rw [List.drop_eq_getElem_cons inside, List.flatten_cons]
      · rw [empty] at found
        cases found
  | case2 j inside none ih =>
      rw [← length] at inside
      have here : chains[j]? = some chains[j] := List.getElem?_eq_getElem inside
      rw [heads, List.getElem?_map, here, Option.map_some, Option.join_some,
        List.head?_eq_none_iff] at none
      rw [List.drop_eq_getElem_cons inside, List.forall_mem_cons] at linked
      rw [List.drop_eq_getElem_cons inside, List.flatten_cons, none, List.nil_append]
      exact ih linked.2
  | case3 j outside =>
      have done : chains.drop j = [] := List.drop_eq_nil_of_le (by omega)
      exact ⟨[], trivial, linked, rfl, by simp [done], fun _ => by simp [done]⟩

/-- The pointer that follows an item: the rest of its chain, or nothing at the end of it. -/
theorem Cursor.tail {walkIndex : ℕ} {item : Option ι} {x : ι} {rest : List ι}
    (cursor : Cursor mem chains (item, walkIndex) (x :: rest)) :
    item = some x ∧ ((∃ y, (mem x).next = some y ∧ Cursor mem chains (some y, walkIndex) rest) ∨
      ((mem x).next = none ∧ rest = (chains.drop walkIndex).flatten ∧
        ∀ d ∈ chains.drop walkIndex, Linked mem d)) := by
  obtain ⟨c, linkedC, linked, head, same, empty⟩ := cursor
  cases c with
  | nil => cases empty rfl
  | cons y c =>
      rw [List.cons_append, List.cons.injEq] at same
      obtain ⟨rfl, rfl⟩ := same
      refine ⟨head, ?_⟩
      cases c with
      | nil => exact .inr ⟨linkedC.1, rfl, linked⟩
      | cons z c => exact .inl ⟨z, linkedC.1, z :: c, linkedC.2, linked, rfl, rfl,
          fun none => by cases none⟩

theorem Cursor.congr {mem' : ι → Hlink ι kind} {walk : Option ι × ℕ} {rest : List ι}
    (cursor : Cursor mem chains walk rest) (same : ∀ x ∈ rest, mem' x = mem x) :
    Cursor mem' chains walk rest := by
  obtain ⟨c, linkedC, linked, head, rfl, empty⟩ := cursor
  refine ⟨c, linkedC.congr fun x inside => same x (List.mem_append_left _ inside),
    fun d member => (linked d member).congr fun x inside => ?_, head, rfl, empty⟩
  exact same x (List.mem_append_right _ (List.mem_flatten.mpr ⟨d, member, inside⟩))

/-- `next` goes on to the next item. -/
theorem next_cursor (heads : t.table = chains.map List.head?) (length : chains.length = t.buckets)
    {x : ι} {rest : List ι} (cursor : Cursor mem chains (t.walkptr, t.walkIndex) (x :: rest)) :
    ∃ walk, t.next mem = (walk.1, { t with walkptr := walk.1, walkIndex := walk.2 }) ∧
      Cursor mem chains walk rest := by
  obtain ⟨here, after⟩ := cursor.tail
  unfold Htable.next
  rw [here, Option.bind_some]
  cases after with
  | inl inside =>
      obtain ⟨y, next, cursor'⟩ := inside
      rw [next]
      exact ⟨_, rfl, cursor'⟩
  | inr last =>
      obtain ⟨next, rfl, linked⟩ := last
      rw [next]
      exact ⟨_, rfl, nextBucket_cursor heads length t.walkIndex linked⟩

theorem first_cursor (heads : t.table = chains.map List.head?) (length : chains.length = t.buckets)
    (linked : ∀ c ∈ chains, Linked mem c) (some : 0 < t.buckets) :
    ∃ walk, t.first = (walk.1, { t with walkptr := walk.1, walkIndex := walk.2 }) ∧
      Cursor mem chains walk chains.flatten := by
  refine ⟨t.nextBucket 0, ?_, nextBucket_cursor heads length 0 linked⟩
  rw [(nextBucket.eq_1 t 0).trans (if_pos some)]
  unfold first
  cases (t.table[0]?).join <;> rfl

theorem cursor_drains (heads : t.table = chains.map List.head?)
    (length : chains.length = t.buckets) {rest : List ι} {walk : Option ι × ℕ}
    (cursor : Cursor mem chains walk rest) :
    ∃ t', Drains (next mem) (walk.1, { t with walkptr := walk.1, walkIndex := walk.2 }) rest t' := by
  induction rest generalizing walk with
  | nil =>
      rw [cursor.head]
      exact ⟨_, .null _⟩
  | cons x rest ih =>
      obtain ⟨walk', step, cursor'⟩ := next_cursor
        (t := { t with walkptr := walk.1, walkIndex := walk.2 }) heads length cursor
      obtain ⟨t', drains⟩ := ih cursor'
      rw [cursor.head] at step ⊢
      refine ⟨t', .item ?_⟩
      rw [step]
      exact drains

/-- A loop sees the items of all chains, one after the other. -/
theorem Table.drains (table : Table mem t chains) (some : 0 < t.buckets) :
    ∃ t', Drains (next mem) t.first chains.flatten t' := by
  obtain ⟨walk, start, cursor⟩ := first_cursor table.heads table.length table.linked some
  rw [start]
  exact cursor_drains table.heads table.length cursor

end Walk

end Bacula.Htable
