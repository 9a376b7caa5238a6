import Mathlib.Data.Nat.Size
import Bacula.Lib.HtableChains

/-! Growing a hash table. The larger table has its own mask and shift, and the items come to it
one by one. -/
namespace Bacula.Htable
open Iterator

variable {ι : Type} {kind : Kind}

/-- A table of `2 ^ pwr` buckets. -/
structure Sized (t : Htable ι) (pwr : ℕ) : Prop where
  small : pwr ≤ 29
  buckets : t.buckets = 2 ^ pwr
  maxItems : t.maxItems = 4 * 2 ^ pwr
  mask : t.mask = 2 ^ pwr - 1
  rshift : t.rshift + pwr = 30

theorem power_eq_size (n : ℕ) : power n = n.size := by
  fun_induction power n with
  | case1 => rfl
  | case2 n positive ih =>
      have step : n.size = n.div2.size + 1 := by
        conv_lhs => rw [← Nat.bit_bodd_div2 n]
        refine Nat.size_bit ?_
        rwa [Nat.bit_bodd_div2]
      rw [ih, step, Nat.div2_val]

theorem two_pow_le {pwr : ℕ} (small : pwr ≤ 29) : 2 ^ pwr ≤ 2 ^ 29 :=
  Nat.pow_le_pow_right (by decide) small

theorem init_sized (tsize : Int32) : ∃ pwr, Sized (init tsize : Htable ι) pwr := by
  obtain ⟨size, below, same⟩ : ∃ size : ℕ, size < 2 ^ 31 ∧
      (if tsize < 31 then 31 else tsize.toInt.toNat) = size := by
    refine ⟨_, ?_, rfl⟩
    split
    · decide
    · have := tsize.toInt_lt
      omega
  have small : power (size / 4) ≤ 29 := by
    rw [power_eq_size, Nat.size_le]
    omega
  refine ⟨power (size / 4), small, ?_, ?_, ?_, ?_⟩ <;> unfold init <;> dsimp only <;> rw [same]
  all_goals
    generalize power (size / 4) = pwr at small
    have bound := two_pow_le small
    unfold uint32
  · rw [Nat.one_shiftLeft]
    exact Nat.mod_eq_of_lt (by omega)
  · rw [Nat.one_shiftLeft]
    generalize 2 ^ pwr = buckets at bound
    omega
  · interval_cases pwr <;> decide
  · omega

namespace Sized

variable {t : Htable ι} {pwr : ℕ}

theorem bucket_lt (sized : Sized t pwr) (hash : UInt64) : t.bucket hash < t.buckets := by
  have within := Nat.and_le_right (n := (hash * 1103515249).toNat >>> t.rshift) (m := t.mask)
  rw [sized.mask] at within
  have cut := Nat.mod_le ((hash * 1103515249).toNat >>> t.rshift &&& t.mask) (2 ^ 32)
  rw [sized.buckets, bucket, uint32]
  rw [sized.mask] at cut ⊢
  have positive := Nat.two_pow_pos pwr
  omega

theorem bigger (sized : Sized t pwr) (room : pwr < 29) : Sized t.bigger (pwr + 1) := by
  obtain ⟨small, buckets, maxItems, mask, rshift⟩ := sized
  have bound := two_pow_le (show pwr + 1 ≤ 29 by omega)
  have double : t.bigger.buckets = 2 ^ (pwr + 1) := by
    change uint32 (t.buckets * 2) = _
    rw [buckets, ← Nat.pow_succ]
    exact Nat.mod_eq_of_lt (by omega)
  refine ⟨room, double, ?_, ?_, ?_⟩
  · change uint32 (t.bigger.buckets * 4) = _
    rw [double, uint32]
    omega
  · change uint32 (t.mask <<< 1 ||| 1) = _
    rw [mask]
    interval_cases pwr <;> decide
  · change uint32 (t.rshift + (2 ^ 32 - 1)) + (pwr + 1) = 30
    unfold uint32
    omega

end Sized

/-- A sized table with these items, in any order. -/
structure Stores (mem : ι → Hlink ι kind) (t : Htable ι) (pwr : ℕ) (items : List ι) : Prop where
  sized : Sized t pwr
  table : ∃ chains, Table mem t chains ∧ chains.flatten.Perm items

namespace Stores

variable {mem : ι → Hlink ι kind} {t : Htable ι} {pwr : ℕ} {items : List ι}

theorem distinct (stores : Stores mem t pwr items) : (items.map fun x => (mem x).key).Nodup := by
  obtain ⟨-, chains, table, perm⟩ := stores
  exact (perm.map _).nodup_iff.mp table.distinct

theorem empty (mem : ι → Hlink ι kind) {t : Htable ι} (sized : Sized t pwr)
    (table : t.table = List.replicate t.buckets none) (numItems : t.numItems = 0) :
    Stores mem t pwr [] := by
  refine ⟨sized, _, .empty mem table numItems, ?_⟩
  rw [List.flatten_replicate_nil]

theorem perm (stores : Stores mem t pwr items) {items' : List ι} (perm : items.Perm items') :
    Stores mem t pwr items' := by
  obtain ⟨sized, chains, table, same⟩ := stores
  exact ⟨sized, chains, table, same.trans perm⟩

theorem hashIndex (stores : Stores mem t pwr items) (key : kind.Val) :
    Stores mem (t.hashIndex key) pwr items := by
  obtain ⟨⟨small, buckets, maxItems, mask, rshift⟩, chains, table, perm⟩ := stores
  obtain ⟨heads, length, linked, hashed, placed, nodup, distinct, numItems⟩ := table
  exact ⟨⟨small, buckets, maxItems, mask, rshift⟩, chains,
    ⟨heads, length, linked, hashed, placed, nodup, distinct, numItems⟩, perm⟩

theorem lookup (stores : Stores mem t pwr items) (key : kind.Val) {rounds : ℕ}
    (enough : items.length ≤ rounds) :
    t.lookup rounds mem key = some (itemAt mem items key, t.hashIndex key) := by
  obtain ⟨sized, chains, table, perm⟩ := stores
  rw [← itemAt_perm perm table.distinct key]
  exact table.lookup key (sized.bucket_lt _) (by rwa [perm.length_eq])

section Writes

variable [DecidableEq ι]

/-- `insert` changes nothing when the key is there. -/
theorem insertWith_present (stores : Stores mem t pwr items) {key : kind.Val} {x : ι}
    (found : itemAt mem items key = some x) {rounds : ℕ} (enough : items.length ≤ rounds)
    (grow : (ι → Hlink ι kind) → Htable ι → Option (Htable ι × (ι → Hlink ι kind))) (item : ι) :
    insertWith rounds grow mem t key item = some (false, t.hashIndex key, mem) := by
  rw [insertWith, stores.lookup key enough, found]
  rfl

/-- `insert` of a new key, up to the growth of the table. -/
theorem insertWith_absent (stores : Stores mem t pwr items) {key : kind.Val} {item : ι}
    (fresh : item ∉ items) (absent : itemAt mem items key = none)
    (few : items.length + 1 < 2 ^ 32) {rounds : ℕ} (enough : items.length ≤ rounds)
    (grow : (ι → Hlink ι kind) → Htable ι → Option (Htable ι × (ι → Hlink ι kind))) :
    ∃ t' hp, hp.key = key ∧ Stores (Function.update mem item hp) t' pwr (item :: items) ∧
      insertWith rounds grow mem t key item =
        if 4 * 2 ^ pwr ≤ items.length + 1 then
          (grow (Function.update mem item hp) t').map fun (t, mem) => (true, t, mem)
        else some (true, t', Function.update mem item hp) := by
  have search := stores.lookup key enough
  obtain ⟨sized, chains, table, perm⟩ := stores
  have inside := sized.bucket_lt (kind.hash key)
  obtain ⟨c, here, head⟩ := table.chain inside
  have linked := table.link here (fun member => fresh (perm.mem_iff.mp member))
    (by rwa [itemAt_perm perm table.distinct]) (by rwa [perm.length_eq])
  have count : uint32 (t.numItems + 1) = items.length + 1 := by
    rw [table.numItems, perm.length_eq]
    exact Nat.mod_eq_of_lt few
  refine ⟨_, ⟨c.head?, kind.hash key, key⟩, rfl, ⟨?_, _, linked, ?_⟩, ?_⟩
  · obtain ⟨small, buckets, maxItems, mask, rshift⟩ := sized
    exact ⟨small, buckets, maxItems, mask, rshift⟩
  · exact (flatten_set_perm item here).trans (perm.cons item)
  · rw [← count, ← sized.maxItems, insertWith, search, Option.bind_eq_bind, Option.bind_some,
      absent]
    dsimp only
    have inside' : ¬ (t.hashIndex key).buckets ≤ (t.hashIndex key).index := Nat.not_le.mpr inside
    have head' : (t.hashIndex key).table[(t.hashIndex key).index]? = some c.head? := head
    rw [Option.isSome_none, if_neg Bool.false_ne_true, if_neg inside', head', Option.bind_eq_bind,
      Option.bind_some]
    rfl

/-- The loop of `grow_table` has still to move these items. -/
theorem moveItems {chains : List (List ι)} (heads : t.table = chains.map List.head?)
    (length : chains.length = t.buckets) {depth rounds : ℕ} {rest moved : List ι}
    {item : Option ι} {big : Htable ι} (cursor : Cursor mem chains (item, t.walkIndex) rest)
    (stores : Stores mem big pwr moved)
    (distinct : ((rest ++ moved).map fun x => (mem x).key).Nodup)
    (room : rest.length + moved.length < 4 * 2 ^ pwr) (enough : rest.length ≤ rounds)
    (deep : rest.length + moved.length ≤ depth + 1) :
    ∃ big' mem', Htable.moveItems (insert (depth + 1)) rounds mem t big item = some (big', mem') ∧
      Stores mem' big' pwr (rest.reverse ++ moved) ∧ ∀ x, (mem' x).key = (mem x).key := by
  induction rest generalizing rounds mem t big item moved with
  | nil =>
      obtain rfl : item = none := cursor.head
      refine ⟨big, mem, ?_, stores, fun x => rfl⟩
      cases rounds <;> rfl
  | cons x rest ih =>
      obtain ⟨rfl, after⟩ := cursor.tail
      rw [List.length_cons] at room enough deep
      obtain ⟨rounds, rfl⟩ : ∃ r, rounds = r + 1 := ⟨rounds - 1, by omega⟩
      rw [List.cons_append, List.map_cons, List.nodup_cons, List.mem_map] at distinct
      have others : ∀ y ∈ rest ++ moved, (mem y).key ≠ (mem x).key := fun y member same =>
        distinct.1 ⟨y, member, same⟩
      have freshRest : x ∉ rest := fun member => others x (List.mem_append_left _ member) rfl
      have freshMoved : x ∉ moved := fun member => others x (List.mem_append_right _ member) rfl
      have absent : itemAt mem moved (mem x).key = none :=
        itemAt_eq_none.mpr fun y member => others y (List.mem_append_right _ member)
      have bound := two_pow_le stores.sized.small
      obtain ⟨big', hp, key, stores', step⟩ := stores.insertWith_absent freshMoved absent (by omega)
        (show moved.length ≤ depth by omega) (growTable depth (insert depth))
      rw [if_neg (by omega)] at step
      have keys (y : ι) : (Function.update mem x hp y).key = (mem y).key := by
        by_cases same : y = x
        · rw [same, Function.update_self, key]
        · rw [Function.update_of_ne same]
      have kept : ∀ y ∈ rest, Function.update mem x hp y = mem y := fun y member =>
        Function.update_of_ne (by rintro rfl; exact freshRest member) _ _
      have distinct' : ((rest ++ x :: moved).map fun y => (Function.update mem x hp y).key).Nodup := by
        simp only [keys]
        refine (List.perm_middle.map _).nodup_iff.mpr ?_
        rw [List.map_cons, List.nodup_cons, List.mem_map]
        exact distinct
      have result : (x :: rest).reverse ++ moved = rest.reverse ++ x :: moved := by simp
      rw [Htable.moveItems, insert, step, result]
      rw [Option.bind_eq_bind, Option.bind_some]
      cases after with
      | inl inside =>
          obtain ⟨y, next, cursor'⟩ := inside
          obtain ⟨big'', mem'', moves, done⟩ := ih heads length (cursor'.congr kept) stores' distinct'
            (by rw [List.length_cons]; omega) (show rest.length ≤ rounds by omega)
            (by rw [List.length_cons]; omega)
          rw [next]
          refine ⟨big'', mem'', moves, done.1, fun z => ?_⟩
          rw [done.2, keys]
      | inr last =>
          obtain ⟨next, rfl, linked⟩ := last
          have cursor' : Cursor (Function.update mem x hp) chains
              ({ t with walkptr := none }.nextBucket t.walkIndex)
              (chains.drop t.walkIndex).flatten :=
            nextBucket_cursor (t := { t with walkptr := none }) heads length t.walkIndex
              fun d member => (linked d member).congr fun y inside =>
                kept y (List.mem_flatten.mpr ⟨d, member, inside⟩)
          obtain ⟨big'', mem'', moves, done⟩ := ih
            (t := { t with
              walkptr := ({ t with walkptr := none }.nextBucket t.walkIndex).1
              walkIndex := ({ t with walkptr := none }.nextBucket t.walkIndex).2 })
            heads length cursor' stores' distinct' (by rw [List.length_cons]; omega)
            (show _ ≤ rounds by omega) (by rw [List.length_cons]; omega)
          rw [next]
          refine ⟨big'', mem'', moves, done.1, fun z => ?_⟩
          rw [done.2, keys]

/-- `grow_table` keeps all items under their keys. -/
theorem growTable (stores : Stores mem t pwr items) (room : pwr < 29)
    (few : items.length < 8 * 2 ^ pwr) {rounds : ℕ} (enough : items.length ≤ rounds + 1) :
    ∃ t' mem', Htable.growTable (rounds + 1) (insert (rounds + 1)) mem t = some (t', mem') ∧
      Stores mem' t' (pwr + 1) items ∧ ∀ x, (mem' x).key = (mem x).key := by
  obtain ⟨sized, chains, table, perm⟩ := stores
  have positive : 0 < t.buckets := by
    rw [sized.buckets]
    exact Nat.two_pow_pos pwr
  obtain ⟨walk, start, cursor⟩ := first_cursor table.heads table.length table.linked positive
  have bigger : Stores mem t.bigger (pwr + 1) [] := .empty mem (sized.bigger room) rfl rfl
  have enough' : chains.flatten.length ≤ rounds + 1 := by rwa [perm.length_eq]
  have deep : chains.flatten.length + ([] : List ι).length ≤ rounds + 1 := enough'
  have room' : chains.flatten.length + ([] : List ι).length < 4 * 2 ^ (pwr + 1) := by
    rw [perm.length_eq, Nat.pow_succ, List.length_nil]
    omega
  obtain ⟨t', mem', moves, stores', keys⟩ := moveItems
    (t := { t with walkptr := walk.1, walkIndex := walk.2 }) table.heads table.length cursor bigger
    (by simpa using table.distinct) room' enough' deep
  refine ⟨t', mem', ?_, stores'.perm ?_, keys⟩
  · unfold Htable.growTable
    rw [start]
    exact moves
  · rw [List.append_nil]
    exact (List.reverse_perm _).trans perm

/-- `insert` of a new item under a new key. -/
theorem insert_absent (stores : Stores mem t pwr items) (below : items.length < 4 * 2 ^ pwr)
    {key : kind.Val} {item : ι} (fresh : item ∉ items) (absent : itemAt mem items key = none)
    (few : items.length + 1 < 2 ^ 29) {rounds : ℕ} (enough : items.length + 1 < rounds) :
    ∃ pwr' t' mem', Htable.insert rounds mem t key item = some (true, t', mem') ∧
      Stores mem' t' pwr' (item :: items) ∧ items.length + 1 < 4 * 2 ^ pwr' ∧
      (mem' item).key = key ∧ ∀ x ∈ items, (mem' x).key = (mem x).key := by
  obtain ⟨rounds, rfl⟩ : ∃ r, rounds = r + 2 := ⟨rounds - 2, by omega⟩
  obtain ⟨t', hp, atItem, stores', step⟩ := stores.insertWith_absent fresh absent (by omega)
    (show items.length ≤ rounds + 1 by omega) (Htable.growTable (rounds + 1) (insert (rounds + 1)))
  have kept : ∀ x ∈ items, Function.update mem item hp x = mem x := fun x member =>
    Function.update_of_ne (by rintro rfl; exact fresh member) _ _
  rw [Htable.insert, step]
  split
  · rename_i full
    have room : pwr < 29 := by
      by_contra large
      have := Nat.pow_le_pow_right (n := 2) (by decide) (Nat.not_lt.mp large)
      omega
    have enough' : (item :: items).length ≤ rounds + 1 := by
      rw [List.length_cons]
      omega
    obtain ⟨t'', mem'', grown, stores'', keys⟩ := stores'.growTable room
      (by rw [List.length_cons]; omega) enough'
    refine ⟨pwr + 1, t'', mem'', ?_, stores'', ?_, ?_, fun x member => ?_⟩
    · rw [grown]
      rfl
    · rw [Nat.pow_succ]
      omega
    · rw [keys, Function.update_self, atItem]
    · rw [keys, kept x member]
  · rename_i room
    refine ⟨pwr, t', _, rfl, stores', Nat.not_le.mp room, ?_, fun x member => ?_⟩
    · rw [Function.update_self, atItem]
    · rw [kept x member]

/-- `insert` of a key that is there. -/
theorem insert_present (stores : Stores mem t pwr items) {key : kind.Val} {x : ι}
    (found : itemAt mem items key = some x) {rounds : ℕ} (enough : items.length < rounds)
    (item : ι) : Htable.insert rounds mem t key item = some (false, t.hashIndex key, mem) := by
  obtain ⟨rounds, rfl⟩ : ∃ r, rounds = r + 1 := ⟨rounds - 1, by omega⟩
  exact stores.insertWith_present found (Nat.le_of_lt_succ enough) _ item

end Writes

end Stores

end Bacula.Htable
