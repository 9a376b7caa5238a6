import Bacula.Library.Calls
import Bacula.Lib.HtableGrow

/-! A hash table is a finite map. The map keeps the first item that was inserted under a key. -/
namespace Bacula.Htable
open Iterator

/-- A call of a user of the table. -/
inductive Call (ι : Type) (kind : Kind) where
  | insert (key : kind.Val) (item : ι)
  | lookup (key : kind.Val)

inductive Answer (ι : Type) where
  | inserted (ok : Bool)
  | found (item : Option ι)
  deriving DecidableEq

/-- The entries of a finite map, the last one inserted first. -/
abbrev Entries (ι : Type) (kind : Kind) : Type := List (kind.Val × ι)

variable {ι : Type} {kind : Kind}

/-- What a finite map answers. -/
def Entries.answer (entries : Entries ι kind) : Call ι kind → Answer ι × Entries ι kind
  | .insert key item =>
      if (entries.lookup key).isSome then (.inserted false, entries)
      else (.inserted true, (key, item) :: entries)
  | .lookup key => (.found (entries.lookup key), entries)

theorem Entries.answer_present {entries : Entries ι kind} {key : kind.Val} {x : ι}
    (found : entries.lookup key = some x) (item : ι) :
    entries.answer (.insert key item) = (.inserted false, entries) := by
  rw [answer, found]
  rfl

theorem Entries.answer_absent {entries : Entries ι kind} {key : kind.Val}
    (absent : entries.lookup key = none) (item : ι) :
    entries.answer (.insert key item) = (.inserted true, (key, item) :: entries) := by
  rw [answer, absent]
  rfl

/-- The answers of a map that is empty at first, and its entries at the end. -/
def Entries.run (calls : List (Call ι kind)) : List (Answer ι) × Entries ι kind :=
  Calls.spec Entries.answer [] calls

/-- Each item is in the map once, and there are at most this many of them. -/
def Entries.Once (bound : ℕ) (entries : Entries ι kind) : Prop :=
  (entries.map Prod.snd).Nodup ∧ entries.length < bound

theorem Entries.Once.back {bound : ℕ} (entries : Entries ι kind) (call : Call ι kind)
    (once : Once bound (entries.answer call).2) : Once bound entries := by
  cases call with
  | lookup key => exact once
  | insert key item =>
      rw [answer] at once
      split at once
      · exact once
      · exact ⟨(List.nodup_cons.mp once.1).2, Nat.lt_of_succ_lt once.2⟩

variable [DecidableEq ι]

/-- A call on a table in memory. -/
def call (rounds : ℕ) : Htable ι × (ι → Hlink ι kind) → Call ι kind →
    Option (Answer ι × Htable ι × (ι → Hlink ι kind))
  | (t, mem), .insert key item =>
      (t.insert rounds mem key item).map fun (ok, t, mem) => (.inserted ok, t, mem)
  | (t, mem), .lookup key =>
      (t.lookup rounds mem key).map fun (item, t) => (.found item, t, mem)

/-- The table and the map have the same entries. -/
def Refines (s : Htable ι × (ι → Hlink ι kind)) (entries : Entries ι kind) : Prop :=
  ∃ pwr items, Stores s.2 s.1 pwr items ∧ items.length < 4 * 2 ^ pwr ∧
    entries = items.map fun x => ((s.2 x).key, x)

omit [DecidableEq ι] in
theorem itemAt_eq_lookup (mem : ι → Hlink ι kind) (items : List ι) (key : kind.Val) :
    itemAt mem items key = (items.map fun x => ((mem x).key, x)).lookup key := by
  induction items with
  | nil => rfl
  | cons x items ih =>
      rw [itemAt, List.find?_cons, List.map_cons, List.lookup_cons]
      by_cases hit : (mem x).key = key
      · rw [decide_eq_true hit, beq_iff_eq.mpr hit.symm]
      · rw [decide_eq_false hit, beq_eq_false_iff_ne.mpr fun same => hit same.symm]
        exact ih

omit [DecidableEq ι] in
theorem init_refines (tsize : Int32) (mem : ι → Hlink ι kind) : Refines (init tsize, mem) [] := by
  obtain ⟨pwr, sized⟩ := init_sized (ι := ι) tsize
  have positive := Nat.two_pow_pos pwr
  exact ⟨pwr, [], .empty mem sized rfl rfl, by rw [List.length_nil]; omega, rfl⟩

theorem Refines.call {rounds : ℕ} {s : Htable ι × (ι → Hlink ι kind)} {entries : Entries ι kind}
    (refines : Refines s entries) (c : Call ι kind)
    (once : Entries.Once (min (2 ^ 29) rounds) (entries.answer c).2) :
    ∃ s', Htable.call rounds s c = some ((entries.answer c).1, s') ∧
      Refines s' (entries.answer c).2 := by
  have few := lt_min_iff.mp (once.back).2
  obtain ⟨t, mem⟩ := s
  obtain ⟨pwr, items, stores, below, rfl⟩ := refines
  rw [List.length_map] at few
  cases c with
  | lookup key =>
      refine ⟨(t.hashIndex key, mem), ?_, pwr, items, stores.hashIndex key, below, rfl⟩
      rw [Htable.call, stores.lookup key few.2.le, itemAt_eq_lookup]
      rfl
  | insert key item =>
      have same := (itemAt_eq_lookup mem items key).symm
      cases found : itemAt mem items key with
      | some x =>
          rw [Entries.answer_present (same.trans found)]
          refine ⟨(t.hashIndex key, mem), ?_, pwr, items, stores.hashIndex key, below, rfl⟩
          rw [Htable.call, stores.insert_present found few.2]
          rfl
      | none =>
          rw [Entries.answer_absent (same.trans found)] at once ⊢
          obtain ⟨nodup, bound⟩ := once
          rw [List.length_cons, List.length_map] at bound
          have fresh : item ∉ items := by simpa using nodup.notMem
          obtain ⟨pwr', t', mem', called, stores', below', atItem, keys⟩ :=
            stores.insert_absent below fresh found (lt_min_iff.mp bound).1 (lt_min_iff.mp bound).2
          refine ⟨(t', mem'), ?_, pwr', item :: items, stores', below', ?_⟩
          · rw [Htable.call, called]
            rfl
          · rw [List.map_cons, atItem]
            refine congrArg _ (List.map_congr_left fun x member => ?_)
            rw [keys x member]

/-- Every sequence of calls on a new table is answered like a finite map, and a loop over the
table at the end sees every inserted item once. An item is inserted once, and the rounds suffice
for that number of items. -/
theorem run_refines (tsize : Int32) (mem : ι → Hlink ι kind) (calls : List (Call ι kind))
    (once : ((Entries.run calls).2.map Prod.snd).Nodup)
    (few : (Entries.run calls).2.length < 2 ^ 29) {rounds : ℕ}
    (enough : (Entries.run calls).2.length < rounds) :
    ∃ t mem', Calls.run (call rounds) (init tsize, mem) calls =
        some ((Entries.run calls).1, t, mem') ∧
      ∃ items t', Drains (next mem') t.first items t' ∧
        items.Perm ((Entries.run calls).2.map Prod.snd) := by
  have back : ∀ (entries : Entries ι kind) (c : Call ι kind),
      Entries.Once (min (2 ^ 29) rounds) (entries.answer c).2 →
        Entries.Once (min (2 ^ 29) rounds) entries := Entries.Once.back
  obtain ⟨⟨t, mem'⟩, answers, pwr, items, stores, -, same⟩ :=
    Calls.run_eq_spec back (fun s m c related last => Refines.call related c last)
      (init_refines tsize mem) ⟨once, lt_min few enough⟩
  obtain ⟨sized, chains, table, perm⟩ := stores
  have positive : 0 < t.buckets := by
    rw [sized.buckets]
    exact Nat.two_pow_pos pwr
  obtain ⟨t', drains⟩ := table.drains positive
  refine ⟨t, mem', answers, _, t', drains, ?_⟩
  have inserted : (Entries.run calls).2.map Prod.snd = items := by
    unfold Entries.run
    rw [same, List.map_map]
    exact List.map_id items
  rwa [inserted]

/-- Memory that no table uses yet. -/
def unused (_ : Char) : Hlink Char .ikey := ⟨none, 0, (0 : UInt64)⟩

/-- Three calls, the second under the key of the first. -/
def threeCalls : List (Call Char .ikey) :=
  [.insert (7 : UInt64) 'a', .insert (7 : UInt64) 'b', .lookup (7 : UInt64)]

theorem run_refines_three : ∃ t mem', Calls.run (call 2) (init 10, unused) threeCalls =
        some ([.inserted true, .inserted false, .found (some 'a')], t, mem') ∧
      ∃ items t', Drains (next mem') t.first items t' ∧ items.Perm ['a'] :=
  run_refines 10 unused threeCalls (by decide) (by decide) (by decide)

end Bacula.Htable
