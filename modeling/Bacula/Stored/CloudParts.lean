import Bacula.Lib.Ilist

/-! The lists of cloud parts, `stored/cloud_parts.c`. A list holds pointers to parts, and
`part` is what the memory holds at a pointer. -/
namespace Bacula.CloudParts

/-- `struct cloud_part`. -/
structure CloudPart where
  index : UInt32
  mtime : Int64
  size : UInt64
  hash64 : Vector UInt8 64
  deriving DecidableEq

/-- `operator==`. The hash is not compared, "not just yet". -/
def CloudPart.same (lhs rhs : CloudPart) : Bool :=
  lhs.index == rhs.index && lhs.mtime == rhs.mtime && lhs.size == rhs.size

variable {P : Type} (part : P → CloudPart)

/-- One round of the loop of `diff_lists`. -/
def diffPart (source dest : Ilist P) (diff : Ilist P) (index : ℕ) : Ilist P :=
  match source.get index, dest.get index with
  | none, none => diff
  | none, some _ => diff.put index none
  | some p1, none => diff.put index (some p1)
  | some p1, some p2 => if (part p1).same (part p2) then diff else diff.put index (some p1)

/-- `diff_lists`, with its result. An argument can be NULL. -/
def diffLists : Option (Ilist P) → Option (Ilist P) → Option (Ilist P) → Bool × Option (Ilist P)
  | some source, some dest, some diff =>
      let maxSize :=
        if source.lastItem < dest.lastItem then dest.lastItem else source.lastItem
      (true, some ((List.range (maxSize + 1)).foldl (diffPart part source dest) diff))
  | _, _, diff => (false, diff)

/-- The list of the parts to be copied: at every index the part of the source that the
destination has not, or that it has in another form, and their number. -/
structure Missing (source dest diff : Ilist P) : Prop where
  get : ∀ (index : ℤ) (p : P), diff.get index = some p ↔
    source.get index = some p ∧ ∀ p2, dest.get index = some p2 → (part p).same (part p2) = false
  size : diff.size = diff.count

section Loop

variable (source dest : Ilist P)

/-- What the loop puts at an index. -/
def wanted (index : ℕ) : Option P :=
  (source.get index).filter fun p1 => (dest.get index).all fun p2 => !(part p1).same (part p2)

/-- The destination has a part that the source has not. -/
def onlyDest (index : ℕ) : Bool := (source.get index).isNone && (dest.get index).isSome

theorem diffPart_spec (diff : Ilist P) {index : ℕ} (free : slot diff.items index = none) :
    (∀ i, slot (diffPart part source dest diff index).items i =
      if i = index then wanted part source dest index else slot diff.items i) ∧
    (diffPart part source dest diff index).size + diff.count =
      (diffPart part source dest diff index).count + diff.size +
        if onlyDest source dest index then 1 else 0 := by
  have kept (i : ℕ) : slot diff.items i = if i = index then none else slot diff.items i := by
    split
    · rename_i same
      rw [same, free]
    · rfl
  unfold diffPart wanted onlyDest
  cases source.get index with
  | none =>
      cases dest.get index with
      | none => exact ⟨kept, Nat.add_comm _ _⟩
      | some p2 =>
          refine ⟨diff.put_slot index none, ?_⟩
          dsimp only
          rw [diff.put_size free, diff.put_count free]
          simp
          omega
  | some p1 =>
      cases dest.get index with
      | none =>
          refine ⟨diff.put_slot index (some p1), ?_⟩
          dsimp only
          rw [diff.put_size free, diff.put_count free]
          simp
          omega
      | some p2 =>
          cases same : (part p1).same (part p2) with
          | true =>
              simp only [same, Option.filter, Option.all_some]
              exact ⟨kept, Nat.add_comm _ _⟩
          | false =>
              simp only [same, Option.filter, Option.all_some]
              refine ⟨diff.put_slot index (some p1), ?_⟩
              rw [if_neg Bool.false_ne_true, diff.put_size free, diff.put_count free]
              simp
              omega

/-- After `n` rounds the list holds the wanted parts below `n`, and the number of its items
is too large by the number of the parts that only the destination has. -/
theorem diffParts_spec (num n : ℕ) :
    let diff := (List.range n).foldl (diffPart part source dest) (Ilist.init num)
    (∀ i, slot diff.items i = if i < n then wanted part source dest i else none) ∧
      diff.size = diff.count + (List.range n).countP (onlyDest source dest) := by
  induction n with
  | zero => exact ⟨fun i => rfl, rfl⟩
  | succ n ih =>
      obtain ⟨slots, size⟩ := ih
      rw [List.range_succ, List.foldl_append, List.countP_append]
      have free : slot ((List.range n).foldl (diffPart part source dest)
          (Ilist.init num)).items n = none := by
        rw [slots, if_neg (lt_irrefl n)]
      obtain ⟨step, sizes⟩ := diffPart_spec part source dest
        ((List.range n).foldl (diffPart part source dest) (Ilist.init num)) free
      refine ⟨fun i => ?_, ?_⟩
      · rw [List.foldl_cons, List.foldl_nil, step i, slots i]
        by_cases here : i = n
        · rw [if_pos here, if_pos (by omega), here]
        · rw [if_neg here]
          simp only [show i < n + 1 ↔ i < n by omega]
      · rw [List.foldl_cons, List.foldl_nil, List.countP_singleton]
        omega

/-- An index above the last ones has no part. -/
theorem get_above (l : Ilist P) {index : ℕ} (behind : l.lastItem < index) :
    l.get index = none := by
  unfold Ilist.get
  exact if_pos (Or.inr (Or.inr (by exact_mod_cast behind)))

/-- What the difference of two lists has at an index. -/
theorem diffLists_get (source dest : Ilist P) (num : ℕ) :
    ∃ diff, diffLists part (some source) (some dest) (some (Ilist.init num)) = (true, some diff) ∧
      ∀ index : ℕ, diff.get index = wanted part source dest index := by
  refine ⟨_, rfl, fun index => ?_⟩
  set maxSize := if source.lastItem < dest.lastItem then dest.lastItem else source.lastItem
  have high : source.lastItem ≤ maxSize := by
    dsimp only [maxSize]
    split <;> omega
  obtain ⟨slots, -⟩ := diffParts_spec part source dest num (maxSize + 1)
  rw [Ilist.get_eq, if_neg (by omega), Int.toNat_natCast, slots]
  split
  · rfl
  · rename_i behind
    rw [wanted, get_above source (by omega)]
    rfl

end Loop

/-- The difference of two lists is the list of the parts to be copied, if and only if the
source has a part wherever the destination has one. -/
theorem diffLists_missing_iff (source dest : Ilist P) (num : ℕ) :
    ∃ diff, diffLists part (some source) (some dest) (some (Ilist.init num)) = (true, some diff) ∧
      (Missing part source dest diff ↔
        ∀ index : ℤ, (dest.get index).isSome → (source.get index).isSome) := by
  refine ⟨_, rfl, ?_⟩
  set maxSize := if source.lastItem < dest.lastItem then dest.lastItem else source.lastItem
  have high : source.lastItem ≤ maxSize ∧ dest.lastItem ≤ maxSize := by
    dsimp only [maxSize]
    split <;> omega
  obtain ⟨slots, size⟩ := diffParts_spec part source dest num (maxSize + 1)
  set diff := (List.range (maxSize + 1)).foldl (diffPart part source dest) (Ilist.init num)
  have got (index : ℤ) (p : P) : diff.get index = some p ↔ source.get index = some p ∧
      ∀ p2, dest.get index = some p2 → (part p).same (part p2) = false := by
    rw [Ilist.get_eq]
    split
    · rename_i negative
      rw [source.get_eq, if_pos negative]
      simp
    · rename_i positive
      obtain ⟨i, rfl⟩ : ∃ i : ℕ, index = i := ⟨index.toNat, by omega⟩
      rw [Int.toNat_natCast, slots]
      split
      · rw [wanted, Option.filter_eq_some_iff, Option.all_eq_true]
        simp only [Bool.not_eq_true']
      · rename_i behind
        rw [get_above source (by omega)]
        simp
  constructor
  · intro missing index found
    have none : (List.range (maxSize + 1)).countP (onlyDest source dest) = 0 := by
      have equal := missing.size
      omega
    by_contra absent
    have inside : 0 ≤ index := by
      by_contra negative
      rw [dest.get_eq, if_pos (not_le.mp negative)] at found
      cases found
    obtain ⟨i, rfl⟩ : ∃ i : ℕ, index = i := ⟨index.toNat, by omega⟩
    have below : i < maxSize + 1 := by
      by_contra behind
      rw [get_above dest (by omega)] at found
      cases found
    refine List.countP_eq_zero.mp none i (List.mem_range.mpr below) ?_
    rw [onlyDest, found, Bool.and_true]
    simpa using absent
  · intro covered
    refine ⟨got, ?_⟩
    have none : (List.range (maxSize + 1)).countP (onlyDest source dest) = 0 := by
      refine List.countP_eq_zero.mpr fun i _ only => ?_
      rw [onlyDest, Bool.and_eq_true] at only
      have found := covered i only.2
      rw [Option.isNone_iff_eq_none.mp only.1] at found
      cases found
    omega

/-- A part that only the destination has is counted in the difference, which is empty. -/
theorem diffLists_counts_null :
    let dest := (Ilist.init 10).put 1 (some ())
    let part : Unit → CloudPart := fun _ => ⟨1, 1000, 1000, Vector.replicate 64 0⟩
    (diffLists part (some (Ilist.init 10)) (some dest) (some (Ilist.init 10))).2.map
      (fun diff => (diff.size, diff.count, diff.get 0, diff.get 1)) =
        some (1, 0, none, none) := by
  decide

end Bacula.CloudParts
