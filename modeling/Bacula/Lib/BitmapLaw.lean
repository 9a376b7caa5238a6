import Bacula.Lib.Bitmap

/-! When a bitmap keeps its entries, and its accesses are inside the arrays. -/
namespace Bacula.Bitmap

/-! ## Bits of an array -/

def bitAt (var : List UInt8) (n : ℕ) : Bool := (var.getD (n / 8) 0).toNat.testBit (n % 8)

theorem mask_testBit (b : UInt32) {i : ℕ} (small : i < 8) :
    (mask b).toNat.testBit i = decide (i = b.toNat % 8) := by
  have low : ∀ r < 8, ∀ i < 8, ((1 : UInt8) <<< UInt8.ofNat r).toNat.testBit i = decide (i = r) := by
    decide
  have same : (b &&& 7).toUInt8 = UInt8.ofNat (b.toNat % 8) := by
    apply UInt8.toNat_inj.mp
    have rest : b.toNat &&& 7 = b.toNat % 8 := Nat.and_two_pow_sub_one_eq_mod b.toNat 3
    rw [UInt32.toNat_toUInt8, UInt32.toNat_and, UInt8.toNat_ofNat']
    change (b.toNat &&& 7) % 2 ^ 8 = _
    omega
  rw [mask, same, low _ (by omega) _ small]

theorem and_mask (c : UInt8) (b : UInt32) :
    c &&& mask b ≠ 0 ↔ c.toNat.testBit (b.toNat % 8) = true := by
  have inside : b.toNat % 8 < 8 := Nat.mod_lt _ (by decide)
  constructor
  · intro some
    by_contra none
    refine some (UInt8.toNat_inj.mp (Nat.eq_of_testBit_eq fun i => ?_))
    rw [UInt8.toNat_and, Nat.testBit_and]
    by_cases small : i < 8
    · rw [mask_testBit b small]
      grind
    · have high : (mask b).toNat < 2 ^ i :=
        lt_of_lt_of_le (mask b).toNat_lt (Nat.pow_le_pow_right (by decide) (not_lt.mp small))
      simp [Nat.testBit_lt_two_pow high]
  · intro one zero
    have bit := congrArg (fun c : UInt8 => c.toNat.testBit (b.toNat % 8)) zero
    simp [one, mask_testBit b inside] at bit

theorem testBit_not (c : UInt8) {i : ℕ} (small : i < 8) :
    (~~~c).toNat.testBit i = !c.toNat.testBit i := by
  change (~~~c).toBitVec.getLsbD i = _
  simp [small]
  rfl

theorem byteIndex (b : UInt32) : (b >>> 3).toNat = b.toNat / 8 := by
  rw [UInt32.toNat_shiftRight]
  exact Nat.shiftRight_eq_div_pow _ 3

variable {b : UInt32} {var : List UInt8}

theorem bitIsSet_eq (inside : b.toNat / 8 < var.length) :
    bitIsSet b var = some (bitAt var b.toNat) := by
  rw [bitIsSet, byteIndex, List.getElem?_eq_getElem inside, Option.map_some, bitAt,
    List.getD_eq_getElem _ _ inside]
  exact congrArg some (Bool.eq_iff_iff.mpr ((decide_eq_true_iff).trans (and_mask _ b)))

/-- Writing a byte that differs in one bit at most. -/
theorem bitAt_set (inside : b.toNat / 8 < var.length) {c : UInt8} {v : Bool}
    (byte : ∀ i < 8, c.toNat.testBit i =
      if i = b.toNat % 8 then v else (var[b.toNat / 8]).toNat.testBit i) (n : ℕ) :
    bitAt (var.set (b.toNat / 8) c) n = if n = b.toNat then v else bitAt var n := by
  have small : n % 8 < 8 := Nat.mod_lt _ (by decide)
  unfold bitAt
  by_cases same : n / 8 = b.toNat / 8
  · rw [same, List.getD_eq_getElem _ _ (by rw [List.length_set]; exact inside), List.getElem_set_self,
      byte _ small, List.getD_eq_getElem _ _ inside]
    split <;> split <;> first | rfl | omega
  · rw [if_neg (by rintro rfl; exact same rfl), List.getD_eq_getElem?_getD,
      List.getElem?_set_ne (by omega), ← List.getD_eq_getElem?_getD]

theorem setBit_eq (inside : b.toNat / 8 < var.length) :
    ∃ var', setBit b var = some var' ∧ var'.length = var.length ∧
      ∀ n, bitAt var' n = if n = b.toNat then true else bitAt var n := by
  refine ⟨_, ?_, List.length_set, bitAt_set (c := var[b.toNat / 8] ||| mask b) inside fun i small => ?_⟩
  · rw [setBit, byteIndex, List.getElem?_eq_getElem inside]
    rfl
  · rw [UInt8.toNat_or, Nat.testBit_or, mask_testBit b small]
    split <;> simp_all

theorem clearBit_eq (inside : b.toNat / 8 < var.length) :
    ∃ var', clearBit b var = some var' ∧ var'.length = var.length ∧
      ∀ n, bitAt var' n = if n = b.toNat then false else bitAt var n := by
  refine ⟨_, ?_, List.length_set,
    bitAt_set (c := var[b.toNat / 8] &&& ~~~mask b) inside fun i small => ?_⟩
  · rw [clearBit, byteIndex, List.getElem?_eq_getElem inside]
    rfl
  · rw [UInt8.toNat_and, Nat.testBit_and, testBit_not _ small, mask_testBit b small]
    split <;> simp_all

theorem bitAt_zeros (len n : ℕ) : bitAt (List.replicate len 0) n = false := by
  rw [bitAt, List.getD_eq_getElem?_getD, List.getElem?_replicate]
  split <;> simp

/-! ## One step -/

/-- The bits below the size are the entries, and the arrays have the bytes for them. -/
structure Holds (m : Bitmap) (e : Entries) : Prop where
  max : m.max = e.max
  positive : 1 ≤ e.max.toNat
  len : m.len = nbytesForBits e.max
  array : m.array.length = m.len
  isset : m.isset.length = m.len
  bits : ∀ b : UInt32, b < e.max →
    bitAt m.isset b.toNat = (e.entry b).isSome ∧ bitAt m.array b.toNat = (e.entry b == some true)
  clear : ∀ n, e.max.toNat ≤ n → bitAt m.isset n = false ∧ bitAt m.array n = false
  above : ∀ b : UInt32, e.max ≤ b → e.entry b = none

theorem nbytesForBits_eq {n : UInt32} (some : 1 ≤ n.toNat) :
    nbytesForBits n = (n.toNat - 1) / 8 + 1 := by
  have one : (n - 1).toNat = n.toNat - 1 := UInt32.toNat_sub_of_le n 1 some
  rw [nbytesForBits, byteIndex, one]

variable {m : Bitmap} {e : Entries}

theorem Holds.inside (holds : Holds m e) {b : UInt32} (below : b < e.max) :
    b.toNat / 8 < m.array.length ∧ b.toNat / 8 < m.isset.length := by
  have few : b.toNat < e.max.toNat := below
  have bytes := nbytesForBits_eq holds.positive
  rw [holds.array, holds.isset, holds.len]
  omega

theorem init_holds (n : UInt32) : Holds (init n) (Entries.new n) where
  max := rfl
  positive := by
    unfold Entries.new
    dsimp only
    split
    · next more => exact Nat.le_of_lt more
    · exact le_rfl
  len := rfl
  array := List.length_replicate
  isset := List.length_replicate
  bits _ _ := ⟨bitAt_zeros _ _, bitAt_zeros _ _⟩
  clear _ _ := ⟨bitAt_zeros _ _, bitAt_zeros _ _⟩
  above _ _ := rfl

theorem isSet_eq (holds : Holds m e) (b : UInt32) : m.isSet b = some (e.isSet b) := by
  unfold isSet
  rw [holds.max]
  by_cases above : b ≥ e.max
  · rw [if_pos above, Entries.isSet, holds.above b above]
  · have below : b < e.max := UInt32.not_le.mp above
    obtain ⟨inArray, inIsset⟩ := holds.inside below
    obtain ⟨there, value⟩ := holds.bits b below
    rw [if_neg above, bitIsSet_eq inIsset, bitIsSet_eq inArray, there, value, Entries.isSet]
    cases e.entry b with
    | none => rfl
    | some v => cases v <;> rfl

/-- A bit of each array is written. -/
theorem Holds.put (holds : Holds m e) {b : UInt32} (below : b < e.max) {v : Option Bool}
    {isset array : List UInt8}
    (sizes : isset.length = m.isset.length ∧ array.length = m.array.length)
    (there : ∀ n, bitAt isset n = if n = b.toNat then v.isSome else bitAt m.isset n)
    (value : ∀ n, bitAt array n = if n = b.toNat then (v == some true) else bitAt m.array n) :
    Holds { m with isset, array } (e.put b v) := by
  have few : b.toNat < e.max.toNat := below
  rw [Entries.put, if_pos below]
  refine ⟨holds.max, holds.positive, holds.len, sizes.2.trans holds.array, sizes.1.trans holds.isset,
    fun c small => ?_, fun n large => ?_, fun c large => ?_⟩
  · have old := holds.bits c small
    dsimp only
    rw [there, value]
    by_cases same : c = b
    · rw [same, if_pos rfl, if_pos rfl, Function.update_self]
      exact ⟨rfl, rfl⟩
    · have other : c.toNat ≠ b.toNat := fun eq => same (UInt32.toNat_inj.mp eq)
      rw [if_neg other, if_neg other, Function.update_of_ne same]
      exact old
  · have other : n ≠ b.toNat := by
      dsimp only at large
      omega
    dsimp only
    rw [there, value, if_neg other, if_neg other]
    exact holds.clear n large
  · have other : c ≠ b := by
      rintro rfl
      exact absurd (UInt32.le_iff_toNat_le.mp large) (not_le.mpr few)
    dsimp only
    rw [Function.update_of_ne other]
    exact holds.above c large

theorem bitSet_holds (holds : Holds m e) (b : UInt32) :
    ∃ r, m.bitSet b = some r ∧ Holds r.2 (e.put b (some true)) := by
  unfold bitSet
  by_cases above : b ≥ m.max
  · rw [if_pos above, Entries.put, if_neg (UInt32.not_lt.mpr (holds.max ▸ above))]
    exact ⟨_, rfl, holds⟩
  · have below : b < e.max := holds.max ▸ UInt32.not_le.mp above
    obtain ⟨isset, set, length, there⟩ := setBit_eq (holds.inside below).2
    obtain ⟨array, set', length', value⟩ := setBit_eq (holds.inside below).1
    rw [if_neg above, set, set']
    exact ⟨_, rfl, @Holds.put m e holds b below (some true) isset array ⟨length, length'⟩ there value⟩

theorem bitClear_holds (holds : Holds m e) (b : UInt32) :
    ∃ r, m.bitClear b = some r ∧ Holds r.2 (e.put b (some false)) := by
  unfold bitClear
  by_cases above : b ≥ m.max
  · rw [if_pos above, Entries.put, if_neg (UInt32.not_lt.mpr (holds.max ▸ above))]
    exact ⟨_, rfl, holds⟩
  · have below : b < e.max := holds.max ▸ UInt32.not_le.mp above
    obtain ⟨array, clear, length', value⟩ := clearBit_eq (holds.inside below).1
    obtain ⟨isset, set, length, there⟩ := setBit_eq (holds.inside below).2
    rw [if_neg above, clear, set]
    exact ⟨_, rfl, @Holds.put m e holds b below (some false) isset array ⟨length, length'⟩ there value⟩

theorem bitReset_holds (holds : Holds m e) (b : UInt32) :
    ∃ r, m.bitReset b = some r ∧ Holds r.2 (e.put b none) := by
  unfold bitReset
  by_cases above : b ≥ m.max
  · rw [if_pos above, Entries.put, if_neg (UInt32.not_lt.mpr (holds.max ▸ above))]
    exact ⟨_, rfl, holds⟩
  · have below : b < e.max := holds.max ▸ UInt32.not_le.mp above
    obtain ⟨isset, clear, length, there⟩ := clearBit_eq (holds.inside below).2
    obtain ⟨array, clear', length', value⟩ := clearBit_eq (holds.inside below).1
    rw [if_neg above, clear, clear']
    exact ⟨_, rfl, @Holds.put m e holds b below none isset array ⟨length, length'⟩ there value⟩

/-- The whole source behind a destination of its size. -/
theorem memcpy_all {dest src : List UInt8} {n : ℕ} (destination : dest.length = n)
    (source : src.length = n) : memcpy dest src n = some src := by
  rw [memcpy, if_pos (by omega), List.take_of_length_le source.le,
    List.drop_of_length_le destination.le, List.append_nil]

theorem copy_holds (holds : Holds m e) : ∃ r, copy m = some r ∧ Holds r e := by
  have size : (if 1 < m.max then m.max else 1) = m.max := by
    split
    · rfl
    · next few =>
        have positive := holds.positive
        rw [← holds.max] at positive
        exact (UInt32.le_antisymm (UInt32.not_lt.mp few) positive).symm
  have len : (init m.max).len = m.len := by
    rw [init, holds.len, ← holds.max]
    dsimp only
    rw [size]
  have whole : copy m = some { init m.max with isset := m.isset, array := m.array } := by
    have isset : memcpy (init m.max).isset m.isset (init m.max).len = some m.isset :=
      memcpy_all List.length_replicate (holds.isset.trans len.symm)
    have array : memcpy (init m.max).array m.array (init m.max).len = some m.array :=
      memcpy_all List.length_replicate (holds.array.trans len.symm)
    simp only [copy, isset, array, Option.bind_eq_bind, Option.bind_some]
  refine ⟨_, whole, ?_⟩
  have max : (init m.max).max = m.max := size
  dsimp only
  rw [max, len]
  exact holds

/-- Growing within the last byte. -/
theorem resize_holds (holds : Holds m e) {n : UInt32} (grows : e.max ≤ n)
    (within : nbytesForBits n = nbytesForBits e.max) :
    ∃ r, m.resize n = some r ∧ Holds r { e with max := n } := by
  have le : e.max.toNat ≤ n.toNat := UInt32.le_iff_toNat_le.mp grows
  have bits (b : UInt32) (below : b < n) : bitAt m.isset b.toNat = (e.entry b).isSome ∧
      bitAt m.array b.toNat = (e.entry b == some true) := by
    by_cases old : b < e.max
    · exact holds.bits b old
    · rw [holds.above b (UInt32.not_lt.mp old)]
      exact holds.clear _ (UInt32.le_iff_toNat_le.mp (UInt32.not_lt.mp old))
  unfold resize
  rw [holds.max]
  split
  · next small =>
      refine ⟨_, rfl, rfl, holds.positive.trans le, holds.len.trans within.symm, holds.array,
        holds.isset, bits, fun k large => holds.clear k (le.trans large),
        fun b large => holds.above b (UInt32.le_trans grows large)⟩
  · have len : nbytesForBits n = m.len := within.trans holds.len.symm
    have set : memset (malloc m.len) 0 m.len = some (List.replicate m.len 0) := by
      rw [memset, malloc, List.length_replicate, if_pos le_rfl, List.drop_of_length_le
        List.length_replicate.le, List.append_nil]
    simp only [len, set, Option.bind_eq_bind, Option.bind_some,
      memcpy_all List.length_replicate holds.array, memcpy_all List.length_replicate holds.isset]
    exact ⟨_, rfl, rfl, holds.positive.trans le, len.symm, holds.array, holds.isset, bits,
      fun k large => holds.clear k (le.trans large),
      fun b large => holds.above b (UInt32.le_trans grows large)⟩

/-- Growing over the last byte clears memory behind the new arrays. -/
theorem resize_outside (holds : Holds m e) {n : UInt32} (grows : e.max ≤ n)
    (more : nbytesForBits n ≠ nbytesForBits e.max) : m.resize n = none := by
  have le : e.max.toNat ≤ n.toNat := UInt32.le_iff_toNat_le.mp grows
  have positive := holds.positive
  have larger : nbytesForBits e.max < nbytesForBits n := by
    rw [nbytesForBits_eq positive, nbytesForBits_eq (positive.trans le)] at *
    omega
  have above : ¬ n ≤ m.max := by
    intro small
    rw [holds.max] at small
    exact more (congrArg nbytesForBits (UInt32.le_antisymm small grows))
  have outside : memset (malloc m.len) 0 (nbytesForBits n) = none := by
    rw [memset, malloc, List.length_replicate, if_neg (by rw [holds.len]; omega)]
  rw [resize, if_neg above]
  simp only [outside, Option.bind_eq_bind, Option.bind_none]

variable {ι : Type} [DecidableEq ι] {s : ι → Bitmap} {e : ι → Entries}

theorem update_holds (holds : ∀ m, Holds (s m) (e m)) {m : ι} {new : Bitmap} {entries : Entries}
    (here : Holds new entries) (other : ι) :
    Holds (Function.update s m new other) (Function.update e m entries other) := by
  by_cases same : other = m
  · rw [same, Function.update_self, Function.update_self]
    exact here
  · rw [Function.update_of_ne same, Function.update_of_ne same]
    exact holds other

theorem step_holds (holds : ∀ m, Holds (s m) (e m)) {op : Op ι} (grows : Growing e op)
    (safe : Safe e op) : ∃ s', step s op = some s' ∧ ∀ m, Holds (s' m) (Entries.step e op m) := by
  cases op with
  | resize m n =>
      obtain ⟨new, eq, here⟩ := resize_holds (holds m) grows safe
      exact ⟨_, by rw [step, eq]; rfl, update_holds holds here⟩
  | copy m src =>
      by_cases same : m = src
      · -- nothing is lost, as there is no entry
        subst same
        have empty : Entries.new (s m).max = e m := by
          have none := funext (safe rfl)
          have few := (holds m).positive
          rw [(holds m).max, Entries.new]
          cases entries : e m with
          | mk max entry =>
              rw [entries] at none few
              have size : (if 1 < max then max else 1) = max := by
                split
                · rfl
                · next small => exact (UInt32.le_antisymm (UInt32.not_lt.mp small) few).symm
              rw [size, ← none]
        have here := init_holds (s m).max
        rw [empty] at here
        exact ⟨_, by rw [step, if_pos rfl]; rfl, update_holds holds here⟩
      · obtain ⟨new, eq, here⟩ := copy_holds (holds src)
        exact ⟨_, by rw [step, if_neg same, eq]; rfl, update_holds holds here⟩
  | bitSet m b =>
      obtain ⟨r, eq, here⟩ := bitSet_holds (holds m) b
      exact ⟨_, by rw [step, eq]; rfl, update_holds holds here⟩
  | bitClear m b =>
      obtain ⟨r, eq, here⟩ := bitClear_holds (holds m) b
      exact ⟨_, by rw [step, eq]; rfl, update_holds holds here⟩
  | bitReset m b =>
      obtain ⟨r, eq, here⟩ := bitReset_holds (holds m) b
      exact ⟨_, by rw [step, eq]; rfl, update_holds holds here⟩
  | isSet m b => exact ⟨s, by rw [step, isSet_eq (holds m)]; rfl, holds⟩

theorem isSet_none {e : Entries} {b : UInt32} : e.isSet b = -1 ↔ e.entry b = none := by
  rw [Entries.isSet]
  cases e.entry b with
  | none => exact iff_of_true rfl rfl
  | some v => cases v <;> decide

/-- Any other step ends outside the arrays or loses an entry. -/
theorem step_unsafe (holds : ∀ m, Holds (s m) (e m)) {op : Op ι} (grows : Growing e op)
    (risky : ¬ Safe e op) {s' : ι → Bitmap} (eq : step s op = some s') :
    ∃ m b, (s' m).isSet b ≠ some ((Entries.step e op m).isSet b) := by
  cases op with
  | resize m n =>
      rw [step, resize_outside (holds m) grows risky] at eq
      cases eq
  | copy m src =>
      obtain ⟨rfl, b, entry⟩ : m = src ∧ ∃ b, (e m).entry b ≠ none := by
        simpa [Safe] using risky
      rw [step, if_pos rfl] at eq
      cases eq
      refine ⟨m, b, fun same => entry ?_⟩
      rw [Function.update_self, isSet_eq (init_holds _), Entries.step, Function.update_self] at same
      exact isSet_none.mp (Option.some.inj same).symm
  | bitSet m b => exact absurd trivial risky
  | bitClear m b => exact absurd trivial risky
  | bitReset m b => exact absurd trivial risky
  | isSet m b => exact absurd trivial risky

/-! ## Runs -/

/-- `Answers` from bitmaps that have entries already. -/
def AnswersFrom (s : ι → Bitmap) (e : ι → Entries) (ops : List (Op ι)) : Prop :=
  ∃ s', ops.foldlM step s = some s' ∧ ∀ m b,
    (s' m).isSet b = some ((ops.foldl Entries.step e m).isSet b)

theorem answersFrom_cons {s' : ι → Bitmap} {op : Op ι} (eq : step s op = some s') (ops : List (Op ι)) :
    AnswersFrom s e (op :: ops) ↔ AnswersFrom s' (Entries.step e op) ops := by
  unfold AnswersFrom
  rw [List.foldlM_cons, eq]
  rfl

theorem answersFrom_iff (ops : List (Op ι)) (holds : ∀ m, Holds (s m) (e m))
    (grows : Along Growing e ops) :
    (∀ pre, pre <+: ops → AnswersFrom s e pre) ↔ Along Safe e ops := by
  have start : AnswersFrom s e [] := ⟨s, rfl, fun m b => isSet_eq (holds m) b⟩
  induction ops generalizing s e with
  | nil =>
      refine iff_of_true (fun pre begins => ?_) trivial
      rw [List.prefix_nil.mp begins]
      exact start
  | cons op ops ih =>
      by_cases safe : Safe e op
      · obtain ⟨s', eq, holds'⟩ := step_holds holds grows.1 safe
        have later := ih holds' grows.2 ⟨s', rfl, fun m b => isSet_eq (holds' m) b⟩
        constructor
        · intro all
          refine ⟨safe, later.mp fun pre begins => ?_⟩
          exact (answersFrom_cons eq pre).mp (all (op :: pre) ((List.prefix_cons_inj op).mpr begins))
        · rintro ⟨-, along⟩ pre begins
          cases pre with
          | nil => exact start
          | cons op' pre =>
              obtain ⟨rfl, rest⟩ := List.cons_prefix_cons.mp begins
              exact (answersFrom_cons eq pre).mpr (later.mpr along pre rest)
      · refine iff_of_false (fun all => ?_) fun along => safe along.1
        obtain ⟨s', run, answers⟩ := all [op] (List.cons_prefix_cons.mpr ⟨rfl, List.nil_prefix⟩)
        have eq : step s op = some s' := by
          rw [List.foldlM_cons] at run
          cases first : step s op with
          | none =>
              rw [first] at run
              cases run
          | some next =>
              rw [first] at run
              exact run
        obtain ⟨m, b, wrong⟩ := step_unsafe holds grows.1 safe eq
        exact wrong (answers m b)

/-- Bitmaps of any sizes stay inside their arrays and answer as finite maps through operations that
only grow them, exactly when each of them grows within its last byte and none with entries is copied
to itself. -/
theorem finite_map_iff (n : ι → UInt32) (ops : List (Op ι))
    (grows : Along Growing (fun m => Entries.new (n m)) ops) :
    (∀ pre, pre <+: ops → Answers n pre) ↔ Along Safe (fun m => Entries.new (n m)) ops :=
  answersFrom_iff ops (fun m => init_holds (n m)) grows

/-- Two bitmaps, an entry that is kept by a growth and copied. -/
theorem finite_map_iff_kept :
    (∀ pre, pre <+: [Op.bitSet false 3, .resize false 8, .copy true false] →
        Answers (fun _ => 5) pre) ↔
      Along Safe (fun _ => Entries.new 5) [Op.bitSet false 3, .resize false 8, .copy true false] :=
  finite_map_iff (fun _ : Bool => 5) _ ⟨trivial, by unfold Growing; decide, trivial, trivial⟩

/-- A bitmap of 8 bits grows to 9: the second byte is cleared behind the new array. -/
theorem growth_outside :
    Along Growing (fun _ : Unit => Entries.new 8) [.bitSet () 3, .resize () 9] ∧
      ¬ Answers (fun _ : Unit => 8) [.bitSet () 3, .resize () 9] := by
  refine ⟨⟨trivial, by unfold Growing; decide, trivial⟩, ?_⟩
  rintro ⟨s, run, -⟩
  have outside : [Op.bitSet () 3, .resize () 9].foldlM step (fun _ => init 8) = none := by rfl
  rw [outside] at run
  cases run

end Bacula.Bitmap
