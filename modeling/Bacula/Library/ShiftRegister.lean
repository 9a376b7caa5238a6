import Mathlib

/-!
# Linear feedback shift registers

A register that moves down by one bit at a time and adds a polynomial when a bit falls out. All of
its operations are linear in exclusive or, so that many steps can be taken apart into tables.
-/
namespace ShiftRegister

variable {w : ℕ} (poly : BitVec w)

def shift (c : BitVec w) : BitVec w :=
  if c.getLsbD 0 then (c >>> 1) ^^^ poly else c >>> 1

def shifts (n : ℕ) (c : BitVec w) : BitVec w := (shift poly)^[n] c

@[simp] theorem shifts_zero (c : BitVec w) : shifts poly 0 c = c := rfl

theorem shifts_add (m n : ℕ) (c : BitVec w) :
    shifts poly (m + n) c = shifts poly m (shifts poly n c) :=
  Function.iterate_add_apply (shift poly) m n c

theorem shifts_succ (n : ℕ) (c : BitVec w) :
    shifts poly (n + 1) c = shift poly (shifts poly n c) :=
  Function.iterate_succ_apply' (shift poly) n c

theorem shift_xor (a b : BitVec w) : shift poly (a ^^^ b) = shift poly a ^^^ shift poly b := by
  unfold shift
  rw [BitVec.getLsbD_xor, BitVec.ushiftRight_xor_distrib]
  cases a.getLsbD 0 <;> cases b.getLsbD 0
  · rfl
  · exact BitVec.xor_assoc _ _ _
  · change (a >>> 1 ^^^ b >>> 1) ^^^ poly = (a >>> 1 ^^^ poly) ^^^ b >>> 1
    ac_rfl
  · change a >>> 1 ^^^ b >>> 1 = (a >>> 1 ^^^ poly) ^^^ (b >>> 1 ^^^ poly)
    have cancel : (a >>> 1 ^^^ poly) ^^^ (b >>> 1 ^^^ poly) =
        (a >>> 1 ^^^ b >>> 1) ^^^ (poly ^^^ poly) := by ac_rfl
    rw [cancel, BitVec.xor_self, BitVec.xor_zero]

theorem shifts_xor (n : ℕ) (a b : BitVec w) :
    shifts poly n (a ^^^ b) = shifts poly n a ^^^ shifts poly n b := by
  induction n with
  | zero => rfl
  | succ n ih => simp only [shifts_succ, ih, shift_xor]

/-- While the bits that fall out are clear, the register only moves down. -/
theorem shifts_clear (c : BitVec w) (n : ℕ) (clear : ∀ i < n, c.getLsbD i = false) :
    shifts poly n c = c >>> n := by
  induction n with
  | zero => exact (BitVec.ushiftRight_zero c).symm
  | succ n ih =>
      have low : (c >>> n).getLsbD 0 = false := by
        rw [BitVec.getLsbD_ushiftRight]
        exact clear _ (Nat.lt_succ_self n)
      rw [shifts_succ, ih fun i below => clear i (Nat.lt_succ_of_lt below), shift,
        if_neg (by simp [low]), ← BitVec.shiftRight_add]

section Injective

/-- Nothing is lost when the highest bit of the polynomial tells which bit fell out. -/
theorem shift_injective (high : poly.msb = true) : Function.Injective (shift poly) := by
  intro a b same
  have zero (c : BitVec w) (none : shift poly c = 0#w) : c = 0#w := by
    unfold shift at none
    have positive : 0 < w := by
      rcases Nat.eq_zero_or_pos w with rfl | positive
      · simp [BitVec.msb, BitVec.getMsbD] at high
      · exact positive
    split at none
    · have top := congrArg BitVec.msb none
      simp [high, BitVec.msb_ushiftRight] at top
    · next low =>
        apply BitVec.eq_of_getLsbD_eq
        intro i below
        cases i with
        | zero => simpa using low
        | succ i =>
            have bit := congrArg (fun c : BitVec w => c.getLsbD i) none
            simpa [BitVec.getLsbD_ushiftRight, Nat.add_comm] using bit
  have difference : shift poly (a ^^^ b) = 0#w := by
    rw [shift_xor, same, BitVec.xor_self]
  exact BitVec.xor_eq_zero_iff.mp (zero _ difference)

theorem shifts_injective (high : poly.msb = true) (n : ℕ) : Function.Injective (shifts poly n) :=
  (shift_injective poly high).iterate n

end Injective

/-! ## Symbols of several bits -/

/-- A symbol of `k` bits goes into the low end of the register. -/
def feed {k : ℕ} (c : BitVec w) (b : BitVec k) : BitVec w := shifts poly k (c ^^^ b.setWidth w)

/-- Symbols as one number, the first one lowest. -/
def join {k : ℕ} : List (BitVec k) → BitVec w
  | [] => 0#w
  | b :: bs => b.setWidth w ^^^ (join bs <<< k)

theorem shifts_shiftLeft (c : BitVec w) (k : ℕ) (fits : ∀ i, w ≤ i + k → c.getLsbD i = false) :
    shifts poly k (c <<< k) = c := by
  rw [shifts_clear poly _ k fun i below => by simp [below]]
  apply BitVec.eq_of_getLsbD_eq
  intro i below
  rw [BitVec.getLsbD_ushiftRight, BitVec.getLsbD_shiftLeft]
  by_cases inside : k + i < w
  · simp [inside]
  · simp [inside, fits i (by omega)]

theorem join_high {k : ℕ} (bs : List (BitVec k)) (i : ℕ) (above : k * bs.length ≤ i) :
    (join bs : BitVec w).getLsbD i = false := by
  induction bs generalizing i with
  | nil => simp [join]
  | cons b bs ih =>
      rw [List.length_cons, Nat.mul_succ] at above
      have rest := ih (i - k) (by omega)
      simp only [join, BitVec.getLsbD_xor, BitVec.getLsbD_setWidth, BitVec.getLsbD_shiftLeft]
      rw [BitVec.getLsbD_of_ge b i (by omega), rest]
      simp

/-- As many symbols as the register has room for can be added first. -/
theorem foldl_feed {k : ℕ} (bs : List (BitVec k)) (fits : k * bs.length ≤ w) (c : BitVec w) :
    bs.foldl (feed poly) c = shifts poly (k * bs.length) (c ^^^ join bs) := by
  induction bs generalizing c with
  | nil => simp [join]
  | cons b bs ih =>
      rw [List.length_cons, Nat.mul_succ] at fits
      have later : shifts poly k (join bs <<< k) = (join bs : BitVec w) :=
        shifts_shiftLeft poly _ k fun i above => join_high bs i (by omega)
      rw [List.foldl_cons, ih (by omega), feed, List.length_cons, Nat.mul_succ, shifts_add, join,
        ← BitVec.xor_assoc, shifts_xor poly k (c ^^^ _), later]

theorem foldl_feed_injective {k : ℕ} (high : poly.msb = true) (bs : List (BitVec k)) :
    Function.Injective fun c => bs.foldl (feed poly) c := by
  induction bs with
  | nil => exact Function.injective_id
  | cons b bs ih =>
      intro c d same
      have front := shifts_injective poly high k (ih same)
      exact (BitVec.xor_left_inj _).mp front

theorem join_injective {k : ℕ} {bs cs : List (BitVec k)} (length : bs.length = cs.length)
    (fits : k * bs.length ≤ w) (same : (join bs : BitVec w) = join cs) : bs = cs := by
  induction bs generalizing cs with
  | nil => exact (List.eq_nil_of_length_eq_zero length.symm).symm
  | cons b bs ih =>
      cases cs with
      | nil => cases length
      | cons c cs =>
          rw [List.length_cons, Nat.mul_succ] at fits
          have bit (i : ℕ) : (join (b :: bs) : BitVec w).getLsbD i =
              (join (c :: cs) : BitVec w).getLsbD i := by
            rw [same]
          simp only [join, BitVec.getLsbD_xor, BitVec.getLsbD_setWidth, BitVec.getLsbD_shiftLeft] at bit
          have head : b = c := by
            apply BitVec.eq_of_getLsbD_eq
            intro i below
            have := bit i
            simpa [below, show i < w by omega] using this
          subst head
          have tail : (join bs : BitVec w) = join cs := by
            apply BitVec.eq_of_getLsbD_eq
            intro i below
            by_cases inside : i + k < w
            · have := bit (i + k)
              simpa [inside] using this
            · have lengths : bs.length = cs.length := Nat.succ.inj length
              rw [join_high bs i (by omega), join_high cs i (by rw [← lengths]; omega)]
          rw [ih (Nat.succ.inj length) (by omega) tail]

/-- A burst that is not longer than the register is seen in every later state. -/
theorem burst_seen {k : ℕ} (high : poly.msb = true) (front burst burst' behind : List (BitVec k))
    (length : burst.length = burst'.length) (fits : k * burst.length ≤ w) (c : BitVec w)
    (same : (front ++ (burst ++ behind)).foldl (feed poly) c =
      (front ++ (burst' ++ behind)).foldl (feed poly) c) : burst = burst' := by
  simp only [List.foldl_append] at same
  have middle := foldl_feed_injective poly high behind same
  rw [foldl_feed poly burst fits, foldl_feed poly burst' (length ▸ fits), ← length] at middle
  exact join_injective length fits ((BitVec.xor_right_inj _).mp (shifts_injective poly high _ middle))

end ShiftRegister
