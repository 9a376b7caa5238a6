import Mathlib

/-!
# Flag bits in a machine word

A flag is a word with one bit set. A word that has the bit clear can carry the flag next to its
own value: the flag is tested by a mask, and stripped by the mask's complement.
-/
namespace WordFlags

variable {w : ℕ} {x y : BitVec w} {k j : ℕ}

theorem and_flag_ne_zero (fits : k < w) :
    x &&& BitVec.twoPow w k ≠ 0 ↔ x.getLsbD k = true := by
  rw [BitVec.and_twoPow]
  cases bit : x.getLsbD k with
  | false => simp
  | true =>
      simp only [if_true, iff_true]
      intro zero
      have image := congrArg (BitVec.getLsbD · k) zero
      simp [fits] at image

theorem and_flag_eq_zero (fits : k < w) :
    x &&& BitVec.twoPow w k = 0 ↔ x.getLsbD k = false := by
  rw [← Bool.not_eq_true, ← and_flag_ne_zero fits, not_not]

/-- Stripping a flag that was added. -/
theorem strip (clear : x.getLsbD k = false) :
    (x ||| BitVec.twoPow w k) &&& ~~~BitVec.twoPow w k = x := by
  refine BitVec.eq_of_getLsbD_eq fun i below => ?_
  simp only [BitVec.getLsbD_and, BitVec.getLsbD_or, BitVec.getLsbD_not, BitVec.getLsbD_twoPow]
  by_cases same : k = i
  · subst same
    simp only [clear, below, decide_true, Bool.and_true, Bool.true_and, Bool.or_true, Bool.not_true]
  · simp [same, below]

theorem strip_of_clear (clear : x.getLsbD k = false) : x &&& ~~~BitVec.twoPow w k = x := by
  refine BitVec.eq_of_getLsbD_eq fun i below => ?_
  simp only [BitVec.getLsbD_and, BitVec.getLsbD_not, BitVec.getLsbD_twoPow]
  by_cases same : k = i
  · subst same
    simp [clear]
  · simp [same, below]

theorem or_flag_eq_self (present : x.getLsbD k = true) : x ||| BitVec.twoPow w k = x := by
  refine BitVec.eq_of_getLsbD_eq fun i below => ?_
  simp only [BitVec.getLsbD_or, BitVec.getLsbD_twoPow]
  by_cases same : k = i
  · subst same
    simp [present]
  · simp [same]

theorem or_flag_ne_self (fits : k < w) (clear : x.getLsbD k = false) :
    x ||| BitVec.twoPow w k ≠ x := by
  intro same
  have image := congrArg (BitVec.getLsbD · k) same
  rw [BitVec.getLsbD_or, clear, BitVec.getLsbD_twoPow] at image
  simp [fits] at image

theorem or_flag_ne_zero (fits : k < w) : x ||| BitVec.twoPow w k ≠ 0 := by
  intro zero
  have image := congrArg (BitVec.getLsbD · k) zero
  simp [fits] at image

/-- A small number has no high bits. -/
theorem getLsbD_of_lt (small : x.toNat < 2 ^ j) (high : j ≤ k) : x.getLsbD k = false := by
  rw [BitVec.getLsbD, Nat.testBit_lt_two_pow]
  exact small.trans_le (Nat.pow_le_pow_right (by decide) high)

end WordFlags
