import Mathlib

/-!
# Double precision

The numbers of a format with 53 binary digits, as rational numbers that are not negative. There is
no bound on the exponent. A result between two numbers is rounded to the nearer one, and to the
even one in the middle.
-/
namespace Binary64

/-- The numbers of the format. -/
def IsDouble (x : ℚ) : Prop := ∃ (m : ℕ) (k : ℤ), m < 2 ^ 53 ∧ x = m * 2 ^ k

def roundEven (q : ℚ) : ℤ :=
  let f := ⌊q⌋
  if 2 * (q - f) < 1 then f
  else if 1 < 2 * (q - f) then f + 1
  else if f % 2 = 0 then f else f + 1

/-- The distance of the numbers next to a positive one. -/
def ulp (x : ℚ) : ℚ := 2 ^ (Int.log 2 x - 52)

/-- The nearest number. -/
def double (x : ℚ) : ℚ := if x = 0 then 0 else roundEven (x / ulp x) * ulp x

theorem roundEven_intCast (n : ℤ) : roundEven n = n := by
  rw [roundEven, Int.floor_intCast, sub_self, if_pos (by norm_num)]

theorem roundEven_between (q : ℚ) : ⌊q⌋ ≤ roundEven q ∧ roundEven q ≤ ⌊q⌋ + 1 := by
  unfold roundEven
  dsimp only
  split_ifs <;> omega

section Positive

variable {x : ℚ}

theorem ulp_pos (x : ℚ) : 0 < ulp x := zpow_pos (by norm_num) _

/-- There are 53 digits in front of the point, when a number is counted in these distances. -/
theorem div_ulp (positive : 0 < x) : 2 ^ 52 ≤ x / ulp x ∧ x / ulp x < 2 ^ 53 := by
  have below := Int.zpow_log_le_self (b := 2) (by decide) positive
  have above := Int.lt_zpow_succ_log_self (b := 2) (by decide) x
  push_cast at below above
  have low : (2 : ℚ) ^ 52 * ulp x = 2 ^ Int.log 2 x := by
    rw [ulp, ← zpow_natCast, ← zpow_add₀ (by norm_num)]
    congr 1
    push_cast
    ring
  have high : (2 : ℚ) ^ 53 * ulp x = 2 ^ (Int.log 2 x + 1) := by
    rw [ulp, ← zpow_natCast, ← zpow_add₀ (by norm_num)]
    congr 1
    push_cast
    ring
  rw [le_div_iff₀ (ulp_pos x), div_lt_iff₀ (ulp_pos x), low, high]
  exact ⟨below, above⟩

/-- A number of the format is not changed. -/
theorem double_of_isDouble (number : IsDouble x) : double x = x := by
  obtain ⟨m, k, short, rfl⟩ := number
  by_cases zero : (m : ℚ) * 2 ^ k = 0
  · rw [double, if_pos zero, zero]
  have some : 0 < m := by
    refine Nat.pos_of_ne_zero fun none => zero ?_
    rw [none, Nat.cast_zero, zero_mul]
  have positive : 0 < (m : ℚ) * 2 ^ k := mul_pos (Nat.cast_pos.mpr some) (zpow_pos (by norm_num) _)
  -- the digits behind the last one of 53 are zero
  have small : Int.log 2 ((m : ℚ) * 2 ^ k) < 53 + k := by
    refine (Int.lt_zpow_iff_log_lt (by decide) positive).mp ?_
    push_cast
    rw [zpow_add₀ (by norm_num)]
    refine mul_lt_mul_of_pos_right ?_ (zpow_pos (by norm_num) _)
    exact_mod_cast short
  obtain ⟨j, exponent⟩ := Int.le.dest (show Int.log 2 ((m : ℚ) * 2 ^ k) - 52 ≤ k by omega)
  have whole : (m : ℚ) * 2 ^ k / ulp (m * 2 ^ k) = ((m * 2 ^ j : ℕ) : ℤ) := by
    rw [div_eq_iff (ne_of_gt (ulp_pos _)), ulp]
    push_cast
    rw [mul_assoc, ← zpow_natCast, ← zpow_add₀ (by norm_num)]
    congr 2
    omega
  rw [double, if_neg zero, whole, roundEven_intCast, ← whole, div_mul_cancel₀ _ (ne_of_gt (ulp_pos _))]

theorem isDouble_double (positive : 0 ≤ x) : IsDouble (double x) := by
  unfold double
  split_ifs with zero
  · exact ⟨0, 0, by norm_num, by norm_num⟩
  have positive := lt_of_le_of_ne positive (Ne.symm zero)
  obtain ⟨low, high⟩ := div_ulp positive
  obtain ⟨floor, ceiling⟩ := roundEven_between (x / ulp x)
  have least : (2 ^ 52 : ℤ) ≤ ⌊x / ulp x⌋ := Int.le_floor.mpr (by exact_mod_cast low)
  have most : ⌊x / ulp x⌋ < (2 ^ 53 : ℤ) := Int.floor_lt.mpr (by exact_mod_cast high)
  have cast : ((roundEven (x / ulp x)).toNat : ℚ) = roundEven (x / ulp x) := by
    exact_mod_cast Int.toNat_of_nonneg (by omega)
  by_cases carry : roundEven (x / ulp x) = 2 ^ 53
  · refine ⟨2 ^ 52, Int.log 2 x - 52 + 1, by norm_num, ?_⟩
    rw [carry, ulp, zpow_add_one₀ (by norm_num)]
    push_cast
    ring
  · refine ⟨(roundEven (x / ulp x)).toNat, Int.log 2 x - 52, by omega, ?_⟩
    rw [cast, ulp]

/-- A result is too large by one digit of 53 at most. -/
theorem double_le (positive : 0 ≤ x) : double x ≤ x * (1 + 1 / 2 ^ 52) := by
  unfold double
  split_ifs with zero
  · rw [zero, zero_mul]
  have positive := lt_of_le_of_ne positive (Ne.symm zero)
  obtain ⟨low, -⟩ := div_ulp positive
  obtain ⟨-, ceiling⟩ := roundEven_between (x / ulp x)
  have next : (roundEven (x / ulp x) : ℚ) ≤ x / ulp x + 1 := by
    have floor := Int.floor_le (x / ulp x)
    have step : (roundEven (x / ulp x) : ℚ) ≤ ⌊x / ulp x⌋ + 1 := by exact_mod_cast ceiling
    linarith
  have distance : ulp x ≤ x / 2 ^ 52 := by
    rw [le_div_iff₀ (by norm_num), mul_comm]
    exact (le_div_iff₀ (ulp_pos x)).mp low
  calc (roundEven (x / ulp x) : ℚ) * ulp x ≤ (x / ulp x + 1) * ulp x :=
        mul_le_mul_of_nonneg_right next (le_of_lt (ulp_pos x))
    _ = x + ulp x := by rw [add_mul, one_mul, div_mul_cancel₀ _ (ne_of_gt (ulp_pos x))]
    _ ≤ x + x / 2 ^ 52 := by linarith
    _ = x * (1 + 1 / 2 ^ 52) := by ring

theorem double_nonneg (positive : 0 ≤ x) : 0 ≤ double x := by
  obtain ⟨m, k, -, same⟩ := isDouble_double positive
  rw [same]
  positivity

end Positive

/-- The whole numbers of the format. -/
theorem isDouble_natCast (n : ℕ) : IsDouble n ↔ ∃ m k : ℕ, m < 2 ^ 53 ∧ n = m * 2 ^ k := by
  constructor
  · rintro ⟨m, k, short, same⟩
    obtain ⟨j, rfl | rfl⟩ := Int.eq_nat_or_neg k
    · rw [zpow_natCast] at same
      exact ⟨m, j, short, by exact_mod_cast same⟩
    · rw [zpow_neg, zpow_natCast, eq_mul_inv_iff_mul_eq₀ (by positivity)] at same
      have product : n * 2 ^ j = m := by exact_mod_cast same
      refine ⟨n, 0, lt_of_le_of_lt ?_ short, by rw [pow_zero, mul_one]⟩
      rw [← product]
      exact Nat.le_mul_of_pos_right n (Nat.two_pow_pos j)
  · rintro ⟨m, k, short, rfl⟩
    exact ⟨m, k, short, by push_cast; rw [zpow_natCast]⟩

/-- Cut off to a whole number, a number of the format is one again. -/
theorem isDouble_of_floor {x : ℚ} {n : ℕ} (number : IsDouble x) (floor : ⌊x⌋ = n) : IsDouble n := by
  obtain ⟨m, k, short, rfl⟩ := number
  obtain ⟨j, rfl | rfl⟩ := Int.eq_nat_or_neg k
  · have whole : (m : ℚ) * 2 ^ (j : ℤ) = ((m * 2 ^ j : ℕ) : ℤ) := by
      push_cast
      rw [zpow_natCast]
    rw [whole, Int.floor_intCast] at floor
    exact (isDouble_natCast n).mpr ⟨m, j, short, by exact_mod_cast floor.symm⟩
  · refine (isDouble_natCast n).mpr ⟨n, 0, ?_, by rw [pow_zero, mul_one]⟩
    have below : (n : ℚ) ≤ m := by
      have cut : ((n : ℤ) : ℚ) ≤ m * 2 ^ (-j : ℤ) := floor ▸ Int.floor_le _
      have one : (2 : ℚ) ^ (-j : ℤ) ≤ 1 := by
        rw [zpow_neg, zpow_natCast]
        exact inv_le_one_of_one_le₀ (one_le_pow₀ (by norm_num))
      calc (n : ℚ) ≤ m * 2 ^ (-j : ℤ) := by exact_mod_cast cut
        _ ≤ m * 1 := mul_le_mul_of_nonneg_left one (Nat.cast_nonneg m)
        _ = m := mul_one _
    exact lt_of_le_of_lt (by exact_mod_cast below) short

/-- A multiple of a power of two that has no more than 53 digits in front of it. -/
theorem isDouble_of_dvd {n k : ℕ} (divides : 2 ^ k ∣ n) (small : n < 2 ^ (53 + k)) : IsDouble n := by
  obtain ⟨m, rfl⟩ := divides
  refine (isDouble_natCast _).mpr ⟨m, k, ?_, mul_comm _ _⟩
  rw [pow_add, mul_comm] at small
  exact Nat.lt_of_mul_lt_mul_right small

end Binary64
