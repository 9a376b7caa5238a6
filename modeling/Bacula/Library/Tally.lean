import Mathlib

/-!
# Tallies

A counter that many parties share, and the quantity of each party that it should be the sum of. A
step of one party changes the sum by the change of its own quantity.
-/
namespace Tally

variable {τ α : Type} [Fintype τ]

/-- The sum of a quantity over all parties. -/
def total (f : α → ℤ) (parties : τ → α) : ℤ := ∑ t, f (parties t)

theorem total_update [DecidableEq τ] (f : α → ℤ) (parties : τ → α) (t : τ) (new : α) :
    total f (Function.update parties t new) = total f parties + (f new - f (parties t)) := by
  have others : ∀ x, f (Function.update parties t new x) = Function.update (f ∘ parties) t (f new) x :=
    fun x => congrFun (Function.comp_update f parties t new) x
  rw [total, Finset.sum_congr rfl fun x _ => others x, Finset.sum_update_of_mem (Finset.mem_univ t),
    total, ← Finset.add_sum_erase _ (fun x => f (parties x)) (Finset.mem_univ t),
    Finset.sdiff_singleton_eq_erase]
  simp only [Function.comp_apply]
  ring

/-- A change that leaves the quantity of every party. -/
theorem total_map (f : α → ℤ) (parties : τ → α) {change : α → α} (keeps : ∀ a, f (change a) = f a) :
    total f (fun t => change (parties t)) = total f parties :=
  Finset.sum_congr rfl fun t _ => keeps (parties t)

variable {f : α → ℤ} {parties : τ → α}

theorem total_nonneg (nonneg : ∀ a, 0 ≤ f a) : 0 ≤ total f parties :=
  Finset.sum_nonneg fun t _ => nonneg (parties t)

theorem le_total (nonneg : ∀ a, 0 ≤ f a) (parties : τ → α) (t : τ) : f (parties t) ≤ total f parties :=
  Finset.single_le_sum (fun x _ => nonneg (parties x)) (Finset.mem_univ t)

/-- The sum vanishes when nobody has anything. -/
theorem total_eq_zero_iff (nonneg : ∀ a, 0 ≤ f a) : total f parties = 0 ↔ ∀ t, f (parties t) = 0 := by
  rw [total, Finset.sum_eq_zero_iff_of_nonneg fun t _ => nonneg (parties t)]
  exact ⟨fun none t => none t (Finset.mem_univ t), fun none t _ => none t⟩

/-- Somebody has something when the sum is positive. -/
theorem exists_of_total_pos (nonneg : ∀ a, 0 ≤ f a) {parties : τ → α} (pos : 0 < total f parties) :
    ∃ t, 0 < f (parties t) := by
  by_contra none
  rw [not_exists] at none
  have zero := (total_eq_zero_iff nonneg).mpr fun t => le_antisymm (not_lt.mp (none t)) (nonneg _)
  omega

end Tally
