import Mathlib

/-!
# Ledgers

Counters of shared resources that are kept by increments and decrements, and what a list of
parties holds of them. The accounting law is that the counters are the total of the holdings.
-/
namespace Ledger

variable {τ ρ : Type}

section Counters

variable [DecidableEq ρ]

/-- A counter is changed. -/
def inc (c : ρ → ℤ) (r : ρ) (v : ℤ) : ρ → ℤ := Function.update c r (c r + v)

/-- One unit of a resource. -/
def unit (r : ρ) : ρ → ℤ := Pi.single r 1

@[simp] theorem inc_self (c : ρ → ℤ) (r : ρ) (v : ℤ) : inc c r v r = c r + v :=
  Function.update_self ..

theorem inc_of_ne {r r' : ρ} (other : r' ≠ r) (c : ρ → ℤ) (v : ℤ) : inc c r v r' = c r' :=
  Function.update_of_ne other ..

theorem inc_apply (c : ρ → ℤ) (r r' : ρ) (v : ℤ) :
    inc c r v r' = c r' + if r' = r then v else 0 := by
  by_cases same : r' = r
  · rw [same, inc_self, if_pos rfl]
  · rw [inc_of_ne same, if_neg same, add_zero]

theorem unit_apply (r r' : ρ) : unit r r' = if r' = r then 1 else 0 := Pi.single_apply r 1 r'

theorem unit_nonneg (r r' : ρ) : 0 ≤ unit r r' := by
  rw [unit_apply]
  split <;> decide

theorem inc_one (c : ρ → ℤ) (r : ρ) : inc c r 1 = c + unit r := by
  funext r'
  rw [inc_apply, Pi.add_apply, unit_apply]

theorem inc_neg_one (c : ρ → ℤ) (r : ρ) : inc c r (-1) = c - unit r := by
  funext r'
  rw [inc_apply, Pi.sub_apply, unit_apply]
  split <;> omega

end Counters

/-- What a list of parties holds together. -/
def total (holds : τ → ρ → ℤ) (parties : List τ) : ρ → ℤ := (parties.map holds).sum

variable {holds : τ → ρ → ℤ}

@[simp] theorem total_nil : total holds [] = 0 := rfl

theorem total_cons (party : τ) (parties : List τ) :
    total holds (party :: parties) = holds party + total holds parties := by
  rw [total, List.map_cons, List.sum_cons, total]

theorem total_append (first second : List τ) :
    total holds (first ++ second) = total holds first + total holds second := by
  rw [total, List.map_append, List.sum_append, total, total]

/-- One party has changed. -/
theorem total_set {parties : List τ} {i : ℕ} {old : τ} (here : parties[i]? = some old) (new : τ) :
    total holds (parties.set i new) = total holds parties - holds old + holds new := by
  induction parties generalizing i with
  | nil => cases here
  | cons party rest ih =>
      cases i with
      | zero =>
          obtain rfl : party = old := Option.some_inj.mp here
          rw [List.set_cons_zero, total_cons, total_cons]
          abel
      | succ i =>
          rw [List.set_cons_succ, total_cons, total_cons, ih here]
          abel

/-- Holdings of one unit are counted by the parties that have them. -/
theorem total_eq_countP {p : τ → Bool} {r : ρ}
    (one : ∀ party, holds party r = if p party then 1 else 0) (parties : List τ) :
    total holds parties r = parties.countP p := by
  induction parties with
  | nil => rfl
  | cons party rest ih =>
      rw [total_cons, Pi.add_apply, ih, one, List.countP_cons]
      split <;> push_cast <;> omega

theorem total_nonneg {r : ρ} (nonneg : ∀ party, 0 ≤ holds party r) (parties : List τ) :
    0 ≤ total holds parties r := by
  induction parties with
  | nil => exact le_refl _
  | cons party rest ih =>
      rw [total_cons, Pi.add_apply]
      exact add_nonneg (nonneg party) ih

end Ledger
