import Mathlib

/-!
# Budgets that are refilled at a rate

A budget pays for what is let through and is refilled as time passes. What is paid over a whole
sequence is bounded by the change of the budget and the time between its ticks.
-/
namespace TokenBucket

variable {K : Type} [Field K] [LinearOrder K]

/-- A signed budget, and the time up to which it is refilled. -/
structure Bucket (K : Type) where
  budget : K
  tick : K

/-- An amount is paid, and no more is added than the rate allows. -/
structure Pays (rate : K) (s : Bucket K) (amount : K) (s' : Bucket K) : Prop where
  later : s.tick ≤ s'.tick
  paid : s'.budget ≤ s.budget - amount + rate * (s'.tick - s.tick)

/-- Amounts that are paid one after the other. -/
inductive Payments (rate : K) : Bucket K → List K → Bucket K → Prop where
  | nil (s : Bucket K) : Payments rate s [] s
  | cons {s s' t : Bucket K} {amount : K} {amounts : List K} :
      Pays rate s amount s' → Payments rate s' amounts t → Payments rate s (amount :: amounts) t

variable {rate : K} {s t : Bucket K} {amounts : List K}

theorem Payments.total_le [IsStrictOrderedRing K] (payments : Payments rate s amounts t) :
    amounts.sum ≤ s.budget - t.budget + rate * (t.tick - s.tick) := by
  induction payments with
  | nil s => simp
  | cons first rest ih =>
      have paid := first.paid
      rw [List.sum_cons]
      linarith

end TokenBucket
