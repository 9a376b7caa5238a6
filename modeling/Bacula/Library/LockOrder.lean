import Mathlib

/-!
# Lock orders

Threads that hold locks and wait for locks. A set of threads is deadlocked when each waits for a lock
that another of the set holds. The wait for the highest lock of such a set, by any rank of the locks,
shows which thread does not take its locks in the order of the rank.
-/
namespace LockOrder

variable {τ μ : Type}

/-- `t` waits for a lock that another thread of the set holds. -/
structure Blocked (waits holds : τ → μ → Prop) (D : Set τ) (t : τ) (m : μ) (u : τ) : Prop where
  waits : waits t m
  inside : u ∈ D
  other : u ≠ t
  holds : holds u m

def DeadlockedSet (waits holds : τ → μ → Prop) (D : Set τ) : Prop :=
  D.Nonempty ∧ ∀ t ∈ D, ∃ m u, Blocked waits holds D t m u

def Deadlock (waits holds : τ → μ → Prop) : Prop := ∃ D, DeadlockedSet waits holds D

variable {waits holds : τ → μ → Prop} {D : Set τ} {rank : μ → ℕ} {bound : ℕ}

/-- A thread of the set is blocked as high as any. -/
theorem DeadlockedSet.exists_highest (dead : DeadlockedSet waits holds D)
    (bounded : ∀ m, rank m ≤ bound) :
    ∃ t m u, Blocked waits holds D t m u ∧
      ∀ t' ∈ D, ∀ m' u', Blocked waits holds D t' m' u' → rank m' ≤ rank m := by
  obtain ⟨⟨t, inside⟩, each⟩ := dead
  by_contra none
  push Not at none
  -- there would be waits of any rank
  have higher : ∀ n, ∃ t m u, Blocked waits holds D t m u ∧ n ≤ rank m := by
    intro n
    induction n with
    | zero =>
        obtain ⟨m, u, blocked⟩ := each t inside
        exact ⟨t, m, u, blocked, Nat.zero_le _⟩
    | succ n ih =>
        obtain ⟨t, m, u, blocked, high⟩ := ih
        obtain ⟨t', -, m', u', blocked', higher⟩ := none t m u blocked
        exact ⟨t', m', u', blocked', lt_of_le_of_lt high higher⟩
  obtain ⟨t', m', u', -, high⟩ := higher (bound + 1)
  exact absurd (bounded m') (Nat.not_le.mpr high)

end LockOrder
