import Mathlib

/-!
# A consumer that takes one item at a time

Items become available in rounds: after the i-th round `a` of them have arrived in all. In each
round the consumer takes one item if there is one that it has not taken. What it has taken in the
end falls short of `n` exactly when after some round the items available, with one more for each
round that is left, do not reach `n`.
-/
namespace Backlog

/-- What is taken after the rounds, having taken `taken` before. -/
def served (taken : ℕ) (arrived : List ℕ) : ℕ := arrived.foldl (fun k a => min (k + 1) a) taken

@[simp] theorem served_nil (taken : ℕ) : served taken [] = taken := rfl

@[simp] theorem served_cons (taken a : ℕ) (arrived : List ℕ) :
    served taken (a :: arrived) = served (min (taken + 1) a) arrived := rfl

/-- After every round the items available and the rounds left suffice for `n`. -/
def KeepsPace (n : ℕ) : List ℕ → Prop
  | [] => True
  | a :: rest => n ≤ a + rest.length ∧ KeepsPace n rest

instance decKeepsPace (n : ℕ) : (arrived : List ℕ) → Decidable (KeepsPace n arrived)
  | [] => inferInstanceAs (Decidable True)
  | _ :: rest =>
      have := decKeepsPace n rest
      inferInstanceAs (Decidable (_ ∧ _))

/-- What is taken reaches `n` exactly when the arrivals keep pace. -/
theorem le_served_iff (n taken : ℕ) (arrived : List ℕ) :
    n ≤ served taken arrived ↔ KeepsPace n (taken :: arrived) := by
  induction arrived generalizing taken with
  | nil => simp [KeepsPace]
  | cons a rest ih =>
      rw [served_cons, ih]
      simp only [KeepsPace, List.length_cons]
      rcases le_total (taken + 1) a with few | enough
      · rw [min_eq_left few]
        constructor
        · rintro ⟨here, later⟩
          exact ⟨by omega, by omega, later⟩
        · rintro ⟨here, -, later⟩
          exact ⟨by omega, later⟩
      · rw [min_eq_right enough]
        constructor
        · rintro ⟨here, later⟩
          exact ⟨by omega, here, later⟩
        · rintro ⟨-, here, later⟩
          exact ⟨here, later⟩

end Backlog
