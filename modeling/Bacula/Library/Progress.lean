import Bacula.Library.Transition

/-!
# Progress of one party

The steps of a run belong to several parties. A goal is reached when each step of one of them comes
closer to it and no step of the others moves away from it.
-/
namespace Transition

variable {σ α : Type} {step : σ → α → σ → Prop} {s t : σ} {acts : List α}

/-- A condition on the actions of a run holds in each of its steps. -/
theorem Run.guard {allowed : α → Prop} (run : Run step s acts t) (all : ∀ a ∈ acts, allowed a) :
    Run (Guarded step fun _ a => allowed a) s acts t := by
  induction run with
  | nil s => exact .nil s
  | cons first rest ih =>
      rw [List.forall_mem_cons] at all
      exact .cons ⟨all.1, first⟩ (ih all.2)

/-- In a state that is `live n`, the party is no more than `n` of its own steps from the goal. -/
theorem Run.reaches {goal : σ → Prop} {live : ℕ → σ → Prop} {own : α → Bool}
    (positive : ∀ s, ¬ live 0 s)
    (closer : ∀ n s a s', live (n + 1) s → own a → step s a s' → goal s' ∨ live n s')
    (others : ∀ n s a s', live n s → ¬ own a → step s a s' → live n s')
    (kept : ∀ s a s', goal s → step s a s' → goal s')
    {n : ℕ} (run : Run step s acts t) (start : live n s) (enough : n ≤ acts.countP own) : goal t := by
  induction run generalizing n with
  | nil s =>
      obtain rfl : n = 0 := Nat.le_zero.mp enough
      exact absurd start (positive s)
  | @cons s s' t a acts first rest ih =>
      by_cases mine : own a
      · rw [List.countP_cons_of_pos mine] at enough
        cases n with
        | zero => exact absurd start (positive s)
        | succ n =>
            rcases closer n s a s' start mine first with reached | nearer
            · exact rest.invariant kept reached
            · exact ih nearer (Nat.le_of_succ_le_succ enough)
      · rw [List.countP_cons_of_neg mine] at enough
        exact ih (others n s a s' start mine first) enough

/-- The steps that bring a measure down are no more than the measure at the beginning. -/
theorem Run.bounded {inv : σ → Prop} {measure : σ → ℕ} {own : α → Bool}
    (less : ∀ s a s', inv s → step s a s' → inv s' ∧ measure s' + (if own a then 1 else 0) ≤ measure s)
    (run : Run step s acts t) (start : inv s) : inv t ∧ measure t + acts.countP own ≤ measure s := by
  induction run with
  | nil s => exact ⟨start, le_refl _⟩
  | @cons s s' t a acts first rest ih =>
      obtain ⟨next, lower⟩ := less s a s' start first
      obtain ⟨last, bound⟩ := ih next
      refine ⟨last, ?_⟩
      rw [List.countP_cons]
      omega

end Transition
