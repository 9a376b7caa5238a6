import Mathlib

/-!
# Runs of a transition relation

A run is a list of actions that were taken one after the other. An invariant of single
steps holds in the last state of every run, and so in every state of it, because the
beginning of a run is a run.
-/
namespace Transition

variable {σ α : Type}

/-- The actions lead from the first state to the last. -/
inductive Run (step : σ → α → σ → Prop) : σ → List α → σ → Prop where
  | nil (s : σ) : Run step s [] s
  | cons {s s' t : σ} {a : α} {acts : List α} :
      step s a s' → Run step s' acts t → Run step s (a :: acts) t

/-- The steps that are taken only in states that meet a condition. -/
def Guarded (step : σ → α → σ → Prop) (condition : σ → α → Prop) (s : σ) (a : α) (s' : σ) : Prop :=
  condition s a ∧ step s a s'

variable {step : σ → α → σ → Prop}

theorem Run.invariant {inv : σ → Prop} (preserved : ∀ s a s', inv s → step s a s' → inv s')
    {s t : σ} {acts : List α} (run : Run step s acts t) (start : inv s) : inv t := by
  induction run with
  | nil s => exact start
  | cons first rest ih => exact ih (preserved _ _ _ start first)

theorem Run.append {s t u : σ} {acts more : List α} (run : Run step s acts t)
    (next : Run step t more u) : Run step s (acts ++ more) u := by
  induction run with
  | nil s => exact next
  | cons first rest ih => exact .cons first (ih next)

end Transition
