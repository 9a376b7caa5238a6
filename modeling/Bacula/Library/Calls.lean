import Mathlib

/-!
# Sequences of calls

A component answers calls, and a specification says what it should answer. The component follows
the specification when a relation between the two states survives every call. A call to the
component may fail, and the specification always answers.
-/
namespace Calls

variable {σ τ α β : Type}

/-- The answers to a sequence of calls. -/
def run (call : σ → α → Option (β × σ)) : σ → List α → Option (List β × σ)
  | s, [] => some ([], s)
  | s, a :: calls => (call s a).bind fun done =>
      (run call done.2 calls).map fun rest => (done.1 :: rest.1, rest.2)

/-- The answers that the specification gives. -/
def spec (answer : τ → α → β × τ) : τ → List α → List β × τ
  | m, [] => ([], m)
  | m, a :: calls =>
      let (b, m) := answer m a
      let (answers, m) := spec answer m calls
      (b :: answers, m)

variable {call : σ → α → Option (β × σ)} {answer : τ → α → β × τ}

/-- What holds of the last state of the specification, and of no state without holding of those
before it, holds at the start. -/
theorem spec_back {ok : τ → Prop} (back : ∀ m a, ok (answer m a).2 → ok m) {m : τ} {calls : List α}
    (last : ok (spec answer m calls).2) : ok m := by
  induction calls generalizing m with
  | nil => exact last
  | cons a calls ih => exact back m a (ih last)

/-- The component answers what the specification says, in every state that is still allowed. -/
theorem run_eq_spec {related : σ → τ → Prop} {ok : τ → Prop}
    (back : ∀ m a, ok (answer m a).2 → ok m)
    (step : ∀ s m a, related s m → ok (answer m a).2 →
      ∃ s', call s a = some ((answer m a).1, s') ∧ related s' (answer m a).2)
    {s : σ} {m : τ} {calls : List α} (start : related s m) (last : ok (spec answer m calls).2) :
    ∃ s', run call s calls = some ((spec answer m calls).1, s') ∧
      related s' (spec answer m calls).2 := by
  induction calls generalizing s m with
  | nil => exact ⟨s, rfl, start⟩
  | cons a calls ih =>
      obtain ⟨s', called, related'⟩ := step s m a start (spec_back back last)
      obtain ⟨s'', rest, final⟩ := ih related' last
      refine ⟨s'', ?_, final⟩
      rw [run, called, Option.bind_some, rest]
      rfl

/-- Every call of a sequence that is answered has a property. -/
def Along (call : σ → α → Option (β × σ)) (p : σ → α → β → σ → Prop) : σ → List α → Prop
  | _, [] => True
  | s, a :: calls => ∀ b s', call s a = some (b, s') → p s a b s' ∧ Along call p s' calls

variable {p q : σ → α → β → σ → Prop}

/-- Two properties that agree on a call hold along the same sequences, if the first of them keeps
the states in which they agree. -/
theorem along_iff {inv : σ → Prop}
    (agree : ∀ s a b s', inv s → call s a = some (b, s') → (p s a b s' ↔ q s a b s'))
    (kept : ∀ s a b s', inv s → call s a = some (b, s') → p s a b s' → inv s')
    {s : σ} (start : inv s) (calls : List α) : Along call p s calls ↔ Along call q s calls := by
  induction calls generalizing s with
  | nil => rfl
  | cons a calls ih =>
      constructor
      · intro along b s' answered
        obtain ⟨first, rest⟩ := along b s' answered
        exact ⟨(agree s a b s' start answered).mp first,
          (ih (kept s a b s' start answered first)).mp rest⟩
      · intro along b s' answered
        obtain ⟨first, rest⟩ := along b s' answered
        have here := (agree s a b s' start answered).mpr first
        exact ⟨here, (ih (kept s a b s' start answered here)).mpr rest⟩

end Calls
