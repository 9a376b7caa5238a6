import Mathlib

/-!
# Loops over an iterator

An iterator is a step on a state that returns an item, or nothing at the end. A loop takes
items until the end is returned.
-/
namespace Iterator

variable {σ α : Type}

/-- The items that a loop sees from a result on, and the state that it leaves. -/
inductive Drains (next : σ → Option α × σ) : Option α × σ → List α → σ → Prop where
  | null (s : σ) : Drains next (none, s) [] s
  | item {a : α} {s t : σ} {rest : List α} :
      Drains next (next s) rest t → Drains next (some a, s) (a :: rest) t

/-- The loop with a bound on its rounds. -/
def drain (next : σ → Option α × σ) : ℕ → Option α × σ → Option (List α × σ)
  | _, (none, s) => some ([], s)
  | 0, (some _, _) => none
  | n + 1, (some a, s) => (drain next n (next s)).map fun (rest, t) => (a :: rest, t)

theorem drains_iff {next : σ → Option α × σ} {r : Option α × σ} {items : List α} {t : σ} :
    Drains next r items t ↔ ∃ n, drain next n r = some (items, t) := by
  constructor
  · intro drains
    induction drains with
    | null s => exact ⟨0, rfl⟩
    | item rest ih =>
        obtain ⟨n, run⟩ := ih
        exact ⟨n + 1, by rw [drain, run]; rfl⟩
  · rintro ⟨n, run⟩
    induction n generalizing r items with
    | zero =>
        obtain ⟨_ | a, s⟩ := r
        · cases run
          exact .null _
        · cases run
    | succ n ih =>
        obtain ⟨_ | a, s⟩ := r
        · cases run
          exact .null _
        · rw [drain, Option.map_eq_some_iff] at run
          obtain ⟨⟨rest, u⟩, shorter, same⟩ := run
          cases same
          exact .item (ih shorter)

/-- The bound suffices when it is not smaller than the number of items. -/
theorem Drains.run {next : σ → Option α × σ} {r : Option α × σ} {items : List α} {t : σ}
    (drains : Drains next r items t) {rounds : ℕ} (enough : items.length ≤ rounds) :
    drain next rounds r = some (items, t) := by
  induction drains generalizing rounds with
  | null s => cases rounds <;> rfl
  | item rest ih =>
      cases rounds with
      | zero => cases enough
      | succ n =>
          rw [drain, ih (Nat.le_of_succ_le_succ enough)]
          rfl

/-- A loop sees one sequence of items. -/
theorem Drains.unique {next : σ → Option α × σ} {r : Option α × σ} {items others : List α}
    {t u : σ} (first : Drains next r items t) (second : Drains next r others u) :
    items = others ∧ t = u := by
  induction first generalizing others with
  | null s =>
      cases second
      exact ⟨rfl, rfl⟩
  | item rest ih =>
      cases second with
      | item rest' =>
          obtain ⟨same, final⟩ := ih rest'
          exact ⟨by rw [same], final⟩

end Iterator
