import Mathlib

/-!
# Singly linked chains

A list of nodes that are linked by a `next` field, from a head pointer to the null pointer.
-/
namespace Chain

variable {ι : Type}

/-- The nodes behind the pointer, in the order of the links. -/
def Chained (next : ι → Option ι) : Option ι → List ι → Prop
  | head, [] => head = none
  | head, x :: xs => head = some x ∧ Chained next (next x) xs

variable {next next' : ι → Option ι} {start : Option ι} {xs : List ι}

theorem Chained.head (chained : Chained next start xs) : start = xs.head? := by
  cases xs with
  | nil => exact chained
  | cons x xs => exact chained.1

theorem Chained.congr (chained : Chained next start xs) (same : ∀ x ∈ xs, next' x = next x) :
    Chained next' start xs := by
  induction xs generalizing start with
  | nil => exact chained
  | cons x xs ih =>
      obtain ⟨first, rest⟩ := chained
      refine ⟨first, ?_⟩
      rw [same x List.mem_cons_self]
      exact ih rest fun y inside => same y (List.mem_cons_of_mem x inside)

variable [DecidableEq ι]

theorem Chained.update (chained : Chained next start xs) {x : ι} (outside : x ∉ xs) (link : Option ι) :
    Chained (Function.update next x link) start xs :=
  chained.congr fun _ inside => Function.update_of_ne (ne_of_mem_of_not_mem inside outside) ..

/-- A new first node. -/
theorem Chained.push (chained : Chained next start xs) {x : ι} (outside : x ∉ xs) :
    Chained (Function.update next x start) (some x) (x :: xs) := by
  refine ⟨rfl, ?_⟩
  rw [Function.update_self]
  exact chained.update outside start

/-- A new last node. -/
theorem Chained.snoc (chained : Chained next start xs) (nodup : xs.Nodup) {x last : ι}
    (outside : x ∉ xs) (isLast : xs.getLast? = some last) (free : next x = none) :
    Chained (Function.update next last (some x)) start (xs ++ [x]) := by
  induction xs generalizing start with
  | nil => cases isLast
  | cons y ys ih =>
      obtain ⟨first, rest⟩ := chained
      rw [List.nodup_cons] at nodup
      rw [List.mem_cons, not_or] at outside
      refine ⟨first, ?_⟩
      cases ys with
      | nil =>
          obtain rfl : y = last := Option.some_inj.mp isLast
          rw [Function.update_self]
          refine ⟨rfl, ?_⟩
          rw [Function.update_of_ne outside.1]
          exact free
      | cons z zs =>
          have inside : last ∈ z :: zs := List.mem_of_getLast? isLast
          rw [Function.update_of_ne (ne_of_mem_of_not_mem inside nodup.1).symm]
          exact ih rest nodup.2 outside.2 isLast

/-- A node behind another is taken out. -/
theorem Chained.unlink {before after : List ι} {prev x : ι}
    (chained : Chained next start (before ++ prev :: x :: after))
    (nodup : (before ++ prev :: x :: after).Nodup) :
    Chained (Function.update next prev (next x)) start (before ++ prev :: after) := by
  induction before generalizing start with
  | nil =>
      obtain ⟨first, -, rest⟩ := chained
      rw [List.nil_append, List.nodup_cons, List.mem_cons, not_or] at nodup
      refine ⟨first, ?_⟩
      rw [Function.update_self]
      exact rest.update nodup.1.2 _
  | cons y before ih =>
      obtain ⟨first, rest⟩ := chained
      rw [List.cons_append, List.nodup_cons] at nodup
      refine ⟨first, ?_⟩
      rw [Function.update_of_ne fun same => nodup.1 (by simp [same])]
      exact ih rest nodup.2

/-- A search along the links for a node, with the node before the one where the search is. -/
def search (next : ι → Option ι) (x : ι) : (steps : ℕ) → (prev item : Option ι) → Option (Option ι)
  | 0, _, _ => none
  | steps+1, prev, item =>
      match item with
      | none => none
      | some y => if y = x then some prev else search next x steps (some y) (next y)

/-- The search finds the node behind the last of the nodes before it. -/
theorem search_some {before after : List ι} {x : ι} {steps : ℕ} {prev : Option ι}
    (chained : Chained next start (before ++ x :: after)) (first : x ∉ before)
    (enough : before.length < steps) :
    search next x steps prev start = some (before.getLast?.or prev) := by
  induction before generalizing start prev steps with
  | nil =>
      obtain ⟨here, -⟩ := chained
      obtain ⟨steps, rfl⟩ : ∃ n, steps = n + 1 := ⟨steps - 1, by omega⟩
      rw [here, search]
      exact if_pos rfl
  | cons y before ih =>
      obtain ⟨here, rest⟩ := chained
      rw [List.mem_cons, not_or] at first
      rw [List.length_cons] at enough
      obtain ⟨steps, rfl⟩ : ∃ n, steps = n + 1 := ⟨steps - 1, by omega⟩
      rw [here, search]
      rw [if_neg (Ne.symm first.1), ih rest first.2 (by omega)]
      cases before with
      | nil => rfl
      | cons z before => simp [List.getLast?_cons]

end Chain
