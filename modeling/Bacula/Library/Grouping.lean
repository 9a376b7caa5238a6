import Mathlib

/-!
# Numbering groups

Lists in which equal entries stand together, and numberings that give the next number whenever
an entry is taken to begin a group. Such a numbering tells the entries apart exactly when the
list is grouped.
-/
namespace Grouping

variable {α : Type}

/-- There is nothing else between two equal entries. -/
def Grouped (l : List α) : Prop :=
  ∀ before x between after, l = before ++ x :: (between ++ x :: after) → ∀ y ∈ between, y = x

theorem Grouped.nil : Grouped ([] : List α) := by
  intro before x between after parts
  exact absurd parts.symm (List.append_ne_nil_of_right_ne_nil _ (List.cons_ne_nil _ _))

theorem Grouped.of_append {l suffix : List α} (grouped : Grouped (l ++ suffix)) : Grouped l := by
  rintro before x between after rfl
  refine grouped before x between (after ++ suffix) ?_
  simp only [List.append_assoc, List.cons_append]

/-- An entry that occurs before stands at the end of a grouped list. -/
theorem Grouped.last {l : List α} {x : α} (grouped : Grouped (l ++ [x])) (member : x ∈ l) :
    l.getLast? = some x := by
  obtain ⟨before, between, rfl⟩ := List.append_of_mem member
  have same := grouped before x between [] (by simp only [List.append_assoc, List.cons_append])
  rw [List.getLast?_append_of_ne_nil _ (List.cons_ne_nil _ _), List.getLast?_cons,
    Option.some_inj]
  cases at_ : between.getLast? with
  | none => rfl
  | some y => exact same y (List.mem_of_getLast? at_)

theorem Grouped.snoc {l : List α} {x : α} (grouped : Grouped l)
    (fits : x ∉ l ∨ l.getLast? = some x) : Grouped (l ++ [x]) := by
  intro before y between after parts
  -- the second of the two entries is the new one, or the list was not grouped
  rcases List.eq_nil_or_concat after with rfl | ⟨after', z, rfl⟩
  · have parts' : l ++ [x] = (before ++ y :: between) ++ [y] := by
      rw [parts, List.append_assoc, List.cons_append]
    obtain ⟨rfl, same⟩ := List.append_inj' parts' rfl
    obtain rfl := List.singleton_inj.mp same
    have member : x ∈ before ++ x :: between := List.mem_append_right _ List.mem_cons_self
    have last := fits.resolve_left (fun fresh => fresh member)
    rcases List.eq_nil_or_concat between with rfl | ⟨between', z, rfl⟩
    · exact fun w none => absurd none List.not_mem_nil
    · have z_last : (before ++ x :: (between' ++ [z])).getLast? = some z := by
        rw [← List.cons_append, ← List.append_assoc, List.getLast?_concat]
      rw [List.concat_eq_append] at last grouped ⊢
      obtain rfl : x = z := Option.some_inj.mp (last.symm.trans z_last)
      have inner := grouped before x between' [] rfl
      intro w member
      rcases List.mem_append.mp member with here | here
      · exact inner w here
      · exact List.mem_singleton.mp here
  · have parts' : l ++ [x] = (before ++ y :: (between ++ y :: after')) ++ [z] := by
      rw [parts, List.concat_eq_append]
      simp only [List.append_assoc, List.cons_append]
    obtain ⟨rfl, -⟩ := List.append_inj' parts' rfl
    exact grouped before y between after' rfl

theorem grouped_snoc_iff {l : List α} {x : α} :
    Grouped (l ++ [x]) ↔ Grouped l ∧ (x ∉ l ∨ l.getLast? = some x) := by
  constructor
  · intro grouped
    refine ⟨grouped.of_append, ?_⟩
    by_cases member : x ∈ l
    · exact .inr (grouped.last member)
    · exact .inl member
  · intro ⟨grouped, fits⟩
    exact grouped.snoc fits

/-- Every entry has the number that was reached at it. An entry that keeps the number has occurred
before, and one that gets the next number is not the entry just before it. -/
inductive Numbering : List (α × ℕ) → ℕ → Prop
  | nil : Numbering [] 0
  | same {l : List (α × ℕ)} {n : ℕ} {x : α} :
      Numbering l n → x ∈ l.map Prod.fst → Numbering (l ++ [(x, n)]) n
  | next {l : List (α × ℕ)} {n : ℕ} {x : α} :
      Numbering l n → (l.map Prod.fst).getLast? ≠ some x → Numbering (l ++ [(x, n + 1)]) (n + 1)

/-- Entries have the same number exactly when they are equal. -/
def Faithful {β : Type} (l : List (α × β)) : Prop :=
  ∀ e ∈ l, ∀ e' ∈ l, e.2 = e'.2 ↔ e.1 = e'.1

theorem Faithful.of_append {β : Type} {l suffix : List (α × β)} (faithful : Faithful (l ++ suffix)) :
    Faithful l :=
  fun e member e' member' =>
    faithful e (List.mem_append_left _ member) e' (List.mem_append_left _ member')

/-- One more entry, compared with the ones before it. -/
theorem Faithful.snoc {β : Type} {l : List (α × β)} {x : α} {b : β} (faithful : Faithful l)
    (new : ∀ e ∈ l, e.2 = b ↔ e.1 = x) : Faithful (l ++ [(x, b)]) := by
  intro e member e' member'
  rcases List.mem_append.mp member with old | here
  · rcases List.mem_append.mp member' with old' | here'
    · exact faithful e old e' old'
    · rw [List.mem_singleton.mp here']
      exact new e old
  · rw [List.mem_singleton.mp here]
    rcases List.mem_append.mp member' with old' | here'
    · rw [eq_comm, new e' old', eq_comm]
    · rw [List.mem_singleton.mp here']
      exact iff_of_true rfl rfl

/-- Numbers may be written in another way, as long as that tells them apart. -/
theorem faithful_map_iff {β γ : Type} {l : List (α × β)} {f : β → γ}
    (apart : ∀ e ∈ l, ∀ e' ∈ l, f e.2 = f e'.2 ↔ e.2 = e'.2) :
    Faithful (l.map (Prod.map id f)) ↔ Faithful l := by
  constructor
  · intro faithful e member e' member'
    rw [← apart e member e' member']
    exact faithful _ (List.mem_map_of_mem member) _ (List.mem_map_of_mem member')
  · intro faithful e member e' member'
    obtain ⟨d, at_, rfl⟩ := List.mem_map.mp member
    obtain ⟨d', at', rfl⟩ := List.mem_map.mp member'
    exact (apart d at_ d' at').trans (faithful d at_ d' at')

namespace Numbering

variable {l : List (α × ℕ)} {n : ℕ}

/-- The numbers in use are those from one on. -/
theorem used (numbering : Numbering l n) (k : ℕ) : (∃ e ∈ l, e.2 = k) ↔ 1 ≤ k ∧ k ≤ n := by
  induction numbering generalizing k with
  | nil =>
      constructor
      · rintro ⟨e, none, -⟩
        exact absurd none List.not_mem_nil
      · omega
  | @same l n x numbering member ih =>
      rw [← ih k]
      constructor
      · rintro ⟨e, at_, rfl⟩
        rcases List.mem_append.mp at_ with old | here
        · exact ⟨e, old, rfl⟩
        · obtain ⟨e', old, -⟩ := List.mem_map.mp member
          rw [List.mem_singleton.mp here]
          have bounds := (ih _).mp ⟨e', old, rfl⟩
          exact (ih _).mpr ⟨bounds.1.trans bounds.2, le_refl n⟩
      · rintro ⟨e, old, rfl⟩
        exact ⟨e, List.mem_append_left _ old, rfl⟩
  | @next l n x numbering other ih =>
      constructor
      · rintro ⟨e, at_, rfl⟩
        rcases List.mem_append.mp at_ with old | here
        · have bounds := (ih _).mp ⟨e, old, rfl⟩
          omega
        · rw [List.mem_singleton.mp here]
          omega
      · intro ⟨one, bound⟩
        by_cases here : k = n + 1
        · exact ⟨(x, n + 1), List.mem_append_right _ (List.mem_singleton.mpr rfl), here.symm⟩
        · obtain ⟨e, old, rfl⟩ := (ih k).mpr ⟨one, by omega⟩
          exact ⟨e, List.mem_append_left _ old, rfl⟩

theorem bounds (numbering : Numbering l n) {e : α × ℕ} (member : e ∈ l) : 1 ≤ e.2 ∧ e.2 ≤ n :=
  (numbering.used e.2).mp ⟨e, member, rfl⟩

/-- The newest entry has the number that was reached. -/
theorem last (numbering : Numbering l n) {x : α} (last : (l.map Prod.fst).getLast? = some x) :
    (x, n) ∈ l := by
  cases numbering with
  | nil => cases last
  | @same l n y =>
      rw [List.map_append, List.map_singleton, List.getLast?_concat, Option.some_inj] at last
      rw [← last]
      exact List.mem_append_right _ (List.mem_singleton.mpr rfl)
  | @next l n y =>
      rw [List.map_append, List.map_singleton, List.getLast?_concat, Option.some_inj] at last
      rw [← last]
      exact List.mem_append_right _ (List.mem_singleton.mpr rfl)

theorem faithful_iff_grouped (numbering : Numbering l n) :
    Faithful l ↔ Grouped (l.map Prod.fst) := by
  induction numbering with
  | nil => exact ⟨fun _ => .nil, fun _ e member => absurd member List.not_mem_nil⟩
  | @same l n x numbering member ih =>
      rw [List.map_append, List.map_singleton, grouped_snoc_iff, ← ih]
      constructor
      · intro faithful
        refine ⟨faithful.of_append, .inr ?_⟩
        -- the entry before the new one has its number too
        cases at_ : (l.map Prod.fst).getLast? with
        | none =>
            rw [List.getLast?_eq_none_iff] at at_
            rw [at_] at member
            exact absurd member List.not_mem_nil
        | some y =>
            have same := (faithful _ (List.mem_append_left _ (numbering.last at_)) (x, n)
              (List.mem_append_right _ (List.mem_singleton.mpr rfl))).mp rfl
            exact congrArg some same
      · intro ⟨faithful, fits⟩
        have here := numbering.last (fits.resolve_left (fun fresh => fresh member))
        exact faithful.snoc fun e old => faithful e old _ here
  | @next l n x numbering other ih =>
      rw [List.map_append, List.map_singleton, grouped_snoc_iff, ← ih]
      have smaller {e : α × ℕ} (old : e ∈ l) : e.2 ≠ n + 1 := by
        have := numbering.bounds old
        omega
      constructor
      · intro faithful
        refine ⟨faithful.of_append, .inl fun member => ?_⟩
        obtain ⟨e, old, same⟩ := List.mem_map.mp member
        exact smaller old ((faithful e (List.mem_append_left _ old) (x, n + 1)
          (List.mem_append_right _ (List.mem_singleton.mpr rfl))).mpr same)
      · intro ⟨faithful, fits⟩
        have fresh := fits.resolve_right other
        exact faithful.snoc fun e old => iff_of_false (smaller old)
          fun same => fresh (List.mem_map.mpr ⟨e, old, same⟩)

/-- In a grouped list the numbers count the different entries. -/
theorem card [DecidableEq α] (numbering : Numbering l n) (grouped : Grouped (l.map Prod.fst)) :
    (l.map Prod.fst).toFinset.card = n := by
  induction numbering with
  | nil => rfl
  | @same l n x numbering member ih =>
      rw [List.map_append, List.map_singleton] at grouped ⊢
      rw [List.toFinset_append, List.toFinset_cons, List.toFinset_nil, insert_empty_eq,
        Finset.union_singleton, Finset.insert_eq_of_mem (List.mem_toFinset.mpr member)]
      exact ih grouped.of_append
  | @next l n x numbering other ih =>
      rw [List.map_append, List.map_singleton] at grouped ⊢
      have fresh := (grouped_snoc_iff.mp grouped).2.resolve_right other
      rw [List.toFinset_append, List.toFinset_cons, List.toFinset_nil, insert_empty_eq,
        Finset.union_singleton, Finset.card_insert_of_notMem (fun h => fresh (List.mem_toFinset.mp h)),
        ih grouped.of_append]

end Numbering

end Grouping
