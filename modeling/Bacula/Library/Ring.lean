import Mathlib

/-!
# Rings of links

The nodes of a doubly linked list and its header form a ring: the header comes before the first
node and behind the last one. Following a link in one direction and then in the other leads
back.
-/
namespace Ring

variable {N : Type}

/-- The nodes are linked both ways, from the node before them to the one behind them. -/
def Linked (next prev : N → N) : N → List N → N → Prop
  | a, [], b => next a = b ∧ prev b = a
  | a, x :: xs, b => (next a = x ∧ prev x = a) ∧ Linked next prev x xs b

variable {next prev next' prev' : N → N} {a b x : N} {xs ys : List N}

/-- The links of both parts, with the seam counted in both. -/
theorem linked_append : Linked next prev a (xs ++ ys) b ↔
    Linked next prev a xs (ys.headD b) ∧ Linked next prev (xs.getLastD a) ys b := by
  induction xs generalizing a with
  | nil =>
      cases ys with
      | nil => exact ⟨fun seam => ⟨seam, seam⟩, And.left⟩
      | cons y ys => exact ⟨fun linked => ⟨linked.1, linked⟩, And.right⟩
  | cons x xs ih =>
      rw [List.cons_append, Linked, ih, List.getLastD_cons, Linked]
      exact and_assoc.symm

theorem Linked.next_eq (linked : Linked next prev a xs b) : next a = xs.headD b := by
  cases xs with
  | nil => exact linked.1
  | cons x xs => exact linked.1.1

theorem Linked.prev_eq (linked : Linked next prev a xs b) : prev b = xs.getLastD a := by
  induction xs generalizing a with
  | nil => exact linked.2
  | cons x xs ih =>
      rw [List.getLastD_cons]
      exact ih linked.2

/-- The links out of a part may change elsewhere. -/
theorem Linked.congr (linked : Linked next prev a xs b)
    (forward : ∀ y ∈ a :: xs, next' y = next y) (backward : ∀ y ∈ xs ++ [b], prev' y = prev y) :
    Linked next' prev' a xs b := by
  induction xs generalizing a with
  | nil =>
      exact ⟨(forward a List.mem_cons_self).trans linked.1,
        (backward b List.mem_cons_self).trans linked.2⟩
  | cons x xs ih =>
      exact ⟨⟨(forward a List.mem_cons_self).trans linked.1.1,
        (backward x List.mem_cons_self).trans linked.1.2⟩,
        ih linked.2 (fun y member => forward y (List.mem_cons_of_mem _ member))
          fun y member => backward y (List.mem_cons_of_mem _ member)⟩

/-- The last node gets another one behind it. -/
theorem Linked.relast (linked : Linked next prev a xs b)
    (forward : ∀ y ∈ (a :: xs).dropLast, next' y = next y) (backward : ∀ y ∈ xs, prev' y = prev y)
    (seam : next' (xs.getLastD a) = x ∧ prev' x = xs.getLastD a) :
    Linked next' prev' a xs x := by
  induction xs generalizing a with
  | nil => exact seam
  | cons y xs ih =>
      rw [List.dropLast_cons_cons, List.forall_mem_cons] at forward
      rw [List.forall_mem_cons] at backward
      rw [List.getLastD_cons] at seam
      exact ⟨⟨forward.1.trans linked.1.1, backward.1.trans linked.1.2⟩,
        ih linked.2 forward.2 backward.2 seam⟩

/-- The first node gets another one before it. -/
theorem Linked.rehead (linked : Linked next prev a xs b)
    (forward : ∀ y ∈ xs, next' y = next y) (backward : ∀ y ∈ (xs ++ [b]).tail, prev' y = prev y)
    (seam : next' x = xs.headD b ∧ prev' (xs.headD b) = x) : Linked next' prev' x xs b := by
  cases xs with
  | nil => exact seam
  | cons y xs => exact ⟨seam, linked.2.congr forward backward⟩

/-- The nodes in the order of the ring, from the header to the header. -/
theorem Linked.getElem (linked : Linked next prev a xs b) {i : ℕ}
    (inside : i < xs.length + 1) :
    next ((a :: xs).getD i b) = (xs ++ [b]).getD i b ∧
      prev ((xs ++ [b]).getD i b) = (a :: xs).getD i b := by
  induction xs generalizing a i with
  | nil =>
      obtain rfl : i = 0 := by simpa using inside
      exact linked
  | cons x xs ih =>
      cases i with
      | zero => exact linked.1
      | succ i => exact ih linked.2 (Nat.lt_of_succ_lt_succ inside)

section Change

variable {h : N} {pre post : List N}

theorem last_mem (pre : List N) (h : N) : pre.getLastD h ∈ h :: pre := List.getLastD_mem_cons

theorem first_mem (post : List N) (h : N) : post.headD h ∈ h :: post := by
  cases post with
  | nil => exact List.mem_cons_self
  | cons y post => exact List.mem_cons_of_mem _ List.mem_cons_self

variable (distinct : (h :: (pre ++ post)).Nodup)
include distinct

theorem ne_last_of_dropLast {y : N} (member : y ∈ (h :: pre).dropLast) : y ≠ pre.getLastD h := by
  have nodup : (h :: pre).Nodup :=
    distinct.sublist (List.cons_sublist_cons.mpr (List.sublist_append_left pre post))
  have split : (h :: pre).dropLast ++ [pre.getLastD h] = h :: pre := by
    rw [← List.getLast_eq_getLastD (List.cons_ne_nil h pre)]
    exact List.dropLast_append_getLast _
  rw [← split] at nodup
  rintro rfl
  exact (List.nodup_append.mp nodup).2.2 _ member _ (List.mem_singleton_self _) rfl

theorem ne_last_of_mem {y : N} (member : y ∈ post) : y ≠ pre.getLastD h := by
  rintro rfl
  rcases List.mem_cons.mp (last_mem pre h) with same | inside
  · rw [same] at member
    exact (List.nodup_cons.mp distinct).1 (List.mem_append_right _ member)
  · exact (List.nodup_append.mp (List.nodup_cons.mp distinct).2).2.2 _ inside _ member rfl

theorem ne_first_of_mem {y : N} (member : y ∈ pre) : y ≠ post.headD h := by
  rintro rfl
  rcases List.mem_cons.mp (first_mem post h) with same | inside
  · rw [same] at member
    exact (List.nodup_cons.mp distinct).1 (List.mem_append_left _ member)
  · exact (List.nodup_append.mp (List.nodup_cons.mp distinct).2).2.2 _ member _ inside rfl

theorem ne_first_of_tail {y : N} (member : y ∈ (post ++ [h]).tail) : y ≠ post.headD h := by
  have nodup : (h :: post).Nodup :=
    distinct.sublist (List.cons_sublist_cons.mpr (List.sublist_append_right pre post))
  cases post with
  | nil => cases member
  | cons z post =>
      rintro rfl
      rcases List.mem_append.mp member with inside | last
      · exact (List.nodup_cons.mp (List.nodup_cons.mp nodup).2).1 inside
      · rw [List.mem_singleton.mp last] at nodup
        exact (List.nodup_cons.mp nodup).1 List.mem_cons_self

variable [DecidableEq N]

/-- A new node is linked in between two neighbours. -/
theorem Linked.insert (linked : Linked next prev h (pre ++ post) h)
    (fresh : x ∉ h :: (pre ++ post)) :
    Linked
      (Function.update (Function.update next (pre.getLastD h) x) x (post.headD h))
      (Function.update (Function.update prev (post.headD h) x) x (pre.getLastD h))
      h (pre ++ x :: post) h := by
  obtain ⟨before, behind⟩ := linked_append.mp linked
  have apart {y : N} (member : y ∈ h :: pre ∨ y ∈ h :: post) : y ≠ x := by
    rintro rfl
    refine fresh ?_
    rcases member with member | member
    · exact (List.cons_sublist_cons.mpr (List.sublist_append_left pre post)).subset member
    · exact (List.cons_sublist_cons.mpr (List.sublist_append_right pre post)).subset member
  have lastApart := apart (Or.inl (last_mem pre h))
  have firstApart := apart (Or.inr (first_mem post h))
  refine linked_append.mpr ⟨before.relast (fun y member => ?_) (fun y member => ?_) ⟨?_, ?_⟩,
    ⟨?_, ?_⟩, behind.rehead (fun y member => ?_) (fun y member => ?_) ⟨?_, ?_⟩⟩
  · rw [Function.update_of_ne (apart (Or.inl (List.mem_of_mem_dropLast member))),
      Function.update_of_ne (ne_last_of_dropLast distinct member)]
  · rw [Function.update_of_ne (apart (Or.inl (List.mem_cons_of_mem _ member))),
      Function.update_of_ne (ne_first_of_mem distinct member)]
  · rw [Function.update_of_ne lastApart, Function.update_self]
    rfl
  · exact Function.update_self x _ _
  · rw [Function.update_of_ne lastApart, Function.update_self]
  · exact Function.update_self x _ _
  · rw [Function.update_of_ne (apart (Or.inr (List.mem_cons_of_mem _ member))),
      Function.update_of_ne (ne_last_of_mem distinct member)]
  · have inside : y ∈ h :: post := by
      rcases List.mem_append.mp (List.mem_of_mem_tail member) with here | last
      · exact List.mem_cons_of_mem _ here
      · rw [List.mem_singleton.mp last]
        exact List.mem_cons_self
    rw [Function.update_of_ne (apart (Or.inr inside)),
      Function.update_of_ne (ne_first_of_tail distinct member)]
  · exact Function.update_self x _ _
  · rw [Function.update_of_ne firstApart, Function.update_self]

/-- A node is unlinked: its neighbours are linked to one another. -/
theorem Linked.remove (linked : Linked next prev h (pre ++ x :: post) h) :
    Linked
      (Function.update next (pre.getLastD h) (post.headD h))
      (Function.update prev (post.headD h) (pre.getLastD h))
      h (pre ++ post) h := by
  obtain ⟨before, -, behind⟩ := linked_append.mp linked
  refine linked_append.mpr ⟨before.relast (fun y member => ?_) (fun y member => ?_) ⟨?_, ?_⟩,
    behind.rehead (fun y member => ?_) (fun y member => ?_) ⟨?_, ?_⟩⟩
  · rw [Function.update_of_ne (ne_last_of_dropLast distinct member)]
  · rw [Function.update_of_ne (ne_first_of_mem distinct member)]
  · exact Function.update_self _ _ _
  · exact Function.update_self _ _ _
  · rw [Function.update_of_ne (ne_last_of_mem distinct member)]
  · rw [Function.update_of_ne (ne_first_of_tail distinct member)]
  · exact Function.update_self _ _ _
  · exact Function.update_self _ _ _

end Change

end Ring
