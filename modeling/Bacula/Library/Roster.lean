import Mathlib

/-!
# Walks along a roster

The members of a roster stand in the order in which they joined. A visitor goes from a
member to the next one while others join at the end and leave from anywhere but under the
visitor. At the end of the roster it has seen every member that is left, and none twice.
-/
namespace Roster

variable {α : Type} [LinearOrder α]

/-- A visitor at a member has seen everybody up to it. -/
structure At (members seen : List α) (here : α) : Prop where
  present : here ∈ members
  all : ∀ m ∈ members, m ≤ here → m ∈ seen
  upTo : ∀ m ∈ seen, m ≤ here
  once : seen.Pairwise (· < ·)

variable {members seen : List α} {here x : α}

theorem At.start {rest : List α} (ordered : (x :: rest).Pairwise (· < ·)) : At (x :: rest) [x] x where
  present := List.mem_cons_self
  all m member upTo := by
    rcases List.mem_cons.mp member with rfl | later
    · exact List.mem_singleton_self m
    · exact absurd (List.rel_of_pairwise_cons ordered later) (not_lt.mpr upTo)
  upTo m visited := le_of_eq (List.mem_singleton.mp visited)
  once := List.pairwise_singleton _ x

theorem At.join (visitor : At members seen here) (new : ∀ m ∈ members, m < x) :
    At (members ++ [x]) seen here where
  present := List.mem_append_left _ visitor.present
  all m member upTo := by
    rcases List.mem_append.mp member with old | joined
    · exact visitor.all m old upTo
    · have later : here < m := List.mem_singleton.mp joined ▸ new here visitor.present
      exact absurd upTo (not_le.mpr later)
  upTo := visitor.upTo
  once := visitor.once

theorem At.leave (visitor : At members seen here) {left : List α} (sub : left ⊆ members)
    (stays : here ∈ left) : At left seen here where
  present := stays
  all m member upTo := visitor.all m (sub member) upTo
  upTo := visitor.upTo
  once := visitor.once

/-- The members before the visitor's have joined before it, and the ones behind the next one after
that. -/
theorem At.next {before after : List α} (ordered : (before ++ here :: x :: after).Pairwise (· < ·))
    (visitor : At (before ++ here :: x :: after) seen here) :
    At (before ++ here :: x :: after) (seen ++ [x]) x := by
  obtain ⟨-, tail, across⟩ := List.pairwise_append.mp ordered
  obtain ⟨first, rest⟩ := List.pairwise_cons.mp tail
  have forth : here < x := first x List.mem_cons_self
  constructor
  case present => simp
  case all =>
    intro m member upTo
    rcases List.mem_append.mp member with earlier | later
    · exact List.mem_append_left _ (visitor.all m member (across m earlier here List.mem_cons_self).le)
    · rcases List.mem_cons.mp later with rfl | later
      · exact List.mem_append_left _ (visitor.all m member le_rfl)
      · rcases List.mem_cons.mp later with rfl | later
        · exact List.mem_append_right _ (List.mem_singleton_self m)
        · exact absurd upTo (not_le.mpr (List.rel_of_pairwise_cons rest later))
  case upTo =>
    intro m visited
    rcases List.mem_append.mp visited with old | new
    · exact (visitor.upTo m old).trans forth.le
    · exact le_of_eq (List.mem_singleton.mp new)
  case once =>
    refine List.pairwise_append.mpr ⟨visitor.once, List.pairwise_singleton _ x, ?_⟩
    intro m old n new
    exact List.mem_singleton.mp new ▸ lt_of_le_of_lt (visitor.upTo m old) forth

theorem At.finish {before : List α} (ordered : (before ++ [here]).Pairwise (· < ·))
    (visitor : At (before ++ [here]) seen here) : ∀ m ∈ before ++ [here], m ∈ seen := by
  intro m member
  apply visitor.all m member
  rcases List.mem_append.mp member with earlier | last
  · exact ((List.pairwise_append.mp ordered).2.2 m earlier here (List.mem_singleton_self here)).le
  · exact le_of_eq (List.mem_singleton.mp last)

end Roster
