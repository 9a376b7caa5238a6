import Mathlib

/-!
# Segments of integers

The numbers of a segment in ascending order, and how segments that follow each other are
joined and clipped.
-/
namespace Segments

/-- The numbers from `lo` to `hi`. -/
def segment (lo hi : ℤ) : List ℤ := Int.range lo (hi + 1)

@[simp] theorem mem_segment {lo hi x : ℤ} : x ∈ segment lo hi ↔ lo ≤ x ∧ x ≤ hi := by
  rw [segment, Int.mem_range_iff, Int.lt_add_one_iff]

theorem segment_length (lo hi : ℤ) : (segment lo hi).length = (hi + 1 - lo).toNat := by
  simp [segment, Int.range]

theorem segment_pairwise (lo hi : ℤ) : (segment lo hi).Pairwise (· < ·) := by
  refine List.Pairwise.map _ ?_ List.pairwise_lt_range
  intro a b less
  omega

theorem segment_nodup (lo hi : ℤ) : (segment lo hi).Nodup :=
  (segment_pairwise lo hi).imp fun less => less.ne

theorem segment_self (x : ℤ) : segment x x = [x] := by
  refine (segment_pairwise x x).eq_of_mem_iff (List.pairwise_singleton _ x) fun y => ?_
  rw [mem_segment, List.mem_singleton]
  omega

theorem segment_append (lo mid hi : ℤ) (low : lo ≤ mid + 1) (high : mid ≤ hi) :
    segment lo mid ++ segment (mid + 1) hi = segment lo hi := by
  have ascending : (segment lo mid ++ segment (mid + 1) hi).Pairwise (· < ·) := by
    refine List.pairwise_append.mpr ⟨segment_pairwise _ _, segment_pairwise _ _, ?_⟩
    intro a ha b hb
    rw [mem_segment] at ha hb
    omega
  refine ascending.eq_of_mem_iff (segment_pairwise lo hi) fun x => ?_
  rw [List.mem_append, mem_segment, mem_segment, mem_segment]
  omega

/-- The part of a segment inside other bounds. -/
theorem segment_filter (lo hi first last : ℤ) :
    (segment lo hi).filter (fun x => first ≤ x ∧ x ≤ last) =
      segment (max first lo) (min hi last) := by
  refine ((segment_pairwise lo hi).filter _).eq_of_mem_iff (segment_pairwise _ _) fun x => ?_
  rw [List.mem_filter, mem_segment, mem_segment, decide_eq_true_iff, max_le_iff, le_min_iff]
  constructor
  · intro ⟨⟨low, high⟩, above, below⟩
    exact ⟨⟨above, low⟩, high, below⟩
  · intro ⟨⟨above, low⟩, high, below⟩
    exact ⟨⟨low, high⟩, above, below⟩

end Segments
