import Mathlib

/-!
# Bisection of positions

A search of the positions `1, …, n` by comparisons. `comp p` says on which side of
position `p` the target lies: `.lt` before it, `.gt` behind it, `.eq` at it. Nothing is
assumed about `comp`: the searched positions need not be ordered, and the result for an
arbitrary `comp` is characterised by the positions that a search for `j` visits.
-/
namespace Bisection

inductive Outcome where
  | found (cur : ℕ)
  | stopped (low high cur : ℕ)
  deriving DecidableEq, Repr

/-- Halve `low, …, high` until a position compares equal or the bounds meet. `cur` is
the position that was compared last. -/
def search (comp : ℕ → Ordering) (low high cur : ℕ) : Outcome :=
  if low < high then
    let nxt := (low + high) / 2
    match comp nxt with
    | .lt => search comp low nxt nxt
    | .gt => search comp (nxt + 1) high nxt
    | .eq => .found nxt
  else .stopped low high cur
termination_by high - low

/-- The position a search ends with. When the bounds meet, the position behind the last
compared one was possibly not compared yet. -/
def settle (comp : ℕ → Ordering) : Outcome → Option ℕ
  | .found cur => some cur
  | .stopped low high cur => if low = high ∧ comp (cur + 1) = .eq then some (cur + 1) else none

/-- The positions whose comparison decides whether a search comes to `j`. Between
neighbours both ways are looked at. -/
def probes (low high j : ℕ) : List ℕ :=
  if low < high then
    let nxt := (low + high) / 2
    if j = nxt ∨ high = low + 1 then []
    else nxt :: if j < nxt then probes low nxt j else probes (nxt + 1) high j
  else []
termination_by high - low

/-- Every comparison on the way to `j` points to `j` or hits an equal position before. -/
def Leads (comp : ℕ → Ordering) (low high j : ℕ) : Prop :=
  ∀ m ∈ probes low high j, (m < j → comp m ≠ .lt) ∧ (j < m → comp m ≠ .gt)

theorem leads_of_eq_nxt {comp : ℕ → Ordering} {low high j : ℕ} (h : j = (low + high) / 2) :
    Leads comp low high j := by
  intro m hm
  rw [probes] at hm
  simp [h] at hm

theorem leads_neighbour {comp : ℕ → Ordering} {low high j : ℕ} (h : high = low + 1) :
    Leads comp low high j := by
  intro m hm
  rw [probes] at hm
  simp [h] at hm

theorem probes_bounds {low high j m : ℕ} (hm : m ∈ probes low high j) : low ≤ m ∧ m < high := by
  fun_induction probes low high j with
  | case1 => simp at hm
  | case2 low high wide nxt other ih1 ih2 =>
      rcases List.mem_cons.mp hm with rfl | hm
      · omega
      · by_cases before : j < nxt
        · rw [if_pos before] at hm
          have := ih1 hm
          omega
        · rw [if_neg before] at hm
          have := ih2 hm
          omega
  | case3 => simp at hm

theorem leads_iff {comp : ℕ → Ordering} {low high j : ℕ} (h : low + 1 < high)
    (hj : j ≠ (low + high) / 2) :
    Leads comp low high j ↔
      (if j < (low + high) / 2 then comp ((low + high) / 2) ≠ .gt ∧ Leads comp low ((low + high) / 2) j
       else comp ((low + high) / 2) ≠ .lt ∧ Leads comp ((low + high) / 2 + 1) high j) := by
  have wide : low < high := by omega
  have apart : ¬ (j = (low + high) / 2 ∨ high = low + 1) := by omega
  unfold Leads
  rw [probes]
  simp only [wide, if_true, apart, if_false, List.forall_mem_cons]
  by_cases before : j < (low + high) / 2
  · simp only [before, if_true, forall_const]
    have : ¬ (low + high) / 2 < j := by omega
    simp only [this, false_imp_iff, true_and]
  · simp only [before, if_false, false_imp_iff, and_true]
    have : (low + high) / 2 < j := by omega
    simp only [this, forall_const]

/-- What any search finds: a position that compares equal and to which the comparisons
lead, whether or not the positions are ordered. -/
theorem settle_search_isSome_iff (comp : ℕ → Ordering) (low high cur : ℕ) (h : low < high) :
    (settle comp (search comp low high cur)).isSome ↔
      ∃ j, low ≤ j ∧ j ≤ high ∧ comp j = .eq ∧ Leads comp low high j := by
  fun_induction search comp low high cur with
  | case1 low high cur wide nxt result ih =>
      have bounds : low ≤ nxt ∧ nxt < high := by omega
      by_cases neighbours : high = low + 1
      · have atLow : nxt = low := by omega
        rw [atLow, search, if_neg (lt_irrefl low)]
        rw [atLow] at result
        simp only [settle, true_and]
        constructor
        · intro last
          have last : comp (low + 1) = .eq := by by_contra no; simp [no] at last
          exact ⟨low + 1, by omega, by omega, last, leads_neighbour neighbours⟩
        · rintro ⟨j, lowJ, jHigh, hit, -⟩
          have : j = low + 1 := by
            by_contra other
            have : j = low := by omega
            rw [this, result] at hit
            cases hit
          rw [this] at hit
          simp [hit]
      · rw [ih (by omega)]
        constructor
        · rintro ⟨j, lowJ, jNxt, hit, leads⟩
          have before : j ≠ nxt := by rintro rfl; rw [result] at hit; cases hit
          have before : j < nxt := by omega
          refine ⟨j, lowJ, by omega, hit, ?_⟩
          rw [leads_iff (by omega) (by omega), if_pos before]
          exact ⟨by rw [result]; decide, leads⟩
        · rintro ⟨j, lowJ, jHigh, hit, leads⟩
          have other : j ≠ nxt := by rintro rfl; rw [result] at hit; cases hit
          rw [leads_iff (by omega) other] at leads
          by_cases before : j < nxt
          · rw [if_pos before] at leads
            exact ⟨j, lowJ, by omega, hit, leads.2⟩
          · rw [if_neg before] at leads
            exact absurd result leads.1
  | case2 low high cur wide nxt result ih =>
      have bounds : low ≤ nxt ∧ nxt < high := by omega
      by_cases last : nxt + 1 = high
      · rw [last, search, if_neg (lt_irrefl high)]
        simp only [settle, true_and, last]
        constructor
        · intro found
          have found : comp high = .eq := by by_contra no; simp [no] at found
          refine ⟨high, by omega, le_refl high, found, ?_⟩
          by_cases neighbours : high = low + 1
          · exact leads_neighbour neighbours
          · rw [leads_iff (by omega) (by omega), if_neg (by omega)]
            refine ⟨by rw [result]; decide, ?_⟩
            intro m hm
            rw [probes, if_neg (by omega)] at hm
            cases hm
        · rintro ⟨j, lowJ, jHigh, hit, leads⟩
          have : j = high := by
            by_contra other
            have apart : j ≠ nxt := by rintro rfl; rw [result] at hit; cases hit
            rw [leads_iff (by omega) apart, if_pos (by omega)] at leads
            exact leads.1 result
          rw [this] at hit
          simp [hit]
      · rw [ih (by omega)]
        constructor
        · rintro ⟨j, nxtJ, jHigh, hit, leads⟩
          refine ⟨j, by omega, jHigh, hit, ?_⟩
          rw [leads_iff (by omega) (by omega), if_neg (by omega)]
          exact ⟨by rw [result]; decide, leads⟩
        · rintro ⟨j, lowJ, jHigh, hit, leads⟩
          have other : j ≠ nxt := by rintro rfl; rw [result] at hit; cases hit
          rw [leads_iff (by omega) other] at leads
          by_cases before : j < nxt
          · rw [if_pos before] at leads
            exact absurd result leads.1
          · rw [if_neg before] at leads
            exact ⟨j, by omega, jHigh, hit, leads.2⟩
  | case3 low high cur wide nxt result =>
      simp only [settle, Option.isSome_some, true_iff]
      exact ⟨nxt, by omega, by omega, result, leads_of_eq_nxt rfl⟩
  | case4 low high cur closed => exact absurd h closed

/-- A position found compares equal. -/
theorem settle_search_eq_some {comp : ℕ → Ordering} {low high cur j : ℕ} (h : low < high)
    (found : settle comp (search comp low high cur) = some j) :
    low ≤ j ∧ j ≤ high ∧ comp j = .eq := by
  fun_induction search comp low high cur with
  | case1 low high cur wide nxt result ih =>
      by_cases again : low < nxt
      · have := ih again found
        exact ⟨by omega, by omega, this.2.2⟩
      · have stop : nxt = low := by omega
        rw [stop, search, if_neg (lt_irrefl low)] at found
        simp only [settle, true_and] at found
        split at found
        · cases found
          exact ⟨by omega, by omega, ‹_›⟩
        · cases found
  | case2 low high cur wide nxt result ih =>
      by_cases again : nxt + 1 < high
      · have := ih again found
        exact ⟨by omega, by omega, this.2.2⟩
      · have stop : nxt + 1 = high := by omega
        rw [stop, search, if_neg (lt_irrefl high)] at found
        simp only [settle, true_and] at found
        split at found
        · cases found
          exact ⟨by omega, by omega, ‹_›⟩
        · cases found
  | case3 low high cur wide nxt result =>
      obtain rfl : nxt = j := by simpa [settle] using found
      exact ⟨by omega, by omega, result⟩
  | case4 low high cur closed => exact absurd h closed

/-- The position compared last lies before the upper bound. -/
theorem search_stopped_bounds {comp : ℕ → Ordering} {low high cur low' high' cur' : ℕ}
    (h : low < high) (stopped : search comp low high cur = .stopped low' high' cur') :
    low ≤ cur' ∧ cur' < high := by
  fun_induction search comp low high cur with
  | case1 low high cur wide nxt result ih =>
      by_cases again : low < nxt
      · have := ih again stopped
        omega
      · rw [search, if_neg again, Outcome.stopped.injEq] at stopped
        omega
  | case2 low high cur wide nxt result ih =>
      by_cases again : nxt + 1 < high
      · have := ih again stopped
        omega
      · rw [search, if_neg again, Outcome.stopped.injEq] at stopped
        omega
  | case3 low high cur wide nxt result => cases stopped
  | case4 low high cur closed => exact absurd h closed

/-- The comparisons `1, …, n` are those of a strictly ascending sequence. -/
structure Ascending (comp : ℕ → Ordering) (n : ℕ) : Prop where
  lt_of_lt : ∀ {i j}, 1 ≤ i → i < j → j ≤ n → comp i ≠ .gt → comp j = .lt
  gt_of_gt : ∀ {i j}, 1 ≤ i → i < j → j ≤ n → comp j ≠ .lt → comp i = .gt

/-- In an ascending sequence the comparisons lead to the target from everywhere. -/
theorem Ascending.leads {comp : ℕ → Ordering} {n low high j : ℕ} (asc : Ascending comp n)
    (hlow : 1 ≤ low) (hhigh : high ≤ n) (hj : 1 ≤ j ∧ j ≤ n) (hit : comp j = .eq) :
    Leads comp low high j := by
  intro m hm
  have bounds := probes_bounds hm
  constructor
  · intro before result
    have := asc.lt_of_lt (by omega) before hj.2 (by rw [result]; decide)
    rw [hit] at this
    cases this
  · intro after result
    have := asc.gt_of_gt hj.1 after (by omega) (by rw [result]; decide)
    rw [hit] at this
    cases this

/-- Where an ascending search stops: everything below `low` lies before the target and
everything from `low` on behind it. -/
theorem Ascending.search_stopped {comp : ℕ → Ordering} {n low high cur low' high' cur' : ℕ}
    (asc : Ascending comp n) (bounds : 1 ≤ low ∧ low < high ∧ high ≤ n)
    (below : ∀ p, 1 ≤ p → p < low → comp p = .gt) (above : ∀ p, high ≤ p → p ≤ n → comp p = .lt)
    (stopped : search comp low high cur = .stopped low' high' cur') :
    low' = high' ∧ 1 ≤ low' ∧ low' ≤ n ∧ (cur' = low' ∨ cur' + 1 = low') ∧
      (∀ p, 1 ≤ p → p < low' → comp p = .gt) ∧ (∀ p, low' ≤ p → p ≤ n → comp p = .lt) := by
  fun_induction search comp low high cur with
  | case1 low high cur wide nxt result ih =>
      have above' : ∀ p, nxt ≤ p → p ≤ n → comp p = .lt := by
        intro p nxtP pN
        by_cases here : p = nxt
        · rw [here]; exact result
        · exact asc.lt_of_lt (i := nxt) (by omega) (by omega) pN (by rw [result]; decide)
      by_cases again : low < nxt
      · exact ih (by omega) below above' stopped
      · have stop : nxt = low := by omega
        rw [stop, search, if_neg (lt_irrefl low), Outcome.stopped.injEq] at stopped
        obtain ⟨rfl, rfl, rfl⟩ := stopped
        exact ⟨rfl, by omega, by omega, Or.inl rfl, below, stop ▸ above'⟩
  | case2 low high cur wide nxt result ih =>
      have below' : ∀ p, 1 ≤ p → p < nxt + 1 → comp p = .gt := by
        intro p oneP pNxt
        by_cases here : p = nxt
        · rw [here]; exact result
        · exact asc.gt_of_gt (j := nxt) oneP (by omega) (by omega) (by rw [result]; decide)
      by_cases again : nxt + 1 < high
      · exact ih (by omega) below' above stopped
      · have stop : nxt + 1 = high := by omega
        rw [stop, search, if_neg (lt_irrefl high), Outcome.stopped.injEq] at stopped
        obtain ⟨rfl, rfl, rfl⟩ := stopped
        exact ⟨rfl, by omega, by omega, Or.inr stop, stop ▸ below', above⟩
  | case3 low high cur wide nxt result => cases stopped
  | case4 low high cur closed => exact absurd bounds.2.1 closed

end Bisection
