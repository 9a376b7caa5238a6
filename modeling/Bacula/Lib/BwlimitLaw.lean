import Bacula.Lib.Bwlimit

/-! How much the limiter of `lib/bwlimit.c` lets through in a window of its calls. -/
namespace Bacula.Bwlimit
open TokenBucket

/-! ## What one call does -/

theorem truncate_eq_floor {q : ℚ} (nonneg : 0 ≤ q) : truncate q = ⌊q⌋ := by
  rw [truncate, Int.tdiv_eq_ediv_of_nonneg (Rat.num_nonneg.mpr nonneg)]
  exact (Rat.floor_def q).symm

/-- The call changes the counters. -/
def Limiter.Counts (l : Limiter) (c : Call) : Prop := c.bytes ≠ 0 ∧ l.bwlimit ≠ 0

/-- The clock has gone back, or the last tick is too long ago. -/
def Limiter.Jumps (l : Limiter) (c : Call) : Prop :=
  c.now - l.lastTick < 0 ∨ c.now - l.lastTick > backlogLimit

/-- The counters are set anew. -/
def Limiter.Resets (l : Limiter) (c : Call) : Prop := l.Counts c ∧ l.Jumps c

/-- The call is not left to the next time. -/
def Limiter.Paces (l : Limiter) (c : Call) : Prop := l.Counts c ∧ 100 ≤ c.now - l.lastTick

instance (l : Limiter) (c : Call) : Decidable (l.Counts c) := inferInstanceAs (Decidable (_ ∧ _))
instance (l : Limiter) (c : Call) : Decidable (l.Jumps c) := inferInstanceAs (Decidable (_ ∨ _))
instance (l : Limiter) (c : Call) : Decidable (l.Resets c) := inferInstanceAs (Decidable (_ ∧ _))
instance (l : Limiter) (c : Call) : Decidable (l.Paces c) := inferInstanceAs (Decidable (_ ∧ _))

/-- The budget when a tick has been added. -/
def Limiter.refilled (l : Limiter) (c : Call) : ℤ :=
  l.nbBytes - c.bytes + truncate ((c.now - l.lastTick : ℤ) * l.rate)

/-- What exceeds the budget as a time. -/
def Limiter.usecSleep (l : Limiter) (c : Call) : ℤ := truncate (-l.refilled c / l.rate)

/-- How a call ends. -/
inductive Ends (l : Limiter) (c : Call) (l' : Limiter) : ℤ → Prop where
  | nothing : ¬ l.Counts c → l' = l → Ends l c l' 0
  | reset : l.Resets c → l'.nbBytes = c.bytes → Ends l c l' 0
  | late : ¬ l.Jumps c → c.now - l.lastTick < 100 → l'.nbBytes = l.nbBytes - c.bytes →
      l'.lastTick = l.lastTick → Ends l c l' 0
  | within : ¬ l.Jumps c → l'.lastTick = c.now → l'.nbBytes ≤ l.refilled c → 0 ≤ l'.nbBytes →
      Ends l c l' 0
  | exceeded : ¬ l.Jumps c → l'.lastTick = c.now → l'.nbBytes = l.refilled c → l'.nbBytes < 0 →
      Ends l c l' (if l.usecSleep c > 100 then min (l.usecSleep c) (60 * oneSec) else 0)

@[simp] theorem control_bwlimit (l : Limiter) (bytes : ℕ) (now : ℤ) :
    (controlBwlimit l bytes now).1.bwlimit = l.bwlimit := by
  unfold controlBwlimit
  grind

theorem control_ends (l : Limiter) (c : Call) (positive : 0 < l.bwlimit) :
    Ends l c (controlBwlimit l c.bytes c.now).1 (controlBwlimit l c.bytes c.now).2 := by
  have cap : 0 ≤ backlogLimit * l.bwlimit := by
    have : 0 ≤ backlogLimit := by decide
    positivity
  unfold controlBwlimit
  by_cases idle : c.bytes = 0 ∨ l.bwlimit = 0
  · rw [if_pos idle]
    exact .nothing (fun counts => idle.elim counts.1 counts.2) rfl
  rw [if_neg idle]
  by_cases jumps : c.now - l.lastTick < 0 ∨ c.now - l.lastTick > backlogLimit
  · rw [if_pos jumps]
    exact .reset ⟨not_or.mp idle, jumps⟩ rfl
  rw [if_neg jumps]
  by_cases late : c.now - l.lastTick < 100
  · rw [if_pos late]
    exact .late jumps late rfl rfl
  rw [if_neg late]
  dsimp only
  rw [← Limiter.refilled]
  by_cases above : l.refilled c > backlogLimit * l.bwlimit
  · rw [if_pos above]
    exact .within jumps rfl above.le cap
  rw [if_neg above]
  by_cases negative : l.refilled c < 0
  · rw [if_pos negative]
    exact .exceeded jumps rfl rfl negative
  · rw [if_neg negative]
    exact .within jumps rfl le_rfl (not_lt.mp negative)

def Limiter.bucket (l : Limiter) : Bucket ℚ := ⟨l.nbBytes, l.lastTick⟩

variable {l l' : Limiter} {c : Call} {sleep : ℤ}

/-- A limiter does not sleep while its budget is not exhausted. -/
theorem Ends.idle (ends : Ends l c l' sleep) (within : 0 ≤ l'.nbBytes) : sleep = 0 := by
  cases ends with
  | exceeded jumps ticked refilled negative => exact absurd negative (not_lt.mpr within)
  | _ => rfl

theorem rate_pos (positive : 0 < l.bwlimit) : 0 < l.rate :=
  div_pos (Int.cast_pos.mpr positive) (Int.cast_pos.mpr (by decide))

theorem refilled_le (positive : 0 < l.bwlimit) (forward : l.lastTick ≤ c.now) :
    (l.refilled c : ℚ) ≤ l.nbBytes - c.bytes + l.rate * (c.now - l.lastTick) := by
  have elapsed : (0 : ℚ) ≤ (c.now - l.lastTick : ℤ) * l.rate :=
    mul_nonneg (Int.cast_nonneg (sub_nonneg.mpr forward)) (rate_pos positive).le
  have added := Int.floor_le ((c.now - l.lastTick : ℤ) * l.rate)
  rw [Limiter.refilled, truncate_eq_floor elapsed]
  push_cast at added ⊢
  linarith

theorem Ends.pays (ends : Ends l c l' sleep) (positive : 0 < l.bwlimit)
    (steady : ¬ l.Resets c) : Pays l.rate l.bucket c.bytes l'.bucket := by
  have ticks (forward : ¬ l.Jumps c) (ticked : l'.lastTick = c.now)
      (refilled : l'.nbBytes ≤ l.refilled c) : Pays l.rate l.bucket c.bytes l'.bucket := by
    have forward : l.lastTick ≤ c.now := sub_nonneg.mp (not_lt.mp (not_or.mp forward).1)
    have refilled : (l'.nbBytes : ℚ) ≤ l.refilled c := Int.cast_le.mpr refilled
    refine ⟨?_, ?_⟩
    · rw [Limiter.bucket, Limiter.bucket, ticked]
      exact Int.cast_le.mpr forward
    · rw [Limiter.bucket, Limiter.bucket, ticked]
      exact refilled.trans (refilled_le positive forward)
  cases ends with
  | nothing idle same =>
      have none : c.bytes = 0 := by
        by_contra some
        exact idle ⟨some, positive.ne'⟩
      rw [same, none]
      exact ⟨le_rfl, by simp⟩
  | reset resets set => exact absurd resets steady
  | late forward soon removed kept =>
      rw [Limiter.bucket, Limiter.bucket, kept, removed]
      exact ⟨le_rfl, by simp⟩
  | within forward ticked refilled nonneg => exact ticks forward ticked refilled
  | exceeded forward ticked refilled negative => exact ticks forward ticked refilled.le

/-- A debt is slept off, up to what is too short or too long for a sleep. -/
theorem Ends.debt (ends : Ends l c l' sleep) (positive : 0 < l.bwlimit) (paces : l.Paces c)
    (steady : ¬ l.Resets c) : l'.lastTick = c.now ∧
      (-(l'.nbBytes : ℚ) ≤ l.rate * (sleep + 101) ∨ sleep = 60 * oneSec) := by
  have rate := rate_pos positive
  cases ends with
  | nothing idle same => exact absurd paces.1 idle
  | reset resets set => exact absurd resets steady
  | late forward soon removed kept => exact absurd paces.2 (not_le.mpr soon)
  | within forward ticked refilled nonneg =>
      have nonneg : (0 : ℚ) ≤ l'.nbBytes := Int.cast_nonneg nonneg
      refine ⟨ticked, .inl ?_⟩
      push_cast
      linarith
  | exceeded forward ticked refilled negative =>
      rw [refilled] at negative ⊢
      have debt : (0 : ℚ) ≤ -l.refilled c / l.rate :=
        div_nonneg (neg_nonneg.mpr (Int.cast_nonpos.mpr negative.le)) rate.le
      have slept : -(l.refilled c : ℚ) < l.rate * (l.usecSleep c + 1) := by
        rw [mul_comm, ← div_lt_iff₀ rate, Limiter.usecSleep, truncate_eq_floor debt]
        exact Int.lt_floor_add_one _
      refine ⟨ticked, ?_⟩
      by_cases long : l.usecSleep c > 100
      · rw [if_pos long]
        rcases min_choice (l.usecSleep c) (60 * oneSec) with whole | cut
        · rw [whole]
          left
          nlinarith
        · exact .inr cut
      · have short : (l.usecSleep c : ℚ) ≤ 100 := by exact_mod_cast not_lt.mp long
        rw [if_neg long]
        left
        push_cast
        nlinarith

/-! ## Windows of calls -/

/-- No call resets the limiter. -/
def Steady : State → List Call → Prop
  | _, [] => True
  | s, c :: calls => ¬ s.limiter.Resets c ∧ Steady (s.call c) calls

instance Steady.decide : (s : State) → (calls : List Call) → Decidable (Steady s calls)
  | _, [] => .isTrue trivial
  | s, c :: calls =>
      have := Steady.decide (s.call c) calls
      inferInstanceAs (Decidable (¬ s.limiter.Resets c ∧ Steady (s.call c) calls))

/-- The calls behind the last paced one that has any bytes behind it. -/
def lastBurst : State → List Call → List Call
  | _, [] => []
  | s, c :: calls =>
      let burst := lastBurst (s.call c) calls
      if burst.length < calls.length ∨ s.limiter.Paces c ∧ 0 < total calls then burst
      else c :: calls

variable {s : State} {calls more first : List Call} {start stop T : ℤ}

@[simp] theorem calls_cons (s : State) (c : Call) (calls : List Call) :
    s.calls (c :: calls) = (s.call c).calls calls := rfl

theorem calls_append (s : State) (calls more : List Call) :
    s.calls (calls ++ more) = (s.calls calls).calls more := List.foldl_append

@[simp] theorem call_bwlimit (s : State) (c : Call) :
    (s.call c).limiter.bwlimit = s.limiter.bwlimit := control_bwlimit _ _ _

@[simp] theorem calls_bwlimit (s : State) (calls : List Call) :
    (s.calls calls).limiter.bwlimit = s.limiter.bwlimit := by
  induction calls generalizing s with
  | nil => rfl
  | cons c calls ih => rw [calls_cons, ih, call_bwlimit]

theorem call_ends (s : State) (c : Call) (positive : 0 < s.limiter.bwlimit) :
    Ends s.limiter c (s.call c).limiter ((s.call c).clock - c.now) := by
  have clock : (s.call c).clock - c.now = (controlBwlimit s.limiter c.bytes c.now).2 :=
    add_sub_cancel_left _ _
  rw [clock]
  exact control_ends s.limiter c positive

theorem Timed.split (timed : Timed s (calls ++ more)) : Timed s calls ∧ Timed (s.calls calls) more := by
  induction calls generalizing s with
  | nil => exact ⟨trivial, timed⟩
  | cons c calls ih =>
      obtain ⟨before, after⟩ := ih timed.2
      exact ⟨⟨timed.1, before⟩, after⟩

theorem Steady.split (steady : Steady s (calls ++ more)) :
    Steady s calls ∧ Steady (s.calls calls) more := by
  induction calls generalizing s with
  | nil => exact ⟨trivial, steady⟩
  | cons c calls ih =>
      obtain ⟨before, after⟩ := ih steady.2
      exact ⟨⟨steady.1, before⟩, after⟩

theorem total_append (calls more : List Call) : total (calls ++ more) = total calls + total more := by
  simp [total]

theorem Steady.payments (steady : Steady s calls) (positive : 0 < s.limiter.bwlimit) :
    Payments s.limiter.rate s.limiter.bucket (calls.map fun c => (c.bytes : ℚ))
      (s.calls calls).limiter.bucket := by
  induction calls generalizing s with
  | nil => exact .nil _
  | cons c calls ih =>
      have rest := ih steady.2 (by rwa [call_bwlimit])
      rw [Limiter.rate, call_bwlimit, ← Limiter.rate] at rest
      exact .cons ((call_ends s c positive).pays positive steady.1) rest

theorem Steady.total_le (steady : Steady s calls) (positive : 0 < s.limiter.bwlimit) :
    (total calls : ℚ) ≤ s.limiter.nbBytes - (s.calls calls).limiter.nbBytes +
      s.limiter.rate * ((s.calls calls).limiter.lastTick - s.limiter.lastTick) := by
  have cast : (total calls : ℚ) = (calls.map fun c => (c.bytes : ℚ)).sum := by
    rw [total, Nat.cast_list_sum, List.map_map]
    rfl
  rw [cast]
  exact (steady.payments positive).total_le

/-- The first call that has bytes is made while the last tick is not too long ago. -/
theorem first_sent (steady : Steady s calls) (timed : Timed s calls)
    (positive : 0 < s.limiter.bwlimit) (sent : 0 < total calls) :
    ∃ c ∈ calls, s.clock ≤ c.now ∧ c.now ≤ s.limiter.lastTick + backlogLimit := by
  induction calls generalizing s with
  | nil => exact absurd sent (lt_irrefl 0)
  | cons c calls ih =>
      by_cases none : c.bytes = 0
      · have same : s.call c = { s with clock := c.now } := by
          simp [State.call, controlBwlimit, none]
        have rest : 0 < total calls := by simpa [total, none] using sent
        obtain ⟨d, member, after, before⟩ := ih steady.2 timed.2 (by rwa [call_bwlimit]) rest
        rw [same] at after before
        exact ⟨d, List.mem_cons_of_mem _ member, timed.1.trans after, before⟩
      · have near : ¬ s.limiter.Jumps c := fun jumps => steady.1 ⟨⟨none, positive.ne'⟩, jumps⟩
        have recent : c.now - s.limiter.lastTick ≤ backlogLimit := not_lt.mp (not_or.mp near).2
        exact ⟨c, List.mem_cons_self, timed.1, by omega⟩

/-- The calls before the last burst end with a paced one. -/
theorem lastBurst_split (s : State) (calls : List Call) :
    lastBurst s calls = calls ∨ ∃ first c, calls = first ++ [c] ++ lastBurst s calls ∧
      (s.calls first).limiter.Paces c ∧ 0 < total (lastBurst s calls) := by
  induction calls generalizing s with
  | nil => exact .inl rfl
  | cons c calls ih =>
      rw [lastBurst]
      split
      case isTrue found =>
          right
          rcases ih (s.call c) with whole | ⟨first, d, split, paces, sent⟩
          · rw [whole] at found ⊢
            obtain ⟨paces, sent⟩ := found.resolve_left (lt_irrefl _)
            exact ⟨[], c, rfl, paces, sent⟩
          · exact ⟨c :: first, d, congrArg (c :: ·) split, paces, sent⟩
      case isFalse => exact .inl rfl

theorem Steady.paced_le (steady : Steady s (first ++ [c] ++ more))
    (timed : Timed s (first ++ [c] ++ more)) (positive : 0 < s.limiter.bwlimit)
    (paces : (s.calls first).limiter.Paces c) (sent : 0 < total more)
    (after : ∀ d ∈ first ++ [c] ++ more, start ≤ d.now) (before : ∀ d ∈ more, d.now ≤ stop) :
    (total (first ++ [c]) : ℚ) ≤
      s.limiter.nbBytes + s.limiter.rate * (stop - start + backlogLimit + 101) := by
  have rate := rate_pos positive
  have window := (steady.split.1).total_le positive
  -- the last tick before the window is recent
  have some : 0 < total (first ++ [c] ++ more) := by
    rw [total_append]
    omega
  obtain ⟨e, inside, -, recent⟩ := first_sent steady timed positive some
  have recent : start ≤ s.limiter.lastTick + backlogLimit := (after e inside).trans recent
  -- the debt of the paced call is slept off before anything else is sent
  have last : s.calls (first ++ [c]) = (s.calls first).call c := calls_append s first [c]
  have limit : 0 < (s.calls first).limiter.bwlimit := by rwa [calls_bwlimit]
  obtain ⟨ticked, debt⟩ :=
    (call_ends (s.calls first) c limit).debt limit paces (steady.split.1.split.2.1)
  obtain ⟨d, member, slept, near⟩ := first_sent steady.split.2 timed.split.2
    (by rwa [calls_bwlimit]) sent
  have ends := before d member
  rw [last, ticked] at window
  rw [last] at slept near
  rw [ticked] at near
  rw [Limiter.rate, calls_bwlimit, ← Limiter.rate] at debt
  have uncut : ((s.calls first).call c).clock - c.now ≠ 60 * oneSec := by
    intro cut
    have : backlogLimit < 60 * oneSec := by decide
    omega
  have debt := debt.resolve_right uncut
  have slept : (((s.calls first).call c).clock : ℚ) ≤ stop := Int.cast_le.mpr (slept.trans ends)
  have recent : (start : ℚ) ≤ s.limiter.lastTick + backlogLimit := by exact_mod_cast recent
  push_cast at debt
  nlinarith

theorem Steady.window_le (steady : Steady s calls) (timed : Timed s calls)
    (positive : 0 < s.limiter.bwlimit) (nonneg : 0 ≤ T)
    (window : ∀ c ∈ calls, start ≤ c.now ∧ c.now ≤ start + T) :
    (total calls : ℚ) ≤ max 0 (s.limiter.nbBytes : ℚ) +
      s.limiter.rate * (T + backlogLimit + 101) + total (lastBurst s calls) := by
  have budget := le_max_left (0 : ℚ) s.limiter.nbBytes
  have bound : (0 : ℚ) ≤ s.limiter.rate * (T + backlogLimit + 101) := by
    have backlog : (0 : ℚ) ≤ backlogLimit := Int.cast_nonneg (by decide)
    have time : (0 : ℚ) ≤ T := Int.cast_nonneg nonneg
    exact mul_nonneg (rate_pos positive).le (by linarith)
  rcases lastBurst_split s calls with whole | ⟨first, c, split, paces, sent⟩
  · rw [whole]
    linarith
  · rw [split] at steady timed window
    have before : ∀ d ∈ lastBurst s calls, d.now ≤ start + T :=
      fun d member => (window d (List.mem_append_right _ member)).2
    have paced :=
      steady.paced_le timed positive paces sent (fun d member => (window d member).1) before
    have parts : (total calls : ℚ) = total (first ++ [c]) + total (lastBurst s calls) := by
      rw [← Nat.cast_add, ← total_append, ← split]
    have most := le_max_right (0 : ℚ) s.limiter.nbBytes
    push_cast at paced
    rw [parts]
    linarith

/-- The calls that a new limiter gets behind others, between `start` and `start + T`. -/
structure IsWindow (B clock : ℤ) (before calls : List Call) (start T : ℤ) : Prop where
  timed : Timed ⟨init B, clock⟩ (before ++ calls)
  inside : ∀ c ∈ calls, start ≤ c.now ∧ c.now ≤ start + T

instance (B clock : ℤ) (before calls : List Call) (start T : ℤ) :
    Decidable (IsWindow B clock before calls start T) :=
  decidable_of_iff
    (Timed ⟨init B, clock⟩ (before ++ calls) ∧ ∀ c ∈ calls, start ≤ c.now ∧ c.now ≤ start + T)
    ⟨fun window => ⟨window.1, window.2⟩, fun window => ⟨window.timed, window.inside⟩⟩

/-- The window lets through what the rate allows in its length and in the backlog limit, and the
last call. -/
def Bounded (B : ℤ) (calls : List Call) (last : Call) (T : ℤ) : Prop :=
  (total (calls ++ [last]) : ℚ) ≤ B * (T + backlogLimit) / oneSec + last.bytes

instance (B : ℤ) (calls : List Call) (last : Call) (T : ℤ) : Decidable (Bounded B calls last T) :=
  inferInstanceAs (Decidable (_ ≤ _))

/-- Calls that follow each other closely are not limited, a reset forgets what was sent, a budget is
kept from more than the backlog limit, and a short debt is not slept off. -/
theorem windows_exceed :
    (IsWindow 1000 0 [] [⟨20000, 0⟩, ⟨1, 0⟩] 0 0 ∧ ¬ Bounded 1000 [⟨20000, 0⟩] ⟨1, 0⟩ 0) ∧
    (IsWindow 1000 0 [] [⟨1000000, 10000001⟩, ⟨1000000, 20000002⟩] 10000001 10000001 ∧
      ¬ Bounded 1000 [⟨1000000, 10000001⟩] ⟨1000000, 20000002⟩ 10000001) ∧
    (IsWindow 1000 0 [⟨1, 9000000⟩, ⟨1, 18000000⟩, ⟨1, 27000000⟩]
        [⟨20000, 27000100⟩, ⟨1, 27000200⟩] 27000100 100 ∧
      ¬ Bounded 1000 [⟨20000, 27000100⟩] ⟨1, 27000200⟩ 100) ∧
    (IsWindow 200000000 0 [] [⟨2000010000, 10000000⟩, ⟨1, 10000000⟩] 10000000 0 ∧
      ¬ Bounded 200000000 [⟨2000010000, 10000000⟩] ⟨1, 10000000⟩ 0) := by
  decide +kernel

/-- In a window without a reset, the calls are bounded by the budget at its start, by what the rate
allows, and by the last burst. No call sleeps within its budget. -/
theorem window_bounded {B clock : ℤ} {before window : List Call} (positive : 0 < B) (nonneg : 0 ≤ T)
    (made : IsWindow B clock before window start T)
    (steady : Steady (State.calls ⟨init B, clock⟩ before) window) :
    let s := State.calls ⟨init B, clock⟩ before
    (total window : ℚ) ≤ max 0 (s.limiter.nbBytes : ℚ) +
        B * (T + backlogLimit + 101) / oneSec + total (lastBurst s window) ∧
      ∀ c, 0 ≤ (s.call c).limiter.nbBytes → (s.call c).clock = c.now := by
  intro s
  have limit : s.limiter.bwlimit = B := calls_bwlimit _ _
  have most : 0 < s.limiter.bwlimit := by rwa [limit]
  refine ⟨?_, ?_⟩
  · have bound := steady.window_le made.timed.split.2 most nonneg made.inside
    rwa [Limiter.rate, limit, div_mul_eq_mul_div] at bound
  · intro c within
    exact sub_eq_zero.mp ((call_ends s c most).idle within)

theorem window_bounded_five_seconds :
    let s : State := State.calls ⟨init 1000, 0⟩ [⟨10, 20000⟩]
    let window : List Call := [⟨5000, 1000000⟩, ⟨1, 6000000⟩]
    (total window : ℚ) ≤ max 0 (s.limiter.nbBytes : ℚ) +
        (1000 : ℤ) * ((5000000 : ℤ) + backlogLimit + 101) / oneSec + total (lastBurst s window) ∧
      ∀ c, 0 ≤ (s.call c).limiter.nbBytes → (s.call c).clock = c.now :=
  have made : IsWindow 1000 0 [⟨10, 20000⟩] [⟨5000, 1000000⟩, ⟨1, 6000000⟩] 1000000 5000000 := by
    decide +kernel
  window_bounded (by decide) (by decide) made (by decide +kernel)

/-! ## The samples -/

/-- The totals are the sums of the table. -/
structure Samples.Totalled (s : Samples) : Prop where
  time : s.total.time = ∑ i, (s.table i).time
  byte : s.total.byte = ∑ i, (s.table i).byte
  sleep : s.total.sleep = ∑ i, (s.table i).sleep

/-- The new entry takes the place of the one that is popped from the total. -/
theorem sum_update (table : Fin sampleCapacity → Sample) (f : Sample → ℤ) (i : Fin sampleCapacity)
    (current : Sample) : ∑ j, f (Function.update table i current j) =
      ∑ j, f (table j) - f (table i) + f current := by
  have moved : (fun j => f (Function.update table i current j)) =
      Function.update (f ∘ table) i (f current) := Function.comp_update f table i current
  have kept := Finset.sum_eq_add_sum_sdiff_singleton_of_mem (Finset.mem_univ i) (f ∘ table)
  rw [moved, Finset.sum_update_of_mem (Finset.mem_univ i)]
  simp only [Function.comp_apply] at kept ⊢
  omega

theorem Samples.Totalled.reset (s : Samples) : s.reset.Totalled := by
  constructor <;> simp [Samples.reset, Sample.zero]

theorem Samples.Totalled.push {s : Samples} (totalled : s.Totalled) (t bytes sleep : ℤ) :
    (s.push t bytes sleep).Totalled := by
  unfold Samples.push
  dsimp only
  split
  case isTrue =>
      constructor
      · rw [sum_update _ Sample.time, ← totalled.time]
        rfl
      · rw [sum_update _ Sample.byte, ← totalled.byte]
        rfl
      · rw [sum_update _ Sample.sleep, ← totalled.sleep]
        rfl
  case isFalse => exact ⟨totalled.time, totalled.byte, totalled.sleep⟩

theorem control_totalled (bytes : ℕ) (now : ℤ) (totalled : l.samples.Totalled) :
    (controlBwlimit l bytes now).1.samples.Totalled := by
  have pushed (t bytes sleep : ℤ) := totalled.push t bytes sleep
  have reset := Samples.Totalled.reset l.samples
  unfold controlBwlimit
  grind

theorem samples_totalled (B clock : ℤ) (calls : List Call) :
    (State.calls ⟨init B, clock⟩ calls).limiter.samples.Totalled := by
  have start : (init B).samples.Totalled := by
    constructor <;> simp [init, Sample.zero]
  induction calls using List.reverseRecOn with
  | nil => exact start
  | append_singleton calls c ih =>
      rw [calls_append]
      exact control_totalled c.bytes c.now ih

/-- What `get_total` reports is what the table and the current sample hold. -/
theorem get_total_eq (B clock : ℤ) (calls : List Call) :
    let s := (State.calls ⟨init B, clock⟩ calls).limiter.samples
    s.getTotal = ⟨∑ i, (s.table i).time + s.current.time, ∑ i, (s.table i).byte + s.current.byte,
      ∑ i, (s.table i).sleep + s.current.sleep⟩ := by
  intro s
  have totalled : s.Totalled := samples_totalled B clock calls
  rw [← totalled.time, ← totalled.byte, ← totalled.sleep]
  rfl

end Bacula.Bwlimit
