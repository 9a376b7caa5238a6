import Bacula.Library.Transition

/-! The byte counters of data spooling in `stored/spool.c`. The jobs on a device run
concurrently; what happens under one lock, or is seen by the own job only, is one step.
The counters are unbounded here, so that an underflow would show as a negative value. -/
namespace Bacula.Spool
open Transition

/-- `sizeof(spool_hdr)`. -/
def hlen : ℤ := 16

/-- `WRITE_BLKHDR_LENGTH`: a block that is not longer has no data in it. -/
def writeBlkhdrLength : ℤ := 24

/-- What the job does when a despooling is over. -/
inductive AfterDespool where
  /-- Put the block of this length into the spool file, the limit forced the despooling. -/
  | account (wlen : ℤ)
  /-- Try to write the block again, the disk was full. -/
  | retry (wlen : ℤ)
  /-- The job has ended. -/
  | close
  deriving DecidableEq, Repr

/-- Where a job stands. -/
inductive Phase where
  | closed
  /-- Between two calls. -/
  | ready
  /-- A limit is reached with this block. -/
  | forced (wlen : ℤ)
  /-- The block is being written to the spool file, perhaps for the second time. -/
  | writing (wlen : ℤ) (retried : Bool)
  /-- A short write was taken back. -/
  | rewound (wlen : ℤ)
  | committing
  | despooling (next : AfterDespool)
  | despooled (wlen : ℤ)
  | committed
  deriving DecidableEq, Repr

structure Dcr where
  spooling : Bool := false
  despooling : Bool := false
  jobSpoolSize : ℤ := 0
  maxJobSpoolSize : ℤ := 0
  phase : Phase := .closed
  deriving DecidableEq, Repr

structure SpoolStats where
  dataJobs : ℤ := 0
  totalDataJobs : ℤ := 0
  dataSize : ℤ := 0
  maxDataSize : ℤ := 0
  deriving DecidableEq, Repr

/-- A device with `n` jobs. -/
structure State (n : ℕ) where
  spoolSize : ℤ := 0
  maxSpoolSize : ℤ := 0
  spoolStats : SpoolStats := {}
  dcr : Fin n → Dcr

variable {n : ℕ}

def State.setDcr (s : State n) (d : Fin n) (dcr : Dcr) : State n :=
  { s with dcr := Function.update s.dcr d dcr }

/-- `begin_data_spool` with an opened file. -/
def beginDataSpool (s : State n) (d : Fin n) : State n :=
  { s.setDcr d { s.dcr d with spooling := true, phase := .ready } with
    spoolStats := { s.spoolStats with dataJobs := s.spoolStats.dataJobs + 1 } }

/-- The start of `write_block_to_spool_file`: both counters grow, and a limit of the job or
of the device may be reached. -/
def accountBlock (s : State n) (d : Fin n) (wlen : ℤ) : State n :=
  let dcr := s.dcr d
  let jobSpoolSize := dcr.jobSpoolSize + (hlen + wlen)
  let spoolSize := s.spoolSize + (hlen + wlen)
  let despool := (0 < dcr.maxJobSpoolSize ∧ dcr.maxJobSpoolSize ≤ jobSpoolSize) ∨
    (0 < s.maxSpoolSize ∧ s.maxSpoolSize ≤ spoolSize)
  let dataSize := s.spoolStats.dataSize + (hlen + wlen)
  { s.setDcr d { dcr with
      jobSpoolSize, phase := if despool then .forced wlen else .writing wlen false } with
    spoolSize
    spoolStats := { s.spoolStats with
      dataSize, maxDataSize := max s.spoolStats.maxDataSize dataSize } }

/-- Despooling cleared these variables so reset them. -/
def accountAgain (s : State n) (d : Fin n) (wlen : ℤ) : State n :=
  let dcr := s.dcr d
  { s.setDcr d { dcr with
      jobSpoolSize := dcr.jobSpoolSize + (hlen + wlen), phase := .writing wlen false } with
    spoolSize := s.spoolSize + (hlen + wlen) }

def startDespool (s : State n) (d : Fin n) (next : AfterDespool) : State n :=
  s.setDcr d { s.dcr d with spooling := false, despooling := true, phase := .despooling next }

/-- The subtraction that `despool_data` and `close_data_spool_file` make from the global
statistics. -/
def SpoolStats.give (stats : SpoolStats) (size : ℤ) : SpoolStats :=
  { stats with dataSize := if stats.dataSize < size then 0 else stats.dataSize - size }

/-- The end of `despool_data`, with its result. When it failed the caller returns false,
but a commit closes the file in both cases. -/
def endDespool (s : State n) (d : Fin n) (next : AfterDespool) (ok : Bool) : State n :=
  let dcr := s.dcr d
  let phase := match next with
    | .account wlen => if ok then .despooled wlen else .ready
    | .retry wlen => if ok then .writing wlen true else .ready
    | .close => .committed
  { s.setDcr d { dcr with jobSpoolSize := 0, spooling := true, despooling := false, phase } with
    spoolSize := s.spoolSize - dcr.jobSpoolSize
    spoolStats := s.spoolStats.give dcr.jobSpoolSize }

/-- `close_data_spool_file`. -/
def closeDataSpoolFile (s : State n) (d : Fin n) : State n :=
  let dcr := s.dcr d
  let stats := { s.spoolStats with
    dataJobs := s.spoolStats.dataJobs - 1, totalDataJobs := s.spoolStats.totalDataJobs + 1 }
  { s.setDcr d { dcr with jobSpoolSize := 0, spooling := false, phase := .closed } with
    spoolStats := stats.give dcr.jobSpoolSize }

/-- What a job does next, with the outcomes of its reads and writes. -/
inductive Action (n : ℕ) where
  | start (d : Fin n)
  | write (d : Fin n) (wlen : ℤ)
  /-- `size` bytes of the block were written, less than wanted. -/
  | shortWrite (d : Fin n) (size : ℤ)
  | written (d : Fin n)
  | ioError (d : Fin n)
  | commit (d : Fin n)
  | despool (d : Fin n)
  | endDespool (d : Fin n) (ok : Bool)
  | account (d : Fin n)
  /-- `close_data_spool_file`, called at the end of a commit or to discard the data. -/
  | close (d : Fin n)

def State.setPhase (s : State n) (d : Fin n) (phase : Phase) : State n :=
  s.setDcr d { s.dcr d with phase }

/-- One step of one job; an action that is not possible has no result. -/
def step (s : State n) : Action n → Option (State n)
  | .start d => if (s.dcr d).phase = .closed then some (beginDataSpool s d) else none
  | .write d wlen =>
      if (s.dcr d).phase = .ready ∧ writeBlkhdrLength < wlen then some (accountBlock s d wlen)
      else none
  | .shortWrite d size =>
      match (s.dcr d).phase with
      | .writing wlen false =>
          if size = 0 then some (s.setPhase d (.writing wlen true))
          else some (s.setPhase d (.rewound wlen))
      | .writing _ true => some (s.setPhase d .ready)
      | _ => none
  | .written d =>
      match (s.dcr d).phase with
      | .writing _ _ => some (s.setPhase d .ready)
      | _ => none
  | .ioError d =>
      match (s.dcr d).phase with
      | .writing _ _ => some (s.setPhase d .ready)
      | _ => none
  | .commit d => if (s.dcr d).phase = .ready then some (s.setPhase d .committing) else none
  | .despool d =>
      match (s.dcr d).phase with
      | .forced wlen => some (startDespool s d (.account wlen))
      | .rewound wlen => some (startDespool s d (.retry wlen))
      | .committing => some (startDespool s d .close)
      | _ => none
  | .endDespool d ok =>
      match (s.dcr d).phase with
      | .despooling next => some (endDespool s d next ok)
      | _ => none
  | .account d =>
      match (s.dcr d).phase with
      | .despooled wlen => some (accountAgain s d wlen)
      | _ => none
  | .close d =>
      if (s.dcr d).phase = .ready ∨ (s.dcr d).phase = .committed then
        some (closeDataSpoolFile s d)
      else none

def Step (s : State n) (a : Action n) (t : State n) : Prop := step s a = some t

/-- No job spools. -/
structure Initial (s : State n) : Prop where
  spoolSize : s.spoolSize = 0
  closed : ∀ d, (s.dcr d).phase = .closed ∧ (s.dcr d).jobSpoolSize = 0 ∧
    (s.dcr d).spooling = false ∧ (s.dcr d).despooling = false

/-- The job has a spool file, whether it fills it or empties it. -/
def Dcr.active (dcr : Dcr) : Prop := dcr.spooling = true ∨ dcr.despooling = true

instance (dcr : Dcr) : Decidable dcr.active := inferInstanceAs (Decidable (_ ∨ _))

/-- The size of the device is what its spooling jobs have in their spool files. -/
structure Balanced (s : State n) : Prop where
  sum : s.spoolSize = ∑ d, if (s.dcr d).active then (s.dcr d).jobSpoolSize else 0
  idle : (∀ d, ¬ (s.dcr d).active) → s.spoolSize = 0
  nonneg : 0 ≤ s.spoolSize

/-- The bytes that the device counts but no job. -/
def excess (s : State n) : ℤ := s.spoolSize - ∑ d, (s.dcr d).jobSpoolSize

/-- The block that is accounted again after a forced despooling. -/
def Phase.pending : Phase → Option ℤ
  | .forced wlen => some wlen
  | .despooling (.account wlen) => some wlen
  | .despooled wlen => some wlen
  | _ => none

/-- Sizes are not negative, and a job without spool file has none. -/
structure Dcr.Valid (dcr : Dcr) : Prop where
  nonneg : 0 ≤ dcr.jobSpoolSize
  active : dcr.phase ≠ .closed → dcr.active
  closed : dcr.phase = .closed → dcr.jobSpoolSize = 0
  pending : ∀ wlen, dcr.phase.pending = some wlen → 0 ≤ wlen

/-- What a step takes from a job without taking it from the device. -/
def leak (s : State n) : Action n → ℤ
  | .close d => (s.dcr d).jobSpoolSize
  | _ => 0

/-- A step changes one job, and the device by the same number of bytes, except for what
is leaked. -/
structure Moves (s : State n) (a : Action n) (t : State n) (d : Fin n) (dcr : Dcr) : Prop where
  update : t.dcr = Function.update s.dcr d dcr
  valid : dcr.Valid
  size : t.spoolSize - s.spoolSize = dcr.jobSpoolSize - (s.dcr d).jobSpoolSize + leak s a

theorem moves_setPhase {s : State n} {a : Action n} (d : Fin n) (phase : Phase)
    (valid : ∀ d, (s.dcr d).Valid) (opened : (s.dcr d).phase ≠ .closed) (stays : phase ≠ .closed)
    (pending : phase.pending = none) (quiet : leak s a = 0) :
    Moves s a (s.setPhase d phase) d { s.dcr d with phase } where
  update := rfl
  valid := ⟨(valid d).nonneg, fun _ => (valid d).active opened, fun h => absurd h stays,
    fun wlen h => by rw [pending] at h; cases h⟩
  size := by simp [quiet, State.setPhase, State.setDcr]

theorem moves_accountBlock {s : State n} {d : Fin n} {wlen : ℤ} (valid : ∀ d, (s.dcr d).Valid)
    (ready : (s.dcr d).phase = .ready) (long : writeBlkhdrLength < wlen) :
    ∃ dcr, Moves s (.write d wlen) (accountBlock s d wlen) d dcr := by
  have nonneg := (valid d).nonneg
  have active := (valid d).active (by rw [ready]; decide)
  unfold writeBlkhdrLength at long
  refine ⟨_, rfl, ⟨?_, ?_, ?_, ?_⟩, ?_⟩
  · simp only [hlen]
    omega
  · intro _
    exact active
  · intro closed
    simp only at closed
    split at closed <;> cases closed
  · intro len pending
    simp only at pending
    split at pending
    · cases pending
      omega
    · cases pending
  · simp only [accountBlock, leak]
    ring

theorem moves_endDespool {s : State n} {d : Fin n} {next : AfterDespool} (ok : Bool)
    (valid : ∀ d, (s.dcr d).Valid) (despools : (s.dcr d).phase = .despooling next) :
    ∃ dcr, Moves s (.endDespool d ok) (endDespool s d next ok) d dcr := by
  have pending := (valid d).pending
  rw [despools] at pending
  refine ⟨_, rfl, ⟨le_refl 0, ?_, ?_, ?_⟩, ?_⟩
  · intro _
    exact Or.inl rfl
  · intro _
    rfl
  · intro len
    cases next with
    | account wlen =>
        cases ok
        · intro h; cases h
        · exact pending len
    | retry wlen => cases ok <;> (intro h; cases h)
    | close => intro h; cases h
  · simp only [endDespool, leak]
    ring

theorem step_moves {s t : State n} {a : Action n} (valid : ∀ d, (s.dcr d).Valid)
    (h : Step s a t) : ∃ d dcr, Moves s a t d dcr := by
  unfold Step at h
  cases a with
  | start d =>
      simp only [step, Option.ite_none_right_eq_some, Option.some_inj] at h
      obtain ⟨closed, rfl⟩ := h
      refine ⟨d, _, rfl, ⟨(valid d).nonneg, fun _ => Or.inl rfl, fun h => (by cases h),
        fun wlen h => (by cases h)⟩, ?_⟩
      simp [beginDataSpool, State.setDcr, leak]
  | write d wlen =>
      simp only [step, Option.ite_none_right_eq_some, Option.some_inj] at h
      obtain ⟨⟨ready, long⟩, rfl⟩ := h
      exact ⟨d, moves_accountBlock valid ready long⟩
  | shortWrite d size =>
      simp only [step] at h
      split at h
      · rename_i wlen phase
        split at h
        · cases h
          exact ⟨d, _, moves_setPhase d _ valid (by rw [phase]; simp) (by simp) rfl rfl⟩
        · cases h
          exact ⟨d, _, moves_setPhase d _ valid (by rw [phase]; simp) (by simp) rfl rfl⟩
      · rename_i wlen phase
        cases h
        exact ⟨d, _, moves_setPhase d _ valid (by rw [phase]; simp) (by simp) rfl rfl⟩
      · cases h
  | written d =>
      simp only [step] at h
      split at h
      · rename_i wlen retried phase
        cases h
        exact ⟨d, _, moves_setPhase d _ valid (by rw [phase]; simp) (by simp) rfl rfl⟩
      · cases h
  | ioError d =>
      simp only [step] at h
      split at h
      · rename_i wlen retried phase
        cases h
        exact ⟨d, _, moves_setPhase d _ valid (by rw [phase]; simp) (by simp) rfl rfl⟩
      · cases h
  | commit d =>
      simp only [step, Option.ite_none_right_eq_some, Option.some_inj] at h
      obtain ⟨ready, rfl⟩ := h
      exact ⟨d, _, moves_setPhase d _ valid (by rw [ready]; simp) (by simp) rfl rfl⟩
  | despool d =>
      have start : ∀ next, (s.dcr d).phase ≠ .closed →
          (∀ wlen, (Phase.despooling next).pending = some wlen → 0 ≤ wlen) →
          Moves s (.despool d) (startDespool s d next) d
            { s.dcr d with spooling := false, despooling := true, phase := .despooling next } := by
        intro next opened pending
        exact ⟨rfl, ⟨(valid d).nonneg, fun _ => Or.inr rfl, fun h => (by cases h), pending⟩,
          by simp [startDespool, State.setDcr, leak]⟩
      have pending := (valid d).pending
      simp only [step] at h
      split at h
      · rename_i wlen phase
        cases h
        exact ⟨d, _, start _ (by rw [phase]; simp) (by rw [phase] at pending; exact pending)⟩
      · rename_i wlen phase
        cases h
        exact ⟨d, _, start _ (by rw [phase]; simp) (fun len h => (by cases h))⟩
      · rename_i phase
        cases h
        exact ⟨d, _, start _ (by rw [phase]; simp) (fun len h => (by cases h))⟩
      · cases h
  | endDespool d ok =>
      simp only [step] at h
      split at h
      · rename_i next phase
        cases h
        exact ⟨d, moves_endDespool ok valid phase⟩
      · cases h
  | account d =>
      simp only [step] at h
      split at h
      · rename_i wlen phase
        cases h
        have nonneg := (valid d).nonneg
        have long := (valid d).pending wlen (by rw [phase]; rfl)
        refine ⟨d, _, rfl, ⟨?_, ?_, fun h => (by cases h), fun len h => (by cases h)⟩, ?_⟩
        · simp only [hlen]
          omega
        · intro _
          exact (valid d).active (by rw [phase]; simp)
        · simp only [accountAgain, leak]
          ring
      · cases h
  | close d =>
      simp only [step, Option.ite_none_right_eq_some, Option.some_inj] at h
      obtain ⟨-, rfl⟩ := h
      refine ⟨d, _, rfl, ⟨le_refl 0, fun h => absurd rfl h, fun _ => rfl,
        fun wlen h => (by cases h)⟩, ?_⟩
      simp only [closeDataSpoolFile, State.setDcr, leak]
      ring

theorem Moves.valid_dcr {s t : State n} {a : Action n} {d : Fin n} {dcr : Dcr}
    (moves : Moves s a t d dcr) (valid : ∀ d, (s.dcr d).Valid) : ∀ d, (t.dcr d).Valid := by
  intro e
  rw [moves.update, Function.update_apply]
  split
  · exact moves.valid
  · exact valid e

theorem Moves.excess {s t : State n} {a : Action n} {d : Fin n} {dcr : Dcr}
    (moves : Moves s a t d dcr) : excess t = excess s + leak s a := by
  have sum : ∑ e, (t.dcr e).jobSpoolSize =
      ∑ e, (s.dcr e).jobSpoolSize - (s.dcr d).jobSpoolSize + dcr.jobSpoolSize := by
    rw [moves.update, ← Finset.add_sum_erase Finset.univ _ (Finset.mem_univ d),
      ← Finset.add_sum_erase Finset.univ (fun e => (s.dcr e).jobSpoolSize) (Finset.mem_univ d)]
    have rest : ∑ e ∈ Finset.univ.erase d, (Function.update s.dcr d dcr e).jobSpoolSize =
        ∑ e ∈ Finset.univ.erase d, (s.dcr e).jobSpoolSize := by
      apply Finset.sum_congr rfl
      intro e member
      rw [Function.update_of_ne (Finset.ne_of_mem_erase member)]
    rw [rest, Function.update_self]
    ring
  have size := moves.size
  unfold Spool.excess
  rw [sum]
  linarith

/-- A counter of the device that agrees with its jobs has no excess. -/
theorem balanced_iff_excess {s : State n} (valid : ∀ d, (s.dcr d).Valid) :
    Balanced s ↔ excess s = 0 := by
  have same : ∑ d, (if (s.dcr d).active then (s.dcr d).jobSpoolSize else 0) =
      ∑ d, (s.dcr d).jobSpoolSize := by
    apply Finset.sum_congr rfl
    intro d _
    by_cases active : (s.dcr d).active
    · rw [if_pos active]
    · rw [if_neg active, (valid d).closed]
      by_contra opened
      exact active ((valid d).active opened)
  unfold excess
  constructor
  · intro balanced
    rw [balanced.sum, same, sub_self]
  · intro none
    have sum : s.spoolSize = ∑ d, if (s.dcr d).active then (s.dcr d).jobSpoolSize else 0 := by
      rw [same]
      linarith
    refine ⟨sum, ?_, ?_⟩
    · intro idle
      rw [sum]
      apply Finset.sum_eq_zero
      intro d _
      rw [if_neg (idle d)]
    · rw [sum, same]
      exact Finset.sum_nonneg fun d _ => (valid d).nonneg

theorem leak_nonneg {s : State n} (valid : ∀ d, (s.dcr d).Valid) (a : Action n) :
    0 ≤ leak s a := by
  cases a with
  | close d => exact (valid d).nonneg
  | _ => exact le_refl 0

/-- Every close on the way finds the job without spooled bytes. -/
def ClosesEmpty (s : State n) (acts : List (Action n)) : Prop :=
  ∀ before d after u, acts = before ++ .close d :: after → Run Step s before u →
    (u.dcr d).jobSpoolSize = 0

theorem closesEmpty_cons_iff {s s' : State n} {a : Action n} {acts : List (Action n)}
    (first : Step s a s') :
    ClosesEmpty s (a :: acts) ↔ leak s a = 0 ∧ ClosesEmpty s' acts := by
  constructor
  · intro empty
    constructor
    · cases a with
      | close d => exact empty [] d acts s rfl (.nil s)
      | _ => rfl
    · intro before d after u parts run
      exact empty (a :: before) d after u (by rw [parts]; rfl) (.cons first run)
  · rintro ⟨none, rest⟩ before d after u parts run
    cases run with
    | nil =>
        cases parts
        exact none
    | cons first' run =>
        rw [List.cons_append, List.cons.injEq] at parts
        obtain ⟨rfl, parts⟩ := parts
        obtain rfl : s' = _ := Option.some_inj.mp (first.symm.trans first')
        exact rest _ d after u parts run

theorem run_excess {s t : State n} {acts : List (Action n)} (run : Run Step s acts t)
    (valid : ∀ d, (s.dcr d).Valid) :
    (∀ d, (t.dcr d).Valid) ∧ excess s ≤ excess t ∧
      (excess t = excess s ↔ ClosesEmpty s acts) := by
  induction run with
  | nil s =>
      refine ⟨valid, le_refl _, ?_⟩
      simp [ClosesEmpty]
  | @cons s s' t a acts first rest ih =>
      obtain ⟨d, dcr, moves⟩ := step_moves valid first
      obtain ⟨validT, grows, same⟩ := ih (moves.valid_dcr valid)
      have given := leak_nonneg valid a
      have here := moves.excess
      refine ⟨validT, by linarith, ?_⟩
      rw [closesEmpty_cons_iff first, ← same]
      constructor
      · intro equal
        constructor <;> linarith
      · rintro ⟨none, equal⟩
        linarith

theorem Initial.valid {s : State n} (init : Initial s) (d : Fin n) : (s.dcr d).Valid := by
  obtain ⟨closed, size, -⟩ := init.closed d
  exact ⟨by rw [size], fun opened => absurd closed opened, fun _ => size,
    fun wlen pending => by rw [closed] at pending; cases pending⟩

/-- In the state that a run reaches the size of the device is the sum of the sizes of its
jobs exactly when no spool file was closed with bytes in it. -/
theorem balanced_iff_closesEmpty {s t : State n} {acts : List (Action n)} (init : Initial s)
    (run : Run Step s acts t) : Balanced t ↔ ClosesEmpty s acts := by
  obtain ⟨valid, -, same⟩ := run_excess run init.valid
  have start : excess s = 0 := by
    unfold excess
    rw [init.spoolSize, Finset.sum_eq_zero fun d _ => (init.closed d).2.1, sub_self]
  rw [balanced_iff_excess valid, ← same, start]

def idleState : State 1 := { dcr := fun _ => {} }

theorem initial_idleState : Initial idleState := ⟨rfl, fun _ => ⟨rfl, rfl, rfl, rfl⟩⟩

theorem balanced_iff_closesEmpty_commit : ∃ acts t, Run Step idleState acts t ∧
    (Balanced t ↔ ClosesEmpty idleState acts) := by
  obtain ⟨t, run⟩ : ∃ t, Run Step idleState [.start 0, .write 0 100, .written 0, .commit 0, .despool 0,
      .endDespool 0 true, .close 0] t := by
    refine ⟨?last, ?run⟩
    case run =>
      refine .cons rfl ?_
      refine .cons rfl ?_
      refine .cons rfl ?_
      refine .cons rfl ?_
      refine .cons rfl ?_
      refine .cons rfl ?_
      refine .cons rfl ?_
      exact .nil _
  exact ⟨_, t, run, balanced_iff_closesEmpty initial_idleState run⟩

/-- The data of a failed job is discarded, and the device keeps its 116 bytes. -/
theorem discard_unbalanced : ∃ acts t, Run Step idleState acts t ∧ ¬ Balanced t := by
  refine ⟨[.start 0, .write 0 100, .ioError 0, .close 0], ?last, ?run, ?unbalanced⟩
  case run =>
    refine .cons rfl ?_
    refine .cons rfl ?_
    refine .cons rfl ?_
    refine .cons rfl ?_
    exact .nil _
  case unbalanced =>
    intro balanced
    have idle := balanced.idle (by decide)
    revert idle
    decide

end Bacula.Spool
