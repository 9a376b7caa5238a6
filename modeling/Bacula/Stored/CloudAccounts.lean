import Bacula.Stored.CloudTransfer

/-! A transition moves what a transfer is counted as, so the statistics stay the sum over the transfers
as long as nothing else moves it. -/
namespace Bacula.CloudTransfer
open Ledger

/-- One transfer in the statistics. -/
def counted (stat : Stat) (size : ℕ) : Stats := Stats.add 0 stat size

/-- What a transfer adds to the statistics. -/
def Transfer.holds (t : Transfer) : Stats := t.stat.elim 0 fun stat => counted stat t.size

theorem add_eq (m : Stats) (stat : Stat) (size : ℕ) : m.add stat size = m + counted stat size := by
  funext r
  simp only [counted, Stats.add, inc_apply, Pi.add_apply, Pi.zero_apply]
  omega

theorem remove_eq (m : Stats) (stat : Stat) (size : ℕ) :
    m.remove stat size = m - counted stat size := by
  funext r
  simp only [counted, Stats.add, Stats.remove, inc_apply, Pi.sub_apply, Pi.zero_apply]
  split <;> split <;> omega

theorem counted_nbTransfer (held stat : Stat) (size : ℕ) :
    counted held size (stat, .nbTransfer) = if held = stat then 1 else 0 := by
  rw [counted, Stats.add, inc_apply, inc_apply]
  simp [eq_comm]

theorem counted_size (held stat : Stat) (size : ℕ) :
    counted held size (stat, .size) = if held = stat then (size : ℤ) else 0 := by
  rw [counted, Stats.add, inc_apply, inc_apply]
  simp [eq_comm]

theorem holds_nbTransfer (t : Transfer) (stat : Stat) :
    t.holds (stat, .nbTransfer) = if t.stat = some stat then 1 else 0 := by
  rw [Transfer.holds]
  cases here : t.stat with
  | none => rfl
  | some held => simp only [Option.elim_some, counted_nbTransfer, Option.some_inj]

theorem holds_size (t : Transfer) (stat : Stat) :
    t.holds (stat, .size) = if t.stat = some stat then (t.size : ℤ) else 0 := by
  rw [Transfer.holds]
  cases here : t.stat with
  | none => rfl
  | some held => simp only [Option.elim_some, counted_size, Option.some_inj]

theorem total_nbTransfer (transfers : List Transfer) (stat : Stat) :
    total Transfer.holds transfers (stat, .nbTransfer) =
      (transfers.filter fun t => t.stat = some stat).length := by
  induction transfers with
  | nil => rfl
  | cons t rest ih =>
      rw [total_cons, Pi.add_apply, holds_nbTransfer, ih, List.filter_cons]
      split <;> simp_all [add_comm]

theorem total_size (transfers : List Transfer) (stat : Stat) :
    total Transfer.holds transfers (stat, .size) =
      (((transfers.filter fun t => t.stat = some stat).map Transfer.size).sum : ℕ) := by
  induction transfers with
  | nil => rfl
  | cons t rest ih =>
      rw [total_cons, Pi.add_apply, holds_size, ih, List.filter_cons]
      split <;> simp_all

theorem accounted_iff (s : System) : Accounted s ↔ s.stats = total Transfer.holds s.transfers := by
  constructor
  · intro accounted
    funext ⟨stat, quantity⟩
    cases quantity with
    | nbTransfer => rw [accounted.nbTransfer, total_nbTransfer]; rfl
    | size => rw [accounted.size, total_size]; rfl
  · intro sums
    refine ⟨fun stat => ?_, fun stat => ?_, fun stat quantity => ?_⟩
    · rw [sums, total_nbTransfer]; rfl
    · rw [sums, total_size]; rfl
    · rw [sums]
      refine total_nonneg (fun t => ?_) s.transfers
      cases quantity with
      | nbTransfer => rw [holds_nbTransfer]; split <;> omega
      | size => rw [holds_size]; split <;> omega

/-! ## Transitions -/

/-- A transition takes the transfer out of where it was counted, and puts it where it is counted
then. -/
theorem transition_stats (m : Stats) (t : Transfer) (state : TransferState) :
    (transition m t state).1 = m - t.holds + (transition m t state).2.1.holds := by
  rcases t with ⟨size, old, funct, insec, timeout⟩
  cases old <;> cases state <;>
    simp only [transition, Transfer.holds, Transfer.stat, add_eq, remove_eq, Option.elim_none,
      Option.elim_some, sub_zero, add_zero, sub_add_cancel] <;> rfl

theorem transition_insec (m : Stats) (t : Transfer) (state : TransferState) :
    (transition m t state).2.1.waitTimeoutIncInsec = t.waitTimeoutIncInsec := by
  rcases t with ⟨size, old, funct, insec, timeout⟩
  cases old <;> cases state <;> rfl

/-! ## Steps -/

/-- The waiting times are times. -/
def Waits (s : System) : Prop := ∀ t ∈ s.transfers, 0 ≤ t.waitTimeoutIncInsec

theorem System.transition_accounted {s : System} (i : ℕ) (state : TransferState) :
    Accounted (s.transition i state).1 ↔ Accounted s := by
  unfold System.transition
  split
  case _ none => exact Iff.rfl
  case _ t here =>
    rw [accounted_iff, accounted_iff]
    dsimp only
    rw [transition_stats, total_set here]
    exact ⟨fun sums => sub_left_inj.mp (add_right_cancel sums), fun sums => by rw [sums]⟩

theorem System.transition_waits {s : System} (waits : Waits s) (i : ℕ) (state : TransferState) :
    Waits (s.transition i state).1 := by
  unfold System.transition
  split
  case _ none => exact waits
  case _ t here =>
    intro t' there
    rcases List.mem_or_eq_of_mem_set there with old | rfl
    · exact waits t' old
    · rw [transition_insec]
      exact waits t (List.mem_of_getElem? here)

theorem longerWait_pos {insec : ℤ} (wait : 0 ≤ insec) : 0 < longerWait insec := by
  unfold longerWait MAX_WAIT_TIMEOUT_INC_INSEC WAIT_TIMEOUT_INC_INSEC
  split_ifs <;> omega

/-- A call of an engine changes neither the state nor the size. -/
theorem Engine.run_stat (engine : Engine) (o : Outcome) {t : Transfer}
    (wait : 0 ≤ t.waitTimeoutIncInsec) :
    (engine.run o t).1.state = t.state ∧ (engine.run o t).1.size = t.size ∧
      0 ≤ (engine.run o t).1.waitTimeoutIncInsec ∧
      ((engine.run o t).1.queuedStat = t.queuedStat ↔ engine.Keeps o t) := by
  have longer := longerWait_pos wait
  cases engine with
  | download =>
      unfold Engine.run downloadEngine Engine.Keeps
      dsimp only
      split
      case _ ok => split <;> simp [ok, wait]
      case _ failed => simp [failed, wait]
      case _ retry =>
        have positive : (0 : ℤ) ≤ WAIT_TIMEOUT_INC_INSEC := by decide
        refine ⟨rfl, rfl, positive, ?_⟩
        simp [retry, Transfer.queuedStat, WAIT_TIMEOUT_INC_INSEC]
  | wait =>
      unfold Engine.run waitEngine Engine.Keeps
      dsimp only
      split_ifs with early server
      · refine ⟨rfl, rfl, wait, ?_⟩
        simp [early]
      · refine ⟨rfl, rfl, le_of_lt longer, ?_⟩
        simp [not_lt.mp early, server, Transfer.queuedStat, ne_of_gt longer]
      · refine ⟨rfl, rfl, le_refl 0, ?_⟩
        simp [not_lt.mp early, server, Transfer.queuedStat]

theorem holds_eq_iff {t t' : Transfer} (state : t'.state = t.state) (size : t'.size = t.size) :
    t'.holds = t.holds ↔ (t.state = .queued → t'.queuedStat = t.queuedStat) := by
  have counted_as (t : Transfer) (queued : t.state = .queued) : t.stat = some t.queuedStat := by
    rw [Transfer.stat, queued]
  constructor
  · intro same queued
    have here := congrFun same (t.queuedStat, .nbTransfer)
    rw [holds_nbTransfer, holds_nbTransfer, counted_as t queued, counted_as t' (state.trans queued),
      if_pos rfl] at here
    by_contra moved
    rw [if_neg fun same => moved (Option.some_inj.mp same)] at here
    cases here
  · intro kept
    have stat : t'.stat = t.stat := by
      by_cases queued : t.state = .queued
      · rw [counted_as t queued, counted_as t' (state.trans queued), kept queued]
      · rw [Transfer.stat, Transfer.stat, state]
        split <;> first | rfl | exact absurd ‹_› queued
    rw [Transfer.holds, Transfer.holds, stat, size]

theorem accounted_workers (s : System) (workers : List Worker) :
    Accounted { s with workers := workers } ↔ Accounted s := by
  rw [accounted_iff, accounted_iff]

theorem System.work_accounted {s : System} (accounted : Accounted s) (waits : Waits s) (w : ℕ)
    (o : Outcome) :
    Accounted (s.work w o) ↔ Meets s (.work w o) := by
  unfold System.work
  simp only [Meets]
  split
  case _ i acquired =>
    rw [acquired]
    split <;> simp [accounted, accounted_workers]
  case _ i engine processing =>
    rw [processing]
    split
    case _ none =>
      refine iff_of_true accounted ?_
      rintro _ _ t ⟨rfl, rfl⟩ here
      cases none.symm.trans here
    case _ t here =>
      obtain ⟨state, size, -, keeps⟩ := engine.run_stat o (waits t (List.mem_of_getElem? here))
      have sums := (accounted_iff s).mp accounted
      rw [accounted_iff]
      dsimp only
      rw [total_set here, sums]
      constructor
      · rintro moved _ _ _ ⟨rfl, rfl⟩ here' queued
        obtain rfl := Option.some_inj.mp (here.symm.trans here')
        exact keeps.mp
          ((holds_eq_iff state size).mp (sub_eq_zero.mp (by linear_combination -moved)) queued)
      · intro meets
        rw [(holds_eq_iff state size).mpr fun queued => keeps.mpr (meets _ _ _ rfl here queued)]
        abel
  case _ i state returned =>
    rw [returned]
    have moved := (System.transition_accounted i state).mpr accounted
    exact iff_of_true ((accounted_workers _ _).mpr moved) (by simp)
  case _ => simp_all

theorem step_accounted {s : System} (accounted : Accounted s) (waits : Waits s) (a : Step) :
    Accounted (step s a) ↔ Meets s a := by
  cases a with
  | create size now =>
      refine iff_of_true ?_ trivial
      have none : (transfer size now).holds = 0 := rfl
      rw [accounted_iff, step, total_append, total_cons, total_nil, none]
      rw [accounted_iff] at accounted
      rw [accounted, add_zero, add_zero]
  | queue i => exact iff_of_true ((System.transition_accounted i _).mpr accounted) trivial
  | cancel i => exact iff_of_true ((System.transition_accounted i _).mpr accounted) trivial
  | proceed i =>
      refine iff_of_true ?_ trivial
      have moved := (System.transition_accounted i .processed).mpr accounted
      rw [step]
      dsimp only
      split
      · exact (accounted_workers _ _).mpr moved
      · exact moved
  | work w o => exact System.work_accounted accounted waits w o

theorem step_waits {s : System} (waits : Waits s) (a : Step) : Waits (step s a) := by
  cases a with
  | create size now =>
      intro t there
      rcases List.mem_append.mp there with old | new
      · exact waits t old
      · rw [List.mem_singleton.mp new]
        exact le_refl 0
  | queue i => exact System.transition_waits waits i _
  | cancel i => exact System.transition_waits waits i _
  | proceed i =>
      have moved := System.transition_waits waits i .processed
      rw [step]
      dsimp only
      split <;> exact moved
  | work w o =>
      rw [step, System.work]
      split
      case _ i acquired => split <;> exact waits
      case _ i engine processing =>
        split
        case _ none => exact waits
        case _ t here =>
          intro t' there
          rcases List.mem_or_eq_of_mem_set there with old | rfl
          · exact waits t' old
          · exact (engine.run_stat o (waits t (List.mem_of_getElem? here))).2.2.1
      case _ i state returned => exact System.transition_waits waits i state
      case _ => exact waits

/-! ## The law of the accounts -/

theorem kept_iff_of_accounted {s : System} (accounted : Accounted s) (waits : Waits s)
    (steps : List Step) :
    Kept s steps ↔ AllMeet s steps := by
  induction steps generalizing s with
  | nil => exact iff_of_true accounted trivial
  | cons a steps ih =>
      constructor
      · rintro ⟨-, kept⟩
        have next : Accounted (step s a) := by
          cases steps with
          | nil => exact kept
          | cons => exact kept.1
        exact ⟨(step_accounted accounted waits a).mp next, (ih next (step_waits waits a)).mp kept⟩
      · rintro ⟨meets, rest⟩
        have next := (step_accounted accounted waits a).mpr meets
        exact ⟨accounted, (ih next (step_waits waits a)).mpr rest⟩

theorem init_accounted : Accounted init := (accounted_iff init).mpr rfl

theorem kept_iff_allMeet (steps : List Step) : Kept init steps ↔ AllMeet init steps :=
  kept_iff_of_accounted init_accounted (fun _ there => absurd there List.not_mem_nil) steps

/-- A second job queues a download that is being processed, and the download has to be retried. -/
theorem queued_again_miscounts :
    ¬ Kept init [.create 10 0, .queue 0, .proceed 0, .work 0 ⟨.retry, true, true, 0, 0⟩, .queue 0,
      .work 0 ⟨.retry, true, true, 0, 0⟩, .proceed 0] := by
  intro kept
  obtain ⟨-, -, -, -, -, meets, -⟩ :=
    (kept_iff_of_accounted init_accounted (fun _ there => absurd there List.not_mem_nil) _).mp kept
  exact meets 0 .download _ rfl rfl rfl rfl rfl

end Bacula.CloudTransfer
