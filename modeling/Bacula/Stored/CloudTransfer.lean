import Bacula.Library.Ledger

/-! Transfers of `stored/cloud_transfer_mgr.c`, the statistics that their manager keeps, and the
engines of `stored/cloud_dev.c` that process downloads. The statistics are integers; the code's are
those modulo 2^64. -/
namespace Bacula.CloudTransfer
open Ledger

inductive TransferState where
  | created
  | queued
  | processed
  | done
  | error
  deriving DecidableEq, Repr

/-- `m_funct`. -/
inductive Engine where
  | download
  | wait
  deriving DecidableEq, Repr

structure Transfer where
  size : ℕ
  state : TransferState
  funct : Engine
  waitTimeoutIncInsec : ℤ
  waitTimeout : ℤ
  deriving DecidableEq, Repr

/-- The constructor, for a download. -/
def transfer (size : ℕ) (now : ℤ) : Transfer := ⟨size, .created, .download, 0, now⟩

/-! ## Statistics -/

inductive Stat where
  | queued
  | waiting
  | processed
  | done
  | error
  deriving DecidableEq, Repr

/-- `m_stat_nb_transfer_` and `m_stat_size_`. -/
inductive Quantity where
  | nbTransfer
  | size
  deriving DecidableEq, Repr

abbrev Stats := Stat × Quantity → ℤ

def Stats.add (m : Stats) (stat : Stat) (size : ℕ) : Stats :=
  inc (inc m (stat, .nbTransfer) 1) (stat, .size) size

def Stats.remove (m : Stats) (stat : Stat) (size : ℕ) : Stats :=
  inc (inc m (stat, .nbTransfer) (-1)) (stat, .size) (-size)

/-- The queued state, or the pseudo-waiting one. -/
def Transfer.queuedStat (t : Transfer) : Stat := if t.waitTimeoutIncInsec = 0 then .queued else .waiting

/-- `transition`, and whether it is a valid one. -/
def transition (m : Stats) (t : Transfer) (state : TransferState) : Stats × Transfer × Bool :=
  match t.state, state with
  | .created, .queued => (m.add t.queuedStat t.size, { t with state := state }, true)
  | .queued, .created => (m.remove t.queuedStat t.size, { t with state := state }, true)
  | .queued, .processed =>
      ((m.remove t.queuedStat t.size).add .processed t.size, { t with state := state }, true)
  | .processed,
      .done => ((m.remove .processed t.size).add .done t.size, { t with state := state }, true)
  | .processed,
      .error => ((m.remove .processed t.size).add .error t.size, { t with state := state }, true)
  | .processed, .queued =>
      ((m.remove .processed t.size).add t.queuedStat t.size, { t with state := state }, true)
  | _, _ => (m, t, false)

/-! ## Engines -/

def WAIT_TIMEOUT_INC_INSEC : ℤ := 60

def MAX_WAIT_TIMEOUT_INC_INSEC : ℤ := 300

/-- What `copy_cloud_part_to_cache` returns. -/
inductive CopyPartToCache where
  | ok
  | error
  | retry
  deriving DecidableEq, Repr

/-- What an engine gets from the driver, the file system and the clock. -/
structure Outcome where
  copied : CopyPartToCache
  renamed : Bool
  waitingOnServer : Bool
  now : ℤ
  later : ℤ
  deriving DecidableEq, Repr

def downloadEngine (o : Outcome) (t : Transfer) : Transfer × TransferState :=
  match o.copied with
  | .ok => if o.renamed then (t, .done) else (t, .error)
  | .error => (t, .error)
  | .retry =>
      ({ t with
          waitTimeoutIncInsec := WAIT_TIMEOUT_INC_INSEC
          waitTimeout := o.later + WAIT_TIMEOUT_INC_INSEC
          funct := .wait }, .queued)

/-- The next waiting time. -/
def longerWait (insec : ℤ) : ℤ :=
  if insec < MAX_WAIT_TIMEOUT_INC_INSEC then
    if insec + WAIT_TIMEOUT_INC_INSEC > MAX_WAIT_TIMEOUT_INC_INSEC then MAX_WAIT_TIMEOUT_INC_INSEC
    else insec + WAIT_TIMEOUT_INC_INSEC
  else insec

def waitEngine (o : Outcome) (t : Transfer) : Transfer × TransferState :=
  if o.now < t.waitTimeout then (t, .queued)
  else if o.waitingOnServer then
    ({ t with
        waitTimeoutIncInsec := longerWait t.waitTimeoutIncInsec
        waitTimeout := o.later + longerWait t.waitTimeoutIncInsec }, .queued)
  else ({ t with waitTimeoutIncInsec := 0, funct := .download }, .queued)

def Engine.run : Engine → Outcome → Transfer → Transfer × TransferState
  | .download => downloadEngine
  | .wait => waitEngine

/-! ## Runs -/

/-- How far a worker is in `proceed`. -/
inductive Worker where
  | acquired (transfer : ℕ)
  | processing (transfer : ℕ) (engine : Engine)
  | returned (transfer : ℕ) (state : TransferState)
  | finished
  deriving DecidableEq, Repr

structure System where
  transfers : List Transfer
  stats : Stats
  workers : List Worker

/-- `get_xfer` has created a transfer, somebody queues or cancels one, a worker takes one, or a worker
that has taken one goes on. -/
inductive Step where
  | create (size : ℕ) (now : ℤ)
  | queue (transfer : ℕ)
  | cancel (transfer : ℕ)
  | proceed (transfer : ℕ)
  | work (worker : ℕ) (outcome : Outcome)
  deriving DecidableEq, Repr

def System.transition (s : System) (i : ℕ) (state : TransferState) : System × Bool :=
  match s.transfers[i]? with
  | none => (s, false)
  | some t =>
      let (stats, t, ret) := CloudTransfer.transition s.stats t state
      ({ s with transfers := s.transfers.set i t, stats := stats }, ret)

def System.work (s : System) (w : ℕ) (o : Outcome) : System :=
  match s.workers[w]? with
  | some (.acquired i) =>
      match s.transfers[i]? with
      | none => s
      | some t => { s with workers := s.workers.set w (.processing i t.funct) }
  | some (.processing i engine) =>
      match s.transfers[i]? with
      | none => s
      | some t =>
          { s with
            transfers := s.transfers.set i (engine.run o t).1
            workers := s.workers.set w (.returned i (engine.run o t).2) }
  | some (.returned i state) =>
      let s := (s.transition i state).1
      { s with workers := s.workers.set w .finished }
  | _ => s

def step (s : System) : Step → System
  | .create size now => { s with transfers := s.transfers ++ [transfer size now] }
  | .queue i => (s.transition i .queued).1
  | .cancel i => (s.transition i .created).1
  | .proceed i =>
      let (s, ret) := s.transition i .processed
      if ret then { s with workers := s.workers ++ [.acquired i] } else s
  | .work w outcome => s.work w outcome

def init : System := ⟨[], 0, []⟩

/-! ## The accounts -/

/-- The statistics that a transfer is counted in. -/
def Transfer.stat (t : Transfer) : Option Stat :=
  match t.state with
  | .created => none
  | .queued => some t.queuedStat
  | .processed => some .processed
  | .done => some .done
  | .error => some .error

def System.inStat (s : System) (stat : Stat) : List Transfer :=
  s.transfers.filter fun t => t.stat = some stat

structure Accounted (s : System) : Prop where
  nbTransfer : ∀ stat, s.stats (stat, .nbTransfer) = (s.inStat stat).length
  size : ∀ stat, s.stats (stat, .size) = ((s.inStat stat).map Transfer.size).sum
  nonneg : ∀ stat quantity, 0 ≤ s.stats (stat, quantity)

/-- The accounts are right after every step. -/
def Kept (s : System) : List Step → Prop
  | [] => Accounted s
  | a :: steps => Accounted s ∧ Kept (step s a) steps

/-- The call does not take a transfer that is queued from one of its two statistics to the other. -/
def Engine.Keeps (o : Outcome) (t : Transfer) : Engine → Prop
  | .download => o.copied = .retry → t.waitTimeoutIncInsec ≠ 0
  | .wait => t.waitTimeout ≤ o.now → (o.waitingOnServer = true ↔ t.waitTimeoutIncInsec ≠ 0)

/-- No worker runs the engine of a transfer that has been queued again, unless the call keeps it where
it is counted. -/
def Meets (s : System) : Step → Prop
  | .work w o => ∀ i engine t, s.workers[w]? = some (.processing i engine) → s.transfers[i]? = some t →
      t.state = .queued → engine.Keeps o t
  | _ => True

def AllMeet (s : System) : List Step → Prop
  | [] => True
  | a :: steps => Meets s a ∧ AllMeet (step s a) steps

end Bacula.CloudTransfer
