import Bacula.Lib.Rwlock

/-! What holds of the read/write lock in every state that the threads can reach: who has it, what
the counters count, and that no waiting thread is forgotten. -/
namespace Bacula.Rwlock
open Tally

variable {τ : Type} [Fintype τ]

def Thread.waits (cond : Cond) (thread : Thread) : ℤ :=
  match thread.phase with
  | .running => 0
  | .waiting cond' _ => if cond' = cond then 1 else 0

def Thread.readHolds (thread : Thread) : ℤ := thread.reads

def Thread.writeHolds (thread : Thread) : ℤ := thread.writes

/-- The counters, and who has the lock. -/
structure Counted (s : State τ) : Prop where
  rActive : s.rwl.rActive = total Thread.readHolds s.threads
  wActive : s.rwl.wActive = total Thread.writeHolds s.threads
  rWait : s.rwl.rWait = total (Thread.waits .read) s.threads
  wWait : s.rwl.wWait = total (Thread.waits .write) s.threads
  owner : ∀ t, 0 < (s.threads t).writes → s.rwl.writerId = some t
  exclusive : s.rwl.wActive ≠ 0 → s.rwl.rActive = 0

/-- No reader sleeps while nobody writes, and the writers that sleep beside a free lock are behind a
reader that the last release woke. -/
structure Sound (s : State τ) : Prop extends Counted s where
  readersWoken : s.rwl.wActive = 0 → ∀ t, (s.threads t).phase ≠ .waiting .read false
  writersNext : s.rwl.wActive = 0 → s.rwl.rActive = 0 →
    (∃ t, (s.threads t).phase = .waiting .write false) →
      .read ∈ s.issued ∧ ∃ t, (s.threads t).phase = .waiting .read true

theorem waits_nonneg (cond : Cond) (thread : Thread) : 0 ≤ thread.waits cond := by
  rw [Thread.waits]
  split
  · exact le_refl _
  · split <;> decide

theorem readHolds_nonneg (thread : Thread) : 0 ≤ thread.readHolds := Int.natCast_nonneg _

theorem writeHolds_nonneg (thread : Thread) : 0 ≤ thread.writeHolds := Int.natCast_nonneg _

@[simp] theorem waits_running (cond : Cond) (reads writes : ℕ) :
    Thread.waits cond ⟨.running, reads, writes⟩ = 0 := rfl

@[simp] theorem waits_waiting (cond cond' : Cond) (woken : Bool) (reads writes : ℕ) :
    Thread.waits cond ⟨.waiting cond' woken, reads, writes⟩ = if cond' = cond then 1 else 0 := rfl

variable {s : State τ}

theorem Counted.rActive_nonneg (sound : Counted s) : 0 ≤ s.rwl.rActive :=
  sound.rActive ▸ total_nonneg readHolds_nonneg

theorem Counted.wActive_nonneg (sound : Counted s) : 0 ≤ s.rwl.wActive :=
  sound.wActive ▸ total_nonneg writeHolds_nonneg

/-- Nobody has what no counter counts. -/
theorem Counted.noReads (sound : Counted s) (none : s.rwl.rActive = 0) (t : τ) :
    (s.threads t).reads = 0 :=
  Int.natCast_eq_zero.mp ((total_eq_zero_iff readHolds_nonneg).mp (sound.rActive.symm.trans none) t)

theorem Counted.noWrites (sound : Counted s) (none : s.rwl.wActive = 0) (t : τ) :
    (s.threads t).writes = 0 :=
  Int.natCast_eq_zero.mp ((total_eq_zero_iff writeHolds_nonneg).mp (sound.wActive.symm.trans none) t)

/-! ## Sections that take the lock -/

theorem rwlInit_sound : Sound (rwlInit : State τ) where
  rActive := ((total_eq_zero_iff readHolds_nonneg).mpr fun _ => rfl).symm
  wActive := ((total_eq_zero_iff writeHolds_nonneg).mpr fun _ => rfl).symm
  rWait := ((total_eq_zero_iff (waits_nonneg _)).mpr fun _ => rfl).symm
  wWait := ((total_eq_zero_iff (waits_nonneg _)).mpr fun _ => rfl).symm
  owner t has := absurd has (lt_irrefl 0)
  exclusive active := absurd rfl active
  readersWoken _ t waits := by cases waits
  writersNext _ _ waits := by
    obtain ⟨t, waits⟩ := waits
    cases waits

variable [DecidableEq τ] {t : τ}

theorem gotRead_sound (sound : Sound s) (free : s.rwl.wActive = 0) {v : ℤ}
    (waits : (s.threads t).waits .read = v) (noWriter : (s.threads t).waits .write = 0) :
    Sound (gotRead { s with rwl := { s.rwl with rWait := s.rwl.rWait - v } } t) where
  rActive := by
    have := sound.rActive
    simp only [gotRead, State.put, total_update, Thread.readHolds]
    push_cast
    omega
  wActive := by
    have := sound.wActive
    simp only [gotRead, State.put, total_update, Thread.writeHolds]
    omega
  rWait := by
    have := sound.rWait
    simp only [gotRead, State.put, total_update, waits, waits_running]
    omega
  wWait := by
    have := sound.wWait
    simp only [gotRead, State.put, total_update, noWriter, waits_running]
    omega
  owner t' has := by
    have none := sound.noWrites free
    simp only [gotRead, State.put, Function.update_apply] at has
    split at has <;> simp only [none, lt_irrefl] at has
  exclusive active := absurd free active
  readersWoken _ t' := by
    simp only [gotRead, State.put, Function.update_apply]
    split
    · exact fun waits => by cases waits
    · exact sound.readersWoken free t'
  writersNext _ none := by
    have := sound.rActive_nonneg
    change s.rwl.rActive + 1 = 0 at none
    omega

theorem gotWrite_sound (sound : Sound s) (free : s.rwl.wActive = 0) (noRead : s.rwl.rActive = 0) {v : ℤ}
    (waits : (s.threads t).waits .write = v) (noReader : (s.threads t).waits .read = 0) :
    Sound (gotWrite { s with rwl := { s.rwl with wWait := s.rwl.wWait - v } } t) where
  rActive := by
    have := sound.rActive
    simp only [gotWrite, State.put, total_update, Thread.readHolds]
    omega
  wActive := by
    have := sound.wActive
    simp only [gotWrite, State.put, total_update, Thread.writeHolds]
    push_cast
    omega
  rWait := by
    have := sound.rWait
    simp only [gotWrite, State.put, total_update, noReader, waits_running]
    omega
  wWait := by
    have := sound.wWait
    simp only [gotWrite, State.put, total_update, waits, waits_running]
    omega
  owner t' has := by
    have none := sound.noWrites free
    simp only [gotWrite, State.put, Function.update_apply] at has
    split at has
    case isTrue same => rw [same]; rfl
    case isFalse => simp only [none, lt_irrefl] at has
  exclusive _ := noRead
  readersWoken active := by
    change s.rwl.wActive + 1 = 0 at active
    omega
  writersNext active := by
    change s.rwl.wActive + 1 = 0 at active
    omega

theorem writeAgain_sound (sound : Sound s) (again : nested s t) : Sound (writeAgain s t) where
  rActive := by
    have := sound.rActive
    simp only [writeAgain, State.put, total_update, Thread.readHolds]
    omega
  wActive := by
    have := sound.wActive
    simp only [writeAgain, State.put, total_update, Thread.writeHolds]
    push_cast
    omega
  rWait := by
    have := sound.rWait
    simp only [writeAgain, State.put, total_update, Thread.waits]
    omega
  wWait := by
    have := sound.wWait
    simp only [writeAgain, State.put, total_update, Thread.waits]
    omega
  owner t' has := by
    simp only [writeAgain, State.put, Function.update_apply] at has
    split at has
    case isTrue same => exact same ▸ again.2
    case isFalse => exact sound.owner t' has
  exclusive _ := sound.exclusive again.1
  readersWoken active := by
    have := sound.wActive_nonneg
    change s.rwl.wActive + 1 = 0 at active
    omega
  writersNext active := by
    have := sound.wActive_nonneg
    change s.rwl.wActive + 1 = 0 at active
    omega

/-! ## Sections that end in a wait -/

/-- A thread waits for the lock, and is counted if it was not. -/
theorem wait_sound (sound : Sound s) {c : Cond} {r w : ℤ}
    (waits : (s.threads t).waits .read + r = if c = .read then 1 else 0)
    (waits' : (s.threads t).waits .write + w = if c = .write then 1 else 0)
    (busy : s.rwl.wActive ≠ 0 ∨ c = .write ∧ s.rwl.rActive ≠ 0) :
    Sound ({ s with rwl := { s.rwl with rWait := s.rwl.rWait + r, wWait := s.rwl.wWait + w } }.wait
      t c) where
  rActive := by
    have := sound.rActive
    simp only [State.wait, State.put, total_update, Thread.readHolds]
    omega
  wActive := by
    have := sound.wActive
    simp only [State.wait, State.put, total_update, Thread.writeHolds]
    omega
  rWait := by
    have := sound.rWait
    simp only [State.wait, State.put, total_update, waits_waiting, ← waits]
    omega
  wWait := by
    have := sound.wWait
    simp only [State.wait, State.put, total_update, waits_waiting, ← waits']
    omega
  owner t' has := by
    simp only [State.wait, State.put, Function.update_apply] at has
    split at has
    case isTrue same => exact same ▸ sound.owner t has
    case isFalse => exact sound.owner t' has
  exclusive := sound.exclusive
  readersWoken free t' := by
    obtain ⟨rfl, -⟩ := busy.resolve_left (not_not.mpr free)
    simp only [State.wait, State.put, Function.update_apply]
    split
    · exact fun waits => by cases waits
    · exact sound.readersWoken free t'
  writersNext free none :=
    absurd (busy.resolve_left (not_not.mpr free)).2 (not_not.mpr none)

/-! ## Sections that release the lock -/

theorem wake_waits (cond cond' : Cond) (thread : Thread) :
    (thread.wake cond').waits cond = thread.waits cond := by
  rw [Thread.wake]
  split
  case isTrue waits => rw [Thread.waits, Thread.waits, waits]
  case isFalse => rfl

theorem wake_readHolds (cond : Cond) (thread : Thread) :
    (thread.wake cond).readHolds = thread.readHolds := by
  rw [Thread.wake]
  split <;> rfl

theorem wake_writeHolds (cond : Cond) (thread : Thread) :
    (thread.wake cond).writeHolds = thread.writeHolds := by
  rw [Thread.wake]
  split <;> rfl

/-- Who sleeps after a broadcast slept before, on the other condition. -/
theorem wake_asleep {cond cond' : Cond} {thread : Thread}
    (asleep : (thread.wake cond').phase = .waiting cond false) :
    thread.phase = .waiting cond false ∧ cond ≠ cond' := by
  rw [Thread.wake] at asleep
  split at asleep
  · cases asleep
  case isFalse other => exact ⟨asleep, fun same => other (same ▸ asleep)⟩

theorem wake_awake {cond : Cond} {thread : Thread} (waits : 0 < thread.waits cond) :
    (thread.wake cond).phase = .waiting cond true := by
  rw [Thread.waits] at waits
  split at waits
  · exact absurd waits (lt_irrefl 0)
  case h_2 cond' woken phase =>
    split at waits
    case isFalse => exact absurd waits (lt_irrefl 0)
    case isTrue same =>
      subst same
      rw [Thread.wake, phase]
      cases woken <;> simp [phase]

omit [DecidableEq τ] in
theorem broadcast_counted (counted : Counted s) (cond : Cond) : Counted (s.broadcast cond) where
  rActive := counted.rActive.trans (total_map _ _ (wake_readHolds cond)).symm
  wActive := counted.wActive.trans (total_map _ _ (wake_writeHolds cond)).symm
  rWait := counted.rWait.trans (total_map _ _ (wake_waits .read cond)).symm
  wWait := counted.wWait.trans (total_map _ _ (wake_waits .write cond)).symm
  owner t has := by
    have same : (((s.threads t).wake cond).writes : ℤ) = (s.threads t).writes := wake_writeHolds cond _
    refine counted.owner t ?_
    change 0 < ((s.threads t).wake cond).writes at has
    omega
  exclusive := counted.exclusive

omit [DecidableEq τ] in
/-- A thread that sleeps is counted. -/
theorem Counted.asleep (counted : Counted s) {cond : Cond} {t : τ} {woken : Bool}
    (waits : (s.threads t).phase = .waiting cond woken) :
    0 < match cond with | .read => s.rwl.rWait | .write => s.rwl.wWait := by
  have own : (s.threads t).waits cond = 1 := by
    rw [Thread.waits, waits]
    exact if_pos rfl
  have all := le_total (waits_nonneg cond) s.threads t
  cases cond with
  | read =>
      rw [← counted.rWait] at all
      dsimp only
      omega
  | write =>
      rw [← counted.wWait] at all
      dsimp only
      omega

theorem rwlReadunlock_sound (sound : Sound s) (has : 0 < (s.threads t).reads) :
    Sound (rwlReadunlock s t) := by
  have active : 0 < s.rwl.rActive := by
    have own := le_total readHolds_nonneg s.threads t
    rw [← sound.rActive, Thread.readHolds] at own
    omega
  have noWriter : s.rwl.wActive = 0 := by
    by_contra writer
    have := sound.exclusive writer
    omega
  rw [rwlReadunlock]
  generalize eq :
      ({ s with rwl := { s.rwl with rActive := s.rwl.rActive - 1 }, issued := [] } : State τ).put t
    { s.threads t with reads := (s.threads t).reads - 1 } = s'
  have phase (t' : τ) : (s'.threads t').phase = (s.threads t').phase := by
    rw [← eq]
    simp only [State.put, Function.update_apply]
    split
    case isTrue same => rw [same]
    case isFalse => rfl
  have counted : Counted s' := by
    subst eq
    refine ⟨?_, ?_, ?_, ?_, fun t' writes => ?_, fun writer => absurd noWriter writer⟩
    · have := sound.rActive
      simp only [State.put, total_update, Thread.readHolds]
      omega
    · have := sound.wActive
      simp only [State.put, total_update, Thread.writeHolds]
      omega
    · have := sound.rWait
      simp only [State.put, total_update, Thread.waits]
      omega
    · have := sound.wWait
      simp only [State.put, total_update, Thread.waits]
      omega
    · have none := sound.noWrites noWriter
      simp only [State.put, Function.update_apply] at writes
      split at writes <;> simp only [none, lt_irrefl] at writes
  have readers (t' : τ) : (s'.threads t').phase ≠ .waiting .read false :=
    phase t' ▸ sound.readersWoken noWriter t'
  by_cases last : s'.rwl.rActive = 0 ∧ s'.rwl.wWait > 0
  · rw [if_pos last]
    refine ⟨broadcast_counted counted .write, fun _ t' asleep => readers t' (wake_asleep asleep).1, ?_⟩
    rintro - - ⟨t', asleep⟩
    exact absurd rfl (wake_asleep asleep).2
  · rw [if_neg last]
    refine ⟨counted, fun _ => readers, fun _ free waits => ?_⟩
    obtain ⟨t', asleep⟩ := waits
    exact absurd ⟨free, counted.asleep asleep⟩ last

theorem rwlWriteunlock_sound (sound : Sound s) {s' : State τ}
    (unlocked : rwlWriteunlock s t = some s') :
    Sound s' := by
  rw [rwlWriteunlock] at unlocked
  split at unlocked
  case isTrue => cases unlocked
  case isFalse active =>
    dsimp only at unlocked
    split at unlocked
    case isTrue => cases unlocked
    case isFalse owner =>
      rw [not_not] at owner
      change s.rwl.writerId = some t at owner
      have noRead : s.rwl.rActive = 0 := sound.exclusive (by omega)
      have has : 0 < (s.threads t).writes := by
        obtain ⟨t', holds⟩ := exists_of_total_pos writeHolds_nonneg
          (show 0 < total Thread.writeHolds s.threads by rw [← sound.wActive]; omega)
        have writes : 0 < (s.threads t').writes := Int.natCast_pos.mp holds
        exact Option.some_inj.mp (owner.symm.trans (sound.owner t' writes)) ▸ writes
      generalize eq :
        ({ s with rwl := { s.rwl with wActive := s.rwl.wActive - 1 }, issued := [] } : State τ).put t
        { s.threads t with writes := (s.threads t).writes - 1 } = s₁ at unlocked
      have counted : Counted s₁ := by
        subst eq
        refine ⟨?_, ?_, ?_, ?_, fun t' writes => ?_, fun _ => noRead⟩
        · have := sound.rActive
          simp only [State.put, total_update, Thread.readHolds]
          omega
        · have := sound.wActive
          simp only [State.put, total_update, Thread.writeHolds]
          omega
        · have := sound.rWait
          simp only [State.put, total_update, Thread.waits]
          omega
        · have := sound.wWait
          simp only [State.put, total_update, Thread.waits]
          omega
        · simp only [State.put, Function.update_apply] at writes
          split at writes
          case isTrue same => exact same ▸ owner
          case isFalse => exact sound.owner t' writes
      split at unlocked
      case isTrue again =>
        obtain rfl := Option.some_inj.mp unlocked
        exact ⟨counted, fun free => absurd free (by omega), fun free => absurd free (by omega)⟩
      case isFalse =>
        split at unlocked
        case isTrue readers =>
          obtain rfl := Option.some_inj.mp unlocked
          refine ⟨broadcast_counted counted .read,
            fun _ t' asleep => absurd rfl (wake_asleep asleep).2, ?_⟩
          intro _ _ _
          rw [gt_iff_lt, counted.rWait] at readers
          obtain ⟨t', waits⟩ := exists_of_total_pos (waits_nonneg .read) readers
          exact ⟨List.mem_cons_self, t', wake_awake waits⟩
        case isFalse noReaders =>
          have awake (t' : τ) : (s₁.threads t').phase ≠ .waiting .read false :=
            fun asleep => noReaders (counted.asleep asleep)
          split at unlocked
          case isTrue writers =>
            obtain rfl := Option.some_inj.mp unlocked
            refine ⟨broadcast_counted counted .write,
              fun _ t' asleep => awake t' (wake_asleep asleep).1, ?_⟩
            rintro - - ⟨t', asleep⟩
            exact absurd rfl (wake_asleep asleep).2
          case isFalse noWriters =>
            obtain rfl := Option.some_inj.mp unlocked
            refine ⟨counted, fun _ => awake, fun _ _ waits => ?_⟩
            obtain ⟨t', asleep⟩ := waits
            exact absurd (counted.asleep asleep) noWriters

/-! ## Every section -/

omit [Fintype τ] [DecidableEq τ] in
theorem waits_of_running {thread : Thread} (running : thread.phase = .running) (cond : Cond) :
    thread.waits cond = 0 := by
  rw [Thread.waits, running]

omit [Fintype τ] [DecidableEq τ] in
theorem waits_of_waiting {thread : Thread} {cond' : Cond} {woken : Bool}
    (waits : thread.phase = .waiting cond' woken) (cond : Cond) :
    thread.waits cond = if cond' = cond then 1 else 0 := by
  rw [Thread.waits, waits]

theorem rwlReadlock_sound (sound : Sound s) (running : (s.threads t).phase = .running) :
    Sound (rwlReadlock s t) := by
  have none := waits_of_running running
  rw [rwlReadlock]
  split
  case isTrue busy =>
    have waits :=
      wait_sound (t := t) (r := 1) (w := 0) sound (c := .read) (by rw [none]; rfl) (by rw [none]; rfl)
      (.inl busy)
    simpa only [add_zero] using waits
  case isFalse free =>
    have got := gotRead_sound (v := 0) sound (not_not.mp free) (none .read) (none .write)
    simpa only [sub_zero] using got

theorem readResume_sound (sound : Sound s) {woken : Bool}
    (waits : (s.threads t).phase = .waiting .read woken) :
    Sound (readResume s t) := by
  have counts := waits_of_waiting waits
  rw [readResume]
  split
  case isTrue busy =>
    have again := wait_sound (t := t) (r := 0) (w := 0) sound (c := .read) (by rw [counts]; rfl)
      (by rw [counts]; rfl) (.inl busy)
    simpa only [add_zero] using again
  case isFalse free =>
    exact gotRead_sound (v := 1) sound (not_not.mp free) (counts .read) (counts .write)

theorem rwlReadtrylock_sound (sound : Sound s) (running : (s.threads t).phase = .running) :
    Sound (rwlReadtrylock s t).1 := by
  have none := waits_of_running running
  rw [rwlReadtrylock]
  split
  · exact sound
  case isFalse free =>
    have got := gotRead_sound (v := 0) sound (not_not.mp free) (none .read) (none .write)
    simpa only [sub_zero] using got

theorem rwlWritelock_sound (sound : Sound s) (running : (s.threads t).phase = .running) :
    Sound (rwlWritelock s t) := by
  have none := waits_of_running running
  rw [rwlWritelock]
  split
  case isTrue again => exact writeAgain_sound sound again
  case isFalse =>
    split
    case isTrue busy =>
      have waits := wait_sound (t := t) (r := 0) (w := 1) sound (c := .write) (by rw [none]; rfl)
        (by rw [none]; rfl) (busy.imp_right fun reads => ⟨rfl, reads.ne'⟩)
      simpa only [add_zero] using waits
    case isFalse free =>
      rw [not_or, not_not, not_lt] at free
      have got := gotWrite_sound (v := 0) sound free.1 (le_antisymm free.2 sound.rActive_nonneg)
        (none .write)
        (none .read)
      simpa only [sub_zero] using got

theorem writeResume_sound (sound : Sound s) {woken : Bool}
    (waits : (s.threads t).phase = .waiting .write woken) :
    Sound (writeResume s t) := by
  have counts := waits_of_waiting waits
  rw [writeResume]
  split
  case isTrue busy =>
    have again := wait_sound (t := t) (r := 0) (w := 0) sound (c := .write) (by rw [counts]; rfl)
      (by rw [counts]; rfl) (busy.imp_right fun reads => ⟨rfl, reads.ne'⟩)
    simpa only [add_zero] using again
  case isFalse free =>
    rw [not_or, not_not, not_lt] at free
    exact gotWrite_sound (v := 1) sound free.1 (le_antisymm free.2 sound.rActive_nonneg) (counts .write)
      (counts .read)

theorem rwlWritetrylock_sound (sound : Sound s) (running : (s.threads t).phase = .running) :
    Sound (rwlWritetrylock s t).1 := by
  have none := waits_of_running running
  rw [rwlWritetrylock]
  split
  case isTrue again => exact writeAgain_sound sound again
  case isFalse =>
    split
    · exact sound
    case isFalse free =>
      rw [not_or, not_not, not_lt] at free
      have got := gotWrite_sound (v := 0) sound free.1 (le_antisymm free.2 sound.rActive_nonneg)
        (none .write)
        (none .read)
      simp only [sub_zero, gotWrite, free.1, zero_add, ← running] at got
      exact got

theorem step_sound (sound : Sound s) {action : Action τ} (paired : Paired s action) {s' : State τ}
    (taken : step s action = some s') : Sound s' := by
  obtain ⟨t, call⟩ := action
  rw [step] at taken
  cases phase : (s.threads t).phase with
  | running =>
      simp only [phase] at taken
      cases call with
      | readlock => exact Option.some_inj.mp taken ▸ rwlReadlock_sound sound phase
      | readtrylock => exact Option.some_inj.mp taken ▸ rwlReadtrylock_sound sound phase
      | readunlock => exact Option.some_inj.mp taken ▸ rwlReadunlock_sound sound (paired rfl)
      | writelock => exact Option.some_inj.mp taken ▸ rwlWritelock_sound sound phase
      | writetrylock => exact Option.some_inj.mp taken ▸ rwlWritetrylock_sound sound phase
      | writeunlock => exact rwlWriteunlock_sound sound taken
      | resume => cases taken
  | waiting cond woken =>
      simp only [phase] at taken
      cases call with
      | resume =>
          cases cond with
          | read => exact Option.some_inj.mp taken ▸ readResume_sound sound phase
          | write => exact Option.some_inj.mp taken ▸ writeResume_sound sound phase
      | _ => cases cond <;> cases taken

theorem Reached.sound (reached : Reached s) : Sound s := by
  obtain ⟨actions, run⟩ := reached
  have preserved (s : State τ) (action : Action τ) (s' : State τ) (sound : Sound s)
      (taken : Transition.Guarded (fun s a s' => step s a = some s') Paired s action s') : Sound s' :=
    step_sound sound taken.1 taken.2
  exact run.invariant preserved rwlInit_sound

/-! ## The law -/

def Free (s : State τ) : Prop := s.rwl.rActive = 0 ∧ s.rwl.wActive = 0

def Waiting (s : State τ) (t : τ) : Prop := (s.threads t).phase ≠ .running

/-- When the thread comes back from its wait now, it has the lock. -/
def Admitted (s : State τ) (t : τ) : Prop :=
  ∃ s', step s ⟨t, .resume⟩ = some s' ∧ (s'.threads t).phase = .running ∧
    (0 < (s'.threads t).reads ∨ 0 < (s'.threads t).writes)

omit [Fintype τ] in
theorem admitted_of_free (free : Free s) (waits : Waiting s t) : Admitted s t := by
  cases phase : (s.threads t).phase with
  | running => exact absurd phase waits
  | waiting cond woken =>
      cases cond with
      | read =>
          refine ⟨readResume s t, by simp only [step, phase], ?_⟩
          rw [readResume, if_neg (not_not.mpr free.2), gotRead]
          simp [State.put]
      | write =>
          refine ⟨writeResume s t, by simp only [step, phase], ?_⟩
          rw [writeResume, if_neg (by rw [free.1, free.2]; simp), gotWrite]
          simp [State.put]

def Thread.waitsFor (cond : Cond) (thread : Thread) : Bool :=
  match thread.phase with
  | .running => false
  | .waiting cond' _ => cond' = cond

omit [DecidableEq τ] in
theorem total_waits (s : State τ) (cond : Cond) :
    total (Thread.waits cond) s.threads =
      (Finset.univ.filter fun t => (s.threads t).waitsFor cond).card := by
  rw [Finset.card_filter, Nat.cast_sum]
  refine Finset.sum_congr rfl fun t _ => ?_
  rw [Thread.waits, Thread.waitsFor]
  cases (s.threads t).phase with
  | running => rfl
  | waiting cond' woken => by_cases same : cond' = cond <;> simp [same]

/-- One thread writes and then nobody reads; the counters count the locks and the waiting threads;
beside a free lock a waiting thread was woken and will get the lock; and when one was not woken, the
last release has woken another. -/
theorem rwlock_law (reached : Reached s) :
    (∀ t t', 0 < (s.threads t).writes → 0 < (s.threads t').writes → t = t') ∧
    (∀ t t', 0 < (s.threads t).writes → (s.threads t').reads = 0) ∧
    s.rwl.rActive = ∑ t, ((s.threads t).reads : ℤ) ∧
    s.rwl.wActive = ∑ t, ((s.threads t).writes : ℤ) ∧
    s.rwl.rWait = (Finset.univ.filter fun t => (s.threads t).waitsFor .read).card ∧
    s.rwl.wWait = (Finset.univ.filter fun t => (s.threads t).waitsFor .write).card ∧
    (Free s → (∃ t, Waiting s t) → ∃ t cond, (s.threads t).phase = .waiting cond true ∧ Admitted s t) ∧
    (Free s → (∃ t cond, (s.threads t).phase = .waiting cond false) →
      ∃ cond ∈ s.issued, ∃ t, (s.threads t).phase = .waiting cond true ∧ Admitted s t) := by
  have sound := reached.sound
  have next (free : Free s) {t : τ} {cond : Cond} (asleep : (s.threads t).phase = .waiting cond false) :
      .read ∈ s.issued ∧ ∃ t, (s.threads t).phase = .waiting .read true := by
    cases cond with
    | read => exact absurd asleep (sound.readersWoken free.2 t)
    | write => exact sound.writersNext free.2 free.1 ⟨t, asleep⟩
  have admitted (free : Free s) {t : τ} {cond : Cond} {woken : Bool}
      (waits : (s.threads t).phase = .waiting cond woken) : Admitted s t :=
    admitted_of_free free fun running => by rw [waits] at running; cases running
  refine ⟨fun t t' first second => ?_, fun t t' writes => ?_, sound.rActive, sound.wActive,
    sound.rWait.trans (total_waits s .read), sound.wWait.trans (total_waits s .write), fun free => ?_,
    fun free => ?_⟩
  · exact Option.some_inj.mp ((sound.owner t first).symm.trans (sound.owner t' second))
  · refine sound.noReads (sound.exclusive fun none => ?_) t'
    have := sound.noWrites none t
    omega
  · rintro ⟨t, waits⟩
    cases phase : (s.threads t).phase with
    | running => exact absurd phase waits
    | waiting cond woken =>
        cases woken with
        | true => exact ⟨t, cond, phase, admitted free phase⟩
        | false =>
            obtain ⟨-, t', awake⟩ := next free phase
            exact ⟨t', .read, awake, admitted free awake⟩
  · rintro ⟨t, cond, asleep⟩
    obtain ⟨issued, t', awake⟩ := next free asleep
    exact ⟨.read, issued, t', awake, admitted free awake⟩

omit [Fintype τ] in
theorem Reached.next (reached : Reached s) {a : Action τ} {s' : State τ} (paired : Paired s a)
    (taken : step s a = some s') : Reached s' := by
  obtain ⟨actions, run⟩ := reached
  exact ⟨actions ++ [a], run.append (.cons ⟨paired, taken⟩ (.nil s'))⟩

/-- A writer with a reader and a writer behind it. -/
def behindWriter : State (Fin 3) := rwlWritelock (rwlReadlock (rwlWritelock rwlInit 0) 1) 2

theorem behindWriter_reached : Reached behindWriter := by
  have start : Reached (rwlInit : State (Fin 3)) := ⟨[], .nil _⟩
  have writer := start.next (a := ⟨0, .writelock⟩) (fun unlock => by cases unlock) rfl
  have reader := writer.next (a := ⟨1, .readlock⟩) (fun unlock => by cases unlock) rfl
  exact reader.next (a := ⟨2, .writelock⟩) (fun unlock => by cases unlock) rfl

def handedOver : State (Fin 3) := (rwlWriteunlock behindWriter 0).getD rwlInit

theorem handedOver_reached : Reached handedOver :=
  behindWriter_reached.next (a := ⟨0, .writeunlock⟩) (fun unlock => by cases unlock) rfl

theorem handedOver_woken :
    ∃ cond ∈ handedOver.issued, ∃ t, (handedOver.threads t).phase = .waiting cond true ∧
      Admitted handedOver t :=
  (rwlock_law handedOver_reached).2.2.2.2.2.2.2 ⟨by decide, by decide⟩ ⟨2, .write, by decide⟩

/-- A writer with two readers behind it. -/
def behindTwo : State (Fin 3) := rwlReadlock (rwlReadlock (rwlWritelock rwlInit 0) 1) 2

/-- The first reader has the lock and releases it before the second comes back from its wait. -/
def oneReaderDone : State (Fin 3) :=
  rwlReadunlock (readResume ((rwlWriteunlock behindTwo 0).getD rwlInit) 1) 1

theorem oneReaderDone_reached : Reached oneReaderDone := by
  have start : Reached (rwlInit : State (Fin 3)) := ⟨[], .nil _⟩
  have writer := start.next (a := ⟨0, .writelock⟩) (fun unlock => by cases unlock) rfl
  have reader := writer.next (a := ⟨1, .readlock⟩) (fun unlock => by cases unlock) rfl
  have readers := reader.next (a := ⟨2, .readlock⟩) (fun unlock => by cases unlock) rfl
  have woken : Reached ((rwlWriteunlock behindTwo 0).getD rwlInit) :=
    readers.next (a := ⟨0, .writeunlock⟩) (fun unlock => by cases unlock) rfl
  have got := woken.next (a := ⟨1, .resume⟩) (fun unlock => by cases unlock) rfl
  exact got.next (a := ⟨1, .readunlock⟩) (fun _ => by decide) rfl

theorem last_release_wakes_nobody :
    ¬ ∀ s : State (Fin 3), Reached s → Free s → (∃ t, Waiting s t) →
      ∃ cond ∈ s.issued, ∃ t woken, (s.threads t).phase = .waiting cond woken := by
  intro law
  obtain ⟨cond, issued, -⟩ := law oneReaderDone oneReaderDone_reached ⟨by decide, by decide⟩
    ⟨2, fun running => by cases running⟩
  exact absurd issued List.not_mem_nil

end Bacula.Rwlock
