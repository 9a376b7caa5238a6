import Bacula.Dird.RestoreBootstrap

/-! What the Storage daemons are to get of a bootstrap, and what they get. -/
namespace Bacula.RestoreBootstrap
open CMemory CmdLine

/-! ## Lines -/

def lines : List Char → List (List Char)
  | [] => []
  | c :: bs =>
      if c = '\n' then [c] :: lines bs
      else match lines bs with
        | [] => [[c]]
        | line :: more => (c :: line) :: more

theorem lines_flatten (bs : List Char) : (lines bs).flatten = bs := by
  induction bs with
  | nil => rfl
  | cons c bs ih =>
      unfold lines
      split
      · simp only [List.flatten_cons, ih, List.singleton_append]
      · split
        · rename_i none
          simp only [none, List.flatten_nil] at ih
          simp only [← ih, List.flatten_cons, List.flatten_nil, List.append_nil]
        · rename_i line more some
          simp only [some, List.flatten_cons] at ih
          simp only [List.flatten_cons, List.cons_append, ih]

theorem fgets_length (room : ℕ) (bs : List Char) : (fgets room bs).1.length ≤ room := by
  induction room generalizing bs with
  | zero => exact le_refl 0
  | succ room ih =>
      cases bs with
      | nil => exact Nat.zero_le _
      | cons c bs =>
          simp only [fgets]
          split
          · exact Nat.succ_le_succ (Nat.zero_le room)
          · exact Nat.succ_le_succ (ih bs)

/-- A line that fits is read as a whole. -/
theorem fgets_line {bs line : List Char} {more : List (List Char)} (cut : lines bs = line :: more)
    (room : ℕ) (fits : line.length ≤ room) : fgets room bs = (line, more.flatten) ∧
      lines more.flatten = more := by
  induction bs generalizing line more room with
  | nil => exact absurd cut (List.cons_ne_nil _ _).symm
  | cons c bs ih =>
      cases room with
      | zero =>
          obtain rfl := List.eq_nil_of_length_eq_zero (Nat.le_zero.mp fits)
          unfold lines at cut
          split at cut
          · exact absurd cut (by simp)
          · split at cut <;> exact absurd cut (by simp)
      | succ room =>
          unfold lines at cut
          split at cut
          · rename_i newline
            obtain ⟨rfl, rfl⟩ := List.cons.inj cut
            simp only [fgets, newline, if_true, lines_flatten, and_self]
          · rename_i other
            simp only [fgets, other, if_false]
            split at cut
            · rename_i none
              have nothing := lines_flatten bs
              rw [none] at nothing
              obtain ⟨rfl, rfl⟩ := List.cons.inj cut
              subst nothing
              cases room <;> simp [fgets, lines]
            · rename_i rest others some
              obtain ⟨rfl, rfl⟩ := List.cons.inj cut
              have step := ih some room (Nat.le_of_succ_le_succ fits)
              simp only [step.1, step.2, and_self]

theorem reads_flatten (room : ℕ) (bs : List Char) : (reads room bs).flatten = bs := by
  fun_induction reads room bs with
  | case1 => rfl
  | case2 c bs ih => simp only [List.flatten_cons, ih, fgets_append]

theorem reads_length (room : ℕ) (bs : List Char) : ∀ line ∈ reads room bs, line.length ≤ room + 1 := by
  fun_induction reads room bs with
  | case1 => exact List.forall_mem_nil _
  | case2 c bs ih =>
      intro line member
      rcases List.mem_cons.mp member with rfl | member
      · exact fgets_length _ _
      · exact ih line member

theorem lines_some (c : Char) (bs : List Char) : ∃ line more, lines (c :: bs) = line :: more := by
  unfold lines
  split
  · exact ⟨_, _, rfl⟩
  · split
    · exact ⟨_, _, rfl⟩
    · exact ⟨_, _, rfl⟩

theorem reads_iff (room : ℕ) (bs : List Char) :
    reads room bs = lines bs ↔ ∀ line ∈ lines bs, line.length ≤ room + 1 := by
  constructor
  · intro same
    rw [← same]
    exact reads_length room bs
  · intro fit
    fun_induction reads room bs with
    | case1 => rfl
    | case2 c bs ih =>
        obtain ⟨line, more, cut⟩ := lines_some c bs
        rw [cut] at fit ⊢
        obtain ⟨read, rest⟩ := fgets_line cut (room + 1) (fit line List.mem_cons_self)
        simp only [read, rest] at ih ⊢
        rw [ih fun line member => fit line (List.mem_cons_of_mem _ member)]

/-! ## Daemons -/

/-- The daemon of the last storage line, up to a line. A storage that is not found has none. -/
def daemonAfter (stores : List Store) (current : Daemon) (line : List Char) : Daemon :=
  match storageArg (cmdOf line) with
  | some (some name) => ((getResWithName stores name).map Store.daemon).getD current
  | _ => current

/-- Each line with the daemon that it is for. -/
def deliver (stores : List Store) : Daemon → List (List Char) → List (Daemon × List Char)
  | _, [] => []
  | current, line :: bs =>
      (daemonAfter stores current line, line) ::
        deliver stores (daemonAfter stores current line) bs

/-- The storage of the first storage line, or the one that the job has. -/
def firstStorage (jcr : Jcr) (bs : List (List Char)) : List Char :=
  ((bs.filterMap fun line => (storageArg (cmdOf line)).join).head?).getD jcr.rstore.name

/-- The opening finds the first storage, and the lines go once, in order and to their daemons, with
one connection for the lines between two changes of the daemon, whatever `ua->cmd` held before. -/
def Distributed (jcr : Jcr) (bs : List Char) : Prop :=
  ∀ cmd : CString,
    (∃ rounds, openLoop rounds jcr cmd (reads (uaCmdSize - 2) bs) =
      some (firstStorage jcr (lines bs))) ∧
    ∃ rounds sessions, restoreBootstrap rounds jcr cmd bs = some sessions ∧
      (sessions.flatMap fun s => s.sent.map (s.daemon, ·)) =
        deliver jcr.stores jcr.rstore.daemon (lines bs) ∧
      sessions.IsChain (·.daemon ≠ ·.daemon)

theorem getRes_name {stores : List Store} {name : List Char} {store : Store}
    (found : getResWithName stores name = some store) : store.name = name := by
  have same := List.find?_some found
  exact of_decide_eq_true same

theorem bstrncpy_name (store : Store) : bstrncpy store.name = store.name :=
  List.take_of_length_le (Nat.le_sub_one_of_lt store.short)

theorem getRes_nil (stores : List Store) : getResWithName stores [] = none :=
  List.find?_eq_none.mpr fun store _ same => store.named (of_decide_eq_true same)

/-- The check of a line, for a File daemon that knows of several storages. -/
theorem checkForNewStorage_spec (jcr : Jcr) (new : ¬jcr.FDVersion < 2) (line : List Char)
    (value : storageArg (cmdOf line) ≠ some none) :
    checkForNewStorage jcr (cmdOf line) = some none ∧
        daemonAfter jcr.stores jcr.rstore.daemon line = jcr.rstore.daemon ∨
      ∃ store, storageArg (cmdOf line) = some (some store.name) ∧
        getResWithName jcr.stores store.name = some store ∧
        store.daemon ≠ jcr.rstore.daemon ∧
        checkForNewStorage jcr (cmdOf line) = some (some store.name) := by
  unfold checkForNewStorage daemonAfter isOnSameStorage
  cases arg : storageArg (cmdOf line) with
  | none => exact .inl ⟨rfl, rfl⟩
  | some value =>
      cases value with
      | none => exact absurd arg ‹_›
      | some name =>
          simp only [new, if_false, Option.map_some]
          by_cases empty : name = []
          · subst empty
            exact .inl ⟨by simp, by simp [getRes_nil]⟩
          · by_cases own : name = jcr.rstore.name
            · subst own
              exact .inl ⟨by simp, by simp [jcr.known]⟩
            · cases found : getResWithName jcr.stores name with
              | none => exact .inl ⟨by simp [empty, own], rfl⟩
              | some store =>
                  obtain rfl := getRes_name found
                  by_cases same : store.daemon = jcr.rstore.daemon
                  · have parts := Prod.mk.inj same
                    exact .inl ⟨by simp [parts.1.symm, parts.2.symm], same⟩
                  · have other : ¬(jcr.rstore.SDport = store.SDport ∧
                        jcr.rstore.address = store.address) := fun parts =>
                      same (Prod.ext parts.2.symm parts.1.symm)
                    exact .inr ⟨store, rfl, found, same, by
                      simp [empty, own, other, bstrncpy_name]⟩

/-- The place of a file in front of a line for the storage that has been selected. -/
def Ready (jcr : Jcr) : List (List Char) → Prop
  | [] => True
  | line :: _ => checkForNewStorage jcr (cmdOf line) = some none

/-- A change of the storage: the line in front of which the sending stopped. -/
structure Change (jcr : Jcr) (storage : List Char) (line : List Char) (store : Store) : Prop where
  arg : storageArg (cmdOf line) = some (some store.name)
  found : getResWithName jcr.stores store.name = some store
  other : store.daemon ≠ jcr.rstore.daemon
  noted : storage = store.name

theorem sendBootstrapFile_spec (jcr : Jcr) (new : ¬jcr.FDVersion < 2) (storage : List Char)
    (bs : List (List Char)) (values : ∀ line ∈ bs, storageArg (cmdOf line) ≠ some none) :
    ∃ sent storage' left, bs = sent ++ left ∧
      sendBootstrapFile jcr storage bs = some (sent.map cstr, storage', left) ∧
      (∀ line ∈ sent, daemonAfter jcr.stores jcr.rstore.daemon line = jcr.rstore.daemon) ∧
      (left = [] ∨ ∃ line rest store, left = line :: rest ∧ Change jcr storage' line store) ∧
      (Ready jcr bs → sent = [] → bs = []) := by
  induction bs with
  | nil => exact ⟨[], storage, [], rfl, rfl, List.forall_mem_nil _, .inl rfl, fun _ _ => rfl⟩
  | cons line bs ih =>
      rcases checkForNewStorage_spec jcr new line (values line List.mem_cons_self) with
        ⟨check, same⟩ | ⟨store, arg, found, other, check⟩
      · obtain ⟨sent, storage', left, rfl, run, stays, ends, -⟩ :=
          ih fun line member => values line (List.mem_cons_of_mem _ member)
        refine ⟨line :: sent, storage', left, rfl, ?_, ?_, ends, ?_⟩
        · simp [sendBootstrapFile, check, run]
        · exact List.forall_mem_cons.mpr ⟨same, stays⟩
        · intro _ none
          exact absurd none (List.cons_ne_nil _ _)
      · refine ⟨[], store.name, line :: bs, rfl, ?_, List.forall_mem_nil _, ?_, ?_⟩
        · simp [sendBootstrapFile, check]
        · exact .inr ⟨line, bs, store, rfl, arg, found, other, rfl⟩
        · intro ready _
          rw [Ready, check] at ready
          exact absurd ready (by simp)

theorem deliver_append (stores : List Store) (current : Daemon) (sent left : List (List Char))
    (stays : ∀ line ∈ sent, daemonAfter stores current line = current) :
    deliver stores current (sent ++ left) =
      sent.map (current, ·) ++ deliver stores current left := by
  induction sent with
  | nil => rfl
  | cons line sent ih =>
      obtain ⟨same, stays⟩ := List.forall_mem_cons.mp stays
      simp only [List.cons_append, deliver, same, ih stays, List.map_cons]

theorem selectRstore_kept {jcr jcr' : Jcr} {storage : List Char}
    (select : selectRstore jcr storage = some jcr') :
    jcr'.stores = jcr.stores ∧ jcr'.FDVersion = jcr.FDVersion ∧ jcr'.rstore.name = storage := by
  unfold selectRstore at select
  split at select
  · rename_i same
    cases select
    exact ⟨rfl, rfl, same⟩
  · split at select
    · cases select
    · rename_i store found
      cases select
      exact ⟨rfl, rfl, getRes_name found⟩

theorem Change.select {jcr : Jcr} {storage line : List Char} {store : Store}
    (change : Change jcr storage line store) :
    ∃ jcr', selectRstore jcr storage = some jcr' ∧ jcr'.rstore = store := by
  obtain ⟨-, found, other, rfl⟩ := change
  have different : jcr.rstore.name ≠ store.name := by
    intro same
    have known := jcr.known
    rw [same, found] at known
    exact other (congrArg Store.daemon (Option.some.inj known))
  unfold selectRstore
  rw [if_neg different]
  split
  · rename_i none
    rw [found] at none
    cases none
  · rename_i store' found'
    rw [found] at found'
    cases found'
    exact ⟨_, rfl, rfl⟩

/-- The storage line is sent to the daemon that it names. -/
theorem Change.ready {jcr jcr' : Jcr} {storage line : List Char} {store : Store}
    (change : Change jcr storage line store) (selected : jcr'.rstore = store)
    (bs : List (List Char)) : Ready jcr' (line :: bs) := by
  simp [Ready, checkForNewStorage, isOnSameStorage, change.arg, selected]

theorem Change.deliver {jcr : Jcr} {storage line : List Char} {store : Store}
    (change : Change jcr storage line store) (current : Daemon) (bs : List (List Char)) :
    deliver jcr.stores current (line :: bs) = deliver jcr.stores store.daemon (line :: bs) := by
  simp [RestoreBootstrap.deliver, daemonAfter, change.arg, change.found]

/-- What a run does from a place in front of a line for the storage that is selected. -/
structure Run (jcr : Jcr) (bs : List (List Char)) (sessions : List Session) : Prop where
  delivered : (sessions.flatMap fun s => s.sent.map (s.daemon, ·)) =
    deliver jcr.stores jcr.rstore.daemon bs
  chain : sessions.IsChain (·.daemon ≠ ·.daemon)
  first : ∀ s ∈ sessions.head?, s.daemon = jcr.rstore.daemon

theorem restoreLoop_round {jcr jcr' : Jcr} {storage storage' : List Char}
    {bs sent left : List (List Char)} (select : selectRstore jcr storage = some jcr')
    (run : sendBootstrapFile jcr' storage bs = some (sent, storage', left)) (rounds : ℕ) :
    restoreLoop (rounds + 1) jcr storage bs =
      if jcr'.FDVersion < 2 ∨ left = [] then some [⟨jcr'.rstore.daemon, sent⟩]
      else (restoreLoop rounds jcr' storage' left).map (⟨jcr'.rstore.daemon, sent⟩ :: ·) := by
  simp only [restoreLoop, select, run, Option.bind_eq_bind, Option.bind_some]
  split
  · rfl
  · exact Option.map_eq_bind.symm

theorem restoreLoop_run (n : ℕ) (jcr jcr' : Jcr) (storage : List Char) (bs : List (List Char))
    (few : bs.length ≤ n) (select : selectRstore jcr storage = some jcr')
    (new : ¬jcr'.FDVersion < 2) (text : ∀ line ∈ bs, nul ∉ line)
    (values : ∀ line ∈ bs, storageArg (cmdOf line) ≠ some none) (ready : Ready jcr' bs) :
    ∃ sessions, restoreLoop (n + 1) jcr storage bs = some sessions ∧ Run jcr' bs sessions := by
  induction n using Nat.strong_induction_on generalizing jcr jcr' storage bs with
  | _ n ih =>
      obtain ⟨sent, storage', left, rfl, run, stays, ends, progress⟩ :=
        sendBootstrapFile_spec jcr' new storage bs values
      have round := restoreLoop_round select run n
      have whole : sent.map cstr = sent :=
        (List.map_congr_left fun line member =>
          cstr_self (text line (List.mem_append_left _ member))).trans (List.map_id sent)
      have head := deliver_append jcr'.stores jcr'.rstore.daemon sent left stays
      rcases ends with rfl | ⟨line, rest, store, rfl, change⟩
      · refine ⟨[⟨jcr'.rstore.daemon, sent⟩], ?_, ?_, List.isChain_singleton _, ?_⟩
        · rw [round, if_pos (.inr rfl), whole]
        · rw [head]
          simp [deliver]
        · simp
      · cases n with
        | zero => simp at few
        | succ n =>
            obtain ⟨next, selected, same⟩ := change.select
            obtain ⟨stores, version, -⟩ := selectRstore_kept selected
            have some : 0 < sent.length := by
              apply List.length_pos_of_ne_nil
              intro none
              have := progress ready none
              simp at this
            obtain ⟨sessions, behind, chained⟩ := ih n (Nat.lt_succ_self n) jcr' next storage'
              (line :: rest) (by simp at few ⊢; omega) selected (version ▸ new)
              (fun line member => text line (List.mem_append_right _ member))
              (fun line member => values line (List.mem_append_right _ member))
              (change.ready same rest)
            refine ⟨⟨jcr'.rstore.daemon, sent⟩ :: sessions, ?_, ?_, ?_, ?_⟩
            · rw [round, if_neg (by simp [new]), behind, whole]
              rfl
            · have rests := chained.delivered
              rw [stores, same, ← change.deliver jcr'.rstore.daemon] at rests
              rw [head, List.flatMap_cons, rests]
            · refine List.isChain_cons.mpr ⟨fun s member => ?_, chained.chain⟩
              have first := chained.first s member
              rw [first, same]
              exact change.other.symm
            · simp

/-! ## What every run sends -/

theorem sendBootstrapFile_sent {jcr : Jcr} {storage storage' : List Char}
    {bs sent left : List (List Char)}
    (run : sendBootstrapFile jcr storage bs = some (sent, storage', left)) :
    sent ++ left.map cstr = bs.map cstr ∧ (jcr.FDVersion < 2 → left = []) ∧
      (¬jcr.FDVersion < 2 → (∀ line ∈ left, storageArg (cmdOf line) ≠ some none) →
        ∀ line ∈ bs, storageArg (cmdOf line) ≠ some none) := by
  induction bs generalizing sent with
  | nil =>
      cases run
      exact ⟨rfl, fun _ => rfl, fun _ _ => List.forall_mem_nil _⟩
  | cons line bs ih =>
      simp only [sendBootstrapFile, Option.bind_eq_bind, Option.bind_eq_some_iff] at run
      obtain ⟨check, checked, run⟩ := run
      have value (new : ¬jcr.FDVersion < 2) : storageArg (cmdOf line) ≠ some none := by
        intro none
        simp [checkForNewStorage, none, isOnSameStorage, new] at checked
      cases check with
      | some other =>
          cases run
          refine ⟨rfl, fun old => ?_, fun _ values => values⟩
          cases arg : storageArg (cmdOf line) with
          | none => simp [checkForNewStorage, arg] at checked
          | some value => simp [checkForNewStorage, arg, isOnSameStorage, old] at checked
      | none =>
          simp only [Option.bind_eq_some_iff] at run
          obtain ⟨⟨behind, storage'', left'⟩, run, result⟩ := run
          cases result
          obtain ⟨same, none, values⟩ := ih run
          refine ⟨?_, none, fun new rest => ?_⟩
          · simp only [List.cons_append, same, List.map_cons]
          · exact List.forall_mem_cons.mpr ⟨value new, values new rest⟩

theorem restoreLoop_sent {rounds : ℕ} {jcr jcr' : Jcr} {storage : List Char}
    {bs : List (List Char)} {sessions : List Session}
    (select : selectRstore jcr storage = some jcr')
    (run : restoreLoop rounds jcr storage bs = some sessions) :
    sessions.flatMap (·.sent) = bs.map cstr ∧
      (jcr'.FDVersion < 2 → ∀ s ∈ sessions, s.daemon = jcr'.rstore.daemon) ∧
      (¬jcr'.FDVersion < 2 → ∀ line ∈ bs, storageArg (cmdOf line) ≠ some none) := by
  induction rounds generalizing jcr jcr' storage bs sessions with
  | zero => cases run
  | succ rounds ih =>
      cases send : sendBootstrapFile jcr' storage bs with
      | none => simp [restoreLoop, select, send] at run
      | some result =>
          obtain ⟨sent, storage', left⟩ := result
          obtain ⟨same, none, values⟩ := sendBootstrapFile_sent send
          rw [restoreLoop_round select send] at run
          split at run
          · rename_i stop
            have nothing : left = [] := stop.elim none id
            cases run
            rw [nothing, List.map_nil, List.append_nil] at same
            rw [nothing] at values
            refine ⟨?_, fun _ s member => ?_, fun new => values new (List.forall_mem_nil _)⟩
            · simp [same]
            · rw [List.mem_singleton.mp member]
          · rename_i more
            rw [not_or] at more
            obtain ⟨others, later, rfl⟩ := Option.map_eq_some_iff.mp run
            cases rounds with
            | zero => cases later
            | succ rounds =>
                cases next : selectRstore jcr' storage' with
                | none => simp [restoreLoop, next] at later
                | some jcr'' =>
                    obtain ⟨rest, -, behind⟩ := ih next later
                    have version := (selectRstore_kept next).2.1
                    refine ⟨?_, fun old => absurd old more.1, fun new =>
                      values new (behind (version ▸ new))⟩
                    rw [List.flatMap_cons, rest, same]

theorem deliver_lines (stores : List Store) (current : Daemon) (bs : List (List Char)) :
    (deliver stores current bs).map Prod.snd = bs := by
  induction bs generalizing current with
  | nil => rfl
  | cons line bs ih => simp only [deliver, List.map_cons, ih]

theorem cstr_all (pieces : List (List Char))
    (whole : pieces.flatten.length ≤ (pieces.map cstr).flatten.length) :
    ∀ piece ∈ pieces, cstr piece = piece := by
  have shorter (piece : List Char) : (cstr piece).Sublist piece :=
    List.takeWhile_sublist _
  have all (pieces : List (List Char)) :
      (pieces.map cstr).flatten.length ≤ pieces.flatten.length := by
    induction pieces with
    | nil => exact le_refl 0
    | cons piece pieces ih =>
        have := (shorter piece).length_le
        simp only [List.map_cons, List.flatten_cons, List.length_append]
        omega
  induction pieces with
  | nil => exact List.forall_mem_nil _
  | cons piece pieces ih =>
      have front := (shorter piece).length_le
      have behind := all pieces
      simp only [List.map_cons, List.flatten_cons, List.length_append] at whole
      refine List.forall_mem_cons.mpr ⟨?_, ?_⟩
      · exact (shorter piece).eq_of_length_le (by omega)
      · exact ih (by omega)

/-- What is sent is the lines only if these are what is read. -/
theorem reads_sent {bs : List Char} {room : ℕ} (same : (reads room bs).map cstr = lines bs) :
    (∀ line ∈ lines bs, nul ∉ line) ∧ reads room bs = lines bs := by
  have whole : ∀ line ∈ reads room bs, cstr line = line := by
    apply cstr_all
    rw [same, lines_flatten, reads_flatten]
  have reading : reads room bs = lines bs := by
    rw [← same]
    exact ((List.map_congr_left whole).trans (List.map_id _)).symm
  refine ⟨fun line member => ?_, reading⟩
  rw [← reading] at member
  rw [← whole line member]
  exact cstr_text line

/-- The condition on the bootstrap: there are lines, each is a text that fits the buffer, and the
first storage is the one that the job has. For an old File daemon all lines are for the daemon of
that storage; for the others no line is `Storage` without a `=`. -/
structure Plain (jcr : Jcr) (bs : List Char) : Prop where
  nonempty : bs ≠ []
  fits : ∀ line ∈ lines bs, nul ∉ line ∧ line.length < uaCmdSize
  first : firstStorage jcr (lines bs) = jcr.rstore.name
  old : jcr.FDVersion < 2 → ∀ part ∈ deliver jcr.stores jcr.rstore.daemon (lines bs),
    part.1 = jcr.rstore.daemon
  values : ¬jcr.FDVersion < 2 → ∀ line ∈ lines bs, storageArg (cmdOf line) ≠ some none

theorem sendBootstrapFile_old {jcr : Jcr} (old : jcr.FDVersion < 2) (storage : List Char)
    (bs : List (List Char)) :
    sendBootstrapFile jcr storage bs = some (bs.map cstr, storage, []) := by
  induction bs with
  | nil => rfl
  | cons line bs ih =>
      have check : checkForNewStorage jcr (cmdOf line) = some none := by
        cases arg : storageArg (cmdOf line) with
        | none => simp [checkForNewStorage, arg]
        | some value => simp [checkForNewStorage, arg, isOnSameStorage, old]
      simp [sendBootstrapFile, check, ih]

theorem ready_of_first {jcr : Jcr} (new : ¬jcr.FDVersion < 2) {bs : List (List Char)}
    (first : firstStorage jcr bs = jcr.rstore.name)
    (values : ∀ line ∈ bs, storageArg (cmdOf line) ≠ some none) : Ready jcr bs := by
  cases bs with
  | nil => exact trivial
  | cons line bs =>
      rcases checkForNewStorage_spec jcr new line (values line List.mem_cons_self) with
        ⟨check, -⟩ | ⟨store, arg, found, other, -⟩
      · exact check
      · have same : store.name = jcr.rstore.name := by
          simpa [firstStorage, arg] using first
        have known := jcr.known
        rw [← same, found] at known
        exact absurd (congrArg Store.daemon (Option.some.inj known)) other

theorem openLoop_some {jcr : Jcr} {c : Char} {bs : List Char} (rounds room : ℕ) (cmd : CString) :
    openLoop rounds jcr cmd (reads room (c :: bs)) = some jcr.rstore.name := by
  rw [reads]
  cases rounds <;> exact congrArg some (bstrncpy_name jcr.rstore)

theorem selectRstore_own (jcr : Jcr) : selectRstore jcr jcr.rstore.name = some jcr :=
  if_pos rfl

theorem openLoop_empty (rounds room : ℕ) (jcr : Jcr) :
    openLoop rounds jcr ⟨[], List.not_mem_nil⟩ (reads room []) = none := by
  rw [reads]
  induction rounds with
  | zero => rfl
  | succ rounds ih =>
      have arg : storageArg ⟨[], List.not_mem_nil⟩ = none := rfl
      simp only [openLoop, arg, ih]

theorem Distributed.plain {jcr : Jcr} {bs : List Char} (distributed : Distributed jcr bs) :
    Plain jcr bs := by
  obtain ⟨⟨rounds, opened⟩, n, sessions, run, delivered, -⟩ :=
    distributed ⟨[], List.not_mem_nil⟩
  cases bs with
  | nil =>
      rw [openLoop_empty] at opened
      cases opened
  | cons c bs =>
      rw [openLoop_some] at opened
      simp only [restoreBootstrap, openLoop_some, Option.bind_eq_bind, Option.bind_some] at run
      obtain ⟨sent, old, values⟩ := restoreLoop_sent (selectRstore_own jcr) run
      have parts := congrArg (List.map Prod.snd) delivered
      have messages : (sessions.flatMap fun s => s.sent.map (s.daemon, ·)).map Prod.snd =
          sessions.flatMap (·.sent) := by
        simp [List.map_flatMap, Function.comp_def]
      rw [deliver_lines, messages, sent] at parts
      obtain ⟨text, whole⟩ := reads_sent parts
      have fits := (reads_iff _ _).mp whole
      rw [whole] at values
      refine ⟨List.cons_ne_nil _ _, fun line member => ⟨text line member, ?_⟩,
        (Option.some.inj opened).symm, fun version part member => ?_, values⟩
      · exact Nat.lt_succ_of_le (fits line member)
      · rw [← delivered] at member
        obtain ⟨s, inside, member⟩ := List.mem_flatMap.mp member
        obtain ⟨line, -, rfl⟩ := List.mem_map.mp member
        exact old version s inside

theorem Plain.distributed {jcr : Jcr} {bs : List Char} (plain : Plain jcr bs) :
    Distributed jcr bs := by
  intro cmd
  have whole : reads (uaCmdSize - 2) bs = lines bs :=
    (reads_iff _ _).mpr fun line member => Nat.le_of_lt_succ (plain.fits line member).2
  obtain ⟨c, bs, rfl⟩ := List.exists_cons_of_ne_nil plain.nonempty
  refine ⟨⟨0, ?_⟩, ?_⟩
  · rw [openLoop_some, plain.first]
  · by_cases old : jcr.FDVersion < 2
    · refine ⟨1, [⟨jcr.rstore.daemon, lines (c :: bs)⟩], ?_, ?_, List.isChain_singleton _⟩
      · simp only [restoreBootstrap, openLoop_some, Option.bind_eq_bind, Option.bind_some]
        rw [whole, restoreLoop_round (selectRstore_own jcr) (sendBootstrapFile_old old _ _),
          if_pos (.inl old), List.map_congr_left fun line member =>
            cstr_self (plain.fits line member).1, List.map_id']
      · have daemons (part : Daemon × List Char)
            (member : part ∈ deliver jcr.stores jcr.rstore.daemon (lines (c :: bs))) :
            (jcr.rstore.daemon, part.2) = part :=
          Prod.ext (plain.old old part member).symm rfl
        have parts := deliver_lines jcr.stores jcr.rstore.daemon (lines (c :: bs))
        calc _ = (lines (c :: bs)).map (jcr.rstore.daemon, ·) := List.flatMap_singleton _ _
          _ = (deliver jcr.stores jcr.rstore.daemon (lines (c :: bs))).map
              fun part => (jcr.rstore.daemon, part.2) := by
            nth_rewrite 1 [← parts]
            exact List.map_map
          _ = _ := (List.map_congr_left daemons).trans (List.map_id _)
    · obtain ⟨sessions, run, kept⟩ := restoreLoop_run (lines (c :: bs)).length jcr jcr
        jcr.rstore.name (lines (c :: bs)) (le_refl _) (selectRstore_own jcr) old
        (fun line member => (plain.fits line member).1) (plain.values old)
        (ready_of_first old plain.first (plain.values old))
      refine ⟨(lines (c :: bs)).length + 1, sessions, ?_, kept.delivered, kept.chain⟩
      simp only [restoreBootstrap, openLoop_some, Option.bind_eq_bind, Option.bind_some]
      rw [whole]
      exact run

theorem distributed_iff (jcr : Jcr) (bs : List Char) : Distributed jcr bs ↔ Plain jcr bs :=
  ⟨Distributed.plain, Plain.distributed⟩

/-- A job whose storage is the only one. -/
def oneStorage : Jcr where
  FDVersion := 214
  stores := [⟨['D', 'i', 's', 'k'], ['s', 'd'], 9103, by decide, by decide⟩]
  rstore := ⟨['D', 'i', 's', 'k'], ['s', 'd'], 9103, by decide, by decide⟩
  known := by rfl

theorem empty_file_not_opened : ¬Distributed oneStorage [] := by
  intro distributed
  obtain ⟨⟨rounds, opened⟩, -⟩ := distributed ⟨[], List.not_mem_nil⟩
  rw [openLoop_empty] at opened
  cases opened

end Bacula.RestoreBootstrap
