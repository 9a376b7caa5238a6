import Bacula.Lib.Lockmgr

/-! The lists of the lock manager hold the mutexes that the threads have and wait for, and the search
finds a deadlock exactly when the threads wait for each other in a circle. -/
namespace Bacula.Lockmgr
open Relation

variable {μ : Type}

/-- What a lock in the list says: the mutex, and whether the thread has it or waits for it. -/
def LmgrLock.key (lock : LmgrLock μ) : Option μ × LmgrState := (lock.lock, lock.state)

/-- What the list of a thread should say. -/
def LmgrThread.keys (t : LmgrThread μ) : List (Option μ × LmgrState) :=
  t.granted.map (fun m => (some m, .granted)) ++ t.wants.toList.map fun m => (some m, .wanted)

structure Sound (t : LmgrThread μ) : Prop where
  size : t.lockList.length = LMGR_MAX_LOCK
  low : -1 ≤ t.current
  high : t.current < LMGR_MAX_LOCK
  held : (t.entries.map LmgrLock.key).Perm t.keys
  top : ∀ m, t.wants = some m → 0 ≤ t.current ∧ (t.lockAt t.current.toNat).key = (some m, .wanted)

theorem newThread_sound : Sound (newThread : LmgrThread μ) where
  size := List.length_replicate
  low := le_refl _
  high := by
    change (-1 : ℤ) < 32
    decide
  held := .nil
  top m wants := by cases wants

theorem take_succ_getD {α : Type} {l : List α} {n : ℕ} (inside : n < l.length) (d : α) :
    l.take (n + 1) = l.take n ++ [l.getD n d] := by
  rw [List.take_add_one, List.getElem?_eq_getElem inside, List.getD_eq_getElem _ _ inside]
  rfl

theorem take_set_self {α : Type} (l : List α) (n : ℕ) (x : α) : (l.set n x).take n = l.take n := by
  rw [List.take_set, List.set_eq_of_length_le]
  exact List.length_take_le _ _

theorem getD_set_self {α : Type} {l : List α} {n : ℕ} (inside : n < l.length) (x d : α) :
    (l.set n x).getD n d = x := by
  rw [List.getD_eq_getElem?_getD, List.getElem?_set_self inside]
  rfl

/-- The list up to the current lock, with it. -/
theorem entries_concat {t : LmgrThread μ} (low : 0 ≤ t.current)
    (inside : t.current.toNat < t.lockList.length) :
    t.entries = t.lockList.take t.current.toNat ++ [t.lockAt t.current.toNat] := by
  rw [LmgrThread.entries, Int.toNat_add low (by decide), LmgrThread.lockAt]
  exact take_succ_getD inside emptyLock

theorem Sound.inside {t : LmgrThread μ} (sound : Sound t) (low : 0 ≤ t.current) :
    t.current.toNat < t.lockList.length := by
  have := sound.high
  rw [sound.size]
  omega

/-- As many locks are in use as the thread has mutexes and waits for. -/
theorem Sound.count {t : LmgrThread μ} (sound : Sound t) :
    t.current + 1 = t.granted.length + t.wants.toList.length := by
  have length := sound.held.length_eq
  have size := sound.size
  have low := sound.low
  have high := sound.high
  rw [List.length_map, LmgrThread.entries, List.length_take, LmgrThread.keys, List.length_append,
    List.length_map, List.length_map] at length
  omega

theorem preP_sound {t t' : LmgrThread μ} (sound : Sound t) (none : t.wants = none)
    (room : t.granted.length < LMGR_MAX_LOCK) {m : μ} {priority : ℤ}
    (taken : preP t m priority = some t') :
    Sound { t' with wants := some m } := by
  have count := sound.count
  have low := sound.low
  have size := sound.size
  rw [none] at count
  simp only [Option.toList_none, List.length_nil, Nat.cast_zero, add_zero] at count
  have here : (t.current + 1).toNat < t.lockList.length := by omega
  rw [preP, if_neg (not_not.mpr sound.high), if_neg (not_not.mpr low)] at taken
  dsimp only at taken
  rw [if_neg (by omega)] at taken
  split at taken
  · cases taken
  · obtain rfl := Option.some_inj.mp taken
    generalize new : (⟨some m, .wanted, Max.max priority t.maxPriority, priority⟩ : LmgrLock μ) = lock
    have key : lock.key = (some m, .wanted) := by rw [← new]; rfl
    refine ⟨?_, ?_, ?_, ?_, ?_⟩
    · exact (List.length_set ..).trans size
    · dsimp only
      omega
    · dsimp only
      omega
    · have entries : (t.lockList.set (t.current + 1).toNat lock).take (t.current + 1 + 1).toNat =
          t.entries ++ [lock] := by
        rw [Int.toNat_add (by omega) (by decide)]
        rw [show (1 : ℤ).toNat = 1 from rfl, take_succ_getD (by rwa [List.length_set]) emptyLock,
          take_set_self, getD_set_self here]
        rfl
      have keys : t.keys = t.granted.map fun m => (some m, LmgrState.granted) := by
        rw [LmgrThread.keys, none]
        exact List.append_nil _
      change (((t.lockList.set (t.current + 1).toNat lock).take (t.current + 1 + 1).toNat).map
        LmgrLock.key).Perm
          (t.granted.map (fun m => (some m, LmgrState.granted)) ++ [(some m, LmgrState.wanted)])
      rw [entries, List.map_append, List.map_singleton, key, ← keys]
      exact sound.held.append_right _
    · intro m' wants
      obtain rfl := Option.some_inj.mp wants
      refine ⟨by dsimp only; omega, ?_⟩
      change ((t.lockList.set (t.current + 1).toNat lock).getD (t.current + 1).toNat emptyLock).key = _
      rw [getD_set_self here, key]

theorem postP_sound {t t' : LmgrThread μ} (sound : Sound t) (taken : postP t = some t') :
    Sound { t' with granted := t'.wants.toList ++ t'.granted, wants := none } := by
  rw [postP] at taken
  split at taken
  · cases taken
  case isFalse low =>
    rw [not_not] at low
    dsimp only at taken
    split at taken
    · cases taken
    case isFalse state =>
      rw [not_not] at state
      obtain rfl := Option.some_inj.mp taken
      have here := sound.inside low
      have held := sound.held
      rw [entries_concat low here, List.map_append, List.map_singleton] at held
      generalize lock : t.lockAt t.current.toNat = top at state held
      -- the only wanted lock is the one that is waited for
      have waits : ∃ m, t.wants = some m ∧ top.key = (some m, .wanted) := by
        have inside : top.key ∈ t.keys := held.subset (by simp)
        rw [LmgrThread.keys, List.mem_append, List.mem_map, List.mem_map] at inside
        rcases inside with ⟨m, -, eq⟩ | ⟨m, wants, eq⟩
        · have := congrArg Prod.snd eq
          change LmgrState.granted = top.state at this
          rw [state] at this
          cases this
        · exact ⟨m, Option.mem_toList.mp wants, eq.symm⟩
      obtain ⟨m, wants, key⟩ := waits
      rw [key, LmgrThread.keys, wants] at held
      have rest := (List.perm_append_right_iff _).mp held
      refine ⟨(List.length_set ..).trans sound.size, sound.low, sound.high, ?_,
        fun m' wants => by cases wants⟩
      have newKey : ({ top with state := .granted } : LmgrLock μ).key = (some m, .granted) :=
        Prod.ext (show top.key.1 = some m by rw [key]) rfl
      change (((t.lockList.set t.current.toNat { top with state := .granted }).take
        (t.current + 1).toNat).map
        LmgrLock.key).Perm
          ((t.wants.toList ++ t.granted).map (fun m => (some m, LmgrState.granted)) ++ [])
      rw [Int.toNat_add low (by decide), show (1 : ℤ).toNat = 1 from rfl,
        take_succ_getD (by rwa [List.length_set]) emptyLock, take_set_self, getD_set_self here,
        List.map_append, List.map_singleton, newKey, wants, List.append_nil]
      exact (rest.append_right _).trans (List.perm_append_singleton _ _)

/-! ## The graph of the lists -/

/-- A mutex that is granted waits for its thread, and a thread waits for the mutex that it wants. -/
inductive WaitsFor (threads : List (LmgrThread μ)) : Vertex μ → Vertex μ → Prop where
  | granted {i : ℕ} {t : LmgrThread μ} {m : μ} :
      threads[i]? = some t → m ∈ t.granted → WaitsFor threads (.inr (some m)) (.inl i)
  | wanted {i : ℕ} {t : LmgrThread μ} {m : μ} :
      threads[i]? = some t → t.wants = some m → WaitsFor threads (.inl i) (.inr (some m))

theorem Sound.mem_keys {t : LmgrThread μ} (sound : Sound t) (key : Option μ × LmgrState) :
    (∃ lock ∈ t.entries, lock.key = key) ↔
      (∃ m ∈ t.granted, key = (some m, .granted)) ∨
        ∃ m, t.wants = some m ∧ key = (some m, .wanted) := by
  rw [← List.mem_map, sound.held.mem_iff, LmgrThread.keys, List.mem_append, List.mem_map, List.mem_map]
  simp only [Option.mem_toList, eq_comm]

theorem lmgrNode_eq_some {tid : ℕ} {lock : LmgrLock μ} {a b : Vertex μ} :
    lmgrNode tid lock = some (a, b) ↔
      lock.state = .granted ∧ a = .inr lock.lock ∧ b = .inl tid ∨
        lock.state = .wanted ∧ a = .inl tid ∧ b = .inr lock.lock := by
  cases state : lock.state <;> simp [lmgrNode, state, eq_comm]

theorem mem_nodeList {threads : List (LmgrThread μ)} (sound : ∀ t ∈ threads, Sound t) {a b : Vertex μ} :
    (a, b) ∈ nodeList threads ↔ WaitsFor threads a b := by
  have split : (a, b) ∈ nodeList threads ↔
      ∃ (t : LmgrThread μ) (i : ℕ), threads[i]? = some t ∧
        ∃ lock ∈ t.entries, lmgrNode i lock = some (a, b) := by
    simp only [nodeList, List.mem_flatMap, List.mem_filterMap, Prod.exists,
      List.mem_zipIdx_iff_getElem?]
  rw [split]
  constructor
  · rintro ⟨t, i, is, lock, inside, node⟩
    have key := ((sound t (List.mem_of_getElem? is)).mem_keys lock.key).mp ⟨lock, inside, rfl⟩
    rcases lmgrNode_eq_some.mp node with ⟨state, rfl, rfl⟩ | ⟨state, rfl, rfl⟩
    · rcases key with ⟨m, has, eq⟩ | ⟨m, wants, eq⟩
      · rw [show lock.lock = some m from congrArg Prod.fst eq]
        exact .granted is has
      · cases state.symm.trans (congrArg Prod.snd eq)
    · rcases key with ⟨m, has, eq⟩ | ⟨m, wants, eq⟩
      · cases state.symm.trans (congrArg Prod.snd eq)
      · rw [show lock.lock = some m from congrArg Prod.fst eq]
        exact .wanted is wants
  · intro waits
    cases waits with
    | @granted i t m is has =>
        obtain ⟨lock, inside, eq⟩ :=
          ((sound t (List.mem_of_getElem? is)).mem_keys _).mpr (.inl ⟨m, has, rfl⟩)
        refine ⟨t, i, is, lock, inside, lmgrNode_eq_some.mpr (.inl ⟨congrArg Prod.snd eq, ?_, rfl⟩)⟩
        exact congrArg Sum.inr (congrArg Prod.fst eq).symm
    | @wanted i t m is wants =>
        obtain ⟨lock, inside, eq⟩ :=
          ((sound t (List.mem_of_getElem? is)).mem_keys _).mpr (.inr ⟨m, wants, rfl⟩)
        refine ⟨t, i, is, lock, inside, lmgrNode_eq_some.mpr (.inr ⟨congrArg Prod.snd eq, rfl, ?_⟩)⟩
        exact congrArg Sum.inr (congrArg Prod.fst eq).symm

/-! ## Unlocking -/

theorem lockAt_setLock_of_ne (t : LmgrThread μ) {i j : ℕ} (other : j ≠ i) (lock : LmgrLock μ) :
    (t.setLock i lock).lockAt j = t.lockAt j := by
  rw [LmgrThread.lockAt, LmgrThread.setLock, List.getD_eq_getElem?_getD,
    List.getElem?_set_ne other.symm, LmgrThread.lockAt, List.getD_eq_getElem?_getD]

/-- Every later lock is copied to the place `i`, and the last one stays. -/
theorem shift_loop (t : LmgrThread μ) (i k : ℕ) :
    (List.range' (i + 1) (k + 1)).foldl (fun t j => t.setLock i (t.lockAt j)) t =
      t.setLock i (t.lockAt (i + 1 + k)) := by
  induction k with
  | zero => rfl
  | succ k ih =>
      rw [List.range'_1_concat, List.foldl_append, ih, List.foldl_cons, List.foldl_nil,
        lockAt_setLock_of_ne t (by omega), LmgrThread.setLock, LmgrThread.setLock, LmgrThread.setLock]
      simp only [List.set_set]

/-- What an update of the priorities leaves alone. -/
structure SameKeys (t t' : LmgrThread μ) : Prop where
  locks : t'.lockList.map LmgrLock.key = t.lockList.map LmgrLock.key
  granted : t'.granted = t.granted
  wants : t'.wants = t.wants
  current : t'.current = t.current

theorem priority_sameKeys (t : LmgrThread μ) (js : List ℕ) :
    SameKeys t (js.foldl (fun t j =>
      { t.setLock j { t.lockAt j with maxPriority := Max.max (t.lockAt j).priority t.maxPriority } with
        maxPriority := Max.max (t.lockAt j).priority t.maxPriority }) t) := by
  induction js generalizing t with
  | nil => exact ⟨rfl, rfl, rfl, rfl⟩
  | cons j js ih =>
      have rest :=
        ih { t.setLock j
          { t.lockAt j with maxPriority := Max.max (t.lockAt j).priority t.maxPriority } with
        maxPriority := Max.max (t.lockAt j).priority t.maxPriority }
      refine ⟨rest.locks.trans ?_, rest.granted, rest.wants, rest.current⟩
      change (t.lockList.set j _).map LmgrLock.key = _
      rw [List.map_set]
      have same : ({ t.lockAt j with maxPriority := Max.max (t.lockAt j).priority t.maxPriority } :
        LmgrLock μ).key = (t.lockAt j).key := rfl
      rw [same]
      rcases Nat.lt_or_ge j t.lockList.length with inside | outside
      · rw [LmgrThread.lockAt, List.getD_eq_getElem _ _ inside]
        refine List.ext_getElem (by simp) fun n h₁ h₂ => ?_
        rw [List.getElem_set]
        split
        case isTrue eq => simp [← eq]
        case isFalse => rfl
      · exact List.set_eq_of_length_le (by simpa using outside)

/-- The lists of the shifted thread: the last lock is in the place of the removed one. -/
theorem shiftList_keys {t : LmgrThread μ} {i : ℕ} (before : i < t.current.toNat) :
    ((shiftList t i).lockList.map LmgrLock.key).take t.current.toNat =
        ((t.lockList.take t.current.toNat).map LmgrLock.key).set i (t.lockAt t.current.toNat).key ∧
      (shiftList t i).lockList.length = t.lockList.length ∧
      (shiftList t i).granted = t.granted ∧ (shiftList t i).wants = t.wants := by
  obtain ⟨k, steps⟩ : ∃ k, t.current.toNat - i = k + 1 := ⟨t.current.toNat - i - 1, by omega⟩
  have last : i + 1 + k = t.current.toNat := by omega
  unfold shiftList
  dsimp only
  rw [steps, shift_loop, last]
  generalize moved : t.setLock i (t.lockAt t.current.toNat) = t₁
  have same := priority_sameKeys ({ t₁.setLock t.current.toNat
    { t₁.lockAt t.current.toNat with lock := none, state := .empty } with maxPriority :=
      0 } : LmgrThread μ)
    (List.range t.current.toNat)
  refine ⟨?_, ?_, same.granted.trans (by rw [← moved]; rfl), same.wants.trans (by rw [← moved]; rfl)⟩
  · rw [same.locks]
    change ((t₁.lockList.set t.current.toNat _).map LmgrLock.key).take t.current.toNat = _
    rw [List.map_set, take_set_self, ← moved]
    change ((t.lockList.set i _).map LmgrLock.key).take t.current.toNat = _
    rw [List.map_set, List.take_set, List.map_take]
  · have length := congrArg List.length same.locks
    rw [List.length_map, List.length_map] at length
    rw [length, ← moved]
    change ((t.lockList.set i _).set t.current.toNat _).length = _
    rw [List.length_set, List.length_set]

variable [DecidableEq μ]

theorem findLock_some {t : LmgrThread μ} {m : μ} {n i : ℕ} (found : findLock t m n = some i) :
    i < n ∧ (t.lockAt i).lock = some m := by
  induction n with
  | zero => cases found
  | succ n ih =>
      rw [findLock] at found
      split at found
      case isTrue here =>
        obtain rfl := Option.some_inj.mp found
        exact ⟨Nat.lt_succ_self n, here⟩
      case isFalse =>
        obtain ⟨inside, here⟩ := ih found
        exact ⟨Nat.lt_succ_of_lt inside, here⟩

/-- Taking out a lock of the mutex leaves the list of the other mutexes. -/
theorem erase_held {granted : List μ} {m : μ} {before after : List (Option μ × LmgrState)}
    {lock : LmgrLock μ} (is : lock.lock = some m)
    (held : (before ++ lock.key :: after).Perm (granted.map fun m => (some m, LmgrState.granted))) :
    (before ++ after).Perm ((granted.erase m).map fun m => (some m, LmgrState.granted)) := by
  have inside : lock.key ∈ granted.map fun m => (some m, LmgrState.granted) := held.subset (by simp)
  obtain ⟨m', has, eq⟩ := List.mem_map.mp inside
  have same : m' = m := Option.some_inj.mp ((congrArg Prod.fst eq).trans is)
  subst same
  rw [← eq] at held
  have all : ((some m', LmgrState.granted) :: (before ++ after)).Perm
      ((some m', LmgrState.granted) :: (granted.erase m').map fun m => (some m, LmgrState.granted)) :=
    List.perm_middle.symm.trans (held.trans ((List.perm_cons_erase has).map _))
  exact all.cons_inv

theorem doV_sound {t t' : LmgrThread μ} (sound : Sound t) {m : μ}
    (allowed : t.wants = none ∨ t.wants = some m) (taken : doV t m = some t') :
    Sound (t'.record (.doV m)) := by
  rw [doV] at taken
  split at taken
  · cases taken
  case isFalse low =>
    rw [not_not] at low
    have here := sound.inside low
    have held := sound.held
    have high := sound.high
    rw [entries_concat low here, List.map_append, List.map_singleton] at held
    dsimp only at taken
    by_cases isTop : (t.lockAt t.current.toNat).lock = some m
    · rw [if_pos isTop] at taken
      dsimp only at taken
      rw [if_neg (by omega)] at taken
      obtain rfl := Option.some_inj.mp taken
      rw [LmgrThread.record]
      have size (lock : LmgrLock μ) : (t.lockList.set t.current.toNat lock).length = LMGR_MAX_LOCK :=
        (List.length_set ..).trans sound.size
      have entries (lock : LmgrLock μ) :
        (t.lockList.set t.current.toNat lock).take (t.current - 1 + 1).toNat =
          t.lockList.take t.current.toNat := by
        rw [Int.sub_add_cancel, take_set_self]
      rcases allowed with none | wants
      · rw [if_neg (by rw [LmgrThread.setLock, none]; exact fun eq => by cases eq)]
        refine ⟨size _, by dsimp only; omega, by dsimp only; omega, ?_, ?_⟩
        · change (((t.lockList.set t.current.toNat _).take (t.current - 1 + 1).toNat).map
            LmgrLock.key).Perm
            ((t.granted.erase m).map (fun m => (some m, LmgrState.granted)) ++
              t.wants.toList.map fun m => (some m, LmgrState.wanted))
          rw [LmgrThread.keys, none, Option.toList_none, List.map_nil, List.append_nil] at held
          rw [entries, none, Option.toList_none, List.map_nil, List.append_nil]
          have rest := erase_held isTop held
          rwa [List.append_nil] at rest
        · intro m' wants
          change t.wants = some m' at wants
          rw [none] at wants
          cases wants
      · rw [LmgrThread.setLock, if_pos wants]
        refine ⟨size _, by dsimp only; omega, by dsimp only; omega, ?_, fun m' wants => by cases wants⟩
        change (((t.lockList.set t.current.toNat _).take (t.current - 1 + 1).toNat).map
          LmgrLock.key).Perm
          (t.granted.map (fun m => (some m, LmgrState.granted)) ++ [])
        rw [LmgrThread.keys, wants, (sound.top m wants).2] at held
        rw [entries, List.append_nil]
        exact (List.perm_append_right_iff _).mp held
    · -- a thread that waits gives up the top of its list
      have none : t.wants = none := by
        rcases allowed with none | wants
        · exact none
        · exact absurd (congrArg Prod.fst (sound.top m wants).2) isTop
      rw [if_neg isTop] at taken
      cases found : findLock t m t.current.toNat with
      | none =>
          rw [found] at taken
          simp at taken
      | some i =>
          rw [found] at taken
          dsimp only at taken
          obtain ⟨before, is⟩ := findLock_some found
          obtain ⟨keys, length, granted, wants⟩ := shiftList_keys before
          rw [if_neg (by omega)] at taken
          obtain rfl := Option.some_inj.mp taken
          rw [LmgrThread.record, if_neg (by rw [wants, none]; exact fun eq => by cases eq)]
          refine ⟨length.trans sound.size, by dsimp only; omega, by dsimp only; omega, ?_, ?_⟩
          · change (((shiftList t i).lockList.take (t.current - 1 + 1).toNat).map LmgrLock.key).Perm
              (((shiftList t i).granted.erase m).map (fun m => (some m, LmgrState.granted)) ++
                (shiftList t i).wants.toList.map fun m => (some m, LmgrState.wanted))
            rw [Int.sub_add_cancel, List.map_take, keys, granted, wants, none, Option.toList_none,
              List.map_nil, List.append_nil]
            rw [LmgrThread.keys, none, Option.toList_none, List.map_nil, List.append_nil] at held
            have size : i < ((t.lockList.take t.current.toNat).map LmgrLock.key).length := by
              rw [List.length_map, List.length_take]
              omega
            have at_i : ((t.lockList.take t.current.toNat).map LmgrLock.key)[i] = (t.lockAt i).key := by
              rw [List.getElem_map, List.getElem_take, LmgrThread.lockAt,
                List.getD_eq_getElem _ _ (by omega)]
            generalize (t.lockList.take t.current.toNat).map LmgrLock.key = ks at held size at_i
            have split : ks = ks.take i ++ (t.lockAt i).key :: ks.drop (i + 1) := by
              rw [← at_i, ← List.drop_eq_getElem_cons size, List.take_append_drop]
            rw [List.set_eq_take_append_cons_drop, if_pos size]
            rw [split, List.append_assoc, List.cons_append] at held
            have rest := erase_held is held
            refine List.Perm.trans ?_ rest
            exact List.Perm.append_left _ (List.perm_append_singleton _ _).symm
          · intro m' waits
            change (shiftList t i).wants = some m' at waits
            rw [wants, none] at waits
            cases waits

theorem reached_sound {n : ℕ} {threads : List (LmgrThread μ)} (reached : Reached n threads) :
    ∀ t ∈ threads, Sound t := by
  obtain ⟨actions, run⟩ := reached
  have preserved (s : List (LmgrThread μ)) (a : Action μ) (s' : List (LmgrThread μ))
    (sound : ∀ t ∈ s, Sound t)
      (taken : Transition.Guarded (fun s a s' => step s a = some s') Allowed s a s') :
      ∀ t ∈ s', Sound t := by
    obtain ⟨allowed, taken⟩ := taken
    obtain ⟨t, is, taken⟩ := Option.bind_eq_some_iff.mp taken
    obtain ⟨t', called, eq⟩ := Option.bind_eq_some_iff.mp taken
    obtain rfl := Option.some_inj.mp eq
    intro other inside
    rcases List.mem_or_eq_of_mem_set inside with old | rfl
    · exact sound other old
    · have before := sound t (List.mem_of_getElem? is)
      have may := allowed t is
      generalize a.call = c at called may
      cases c with
      | preP m priority => exact preP_sound before may.1 may.2 called
      | postP => exact postP_sound before called
      | doV m => exact doV_sound before may called
  exact run.invariant preserved fun t inside => (List.eq_of_mem_replicate inside) ▸ newThread_sound

/-! ## Deadlocks -/

theorem mem_searchAllNode {g : List (Vertex μ × Vertex μ)} {u w : ℕ} :
    w ∈ searchAllNode g u ↔ ∃ a b c, g[u]? = some (a, b) ∧ g[w]? = some (b, c) := by
  rw [searchAllNode]
  cases at_u : g[u]? with
  | none => simp
  | some node =>
      rw [List.mem_filter, List.mem_range, decide_eq_true_eq, Option.map_eq_some_iff]
      constructor
      · rintro ⟨-, ⟨b, c⟩, at_w, eq⟩
        exact ⟨node.1, b, c, congrArg some (Prod.ext rfl eq.symm), at_w⟩
      · rintro ⟨a, b, c, eq, at_w⟩
        obtain rfl := Option.some_inj.mp eq
        exact ⟨(List.getElem?_eq_some_iff.mp at_w).1, (b, c), at_w, rfl⟩

/-- The end of a path of nodes is reached from the child of the first. -/
theorem reached_of_nodes {g : List (Vertex μ × Vertex μ)} {u w : ℕ}
    (path : TransGen (CycleSearch.Edge (searchAllNode g)) u w) {a b : Vertex μ}
    (first : g[u]? = some (a, b)) :
    ∃ c d, g[w]? = some (c, d) ∧ TransGen (fun a b => (a, b) ∈ g) b d := by
  induction path with
  | single edge =>
      obtain ⟨a', b', d, at_u, at_w⟩ := mem_searchAllNode.mp edge
      obtain ⟨-, rfl⟩ := Prod.mk.inj (Option.some_inj.mp (first.symm.trans at_u))
      exact ⟨b, d, at_w, .single (List.mem_of_getElem? at_w)⟩
  | tail _ edge ih =>
      obtain ⟨c, d, at_v, reach⟩ := ih
      obtain ⟨c', d', e, at_v', at_w⟩ := mem_searchAllNode.mp edge
      obtain ⟨-, rfl⟩ := Prod.mk.inj (Option.some_inj.mp (at_v.symm.trans at_v'))
      exact ⟨d, e, at_w, reach.tail (List.mem_of_getElem? at_w)⟩

/-- A path has a first node and a last one, and nodes lead from one to the other. -/
theorem nodes_of_reached {g : List (Vertex μ × Vertex μ)} {a b : Vertex μ}
    (path : TransGen (fun a b => (a, b) ∈ g) a b) :
    ∃ u w x y, g[u]? = some (a, x) ∧ g[w]? = some (y, b) ∧
      ReflTransGen (CycleSearch.Edge (searchAllNode g)) u w := by
  induction path with
  | single edge =>
      obtain ⟨u, at_u⟩ := List.mem_iff_getElem?.mp edge
      exact ⟨u, u, _, _, at_u, at_u, .refl⟩
  | tail _ edge ih =>
      obtain ⟨u, v, x, y, at_u, at_v, nodes⟩ := ih
      obtain ⟨w, at_w⟩ := List.mem_iff_getElem?.mp edge
      exact ⟨u, w, x, _, at_u, at_w, nodes.tail (mem_searchAllNode.mpr ⟨y, _, _, at_v, at_w⟩)⟩

theorem nodes_cycle_iff {g : List (Vertex μ × Vertex μ)} :
    (∃ u, TransGen (CycleSearch.Edge (searchAllNode g)) u u) ↔
      ∃ v, TransGen (fun a b => (a, b) ∈ g) v v := by
  constructor
  · rintro ⟨u, path⟩
    obtain ⟨w, edge, -⟩ := TransGen.head'_iff.mp path
    obtain ⟨a, b, c, at_u, -⟩ := mem_searchAllNode.mp edge
    obtain ⟨a', b', at_u', cycle⟩ := reached_of_nodes path at_u
    obtain ⟨-, rfl⟩ := Prod.mk.inj (Option.some_inj.mp (at_u.symm.trans at_u'))
    exact ⟨b, cycle⟩
  · rintro ⟨v, cycle⟩
    obtain ⟨u, w, x, y, at_u, at_w, path⟩ := nodes_of_reached cycle
    exact ⟨u, TransGen.tail' path (mem_searchAllNode.mpr ⟨y, v, x, at_w, at_u⟩)⟩

theorem lmgrDetectDeadlock_iff {threads : List (LmgrThread μ)} (sound : ∀ t ∈ threads, Sound t) :
    lmgrDetectDeadlock threads = true ↔ ∃ v, TransGen (WaitsFor threads) v v := by
  have edges : (fun a b => (a, b) ∈ nodeList threads) = WaitsFor threads := by
    funext a b
    exact propext (mem_nodeList sound)
  rw [← edges, ← nodes_cycle_iff, lmgrDetectDeadlock]
  refine CycleSearch.containsCycle_iff (fun u w edge => ?_) (le_of_eq List.length_range)
  obtain ⟨a, b, c, at_u, at_w⟩ := mem_searchAllNode.mp edge
  exact ⟨List.mem_range.mpr (List.getElem?_eq_some_iff.mp at_u).1,
    List.mem_range.mpr (List.getElem?_eq_some_iff.mp at_w).1⟩

/-- The list of every thread holds its mutexes and the one that it waits for, in the table, and the
search finds a deadlock exactly when there is one. -/
theorem lockmgr_law {n : ℕ} {threads : List (LmgrThread μ)} (reached : Reached n threads) :
    (∀ t ∈ threads, (t.entries.map LmgrLock.key).Perm t.keys ∧ -1 ≤ t.current ∧
      t.current < LMGR_MAX_LOCK) ∧
      (lmgrDetectDeadlock threads = true ↔ ∃ v, TransGen (WaitsFor threads) v v) := by
  have sound := reached_sound reached
  exact ⟨fun t inside => ⟨(sound t inside).held, (sound t inside).low, (sound t inside).high⟩,
    lmgrDetectDeadlock_iff sound⟩

theorem Reached.call {n : ℕ} {threads threads' : List (LmgrThread μ)} (reached : Reached n threads)
    (i : ℕ) (c : Call μ) {t : LmgrThread μ} (is : threads[i]? = some t) (may : AllowedCall t c)
    (taken : step threads ⟨i, c⟩ = some threads') : Reached n threads' := by
  obtain ⟨actions, run⟩ := reached
  refine ⟨actions ++ [⟨i, c⟩], run.append (.cons ⟨fun t' is' => ?_, taken⟩ (.nil _))⟩
  obtain rfl := Option.some_inj.mp (is.symm.trans is')
  exact may

/-- Two threads that take two mutexes in different orders. -/
theorem crossed_deadlock :
    ∃ threads : List (LmgrThread ℕ), Reached 2 threads ∧ ∃ v, TransGen (WaitsFor threads) v v := by
  have begin : Reached 2 (List.replicate 2 (newThread : LmgrThread ℕ)) := ⟨[], .nil _⟩
  have first := (begin.call 0 (.preP 1 0) rfl (by decide) rfl).call 0 .postP rfl trivial rfl
  have second := (first.call 1 (.preP 2 0) rfl (by decide) rfl).call 1 .postP rfl trivial rfl
  have crossed := (second.call 0 (.preP 2 0) rfl (by decide) rfl).call 1 (.preP 1 0) rfl (by decide) rfl
  exact ⟨_, crossed, (lockmgr_law crossed).2.mp (by decide)⟩

end Bacula.Lockmgr
