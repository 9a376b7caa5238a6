import Bacula.Lib.Watchdog

/-! The law of `Watchdog`: both queues stay lists without a common watchdog, what was unregistered
is in none of them, and the walk has passed exactly the front of the queue. -/
namespace Bacula.Watchdog
open Dlist Ring

variable {ι : Type}

section Lists

variable {l l' : Dlist.State ι} {xs pre post : List ι} {w : ι}

/-- A list is its ends and the links of its items. -/
theorem represents_congr (rep : l.Represents xs) (head : l'.head = l.head) (tail : l'.tail = l.tail)
    (numItems : l'.numItems = l.numItems) (links : ∀ x ∈ xs, l'.link x = l.link x) :
    l'.Represents xs := by
  refine ⟨rep.linked.congr ?_ ?_, rep.nodup, by rw [numItems]; exact rep.numItems⟩
  · intro y member
    rcases List.mem_cons.mp member with rfl | inside
    · exact head
    · obtain ⟨x, mem, rfl⟩ := List.mem_map.mp inside
      change (l'.link x).next = (l.link x).next
      rw [links x mem]
  · intro y member
    rcases List.mem_append.mp member with inside | last
    · obtain ⟨x, mem, rfl⟩ := List.mem_map.mp inside
      change (l'.link x).prev = (l.link x).prev
      rw [links x mem]
    · rw [List.mem_singleton.mp last]
      exact tail

theorem inQueue_iff (rep : l.Represents xs) : InQueue l w ↔ w ∈ xs := by
  constructor
  · rintro ⟨n, reached⟩
    -- the walk never leaves the items
    have stays : ∀ n y, l.next^[n + 1] none = some y → y ∈ xs := by
      intro n
      induction n with
      | zero =>
          intro y first
          exact List.mem_of_head? (rep.head.symm.trans first)
      | succ n ih =>
          intro y next
          rw [Function.iterate_succ_apply'] at next
          cases before : l.next^[n + 1] none with
          | none =>
              rw [before] at next
              exact List.mem_of_head? (rep.head.symm.trans next)
          | some x =>
              obtain ⟨pre, post, rfl⟩ := List.mem_iff_append.mp (ih x before)
              rw [before] at next
              have behind : post.head? = some y := rep.neighbours.1.symm.trans next
              exact List.mem_append_right pre (List.mem_cons_of_mem _ (List.mem_of_head? behind))
    exact stays n w reached
  · intro member
    obtain ⟨k, inside, rfl⟩ := List.mem_iff_getElem.mp member
    refine ⟨k, ?_⟩
    have first : l.next none = xs[0]? := rep.head.trans List.head?_eq_getElem?
    rw [Function.iterate_succ_apply, first, rep.next_iterate (by omega), Nat.zero_add]
    exact List.getElem?_eq_getElem inside

theorem next_getLast (rep : l.Represents (pre ++ post)) : l.next pre.getLast? = post.head? := by
  rcases List.eq_nil_or_concat' pre with rfl | ⟨front, x, rfl⟩
  · exact rep.head
  · rw [List.append_assoc] at rep
    rw [List.getLast?_concat]
    exact rep.neighbours.1

theorem removeTouches_subset (rep : l.Represents xs) (member : w ∈ xs) :
    removeTouches l w ⊆ xs := by
  obtain ⟨pre, post, rfl⟩ := List.mem_iff_append.mp member
  obtain ⟨behind, before⟩ := rep.neighbours
  intro x touched
  simp only [removeTouches, behind, before, List.mem_append, List.mem_cons,
    Option.mem_toList] at touched
  rcases touched with (rfl | next) | last
  · exact member
  · exact List.mem_append_right pre (List.mem_cons_of_mem _ (List.mem_of_head? next))
  · exact List.mem_append_left _ (List.mem_of_getLast? last)

theorem appendTouches_subset (rep : l.Represents xs) (w : ι) : appendTouches l w ⊆ w :: xs := by
  intro x touched
  simp only [appendTouches, rep.tail, List.mem_cons, Option.mem_toList] at touched
  rcases touched with rfl | last
  · exact List.mem_cons_self
  · exact List.mem_cons_of_mem _ (List.mem_of_getLast? last)

variable [DecidableEq ι]

/-- `foreach_dlist` behind some items finds the watchdog if it is among the others. -/
theorem find_spec (rep : l.Represents (pre ++ post)) {fuel : ℕ} (enough : post.length < fuel) :
    ∃ way, find l w fuel pre.getLast? = some (decide (w ∈ post), way) ∧ way ⊆ post := by
  induction post generalizing pre fuel with
  | nil =>
      obtain ⟨fuel, rfl⟩ := Nat.exists_eq_succ_of_ne_zero (Nat.pos_iff_ne_zero.mp enough)
      exact ⟨[], by simp [find, next_getLast rep], fun _ member => member⟩
  | cons x rest ih =>
      obtain ⟨fuel, rfl⟩ := Nat.exists_eq_succ_of_ne_zero (Nat.ne_of_gt (Nat.zero_lt_of_lt enough))
      have next : l.next pre.getLast? = some x := next_getLast rep
      by_cases same : x = w
      · exact ⟨[x], by simp [find, next, same], by simp⟩
      · have shifted : l.Represents ((pre ++ [x]) ++ rest) := by
          rw [List.append_assoc]
          exact rep
        obtain ⟨way, found, inside⟩ := ih shifted (Nat.lt_of_succ_lt_succ enough)
        rw [List.getLast?_concat] at found
        refine ⟨x :: way, ?_, List.cons_subset_cons x inside⟩
        simp [find, next, same, found, Ne.symm same]

theorem search_spec (rep : l.Represents xs) (w : ι) :
    ∃ way, search l w = some (decide (w ∈ xs), way) ∧ way ⊆ xs := by
  have from_start : l.Represents ([] ++ xs) := rep
  exact find_spec from_start (by rw [rep.numItems]; exact Nat.lt_succ_self _)

theorem setNext_link {item x : ι} (apart : x ≠ item) (value : Option ι) :
    (l.setNext item value).link x = l.link x := by
  simp [State.setNext, apart]

theorem setPrev_link {item x : ι} (apart : x ≠ item) (value : Option ι) :
    (l.setPrev item value).link x = l.link x := by
  simp [State.setPrev, apart]

/-- `append` writes the links of the item and of the tail. -/
theorem append_link (l : Dlist.State ι) {item x : ι} (apart : x ∉ appendTouches l item) :
    (l.append item).link x = l.link x := by
  simp only [appendTouches, List.mem_cons, Option.mem_toList, not_or] at apart
  have headed : ∀ m : Dlist.State ι,
      (if m.head = none then m.setHead (some item) else m).link = m.link := by
    intro m
    split <;> rfl
  change ((if _ then _ else _ : Dlist.State ι)).link x = _
  rw [headed]
  have linked : ((l.setNext item none).setPrev item l.tail).tail = l.tail := rfl
  rw [linked]
  cases tail : l.tail with
  | none =>
      change ((l.setNext item none).setPrev item none).link x = l.link x
      rw [setPrev_link apart.1, setNext_link apart.1]
  | some y =>
      have other : x ≠ y := fun same => apart.2 (by rw [tail, same])
      change (((l.setNext item none).setPrev item (some y)).setNext y (some item)).link x = l.link x
      rw [setNext_link other, setPrev_link apart.1, setNext_link apart.1]

theorem unlink_link {item x : ι} (unlinked : l.unlink item = some l')
    (apart : x ∉ removeTouches l item) : l'.link x = l.link x := by
  simp only [removeTouches, List.mem_append, List.mem_cons, Option.mem_toList, not_or] at apart
  obtain ⟨⟨-, behind⟩, before⟩ := apart
  unfold State.unlink at unlinked
  split at unlinked
  · have value := Option.some.inj unlinked
    rw [← value]
    have tailed : ∀ m : Dlist.State ι, ∀ c : Prop, ∀ _ : Decidable c, ∀ v,
        (if c then m.setTail v else m).link = m.link := by
      intro m c _ v
      split <;> rfl
    rw [tailed]
    cases next : (l.link item).next with
    | none => rfl
    | some y =>
        have other : x ≠ y := fun same => behind (by rw [next, same])
        exact setPrev_link other none
  split at unlinked
  · have value := Option.some.inj unlinked
    rw [← value]
    cases prev : (l.link item).prev with
    | none => rfl
    | some y =>
        have other : x ≠ y := fun same => before (by rw [prev, same])
        exact setNext_link other none
  · cases next : (l.link item).next with
    | none => simp [next] at unlinked
    | some y =>
        have other : x ≠ y := fun same => behind (by rw [next, same])
        simp only [next, Option.bind_eq_bind, Option.bind_some] at unlinked
        have kept : ((l.setPrev y (l.link item).prev).link item).prev = (l.link item).prev := by
          by_cases same : item = y
          · simp [State.setPrev, same]
          · rw [setPrev_link same]
        rw [kept] at unlinked
        cases prev : (l.link item).prev with
        | none => simp [prev] at unlinked
        | some z =>
            simp only [prev, Option.bind_some, Option.some.injEq] at unlinked
            have other' : x ≠ z := fun same => before (by rw [prev, same])
            rw [← unlinked, setNext_link other', setPrev_link other]

/-- `remove` writes the links of the item and of its neighbours. -/
theorem remove_link {item x : ι} (removed : l.remove item = some l')
    (apart : x ∉ removeTouches l item) : l'.link x = l.link x := by
  have self : x ≠ item :=
    fun same => apart (by rw [same]; exact List.mem_append_left _ List.mem_cons_self)
  unfold State.remove at removed
  cases unlinked : l.unlink item with
  | none => simp [unlinked] at removed
  | some m =>
      simp only [unlinked, Option.bind_eq_bind, Option.bind_some, Option.some.injEq] at removed
      rw [← removed, setNext_link self, setPrev_link self, ← unlink_link unlinked apart]
      split <;> rfl

theorem remove_spec (rep : l.Represents xs) (member : w ∈ xs) :
    ∃ l', l.remove w = some l' ∧ l'.Represents (xs.erase w) ∧
      ∀ x, x ∉ xs → l'.link x = l.link x := by
  obtain ⟨pre, post, -, split, erased⟩ := List.exists_erase_eq member
  rw [split] at rep
  obtain ⟨l', removed, rep', -, -⟩ := rep.remove
  rw [← split] at rep
  refine ⟨l', removed, by rw [erased]; exact rep', fun x outside => ?_⟩
  exact remove_link removed fun touched => outside (removeTouches_subset rep member touched)

end Lists

section Queues

variable [DecidableEq ι] {s : State ι} {q i : List ι} {w : ι}

/-- The two queues are lists without a common watchdog. -/
structure Shape (s : State ι) (q i : List ι) : Prop where
  queue : s.wdQueue.Represents q
  inactive : s.wdInactive.Represents i
  apart : q.Disjoint i

theorem Shape.append_queue (shape : Shape s q i) (freshQ : w ∉ q) (freshI : w ∉ i) :
    Shape (s.setQueue (s.wdQueue.append w)) (q ++ [w]) i := by
  refine ⟨shape.queue.append freshQ, ?_, ?_⟩
  · refine represents_congr shape.inactive rfl rfl rfl fun x member => ?_
    refine append_link s.wdQueue fun touched => ?_
    rcases List.mem_cons.mp (appendTouches_subset shape.queue w touched) with rfl | inside
    · exact freshI member
    · exact shape.apart inside member
  · rw [List.disjoint_append_left, List.singleton_disjoint]
    exact ⟨shape.apart, freshI⟩

theorem Shape.append_inactive (shape : Shape s q i) (freshQ : w ∉ q) (freshI : w ∉ i) :
    Shape (s.setInactive (s.wdInactive.append w)) q (i ++ [w]) := by
  refine ⟨?_, shape.inactive.append freshI, ?_⟩
  · refine represents_congr shape.queue rfl rfl rfl fun x member => ?_
    refine append_link s.wdInactive fun touched => ?_
    rcases List.mem_cons.mp (appendTouches_subset shape.inactive w touched) with rfl | inside
    · exact freshQ member
    · exact shape.apart member inside
  · rw [List.disjoint_append_right, List.disjoint_singleton]
    exact ⟨shape.apart, freshQ⟩

theorem Shape.remove_queue (shape : Shape s q i) (member : w ∈ q) :
    ∃ l, s.wdQueue.remove w = some l ∧ Shape (s.setQueue l) (q.erase w) i := by
  obtain ⟨l, removed, rep, links⟩ := remove_spec shape.queue member
  refine ⟨l, removed, rep, ?_, ?_⟩
  · exact represents_congr shape.inactive rfl rfl rfl fun x inside =>
      links x fun other => shape.apart other inside
  · exact List.disjoint_of_subset_left List.erase_subset shape.apart

theorem Shape.remove_inactive (shape : Shape s q i) (member : w ∈ i) :
    ∃ l, s.wdInactive.remove w = some l ∧ Shape (s.setInactive l) q (i.erase w) := by
  obtain ⟨l, removed, rep, links⟩ := remove_spec shape.inactive member
  refine ⟨l, removed, ?_, rep, ?_⟩
  · exact represents_congr shape.queue rfl rfl rfl fun x inside =>
      links x fun other => shape.apart inside other
  · exact List.disjoint_of_subset_right List.erase_subset shape.apart

end Queues

section Log

variable {log : List (Event ι)} {w : ι} {event : Event ι}

/-- The newest event is the mark, or it leaves the mark in what was logged before. -/
theorem since_cons {mark : Event ι} :
    (∃ later earlier, event :: log = later ++ mark :: earlier ∧ .registered w ∉ later) ↔
      event = mark ∨
        (event ≠ .registered w ∧
          ∃ later earlier, log = later ++ mark :: earlier ∧ .registered w ∉ later) := by
  constructor
  · rintro ⟨later, earlier, split, fresh⟩
    cases later with
    | nil => exact .inl (List.cons.inj split).1
    | cons first later =>
        obtain ⟨rfl, rest⟩ := List.cons.inj split
        rw [List.mem_cons, not_or] at fresh
        exact .inr ⟨fun same => fresh.1 same.symm, later, earlier, rest, fresh.2⟩
  · rintro (rfl | ⟨other, later, earlier, rfl, fresh⟩)
    · exact ⟨[], log, rfl, List.not_mem_nil⟩
    · exact ⟨event :: later, earlier, rfl, by simp [Ne.symm other, fresh]⟩

theorem gone_cons : Gone w (event :: log) ↔
    event = .unregistered w true ∨ (event ≠ .registered w ∧ Gone w log) :=
  since_cons

theorem fired_cons : Fired w (event :: log) ↔
    event = .returned w true ∨ (event ≠ .registered w ∧ Fired w log) :=
  since_cons

theorem gone_touched (wds : List ι) : Gone w (wds.map .touched ++ log) ↔ Gone w log := by
  induction wds with
  | nil => rfl
  | cons x rest ih =>
      rw [List.map_cons, List.cons_append, gone_cons, ih]
      simp

theorem fired_touched (wds : List ι) : Fired w (wds.map .touched ++ log) ↔ Fired w log := by
  induction wds with
  | nil => rfl
  | cons x rest ih =>
      rw [List.map_cons, List.cons_append, fired_cons, ih]
      simp

/-- Nothing in the log is against the law. -/
def SoundLog : List (Event ι) → Prop
  | [] => True
  | event :: log => SoundLog log ∧
      ∀ w, (event = .called w → ¬ Fired w log) ∧
        (event = .called w ∨ event = .touched w → ¬ Gone w log)

theorem soundLog_split {later : List (Event ι)} (sound : SoundLog (later ++ event :: log)) :
    (event = .called w → ¬ Fired w log) ∧
      (event = .called w ∨ event = .touched w → ¬ Gone w log) := by
  induction later with
  | nil => exact sound.2 w
  | cons first rest ih => exact ih sound.1

/-- The watchdogs of the queue can be called, and those of both queues touched. -/
structure Kept (q i : List ι) (log : List (Event ι)) : Prop where
  queue : ∀ w ∈ q, ¬ Gone w log ∧ ¬ Fired w log
  inactive : ∀ w ∈ i, ¬ Gone w log
  sound : SoundLog log

variable {q i q' i' : List ι}

theorem Kept.touched (kept : Kept q i log) {wds : List ι} (known : ∀ w ∈ wds, w ∈ q ∨ w ∈ i) :
    Kept q i (wds.map .touched ++ log) := by
  refine ⟨?_, ?_, ?_⟩
  · intro w member
    rw [gone_touched, fired_touched]
    exact kept.queue w member
  · intro w member
    rw [gone_touched]
    exact kept.inactive w member
  · induction wds with
    | nil => exact kept.sound
    | cons x rest ih =>
        refine ⟨ih fun w member => known w (List.mem_cons_of_mem _ member), fun w => ⟨nofun, ?_⟩⟩
        rintro (same | same)
        · cases same
        · cases same
          change ¬ Gone x (rest.map .touched ++ log)
          rw [gone_touched]
          rcases known x List.mem_cons_self with inside | inside
          · exact (kept.queue x inside).1
          · exact kept.inactive x inside

theorem Kept.registered (kept : Kept q i log) (w : ι) :
    Kept (q ++ [w]) i (.registered w :: log) := by
  refine ⟨?_, ?_, kept.sound, fun x => ⟨nofun, nofun⟩⟩
  · intro x member
    rw [gone_cons, fired_cons]
    rcases List.mem_append.mp member with inside | same
    · have old := kept.queue x inside
      simp [old.1, old.2]
    · rw [List.mem_singleton.mp same]
      simp
  · intro x member
    rw [gone_cons]
    simp [kept.inactive x member]

theorem Kept.unregistered (kept : Kept q i log) {ok : Bool} (w : ι) (lessQ : q' ⊆ q)
    (lessI : i' ⊆ i) (out : ok = true → w ∉ q' ∧ w ∉ i') :
    Kept q' i' (.unregistered w ok :: log) := by
  refine ⟨?_, ?_, kept.sound, fun x => ⟨nofun, nofun⟩⟩
  · intro x member
    have old := kept.queue x (lessQ member)
    rw [gone_cons, fired_cons]
    refine ⟨?_, by simp [old.2]⟩
    rintro (same | ⟨-, gone⟩)
    · cases same
      exact (out rfl).1 member
    · exact old.1 gone
  · intro x member
    rw [gone_cons]
    rintro (same | ⟨-, gone⟩)
    · cases same
      exact (out rfl).2 member
    · exact kept.inactive x (lessI member) gone

theorem Kept.called (kept : Kept q i log) (member : w ∈ q) : Kept q i (.called w :: log) := by
  refine ⟨?_, ?_, kept.sound, fun x => ?_⟩
  · intro x inside
    rw [gone_cons, fired_cons]
    simp [kept.queue x inside]
  · intro x inside
    rw [gone_cons]
    simp [kept.inactive x inside]
  · constructor
    · intro same
      cases same
      exact (kept.queue w member).2
    · rintro (same | same)
      · cases same
        exact (kept.queue w member).1
      · cases same

theorem Kept.returned (kept : Kept q i log) {oneShot : Bool} (member : w ∈ q) (lessQ : q' ⊆ q)
    (out : oneShot = true → w ∉ q') (moved : i' ⊆ i ++ [w]) :
    Kept q' i' (.returned w oneShot :: log) := by
  refine ⟨?_, ?_, kept.sound, fun x => ⟨nofun, nofun⟩⟩
  · intro x inside
    have old := kept.queue x (lessQ inside)
    rw [gone_cons, fired_cons]
    refine ⟨by simp [old.1], ?_⟩
    rintro (same | ⟨-, fired⟩)
    · cases same
      exact out rfl inside
    · exact old.2 fired
  · intro x inside
    rw [gone_cons]
    rintro (same | ⟨-, gone⟩)
    · cases same
    · rcases List.mem_append.mp (moved inside) with old | same
      · exact kept.inactive x old gone
      · rw [List.mem_singleton.mp same] at gone
        exact (kept.queue w member).1 gone

end Log

section Steps

variable {s : State ι} {q i : List ι}

/-- Where the walk is: the watchdog that is called, and the watchdogs that the walk has not passed. -/
def At (s : State ι) (q : List ι) (ahead : Option ι → List ι → Prop) : Prop :=
  match s.thread with
  | .sleeping => True
  | .walking p => ∃ visited rest, q = visited ++ rest ∧ p = rest.head? ∧ ahead none rest
  | .calling p => ∃ visited rest, q = visited ++ p :: rest ∧ ahead (some p) rest

/-- The walk comes to the watchdog, or it has seen that it is not due. -/
def Ahead (s : State ι) (wd : ι) (p : Option ι) (rest : List ι) : Prop :=
  p ≠ some wd ∧ (wd ∈ rest ∨ s.watchdogTime < (s.wd wd).nextFire)

/-- The thread is in no walk, or it calls a watchdog of the queue. -/
theorem At.of_open {s' : State ι} {q' : List ι} {ahead ahead' : Option ι → List ι → Prop}
    (isOpen : s.Open) (same : s'.thread = s.thread) (place : At s q ahead)
    (moved : ∀ p visited rest, s.thread = .calling p → q = visited ++ p :: rest →
      ahead (some p) rest → ∃ visited' rest', q' = visited' ++ p :: rest' ∧ ahead' (some p) rest') :
    At s' q' ahead' := by
  unfold At at place ⊢
  rw [same]
  unfold State.Open at isOpen
  cases thread : s.thread with
  | sleeping => trivial
  | walking p => simp [thread] at isOpen
  | calling p =>
      simp only [thread] at place ⊢
      obtain ⟨visited, rest, split, here⟩ := place
      exact moved p visited rest thread split here

/-- The walk starts again. -/
theorem walkList_at (shape : Shape s q i) (time : ℤ) {ahead : Option ι → List ι → Prop}
    (all : ahead none q) : At (walkList s time) q ahead :=
  ⟨[], q, rfl, shape.queue.head, all⟩

/-- The walk passes a watchdog. -/
theorem walkOn_at (shape : Shape s q i) {p : ι} {visited rest : List ι}
    (split : q = visited ++ p :: rest) {ahead : Option ι → List ι → Prop}
    (behind : ahead none rest) : At (walkOn s p) q ahead := by
  refine ⟨visited ++ [p], rest, by simp [split], ?_, behind⟩
  have queue := shape.queue
  rw [split] at queue
  exact queue.neighbours.1

structure Inv (s : State ι) (q i : List ι) : Prop where
  shape : Shape s q i
  place : At s q fun _ _ => True
  kept : Kept q i s.log

/-- The watchdog is called or unregistered, or the walk still comes to it. -/
def Follows (s : State ι) (q : List ι) (s' : State ι) (q' : List ι) : Prop :=
  ∃ new, s'.log = new ++ s.log ∧ ∀ wd ∈ q, At s q (Ahead s wd) →
    .called wd ∈ new ∨ .unregistered wd true ∈ new ∨
      (wd ∈ q' ∧ (s'.wd wd).nextFire = (s.wd wd).nextFire ∧ At s' q' (Ahead s' wd))

/-- Nothing happens. -/
theorem Follows.refl (s : State ι) (q : List ι) : Follows s q s q :=
  ⟨[], rfl, fun _ member ahead => .inr (.inr ⟨member, rfl, ahead⟩)⟩

theorem start_inv (wd : ι → WatchdogT) (link : ι → Dlink ι) (time : ℤ) :
    Inv (start wd link time) [] [] :=
  ⟨⟨⟨⟨rfl, rfl⟩, List.nodup_nil, rfl⟩, ⟨⟨rfl, rfl⟩, List.nodup_nil, rfl⟩, List.disjoint_nil_left _⟩,
    trivial, nofun, nofun, trivial⟩

theorem Inv.sound (inv : Inv s q i) : Sound s := by
  refine ⟨?_, ?_, ?_⟩
  · intro later wd earlier split
    have sound := inv.kept.sound
    rw [split] at sound
    exact (soundLog_split sound).1 rfl
  · intro later event wd earlier split touches
    have sound := inv.kept.sound
    rw [split] at sound
    exact (soundLog_split sound).2 touches
  · rintro wd ⟨first, second⟩
    rw [inQueue_iff inv.shape.queue] at first
    rw [inQueue_iff inv.shape.inactive] at second
    exact inv.shape.apart first second

theorem wake_spec (inv : Inv s q i) (time : ℤ) : Inv (walkList s time) q i :=
  ⟨⟨inv.shape.queue, inv.shape.inactive, inv.shape.apart⟩,
    walkList_at inv.shape time trivial, inv.kept⟩

variable [DecidableEq ι]

theorem register_spec (inv : Inv s q i) (isOpen : s.Open) {wd : ι} (freshQ : wd ∉ q)
    (freshI : wd ∉ i) :
    ∃ q', Inv (registerWatchdog s wd) q' i ∧ Follows s q (registerWatchdog s wd) q' := by
  unfold registerWatchdog
  split
  · exact ⟨q, inv, .refl s q⟩
  refine ⟨q ++ [wd], ⟨?_, ?_, ?_⟩, ?_⟩
  · have moved := inv.shape.append_queue freshQ freshI
    exact ⟨moved.queue, moved.inactive, moved.apart⟩
  · refine inv.place.of_open isOpen rfl fun p visited rest _ split _ => ?_
    exact ⟨visited, rest ++ [wd], by simp [split], trivial⟩
  · refine Kept.touched (inv.kept.registered wd) fun x touched => ?_
    left
    rcases List.mem_cons.mp (appendTouches_subset inv.shape.queue wd touched) with rfl | inside
    · exact List.mem_append_right q List.mem_cons_self
    · exact List.mem_append_left _ inside
  · refine ⟨(appendTouches s.wdQueue wd).map .touched ++ [.registered wd], ?_, ?_⟩
    · rw [List.append_assoc]
      rfl
    intro x member ahead
    have other : x ≠ wd := fun same => freshQ (same ▸ member)
    refine .inr (.inr ⟨List.mem_append_left _ member, ?_, ?_⟩)
    · change (Function.update s.wd wd _ x).nextFire = _
      rw [Function.update_of_ne other]
    · refine ahead.of_open isOpen rfl fun p visited rest _ split here => ?_
      refine ⟨visited, rest ++ [wd], by simp [split], here.1, ?_⟩
      change x ∈ rest ++ [wd] ∨ s.watchdogTime < (Function.update s.wd wd _ x).nextFire
      rw [Function.update_of_ne other]
      exact here.2.imp_left (List.mem_append_left _)

/-- The queue loses a watchdog that is not being called. -/
theorem At.erase {s' : State ι} {ahead ahead' : Option ι → List ι → Prop} {wd : ι}
    (isOpen : s.Open) (same : s'.thread = s.thread) (other : s.thread ≠ .calling wd)
    (place : At s q ahead)
    (moved : ∀ p rest rest', ahead (some p) rest → (rest' = rest ∨ rest' = rest.erase wd) →
      ahead' (some p) rest') :
    At s' (q.erase wd) ahead' := by
  refine place.of_open isOpen same fun p visited rest calling split here => ?_
  have apart : p ≠ wd := fun equal => other (by rw [calling, equal])
  rw [split]
  by_cases passed : wd ∈ visited
  · exact ⟨visited.erase wd, rest, List.erase_append_left _ passed, moved p rest _ here (.inl rfl)⟩
  · refine ⟨visited, rest.erase wd, ?_, moved p rest _ here (.inr rfl)⟩
    rw [List.erase_append_right _ passed, List.erase_cons_tail (by simpa using apart)]

theorem unregister_spec (inv : Inv s q i) (isOpen : s.Open) {wd : ι}
    (other : s.thread ≠ .calling wd) :
    ∃ s' q' i', unregisterWatchdog s wd = some s' ∧ Inv s' q' i' ∧ Follows s q s' q' := by
  obtain ⟨way, found, onWay⟩ := search_spec inv.shape.queue wd
  obtain ⟨way', found', onWay'⟩ := search_spec inv.shape.inactive wd
  unfold unregisterWatchdog
  by_cases inQueue : wd ∈ q
  · obtain ⟨l, removed, shape⟩ := inv.shape.remove_queue inQueue
    refine ⟨((s.touch (way ++ removeTouches s.wdQueue wd)).setQueue l).note
      (.unregistered wd true), q.erase wd, i, by simp [found, inQueue, removed], ⟨?_, ?_, ?_⟩, ?_⟩
    · exact ⟨shape.queue, shape.inactive, shape.apart⟩
    · exact inv.place.erase isOpen rfl other fun _ _ _ _ _ => trivial
    · refine Kept.unregistered (Kept.touched inv.kept fun x touched => ?_) wd List.erase_subset
        (fun _ member => member) fun _ => ?_
      · left
        rcases List.mem_append.mp touched with passed | neighbour
        · exact onWay passed
        · exact removeTouches_subset inv.shape.queue inQueue neighbour
      · exact ⟨inv.shape.queue.nodup.not_mem_erase, inv.shape.apart inQueue⟩
    · refine ⟨.unregistered wd true :: (way ++ removeTouches s.wdQueue wd).map .touched, rfl, ?_⟩
      intro x member ahead
      by_cases same : x = wd
      · exact .inr (.inl (by simp [same]))
      · refine .inr (.inr ⟨(List.mem_erase_of_ne same).mpr member, rfl, ?_⟩)
        refine ahead.erase isOpen rfl other fun p rest rest' here less => ⟨here.1, ?_⟩
        rcases less with rfl | rfl
        · exact here.2
        · exact here.2.imp_left (List.mem_erase_of_ne same).mpr
  by_cases inInactive : wd ∈ i
  · obtain ⟨l, removed, shape⟩ := inv.shape.remove_inactive inInactive
    refine ⟨((s.touch (way ++ way' ++ removeTouches s.wdInactive wd)).setInactive l).note
      (.unregistered wd true), q, i.erase wd,
        by simp [found, inQueue, found', inInactive, removed], ⟨?_, ?_, ?_⟩, ?_⟩
    · exact ⟨shape.queue, shape.inactive, shape.apart⟩
    · exact inv.place
    · refine Kept.unregistered (Kept.touched inv.kept fun x touched => ?_) wd
        (fun _ member => member) List.erase_subset fun _ => ?_
      · rcases List.mem_append.mp touched with passed | neighbour
        · rcases List.mem_append.mp passed with first | second
          · exact .inl (onWay first)
          · exact .inr (onWay' second)
        · exact .inr (removeTouches_subset inv.shape.inactive inInactive neighbour)
      · exact ⟨inQueue, inv.shape.inactive.nodup.not_mem_erase⟩
    · exact ⟨.unregistered wd true :: (way ++ way' ++ removeTouches s.wdInactive wd).map .touched,
        rfl, fun x member ahead => .inr (.inr ⟨member, rfl, ahead⟩)⟩
  · refine ⟨(s.touch (way ++ way')).note (.unregistered wd false), q, i,
      by simp [found, inQueue, found', inInactive], ⟨?_, ?_, ?_⟩, ?_⟩
    · exact ⟨inv.shape.queue, inv.shape.inactive, inv.shape.apart⟩
    · exact inv.place
    · refine Kept.unregistered (Kept.touched inv.kept fun x touched => ?_) wd
        (fun _ member => member) (fun _ member => member) nofun
      rcases List.mem_append.mp touched with first | second
      · exact .inl (onWay first)
      · exact .inr (onWay' second)
    · exact ⟨.unregistered wd false :: (way ++ way').map .touched, rfl,
        fun x member ahead => .inr (.inr ⟨member, rfl, ahead⟩)⟩

theorem look_spec (inv : Inv s q i) {p : ι} (walking : s.thread = .walking (some p)) :
    Inv (lookAt s p) q i ∧ Follows s q (lookAt s p) q := by
  have place := inv.place
  simp only [At, walking] at place
  obtain ⟨visited, rest, split, head, -⟩ := place
  obtain ⟨rest, rfl⟩ := List.head?_eq_some_iff.mp head.symm
  have inside : p ∈ q := by simp [split]
  have kept : Kept q i ([p].map .touched ++ s.log) :=
    inv.kept.touched fun x member => .inl (by rwa [List.mem_singleton.mp member])
  have shape : Shape (s.touch [p]) q i := ⟨inv.shape.queue, inv.shape.inactive, inv.shape.apart⟩
  -- the watchdogs that the walk has not passed
  have ahead_of : ∀ x, At s q (Ahead s x) →
      x = p ∨ x ∈ rest ∨ s.watchdogTime < (s.wd x).nextFire := by
    intro x ahead
    simp only [At, walking] at ahead
    obtain ⟨visited', rest', split', head', -, here⟩ := ahead
    obtain ⟨rest', rfl⟩ := List.head?_eq_some_iff.mp head'.symm
    have nodup := inv.shape.queue.nodup
    rw [split, List.nodup_middle, List.nodup_cons, List.mem_append, not_or] at nodup
    rw [split] at split'
    have same : rest = rest' :=
      ((List.append_cons_inj_of_notMem nodup.1.1 nodup.1.2).mp split').2.2
    rcases here with member | late
    · rcases List.mem_cons.mp member with rfl | later
      · exact .inl rfl
      · rw [← same] at later
        exact .inr (.inl later)
    · exact .inr (.inr late)
  by_cases due : (s.wd p).nextFire ≤ s.watchdogTime
  · rw [show lookAt s p = _ from if_pos due]
    refine ⟨⟨⟨inv.shape.queue, inv.shape.inactive, inv.shape.apart⟩, ⟨visited, rest, split, trivial⟩,
      kept.called inside⟩, ?_⟩
    refine ⟨[.called p, .touched p], rfl, fun x member ahead => ?_⟩
    by_cases same : x = p
    · exact .inl (by simp [same])
    · exact .inr (.inr
        ⟨member, rfl, visited, rest, split, fun equal => same (Option.some.inj equal).symm,
        (ahead_of x ahead).resolve_left same⟩)
  · rw [show lookAt s p = _ from if_neg due]
    refine ⟨⟨⟨inv.shape.queue, inv.shape.inactive, inv.shape.apart⟩,
      walkOn_at shape split trivial, kept⟩, ?_⟩
    refine ⟨[.touched p], rfl, fun x member ahead => ?_⟩
    refine .inr (.inr ⟨member, rfl, walkOn_at shape split ⟨nofun, ?_⟩⟩)
    rcases ahead_of x ahead with rfl | other
    · exact .inr (not_le.mp due)
    · exact other

theorem back_spec (inv : Inv s q i) {p : ι} (calling : s.thread = .calling p) (time : ℤ) :
    ∃ s' q' i', comeBack s p time = some s' ∧ Inv s' q' i' ∧ Follows s q s' q' := by
  have place := inv.place
  simp only [At, calling] at place
  obtain ⟨visited, rest, split, -⟩ := place
  have inside : p ∈ q := by simp [split]
  have outside : p ∉ i := inv.shape.apart inside
  have touched : Kept q i ([p].map .touched ++ s.log) :=
    inv.kept.touched fun x member => .inl (by rwa [List.mem_singleton.mp member])
  let s₁ := (s.touch [p]).note (.returned p (s.wd p).oneShot)
  have shape₁ : Shape s₁ q i := ⟨inv.shape.queue, inv.shape.inactive, inv.shape.apart⟩
  have other_of : ∀ x, At s q (Ahead s x) →
      x ≠ p ∧ (x ∈ rest ∨ s.watchdogTime < (s.wd x).nextFire) := by
    intro x ahead
    simp only [At, calling] at ahead
    obtain ⟨visited', rest', split', apart, here⟩ := ahead
    have nodup := inv.shape.queue.nodup
    rw [split, List.nodup_middle, List.nodup_cons, List.mem_append, not_or] at nodup
    rw [split] at split'
    have same : rest = rest' :=
      ((List.append_cons_inj_of_notMem nodup.1.1 nodup.1.2).mp split').2.2
    rw [← same] at here
    exact ⟨fun equal => apart (by rw [equal]), here⟩
  by_cases oneShot : (s.wd p).oneShot = true
  · obtain ⟨l, removed, shape₂⟩ := shape₁.remove_queue inside
    let s₂ := (s₁.touch (removeTouches s₁.wdQueue p)).setQueue l
    have gone : p ∉ q.erase p := inv.shape.queue.nodup.not_mem_erase
    have shape₃ : Shape ((s₂.touch (appendTouches s₂.wdInactive p)).setInactive
        (s₂.wdInactive.append p)) (q.erase p) (i ++ [p]) := by
      have shape₂' : Shape s₂ (q.erase p) i := ⟨shape₂.queue, shape₂.inactive, shape₂.apart⟩
      have moved := shape₂'.append_inactive gone outside
      exact ⟨moved.queue, moved.inactive, moved.apart⟩
    have value : comeBack s p time = some (walkList ((s₂.touch
        (appendTouches s₂.wdInactive p)).setInactive (s₂.wdInactive.append p)) time) := by
      refine (if_pos oneShot).trans ?_
      change (s₁.wdQueue.remove p).bind _ = _
      rw [removed]
      rfl
    refine ⟨_, q.erase p, i ++ [p], value, ⟨?_, ?_, ?_⟩, ?_⟩
    · exact ⟨shape₃.queue, shape₃.inactive, shape₃.apart⟩
    · exact walkList_at shape₃ time trivial
    · have returned : Kept (q.erase p) (i ++ [p]) s₁.log := by
        exact touched.returned inside List.erase_subset (fun _ => gone) fun _ member => member
      refine Kept.touched (Kept.touched returned fun x near => ?_) fun x near => ?_
      · have known := removeTouches_subset shape₁.queue inside near
        by_cases same : x = p
        · exact .inr (List.mem_append_right i (List.mem_singleton.mpr same))
        · exact .inl ((List.mem_erase_of_ne same).mpr known)
      · rcases List.mem_cons.mp (appendTouches_subset shape₂.inactive p near) with same | known
        · exact .inr (List.mem_append_right i (List.mem_singleton.mpr same))
        · exact .inr (List.mem_append_left [p] known)
    · refine ⟨(appendTouches s₂.wdInactive p).map .touched ++
        ((removeTouches s₁.wdQueue p).map .touched ++ [.returned p (s.wd p).oneShot, .touched p]),
          ?_, fun x member ahead => ?_⟩
      · rw [List.append_assoc, List.append_assoc]
        rfl
      · obtain ⟨apart, -⟩ := other_of x ahead
        have stays : x ∈ q.erase p := (List.mem_erase_of_ne apart).mpr member
        exact .inr (.inr ⟨stays, rfl, walkList_at shape₃ time ⟨nofun, .inl stays⟩⟩)
  · have value : comeBack s p time =
        some (walkOn (s₁.setNextFire p (s₁.watchdogTime + (s₁.wd p).interval)) p) :=
      if_neg oneShot
    have shape₂ : Shape (s₁.setNextFire p (s₁.watchdogTime + (s₁.wd p).interval)) q i :=
      ⟨inv.shape.queue, inv.shape.inactive, inv.shape.apart⟩
    refine ⟨_, q, i, value, ⟨?_, ?_, ?_⟩, ?_⟩
    · exact ⟨inv.shape.queue, inv.shape.inactive, inv.shape.apart⟩
    · exact walkOn_at shape₂ split trivial
    · refine touched.returned inside (fun _ member => member) ?_ (List.subset_append_left _ _)
      exact fun shot => absurd shot oneShot
    · refine ⟨[.returned p (s.wd p).oneShot, .touched p], rfl, fun x member ahead => ?_⟩
      obtain ⟨apart, here⟩ := other_of x ahead
      have fire : (Function.update s.wd p { s.wd p with
          nextFire := s₁.watchdogTime + (s₁.wd p).interval } x).nextFire = (s.wd x).nextFire := by
        rw [Function.update_of_ne apart]
      refine .inr (.inr ⟨member, fire, walkOn_at shape₂ split ⟨nofun, ?_⟩⟩)
      change x ∈ rest ∨ s.watchdogTime < _
      exact here.imp_right fun late => by rw [← fire] at late; exact late

theorem assign_spec (inv : Inv s q i) (isOpen : s.Open) (wd : ι) (oneShot : Bool) (interval : ℤ) :
    Inv { s with wd := Function.update s.wd wd { s.wd wd with oneShot, interval } } q i ∧
      Follows s q
        { s with wd := Function.update s.wd wd { s.wd wd with oneShot, interval } } q := by
  have fire : ∀ x, (Function.update s.wd wd { s.wd wd with oneShot, interval } x).nextFire =
      (s.wd x).nextFire := by
    intro x
    by_cases same : x = wd
    · rw [same, Function.update_self]
    · rw [Function.update_of_ne same]
  refine ⟨⟨⟨inv.shape.queue, inv.shape.inactive, inv.shape.apart⟩, inv.place, inv.kept⟩, ?_⟩
  refine ⟨[], rfl, fun x member ahead => .inr (.inr ⟨member, fire x, ?_⟩)⟩
  refine ahead.of_open isOpen rfl fun p visited rest _ split here => ?_
  refine ⟨visited, rest, split, here.1, here.2.imp_right fun late => ?_⟩
  rw [← fire] at late
  exact late

theorem step_spec (inv : Inv s q i) {a : Act ι} (proper : Proper s a) :
    ∃ s' q' i', step s a = some s' ∧ Inv s' q' i' ∧
      ((∀ time, a ≠ .wake time) → Follows s q s' q') := by
  -- a step whose turn it is not
  have idle : ∃ s' q' i', some s = some s' ∧ Inv s' q' i' ∧
      ((∀ time, a ≠ .wake time) → Follows s q s' q') :=
    ⟨s, q, i, rfl, inv, fun _ => .refl s q⟩
  cases a with
  | register wd =>
      simp only [step]
      split
      · next isOpen =>
          obtain ⟨freshQ, freshI⟩ := proper isOpen
          rw [inQueue_iff inv.shape.queue] at freshQ
          rw [inQueue_iff inv.shape.inactive] at freshI
          obtain ⟨q', inv', follows⟩ := register_spec inv isOpen freshQ freshI
          exact ⟨_, q', i, rfl, inv', fun _ => follows⟩
      · exact idle
  | unregister wd =>
      simp only [step]
      split
      · next isOpen =>
          obtain ⟨s', q', i', value, inv', follows⟩ := unregister_spec inv isOpen proper
          exact ⟨s', q', i', value, inv', fun _ => follows⟩
      · exact idle
  | assign wd oneShot interval =>
      simp only [step]
      split
      · next isOpen =>
          obtain ⟨inv', follows⟩ := assign_spec inv isOpen wd oneShot interval
          exact ⟨_, q, i, rfl, inv', fun _ => follows⟩
      · exact idle
  | wake time =>
      simp only [step]
      split
      · exact ⟨_, q, i, rfl, wake_spec inv time, fun other => absurd rfl (other time)⟩
      · exact idle
  | look =>
      simp only [step]
      split
      · next p walking =>
          obtain ⟨inv', follows⟩ := look_spec inv walking
          exact ⟨_, q, i, rfl, inv', fun _ => follows⟩
      · exact idle
  | back time =>
      simp only [step]
      split
      · next p calling =>
          obtain ⟨s', q', i', value, inv', follows⟩ := back_spec inv calling time
          exact ⟨s', q', i', value, inv', fun _ => follows⟩
      · exact idle
  | sleep =>
      simp only [step]
      split
      · exact ⟨_, q, i, rfl, ⟨⟨inv.shape.queue, inv.shape.inactive, inv.shape.apart⟩, trivial,
          inv.kept⟩, fun _ => ⟨[], rfl, fun _ member _ => .inr (.inr ⟨member, rfl, trivial⟩)⟩⟩
      · exact idle

end Steps

section Runs

variable [DecidableEq ι] {s s' : State ι} {q i : List ι} {acts : List (Act ι)}

/-- A run does not fail, and keeps the queues. -/
theorem run_spec (inv : Inv s q i) (proper : AllProper acts s) :
    ∃ s' q' i', run acts s = some s' ∧ Inv s' q' i' := by
  induction acts generalizing s q i with
  | nil => exact ⟨s, q, i, rfl, inv⟩
  | cons a rest ih =>
      obtain ⟨s', q', i', value, inv', -⟩ := step_spec inv proper.1
      obtain ⟨s'', q'', i'', value', inv''⟩ := ih inv' (proper.2 s' value)
      exact ⟨s'', q'', i'', by rw [run, value]; exact value', inv''⟩

theorem run_log (inv : Inv s q i) (proper : AllProper acts s)
    (pass : ∀ time, .wake time ∉ acts) (value : run acts s = some s') :
    ∃ new, s'.log = new ++ s.log := by
  induction acts generalizing s q i with
  | nil =>
      cases value
      exact ⟨[], rfl⟩
  | cons a rest ih =>
      obtain ⟨m, q', i', stepped, inv', follows⟩ := step_spec inv proper.1
      simp only [List.mem_cons, not_or] at pass
      obtain ⟨new, log, -⟩ := follows fun time same => (pass time).1 same.symm
      have rest_value : run rest m = some s' := by
        rw [run, stepped] at value
        exact value
      obtain ⟨later, log'⟩ := ih inv' (proper.2 m stepped) (fun time => (pass time).2) rest_value
      exact ⟨later ++ new, by rw [log', log, List.append_assoc]⟩

/-- In a pass, a watchdog that the walk comes to is called or unregistered, or the walk still comes
to it. -/
theorem run_follows (inv : Inv s q i) (proper : AllProper acts s)
    (pass : ∀ time, .wake time ∉ acts) (value : run acts s = some s') {wd : ι} (member : wd ∈ q)
    (ahead : At s q (Ahead s wd)) :
    ∃ q' new, s'.log = new ++ s.log ∧ (.called wd ∈ new ∨ .unregistered wd true ∈ new ∨
      (wd ∈ q' ∧ (s'.wd wd).nextFire = (s.wd wd).nextFire ∧ At s' q' (Ahead s' wd))) := by
  induction acts generalizing s q i with
  | nil =>
      cases value
      exact ⟨q, [], rfl, .inr (.inr ⟨member, rfl, ahead⟩)⟩
  | cons a rest ih =>
      obtain ⟨m, q', i', stepped, inv', follows⟩ := step_spec inv proper.1
      simp only [List.mem_cons, not_or] at pass
      obtain ⟨new, log, moved⟩ := follows fun time same => (pass time).1 same.symm
      have rest_value : run rest m = some s' := by
        rw [run, stepped] at value
        exact value
      rcases moved wd member ahead with called | unregistered | ⟨member', fire, ahead'⟩
      · obtain ⟨later, log'⟩ := run_log inv' (proper.2 m stepped) (fun time => (pass time).2)
          rest_value
        exact ⟨q, later ++ new, by rw [log', log, List.append_assoc],
          .inl (List.mem_append_right _ called)⟩
      · obtain ⟨later, log'⟩ := run_log inv' (proper.2 m stepped) (fun time => (pass time).2)
          rest_value
        exact ⟨q, later ++ new, by rw [log', log, List.append_assoc],
          .inr (.inl (List.mem_append_right _ unregistered))⟩
      · obtain ⟨q'', later, log', ends⟩ := ih inv' (proper.2 m stepped)
          (fun time => (pass time).2) rest_value member' ahead'
        refine ⟨q'', later ++ new, by rw [log', log, List.append_assoc], ?_⟩
        rw [fire] at ends
        exact ends.imp (List.mem_append_left _) (Or.imp_left (List.mem_append_left _))

theorem allProper_append {before after : List (Act ι)} (proper : AllProper (before ++ after) s) :
    AllProper before s ∧ ∀ s', run before s = some s' → AllProper after s' := by
  induction before generalizing s with
  | nil => exact ⟨trivial, fun s' value => by cases value; exact proper⟩
  | cons a rest ih =>
      refine ⟨⟨proper.1, fun m stepped => (ih (proper.2 m stepped)).1⟩, fun s' value => ?_⟩
      rw [run] at value
      cases stepped : step s a with
      | none => simp [stepped] at value
      | some m =>
          rw [stepped] at value
          exact (ih (proper.2 m stepped)).2 s' value

/-- Any number of threads and passes of the watchdog thread, in any order. -/
theorem watchdog_law (wd : ι → WatchdogT) (link : ι → Dlink ι) (time : ℤ) (acts : List (Act ι))
    (proper : AllProper acts (start wd link time)) : Law (start wd link time) acts := by
  have first := start_inv wd link time
  refine ⟨?_, ?_, ?_⟩
  · obtain ⟨s, -, -, value, -⟩ := run_spec first proper
    exact ⟨s, value⟩
  · intro s value
    obtain ⟨s', q, i, value', inv⟩ := run_spec first proper
    rw [value] at value'
    cases value'
    exact inv.sound
  · rintro before pass rfl noWake s s' reached passed walking ends wd member due
    obtain ⟨properBefore, properPass⟩ := allProper_append proper
    obtain ⟨m, q, i, value, inv⟩ := run_spec first properBefore
    rw [reached] at value
    cases value
    rw [inQueue_iff inv.shape.queue] at member
    have ahead : At s q (Ahead s wd) := by
      simp only [At, walking]
      exact ⟨[], q, rfl, inv.shape.queue.head, nofun, .inl member⟩
    obtain ⟨q', new, log, fate⟩ :=
      run_follows inv (properPass s reached) noWake passed member ahead
    refine ⟨new, log, ?_⟩
    rcases fate with called | unregistered | ⟨-, fire, behind⟩
    · exact .inl called
    · exact .inr unregistered
    · -- the walk has passed all watchdogs, so this one was not due
      simp only [At, ends] at behind
      obtain ⟨visited, rest, -, none, -, inside | late⟩ := behind
      · rw [List.head?_eq_none_iff.mp none.symm] at inside
        exact absurd inside List.not_mem_nil
      · rw [fire] at late
        exact absurd due (not_le.mpr late)

end Runs

section Examples

/-- Two watchdogs that fire every ten seconds. -/
def everyTen : ℕ → WatchdogT := fun _ => ⟨false, 10, 0⟩

def unlinked : ℕ → Dlink ℕ := fun _ => ⟨none, none⟩

/-- Both watchdogs fire, one after the other. -/
def bothFire : List (Act ℕ) :=
  [.register 0, .register 1, .wake 10, .look, .back 10, .look, .back 10, .sleep]

theorem watchdog_law_two :
    AllProper bothFire (start everyTen unlinked 0) ∧ Law (start everyTen unlinked 0) bothFire := by
  have proper : AllProper bothFire (start everyTen unlinked 0) := by
    have inv := start_inv everyTen unlinked 0
    have queue : ¬ InQueue (start everyTen unlinked 0).wdQueue 0 := by
      rw [inQueue_iff inv.shape.queue]
      exact List.not_mem_nil
    have inactive : ¬ InQueue (start everyTen unlinked 0).wdInactive 0 := by
      rw [inQueue_iff inv.shape.inactive]
      exact List.not_mem_nil
    refine ⟨fun _ => ⟨queue, inactive⟩, fun s₁ registered => ?_⟩
    obtain rfl := Option.some_inj.mp registered
    have queue : (registerWatchdog (start everyTen unlinked 0) 0).wdQueue.Represents [0] :=
      ⟨⟨⟨rfl, rfl⟩, rfl, rfl⟩, by decide, rfl⟩
    have inactive : (registerWatchdog (start everyTen unlinked 0) 0).wdInactive.Represents [] :=
      ⟨⟨rfl, rfl⟩, List.nodup_nil, rfl⟩
    refine ⟨fun _ => ?_,
      fun s₂ _ => ⟨trivial,
      fun s₃ _ => ⟨trivial,
      fun s₄ _ => ⟨trivial,
      fun s₅ _ => ⟨trivial, fun s₆ _ => ⟨trivial, fun s₇ _ => ⟨trivial, fun _ _ => trivial⟩⟩⟩⟩⟩⟩⟩
    rw [inQueue_iff queue, inQueue_iff inactive]
    decide
  exact ⟨proper, watchdog_law everyTen unlinked 0 _ proper⟩

/-- A callback unregisters its own watchdog: the thread touches it once more, and it does not come to
the other one, which is due. -/
theorem own_watchdog_unregistered :
    ¬ Law (start everyTen unlinked 0)
        [.register 0, .wake 10, .look, .unregister 0, .back 10] ∧
      ¬ Law (start everyTen unlinked 0)
        [.register 0, .register 1, .wake 10, .look, .unregister 0, .register 0, .back 10] := by
  constructor
  · intro law
    have log : (run [.register 0, .wake 10, .look, .unregister 0, .back 10]
        (start everyTen unlinked 0)).map State.log = some (List.append [.returned 0 false]
          (.touched 0 :: List.append [] (.unregistered 0 true :: [.touched 0, .touched 0, .called 0,
            .touched 0, .touched 0, .registered 0]))) := by decide
    obtain ⟨s, value⟩ := law.runs
    rw [value] at log
    have split := Option.some.inj log
    exact (law.sound s value).untouched _ _ 0 _ split (.inr rfl) ⟨[], _, rfl, List.not_mem_nil⟩
  · intro law
    let s := (run [.register 0, .register 1, .wake 10] (start everyTen unlinked 0)).get (by decide)
    let s' := (run [.look, .unregister 0, .register 0, .back 10] s).get (by decide)
    have due := law.due [.register 0, .register 1, .wake 10]
      [.look, .unregister 0, .register 0, .back 10] rfl (by simp) s s'
      (Option.some_get _).symm (Option.some_get _).symm
    obtain ⟨new, log, fate⟩ := due (by decide) (by decide) 1 ⟨1, by decide⟩ (by decide)
    have whole : .called 1 ∉ s'.log ∧ .unregistered 1 true ∉ s'.log := by decide
    rw [log] at whole
    rcases fate with called | unregistered
    · exact whole.1 (List.mem_append_left _ called)
    · exact whole.2 (List.mem_append_left _ unregistered)

end Examples

end Bacula.Watchdog
