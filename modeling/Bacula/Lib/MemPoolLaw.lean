import Bacula.Lib.MemPool
import Bacula.Library.Ledger

/-! Who has the buffers of the memory pools. In both builds a buffer is held once or is on the free list
of its pool, with its length recorded; what is counted, and how long a recycled buffer is, depends on
the build and on what was freed. -/
namespace Bacula.MemPool
open Chain
open Function (update)

/-- A block of a pool, with its length recorded. -/
structure Block.Of (block : Block) (pool : Pool) : Prop where
  pool : block.head.pool = pool
  recorded : block.head.ablen = block.length

/-- The links of the free lists. -/
def Memory.next (m : Memory) (buf : ℕ) : Option ℕ := (m.heap buf).bind fun block => block.head.next

structure Sound (m : Memory) (held : List (ℕ × Pool)) (free : Pool → List ℕ) : Prop where
  chained : ∀ pool, Chained m.next (m.poolCtl pool).freeBuf (free pool)
  freeNodup : ∀ pool, (free pool).Nodup
  freeBlock : ∀ pool, ∀ buf ∈ free pool, ∃ block, m.heap buf = some block ∧ block.Of pool
  heldNodup : (held.map Prod.fst).Nodup
  heldBlock : ∀ h ∈ held, ∃ block, m.heap h.1 = some block ∧ block.Of h.2
  apart : ∀ h ∈ held, h.1 ∉ free h.2

theorem init_sound (size : Pool → ℤ) : Sound (init size).memory (init size).held fun _ => [] where
  chained _ := rfl
  freeNodup _ := List.nodup_nil
  freeBlock _ _ member := absurd member List.not_mem_nil
  heldNodup := List.nodup_nil
  heldBlock _ member := absurd member List.not_mem_nil
  apart _ member := absurd member List.not_mem_nil

variable {m m' : Memory} {held held' : List (ℕ × Pool)} {free : Pool → List ℕ} {buf : ℕ}
  {pool : Pool} {block : Block}

theorem Sound.perm (sound : Sound m held free) (perm : held.Perm held') : Sound m held' free :=
  { sound with
    heldNodup := (perm.map Prod.fst).nodup_iff.mp sound.heldNodup
    heldBlock := fun h member => sound.heldBlock h (perm.mem_iff.mpr member)
    apart := fun h member => sound.apart h (perm.mem_iff.mpr member) }

/-- A buffer that is held is on no free list. -/
theorem Sound.not_free (sound : Sound m held free) {h : ℕ × Pool} (member : h ∈ held)
    (pool : Pool) : h.1 ∉ free pool := by
  intro isFree
  obtain ⟨block, here, ofHeld⟩ := sound.heldBlock h member
  obtain ⟨block', here', ofFree⟩ := sound.freeBlock pool h.1 isFree
  obtain rfl := Option.some_inj.mp (here.symm.trans here')
  have same : h.2 = pool := ofHeld.pool.symm.trans ofFree.pool
  exact sound.apart h member (same ▸ isFree)

/-- A buffer that is neither held nor on a free list. -/
structure Unowned (held : List (ℕ × Pool)) (free : Pool → List ℕ) (buf : ℕ) : Prop where
  notHeld : ∀ h ∈ held, h.1 ≠ buf
  notFree : ∀ pool, buf ∉ free pool

theorem Sound.unowned (sound : Sound m held free) (unused : m.heap buf = none) :
    Unowned held free buf := by
  constructor
  · rintro h member rfl
    obtain ⟨block, here, -⟩ := sound.heldBlock h member
    cases unused.symm.trans here
  · intro pool isFree
    obtain ⟨block, here, -⟩ := sound.freeBlock pool buf isFree
    cases unused.symm.trans here

/-- The heap has changed where nobody looks. -/
theorem Sound.elsewhere (sound : Sound m held free) (unowned : Unowned held free buf)
    (content : Option Block) :
    Sound { m with heap := update m.heap buf content } held free := by
  refine { sound with chained := ?_, freeBlock := ?_, heldBlock := ?_ }
  · intro pool
    apply (sound.chained pool).congr
    intro other member
    have apart : other ≠ buf := ne_of_mem_of_not_mem member (unowned.notFree pool)
    simp only [Memory.next, Function.update_of_ne apart]
  · intro pool other isFree
    have apart : other ≠ buf := ne_of_mem_of_not_mem isFree (unowned.notFree pool)
    simp only [Function.update_of_ne apart]
    exact sound.freeBlock pool other isFree
  · intro h member
    simp only [Function.update_of_ne (unowned.notHeld h member)]
    exact sound.heldBlock h member

theorem Sound.modifyCtl (sound : Sound m held free) (pool : Pool) {f : PoolCtl → PoolCtl}
    (same : ∀ ctl, (f ctl).freeBuf = ctl.freeBuf) : Sound (m.modifyCtl pool f) held free := by
  refine { sound with chained := ?_ }
  intro other
  have kept : ((m.modifyCtl pool f).poolCtl other).freeBuf = (m.poolCtl other).freeBuf := by
    by_cases here : other = pool
    · subst here
      simp [Memory.modifyCtl, same]
    · simp [Memory.modifyCtl, Function.update_of_ne here]
  rw [kept]
  exact sound.chained other

/-- A buffer gets a holder. -/
theorem Sound.take (sound : Sound m held free) (unowned : Unowned held free buf)
    (here : m.heap buf = some block) (isOf : block.Of pool) : Sound m ((buf, pool) :: held) free := by
  refine { sound with heldNodup := ?_, heldBlock := ?_, apart := ?_ }
  · apply List.nodup_cons.mpr
    refine ⟨?_, sound.heldNodup⟩
    intro member
    obtain ⟨h, isHeld, same⟩ := List.mem_map.mp member
    exact unowned.notHeld h isHeld same
  · intro h member
    rcases List.mem_cons.mp member with rfl | member
    · exact ⟨block, here, isOf⟩
    · exact sound.heldBlock h member
  · intro h member
    rcases List.mem_cons.mp member with rfl | member
    · exact unowned.notFree pool
    · exact sound.apart h member

/-- A holder gives a buffer up. -/
theorem Sound.drop (sound : Sound m ((buf, pool) :: held) free) :
    Sound m held free ∧ Unowned held free buf ∧ ∃ block, m.heap buf = some block ∧ block.Of pool := by
  obtain ⟨notHeld, nodup⟩ := List.nodup_cons.mp sound.heldNodup
  refine ⟨{ sound with heldNodup := nodup, heldBlock := ?_, apart := ?_ }, ⟨?_, ?_⟩, ?_⟩
  · intro h member
    exact sound.heldBlock h (List.mem_cons_of_mem _ member)
  · intro h member
    exact sound.apart h (List.mem_cons_of_mem _ member)
  · intro h member same
    exact notHeld (List.mem_map.mpr ⟨h, member, same⟩)
  · exact sound.not_free List.mem_cons_self
  · exact sound.heldBlock (buf, pool) List.mem_cons_self

/-- The free list of one pool is replaced. -/
theorem Sound.relink (sound : Sound m held free) {first : Option ℕ} {list : List ℕ}
    (chained : Chained m.next first list) (nodup : list.Nodup)
    (blocks : ∀ buf ∈ list, ∃ block, m.heap buf = some block ∧ block.Of pool)
    (apart : ∀ h ∈ held, h.1 ∉ list) :
    Sound (m.modifyCtl pool fun ctl => { ctl with freeBuf := first }) held (update free pool list) := by
  refine { sound with chained := ?_, freeNodup := ?_, freeBlock := ?_, apart := ?_ }
  · intro other
    by_cases same : other = pool
    · subst same
      simp only [Memory.modifyCtl, Function.update_self]
      exact chained
    · simp only [Memory.modifyCtl, Function.update_of_ne same]
      exact sound.chained other
  · apply (Function.forall_update_iff free fun _ list => list.Nodup).mpr
    exact ⟨nodup, fun other _ => sound.freeNodup other⟩
  · apply (Function.forall_update_iff free fun pool list =>
      ∀ buf ∈ list, ∃ block, m.heap buf = some block ∧ block.Of pool).mpr
    exact ⟨blocks, fun other _ => sound.freeBlock other⟩
  · intro h member
    by_cases same : h.2 = pool
    · rw [same, Function.update_self]
      exact apart h member
    · rw [Function.update_of_ne same]
      exact sound.apart h member

/-- The first buffer of a free list is unlinked. -/
theorem Sound.pop (sound : Sound m held free) (first : (m.poolCtl pool).freeBuf = some buf)
    (here : m.heap buf = some block) :
    ∃ free', Sound (m.modifyCtl pool fun ctl => { ctl with freeBuf := block.head.next }) held free' ∧
      Unowned held free' buf ∧ block.Of pool := by
  have chained := sound.chained pool
  have nodup := sound.freeNodup pool
  have blocks := sound.freeBlock pool
  have apart : ∀ h ∈ held, h.1 ∉ free pool := fun h member => sound.not_free member pool
  rw [first] at chained
  cases list : free pool with
  | nil =>
      rw [list] at chained
      cases chained
  | cons other rest =>
      rw [list] at chained nodup blocks apart
      obtain ⟨same, behind⟩ := chained
      obtain rfl := Option.some_inj.mp same
      obtain ⟨block', here', isOf⟩ := blocks buf List.mem_cons_self
      obtain rfl := Option.some_inj.mp (here.symm.trans here')
      rw [List.nodup_cons] at nodup
      have link : m.next buf = block.head.next := by rw [Memory.next, here, Option.bind_some]
      rw [link] at behind
      refine ⟨update free pool rest, sound.relink behind nodup.2 ?_ ?_, ⟨?_, ?_⟩, isOf⟩
      · intro x member
        exact blocks x (List.mem_cons_of_mem _ member)
      · intro h member isFree
        exact apart h member (List.mem_cons_of_mem _ isFree)
      · intro h member same
        exact apart h member (same ▸ List.mem_cons_self)
      · -- a block is on the free list of its own pool
        apply (Function.forall_update_iff free fun _ list => buf ∉ list).mpr
        refine ⟨nodup.1, fun other differs isFree => ?_⟩
        obtain ⟨block', here', isOf'⟩ := sound.freeBlock other buf isFree
        obtain rfl := Option.some_inj.mp (here.symm.trans here')
        exact differs (isOf'.pool.symm.trans isOf.pool)

/-- A buffer is linked to the free pool chain. -/
theorem Sound.link (sound : Sound m held free) (unowned : Unowned held free buf)
    (here : m.heap buf = some block) (isOf : block.Of pool)
    (linked : block.head.next = (m.poolCtl pool).freeBuf) :
    ∃ free', Sound (m.modifyCtl pool fun ctl => { ctl with freeBuf := some buf }) held free' := by
  have behind : m.next buf =
      (m.poolCtl pool).freeBuf := by rw [Memory.next, here, Option.bind_some, linked]
  refine ⟨update free pool (buf :: free pool), sound.relink ⟨rfl, behind ▸ sound.chained pool⟩ ?_ ?_ ?_⟩
  · exact List.nodup_cons.mpr ⟨unowned.notFree pool, sound.freeNodup pool⟩
  · intro x member
    rcases List.mem_cons.mp member with rfl | member
    · exact ⟨block, here, isOf⟩
    · exact sound.freeBlock pool x member
  · intro h member isFree
    rcases List.mem_cons.mp isFree with same | isFree
    · exact unowned.notHeld h member same
    · exact sound.not_free member pool isFree

/-! ## The calls -/

def Memory.inUse (m : Memory) (pool : Pool) : ℤ := (m.poolCtl pool).inUse

theorem inUse_modifyCtl (m : Memory) (pool : Pool) {f : PoolCtl → PoolCtl} {v : ℤ}
    (change : ∀ ctl, (f ctl).inUse = ctl.inUse + v) :
    (m.modifyCtl pool f).inUse = Ledger.inc m.inUse pool v := by
  funext other
  by_cases same : other = pool
  · subst same
    simp [Memory.inUse, Memory.modifyCtl, change]
  · simp [Memory.inUse, Memory.modifyCtl, Function.update_of_ne same, Ledger.inc_of_ne same]

theorem inc_zero (c : Pool → ℤ) (pool : Pool) : Ledger.inc c pool 0 = c := by
  funext other
  simp [Ledger.inc_apply]

theorem inUse_kept (m : Memory) (pool : Pool) {f : PoolCtl → PoolCtl}
    (kept : ∀ ctl, (f ctl).inUse = ctl.inUse) :
    (m.modifyCtl pool f).inUse = m.inUse := by
  rw [inUse_modifyCtl m pool (v := 0) fun ctl => by rw [kept, add_zero], inc_zero]

theorem Sound.malloc (sound : Sound m held free) (got : m.malloc buf block = some m')
    (isOf : block.Of pool) :
    Sound m' ((buf, pool) :: held) free ∧ m'.heap buf = some block ∧ m'.poolCtl = m.poolCtl := by
  unfold Memory.malloc at got
  split at got
  case isTrue unused =>
    obtain rfl := Option.some_inj.mp got
    have unowned := sound.unowned unused
    have here : update m.heap buf (some block) buf = some block := Function.update_self ..
    exact ⟨(sound.elsewhere unowned _).take unowned here isOf, here, rfl⟩
  case isFalse => cases got

/-- What `get_pool_memory` has done: a buffer of the free list is counted in the one build only. -/
inductive Got (build : Build) (m : Memory) (pool : Pool) (buf : ℕ) (m' : Memory) : Prop where
  | recycled (block : Block) : (m.poolCtl pool).freeBuf = some buf → m.heap buf = some block →
      m'.heap = m.heap →
      m'.inUse = Ledger.inc m.inUse pool (if build = .smartalloc then 1 else 0) →
        Got build m pool buf m'
  | fresh (head : Abufhead) : (m.poolCtl pool).freeBuf = none →
      m'.heap buf = some ⟨head, (m.poolCtl pool).size⟩ →
      m'.inUse = Ledger.inc m.inUse pool 1 → Got build m pool buf m'

theorem use_freeBuf (ctl : PoolCtl) : ctl.use.freeBuf = ctl.freeBuf := rfl

theorem use_inUse (ctl : PoolCtl) : ctl.use.inUse = ctl.inUse + 1 := rfl

theorem getPoolMemory_spec {build : Build} {fresh : Fresh} (sound : Sound m held free)
    (got : getPoolMemory build m pool fresh = some (buf, m')) :
    (∃ free', Sound m' ((buf, pool) :: held) free') ∧ Got build m pool buf m' := by
  unfold getPoolMemory at got
  cases first : (m.poolCtl pool).freeBuf with
  | some other =>
      rw [first] at got
      obtain ⟨block, here, got⟩ := Option.bind_eq_some_iff.mp got
      obtain ⟨free', popped, unowned, isOf⟩ := sound.pop first here
      have kept :=
        inUse_kept m pool (f := fun ctl => { ctl with freeBuf := block.head.next }) fun _ => rfl
      cases build with
      | smartalloc =>
          obtain ⟨rfl, rfl⟩ := Prod.mk.inj (Option.some_inj.mp got)
          refine ⟨⟨free', (popped.take unowned here isOf).modifyCtl pool use_freeBuf⟩,
            .recycled block first here rfl ?_⟩
          rw [inUse_modifyCtl _ pool use_inUse, kept, if_pos rfl]
      | plain =>
          obtain ⟨rfl, rfl⟩ := Prod.mk.inj (Option.some_inj.mp got)
          refine ⟨⟨free', popped.take unowned here isOf⟩, .recycled block first here rfl ?_⟩
          rw [kept, if_neg (by decide), inc_zero]
  | none =>
      rw [first] at got
      obtain ⟨m₁, allocated, got⟩ := Option.bind_eq_some_iff.mp got
      obtain ⟨rfl, rfl⟩ := Prod.mk.inj (Option.some_inj.mp got)
      have isOf : Block.Of
          ⟨newHead build fresh.junk (m.poolCtl pool).size pool, (m.poolCtl pool).size⟩ pool := by
        cases build <;> exact ⟨rfl, rfl⟩
      obtain ⟨taken, here, ctl⟩ := sound.malloc allocated isOf
      refine ⟨⟨free, taken.modifyCtl pool use_freeBuf⟩, .fresh _ first here ?_⟩
      rw [inUse_modifyCtl _ pool use_inUse]
      unfold Memory.inUse
      rw [ctl]

theorem getMemory_spec {size : ℕ} {fresh : Fresh} (sound : Sound m held free)
    (got : getMemory m size fresh = some (buf, m')) :
    Sound m' ((buf, pmNopool) :: held) free ∧ (∃ head, m'.heap buf = some ⟨head, size⟩) ∧
      m'.inUse = Ledger.inc m.inUse pmNopool 1 := by
  obtain ⟨m₁, allocated, got⟩ := Option.bind_eq_some_iff.mp got
  obtain ⟨rfl, rfl⟩ := Prod.mk.inj (Option.some_inj.mp got)
  obtain ⟨taken, here, ctl⟩ := sound.malloc allocated ⟨rfl, rfl⟩
  refine ⟨taken.modifyCtl pmNopool use_freeBuf, ⟨_, here⟩, ?_⟩
  rw [inUse_modifyCtl _ pmNopool use_inUse]
  unfold Memory.inUse
  rw [ctl]

theorem reallocPoolMemory_spec {obuf moved : ℕ} {size : ℤ} (sound : Sound m ((obuf, pool) :: held) free)
    (got : reallocPoolMemory m obuf size moved = some (buf, m')) :
    Sound m' ((buf, pool) :: held) free ∧ (∃ head, m'.heap buf = some ⟨head, size⟩) ∧
      m'.inUse = m.inUse := by
  obtain ⟨dropped, unowned, block, here, isOf⟩ := sound.drop
  obtain ⟨block', here', got⟩ := Option.bind_eq_some_iff.mp got
  obtain rfl := Option.some_inj.mp (here.symm.trans here')
  obtain ⟨m₁, allocated, got⟩ := Option.bind_eq_some_iff.mp got
  obtain ⟨rfl, rfl⟩ := Prod.mk.inj (Option.some_inj.mp got)
  obtain ⟨taken, here, ctl⟩ := (dropped.elsewhere unowned none).malloc allocated ⟨isOf.pool, rfl⟩
  refine ⟨taken.modifyCtl _ fun _ => rfl, ⟨_, here⟩, ?_⟩
  rw [inUse_kept _ _ (f := (·.noteAllocated size)) fun _ => rfl]
  unfold Memory.inUse
  rw [ctl]

theorem checkPoolMemorySize_spec {obuf moved : ℕ} {size : ℤ}
    (sound : Sound m ((obuf, pool) :: held) free)
    (got : checkPoolMemorySize m obuf size moved = some (buf, m')) :
    Sound m' ((buf, pool) :: held) free ∧ (∃ block, m'.heap buf = some block ∧ size ≤ block.length) ∧
      m'.inUse = m.inUse := by
  obtain ⟨block, here, got⟩ := Option.bind_eq_some_iff.mp got
  split at got
  case isTrue enough =>
    obtain ⟨rfl, rfl⟩ := Prod.mk.inj (Option.some_inj.mp got)
    obtain ⟨-, -, block', here', isOf⟩ := sound.drop
    obtain rfl := Option.some_inj.mp (here.symm.trans here')
    exact ⟨sound, ⟨block, here, isOf.recorded ▸ enough⟩, rfl⟩
  case isFalse =>
    obtain ⟨taken, ⟨head, allocated⟩, kept⟩ := reallocPoolMemory_spec sound got
    exact ⟨taken, ⟨_, allocated, le_refl _⟩, kept⟩

theorem freePoolMemory_spec {obuf : ℕ} (sound : Sound m ((obuf, pool) :: held) free)
    (got : freePoolMemory m obuf = some m') :
    (∃ free', Sound m' held free') ∧ m'.inUse = Ledger.inc m.inUse pool (-1) := by
  obtain ⟨dropped, unowned, block, here, isOf⟩ := sound.drop
  obtain ⟨block', here', got⟩ := Option.bind_eq_some_iff.mp got
  obtain rfl := Option.some_inj.mp (here.symm.trans here')
  have count :=
    inUse_modifyCtl m block.head.pool (f := fun ctl => { ctl with inUse := ctl.inUse - 1 }) (v := -1)
    fun _ => rfl
  have counted :=
    dropped.modifyCtl block.head.pool (f := fun ctl => { ctl with inUse := ctl.inUse - 1 }) fun _ => rfl
  obtain rfl := isOf.pool
  dsimp only at got
  split at got
  case isTrue =>
    obtain rfl := Option.some_inj.mp got
    exact ⟨⟨free, counted.elsewhere unowned none⟩, count⟩
  case isFalse =>
    obtain rfl := Option.some_inj.mp got
    refine ⟨(counted.elsewhere unowned _).link unowned (Function.update_self ..)
      ⟨rfl, isOf.recorded⟩ rfl, ?_⟩
    rw [← count]
    exact inUse_kept _ _ fun _ => rfl

/-! ## A sequence of calls -/

variable {build : Build} {s s' : State} {a : Action} {handed : Option ℕ}

/-- How many buffers of a pool are held. -/
def heldCount (held : List (ℕ × Pool)) (pool : Pool) : ℤ := held.countP fun h => h.2 = pool

theorem counted_iff (s : State) : Counted s ↔ s.memory.inUse = heldCount s.held := funext_iff.symm

theorem heldCount_cons (h : ℕ × Pool) (held : List (ℕ × Pool)) :
    heldCount (h :: held) = Ledger.inc (heldCount held) h.2 1 := by
  funext pool
  rw [heldCount, List.countP_cons, Ledger.inc_apply]
  simp only [decide_eq_true_eq, eq_comm (a := h.2)]
  push_cast
  rfl

theorem heldCount_perm (perm : held.Perm held') : heldCount held = heldCount held' := by
  funext pool
  rw [heldCount, perm.countP_eq, heldCount]

theorem inc_cancel (c : Pool → ℤ) (pool : Pool) : Ledger.inc (Ledger.inc c pool 1) pool (-1) = c := by
  rw [Ledger.inc_neg_one, Ledger.inc_one, add_sub_cancel_right]

theorem holder_mem {obuf : ℕ} {h : ℕ × Pool} (found : s.holder obuf = some h) :
    h ∈ s.held ∧ h.1 = obuf :=
  ⟨List.mem_of_find?_eq_some found, by simpa using List.find?_some found⟩

/-- The buffer that a call is about is held once. -/
theorem Sound.holder (sound : Sound s.memory s.held free) {obuf : ℕ} {h : ℕ × Pool}
    (found : s.holder obuf = some h) :
    Sound s.memory ((obuf, h.2) :: s.held.erase h) free ∧
      heldCount s.held = Ledger.inc (heldCount (s.held.erase h)) h.2 1 := by
  obtain ⟨member, same⟩ := holder_mem found
  have perm := List.perm_cons_erase member
  constructor
  · have pair : h = (obuf, h.2) := Prod.ext same rfl
    rw [← pair]
    exact sound.perm perm
  · rw [heldCount_perm perm, heldCount_cons]

theorem mem_erase_of_other {obuf : ℕ} {h other : ℕ × Pool} (found : s.holder obuf = some h)
    (member : other ∈ s.held.filter fun h => h.1 ≠ obuf) : other ∈ s.held.erase h := by
  obtain ⟨isHeld, differs⟩ := List.mem_filter.mp member
  refine (List.mem_erase_of_ne ?_).mpr isHeld
  rintro rfl
  rw [(holder_mem found).2] at differs
  simp at differs

/-- A buffer that has just got its holder. -/
theorem Sound.handedOut (sound : Sound m ((buf, pool) :: held) free)
    (others : ∀ h ∈ others s a, h ∈ held) (here : m.heap buf = some block)
    (enough : least s a ≤ block.length) :
    HandedOut s a buf ⟨m, (buf, pool) :: held⟩ := by
  obtain ⟨-, unowned, block', here', isOf⟩ := sound.drop
  obtain rfl := Option.some_inj.mp (here.symm.trans here')
  refine ⟨fun h member => unowned.notHeld h (others h member), block, here, isOf.recorded, enough⟩

theorem stepLaw_some (handedOut : HandedOut s a buf s') (counted : Counted s') :
    StepLaw s a (some buf) s' :=
  ⟨fun _ same => Option.some_inj.mp same ▸ handedOut, counted⟩

theorem getPoolMemory_law {fresh : Fresh} (sound : Sound s.memory s.held free) (counted : Counted s)
    (answered : step build s (.getPoolMemory pool fresh) = some (handed, s')) :
    (∃ free', Sound s'.memory s'.held free') ∧
      (StepLaw s (.getPoolMemory pool fresh) handed s' ↔
        Meets build s (.getPoolMemory pool fresh)) := by
  obtain ⟨⟨buf, m⟩, got, same⟩ := Option.bind_eq_some_iff.mp answered
  obtain ⟨rfl, rfl⟩ := Prod.mk.inj (Option.some_inj.mp same)
  obtain ⟨⟨free', sound'⟩, how⟩ := getPoolMemory_spec sound got
  refine ⟨⟨free', sound'⟩, ?_⟩
  have before := (counted_iff s).mp counted
  have after : Counted ⟨m, (buf, pool) :: s.held⟩ ↔ m.inUse = Ledger.inc s.memory.inUse pool 1 := by
    rw [counted_iff, heldCount_cons, before]
  obtain ⟨-, -, held, isHeld, isOf⟩ := sound'.drop
  cases how with
  | recycled block first here heap count =>
      have same : m.heap buf = some block := heap ▸ here
      obtain rfl := Option.some_inj.mp (same.symm.trans isHeld)
      constructor
      · intro law buf' block' first' here'
        obtain rfl := Option.some_inj.mp (first.symm.trans first')
        obtain rfl := Option.some_inj.mp (here.symm.trans here')
        obtain ⟨block', here', -, enough⟩ := (law.handedOut buf rfl).recorded
        obtain rfl := Option.some_inj.mp (same.symm.trans here')
        refine ⟨?_, isOf.recorded ▸ enough⟩
        by_contra plain
        -- the counter has stayed, and one more is held
        have counts := congrFun (count.symm.trans (after.mp law.counted)) pool
        simp [plain] at counts
      · intro meets
        obtain ⟨smartalloc, enough⟩ := meets buf block first here
        refine stepLaw_some
          (sound'.handedOut (fun h member => member) same (isOf.recorded ▸ enough)) (after.mpr ?_)
        rw [count, if_pos smartalloc]
  | fresh head first here count =>
      refine iff_of_true ?_ ?_
      · exact stepLaw_some (sound'.handedOut (fun h member => member) here (le_refl _))
          (after.mpr count)
      · intro buf' block' first'
        cases first.symm.trans first'

theorem getMemory_law {size : ℕ} {fresh : Fresh} (sound : Sound s.memory s.held free)
    (counted : Counted s) (answered : step build s (.getMemory size fresh) = some (handed, s')) :
    Sound s'.memory s'.held free ∧ StepLaw s (.getMemory size fresh) handed s' := by
  obtain ⟨⟨buf, m⟩, got, same⟩ := Option.bind_eq_some_iff.mp answered
  obtain ⟨rfl, rfl⟩ := Prod.mk.inj (Option.some_inj.mp same)
  obtain ⟨sound', ⟨head, here⟩, count⟩ := getMemory_spec sound got
  refine ⟨sound', stepLaw_some (sound'.handedOut (fun h member => member) here (le_refl _)) ?_⟩
  rw [counted_iff] at counted ⊢
  rw [count, counted, heldCount_cons]

/-- A buffer that is held is exchanged for one that is long enough. -/
theorem exchanged_law {obuf : ℕ} {h : ℕ × Pool} (counted : Counted s)
    (sound : Sound s.memory s.held free) (found : s.holder obuf = some h)
    (others : others s a = s.held.filter fun h => h.1 ≠ obuf)
    (sound' : Sound m ((buf, h.2) :: s.held.erase h) free) (here : m.heap buf = some block)
    (enough : least s a ≤ block.length) (count : m.inUse = s.memory.inUse) :
    StepLaw s a (some buf) ⟨m, (buf, h.2) :: s.held.erase h⟩ := by
  refine stepLaw_some (sound'.handedOut ?_ here enough) ?_
  · intro other member
    rw [others] at member
    exact mem_erase_of_other found member
  · rw [counted_iff] at counted ⊢
    rw [count, counted, heldCount_cons]
    exact (sound.holder found).2

theorem reallocPoolMemory_law {obuf size moved : ℕ} (sound : Sound s.memory s.held free)
    (counted : Counted s)
    (answered : step build s (.reallocPoolMemory obuf size moved) = some (handed, s')) :
    Sound s'.memory s'.held free ∧ StepLaw s (.reallocPoolMemory obuf size moved) handed s' := by
  obtain ⟨h, found, answered⟩ := Option.bind_eq_some_iff.mp answered
  obtain ⟨⟨buf, m⟩, got, same⟩ := Option.bind_eq_some_iff.mp answered
  obtain ⟨rfl, rfl⟩ := Prod.mk.inj (Option.some_inj.mp same)
  obtain ⟨sound', ⟨head, here⟩, count⟩ := reallocPoolMemory_spec (sound.holder found).1 got
  exact ⟨sound', exchanged_law counted sound found rfl sound' here (le_refl _) count⟩

theorem checkPoolMemorySize_law {obuf moved : ℕ} {size : ℤ} (sound : Sound s.memory s.held free)
    (counted : Counted s)
    (answered : step build s (.checkPoolMemorySize obuf size moved) = some (handed, s')) :
    Sound s'.memory s'.held free ∧ StepLaw s (.checkPoolMemorySize obuf size moved) handed s' := by
  obtain ⟨h, found, answered⟩ := Option.bind_eq_some_iff.mp answered
  obtain ⟨⟨buf, m⟩, got, same⟩ := Option.bind_eq_some_iff.mp answered
  obtain ⟨rfl, rfl⟩ := Prod.mk.inj (Option.some_inj.mp same)
  obtain ⟨sound', ⟨block, here, enough⟩, count⟩ := checkPoolMemorySize_spec (sound.holder found).1 got
  exact ⟨sound', exchanged_law counted sound found rfl sound' here enough count⟩

theorem freePoolMemory_law {obuf : ℕ} (sound : Sound s.memory s.held free) (counted : Counted s)
    (answered : step build s (.freePoolMemory obuf) = some (handed, s')) :
    (∃ free', Sound s'.memory s'.held free') ∧ StepLaw s (.freePoolMemory obuf) handed s' := by
  obtain ⟨h, found, answered⟩ := Option.bind_eq_some_iff.mp answered
  obtain ⟨m, got, same⟩ := Option.bind_eq_some_iff.mp answered
  obtain ⟨rfl, rfl⟩ := Prod.mk.inj (Option.some_inj.mp same)
  obtain ⟨held, total⟩ := sound.holder found
  obtain ⟨sound', count⟩ := freePoolMemory_spec held got
  refine ⟨sound', fun buf none => (by cases none), ?_⟩
  rw [counted_iff] at counted ⊢
  rw [count, counted, total]
  exact inc_cancel _ _

/-- One call keeps the law exactly when its condition holds. -/
theorem step_law_iff (sound : Sound s.memory s.held free) (counted : Counted s)
    (answered : step build s a = some (handed, s')) :
    (∃ free', Sound s'.memory s'.held free') ∧ (StepLaw s a handed s' ↔ Meets build s a) := by
  cases a with
  | getPoolMemory pool fresh => exact getPoolMemory_law sound counted answered
  | getMemory size fresh =>
      obtain ⟨sound', law⟩ := getMemory_law sound counted answered
      exact ⟨⟨free, sound'⟩, iff_of_true law trivial⟩
  | reallocPoolMemory obuf size moved =>
      obtain ⟨sound', law⟩ := reallocPoolMemory_law sound counted answered
      exact ⟨⟨free, sound'⟩, iff_of_true law trivial⟩
  | checkPoolMemorySize obuf size moved =>
      obtain ⟨sound', law⟩ := checkPoolMemorySize_law sound counted answered
      exact ⟨⟨free, sound'⟩, iff_of_true law trivial⟩
  | freePoolMemory obuf =>
      obtain ⟨sound', law⟩ := freePoolMemory_law sound counted answered
      exact ⟨sound', iff_of_true law trivial⟩

/-- What every call may rely on while the law holds. -/
def Inv (s : State) : Prop := (∃ free, Sound s.memory s.held free) ∧ Counted s

/-- Along any sequence of calls, the law holds as long as the free lists give back what is counted and
long enough. -/
theorem pool_law_iff (build : Build) (size : Pool → ℤ) (calls : List Action) :
    Calls.Along (step build) StepLaw (init size) calls ↔
      Calls.Along (step build) (fun s a _ _ => Meets build s a) (init size) calls := by
  have agree : ∀ s a handed s', Inv s → step build s a = some (handed, s') →
      (StepLaw s a handed s' ↔ Meets build s a) := by
    rintro s a handed s' ⟨⟨free, sound⟩, counted⟩ answered
    exact (step_law_iff sound counted answered).2
  have kept : ∀ s a handed s', Inv s → step build s a = some (handed, s') → StepLaw s a handed s' →
      Inv s' := by
    rintro s a handed s' ⟨⟨free, sound⟩, counted⟩ answered law
    exact ⟨(step_law_iff sound counted answered).1, law.counted⟩
  exact Calls.along_iff agree kept ⟨⟨_, init_sound size⟩, fun _ => rfl⟩ calls

def fresh (address : ℕ) : Fresh := ⟨address, ⟨0, pmNopool, none⟩⟩

/-- Without SMARTALLOC a recycled buffer is not counted, and in both builds it can be shorter than what
the pool hands out. -/
theorem recycled_buffer_breaks_law :
    ¬ Calls.Along (step .plain) StepLaw (init defaultSize)
      [.getPoolMemory 1 (fresh 0), .freePoolMemory 0, .getPoolMemory 1 (fresh 1)] ∧
    ¬ Calls.Along (step .smartalloc) StepLaw (init defaultSize)
      [.getPoolMemory 1 (fresh 0), .reallocPoolMemory 0 10 0, .freePoolMemory 0,
      .getPoolMemory 1 (fresh 1)] := by
  constructor
  · intro along
    have law := (((along _ _ rfl).2 _ _ rfl).2 _ _ rfl).1
    exact absurd (law.counted 1) (by decide)
  · intro along
    have law := ((((along _ _ rfl).2 _ _ rfl).2 _ _ rfl).2 _ _ rfl).1
    obtain ⟨block, here, -, enough⟩ := (law.handedOut 0 rfl).recorded
    obtain rfl := Option.some_inj.mp here
    exact absurd enough (by decide)

end Bacula.MemPool
