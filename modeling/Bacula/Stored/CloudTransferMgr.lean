import Bacula.Library.Transition

/-! The references to the transfers of a manager in `stored/cloud_transfer_mgr.c`. A step is a section
under a mutex: `get_xfer` is one, `release` decrements the count in a first and deletes in a second. -/
namespace Bacula.CloudTransferMgr
open Transition

structure Transfer where
  volumeName : String
  part : ℕ
  useCount : ℤ
  /-- `m_state` is done or error, which `wait` waits for. -/
  completed : Bool
  deriving DecidableEq, Repr

/-- The transfers are numbered in the order they are created in. A reference is a caller and a
transfer. -/
structure Manager where
  heap : ℕ → Transfer
  next : ℕ
  transferList : List ℕ
  deleted : List ℕ
  refs : List (ℕ × ℕ)
  /-- Who is between the sections of `release`. -/
  removing : List (ℕ × ℕ)

def init : Manager := ⟨fun _ => ⟨"", 0, 0, true⟩, 0, [], [], [], []⟩

/-- This is where "similar transfer" is defined. -/
def Transfer.similar (t : Transfer) (volumeName : String) (part : ℕ) : Bool :=
  t.volumeName = volumeName ∧ t.part = part

def Manager.find (m : Manager) (volumeName : String) (part : ℕ) : Option ℕ :=
  m.transferList.find? fun i => (m.heap i).similar volumeName part

def Manager.addUseCount (m : Manager) (i : ℕ) (v : ℤ) : Manager :=
  { m with heap := Function.update m.heap i { m.heap i with useCount := (m.heap i).useCount + v } }

def getXfer (m : Manager) (caller : ℕ) (volumeName : String) (part : ℕ) : Manager :=
  match m.find volumeName part with
  | some i =>
      let m := m.addUseCount i 1
      { m with refs := (caller, i) :: m.refs }
  | none =>
      let i := m.next
      let m := { m with heap := Function.update m.heap i ⟨volumeName, part, 0, false⟩, next := i + 1 }
      -- once for the list, and once for the caller
      let m := { m.addUseCount i 1 with transferList := m.transferList ++ [i] }
      let m := m.addUseCount i 1
      { m with refs := (caller, i) :: m.refs }

/-- `dec_use_count` for the caller; the count decides whether the caller deletes. -/
def releaseDec (m : Manager) (caller i : ℕ) : Manager :=
  let m := { m.addUseCount i (-1) with refs := m.refs.erase (caller, i) }
  if (m.heap i).useCount = 1 then { m with removing := (caller, i) :: m.removing } else m

def releaseDelete (m : Manager) (caller i : ℕ) : Manager :=
  let m := { m with transferList := m.transferList.erase i }
  let m := m.addUseCount i (-1)
  { m with deleted := i :: m.deleted, removing := m.removing.erase (caller, i) }

/-- The transfer is processed to its end, or a caller takes the next section. -/
inductive Action where
  | complete (i : ℕ)
  | getXfer (caller : ℕ) (volumeName : String) (part : ℕ)
  | releaseDec (caller i : ℕ)
  | releaseDelete (caller i : ℕ)
  deriving DecidableEq, Repr

def Manager.Idle (m : Manager) (caller : ℕ) : Prop := ∀ r ∈ m.removing, r.1 ≠ caller

instance (m : Manager) (caller : ℕ) : Decidable (m.Idle caller) :=
  inferInstanceAs (Decidable (∀ r ∈ m.removing, r.1 ≠ caller))

/-- A caller releases references that it has, waits for the transfer first, and does nothing else in
between. -/
inductive Step : Manager → Action → Manager → Prop where
  | complete (m : Manager) (i : ℕ) :
      Step m (.complete i)
        { m with heap := Function.update m.heap i { m.heap i with completed := true } }
  | getXfer {m : Manager} {caller : ℕ} (idle : m.Idle caller) (volumeName : String) (part : ℕ) :
      Step m (.getXfer caller volumeName part) (getXfer m caller volumeName part)
  | releaseDec {m : Manager} {caller i : ℕ} (idle : m.Idle caller) (held : (caller, i) ∈ m.refs)
      (completed : (m.heap i).completed = true) : Step m (.releaseDec caller i) (releaseDec m caller i)
  | releaseDelete {m : Manager} {caller i : ℕ} (turn : (caller, i) ∈ m.removing) :
      Step m (.releaseDelete caller i) (releaseDelete m caller i)

/-! ## The law -/

def references (refs : List (ℕ × ℕ)) (i : ℕ) : ℕ := refs.countP fun r => r.2 = i

structure Law (m : Manager) : Prop where
  /-- Nobody has a reference to a transfer that is deleted. -/
  unreferenced : ∀ i ∈ m.deleted, references m.refs i = 0
  once : m.deleted.Nodup
  listed : m.transferList.Nodup
  similar : ∀ i ∈ m.transferList, ∀ j ∈ m.transferList,
    (m.heap i).volumeName = (m.heap j).volumeName → (m.heap i).part = (m.heap j).part → i = j
  useCount : ∀ i ∈ m.transferList, (m.heap i).useCount = references m.refs i + 1

/-- No transfer is found on the list whose only reference is that of the list. -/
def Meets (m : Manager) : Action → Prop
  | .getXfer _ volumeName part =>
      ∀ i ∈ m.transferList, (m.heap i).similar volumeName part = true → (m.heap i).useCount ≠ 1
  | _ => True

instance (m : Manager) : (a : Action) → Decidable (Meets m a)
  | .getXfer _ volumeName part =>
      inferInstanceAs (Decidable (∀ i ∈ m.transferList,
        (m.heap i).similar volumeName part = true → (m.heap i).useCount ≠ 1))
  | .complete _ | .releaseDec _ _ | .releaseDelete _ _ => isTrue trivial

/-- Between the steps: who is about to delete a transfer is the only one to do so, and nobody has a
reference to it. -/
structure Inv (m : Manager) : Prop extends Law m where
  fresh : ∀ i ∈ m.transferList, i < m.next
  gone : ∀ i ∈ m.deleted, i < m.next ∧ i ∉ m.transferList
  alive : ∀ r ∈ m.refs, r.2 ∈ m.transferList
  removed : ∀ r ∈ m.removing, r.2 ∈ m.transferList ∧ references m.refs r.2 = 0
  single : (m.removing.map Prod.snd).Nodup

theorem init_inv : Inv init := by
  constructor
  · constructor <;> simp [init]
  all_goals simp [init]

theorem useCount_add (m : Manager) (i j : ℕ) (v : ℤ) :
    ((m.addUseCount i v).heap j).useCount = (m.heap j).useCount + if j = i then v else 0 := by
  rw [Manager.addUseCount]
  by_cases same : j = i
  · simp [same]
  · simp [same]

theorem similar_add (m : Manager) (i j : ℕ) (v : ℤ) :
    ((m.addUseCount i v).heap j).volumeName = (m.heap j).volumeName ∧
      ((m.addUseCount i v).heap j).part = (m.heap j).part := by
  rw [Manager.addUseCount]
  by_cases same : j = i <;> simp [same]

theorem references_cons (refs : List (ℕ × ℕ)) (caller i j : ℕ) :
    references ((caller, i) :: refs) j = references refs j + if j = i then 1 else 0 := by
  rw [references, references, List.countP_cons]
  simp [eq_comm]

theorem references_erase {refs : List (ℕ × ℕ)} {caller i : ℕ} (held : (caller, i) ∈ refs) (j : ℕ) :
    references refs j = references (refs.erase (caller, i)) j + if j = i then 1 else 0 := by
  rw [← references_cons _ caller, references, references, (List.perm_cons_erase held).countP_eq]

theorem find_some {m : Manager} {volumeName : String} {part i : ℕ}
    (found : m.find volumeName part = some i) :
    i ∈ m.transferList ∧ (m.heap i).similar volumeName part = true :=
  ⟨List.mem_of_find?_eq_some found,
    List.find?_some (p := fun i => (m.heap i).similar volumeName part) found⟩

theorem addUseCount_similar {m : Manager} (similar : ∀ i ∈ m.transferList, ∀ j ∈ m.transferList,
    (m.heap i).volumeName = (m.heap j).volumeName → (m.heap i).part = (m.heap j).part →
    i = j) (k : ℕ) (v : ℤ) :
    ∀ i ∈ m.transferList, ∀ j ∈ m.transferList,
      ((m.addUseCount k v).heap i).volumeName = ((m.addUseCount k v).heap j).volumeName →
        ((m.addUseCount k v).heap i).part = ((m.addUseCount k v).heap j).part → i = j := by
  intro i here j there volume part
  obtain ⟨volume₁, part₁⟩ := similar_add m k i v
  obtain ⟨volume₂, part₂⟩ := similar_add m k j v
  exact similar i here j there (volume₁.symm.trans (volume.trans volume₂))
    (part₁.symm.trans (part.trans part₂))

/-- A new reference to a transfer on the list. -/
theorem shared_inv {m : Manager} (inv : Inv m) {i : ℕ} (listed : i ∈ m.transferList)
    (shared : (m.heap i).useCount ≠ 1) (caller : ℕ) :
    Inv { m.addUseCount i 1 with refs := (caller, i) :: m.refs } where
  unreferenced j gone := by
    have other : j ≠ i := fun same => (inv.gone j gone).2 (same ▸ listed)
    show references ((caller, i) :: m.refs) j = 0
    rw [references_cons, inv.unreferenced j gone, if_neg other]
  once := inv.once
  listed := inv.listed
  similar := addUseCount_similar inv.similar i 1
  useCount j here := by
    show ((m.addUseCount i 1).heap j).useCount = references ((caller, i) :: m.refs) j + 1
    rw [references_cons, useCount_add, inv.useCount j here]
    split <;> push_cast <;> omega
  fresh := inv.fresh
  gone := inv.gone
  alive := by
    rintro r (_ | ⟨_, old⟩)
    · exact listed
    · exact inv.alive r old
  removed r turn := by
    obtain ⟨here, none⟩ := inv.removed r turn
    have other : r.2 ≠ i := by
      rintro rfl
      have count := inv.useCount r.2 listed
      rw [none] at count
      exact shared count
    refine ⟨here, ?_⟩
    show references ((caller, i) :: m.refs) r.2 = 0
    rw [references_cons, none, if_neg other]
  single := inv.single

theorem find_none {m : Manager} {volumeName : String} {part : ℕ}
    (found : m.find volumeName part = none) :
    ∀ i ∈ m.transferList, ¬ ((m.heap i).volumeName = volumeName ∧ (m.heap i).part = part) := by
  intro i here
  have differs := List.find?_eq_none.mp found i here
  simpa [Transfer.similar] using differs

/-- What `get_xfer` makes when nothing similar is on the list. -/
theorem getXfer_new {m : Manager} {caller : ℕ} {volumeName : String} {part : ℕ}
    (found : m.find volumeName part = none) :
    getXfer m caller volumeName part = { m with
      heap := Function.update m.heap m.next ⟨volumeName, part, 2, false⟩
      next := m.next + 1
      transferList := m.transferList ++ [m.next]
      refs := (caller, m.next) :: m.refs } := by
  rw [getXfer, found]
  simp [Manager.addUseCount]

theorem created_inv {m : Manager} (inv : Inv m) {caller : ℕ} {volumeName : String} {part : ℕ}
    (found : m.find volumeName part = none) : Inv (getXfer m caller volumeName part) := by
  have old (i : ℕ) (here : i ∈ m.transferList) : i ≠ m.next := ne_of_lt (inv.fresh i here)
  have none : references m.refs m.next = 0 := by
    rw [references, List.countP_eq_zero]
    intro r held
    exact decide_eq_false (old _ (inv.alive r held)) ▸ Bool.false_ne_true
  have differs := find_none found
  rw [getXfer_new found]
  exact {
    unreferenced := by
      intro j gone
      show references ((caller, m.next) :: m.refs) j = 0
      rw [references_cons, inv.unreferenced j gone, if_neg (ne_of_lt (inv.gone j gone).1)]
    once := inv.once
    listed := List.nodup_append.mpr ⟨inv.listed, List.nodup_singleton _, fun i here j new =>
      List.mem_singleton.mp new ▸ old i here⟩
    similar := by
      intro i here j there
      show (Function.update m.heap m.next _ i).volumeName =
          (Function.update m.heap m.next _ j).volumeName →
        (Function.update m.heap m.next _ i).part = (Function.update m.heap m.next _ j).part → i = j
      rcases List.mem_append.mp here with here | new <;>
        rcases List.mem_append.mp there with there | new'
      · rw [Function.update_of_ne (old i here), Function.update_of_ne (old j there)]
        exact inv.similar i here j there
      · rw [List.mem_singleton.mp new', Function.update_of_ne (old i here), Function.update_self]
        exact fun volume part => absurd ⟨volume, part⟩ (differs i here)
      · rw [List.mem_singleton.mp new, Function.update_of_ne (old j there), Function.update_self]
        exact fun volume part => absurd ⟨volume.symm, part.symm⟩ (differs j there)
      · exact fun _ _ => (List.mem_singleton.mp new).trans (List.mem_singleton.mp new').symm
    useCount := by
      intro i here
      show (Function.update m.heap m.next _ i).useCount =
        (references ((caller, m.next) :: m.refs) i : ℤ) + 1
      rw [references_cons]
      rcases List.mem_append.mp here with here | new
      · rw [Function.update_of_ne (old i here), if_neg (old i here), Nat.add_zero, inv.useCount i here]
      · rw [List.mem_singleton.mp new, Function.update_self, if_pos rfl, none]
        rfl
    fresh := by
      intro i here
      rcases List.mem_append.mp here with here | new
      · exact Nat.lt_succ_of_lt (inv.fresh i here)
      · exact Nat.lt_succ_of_le (le_of_eq (List.mem_singleton.mp new))
    gone := by
      intro i gone
      obtain ⟨small, absent⟩ := inv.gone i gone
      refine ⟨Nat.lt_succ_of_lt small, fun here => ?_⟩
      rcases List.mem_append.mp here with here | new
      · exact absent here
      · exact absurd (List.mem_singleton.mp new) (ne_of_lt small)
    alive := by
      rintro r (_ | ⟨_, held⟩)
      · exact List.mem_append_right _ (List.mem_singleton_self _)
      · exact List.mem_append_left _ (inv.alive r held)
    removed := by
      intro r turn
      obtain ⟨here, none⟩ := inv.removed r turn
      refine ⟨List.mem_append_left _ here, ?_⟩
      show references ((caller, m.next) :: m.refs) r.2 = 0
      rw [references_cons, none, if_neg (old _ here)]
    single := inv.single }

theorem releaseDec_inv {m : Manager} (inv : Inv m) {caller i : ℕ} (held : (caller, i) ∈ m.refs) :
    Inv (releaseDec m caller i) := by
  have listed : i ∈ m.transferList := inv.alive _ held
  have erased := references_erase held
  have count : ∀ j ∈ m.transferList,
      ((m.addUseCount i (-1)).heap j).useCount = references (m.refs.erase (caller, i)) j + 1 := by
    intro j here
    have before := inv.useCount j here
    rw [erased j] at before
    rw [useCount_add, before]
    split <;> push_cast <;> omega
  have less : Inv { m.addUseCount i (-1) with refs := m.refs.erase (caller, i) } := {
    unreferenced := by
      intro j gone
      have none := inv.unreferenced j gone
      rw [erased j] at none
      exact Nat.eq_zero_of_add_eq_zero_right none
    once := inv.once
    listed := inv.listed
    similar := addUseCount_similar inv.similar i (-1)
    useCount := count
    fresh := inv.fresh
    gone := inv.gone
    alive := fun r held => inv.alive r (List.mem_of_mem_erase held)
    removed := by
      intro r turn
      obtain ⟨here, none⟩ := inv.removed r turn
      rw [erased r.2] at none
      exact ⟨here, Nat.eq_zero_of_add_eq_zero_right none⟩
    single := inv.single }
  unfold releaseDec
  dsimp only
  split
  case isFalse => exact less
  case isTrue last =>
    have alone : references (m.refs.erase (caller, i)) i = 0 := by
      have counted := count i listed
      rw [last] at counted
      omega
    have unclaimed : i ∉ m.removing.map Prod.snd := by
      intro claimed
      obtain ⟨r, turn, rfl⟩ := List.mem_map.mp claimed
      have none := (inv.removed r turn).2
      rw [erased, if_pos rfl] at none
      omega
    exact { less with
      removed := by
        rintro r (_ | ⟨_, turn⟩)
        · exact ⟨listed, alone⟩
        · exact less.removed r turn
      single := List.nodup_cons.mpr ⟨unclaimed, inv.single⟩ }

theorem releaseDelete_inv {m : Manager} (inv : Inv m) {caller i : ℕ} (turn : (caller, i) ∈ m.removing) :
    Inv (releaseDelete m caller i) := by
  obtain ⟨listed, (none : references m.refs i = 0)⟩ := inv.removed _ turn
  have absent : i ∉ m.transferList.erase i := inv.listed.not_mem_erase
  have others :
      List.Perm (((caller, i) :: m.removing.erase (caller, i)).map Prod.snd)
        (m.removing.map Prod.snd) :=
    (List.perm_cons_erase turn).symm.map Prod.snd
  obtain ⟨unclaimed, single⟩ := List.nodup_cons.mp (others.nodup_iff.mpr inv.single)
  unfold releaseDelete
  exact {
    unreferenced := by
      rintro j (_ | ⟨_, gone⟩)
      · exact none
      · exact inv.unreferenced j gone
    once := List.nodup_cons.mpr ⟨fun gone => (inv.gone i gone).2 listed, inv.once⟩
    listed := inv.listed.erase i
    similar := by
      intro j here k there
      exact addUseCount_similar inv.similar i (-1) j (List.mem_of_mem_erase here) k
        (List.mem_of_mem_erase there)
    useCount := by
      intro j here
      show ((m.addUseCount i (-1)).heap j).useCount = _
      have other : j ≠ i := fun same => absent (same ▸ here)
      rw [useCount_add, if_neg other, add_zero]
      exact inv.useCount j (List.mem_of_mem_erase here)
    fresh := fun j here => inv.fresh j (List.mem_of_mem_erase here)
    gone := by
      rintro j (_ | ⟨_, gone⟩)
      · exact ⟨inv.fresh i listed, absent⟩
      · exact ⟨(inv.gone j gone).1, fun here => (inv.gone j gone).2 (List.mem_of_mem_erase here)⟩
    alive := by
      intro r held
      have other : r.2 ≠ i := by
        rintro rfl
        have some : 0 < references m.refs r.2 := List.countP_pos_iff.mpr ⟨r, held, decide_eq_true rfl⟩
        omega
      exact (List.mem_erase_of_ne other).mpr (inv.alive r held)
    removed := by
      intro r turn'
      obtain ⟨here, none'⟩ := inv.removed r (List.mem_of_mem_erase turn')
      have other : r.2 ≠ i := fun same => unclaimed (List.mem_map.mpr ⟨r, turn', same⟩)
      exact ⟨(List.mem_erase_of_ne other).mpr here, none'⟩
    single := single }

theorem complete_inv {m : Manager} (inv : Inv m) (i : ℕ) :
    Inv { m with heap := Function.update m.heap i { m.heap i with completed := true } } := by
  have same (j : ℕ) : (Function.update m.heap i { m.heap i with completed := true } j).useCount =
    (m.heap j).useCount ∧
      (Function.update m.heap i { m.heap i with completed := true } j).volumeName =
        (m.heap j).volumeName ∧
      (Function.update m.heap i { m.heap i with completed := true } j).part = (m.heap j).part := by
    by_cases here : j = i <;> simp [here]
  exact { inv with
    similar := by
      intro j here k there volume part
      exact inv.similar j here k there ((same j).2.1.symm.trans (volume.trans (same k).2.1))
        ((same j).2.2.symm.trans (part.trans (same k).2.2))
    useCount := fun j here => (same j).1.trans (inv.useCount j here) }

theorem step_inv {m m' : Manager} {a : Action} (inv : Inv m) (step : Guarded Step Meets m a m') :
    Inv m' := by
  obtain ⟨meets, step⟩ := step
  cases step with
  | complete i => exact complete_inv inv i
  | getXfer idle volumeName part =>
      cases found : m.find volumeName part with
      | none => exact created_inv inv found
      | some i =>
          obtain ⟨listed, similar⟩ := find_some found
          have shared := shared_inv inv listed (meets i listed similar)
          rw [getXfer, found]
          exact shared _
  | releaseDec idle held completed => exact releaseDec_inv inv held
  | releaseDelete turn => exact releaseDelete_inv inv turn

/-- The law holds in every state of a run in which no transfer is found that is about to be deleted. -/
theorem reference_law {m : Manager} {actions : List Action}
    (run : Run (Guarded Step Meets) init actions m) : Law m :=
  (run.invariant (fun _ _ _ inv step => step_inv inv step) init_inv).toLaw

/-- Two callers share a part, and the last one deletes it. -/
theorem reference_law_shared :
    ∃ m, Run (Guarded Step Meets) init
      [.getXfer 1 "Vol" 2, .getXfer 2 "Vol" 2, .complete 0, .releaseDec 1 0,
        .releaseDec 2 0, .releaseDelete 2 0] m ∧ Law m := by
  obtain ⟨m, run⟩ :
      ∃ m, Run (Guarded Step Meets) init [.getXfer 1 "Vol" 2, .getXfer 2 "Vol" 2, .complete 0,
        .releaseDec 1 0, .releaseDec 2 0, .releaseDelete 2 0] m := by
    refine ⟨?last, ?run⟩
    case run =>
      refine .cons ⟨by decide, .getXfer (by decide) "Vol" 2⟩ ?_
      refine .cons ⟨by decide, .getXfer (by decide) "Vol" 2⟩ ?_
      refine .cons ⟨by decide, .complete _ 0⟩ ?_
      refine .cons ⟨by decide, .releaseDec (by decide) (by decide) (by decide)⟩ ?_
      refine .cons ⟨by decide, .releaseDec (by decide) (by decide) (by decide)⟩ ?_
      refine .cons ⟨by decide, .releaseDelete (by decide)⟩ ?_
      exact .nil _
  exact ⟨m, run, reference_law run⟩

/-- A caller finds the transfer that another one is about to delete. -/
theorem deleted_while_referenced :
    ∃ m, Run Step init
      [.getXfer 1 "Vol" 2, .complete 0, .releaseDec 1 0, .getXfer 2 "Vol" 2, .releaseDelete 1 0] m ∧
      ¬ Law m := by
  refine ⟨?last, ?run, ?broken⟩
  case run =>
    refine .cons (.getXfer (by decide) "Vol" 2) ?_
    refine .cons (.complete _ 0) ?_
    refine .cons (.releaseDec (by decide) (by decide) (by decide)) ?_
    refine .cons (.getXfer (by decide) "Vol" 2) ?_
    refine .cons (.releaseDelete (by decide)) ?_
    exact .nil _
  case broken => exact fun law => absurd (law.unreferenced 0 (by decide)) (by decide)

end Bacula.CloudTransferMgr
