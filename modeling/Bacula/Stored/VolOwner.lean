import Bacula.Stored.VolMgr

/-! Which device owns a volume: the invariant of the volume list. -/
namespace Bacula.VolMgr
open Dlist Transition

/-- Names are unique and sorted, every entry is owned by one device and a device that has
a writing volume has an entry of the list. -/
structure Owned (s : State) : Prop where
  sorted : Sorted s.nameCompare s.volList
  entry : ∀ vol ∈ s.volList, ∃ dev, (s.heap vol).dev = some dev ∧ (s.device dev).vol = some vol
  device : ∀ dev vol, (s.device dev).vol = some vol → (s.heap vol).reading = false →
    vol ∈ s.volList

/-- The use count of an entry of the list counts the list and the walks. -/
structure Listed (s : State) (vol : VolId) : Prop where
  allocated : vol < s.next
  alive : (s.heap vol).freed = false
  writing : (s.heap vol).reading = false
  useCount : (s.heap vol).useCount = 1 + s.held.count vol
  owned : ∃ dev, (s.heap vol).dev = some dev ∧ (s.device dev).vol = some vol

/-- A volume of a device is a listed one, or a read volume that nobody else refers to. -/
structure Attached (s : State) (dev : DevId) (vol : VolId) : Prop where
  allocated : vol < s.next
  alive : (s.heap vol).freed = false
  owner : (s.heap vol).dev = some dev
  listed : (s.heap vol).reading = false → vol ∈ s.volList

/-- An entry that a walk points to; it may have been removed from the list meanwhile. -/
structure Walked (s : State) (vol : VolId) : Prop where
  allocated : vol < s.next
  alive : (s.heap vol).freed = false
  writing : (s.heap vol).reading = false
  removed : vol ∉ s.volList → (s.heap vol).useCount = s.held.count vol

structure Inv (s : State) : Prop where
  sorted : Sorted s.nameCompare s.volList
  listed : ∀ vol ∈ s.volList, Listed s vol
  attached : ∀ dev vol, (s.device dev).vol = some vol → Attached s dev vol
  walked : ∀ vol ∈ s.held, Walked s vol

theorem Inv.owned {s : State} (inv : Inv s) : Owned s where
  sorted := inv.sorted
  entry vol member := (inv.listed vol member).owned
  device dev vol has writing := (inv.attached dev vol has).listed writing

theorem Inv.initial {s : State} (init : Initial s) : Inv s where
  sorted := by rw [init.volList]; exact List.Pairwise.nil
  listed := by simp [init.volList]
  attached := by simp [init.device]
  walked := by simp [init.held]

section Updates
variable (s : State)

@[simp] theorem modifyVol_heap (vol u : VolId) (f : Volres → Volres) :
    (s.modifyVol vol f).heap u = if u = vol then f (s.heap vol) else s.heap u := by
  simp only [State.modifyVol, Function.update_apply]

@[simp] theorem modifyVol_device (vol : VolId) (f : Volres → Volres) :
    (s.modifyVol vol f).device = s.device := rfl

@[simp] theorem modifyVol_next (vol : VolId) (f : Volres → Volres) :
    (s.modifyVol vol f).next = s.next := rfl

@[simp] theorem modifyVol_volList (vol : VolId) (f : Volres → Volres) :
    (s.modifyVol vol f).volList = s.volList := rfl

@[simp] theorem modifyVol_held (vol : VolId) (f : Volres → Volres) :
    (s.modifyVol vol f).held = s.held := rfl

@[simp] theorem modifyDev_device (dev e : DevId) (f : Device → Device) :
    (s.modifyDev dev f).device e = if e = dev then f (s.device dev) else s.device e := by
  simp only [State.modifyDev, Function.update_apply]

@[simp] theorem modifyDev_heap (dev : DevId) (f : Device → Device) :
    (s.modifyDev dev f).heap = s.heap := rfl

@[simp] theorem modifyDev_next (dev : DevId) (f : Device → Device) :
    (s.modifyDev dev f).next = s.next := rfl

@[simp] theorem modifyDev_volList (dev : DevId) (f : Device → Device) :
    (s.modifyDev dev f).volList = s.volList := rfl

@[simp] theorem modifyDev_held (dev : DevId) (f : Device → Device) :
    (s.modifyDev dev f).held = s.held := rfl

end Updates

theorem sorted_of_names {s t : State} {list : List VolId} (sorted : Sorted s.nameCompare list)
    (names : ∀ vol ∈ list, (t.heap vol).volName = (s.heap vol).volName) :
    Sorted t.nameCompare list := by
  apply List.Pairwise.imp_of_mem _ sorted
  intro a b ha hb less
  simpa only [State.nameCompare, names a ha, names b hb] using less

/-- Flags and slots do not matter. -/
theorem Inv.modifyVol {s : State} (inv : Inv s) (vol : VolId) (f : Volres → Volres)
    (name : (f (s.heap vol)).volName = (s.heap vol).volName)
    (dev : (f (s.heap vol)).dev = (s.heap vol).dev)
    (reading : (f (s.heap vol)).reading = (s.heap vol).reading)
    (count : (f (s.heap vol)).useCount = (s.heap vol).useCount)
    (freed : (f (s.heap vol)).freed = (s.heap vol).freed) : Inv (s.modifyVol vol f) := by
  have sameName : ∀ u, ((s.modifyVol vol f).heap u).volName = (s.heap u).volName := by
    intro u; simp only [modifyVol_heap]; split <;> simp_all
  have sameDev : ∀ u, ((s.modifyVol vol f).heap u).dev = (s.heap u).dev := by
    intro u; simp only [modifyVol_heap]; split <;> simp_all
  have sameReading : ∀ u, ((s.modifyVol vol f).heap u).reading = (s.heap u).reading := by
    intro u; simp only [modifyVol_heap]; split <;> simp_all
  have sameCount : ∀ u, ((s.modifyVol vol f).heap u).useCount = (s.heap u).useCount := by
    intro u; simp only [modifyVol_heap]; split <;> simp_all
  have sameFreed : ∀ u, ((s.modifyVol vol f).heap u).freed = (s.heap u).freed := by
    intro u; simp only [modifyVol_heap]; split <;> simp_all
  constructor
  · exact sorted_of_names inv.sorted fun u _ => sameName u
  · intro u member
    obtain ⟨allocated, alive, writing, useCount, owned⟩ := inv.listed u member
    exact ⟨allocated, by rwa [sameFreed], by rwa [sameReading], by rwa [sameCount],
      by rwa [sameDev]⟩
  · intro e u has
    obtain ⟨allocated, alive, owner, listed⟩ := inv.attached e u has
    exact ⟨allocated, by rwa [sameFreed], by rwa [sameDev], by rwa [sameReading]⟩
  · intro u member
    obtain ⟨allocated, alive, writing, removed⟩ := inv.walked u member
    exact ⟨allocated, by rwa [sameFreed], by rwa [sameReading], by rwa [sameCount]⟩

/-- Of a device only its volume matters. -/
theorem Inv.modifyDev {s : State} (inv : Inv s) (dev : DevId) (f : Device → Device)
    (vol : (f (s.device dev)).vol = (s.device dev).vol) : Inv (s.modifyDev dev f) := by
  have sameVol : ∀ e, ((s.modifyDev dev f).device e).vol = (s.device e).vol := by
    intro e; simp only [modifyDev_device]; split <;> simp_all
  constructor
  · exact inv.sorted
  · intro u member
    obtain ⟨allocated, alive, writing, useCount, owner, at_u, has⟩ := inv.listed u member
    exact ⟨allocated, alive, writing, useCount, owner, at_u, by rwa [sameVol]⟩
  · intro e u has
    rw [sameVol] at has
    obtain ⟨allocated, alive, owner, listed⟩ := inv.attached e u has
    exact ⟨allocated, alive, owner, listed⟩
  · intro u member
    obtain ⟨allocated, alive, writing, removed⟩ := inv.walked u member
    exact ⟨allocated, alive, writing, removed⟩

section FreeVolItem
variable {s : State} {vol : VolId}

theorem freeVolItem_more (more : 1 < (s.heap vol).useCount) :
    freeVolItem s vol = s.modifyVol vol fun v => { v with useCount := v.useCount - 1 } := by
  simp [freeVolItem, more]

theorem freeVolItem_last (last : ¬ 1 < (s.heap vol).useCount) :
    freeVolItem s vol =
      let t := s.modifyVol vol fun v => { v with useCount := v.useCount - 1, freed := true }
      match (s.heap vol).dev with
      | some dev => t.modifyDev dev fun d => { d with vol := none }
      | none => t := by
  have merged : (s.modifyVol vol fun v => { v with useCount := v.useCount - 1 }).modifyVol vol
      (fun v => { v with freed := true }) =
      s.modifyVol vol fun v => { v with useCount := v.useCount - 1, freed := true } := by
    simp [State.modifyVol]
  have used : ¬ 0 < (s.heap vol).useCount - 1 := by omega
  cases owner : (s.heap vol).dev <;>
    simp only [freeVolItem, modifyVol_heap, if_true, used, if_false, merged, owner]

variable (s vol)

@[simp] theorem freeVolItem_next : (freeVolItem s vol).next = s.next := by
  by_cases more : 1 < (s.heap vol).useCount
  · rw [freeVolItem_more more]; rfl
  · rw [freeVolItem_last more]; cases (s.heap vol).dev <;> rfl

@[simp] theorem freeVolItem_volList : (freeVolItem s vol).volList = s.volList := by
  by_cases more : 1 < (s.heap vol).useCount
  · rw [freeVolItem_more more]; rfl
  · rw [freeVolItem_last more]; cases (s.heap vol).dev <;> rfl

@[simp] theorem freeVolItem_held : (freeVolItem s vol).held = s.held := by
  by_cases more : 1 < (s.heap vol).useCount
  · rw [freeVolItem_more more]; rfl
  · rw [freeVolItem_last more]; cases (s.heap vol).dev <;> rfl

theorem freeVolItem_heap (u : VolId) : (freeVolItem s vol).heap u =
    if u = vol then { s.heap vol with
      useCount := (s.heap vol).useCount - 1
      freed := if 1 < (s.heap vol).useCount then (s.heap vol).freed else true }
    else s.heap u := by
  by_cases more : 1 < (s.heap vol).useCount
  · simp only [freeVolItem_more more, modifyVol_heap, more, if_true]
  · simp only [freeVolItem_last more, more, if_false]
    cases owner : (s.heap vol).dev <;> simp only [owner, modifyDev_heap, modifyVol_heap]

/-- Only the last reference clears the volume of the device. -/
theorem freeVolItem_device (e : DevId) : ((freeVolItem s vol).device e).vol =
    if (s.heap vol).useCount ≤ 1 ∧ (s.heap vol).dev = some e then none else (s.device e).vol := by
  by_cases more : 1 < (s.heap vol).useCount
  · rw [freeVolItem_more more, if_neg (by omega)]
    rfl
  · simp only [freeVolItem_last more, not_lt.mp more, true_and]
    cases owner : (s.heap vol).dev with
    | none => simp
    | some dev =>
        by_cases same : e = dev
        · simp [same]
        · simp [same, Ne.symm same]

end FreeVolItem

/-- The volume leaves the list and its device. -/
def State.detach (s : State) (dev : DevId) (vol : VolId) : State :=
  { s.modifyDev dev fun d => { d with vol := none } with volList := remove s.volList vol }

theorem Inv.nodup {s : State} (inv : Inv s) : s.volList.Nodup := by
  apply List.Pairwise.imp _ inv.sorted
  rintro a b less rfl
  have self : s.nameCompare a a = .eq := Std.ReflCmp.compare_self
  rw [self] at less
  cases less

theorem Inv.mem_remove_iff {s : State} (inv : Inv s) (vol u : VolId) :
    u ∈ remove s.volList vol ↔ u ≠ vol ∧ u ∈ s.volList :=
  inv.nodup.mem_erase_iff

theorem Inv.detach {s : State} (inv : Inv s) {dev : DevId} {vol : VolId}
    (has : (s.device dev).vol = some vol) : Inv (freeVolItem (s.detach dev vol) vol) := by
  have here := inv.attached dev vol has
  have heap : ∀ u, u ≠ vol → (freeVolItem (s.detach dev vol) vol).heap u = s.heap u := by
    intro u other
    rw [freeVolItem_heap, if_neg other]
    rfl
  have device : ∀ e, ((freeVolItem (s.detach dev vol) vol).device e).vol =
      if e = dev then none else (s.device e).vol := by
    intro e
    rw [freeVolItem_device]
    by_cases same : e = dev
    · simp [State.detach, same]
    · have notOwner : ¬ (s.heap vol).dev = some e := by
        rw [here.owner, Option.some_inj]
        exact Ne.symm same
      simp [State.detach, same, notOwner]
  constructor
  · rw [freeVolItem_volList]
    apply sorted_of_names (inv.sorted.sublist List.erase_sublist)
    intro u member
    rw [heap u ((inv.mem_remove_iff vol u).mp member).1]
  · intro u member
    rw [freeVolItem_volList] at member
    obtain ⟨other, member⟩ := (inv.mem_remove_iff vol u).mp member
    obtain ⟨allocated, alive, writing, useCount, e, owner, at_u⟩ := inv.listed u member
    have elsewhere : e ≠ dev := by
      rintro rfl
      rw [has] at at_u
      exact other (Option.some_inj.mp at_u).symm
    refine ⟨by rwa [freeVolItem_next], by rwa [heap u other], by rwa [heap u other],
      by rwa [heap u other, freeVolItem_held], e, by rwa [heap u other], ?_⟩
    rw [device, if_neg elsewhere]
    exact at_u
  · intro e u at_u
    rw [device] at at_u
    split at at_u
    · cases at_u
    · rename_i elsewhere
      obtain ⟨allocated, alive, owner, listed⟩ := inv.attached e u at_u
      have other : u ≠ vol := by
        rintro rfl
        rw [here.owner] at owner
        exact elsewhere (Option.some_inj.mp owner).symm
      refine ⟨by rwa [freeVolItem_next], by rwa [heap u other], by rwa [heap u other], ?_⟩
      intro writing
      rw [heap u other] at writing
      rw [freeVolItem_volList]
      exact (inv.mem_remove_iff vol u).mpr ⟨other, listed writing⟩
  · intro u member
    rw [freeVolItem_held] at member
    obtain ⟨allocated, alive, writing, removed⟩ := inv.walked u member
    by_cases same : u = vol
    · subst same
      have count := (inv.listed u (here.listed writing)).useCount
      have positive : 0 < s.held.count u := List.count_pos_iff.mpr member
      have value : (freeVolItem (s.detach dev u) u).heap u =
          { s.heap u with useCount := s.held.count u } := by
        have same : (s.detach dev u).heap u = s.heap u := rfl
        have more : 1 < (s.heap u).useCount := by omega
        have less : (s.heap u).useCount - 1 = s.held.count u := by omega
        rw [freeVolItem_heap, if_pos rfl, same, if_pos more, less]
      refine ⟨by rwa [freeVolItem_next], by rwa [value], by rwa [value], ?_⟩
      intro _
      rw [value, freeVolItem_held]
      rfl
    · refine ⟨by rwa [freeVolItem_next], by rwa [heap u same], by rwa [heap u same], ?_⟩
      intro absent
      rw [heap u same, freeVolItem_held]
      apply removed
      intro listed
      apply absent
      rw [freeVolItem_volList]
      exact (inv.mem_remove_iff vol u).mpr ⟨same, listed⟩

theorem Inv.freeVolume_eq {s : State} (inv : Inv s) {dev : DevId} {vol : VolId}
    (has : (s.device dev).vol = some vol) (free : (s.heap vol).swapping = false) :
    (freeVolume s dev).1 = freeVolItem (s.detach dev vol) vol := by
  simp only [VolMgr.freeVolume, has, free, Bool.false_eq_true, if_false]
  split
  · rename_i reading
    have absent : vol ∉ s.volList := by
      intro member
      have := (inv.listed vol member).writing
      rw [show (s.heap vol).reading = true from reading] at this
      cases this
    rw [State.detach, remove, List.erase_of_not_mem absent]
    rfl
  · rfl

theorem Inv.freeVolume {s : State} (inv : Inv s) (dev : DevId) : Inv (freeVolume s dev).1 := by
  cases has : (s.device dev).vol with
  | none => simpa only [VolMgr.freeVolume, has] using inv
  | some vol =>
      by_cases swapping : (s.heap vol).swapping
      · simpa only [VolMgr.freeVolume, has, swapping, if_true] using inv
      · rw [inv.freeVolume_eq has (by simpa using swapping)]
        exact inv.detach has

/-- A new entry that nothing refers to yet. -/
theorem Inv.allocate {s t : State} (inv : Inv s) (heap : ∀ u < s.next, t.heap u = s.heap u)
    (device : ∀ e, (t.device e).vol = (s.device e).vol) (volList : t.volList = s.volList)
    (held : t.held = s.held) (next : s.next ≤ t.next) : Inv t := by
  constructor
  · rw [volList]
    apply sorted_of_names inv.sorted
    intro u member
    rw [heap u (inv.listed u member).allocated]
  · intro u member
    rw [volList] at member
    obtain ⟨allocated, alive, writing, useCount, e, owner, at_u⟩ := inv.listed u member
    have same := heap u allocated
    exact ⟨Nat.lt_of_lt_of_le allocated next, by rwa [same], by rwa [same], by rwa [same, held],
      e, by rwa [same], by rwa [device]⟩
  · intro e u at_u
    rw [device] at at_u
    obtain ⟨allocated, alive, owner, listed⟩ := inv.attached e u at_u
    have same := heap u allocated
    exact ⟨Nat.lt_of_lt_of_le allocated next, by rwa [same], by rwa [same], by rwa [same, volList]⟩
  · intro u member
    rw [held] at member
    obtain ⟨allocated, alive, writing, removed⟩ := inv.walked u member
    have same := heap u allocated
    exact ⟨Nat.lt_of_lt_of_le allocated next, by rwa [same], by rwa [same],
      by rwa [same, volList, held]⟩

theorem newVolItem_heap (s : State) (dev : Option DevId) (volName : VolName) :
    ∀ u < s.next, (newVolItem s dev volName).1.heap u = s.heap u := by
  intro u old
  simp only [newVolItem, Function.update_apply, if_neg (Nat.ne_of_lt old)]

/-- A free device gets a read volume, which is not listed. -/
theorem Inv.attachRead {s : State} (inv : Inv s) {dev : DevId} {vol : VolId}
    (empty : (s.device dev).vol = none) (allocated : vol < s.next)
    (alive : (s.heap vol).freed = false) (owner : (s.heap vol).dev = some dev)
    (reading : (s.heap vol).reading = true) :
    Inv (s.modifyDev dev fun d => { d with vol := some vol }) := by
  constructor
  · exact inv.sorted
  · intro u member
    obtain ⟨allocated, alive, writing, useCount, e, owner, at_u⟩ := inv.listed u member
    refine ⟨allocated, alive, writing, useCount, e, owner, ?_⟩
    have elsewhere : e ≠ dev := by
      rintro rfl
      rw [empty] at at_u
      cases at_u
    simpa only [modifyDev_device, if_neg elsewhere] using at_u
  · intro e u at_u
    by_cases here : e = dev
    · simp only [modifyDev_device, if_pos here, Option.some_inj] at at_u
      subst here at_u
      refine ⟨allocated, alive, owner, ?_⟩
      intro writing
      rw [modifyDev_heap, reading] at writing
      cases writing
    · simp only [modifyDev_device, if_neg here] at at_u
      obtain ⟨allocated, alive, owner, listed⟩ := inv.attached e u at_u
      exact ⟨allocated, alive, owner, listed⟩
  · intro u member
    obtain ⟨allocated, alive, writing, removed⟩ := inv.walked u member
    exact ⟨allocated, alive, writing, removed⟩

/-- A free device gets a new volume, which is put in the list. -/
theorem Inv.attachListed {s : State} (inv : Inv s) {dev : DevId} {vol : VolId}
    {volList : List VolId} (empty : (s.device dev).vol = none) (allocated : vol < s.next)
    (alive : (s.heap vol).freed = false) (owner : (s.heap vol).dev = some dev)
    (writing : (s.heap vol).reading = false) (useCount : (s.heap vol).useCount = 1)
    (unwalked : vol ∉ s.held) (sorted : Sorted s.nameCompare volList)
    (mem_iff : ∀ u, u ∈ volList ↔ u = vol ∨ u ∈ s.volList) :
    Inv ({ s with volList }.modifyDev dev fun d => { d with vol := some vol }) := by
  constructor
  · exact sorted
  · intro u member
    rcases (mem_iff u).mp member with rfl | member
    · refine ⟨allocated, alive, writing, ?_, dev, owner, ?_⟩
      · rw [modifyDev_heap, modifyDev_held, useCount, List.count_eq_zero_of_not_mem unwalked]
        rfl
      · simp only [modifyDev_device, if_true]
    · obtain ⟨allocated, alive, writing, useCount, e, owner, at_u⟩ := inv.listed u member
      refine ⟨allocated, alive, writing, useCount, e, owner, ?_⟩
      have elsewhere : e ≠ dev := by
        rintro rfl
        rw [empty] at at_u
        cases at_u
      simpa only [modifyDev_device, if_neg elsewhere] using at_u
  · intro e u at_u
    by_cases here : e = dev
    · simp only [modifyDev_device, if_pos here, Option.some_inj] at at_u
      subst here at_u
      exact ⟨allocated, alive, owner, fun _ => (mem_iff _).mpr (Or.inl rfl)⟩
    · simp only [modifyDev_device, if_neg here] at at_u
      obtain ⟨allocated, alive, owner, listed⟩ := inv.attached e u at_u
      exact ⟨allocated, alive, owner, fun w => (mem_iff u).mpr (Or.inr (listed w))⟩
  · intro u member
    obtain ⟨allocated, alive, writing, removed⟩ := inv.walked u member
    exact ⟨allocated, alive, writing,
      fun absent => removed fun old => absent ((mem_iff u).mpr (Or.inr old))⟩

/-- A listed volume moves to a free device. -/
theorem Inv.move {s t : State} (inv : Inv s) {dev other : DevId} {vol : VolId}
    (empty : (s.device dev).vol = none) (member : vol ∈ s.volList)
    (owner : (s.heap vol).dev = some other)
    (heap : ∀ u, u ≠ vol → t.heap u = s.heap u)
    (moved : (t.heap vol).dev = some dev) (name : (t.heap vol).volName = (s.heap vol).volName)
    (reading : (t.heap vol).reading = (s.heap vol).reading)
    (useCount : (t.heap vol).useCount = (s.heap vol).useCount)
    (freed : (t.heap vol).freed = (s.heap vol).freed)
    (device : ∀ e, (t.device e).vol =
      if e = dev then some vol else if e = other then none else (s.device e).vol)
    (volList : t.volList = s.volList) (held : t.held = s.held) (next : t.next = s.next) :
    Inv t := by
  have here := inv.listed vol member
  constructor
  · rw [volList]
    apply sorted_of_names inv.sorted
    intro u _
    by_cases same : u = vol
    · rw [same, name]
    · rw [heap u same]
  · intro u inList
    rw [volList] at inList
    by_cases same : u = vol
    · subst same
      exact ⟨by rw [next]; exact here.allocated, by rw [freed]; exact here.alive,
        by rw [reading]; exact here.writing, by rw [useCount, held]; exact here.useCount,
        dev, moved, by rw [device, if_pos rfl]⟩
    · obtain ⟨allocated, alive, writing, useCount, e, ownerU, at_u⟩ := inv.listed u inList
      have notDev : e ≠ dev := by
        rintro rfl
        rw [empty] at at_u
        cases at_u
      have notOther : e ≠ other := by
        rintro rfl
        obtain ⟨e', ownerVol, at_vol⟩ := here.owned
        rw [owner, Option.some_inj] at ownerVol
        subst ownerVol
        rw [at_u, Option.some_inj] at at_vol
        exact same at_vol
      exact ⟨by rwa [next], by rwa [heap u same], by rwa [heap u same],
        by rwa [heap u same, held], e, by rwa [heap u same],
        by rwa [device, if_neg notDev, if_neg notOther]⟩
  · intro e u at_u
    rw [device] at at_u
    by_cases atDev : e = dev
    · rw [if_pos atDev, Option.some_inj] at at_u
      subst atDev at_u
      exact ⟨by rw [next]; exact here.allocated, by rw [freed]; exact here.alive, moved,
        by rw [volList]; exact fun _ => member⟩
    · rw [if_neg atDev] at at_u
      by_cases atOther : e = other
      · rw [if_pos atOther] at at_u
        cases at_u
      · rw [if_neg atOther] at at_u
        obtain ⟨allocated, alive, ownerU, listed⟩ := inv.attached e u at_u
        have different : u ≠ vol := by
          rintro rfl
          rw [owner, Option.some_inj] at ownerU
          exact atOther ownerU.symm
        exact ⟨by rwa [next], by rwa [heap u different], by rwa [heap u different],
          by rwa [heap u different, volList]⟩
  · intro u walks
    rw [held] at walks
    obtain ⟨allocated, alive, writing, removed⟩ := inv.walked u walks
    by_cases same : u = vol
    · subst same
      exact ⟨by rwa [next], by rwa [freed], by rwa [reading], by rwa [useCount, volList, held]⟩
    · exact ⟨by rwa [next], by rwa [heap u same], by rwa [heap u same],
        by rwa [heap u same, volList, held]⟩

/-- After `free_volume` the device is free, unless its volume is being swapped. -/
theorem Inv.freeVolume_empty {s : State} (inv : Inv s) {dev : DevId}
    (free : ∀ vol, (s.device dev).vol = some vol → (s.heap vol).swapping = false) :
    ((VolMgr.freeVolume s dev).1.device dev).vol = none := by
  cases has : (s.device dev).vol with
  | none => simp only [VolMgr.freeVolume, has]
  | some vol =>
      rw [inv.freeVolume_eq has (free vol has), freeVolItem_device]
      split
      · rfl
      · simp only [State.detach, modifyDev_device, if_true]

theorem freeVolume_of_empty {s : State} {dev : DevId} (empty : (s.device dev).vol = none) :
    (freeVolume s dev).1 = s := by
  simp only [freeVolume, empty]

theorem swapVolume_inv {s : State} (inv : Inv s) (req : Request) {vol : VolId} {other : DevId}
    (empty : (s.device req.dev).vol = none) (member : vol ∈ s.volList)
    (owner : (s.heap vol).dev = some other) (elsewhere : other ≠ req.dev) :
    Inv (swapVolume req s vol other) := by
  have sameUnload : ∀ d : Device, (setUnload d).vol = d.vol := by
    intro d
    unfold setUnload
    split <;> rfl
  simp only [swapVolume, freeVolume_of_empty empty]
  apply inv.move empty member owner
  · intro u different
    simp [different]
  · simp
  · simp
  · simp
  · simp
  · simp
  · intro e
    by_cases atDev : e = req.dev
    · simp [atDev]
    · by_cases atOther : e = other
      · simp [atOther, elsewhere]
      · simp [atDev, atOther]
  · rfl
  · rfl
  · rfl

/-- The wanted volume is in the list, but on another device from where it cannot be taken. -/
def WantedElsewhere (req : Request) (s : State) : Prop :=
  (req.writing = true ∨ (s.device req.dev).isFile = false) ∧
    ∃ vol ∈ s.volList, ∃ other, (s.heap vol).volName = req.volName ∧
      (s.heap vol).dev = some other ∧ other ≠ req.dev ∧
      (req.busy other = true ∨ (s.heap vol).swapping = true)

theorem nameCompare_eq_iff (s : State) (a b : VolId) :
    s.nameCompare a b = .eq ↔ (s.heap a).volName = (s.heap b).volName := by
  unfold State.nameCompare
  exact Std.LawfulEqCmp.compare_eq_iff_eq

theorem attachListed_inv {s : State} (inv : Inv s) (req : Request) {vol : VolId}
    (member : vol ∈ s.volList)
    (free : (s.device req.dev).vol = none ∨ ∃ other, (s.heap vol).dev = some other ∧
      other ≠ req.dev ∧ (req.busy other = true ∨ (s.heap vol).swapping = true)) :
    Inv (attachListed req s vol).1 := by
  obtain ⟨other, owner, at_vol⟩ := (inv.listed vol member).owned
  unfold attachListed
  by_cases same : other = req.dev
  · subst same
    exfalso
    rcases free with empty | ⟨e, ownerE, elsewhere, -⟩
    · rw [empty] at at_vol
      cases at_vol
    · rw [owner, Option.some_inj] at ownerE
      exact elsewhere ownerE.symm
  · have notHere : ¬ (s.heap vol).dev = some req.dev := by
      rw [owner, Option.some_inj]
      exact same
    rw [if_neg notHere, owner]
    by_cases takes : req.busy other = false ∧ (s.heap vol).swapping = false
    · simp only [takes, and_self, if_true]
      rcases free with empty | ⟨e, ownerE, -, busy⟩
      · exact swapVolume_inv inv req empty member owner same
      · rw [owner, Option.some_inj] at ownerE
        subst ownerE
        rw [takes.1, takes.2] at busy
        simp at busy
    · simp only [takes, if_false]
      split <;> exact inv

theorem attachNew_inv {s : State} (inv : Inv s) (req : Request)
    (free : (s.device req.dev).vol = none ∨ WantedElsewhere req s) :
    Inv (attachNew req s).1 := by
  have old := newVolItem_heap s (some req.dev) req.volName
  have fresh : ∀ u ∈ s.volList, u < s.next := fun u member => (inv.listed u member).allocated
  unfold attachNew
  simp only
  split
  · -- a read volume for a file device
    rename_i reads
    rcases free with empty | ⟨writes, -⟩
    · apply Inv.attachRead
      · apply inv.allocate
        · intro u before
          simp only [modifyVol_heap, if_neg (Nat.ne_of_lt before : u ≠ (newVolItem s _ _).2)]
          exact old u before
        · intro e; rfl
        · rfl
        · rfl
        · exact Nat.le_succ _
      · exact empty
      · exact Nat.lt_succ_self _
      · simp [newVolItem]
      · simp [newVolItem]
      · simp
    · exfalso
      rcases writes with writes | notFile
      · rw [writes] at reads
        cases reads.1
      · have file : (s.device req.dev).isFile = true := reads.2
        rw [notFile] at file
        cases file
  · have sorted : Sorted (newVolItem s (some req.dev) req.volName).1.nameCompare s.volList := by
      apply sorted_of_names inv.sorted
      intro u member
      rw [old u (fresh u member)]
    have name : ((newVolItem s (some req.dev) req.volName).1.heap s.next).volName = req.volName := by
      simp [newVolItem]
    rcases sorted.binaryInsert_cases s.next with
      ⟨vol, member, same, found⟩ | ⟨pre, post, parts, small, large, inserted⟩
    · have found' : binaryInsert (newVolItem s (some req.dev) req.volName).1.nameCompare
          (newVolItem s (some req.dev) req.volName).2
          (newVolItem s (some req.dev) req.volName).1.volList = (s.volList, some vol) := found
      simp only [found']
      -- the new entry is given back without touching the device
      have kept : ∀ u < s.next, (freeVolItem ((newVolItem s (some req.dev) req.volName).1.modifyVol
          s.next fun v => { v with dev := none }) s.next).heap u = s.heap u := by
        intro u before
        have other : u ≠ s.next := Nat.ne_of_lt before
        rw [freeVolItem_heap, if_neg other, modifyVol_heap, if_neg other]
        exact old u before
      have device : ∀ e, ((freeVolItem ((newVolItem s (some req.dev) req.volName).1.modifyVol
          s.next fun v => { v with dev := none }) s.next).device e).vol = (s.device e).vol := by
        intro e
        rw [freeVolItem_device]
        simp [newVolItem]
      apply attachListed_inv (inv.allocate kept device (freeVolItem_volList _ _)
        (freeVolItem_held _ _) (by rw [freeVolItem_next]; exact Nat.le_succ _))
      · rw [freeVolItem_volList]
        exact member
      · rw [device, kept vol (fresh vol member)]
        rcases free with empty | ⟨-, wanted, inList, other, named, owner, elsewhere, busy⟩
        · exact Or.inl empty
        · right
          have : vol = wanted := by
            apply inv.sorted.eq_of_compare member inList
            rw [nameCompare_eq_iff, named, ← name, ← old vol (fresh vol member)]
            exact ((nameCompare_eq_iff _ _ _).mp same).symm
          subst this
          exact ⟨other, owner, elsewhere, busy⟩
    · have inserted' : binaryInsert (newVolItem s (some req.dev) req.volName).1.nameCompare
          (newVolItem s (some req.dev) req.volName).2
          (newVolItem s (some req.dev) req.volName).1.volList = (pre ++ s.next :: post, none) :=
        inserted
      simp only [inserted']
      rcases free with empty | ⟨-, wanted, inList, other, named, -⟩
      · have new : Inv (newVolItem s (some req.dev) req.volName).1 :=
          inv.allocate old (fun e => rfl) rfl rfl (Nat.le_succ _)
        apply new.attachListed empty (Nat.lt_succ_self _)
        · simp [newVolItem]
        · simp [newVolItem]
        · simp [newVolItem]
        · simp [newVolItem]
        · intro walks
          exact Nat.lt_irrefl _ (inv.walked _ walks).allocated
        · have := sorted.binaryInsert s.next
          rwa [inserted] at this
        · intro u
          change _ ↔ u = s.next ∨ u ∈ s.volList
          rw [parts]
          simp only [List.mem_append, List.mem_cons]
          tauto
      · exfalso
        have both : (newVolItem s (some req.dev) req.volName).1.nameCompare s.next wanted = .eq := by
          rw [nameCompare_eq_iff, name, old wanted (fresh wanted inList), named]
        rw [parts, List.mem_append] at inList
        rcases inList with before | behind
        · have := Std.OrientedCmp.gt_iff_lt.mpr (small wanted before)
          rw [both] at this
          cases this
        · have := large wanted behind
          rw [both] at this
          cases this

/-- The request does not replace a volume that is being swapped. -/
def ReserveSafe (req : Request) (s : State) : Prop :=
  req.canceled = true ∨ (req.writing = true ∧ isReadVolume req.volName s.readVolList = true) ∨
  ∀ vol, (s.device req.dev).vol = some vol → (s.heap vol).swapping = true →
    (s.heap vol).volName = req.volName ∨
    ((s.heap vol).inUse = true ∧ req.reservedVolume = false) ∨ WantedElsewhere req s

/-- With the last reference to an entry no other volume is taken from its old device. -/
def ReleaseSafe (vol : VolId) (s : State) : Prop :=
  (s.heap vol).useCount = 1 → ∀ dev, (s.heap vol).dev = some dev →
    ∀ other, (s.device dev).vol = some other → (s.heap other).reading = true

theorem wantedElsewhere_congr {s t : State} {req : Request} (wanted : WantedElsewhere req s)
    (heap : t.heap = s.heap) (volList : t.volList = s.volList)
    (isFile : (t.device req.dev).isFile = (s.device req.dev).isFile) : WantedElsewhere req t := by
  unfold WantedElsewhere
  rw [heap, volList, isFile]
  exact wanted

theorem detachOld_inv {s : State} (inv : Inv s) (req : Request)
    (safe : ∀ vol, (s.device req.dev).vol = some vol → (s.heap vol).swapping = true →
      (s.heap vol).volName = req.volName ∨
      ((s.heap vol).inUse = true ∧ req.reservedVolume = false) ∨ WantedElsewhere req s) :
    Inv (detachOld req s).1 ∧ ((detachOld req s).2 = .ok none →
      ((detachOld req s).1.device req.dev).vol = none ∨ WantedElsewhere req (detachOld req s).1) := by
  have unload : ∀ d : Device, (setUnload d).vol = d.vol ∧ (setUnload d).isFile = d.isFile := by
    intro d
    unfold setUnload
    split <;> exact ⟨rfl, rfl⟩
  cases has : (s.device req.dev).vol with
  | none =>
      simp only [detachOld, has]
      exact ⟨inv, fun _ => Or.inl trivial⟩
  | some vol =>
      simp only [detachOld, has]
      by_cases named : (s.heap vol).volName = req.volName
      · simp only [named, if_true]
        exact ⟨inv, by intro h; cases h⟩
      · simp only [named, if_false]
        by_cases reserved : (s.heap vol).inUse = true ∧ req.reservedVolume = false
        · simp only [reserved, and_self, if_true]
          exact ⟨inv.modifyDev _ _ rfl, by intro h; cases h⟩
        · rw [if_neg reserved]
          -- the state in which the old volume is freed
          obtain ⟨s', eq, inv', has', heap, volList, isFile⟩ : ∃ s', (if (s.heap vol).volName =
              (s.device req.dev).volHdrName then s.modifyDev req.dev setUnload else s) = s' ∧
              Inv s' ∧ (s'.device req.dev).vol = some vol ∧ s'.heap = s.heap ∧
              s'.volList = s.volList ∧
              (s'.device req.dev).isFile = (s.device req.dev).isFile := by
            by_cases mounted : (s.heap vol).volName = (s.device req.dev).volHdrName
            · refine ⟨_, if_pos mounted, inv.modifyDev _ _ (unload _).1, ?_, rfl, rfl, ?_⟩
              · simp only [modifyDev_device, if_true, (unload _).1, has]
              · simp only [modifyDev_device, if_true, (unload _).2]
            · exact ⟨_, if_neg mounted, inv, has, rfl, rfl, rfl⟩
          simp only [eq]
          refine ⟨inv'.freeVolume _, fun _ => ?_⟩
          by_cases swapping : (s.heap vol).swapping = true
          · right
            have refused : (VolMgr.freeVolume s' req.dev).1 = s' := by
              simp only [VolMgr.freeVolume, has', heap, swapping, if_true]
            rw [refused]
            rcases safe vol has swapping with same | other | wanted
            · exact absurd same named
            · exact absurd other reserved
            · exact wantedElsewhere_congr wanted heap volList isFile
          · left
            apply inv'.freeVolume_empty
            intro u at_u
            rw [has', Option.some_inj] at at_u
            subst at_u
            rw [heap]
            simpa using swapping

theorem reserveVolume_inv {s : State} (inv : Inv s) (req : Request) (safe : ReserveSafe req s) :
    Inv (reserveVolume req s).1 := by
  unfold reserveVolume
  by_cases canceled : req.canceled
  · rw [if_pos canceled]
    exact inv
  by_cases read : req.writing ∧ isReadVolume req.volName s.readVolList
  · rw [if_neg canceled, if_pos read]
    exact inv
  rw [if_neg canceled, if_neg read]
  have safe := (safe.resolve_left canceled).resolve_left read
  obtain ⟨detached, free⟩ := detachOld_inv inv req safe
  simp only
  generalize detachOld req s = old at detached free
  match old with
  | (s', .error e) => exact detached
  | (s', .ok (some vol)) =>
      exact detached.modifyVol vol (fun v => { v with inUse := true }) rfl rfl rfl rfl rfl
  | (s', .ok none) =>
      have attached := attachNew_inv detached req (free rfl)
      simp only
      generalize attachNew req s' = new at attached
      match new with
      | (t, .ok vol) =>
          exact attached.modifyVol vol (fun v => { v with inUse := true }) rfl rfl rfl rfl rfl
      | (t, .error e) => exact attached

theorem volumeUnused_inv {s : State} (inv : Inv s) (dev : DevId) (sessionInteractive : Bool) :
    Inv (volumeUnused s dev sessionInteractive).1 := by
  unfold volumeUnused
  cases has : (s.device dev).vol with
  | none => exact inv
  | some vol =>
      have cleared : Inv (s.modifyVol vol fun v => { v with inUse := false }) :=
        inv.modifyVol _ _ rfl rfl rfl rfl rfl
      simp only
      split
      · exact cleared
      · split
        · exact cleared
        · split
          · exact cleared
          · exact cleared.freeVolume dev

/-- A walk comes to an entry of the list. -/
theorem Inv.acquire {s : State} (inv : Inv s) {vol : VolId} (member : vol ∈ s.volList) :
    Inv { s.modifyVol vol fun v => { v with useCount := v.useCount + 1 } with
      held := vol :: s.held } := by
  have here := inv.listed vol member
  constructor
  · apply sorted_of_names inv.sorted
    intro u _
    by_cases same : u = vol <;> simp [same]
  · intro u inList
    obtain ⟨allocated, alive, writing, useCount, e, owner, at_u⟩ := inv.listed u inList
    by_cases same : u = vol
    · subst same
      refine ⟨allocated, by simpa using alive, by simpa using writing, ?_, e, by simpa using owner,
        at_u⟩
      simp only [modifyVol_heap, if_true, useCount, List.count_cons_self]
      push_cast
      ring
    · refine ⟨allocated, by simpa [same] using alive, by simpa [same] using writing, ?_, e,
        by simpa [same] using owner, at_u⟩
      simpa [same, Ne.symm same] using useCount
  · intro e u at_u
    obtain ⟨allocated, alive, owner, listed⟩ := inv.attached e u at_u
    by_cases same : u = vol
    · subst same
      exact ⟨allocated, by simpa using alive, by simpa using owner, fun _ => member⟩
    · exact ⟨allocated, by simpa [same] using alive, by simpa [same] using owner,
        by simpa [same] using listed⟩
  · intro u walks
    by_cases same : u = vol
    · subst same
      exact ⟨here.allocated, by simpa using here.alive, by simpa using here.writing,
        fun absent => absurd member absent⟩
    · have old : u ∈ s.held := by simpa [same] using walks
      obtain ⟨allocated, alive, writing, removed⟩ := inv.walked u old
      refine ⟨allocated, by simpa [same] using alive, by simpa [same] using writing, ?_⟩
      intro absent
      simpa [same, Ne.symm same] using removed absent

/-- A walk leaves an entry. -/
theorem Inv.release {s : State} (inv : Inv s) {vol : VolId} (walks : vol ∈ s.held)
    (safe : ReleaseSafe vol s) :
    Inv { freeVolItem s vol with held := s.held.erase vol } := by
  have here := inv.walked vol walks
  have positive : 0 < s.held.count vol := List.count_pos_iff.mpr walks
  have count_self : ((s.held.erase vol).count vol : ℤ) = s.held.count vol - 1 := by
    rw [List.count_erase_self]
    omega
  have counts : (s.heap vol).useCount = s.held.count vol + if vol ∈ s.volList then 1 else 0 := by
    by_cases member : vol ∈ s.volList
    · rw [if_pos member, (inv.listed vol member).useCount]
      ring
    · rw [if_neg member, here.removed member, add_zero]
  have heap : ∀ u, u ≠ vol → (freeVolItem s vol).heap u = s.heap u := by
    intro u other
    rw [freeVolItem_heap, if_neg other]
  have self := freeVolItem_heap s vol vol
  rw [if_pos rfl] at self
  -- a listed volume stays on its device
  have kept : ∀ u ∈ s.volList, ∀ e, (s.device e).vol = some u →
      ((freeVolItem s vol).device e).vol = some u := by
    intro u member e at_u
    rw [freeVolItem_device, if_neg]
    · exact at_u
    · rintro ⟨last, owner⟩
      have one : (s.heap vol).useCount = 1 := by
        by_cases listed : vol ∈ s.volList
        · rw [counts, if_pos listed] at last ⊢
          omega
        · rw [counts, if_neg listed] at last ⊢
          omega
      have reading := safe one e owner u at_u
      rw [(inv.listed u member).writing] at reading
      cases reading
  have deviceVol : ∀ e u, ((freeVolItem s vol).device e).vol = some u → (s.device e).vol = some u := by
    intro e u at_u
    rw [freeVolItem_device] at at_u
    split at at_u
    · cases at_u
    · exact at_u
  have held_other : ∀ u, u ≠ vol → (s.held.erase vol).count u = s.held.count u := by
    intro u other
    exact List.count_erase_of_ne other
  constructor
  · rw [freeVolItem_volList]
    apply sorted_of_names inv.sorted
    intro u _
    by_cases same : u = vol
    · subst same
      simp only [self]
    · simp only [heap u same]
  · intro u member
    simp only [freeVolItem_volList] at member
    obtain ⟨allocated, alive, writing, useCount, e, owner, at_u⟩ := inv.listed u member
    refine ⟨by simpa using allocated, ?_, ?_, ?_, e, ?_, kept u member e at_u⟩
    · by_cases same : u = vol
      · subst same
        have more : 1 < (s.heap u).useCount := by omega
        simp only [self, more, if_true, alive]
      · simp only [heap u same, alive]
    · by_cases same : u = vol
      · subst same
        simp only [self, writing]
      · simp only [heap u same, writing]
    · by_cases same : u = vol
      · subst same
        simp only [self, count_self]
        omega
      · simp only [heap u same, held_other u same, useCount]
    · by_cases same : u = vol
      · subst same
        simp only [self, owner]
      · simp only [heap u same, owner]
  · intro e u at_u
    have before := deviceVol e u at_u
    obtain ⟨allocated, alive, owner, listed⟩ := inv.attached e u before
    by_cases same : u = vol
    · subst same
      have member := listed here.writing
      have count := (inv.listed u member).useCount
      have more : 1 < (s.heap u).useCount := by omega
      refine ⟨by simpa using allocated, ?_, ?_, ?_⟩
      · simp only [self, more, if_true, alive]
      · simp only [self, owner]
      · intro _
        simpa using member
    · refine ⟨by simpa using allocated, ?_, ?_, ?_⟩
      · simp only [heap u same, alive]
      · simp only [heap u same, owner]
      · simpa only [heap u same, freeVolItem_volList] using listed
  · intro u stays
    have old : u ∈ s.held := List.mem_of_mem_erase stays
    obtain ⟨allocated, alive, writing, removed⟩ := inv.walked u old
    by_cases same : u = vol
    · subst same
      have again : 0 < (s.held.erase u).count u := List.count_pos_iff.mpr stays
      have more : 1 < (s.heap u).useCount := by
        rw [counts]
        split <;> omega
      refine ⟨by simpa using allocated, ?_, ?_, ?_⟩
      · simp only [self, more, if_true, alive]
      · simp only [self, writing]
      · intro absent
        rw [freeVolItem_volList] at absent
        simp only [self, count_self, removed absent]
    · refine ⟨by simpa using allocated, ?_, ?_, ?_⟩
      · simp only [heap u same, alive]
      · simp only [heap u same, writing]
      · simpa only [heap u same, held_other u same, freeVolItem_volList] using removed

theorem nextItem_mem {item vol : VolId} {list : List VolId} (nodup : list.Nodup)
    (next : nextItem item list = some vol) : item ∈ list ∧ vol ∈ list ∧ vol ≠ item := by
  induction list with
  | nil => cases next
  | cons x rest ih =>
      obtain ⟨absent, nodup⟩ := List.nodup_cons.mp nodup
      simp only [nextItem] at next
      split at next
      · rename_i same
        subst same
        have member : vol ∈ rest := List.mem_of_mem_head? next
        refine ⟨List.mem_cons_self, List.mem_cons_of_mem _ member, ?_⟩
        rintro rfl
        exact absent member
      · obtain ⟨memItem, memVol, different⟩ := ih nodup next
        exact ⟨List.mem_cons_of_mem _ memItem, List.mem_cons_of_mem _ memVol, different⟩

theorem freeVolItem_ignores_held (s : State) (vol : VolId) (held held' : List VolId) :
    { freeVolItem { s with held } vol with held := held' } =
      { freeVolItem s vol with held := held' } := by
  by_cases more : 1 < (s.heap vol).useCount
  · rw [freeVolItem_more more, freeVolItem_more (s := { s with held }) more]
    rfl
  · rw [freeVolItem_last more, freeVolItem_last (s := { s with held }) more]
    cases owner : (s.heap vol).dev <;> simp only <;> rfl

theorem Inv.walkNext {s : State} (inv : Inv s) {prevVol : VolId} (walks : prevVol ∈ s.held)
    (safe : ReleaseSafe prevVol s) : Inv (volWalkNext s prevVol) := by
  unfold volWalkNext
  cases next : nextItem prevVol s.volList with
  | none => exact inv.release walks safe
  | some vol =>
      obtain ⟨memPrev, memVol, different⟩ := nextItem_mem inv.nodup next
      have acquired := inv.acquire memVol
      have holds : prevVol ∈ vol :: s.held := List.mem_cons_of_mem _ walks
      have count := (inv.listed prevVol memPrev).useCount
      have positive : 0 < s.held.count prevVol := List.count_pos_iff.mpr walks
      have safe : ReleaseSafe prevVol { s.modifyVol vol fun v =>
          { v with useCount := v.useCount + 1 } with held := vol :: s.held } := by
        intro last
        simp only [modifyVol_heap, if_neg (Ne.symm different)] at last
        omega
      have released := acquired.release holds safe
      rw [freeVolItem_ignores_held] at released
      have erase : (vol :: s.held).erase prevVol = vol :: s.held.erase prevVol := by
        simp [different]
      simp only [erase] at released
      exact released

theorem Inv.walkStart {s : State} (inv : Inv s) : Inv (volWalkStart s) := by
  unfold volWalkStart
  cases first : s.volList.head? with
  | none => exact inv
  | some vol => exact inv.acquire (List.mem_of_mem_head? first)

/-- The condition of a step under which it keeps the owners. -/
def Safe (s : State) : Action → Prop
  | .reserve req => ReserveSafe req s
  | .walkNext vol => ReleaseSafe vol s
  | .walkEnd vol => ReleaseSafe vol s
  | _ => True

theorem step_preserves {s t : State} {action : Action} (inv : Inv s)
    (step : Guarded Step Safe s action t) : Inv t := by
  obtain ⟨safe, step⟩ := step
  cases step with
  | reserve req => exact reserveVolume_inv inv req safe
  | free dev => exact inv.freeVolume dev
  | unused dev sessionInteractive => exact volumeUnused_inv inv dev sessionInteractive
  | walkStart => exact inv.walkStart
  | walkNext prevVol holds => exact inv.walkNext holds safe
  | walkEnd vol holds => exact inv.release holds safe
  | clearSwapping dev =>
      unfold clearSwapping
      split
      · exact inv.modifyVol _ _ rfl rfl rfl rfl rfl
      · exact inv
  | endSwap dev =>
      unfold endSwap
      split
      · exact (inv.modifyVol _ (fun v => { v with swapping := false, inUse := false })
          rfl rfl rfl rfl rfl).modifyDev _ _ rfl
      · exact inv.modifyDev _ _ rfl
  | label dev volHdrName => exact inv.modifyDev _ _ rfl
  | readList call => exact inv.allocate (fun u _ => rfl) (fun e => rfl) rfl rfl (le_refl _)

/-- In a run in which no walk takes a volume from its former device and no volume is
replaced while it is being swapped, every volume is owned by one device. -/
theorem safeRun_owned {s t : State} {actions : List Action} (init : Initial s)
    (run : Run (Guarded Step Safe) s actions t) : Owned t :=
  (run.invariant (fun _ _ _ inv step => step_preserves inv step) (Inv.initial init)).owned

/-- No volumes, and only file devices. -/
def emptyState : State where
  heap := fun _ => {}
  next := 0
  volList := []
  device := fun _ => {}
  held := []
  readVolList := []

theorem initial_emptyState : Initial emptyState := ⟨rfl, rfl, fun _ => rfl⟩

theorem safeRun_owned_walk : ∃ actions t,
    Run (Guarded Step Safe) emptyState actions t ∧ t.volList = [0] ∧ Owned t := by
  let reserved := (reserveVolume { dev := 0, volName := [65] } emptyState).1
  let walked := volWalkEnd (volWalkStart reserved) 0
  have run : Run (Guarded Step Safe) emptyState
      [.reserve { dev := 0, volName := [65] }, .walkStart, .walkEnd 0] walked := by
    refine .cons ⟨.inr (.inr fun vol has => ?_), .reserve _ _⟩ ?_
    · cases has
    refine .cons ⟨trivial, .walkStart _⟩ ?_
    refine .cons ⟨fun last => ?_, .walkEnd _ _ (by decide)⟩ (.nil _)
    revert last
    decide
  exact ⟨_, _, run, by decide, safeRun_owned initial_emptyState run⟩

/-- Two runs that break the ownership. In the first a walk gives back the freed entry of
a volume whose device has the next volume by now; in the second the device of a volume
that is being swapped takes another volume. -/
theorem owner_lost :
    (∃ actions t, Run Step emptyState actions t ∧ ¬ Owned t) ∧
    (∃ actions t, Run Step emptyState actions t ∧ ¬ Owned t) := by
  constructor
  · refine ⟨[.reserve { dev := 0, volName := [65] }, .walkStart, .free 0,
      .reserve { dev := 0, volName := [66] }, .walkEnd 0], ?last, ?run, ?broken⟩
    case run =>
      refine .cons (.reserve _ _) ?_
      refine .cons (.walkStart _) ?_
      refine .cons (.free _ _) ?_
      refine .cons (.reserve _ _) ?_
      refine .cons (.walkEnd _ _ (by decide)) ?_
      exact .nil _
    case broken =>
      intro owned
      obtain ⟨dev, owner, has⟩ := owned.entry 1 (by decide)
      obtain rfl : dev = 0 := by
        have : some dev = some 0 := owner.symm.trans (by decide)
        exact Option.some_inj.mp this
      revert has
      decide
  · refine ⟨[.reserve { dev := 0, volName := [65] }, .reserve { dev := 1, volName := [65] },
      .reserve { dev := 1, volName := [66], reservedVolume := true }], ?last', ?run', ?broken'⟩
    case run' =>
      refine .cons (.reserve _ _) ?_
      refine .cons (.reserve _ _) ?_
      refine .cons (.reserve _ _) ?_
      exact .nil _
    case broken' =>
      intro owned
      obtain ⟨dev, owner, has⟩ := owned.entry 0 (by decide)
      obtain rfl : dev = 1 := by
        have : some dev = some 1 := owner.symm.trans (by decide)
        exact Option.some_inj.mp this
      revert has
      decide

end Bacula.VolMgr
