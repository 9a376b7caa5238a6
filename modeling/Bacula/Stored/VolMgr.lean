import Bacula.Stored.ReadVolumes
import Bacula.Library.Transition

/-! The volume manager, `stored/vol_mgr.c`. The entries of the volume list live in a heap;
devices, the list and the walks refer to them by their number. Every operation is one
step, as it is under `lock_volumes`. -/
namespace Bacula.VolMgr
open Dlist Transition

abbrev DevId := ℕ
abbrev VolId := ℕ

/-- `class VOLRES`. -/
structure Volres where
  volName : VolName := []
  dev : Option DevId := none
  swapping : Bool := false
  inUse : Bool := false
  reading : Bool := false
  slot : Int32 := 0
  jobId : UInt32 := 0
  useCount : ℤ := 0
  /-- The memory was returned. -/
  freed : Bool := false
  deriving DecidableEq, Repr

/-- The parts of `class DEVICE` that the volume manager uses. The kind of a device does
not change. -/
structure Device where
  vol : Option VolId := none
  volHdrName : VolName := []
  unload : Bool := false
  load : Bool := false
  wait : Bool := false
  swapDev : Option DevId := none
  isFile : Bool := true
  isTape : Bool := false
  isAutochanger : Bool := false
  deriving DecidableEq, Repr

structure State where
  heap : VolId → Volres
  /-- The next number to be allocated. -/
  next : VolId
  volList : List VolId
  device : DevId → Device
  /-- The entries that walks point to, once for every walk. -/
  held : List VolId
  readVolList : List ReadVol

def State.modifyVol (s : State) (vol : VolId) (f : Volres → Volres) : State :=
  { s with heap := Function.update s.heap vol (f (s.heap vol)) }

def State.modifyDev (s : State) (dev : DevId) (f : Device → Device) : State :=
  { s with device := Function.update s.device dev (f (s.device dev)) }

/-- `name_compare`, for append volumes the key is the VolumeName. -/
def State.nameCompare (s : State) (vol1 vol2 : VolId) : Ordering :=
  strcmp (s.heap vol1).volName (s.heap vol2).volName

instance (s : State) : Std.TransCmp s.nameCompare :=
  inferInstanceAs (Std.TransCmp (compareOn fun vol => (s.heap vol).volName))

/-- `DEVICE::set_unload`. -/
def setUnload (dev : Device) : Device :=
  if dev.unload = false ∧ dev.volHdrName ≠ [] then { dev with unload := true } else dev

/-- The new entry points to its device. -/
def newVolItem (s : State) (dev : Option DevId) (volName : VolName) : State × VolId :=
  ({ s with
    heap := Function.update s.heap s.next { volName, dev, useCount := 1 }
    next := s.next + 1 }, s.next)

/-- With the last reference the entry goes, and its device has no volume any more. -/
def freeVolItem (s : State) (vol : VolId) : State :=
  let s := s.modifyVol vol fun v => { v with useCount := v.useCount - 1 }
  if 0 < (s.heap vol).useCount then s
  else
    let s := s.modifyVol vol fun v => { v with freed := true }
    match (s.heap vol).dev with
    | some dev => s.modifyDev dev fun d => { d with vol := none }
    | none => s

def freeVolume (s : State) (dev : DevId) : State × Bool :=
  match (s.device dev).vol with
  | none => (s, false)
  | some vol =>
      -- Don't free a volume while it is being swapped
      if (s.heap vol).swapping then (s, true)
      else
        let s := s.modifyDev dev fun d => { d with vol := none }
        let s := if (s.heap vol).reading then s else { s with volList := remove s.volList vol }
        (freeVolItem s vol, true)

def volumeUnused (s : State) (dev : DevId) (sessionInteractive : Bool) : State × Bool :=
  match (s.device dev).vol with
  | none => (s, false)
  | some vol =>
      let s := s.modifyVol vol fun v => { v with inUse := false }
      if (s.heap vol).swapping then (s, false)
      else if (s.device dev).isTape ∨ (s.device dev).isAutochanger then (s, true)
      else if sessionInteractive then (s, true)
      else freeVolume s dev

/-- A call of `reserve_volume`: what it reads from the dcr and the job, which devices are
busy, and the slot that is loaded in the other drive when a volume is swapped. -/
structure Request where
  dev : DevId
  volName : VolName
  jobId : UInt32 := 0
  canceled : Bool := false
  writing : Bool := true
  reservedVolume : Bool := false
  busy : DevId → Bool := fun _ => false
  loadedSlot : Int32 := 0

/-- The texts in `jcr->errmsg`. -/
inductive ReserveError where
  /-- `Could not reserve volume "%s", because job canceled.` -/
  | jobCanceled
  /-- `Could not reserve volume "%s" for append, because it will be read.` -/
  | willBeRead
  /-- `Cannot free Volume "%s", because it is reserved by someone else.` -/
  | reservedByOther (volName : VolName)
  /-- `Volume %s is busy swapping from %s to %s`, or without the devices. -/
  | busySwapping (volName : VolName) (fromTo : Option (DevId × DevId))
  /-- `%s device %s is busy.` -/
  | deviceBusy (dev : DevId)
  deriving DecidableEq, Repr

/-- The part of `reserve_volume` that removes an old volume attached to the device. `ok`
gives the volume that is already there, if it has the wanted name. -/
def detachOld (req : Request) (s : State) : State × Except ReserveError (Option VolId) :=
  match (s.device req.dev).vol with
  | none => (s, .ok none)
  | some vol =>
      let volName := (s.heap vol).volName
      if volName = req.volName then (s, .ok (some vol))
      else if (s.heap vol).inUse ∧ req.reservedVolume = false then
        (s.modifyDev req.dev fun d => { d with wait := true }, .error (.reservedByOther volName))
      else
        let s := if volName = (s.device req.dev).volHdrName then s.modifyDev req.dev setUnload else s
        ((freeVolume s req.dev).1, .ok none)

/-- Take the volume from the other drive. -/
def swapVolume (req : Request) (s : State) (vol : VolId) (other : DevId) : State :=
  let s := (freeVolume s req.dev).1
  let s := s.modifyDev req.dev setUnload
  let s := s.modifyVol vol fun v => { v with slot := req.loadedSlot }
  let s := s.modifyDev other setUnload
  let s := s.modifyVol vol fun v => { v with swapping := true }
  let s := s.modifyDev req.dev fun d => { d with swapDev := some other, load := true }
  let s := s.modifyDev other fun d => { d with vol := none }
  let s := s.modifyVol vol fun v => { v with dev := some req.dev }
  s.modifyDev req.dev fun d => { d with vol := some vol }

/-- A volume with this name is in the list already. -/
def attachListed (req : Request) (s : State) (vol : VolId) : State × Except ReserveError VolId :=
  if (s.heap vol).dev = some req.dev then
    (s.modifyDev req.dev fun d => { d with vol := some vol }, .ok vol)
  else match (s.heap vol).dev with
    | some other =>
        if req.busy other = false ∧ (s.heap vol).swapping = false then
          (swapVolume req s vol other, .ok vol)
        else if (s.heap vol).swapping then
          (s, .error (.busySwapping (s.heap vol).volName
            ((s.device req.dev).swapDev.map fun swapDev => (req.dev, swapDev))))
        else (s, .error (.deviceBusy other))
    -- an entry without device is not expected, the source would follow the null pointer
    | none => (s, .error (.busySwapping (s.heap vol).volName none))

/-- The part of `reserve_volume` that makes a new entry. -/
def attachNew (req : Request) (s : State) : State × Except ReserveError VolId :=
  let (s, nvol) := newVolItem s (some req.dev) req.volName
  if req.writing = false ∧ (s.device req.dev).isFile then
    let s := s.modifyVol nvol fun v => { v with jobId := req.jobId, reading := true }
    (s.modifyDev req.dev fun d => { d with vol := some nvol }, .ok nvol)
  else
    match binaryInsert s.nameCompare nvol s.volList with
    | (volList, none) =>
        let s := { s with volList }
        (s.modifyDev req.dev fun d => { d with vol := some nvol }, .ok nvol)
    | (_, some vol) =>
        -- clear dev pointer so that free_vol_item doesn't take away our volume
        let s := s.modifyVol nvol fun v => { v with dev := none }
        attachListed req (freeVolItem s nvol) vol

/-- On success the dcr is marked too: its `reserved_volume` is set and it gets the name. -/
def reserveVolume (req : Request) (s : State) : State × Except ReserveError VolId :=
  if req.canceled then (s, .error .jobCanceled)
  else if req.writing ∧ isReadVolume req.volName s.readVolList then (s, .error .willBeRead)
  else
    let result : State × Except ReserveError VolId := match detachOld req s with
      | (s, .error e) => (s, .error e)
      | (s, .ok (some vol)) => (s, .ok vol)
      | (s, .ok none) => attachNew req s
    match result with
    | (s, .ok vol) => (s.modifyVol vol fun v => { v with inUse := true }, .ok vol)
    | (s, .error e) => (s, .error e)

/-- `vol_walk_start`. -/
def volWalkStart (s : State) : State :=
  match s.volList.head? with
  | some vol =>
      { s.modifyVol vol fun v => { v with useCount := v.useCount + 1 } with held := vol :: s.held }
  | none => s

/-- `vol_list->next(item)`; the links of a removed item are null. -/
def nextItem (item : VolId) : List VolId → Option VolId
  | [] => none
  | x :: rest => if x = item then rest.head? else nextItem item rest

/-- `vol_walk_next` of a walk that points to `prevVol`. -/
def volWalkNext (s : State) (prevVol : VolId) : State :=
  match nextItem prevVol s.volList with
  | some vol =>
      let s := s.modifyVol vol fun v => { v with useCount := v.useCount + 1 }
      { freeVolItem s prevVol with held := vol :: s.held.erase prevVol }
  | none => { freeVolItem s prevVol with held := s.held.erase prevVol }

def volWalkEnd (s : State) (vol : VolId) : State :=
  { freeVolItem s vol with held := s.held.erase vol }

/-- Besides the operations of the volume manager: the end of a swap when the autochanger
or the mount has loaded the volume, a label that is read, and changes of the read list. -/
inductive Action where
  | reserve (req : Request)
  | free (dev : DevId)
  | unused (dev : DevId) (sessionInteractive : Bool)
  | walkStart
  | walkNext (prevVol : VolId)
  | walkEnd (vol : VolId)
  | clearSwapping (dev : DevId)
  | endSwap (dev : DevId)
  | label (dev : DevId) (volHdrName : VolName)
  | readList (call : ReadCall)

/-- `dev->vol->clear_swapping()`, and with `endSwap` what the mount clears besides. -/
def clearSwapping (s : State) (dev : DevId) : State :=
  match (s.device dev).vol with
  | some vol => s.modifyVol vol fun v => { v with swapping := false }
  | none => s

def endSwap (s : State) (dev : DevId) : State :=
  let s := match (s.device dev).vol with
    | some vol => s.modifyVol vol fun v => { v with swapping := false, inUse := false }
    | none => s
  s.modifyDev dev fun d => { d with swapDev := none }

/-- One step. A walk goes on from an entry that it points to. -/
inductive Step : State → Action → State → Prop where
  | reserve (s : State) (req : Request) : Step s (.reserve req) (reserveVolume req s).1
  | free (s : State) (dev : DevId) : Step s (.free dev) (freeVolume s dev).1
  | unused (s : State) (dev : DevId) (sessionInteractive : Bool) :
      Step s (.unused dev sessionInteractive) (volumeUnused s dev sessionInteractive).1
  | walkStart (s : State) : Step s .walkStart (volWalkStart s)
  | walkNext (s : State) (prevVol : VolId) (holds : prevVol ∈ s.held) :
      Step s (.walkNext prevVol) (volWalkNext s prevVol)
  | walkEnd (s : State) (vol : VolId) (holds : vol ∈ s.held) :
      Step s (.walkEnd vol) (volWalkEnd s vol)
  | clearSwapping (s : State) (dev : DevId) : Step s (.clearSwapping dev) (clearSwapping s dev)
  | endSwap (s : State) (dev : DevId) : Step s (.endSwap dev) (endSwap s dev)
  | label (s : State) (dev : DevId) (volHdrName : VolName) :
      Step s (.label dev volHdrName) (s.modifyDev dev fun d => { d with volHdrName })
  | readList (s : State) (call : ReadCall) :
      Step s (.readList call) { s with readVolList := call.apply s.readVolList }

/-- `create_volume_lists`: no volumes anywhere; the kinds of the devices are given. -/
structure Initial (s : State) : Prop where
  volList : s.volList = []
  held : s.held = []
  device : ∀ dev, (s.device dev).vol = none

/-- `find_volume`. -/
def findVolume (s : State) (volName : VolName) : Option VolId :=
  if s.volList.isEmpty then none
  else binarySearch (fun vol => strcmp volName (s.heap vol).volName) s.volList

/-- `DCR::can_i_use_volume` of a dcr on the device `dev`. -/
def canIUseVolume (s : State) (dev : DevId) (volName : VolName) (canceled : Bool)
    (busy : DevId → Bool) : Bool :=
  if canceled then false
  else match findVolume s volName with
    | none => true
    | some vol =>
        if (s.heap vol).dev = some dev then true
        else match (s.heap vol).dev with
          | some other => !busy other
          | none => false

def canIWriteVolume (s : State) (dev : DevId) (volName : VolName) (canceled : Bool)
    (busy : DevId → Bool) : Bool :=
  match findReadVolume volName s.readVolList with
  | some _ => false
  | none => canIUseVolume s dev volName canceled busy

theorem reserveVolume_willBeRead (req : Request) (s : State) (writing : req.writing = true)
    (read : isReadVolume req.volName s.readVolList = true) :
    (reserveVolume req s).1 = s ∧ ∃ e, (reserveVolume req s).2 = .error e := by
  unfold reserveVolume
  by_cases canceled : req.canceled
  · rw [if_pos canceled]
    exact ⟨rfl, _, rfl⟩
  · rw [if_neg canceled, if_pos ⟨writing, read⟩]
    exact ⟨rfl, _, rfl⟩

/-- What the read list is asked for: whether any job has the volume registered, and that
no such volume is given away for writing. -/
structure ReadListAgrees (history : List ReadCall) : Prop where
  isRead : ∀ volName, isReadVolume volName (readVolList history) = true ↔
    RegisteredForReading history volName
  find : ∀ volName, (findReadVolume volName (readVolList history)).isSome = true ↔
    RegisteredForReading history volName
  reserve : ∀ req s, s.readVolList = readVolList history → req.writing = true →
    RegisteredForReading history req.volName → ∃ e, (reserveVolume req s).2 = .error e
  write : ∀ s dev volName canceled busy, s.readVolList = readVolList history →
    RegisteredForReading history volName → canIWriteVolume s dev volName canceled busy = false

/-- The read list, which is ordered by JobId and VolumeName, answers questions for a name
exactly when every registered name can be found by bisection. -/
theorem readListAgrees_iff (history : List ReadCall) :
    ReadListAgrees history ↔ ∀ volName, RegisteredForReading history volName →
      Findable (readVolList history) volName := by
  constructor
  · intro agrees volName registered
    exact (isReadVolume_iff _ _).mp ((agrees.isRead volName).mpr registered)
  · intro findable
    have isRead : ∀ volName, isReadVolume volName (readVolList history) = true ↔
        RegisteredForReading history volName := by
      intro volName
      constructor
      · exact registered_of_isReadVolume
      · intro registered
        exact (isReadVolume_iff _ _).mpr (findable volName registered)
    constructor
    · exact isRead
    · intro volName
      rw [findReadVolume_isSome]
      exact isRead volName
    · intro req s sameList writing registered
      apply (reserveVolume_willBeRead req s writing _).2
      rw [sameList]
      exact (isRead req.volName).mpr registered
    · intro s dev volName canceled busy sameList registered
      have found : (findReadVolume volName s.readVolList).isSome := by
        rw [findReadVolume_isSome, sameList]
        exact (isRead volName).mpr registered
      obtain ⟨vol, found⟩ := Option.isSome_iff_exists.mp found
      simp only [canIWriteVolume, found]

/-- Three jobs register `z`, `a` and `b`, in the order of their JobIds: `z` is not found. -/
theorem readList_misses :
    ¬ ReadListAgrees [.add 1 [122], .add 2 [97], .add 3 [98]] := by
  intro agrees
  have list : readVolList [.add 1 [122], .add 2 [97], .add 3 [98]] =
      [⟨1, [122]⟩, ⟨2, [97]⟩, ⟨3, [98]⟩] := by decide
  have registered : RegisteredForReading [.add 1 [122], .add 2 [97], .add 3 [98]] [122] := by
    refine ⟨1, ((readVolList_represents _).mem_iff _).mp ?_⟩
    rw [list]
    exact List.mem_cons_self
  have found := (agrees.isRead [122]).mpr registered
  have second : compAt (nameCompare [122]) [⟨1, [122]⟩, ⟨2, [97]⟩, ⟨3, [98]⟩] 2 = .gt := by decide
  have third : compAt (nameCompare [122]) [⟨1, [122]⟩, ⟨2, [97]⟩, ⟨3, [98]⟩] 3 = .gt := by decide
  rw [list] at found
  simp [isReadVolume, binarySearch, Bisection.search, Bisection.settle, second, third] at found

end Bacula.VolMgr
