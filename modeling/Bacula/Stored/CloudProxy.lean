import Bacula.Stored.CloudParts

/-! The proxy of the cloud parts, `cloud_proxy` in `stored/cloud_parts.c`: a table of volumes with
the lists of their parts. Every section under the mutex is one step; `get_size` reads the record
in another step, when the mutex is released. A record is a pointer that is not used again after it
was freed. -/
namespace Bacula.CloudProxy
open CloudParts

/-- A list of which the length of the array is an `int`. -/
abbrev PartList := { list : Ilist CloudPart // list.items.length < 2 ^ 31 }

/-- A list of the proxy with the first pointers that were not given away yet. -/
structure Proxy (T : Type) where
  /-- `m_hash`. -/
  volumes : String → Option (Ilist ℕ)
  heap : ℕ → Option CloudPart
  next : ℕ
  /-- The pointers that `get_size` got from `get`. -/
  calls : T → Option (Option ℕ)

variable {T : Type} [DecidableEq T]

def Proxy.init : Proxy T := ⟨fun _ => none, fun _ => none, 0, fun _ => none⟩

/-- Calls of the threads. The records of the list of `reset` pass to the proxy. `get` and `size`
are the two steps of `get_size`. -/
inductive Action (T : Type) where
  | set (volume : String) (index : UInt32) (mtime : Int64) (size : UInt64)
      (hash64 : Option (Vector UInt8 64))
  | reset (volume : String) (list : PartList)
  | get (t : T) (volume : String) (index : UInt32)
  | size (t : T)
  | lastIndex (volume : String)
  | exclude (volume : String) (list : PartList)

inductive Output where
  /-- Memory that is not allocated is read or written. -/
  | fault
  | none
  | flag (ok : Bool)
  | size (size : UInt64)
  | index (index : ℕ)
  | list (get : Option (ℕ → Option CloudPart))

def zeroHash : Vector UInt8 64 := Vector.replicate 64 0

def newPart (index : UInt32) (mtime : Int64) (size : UInt64) (hash64 : Option (Vector UInt8 64)) :
    CloudPart := ⟨index, mtime, size, hash64.getD zeroHash⟩

/-- `free` of every pointer of a list. -/
def freeAll (list : Ilist ℕ) (heap : ℕ → Option CloudPart) : ℕ → Option CloudPart :=
  fun p => if some p ∈ list.items then none else heap p

/-- The `put` of `set`: the new record in the list of the volume. -/
def Proxy.putPart (s : Proxy T) (volume : String) (list : Ilist ℕ) (heap : ℕ → Option CloudPart)
    (index : ℕ) (part : CloudPart) : Output × Proxy T :=
  match list.putInt index (some s.next) with
  | none => (.fault, s)
  | some list => (.flag true, { s with
      volumes := Function.update s.volumes volume (some list)
      heap := Function.update heap s.next (some part)
      next := s.next + 1 })

/-- `cloud_proxy::set`. An index from 2^31 on is a negative `int`, at which `put` writes outside
of the array. -/
def Proxy.set (s : Proxy T) (volume : String) (index : UInt32) (part : CloudPart) :
    Output × Proxy T :=
  if index < 1 then (.flag false, s)
  else if 2 ^ 31 ≤ index.toNat then (.fault, s)
  else
    match s.volumes volume with
    | some list =>
        match list.get index.toNat with
        | some old => s.putPart volume list (Function.update s.heap old none) index.toNat part
        | none => s.putPart volume list s.heap index.toNat part
    | none => s.putPart volume (Ilist.init 100) s.heap index.toNat part

/-- One round of the loop of `reset`; the record at an index has the pointer `next + index`. -/
def adoptPart (next : ℕ) (list : Ilist CloudPart) (new : Ilist ℕ) (index : ℕ) : Option (Ilist ℕ) :=
  match list.get index with
  | some _ => new.putInt index (some (next + index))
  | none => some new

def adopt (next : ℕ) (list : Ilist CloudPart) : Option (Ilist ℕ) :=
  (List.range' 1 list.lastItem).foldlM (adoptPart next list) (Ilist.init 100)

/-- The list of a volume is deleted with its records, and a new one takes its place. -/
def Proxy.renew (s : Proxy T) (volume : String) (list : Ilist CloudPart) (new : Ilist ℕ) : Proxy T :=
  let heap := match s.volumes volume with
    | some old => freeAll old s.heap
    | none => s.heap
  { s with
    volumes := Function.update s.volumes volume (some new)
    heap := fun p =>
      if s.next ≤ p ∧ p ≤ s.next + list.lastItem then list.get (p - s.next : ℕ) else heap p
    next := s.next + list.lastItem + 1 }

/-- `cloud_proxy::reset`. -/
def Proxy.reset (s : Proxy T) (volume : String) (list : Ilist CloudPart) : Output × Proxy T :=
  match adopt s.next list with
  | none => (.fault, s)
  | some new => (.flag true, s.renew volume list new)

/-- `cloud_proxy::get`. -/
def Proxy.get (s : Proxy T) (volume : String) (index : UInt32) : Option ℕ :=
  (s.volumes volume).bind fun list => list.get index.toInt32.toInt

/-- The end of `get_size`. -/
def Proxy.size (s : Proxy T) (t : T) : Output × Proxy T :=
  let s' := { s with calls := Function.update s.calls t none }
  match s.calls t with
  | none => (.none, s)
  | some none => (.size 0, s')
  | some (some p) =>
      match s.heap p with
      | none => (.fault, s')
      | some part => (.size part.size, s')

/-- The record at a pointer. -/
def Proxy.part (s : Proxy T) (p : ℕ) : CloudPart := (s.heap p).getD ⟨0, 0, 0, zeroHash⟩

/-- One round of the loop of `diff_lists`. -/
def diffPart (source dest diff : Ilist CloudPart) (index : ℕ) : Option (Ilist CloudPart) :=
  match source.get index, dest.get index with
  | none, none => some diff
  | none, some _ => diff.putInt index none
  | some p1, none => diff.putInt index (some p1)
  | some p1, some p2 => if p1.same p2 then some diff else diff.putInt index (some p1)

/-- `diff_lists` into a new list, with the sums of `int`. -/
def diffLists (source dest : Ilist CloudPart) : Option (Ilist CloudPart) :=
  let maxSize := if source.lastItem < dest.lastItem then dest.lastItem else source.lastItem
  (List.range (maxSize + 1)).foldlM (diffPart source dest) (Ilist.init 100)

/-- `cloud_proxy::exclude`, with the records of the result. -/
def Proxy.exclude (s : Proxy T) (volume : String) (list : Ilist CloudPart) : Output :=
  match s.volumes volume with
  | none => .list none
  | some own =>
      match diffLists (own.map s.part) list with
      | none => .fault
      | some diff => .list (some fun i => diff.get i)

def step (s : Proxy T) : Action T → Output × Proxy T
  | .set volume index mtime size hash64 => s.set volume index (newPart index mtime size hash64)
  | .reset volume list => s.reset volume list.1
  | .get t volume index =>
      (.none, { s with calls := Function.update s.calls t (some (s.get volume index)) })
  | .size t => s.size t
  | .lastIndex volume => (.index (((s.volumes volume).map Ilist.lastItem).getD 0), s)
  | .exclude volume list => (s.exclude volume list.1, s)

/-! ## The map that the proxy stands for -/

/-- A call of `get_size`: its key, the record that was current at its beginning, and whether the
record was replaced since. -/
structure SizeCall where
  volume : String
  index : ℕ
  record : Option CloudPart
  replaced : Bool

structure Spec (T : Type) where
  volumes : String → Option (ℕ → Option CloudPart)
  calls : T → Option SizeCall

def Spec.init : Spec T := ⟨fun _ => none, fun _ => none⟩

/-- The calls at these keys get a record that is replaced. -/
def Spec.replace (sp : Spec T) (at_ : String → ℕ → Bool) : T → Option SizeCall := fun t =>
  (sp.calls t).map fun call => { call with replaced := call.replaced || at_ call.volume call.index }

def Spec.at (sp : Spec T) (volume : String) (index : ℕ) : Option CloudPart :=
  (sp.volumes volume).bind fun parts => parts index

def Spec.set (sp : Spec T) (volume : String) (index : ℕ) (part : CloudPart) : Output × Spec T :=
  if index < 1 then (.flag false, sp)
  else
    let old := (sp.volumes volume).getD fun _ => none
    (.flag true,
      { volumes := Function.update sp.volumes volume (some (Function.update old index (some part)))
        calls := sp.replace fun v i => v = volume ∧ i = index })

/-- The non-empty entries of the list from index 1 on. -/
def Spec.reset (sp : Spec T) (volume : String) (list : Ilist CloudPart) : Output × Spec T :=
  (.flag true,
    { volumes := Function.update sp.volumes volume
        (some fun i => if i < 1 then none else list.get i)
      calls := sp.replace fun v _ => v = volume })

/-- The size is that of the record at the beginning of the call. -/
def Spec.size (sp : Spec T) (t : T) : Output × Spec T :=
  match sp.calls t with
  | none => (.none, sp)
  | some call =>
      (.size ((call.record.map CloudPart.size).getD 0),
        { sp with calls := Function.update sp.calls t none })

/-- The highest index of a record. -/
noncomputable def Spec.lastIndex (sp : Spec T) (volume : String) : ℕ :=
  sSup { i | sp.at volume i ≠ none }

/-- The records that the list has not, or has in another form. -/
def Spec.exclude (sp : Spec T) (volume : String) (list : Ilist CloudPart) :
    Option (ℕ → Option CloudPart) :=
  (sp.volumes volume).map fun parts i =>
    (parts i).filter fun part => (list.get i).all fun other => !part.same other

noncomputable def specStep (sp : Spec T) : Action T → Output × Spec T
  | .set volume index mtime size hash64 =>
      sp.set volume index.toNat (newPart index mtime size hash64)
  | .reset volume list => sp.reset volume list.1
  | .get t volume index =>
      (.none, { sp with
        calls := Function.update sp.calls t
          (some ⟨volume, index.toNat, sp.at volume index.toNat, false⟩) })
  | .size t => sp.size t
  | .lastIndex volume => (.index (sp.lastIndex volume), sp)
  | .exclude volume list => (.list (sp.exclude volume list.1), sp)

/-- The pointer that the proxy has for a key. -/
def Proxy.at (s : Proxy T) (volume : String) (index : ℕ) : Option ℕ :=
  (s.volumes volume).bind fun list => slot list.items index

/-- The proxy has the records of the map. -/
def Shows (s : Proxy T) (sp : Spec T) : Prop :=
  ∀ volume index, (s.at volume index).bind s.heap = sp.at volume index

/-- Every call returns what it returns for the map, and leaves the records of the map. -/
def Refines (s : Proxy T) (sp : Spec T) : List (Action T) → Prop
  | [] => True
  | a :: rest => (step s a).1 = (specStep sp a).1 ∧ Shows (step s a).2 (specStep sp a).2 ∧
      Refines (step s a).2 (specStep sp a).2 rest

/-- The indexes from 1 on at which a list has a part. -/
def partIndexes (list : Ilist CloudPart) : List ℕ :=
  (List.range' 1 list.lastItem).filter fun i => (list.get i).isSome

/-- The parts of a volume and those of a list differ at an index. -/
def differs (parts : ℕ → Option CloudPart) (list : Ilist CloudPart) (i : ℕ) : Bool :=
  match parts i, list.get i with
  | none, none => false
  | some part, some other => !part.same other
  | _, _ => true

/-- The indexes of a list of parts at which they differ. -/
@[irreducible] def differing (parts : ℕ → Option CloudPart) (list : Ilist CloudPart) : List ℕ :=
  (List.range (2 ^ 31 - 1)).filter (differs parts list)

/-- The slots of the list of a volume. -/
def Proxy.room (s : Proxy T) (volume : String) : ℕ :=
  ((s.volumes volume).map fun list => list.items.length).getD 0

/-- The lengths of the arrays that take the parts are `int`s, and no record is replaced between the
two steps of a `get_size` that found it. -/
def Timely (s : Proxy T) (sp : Spec T) : Action T → Prop
  | .set volume index _ _ _ => Ilist.fill (s.room volume) index.toNat < 2 ^ 31
  | .reset _ list => Ilist.Fits 0 (partIndexes list.1)
  | .size t => ∀ call, sp.calls t = some call → call.record ≠ none → call.replaced = false
  | .exclude volume list =>
      ∀ parts, sp.volumes volume = some parts → Ilist.Fits 0 (differing parts list.1)
  | _ => True

def AllTimely (s : Proxy T) (sp : Spec T) : List (Action T) → Prop
  | [] => True
  | a :: rest => Timely s sp a ∧ AllTimely (step s a).2 (specStep sp a).2 rest

end Bacula.CloudProxy
