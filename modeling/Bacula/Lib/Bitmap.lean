import Mathlib

/-! The class `bitmap` of `lib/bitmap.h`. An access outside an array has no result. -/
namespace Bacula

namespace Bitmap

/-- `nbytes_for_bits`. -/
def nbytesForBits (n : UInt32) : ℕ := ((n - 1) >>> 3).toNat + 1

def mask (b : UInt32) : UInt8 := 1 <<< (b &&& 7).toUInt8

/-- `bit_is_set`. -/
def bitIsSet (b : UInt32) (var : List UInt8) : Option Bool :=
  var[(b >>> 3).toNat]?.map fun c => c &&& mask b ≠ 0

/-- `set_bit`. -/
def setBit (b : UInt32) (var : List UInt8) : Option (List UInt8) :=
  var[(b >>> 3).toNat]?.map fun c => var.set (b >>> 3).toNat (c ||| mask b)

/-- `clear_bit`. -/
def clearBit (b : UInt32) (var : List UInt8) : Option (List UInt8) :=
  var[(b >>> 3).toNat]?.map fun c => var.set (b >>> 3).toNat (c &&& ~~~mask b)

def malloc (len : ℕ) : List UInt8 := List.replicate len 0

def memset (dest : List UInt8) (c : UInt8) (n : ℕ) : Option (List UInt8) :=
  if n ≤ dest.length then some (List.replicate n c ++ dest.drop n) else none

def memcpy (dest src : List UInt8) (n : ℕ) : Option (List UInt8) :=
  if n ≤ dest.length ∧ n ≤ src.length then some (src.take n ++ dest.drop n) else none

end Bitmap

structure Bitmap where
  len : ℕ
  max : UInt32
  array : List UInt8
  isset : List UInt8

namespace Bitmap

/-- `init`, which the constructor calls. -/
def init (nbBits : UInt32) : Bitmap :=
  let max := if 1 < nbBits then nbBits else 1
  let len := nbytesForBits max
  { len, max, array := List.replicate len 0, isset := List.replicate len 0 }

/-- `copy` of another bitmap. -/
def copy (src : Bitmap) : Option Bitmap := do
  let m := init src.max
  let isset ← memcpy m.isset src.isset m.len
  let array ← memcpy m.array src.array m.len
  some { m with isset, array }

def resize (m : Bitmap) (nbBits : UInt32) : Option Bitmap :=
  if nbBits ≤ m.max then some { m with max := nbBits }
  else do
    let tlen := nbytesForBits nbBits
    -- both have the old size
    let tarray := malloc m.len
    let tisset := malloc m.len
    let tarray ← memset tarray 0 tlen
    let tisset ← memset tisset 0 tlen
    let tarray ← memcpy tarray m.array m.len
    let _ ← memcpy tisset m.isset m.len
    -- the copy is what is freed, and isset is assigned to itself
    some { len := tlen, max := nbBits, array := tarray, isset := m.isset }

def isSet (m : Bitmap) (b : UInt32) : Option ℤ :=
  if b ≥ m.max then some (-1)
  else do
    if ← bitIsSet b m.isset then some (if ← bitIsSet b m.array then 1 else 0) else some (-1)

def bitSet (m : Bitmap) (b : UInt32) : Option (Bool × Bitmap) :=
  if b ≥ m.max then some (false, m)
  else do
    let isset ← setBit b m.isset
    let array ← setBit b m.array
    some (true, { m with isset, array })

def bitClear (m : Bitmap) (b : UInt32) : Option (Bool × Bitmap) :=
  if b ≥ m.max then some (false, m)
  else do
    let array ← clearBit b m.array
    let isset ← setBit b m.isset
    some (true, { m with isset, array })

def bitReset (m : Bitmap) (b : UInt32) : Option (Bool × Bitmap) :=
  if b ≥ m.max then some (false, m)
  else do
    let isset ← clearBit b m.isset
    let array ← clearBit b m.array
    some (true, { m with isset, array })

/-! ## Operations on several bitmaps -/

inductive Op (ι : Type) where
  | resize (m : ι) (nbBits : UInt32)
  | copy (m src : ι)
  | bitSet (m : ι) (b : UInt32)
  | bitClear (m : ι) (b : UInt32)
  | bitReset (m : ι) (b : UInt32)
  | isSet (m : ι) (b : UInt32)

variable {ι : Type} [DecidableEq ι]

/-- A bitmap that is copied to itself is initialized before its bits are read. -/
def step (s : ι → Bitmap) : Op ι → Option (ι → Bitmap)
  | .resize m nbBits => ((s m).resize nbBits).map (Function.update s m)
  | .copy m src =>
      (if m = src then some (init (s m).max) else copy (s src)).map (Function.update s m)
  | .bitSet m b => ((s m).bitSet b).map fun r => Function.update s m r.2
  | .bitClear m b => ((s m).bitClear b).map fun r => Function.update s m r.2
  | .bitReset m b => ((s m).bitReset b).map fun r => Function.update s m r.2
  | .isSet m b => ((s m).isSet b).map fun _ => s

/-! ## Finite maps -/

/-- What a bitmap stands for: the entries at the indexes below its size. -/
structure Entries where
  max : UInt32
  entry : UInt32 → Option Bool

namespace Entries

def new (nbBits : UInt32) : Entries := ⟨if 1 < nbBits then nbBits else 1, fun _ => none⟩

def put (e : Entries) (b : UInt32) (v : Option Bool) : Entries :=
  if b < e.max then { e with entry := Function.update e.entry b v } else e

/-- -1: not set, 0: cleared, 1: set. -/
def isSet (e : Entries) (b : UInt32) : ℤ :=
  match e.entry b with
  | none => -1
  | some false => 0
  | some true => 1

def step (e : ι → Entries) : Op ι → ι → Entries
  | .resize m nbBits => Function.update e m { e m with max := nbBits }
  | .copy m src => Function.update e m (e src)
  | .bitSet m b => Function.update e m ((e m).put b (some true))
  | .bitClear m b => Function.update e m ((e m).put b (some false))
  | .bitReset m b => Function.update e m ((e m).put b none)
  | .isSet _ _ => e

end Entries

/-- Every operation of the list meets the condition on the entries before it. -/
def Along (P : (ι → Entries) → Op ι → Prop) : (ι → Entries) → List (Op ι) → Prop
  | _, [] => True
  | e, op :: ops => P e op ∧ Along P (Entries.step e op) ops

def Growing (e : ι → Entries) : Op ι → Prop
  | .resize m nbBits => (e m).max ≤ nbBits
  | _ => True

/-- A bitmap grows within its last byte, and one with entries is not copied to itself. -/
def Safe (e : ι → Entries) : Op ι → Prop
  | .resize m nbBits => nbytesForBits nbBits = nbytesForBits (e m).max
  | .copy m src => m = src → ∀ b, (e m).entry b = none
  | _ => True

/-- The operations stay inside the arrays, and afterwards `is_set` answers as the maps do. -/
def Answers (n : ι → UInt32) (ops : List (Op ι)) : Prop :=
  ∃ s, ops.foldlM step (fun m => init (n m)) = some s ∧
    ∀ m b, (s m).isSet b = some ((ops.foldl Entries.step (fun m => Entries.new (n m)) m).isSet b)

end Bitmap
end Bacula
