import Bacula.Library.Iterator

/-! The hash table of `lib/htable.c`. An item is a pointer to its link, and the links are looked
up in the memory, which a table and the larger one that replaces it share. All keys of a table
are of one kind. An access outside of the table, a failed assertion, or a loop that needs more
rounds than it is given, gives `none`. -/
namespace Bacula
open Iterator

/-- A `uint32_t` after an overflow. -/
def uint32 (x : ℕ) : ℕ := x % 2 ^ 32

namespace Htable

/-- `is_ikey`: the key is a string or a number. -/
inductive Kind where
  | key | ikey

/-- `union key_val`; a string up to its NUL. -/
def Kind.Val : Kind → Type
  | .key => List UInt8
  | .ikey => UInt64

instance : (kind : Kind) → DecidableEq kind.Val
  | .key => inferInstanceAs (DecidableEq (List UInt8))
  | .ikey => inferInstanceAs (DecidableEq UInt64)

/-- The `hash` that `hash_index` makes of a key. The type `char` is signed. -/
def Kind.hash : (kind : Kind) → kind.Val → UInt64
  | .key, str => List.foldl (fun (hash : UInt64) (p : UInt8) =>
      hash + (((hash <<< 5) ||| (hash >>> (64 - 5))) + p.toInt8.toInt32.toUInt32.toUInt64)) 0 str
  | .ikey, number => number

/-- `struct hlink`. -/
structure Hlink (ι : Type) (kind : Kind) where
  next : Option ι
  hash : UInt64
  key : kind.Val

end Htable

/-- `class htable`. -/
structure Htable (ι : Type) where
  table : List (Option ι)
  hash : UInt64
  /-- current number of items -/
  numItems : ℕ
  /-- maximum items before growing -/
  maxItems : ℕ
  /-- size of hash table -/
  buckets : ℕ
  index : ℕ
  /-- "remainder" mask -/
  mask : ℕ
  /-- amount to shift down -/
  rshift : ℕ
  walkptr : Option ι
  walkIndex : ℕ

namespace Htable

variable {ι : Type} {kind : Kind}

/-- The loop in `init` that counts the bits of `tsize`. -/
def power (tsize : ℕ) : ℕ := if tsize = 0 then 0 else power (tsize / 2) + 1

/-- `htable::init`. -/
def init (tsize : Int32) : Htable ι :=
  let tsize := if tsize < 31 then 31 else tsize.toInt.toNat
  let pwr := power (tsize / 4)
  let buckets := uint32 (1 <<< pwr)
  { table := List.replicate buckets none
    hash := 0
    numItems := 0
    -- allow average 4 entries per chain
    maxItems := uint32 (buckets * 4)
    buckets
    index := 0
    mask := (2 ^ 32 - 1) ^^^ uint32 ((2 ^ 32 - 1) <<< pwr)
    -- start using bits 28, 29, 30
    rshift := uint32 (2 ^ 32 + 30 - pwr)
    walkptr := none
    walkIndex := 0 }

/-- The pseudo random bucket index of a hash. -/
def bucket (t : Htable ι) (hash : UInt64) : ℕ :=
  uint32 (((hash * 1103515249).toNat >>> t.rshift) &&& t.mask)

/-- `htable::hash_index`. -/
def hashIndex (t : Htable ι) (key : kind.Val) : Htable ι :=
  { t with hash := kind.hash key, index := t.bucket (kind.hash key) }

/-- The loop in `lookup` over a chain. -/
def find (mem : ι → Hlink ι kind) (key : kind.Val) (hash : UInt64) :
    ℕ → Option ι → Option (Option ι)
  | _, none => some none
  | 0, some _ => none
  | rounds + 1, some hp =>
      if hash = (mem hp).hash ∧ key = (mem hp).key then some (some hp)
      else find mem key hash rounds (mem hp).next

/-- `htable::lookup`. -/
def lookup (rounds : ℕ) (mem : ι → Hlink ι kind) (t : Htable ι) (key : kind.Val) :
    Option (Option ι × Htable ι) := do
  let t := t.hashIndex key
  let hp ← t.table[t.index]?
  let found ← find mem key t.hash rounds hp
  some (found, t)

/-- The loop that looks for a bucket in use, from bucket `walk_index` on. -/
def nextBucket (t : Htable ι) (walkIndex : ℕ) : Option ι × ℕ :=
  if walkIndex < t.buckets then
    match (t.table[walkIndex]?).join with
    | some hp => (some hp, walkIndex + 1)
    | none => t.nextBucket (walkIndex + 1)
  else (none, walkIndex)
termination_by t.buckets - walkIndex

/-- `htable::next`. -/
def next (mem : ι → Hlink ι kind) (t : Htable ι) : Option ι × Htable ι :=
  let walkptr := t.walkptr.bind fun hp => (mem hp).next
  let (walkptr, walkIndex) :=
    match walkptr with
    | some hp => (some hp, t.walkIndex)
    | none => t.nextBucket t.walkIndex
  (walkptr, { t with walkptr, walkIndex })

/-- `htable::first`. -/
def first (t : Htable ι) : Option ι × Htable ι :=
  let (walkptr, walkIndex) :=
    match (t.table[0]?).join with
    | some hp => (some hp, 1)
    | none => t.nextBucket 1
  (walkptr, { t with walkptr, walkIndex })

section Writes

variable [DecidableEq ι]

/-- The part of `insert` that puts the item before the head of its chain. -/
def link (t : Htable ι) (mem : ι → Hlink ι kind) (head : Option ι) (key : kind.Val) (item : ι) :
    Htable ι × (ι → Hlink ι kind) :=
  ({ t with
      table := t.table.set t.index (some item)
      numItems := uint32 (t.numItems + 1) },
    Function.update mem item { next := head, hash := t.hash, key })

/-- `htable::insert`, where `grow` is `grow_table`. -/
def insertWith (rounds : ℕ) (grow : (ι → Hlink ι kind) → Htable ι →
      Option (Htable ι × (ι → Hlink ι kind)))
    (mem : ι → Hlink ι kind) (t : Htable ι) (key : kind.Val) (item : ι) :
    Option (Bool × Htable ι × (ι → Hlink ι kind)) := do
  let (found, t) ← t.lookup rounds mem key
  if found.isSome then some (false, t, mem)
  else if t.buckets ≤ t.index then none
  else
    let head ← t.table[t.index]?
    let (t, mem) := t.link mem head key item
    if t.maxItems ≤ t.numItems then (grow mem t).map fun (t, mem) => (true, t, mem)
    else some (true, t, mem)

/-- The loop of `grow_table`: every item of the table `t` goes to the table `big`. The link that
`insert` overwrites is saved before. -/
def moveItems (insertBig : (ι → Hlink ι kind) → Htable ι → kind.Val → ι →
      Option (Bool × Htable ι × (ι → Hlink ι kind))) :
    ℕ → (ι → Hlink ι kind) → Htable ι → Htable ι → Option ι →
      Option (Htable ι × (ι → Hlink ι kind))
  | _, mem, _, big, none => some (big, mem)
  | 0, _, _, _, some _ => none
  | rounds + 1, mem, t, big, some item => do
      let ni := (mem item).next
      let (_, big, mem) ← insertBig mem big (mem item).key item
      match ni with
      | some ni => moveItems insertBig rounds mem t big (some ni)
      | none =>
          let (item, t) := { t with walkptr := none }.next mem
          moveItems insertBig rounds mem t big item

/-- The larger table at the start of `grow_table`. -/
def bigger (t : Htable ι) : Htable ι :=
  let buckets := uint32 (t.buckets * 2)
  { t with
    mask := uint32 (t.mask <<< 1 ||| 1)
    rshift := uint32 (t.rshift + (2 ^ 32 - 1))
    numItems := 0
    buckets
    maxItems := uint32 (buckets * 4)
    table := List.replicate buckets none
    walkptr := none
    walkIndex := 0 }

/-- `htable::grow_table`. -/
def growTable (rounds : ℕ) (insertBig : (ι → Hlink ι kind) → Htable ι → kind.Val → ι →
      Option (Bool × Htable ι × (ι → Hlink ι kind)))
    (mem : ι → Hlink ι kind) (t : Htable ι) : Option (Htable ι × (ι → Hlink ι kind)) :=
  let (item, t) := t.first
  moveItems insertBig rounds mem t t.bigger item

/-- `htable::insert`. The bound is for the rounds of its loops and for the depth of the calls. -/
def insert : ℕ → (ι → Hlink ι kind) → Htable ι → kind.Val → ι →
    Option (Bool × Htable ι × (ι → Hlink ι kind))
  | 0 => fun _ _ _ _ => none
  | rounds + 1 => insertWith rounds (growTable rounds (insert rounds))

end Writes

end Htable
end Bacula
