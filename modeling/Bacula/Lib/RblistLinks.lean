import Bacula.Lib.Rblist

/-! The links of a red-black tree, as `lib/rblist.c` reads and writes them. An item is a pointer to
its link in the heap. A step that follows a null pointer or reads an item that has been freed, and
a loop that needs more rounds than it is given, gives `none`. -/
namespace Bacula.Rblist
open Zipper

/-- `struct rblink`. -/
structure Rblink (ι : Type) where
  parent : Option ι
  left : Option ι
  right : Option ι
  red : Bool

/-- `class rblist`, with the items that are allocated. -/
structure State (ι : Type) where
  head : Option ι
  numItems : ℕ
  down : Bool
  heap : ι → Option (Rblink ι)

variable {ι : Type}

namespace Rblink

/-- `left` or `right`. -/
def child (link : Rblink ι) : Side → Option ι
  | .left => link.left
  | .right => link.right

/-- `set_left` or `set_right`. -/
def setChild (link : Rblink ι) (side : Side) (value : Option ι) : Rblink ι :=
  match side with
  | .left => { link with left := value }
  | .right => { link with right := value }

end Rblink

namespace State

section Reads

def link (s : State ι) (x : Option ι) : Option (Rblink ι) := x.bind s.heap

def parent (s : State ι) (x : Option ι) : Option (Option ι) := (s.link x).map Rblink.parent

def child (side : Side) (s : State ι) (x : Option ι) : Option (Option ι) :=
  (s.link x).map fun link => link.child side

def left : State ι → Option ι → Option (Option ι) := child .left

def right : State ι → Option ι → Option (Option ι) := child .right

def red (s : State ι) (x : Option ι) : Option Bool := (s.link x).map Rblink.red

/-- `y && red(y)`. -/
def someRed (s : State ι) (y : Option ι) : Option Bool :=
  if y.isNone then some false else s.red y

/-- The way down in `insert`, with the last item and its comparison. -/
def descend (compare : ι → ι → Ordering) (item : ι) :
    ℕ → State ι → Option ι → Option ι → Ordering → Option (Option ι × Option ι × Ordering)
  | _, _, none, last, comp => some (none, last, comp)
  | 0, _, some _, _, _ => none
  | rounds + 1, s, some x, _, _ =>
      match compare item x with
      | .lt => (s.left (some x)).bind fun l => descend compare item rounds s l (some x) .lt
      | .gt => (s.right (some x)).bind fun r => descend compare item rounds s r (some x) .gt
      | .eq => some (some x, some x, .eq)

/-- `rblist::search`. -/
def search (rounds : ℕ) (compare : ι → ι → Ordering) (s : State ι) (item : ι) :
    Option (Option ι) :=
  (descend compare item rounds s s.head none .eq).map Prod.fst

/-- All the way down left. -/
def leftmost : ℕ → State ι → Option ι → Option (Option ι)
  | 0, _, _ => none
  | rounds + 1, s, x =>
      (s.left x).bind fun l => if l.isSome then leftmost rounds s l else some x

/-- `rblist::first`. -/
def first (rounds : ℕ) (s : State ι) : Option (Option ι × State ι) :=
  let s := { s with down := true }
  match s.head with
  | none => some (none, s)
  | some x => (leftmost rounds s (some x)).map fun x => (x, s)

/-- The test in `next` and `any` whether to go down to the right. -/
def goesDown (s : State ι) (x : Option ι) : Option Bool :=
  (s.link x).map fun link =>
    (s.down && link.left.isNone && link.right.isSome) || (!s.down && link.right.isSome)

/-- Down to the right one, then all the way down left. -/
def downRight (rounds : ℕ) (s : State ι) (x : Option ι) : Option (Option ι × State ι) :=
  (s.right x).bind fun r => (leftmost rounds s r).map fun y => (y, { s with down := true })

end Reads

section Walks

variable [DecidableEq ι]

/-- The way up in `next`. -/
def climb : ℕ → State ι → Option ι → Option (Option ι × State ι)
  | 0, _, _ => none
  | rounds + 1, s, x =>
      (s.parent x).bind fun p =>
        if p.isNone then some (none, s)
        else (s.right p).bind fun r =>
          -- if coming from right, continue up
          if r = x then climb rounds { s with down := false } p
          else some (p, { s with down := false })

/-- `rblist::next`. -/
def next (rounds : ℕ) (s : State ι) (item : Option ι) : Option (Option ι × State ι) :=
  match item with
  | none => s.first rounds
  | some x => do
      if ← s.goesDown (some x) then s.downRight rounds (some x)
      else s.climb rounds (some x)

/-- `foreach_rblist` from some item on. -/
def foreachFrom (rounds : ℕ) : ℕ → State ι → Option ι → Option (List ι × State ι)
  | _, s, none => some ([], s)
  | 0, _, some _ => none
  | n + 1, s, some x => do
      let (y, s) ← s.next rounds (some x)
      let (rest, s) ← foreachFrom rounds n s y
      some (x :: rest, s)

/-- `foreach_rblist`. -/
def foreach (rounds : ℕ) (s : State ι) : Option (List ι × State ι) := do
  let (x, s) ← s.first rounds
  foreachFrom rounds rounds s x

/-- `rblist::any`. -/
def any (rounds : ℕ) (s : State ι) (item : Option ι) : Option (Option ι × State ι) :=
  match item with
  | none => some (none, s)
  | some x => do
      if ← s.goesDown (some x) then s.downRight rounds (some x)
      else
        let p ← s.parent (some x)
        some (p, if p.isNone then s else { s with down := false })

end Walks

section Writes

variable [DecidableEq ι]

def write (s : State ι) (x : Option ι) (change : Rblink ι → Rblink ι) : Option (State ι) := do
  let p ← x
  let link ← s.heap p
  some { s with heap := Function.update s.heap p (some (change link)) }

def setParent (s : State ι) (x parent : Option ι) : Option (State ι) :=
  s.write x fun link => { link with parent }

def setChild (side : Side) (s : State ι) (x child : Option ι) : Option (State ι) :=
  s.write x fun link => link.setChild side child

def setLeft : State ι → Option ι → Option ι → Option (State ι) := setChild .left

def setRight : State ι → Option ι → Option ι → Option (State ι) := setChild .right

def setRed (s : State ι) (x : Option ι) (red : Bool) : Option (State ι) :=
  s.write x fun link => { link with red }

/-- The part of a rotation that puts `y` in the place of `x`. -/
def replaceChild (s : State ι) (x y : Option ι) : Option (State ι) := do
  let p ← s.parent x
  -- if no parent then we have a new head
  if p.isNone then some { s with head := y }
  else if x = (← s.left p) then s.setLeft p y
  else s.setRight p y

/-- A rotation to this side. -/
def rotate (side : Side) (s : State ι) (x : Option ι) : Option (State ι) := do
  let y ← s.child side.other x
  let s ← s.setChild side.other x (← s.child side y)
  let s ← if (← s.child side y).isSome then s.setParent (← s.child side y) x else some s
  let s ← s.setParent y (← s.parent x)
  let s ← s.replaceChild x y
  let s ← s.setChild side y x
  s.setParent x y

/-- `rblist::left_rotate`. -/
def leftRotate : State ι → Option ι → Option (State ι) := rotate .left

/-- `rblist::right_rotate`. -/
def rightRotate : State ι → Option ι → Option (State ι) := rotate .right

/-- The rotations in the loop of `insert` when the parent is on this side of its parent, and the
new `x`. -/
def rotateUp (side : Side) (s : State ι) (x : Option ι) : Option (Option ι × State ι) := do
  let p ← s.parent x
  let (x, s) ←
    if x = (← s.child side.other p) then (s.rotate side p).map fun s => (p, s) else some (x, s)
  -- make parent black too
  let s ← s.setRed (← s.parent x) false
  let s ← s.setRed (← s.parent (← s.parent x)) true
  let s ← s.rotate side.other (← s.parent (← s.parent x))
  some (x, s)

/-- The loop of `insert`: walk up the tree balancing it. -/
def balance : ℕ → State ι → Option ι → Option (State ι)
  | 0, _, _ => none
  | rounds + 1, s, x => do
      if x = s.head then some s
      else
        let p ← s.parent x
        if !(← s.red p) then some s
        else
          let grandpa ← s.parent p
          let side : Side := if p = (← s.left grandpa) then .left else .right
          -- the other side of our grandparent
          let y ← s.child side.other grandpa
          if ← s.someRed y then
            let s ← s.setRed p false
            let s ← s.setRed y false
            let s ← s.setRed grandpa true
            balance rounds s grandpa
          else
            let (x, s) ← s.rotateUp side x
            balance rounds s x

/-- `rblist::insert`. -/
def insert (rounds : ℕ) (compare : ι → ι → Ordering) (s : State ι) (item : ι) :
    Option (ι × State ι) := do
  let (found, last, comp) ← s.descend compare item rounds s.head none .eq
  match found with
  | some found => some (found, s)
  | none =>
      let s ← s.setLeft (some item) none
      let s ← s.setRight (some item) none
      let s ← s.setParent (some item) none
      let s ← s.setRed (some item) false
      -- empty tree
      if s.numItems = 0 then some (item, { s with head := some item, numItems := 1 })
      else
        let s ← if comp = .lt then s.setLeft last (some item) else s.setRight last (some item)
        let s ← s.setRed last true
        let s ← s.setParent (some item) last
        let s := { s with numItems := (s.numItems + 1) % 2 ^ 32 }
        let s ← s.balance rounds last
        -- make sure the head is always black
        let s ← s.setRed s.head false
        some (item, s)

/-- `free`. -/
def free (s : State ι) (x : Option ι) : Option (State ι) := do
  let p ← x
  let _ ← s.heap p
  some { s with heap := Function.update s.heap p none }

/-- The part of the loop of `destroy` that prunes an item from its parent. -/
def prune (s : State ι) (x : Option ι) : Option (State ι) := do
  let p ← s.parent x
  if p.isNone then some s
  else if x = (← s.left p) then s.setLeft p none
  else if x = (← s.right p) then s.setRight p none
  else some s

/-- The part of the loop of `destroy` that frees an item with nothing below it. -/
def freeLeaf (s : State ι) (x : Option ι) : Option (State ι) := do
  if (← s.left x).isNone && (← s.right x).isNone then
    let s := if s.head = x then { s with head := none } else s
    let s ← s.free x
    some { s with numItems := (s.numItems + (2 ^ 32 - 1)) % 2 ^ 32 }
  else some s

/-- The loop of `destroy`, with the item at its end. -/
def destroyFrom (rounds : ℕ) : ℕ → State ι → Option ι → Option (Option ι × State ι)
  | 0, _, _ => none
  | n + 1, s, x => do
      let (y, s) ← s.any rounds x
      if y.isNone then some (x, s)
      else
        let s ← s.prune x
        let s ← s.freeLeaf x
        destroyFrom rounds n s y

/-- `rblist::destroy`. -/
def destroy (rounds : ℕ) (s : State ι) : Option (State ι) := do
  let (x, s) ← s.first rounds
  let (x, s) ← s.destroyFrom rounds rounds x
  let s ←
    if x.isSome then do
      let s := if x = s.head then { s with head := none } else s
      let s ← s.free x
      some { s with numItems := (s.numItems + (2 ^ 32 - 1)) % 2 ^ 32 }
    else some s
  let s ← if s.head.isSome then s.free s.head else some s
  some { s with head := none }

end Writes

end State
end Bacula.Rblist
