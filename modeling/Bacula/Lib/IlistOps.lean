import Bacula.Lib.Ilist

/-! All operations of `lib/ilist.c`, on the fields of the list. `put` leaves `last_item` on the last
used index, `append` and `remove_item` take it for the first free one, so nothing is known about the
fields in general. -/
namespace Bacula.IlistOps

/-- The array is empty when `items` is NULL; its length is `max_items`. -/
structure Fields (α : Type) where
  items : List (Option α)
  numItems : ℤ
  lastItem : ℕ
  numGrow : ℕ
  deriving DecidableEq, Repr

variable {α : Type}

def init (num : ℕ) : Fields α := ⟨[], 0, 0, num⟩

/-- `grow_list`. -/
def Fields.grown (l : Fields α) : Fields α :=
  { l with
    items := (Ilist.growList l.items l.lastItem l.numGrow).1
    numGrow := (Ilist.growList l.items l.lastItem l.numGrow).2 }

def append (l : Fields α) (item : Option α) : Fields α :=
  let l := l.grown
  { l with
    items := l.items.set l.lastItem item
    lastItem := l.lastItem + 1
    numItems := l.numItems + 1 }

def put (l : Fields α) (index : ℕ) (item : Option α) : Fields α :=
  let l := ({ l with lastItem := if index > l.lastItem then index else l.lastItem } : Fields α).grown
  { l with
    items := l.items.set index item
    numItems := if slot l.items index = none then l.numItems + 1 else l.numItems }

/-- `remove_item`, with the item. -/
def removeItem (l : Fields α) (index : ℤ) : Fields α × Option α :=
  if index < 0 ∨ index ≥ l.lastItem then (l, none)
  else
    let item := slot l.items index.toNat
    let items := (List.range' index.toNat (l.lastItem - 1 - index.toNat)).foldl
      (fun items i => items.set i (slot items (i + 1))) l.items
    ({ l with
       items := items.set (l.lastItem - 1) none
       lastItem := l.lastItem - 1
       numItems := l.numItems - 1 }, item)

def get (l : Fields α) (index : ℤ) : Option α :=
  if l.items = [] ∨ index < 0 ∨ index > l.lastItem then none else slot l.items index.toNat

def size (l : Fields α) : ℤ := l.numItems

inductive Op (α : Type) where
  | put (index : Fin (2 ^ 31)) (item : Option α)
  | append (item : Option α)
  | removeItem (index : ℤ)
  | get (index : ℤ)
  deriving DecidableEq, Repr

/-- The fields after the call and its result. -/
def step (l : Fields α) : Op α → Fields α × Option α
  | .put index item => (put l index item, none)
  | .append item => (append l item, none)
  | .removeItem index => removeItem l index
  | .get index => (l, get l index)

/-- The highest index that the call touches is inside of the array. -/
def Inside (l : Fields α) : Op α → Prop
  | .put index item => index < (put l index item).items.length
  | .append item => l.lastItem < (append l item).items.length
  | .removeItem index => ¬ (index < 0 ∨ index ≥ l.lastItem) → l.lastItem ≤ l.items.length
  | .get index => ¬ (l.items = [] ∨ index < 0 ∨ index > l.lastItem) → index.toNat < l.items.length

/-! ## The map that the list stands for -/

/-- The index behind the highest one in use. -/
noncomputable def next (m : ℕ → Option α) : ℕ := sInf {n | ∀ i, n ≤ i → m i = none}

noncomputable def mapSize (m : ℕ → Option α) : ℕ := Set.ncard {i | m i ≠ none}

noncomputable def mapStep (m : ℕ → Option α) : Op α → (ℕ → Option α) × Option α
  | .put index item => (Function.update m index item, none)
  | .append item => (Function.update m (next m) item, none)
  | .removeItem index =>
      if index < 0 then (m, none)
      else (fun i => if i < index.toNat then m i else m (i + 1), m index.toNat)
  | .get index => (m, if index < 0 then none else m index.toNat)

/-- What the list should show of the map. -/
structure Shows (l : Fields α) (m : ℕ → Option α) : Prop where
  get : ∀ index : ℤ, get l index = if index < 0 then none else m index.toNat
  size : size l = mapSize m

/-- Every call stays inside of the array, gives the result that the map gives, and the list shows
the map after it. -/
def Lawful (l : Fields α) (m : ℕ → Option α) : List (Op α) → Prop
  | [] => True
  | op :: ops =>
      Inside l op ∧ (step l op).2 = (mapStep m op).2 ∧ Shows (step l op).1 (mapStep m op).1 ∧
        Lawful (step l op).1 (mapStep m op).1 ops

/-- No NULL is stored; the array of a growing list has a length that is an `int`; nothing is appended
or removed while the last index is in use; and the list is not read behind a full array. -/
def Settled (l : Fields α) : Op α → Prop
  | .put index item => item ≠ none ∧ Ilist.Grows l.items (max l.lastItem index) l.numGrow
  | .append item =>
      item ≠ none ∧ slot l.items l.lastItem = none ∧ Ilist.Grows l.items l.lastItem l.numGrow
  | .removeItem index => index < 0 ∨ index > l.lastItem ∨ slot l.items l.lastItem = none
  | .get index => ¬ (l.items ≠ [] ∧ index = l.lastItem ∧ l.lastItem = l.items.length)

def AllSettled (l : Fields α) : List (Op α) → Prop
  | [] => True
  | op :: ops => Settled l op ∧ AllSettled (step l op).1 ops

end Bacula.IlistOps
