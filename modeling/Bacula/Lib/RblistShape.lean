import Bacula.Lib.RblistLinks

/-! The tree that the links of a red-black tree make. Every change of the links that `insert` makes
is a change of this tree. -/
namespace Bacula.Rblist
open Zipper Zipper.BinTree

variable {ι : Type}

/-- A link with its children on this side and on the other. -/
def linkAt (side : Side) (parent near far : Option ι) (red : Bool) : Rblink ι :=
  match side with
  | .left => ⟨parent, near, far, red⟩
  | .right => ⟨parent, far, near, red⟩

section LinkAt

variable (side : Side) (parent near far : Option ι) (red : Bool)

@[simp] theorem linkAt_parent : (linkAt side parent near far red).parent = parent := by
  cases side <;> rfl

@[simp] theorem linkAt_red : (linkAt side parent near far red).red = red := by
  cases side <;> rfl

@[simp] theorem linkAt_child : (linkAt side parent near far red).child side = near := by
  cases side <;> rfl

@[simp] theorem linkAt_child_other :
    (linkAt side parent near far red).child side.other = far := by
  cases side <;> rfl

@[simp] theorem linkAt_setChild (value : Option ι) :
    (linkAt side parent near far red).setChild side value = linkAt side parent value far red := by
  cases side <;> rfl

@[simp] theorem linkAt_setChild_other (value : Option ι) :
    (linkAt side parent near far red).setChild side.other value =
      linkAt side parent near value red := by
  cases side <;> rfl

@[simp] theorem linkAt_setParent (value : Option ι) :
    { linkAt side parent near far red with parent := value } = linkAt side value near far red := by
  cases side <;> rfl

@[simp] theorem linkAt_setRed (value : Bool) :
    { linkAt side parent near far red with red := value } =
      linkAt side parent near far value := by
  cases side <;> rfl

end LinkAt

/-- The item at the root. -/
def root : Rblist ι → Option ι
  | .nil => none
  | .node _ x _ => some x.item

@[simp] theorem root_nil : root (.nil : Rblist ι) = none := rfl

@[simp] theorem root_nodeAt (side : Side) (near far : Rblist ι) (x : Linked ι) :
    root (nodeAt side near x far) = some x.item := by
  cases side <;> rfl

theorem root_mem {t : Rblist ι} {z : ι} (here : root t = some z) : z ∈ items t := by
  cases t with
  | nil => cases here
  | node l x r =>
      cases here
      rw [items_node]
      exact List.mem_append_right _ (List.mem_cons_self ..)

/-- The item above a place. -/
def above : Path (Linked ι) → Option ι
  | [] => none
  | c :: _ => some c.item.item

/-- The head of the tree when this item is at the place. -/
def headOf (child : Option ι) : Path (Linked ι) → Option ι
  | [] => child
  | c :: path => headOf (some c.item.item) path

/-- The items around a place. -/
def others : Path (Linked ι) → List ι
  | [] => []
  | c :: path => c.item.item :: (items c.sibling ++ others path)

theorem items_nodeAt_perm (side : Side) (near far : Rblist ι) (x : Linked ι) :
    (items (nodeAt side near x far)).Perm (x.item :: (items near ++ items far)) := by
  cases side with
  | left =>
      rw [nodeAt, items_node]
      exact List.perm_middle
  | right =>
      rw [nodeAt, items_node]
      exact List.perm_middle.trans (List.perm_append_comm.cons x.item)

theorem items_plug_perm (t : Rblist ι) (path : Path (Linked ι)) :
    (items (plug t path)).Perm (items t ++ others path) := by
  induction path generalizing t with
  | nil => exact List.append_nil _ ▸ List.Perm.refl _
  | cons c path ih =>
      rw [plug, Crumb.fill_eq]
      refine (ih _).trans (((items_nodeAt_perm _ _ _ _).append_right _).trans ?_)
      rw [others, List.cons_append, List.append_assoc]
      exact List.perm_middle.symm

/-- The links of a subtree below this parent. -/
def Shape (heap : ι → Option (Rblink ι)) (parent : Option ι) : Rblist ι → Prop
  | .nil => True
  | .node l x r => heap x.item = some ⟨parent, root l, root r, x.red⟩ ∧
      Shape heap (some x.item) l ∧ Shape heap (some x.item) r

/-- The links around a place, with this item there. -/
def Around (heap : ι → Option (Rblink ι)) (child : Option ι) : Path (Linked ι) → Prop
  | [] => True
  | c :: path =>
      heap c.item.item = some (linkAt c.side (above path) child (root c.sibling) c.item.red) ∧
        Shape heap (some c.item.item) c.sibling ∧ Around heap (some c.item.item) path

section Shape

variable {heap heap' : ι → Option (Rblink ι)}

theorem shape_nodeAt {parent : Option ι} {side : Side} {near far : Rblist ι} {x : Linked ι} :
    Shape heap parent (nodeAt side near x far) ↔
      heap x.item = some (linkAt side parent (root near) (root far) x.red) ∧
        Shape heap (some x.item) near ∧ Shape heap (some x.item) far := by
  cases side with
  | left => exact Iff.rfl
  | right => exact and_congr_right fun _ => and_comm

theorem Shape.congr {parent : Option ι} {t : Rblist ι} (shape : Shape heap parent t)
    (same : ∀ z ∈ items t, heap' z = heap z) : Shape heap' parent t := by
  induction t generalizing parent with
  | nil => trivial
  | node l x r ihl ihr =>
      rw [items_node] at same
      refine ⟨?_, ihl shape.2.1 fun z member => ?_, ihr shape.2.2 fun z member => ?_⟩
      · rw [same x.item (List.mem_append_right _ (List.mem_cons_self ..))]
        exact shape.1
      · exact same z (List.mem_append_left _ member)
      · exact same z (List.mem_append_right _ (List.mem_cons_of_mem _ member))

theorem Around.congr {child : Option ι} {path : Path (Linked ι)} (around : Around heap child path)
    (same : ∀ z ∈ others path, heap' z = heap z) : Around heap' child path := by
  induction path generalizing child with
  | nil => trivial
  | cons c path ih =>
      rw [others, List.forall_mem_cons] at same
      refine ⟨?_, around.2.1.congr fun z member => ?_, ih around.2.2 fun z member => ?_⟩
      · rw [same.1]
        exact around.1
      · exact same.2 z (List.mem_append_left _ member)
      · exact same.2 z (List.mem_append_right _ member)

end Shape

/-- The links make this tree. -/
structure Holds (s : State ι) (t : Rblist ι) : Prop where
  head : s.head = root t
  shape : Shape s.heap none t
  nodup : (items t).Nodup
  allocated : ∀ z, (s.heap z).isSome

end Bacula.Rblist
