import Mathlib

/-!
# Binary trees and paths to the root

A place in a tree is a subtree with the path that leads up to the root. The items of the
whole tree are those before the place, those of the subtree, and those after it.
-/
namespace Zipper

variable {α : Type}

inductive BinTree (α : Type) where
  | nil
  | node (left : BinTree α) (item : α) (right : BinTree α)

namespace BinTree

def inorder : BinTree α → List α
  | nil => []
  | node left item right => left.inorder ++ item :: right.inorder

def isNil : BinTree α → Bool
  | nil => true
  | node _ _ _ => false

@[simp] theorem inorder_nil : (nil : BinTree α).inorder = [] := rfl

@[simp] theorem inorder_node (l r : BinTree α) (a : α) :
    (node l a r).inorder = l.inorder ++ a :: r.inorder := rfl

end BinTree

inductive Side where
  | left
  | right
  deriving DecidableEq

def Side.other : Side → Side
  | .left => .right
  | .right => .left

/-- One step of a path: the parent, on which side of it the subtree hangs, and what hangs
on its other side. -/
structure Crumb (α : Type) where
  side : Side
  item : α
  sibling : BinTree α

/-- The parent comes first, the root last. -/
abbrev Path (α : Type) := List (Crumb α)

def Crumb.fill (c : Crumb α) (t : BinTree α) : BinTree α :=
  match c.side with
  | .left => .node t c.item c.sibling
  | .right => .node c.sibling c.item t

/-- A node with its subtrees on this side and on the other. -/
def BinTree.nodeAt (side : Side) (near : BinTree α) (a : α) (far : BinTree α) : BinTree α :=
  match side with
  | .left => .node near a far
  | .right => .node far a near

theorem Crumb.fill_eq (c : Crumb α) (t : BinTree α) :
    c.fill t = BinTree.nodeAt c.side t c.item c.sibling := by
  unfold Crumb.fill BinTree.nodeAt
  cases c.side <;> rfl

/-- The whole tree. -/
def plug (t : BinTree α) : Path α → BinTree α
  | [] => t
  | c :: path => plug (c.fill t) path

def Crumb.before (c : Crumb α) : List α :=
  match c.side with
  | .left => []
  | .right => c.sibling.inorder ++ [c.item]

def Crumb.after (c : Crumb α) : List α :=
  match c.side with
  | .left => c.item :: c.sibling.inorder
  | .right => []

def before : Path α → List α
  | [] => []
  | c :: path => before path ++ c.before

def after : Path α → List α
  | [] => []
  | c :: path => c.after ++ after path

theorem inorder_fill (c : Crumb α) (t : BinTree α) :
    (c.fill t).inorder = c.before ++ t.inorder ++ c.after := by
  obtain ⟨side, item, sibling⟩ := c
  cases side <;> simp [Crumb.fill, Crumb.before, Crumb.after]

theorem inorder_plug (t : BinTree α) (path : Path α) :
    (plug t path).inorder = before path ++ t.inorder ++ after path := by
  induction path generalizing t with
  | nil => simp [plug, before, after]
  | cons c path ih => simp only [plug, ih, inorder_fill, before, after, List.append_assoc]

/-- A node with its path. -/
structure Place (α : Type) where
  left : BinTree α
  item : α
  right : BinTree α
  path : Path α

namespace Place

def subtree (p : Place α) : BinTree α := .node p.left p.item p.right

def tree (p : Place α) : BinTree α := plug p.subtree p.path

/-- What comes before the item of the place, and what comes after it. -/
def earlier (p : Place α) : List α := before p.path ++ p.left.inorder

def later (p : Place α) : List α := p.right.inorder ++ after p.path

def set (p : Place α) (item : α) : Place α := { p with item }

theorem inorder_tree (p : Place α) : p.tree.inorder = p.earlier ++ p.item :: p.later := by
  simp [tree, subtree, inorder_plug, earlier, later]

/-- The place of the first item of a subtree. -/
def leftmost : BinTree α → α → BinTree α → Path α → Place α
  | .nil, a, r, path => ⟨.nil, a, r, path⟩
  | .node ll b lr, a, r, path => leftmost ll b lr (⟨.left, a, r⟩ :: path)

theorem leftmost_left (l : BinTree α) (a : α) (r : BinTree α) (path : Path α) :
    (leftmost l a r path).left = .nil := by
  induction l generalizing a r path with
  | nil => rfl
  | node ll b lr ihl ihr => exact ihl _ _ _

theorem leftmost_items (l : BinTree α) (a : α) (r : BinTree α) (path : Path α) :
    (leftmost l a r path).item :: (leftmost l a r path).later =
      l.inorder ++ a :: (r.inorder ++ after path) := by
  induction l generalizing a r path with
  | nil => rfl
  | node ll b lr ihl ihr =>
      rw [leftmost, ihl]
      simp [after, Crumb.after]

/-- The nearest ancestor that is reached from its left side. -/
def climb (t : BinTree α) : Path α → Option (Place α)
  | [] => none
  | ⟨.left, a, r⟩ :: path => some ⟨t, a, r, path⟩
  | ⟨.right, a, l⟩ :: path => climb (.node l a t) path

theorem climb_items (t : BinTree α) (path : Path α) :
    after path = match climb t path with
      | none => []
      | some p => p.item :: p.later := by
  induction path generalizing t with
  | nil => rfl
  | cons c path ih =>
      obtain ⟨side, a, sibling⟩ := c
      cases side with
      | left => simp [climb, after, Crumb.after, later]
      | right => simpa [climb, after, Crumb.after] using ih (.node sibling a t)

end Place

end Zipper
