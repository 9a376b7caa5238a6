import Bacula.Library.Zipper

/-! The red-black tree of `lib/rblist.c`. The link of an item is its place in the tree, so
going to the parent is going up the path; `compare` is given by the sign of its result. -/
namespace Bacula
open Zipper

/-- An item with the colour in its link. -/
structure Linked (α : Type) where
  red : Bool
  item : α

/-- `set_red`. -/
def Linked.setRed {α : Type} (x : Linked α) (red : Bool) : Linked α := { x with red }

abbrev Rblist (α : Type) := BinTree (Linked α)

namespace Rblist

variable {α : Type}

def items (t : Rblist α) : List α := t.inorder.map Linked.item

def setRed (red : Bool) : Rblist α → Rblist α
  | .nil => .nil
  | .node l x r => .node l (x.setRed red) r

def leftRotate : Rblist α → Rblist α
  | .node a x (.node b y c) => .node (.node a x b) y c
  | t => t

def rightRotate : Rblist α → Rblist α
  | .node (.node a x b) y c => .node a x (.node b y c)
  | t => t

/-- The way down in `insert` and `search`. -/
inductive Descent (α : Type) where
  | found (place : Place (Linked α))
  | leaf (path : Path (Linked α))

def descend (compare : α → α → Ordering) (item : α) : Rblist α → Path (Linked α) → Descent α
  | .nil, path => .leaf path
  | .node l x r, path =>
      match compare item x.item with
      | .lt => descend compare item l (⟨.left, x, r⟩ :: path)
      | .gt => descend compare item r (⟨.right, x, l⟩ :: path)
      | .eq => .found ⟨l, x, r, path⟩

/-- `y && red(y)`. -/
def isRed : Rblist α → Bool
  | .nil => false
  | .node _ y _ => y.red

def setRedAbove (red : Bool) (c : Crumb (Linked α)) : Crumb (Linked α) :=
  { c with item := c.item.setRed red }

/-- The rotations in `insert`. An inner `x` is brought to the outer side first, then the
item above it becomes black and moves up in the place of the red grandparent. -/
def rotateUp (t : Rblist α) (parent grandpa : Crumb (Linked α)) : Rblist α :=
  match grandpa.side with
  | .left =>
      let below := match parent.side with
        | .right => leftRotate (parent.fill t)
        | .left => parent.fill t
      rightRotate ((setRedAbove true grandpa).fill (setRed false below))
  | .right =>
      let below := match parent.side with
        | .left => rightRotate (parent.fill t)
        | .right => parent.fill t
      leftRotate ((setRedAbove true grandpa).fill (setRed false below))

/-- The way up in `insert`: the tree after the loop, with a black head. `t` is the subtree
of `x`. The head is black, so a red parent has a parent. -/
def rebalance (t : Rblist α) : Path (Linked α) → Rblist α
  | [] => setRed false t
  | [head] => setRed false (head.fill t)
  | parent :: grandpa :: path =>
      if parent.item.red then
        if isRed grandpa.sibling then
          let grandpa := { setRedAbove true grandpa with sibling := setRed false grandpa.sibling }
          rebalance (grandpa.fill ((setRedAbove false parent).fill t)) path
        else setRed false (plug (rotateUp t parent grandpa) path)
      else setRed false (plug t (parent :: grandpa :: path))

/-- Results of `insert`: the place of an item that compares equal, or the new tree. -/
inductive Inserted (α : Type) where
  | found (place : Place (Linked α))
  | inserted (tree : Rblist α)

/-- `rblist::insert`. The new item is black, and the item above it becomes red. -/
def insert (compare : α → α → Ordering) (item : α) (t : Rblist α) : Inserted α :=
  match descend compare item t [] with
  | .found place => .found place
  | .leaf [] => .inserted (.node .nil ⟨false, item⟩ .nil)
  | .leaf (last :: path) =>
      .inserted (rebalance ((setRedAbove true last).fill (.node .nil ⟨false, item⟩ .nil)) path)

/-- `rblist::search`. -/
def search (compare : α → α → Ordering) (item : α) (t : Rblist α) : Option (Place (Linked α)) :=
  match descend compare item t [] with
  | .found place => some place
  | .leaf _ => none

/-- The item is changed through the pointer to it. -/
def write (place : Place (Linked α)) (item : α) : Rblist α :=
  (place.set { place.item with item }).tree

/-- `rblist::first`, with the flag `down` of the list. -/
def first : Rblist α → Option (Place (Linked α))
  | .nil => none
  | .node l x r => some (Place.leftmost l x r [])

/-- `rblist::next`: the next place and the flag `down`. -/
def next (down : Bool) (x : Place (Linked α)) : Option (Place (Linked α)) × Bool :=
  match x.right with
  | .node l y r =>
      if down && x.left.isNil || !down then
        (some (Place.leftmost l y r (⟨.right, x.item, x.left⟩ :: x.path)), true)
      else (Place.climb x.subtree x.path, down && x.path.isEmpty)
  | .nil => (Place.climb x.subtree x.path, down && x.path.isEmpty)

/-- `foreach_rblist` from some item on. -/
def walk : ℕ → Option (Place (Linked α)) × Bool → List α
  | 0, _ => []
  | _ + 1, (none, _) => []
  | n + 1, (some x, down) => x.item.item :: walk n (next down x)

/-- `foreach_rblist`; there are as many steps as items. -/
def foreach (t : Rblist α) : List α := walk t.inorder.length (first t, true)

theorem items_plug (t : Rblist α) (path : Path (Linked α)) :
    items (plug t path) = (before path).map Linked.item ++ items t ++
      (after path).map Linked.item := by
  simp only [items, inorder_plug, List.map_append]

@[simp] theorem items_node (l r : Rblist α) (x : Linked α) :
    items (.node l x r) = items l ++ x.item :: items r := by
  simp [items]

@[simp] theorem setRed_item (x : Linked α) (red : Bool) : (x.setRed red).item = x.item := rfl

@[simp] theorem items_setRed (red : Bool) (t : Rblist α) : items (setRed red t) = items t := by
  cases t <;> simp [setRed]

@[simp] theorem items_leftRotate (t : Rblist α) : items (leftRotate t) = items t := by
  unfold leftRotate
  split <;> simp

@[simp] theorem items_rightRotate (t : Rblist α) : items (rightRotate t) = items t := by
  unfold rightRotate
  split <;> simp

/-- Colours are not seen in the sequence of the items. -/
theorem items_fill_congr {t u : Rblist α} {c d : Crumb (Linked α)} (side : c.side = d.side)
    (item : c.item.item = d.item.item) (sibling : items c.sibling = items d.sibling)
    (below : items t = items u) : items (c.fill t) = items (d.fill u) := by
  unfold Crumb.fill
  rw [side]
  cases d.side <;> simp [item, sibling, below]

theorem items_plug_congr {t u : Rblist α} (same : items t = items u) (path : Path (Linked α)) :
    items (plug t path) = items (plug u path) := by
  rw [items_plug, items_plug, same]

theorem items_rotateUp (t : Rblist α) (parent grandpa : Crumb (Linked α)) :
    items (rotateUp t parent grandpa) = items (grandpa.fill (parent.fill t)) := by
  unfold rotateUp
  cases outer : grandpa.side with
  | left =>
      rw [items_rightRotate]
      refine items_fill_congr (d := grandpa) rfl rfl rfl ?_
      rw [items_setRed]
      cases parent.side with
      | left => rfl
      | right => exact items_leftRotate _
  | right =>
      rw [items_leftRotate]
      refine items_fill_congr (d := grandpa) rfl rfl rfl ?_
      rw [items_setRed]
      cases parent.side with
      | left => exact items_rightRotate _
      | right => rfl

/-- The way up keeps the items in their order. -/
theorem items_rebalance (t : Rblist α) (path : Path (Linked α)) :
    items (rebalance t path) = items (plug t path) := by
  induction t, path using rebalance.induct with
  | case1 t => rw [rebalance, items_setRed, plug]
  | case2 t head => rw [rebalance, items_setRed, plug, plug]
  | case3 t parent grandpa path red uncle grandpa' ih =>
      rw [rebalance, if_pos red, if_pos uncle]
      refine ih.trans (items_plug_congr ?_ path)
      exact items_fill_congr rfl rfl (items_setRed false _) (items_fill_congr rfl rfl rfl rfl)
  | case4 t parent grandpa path red uncle =>
      rw [rebalance, if_pos red, if_neg uncle, items_setRed]
      exact items_plug_congr (items_rotateUp t parent grandpa) path
  | case5 t parent grandpa path black => rw [rebalance, if_neg black, items_setRed]

theorem items_write (place : Place (Linked α)) (item : α) :
    items (write place item) = place.earlier.map Linked.item ++ item ::
      place.later.map Linked.item := by
  simp only [items, write, Place.inorder_tree, List.map_append, List.map_cons]
  rfl

/-- The way down leads to a place in the same tree. -/
theorem descend_cases (compare : α → α → Ordering) (item : α) (t : Rblist α)
    (path : Path (Linked α)) :
    (∃ place, descend compare item t path = .found place ∧ place.tree = plug t path ∧
      compare item place.item.item = .eq) ∨
    (∃ up, descend compare item t path = .leaf up ∧ plug .nil up = plug t path) := by
  induction t generalizing path with
  | nil => exact Or.inr ⟨path, rfl, rfl⟩
  | node l x r ihl ihr =>
      cases order : compare item x.item with
      | lt =>
          simp only [descend, order]
          exact ihl (⟨.left, x, r⟩ :: path)
      | gt =>
          simp only [descend, order]
          exact ihr (⟨.right, x, l⟩ :: path)
      | eq => exact Or.inl ⟨⟨l, x, r, path⟩, by simp only [descend, order], rfl, order⟩

theorem items_place (place : Place (Linked α)) :
    items place.tree = place.earlier.map Linked.item ++ place.item.item ::
      place.later.map Linked.item := by
  simp only [items, Place.inorder_tree, List.map_append, List.map_cons]

theorem search_eq_some {compare : α → α → Ordering} {item : α} {t : Rblist α}
    {place : Place (Linked α)} (found : search compare item t = some place) :
    place.tree = t ∧ compare item place.item.item = .eq := by
  unfold search at found
  rcases descend_cases compare item t [] with ⟨p, result, same, equal⟩ | ⟨up, result, -⟩
  · rw [result, Option.some_inj] at found
    exact found ▸ ⟨same, equal⟩
  · rw [result] at found
    cases found

/-- `insert` looks for the item as `search` does. -/
theorem insert_of_search_some {compare : α → α → Ordering} {item : α} {t : Rblist α}
    {place : Place (Linked α)} (found : search compare item t = some place) :
    insert compare item t = .found place := by
  unfold search at found
  unfold insert
  split at found
  · rename_i result
    rw [result, Option.some_inj.mp found]
  · cases found

theorem items_leaf {t : Rblist α} {up : Path (Linked α)} (same : plug .nil up = t) :
    items t = (before up).map Linked.item ++ (after up).map Linked.item := by
  rw [← same, items_plug]
  exact congrArg (· ++ _) (List.append_nil _)

/-- A new item goes where the way down ends. -/
theorem insert_of_leaf {compare : α → α → Ordering} {item : α} {t : Rblist α}
    {up : Path (Linked α)} (result : descend compare item t [] = .leaf up) :
    ∃ u, insert compare item t = .inserted u ∧
      items u = (before up).map Linked.item ++ item :: (after up).map Linked.item := by
  unfold insert
  rw [result]
  have single : items (.node .nil ⟨false, item⟩ .nil) = [item] := rfl
  cases up with
  | nil => exact ⟨_, rfl, single⟩
  | cons last path =>
      refine ⟨_, rfl, ?_⟩
      have coloured (t : Rblist α) : items ((setRedAbove true last).fill t) = items (last.fill t) :=
        items_fill_congr rfl rfl rfl rfl
      rw [items_rebalance, items_plug_congr (coloured _), ← plug, items_plug, single,
        List.append_assoc]
      rfl

/-- A new item goes between the items that are there. -/
theorem insert_of_search_none {compare : α → α → Ordering} {item : α} {t : Rblist α}
    (absent : search compare item t = none) :
    ∃ u pre post, insert compare item t = .inserted u ∧ items t = pre ++ post ∧
      items u = pre ++ item :: post := by
  unfold search at absent
  rcases descend_cases compare item t [] with ⟨p, result, -⟩ | ⟨up, result, same⟩
  · rw [result] at absent
    cases absent
  · obtain ⟨u, inserted, now⟩ := insert_of_leaf result
    exact ⟨u, _, _, inserted, items_leaf same, now⟩

section Sorted
variable (compare : α → α → Ordering)

/-- Strictly ascending, so no two items compare equal. -/
def Sorted (t : Rblist α) : Prop := (items t).Pairwise fun a b => compare a b = .lt

variable [Std.TransCmp compare] {compare}

/-- In a sorted tree the way down leaves the smaller items on its left and the larger ones
on its right. -/
theorem Sorted.descend_leaf {item : α} {t : Rblist α} (sorted : Sorted compare t)
    {path up : Path (Linked α)} (small : ∀ a ∈ before path, compare a.item item = .lt)
    (large : ∀ a ∈ after path, compare item a.item = .lt)
    (result : descend compare item t path = .leaf up) :
    (∀ a ∈ before up, compare a.item item = .lt) ∧ ∀ a ∈ after up, compare item a.item = .lt := by
  induction t generalizing path with
  | nil =>
      cases result
      exact ⟨small, large⟩
  | node l x r ihl ihr =>
      rw [Sorted, items_node] at sorted
      obtain ⟨sortedL, sortedXR, across⟩ := List.pairwise_append.mp sorted
      obtain ⟨above, sortedR⟩ := List.pairwise_cons.mp sortedXR
      cases order : compare item x.item with
      | lt =>
          simp only [descend, order] at result
          refine ihl sortedL (by simpa [before, Crumb.before] using small) ?_ result
          intro a ha
          rcases List.mem_append.mp ha with here | there
          · rcases List.mem_cons.mp here with rfl | right
            · exact order
            · exact Std.TransCmp.lt_trans order (above a.item (List.mem_map_of_mem right))
          · exact large a there
      | gt =>
          simp only [descend, order] at result
          have order' : compare x.item item = .lt := Std.OrientedCmp.gt_iff_lt.mp order
          refine ihr sortedR ?_ (by simpa [after, Crumb.after] using large) result
          intro a ha
          rcases List.mem_append.mp ha with there | here
          · exact small a there
          · rcases List.mem_append.mp here with left | here
            · exact Std.TransCmp.lt_trans
                (across a.item (List.mem_map_of_mem left) x.item List.mem_cons_self) order'
            · rw [List.mem_singleton.mp here]
              exact order'
      | eq => simp [descend, order] at result

/-- A sorted tree has the wanted item, or the item can be inserted in its place. -/
theorem Sorted.search_cases {t : Rblist α} (sorted : Sorted compare t) (item : α) :
    (∃ place, search compare item t = some place) ∨
    (∃ u pre post, search compare item t = none ∧ insert compare item t = .inserted u ∧
      items t = pre ++ post ∧ items u = pre ++ item :: post ∧
      (∀ a ∈ pre, compare a item = .lt) ∧ ∀ b ∈ post, compare item b = .lt) := by
  rcases descend_cases compare item t [] with ⟨p, result, -⟩ | ⟨up, result, same⟩
  · exact Or.inl ⟨p, by rw [search, result]⟩
  · obtain ⟨u, inserted, now⟩ := insert_of_leaf result
    obtain ⟨small, large⟩ := sorted.descend_leaf (by simp [before]) (by simp [after]) result
    refine Or.inr ⟨u, _, _, by rw [search, result], inserted, items_leaf same, now, ?_, ?_⟩
    · simpa using small
    · simpa using large

theorem Sorted.insert {t u : Rblist α} (sorted : Sorted compare t) {item : α}
    (inserted : Rblist.insert compare item t = .inserted u) : Sorted compare u := by
  rcases sorted.search_cases item
    with ⟨place, found⟩ | ⟨u', pre, post, -, result, old, now, small, large⟩
  · rw [insert_of_search_some found] at inserted
    cases inserted
  · rw [result] at inserted
    cases inserted
    rw [Sorted, old] at sorted
    obtain ⟨sortedPre, sortedPost, across⟩ := List.pairwise_append.mp sorted
    rw [Sorted, now]
    refine List.pairwise_append.mpr ⟨sortedPre, List.pairwise_cons.mpr ⟨large, sortedPost⟩, ?_⟩
    intro a ha b hb
    rcases List.mem_cons.mp hb with rfl | hb
    · exact small a ha
    · exact across a ha b hb

/-- `search` in a sorted tree finds what is there. -/
theorem Sorted.search_isSome_iff {t : Rblist α} (sorted : Sorted compare t) (item : α) :
    (search compare item t).isSome ↔ ∃ x ∈ items t, compare item x = .eq := by
  constructor
  · intro found
    obtain ⟨place, found⟩ := Option.isSome_iff_exists.mp found
    obtain ⟨rfl, equal⟩ := search_eq_some found
    exact ⟨place.item.item, by rw [items_place]; simp, equal⟩
  · intro ⟨x, member, equal⟩
    rcases sorted.search_cases item with ⟨place, found⟩ | ⟨u, pre, post, -, -, old, -, small, large⟩
    · rw [found]
      rfl
    · rw [old] at member
      rcases List.mem_append.mp member with before | after
      · rw [Std.OrientedCmp.eq_comm, small x before] at equal
        cases equal
      · rw [large x after] at equal
        cases equal

end Sorted

section Foreach

/-- `next` goes down only from an item without a left subtree, or after it came up. -/
def Ready : Option (Place (Linked α)) × Bool → Prop
  | (none, _) => True
  | (some x, down) => down = true → x.left = .nil

/-- The items that a walk has before it. -/
def remaining : Option (Place (Linked α)) → List (Linked α)
  | none => []
  | some x => x.item :: x.later

theorem remaining_climb (x : Place (Linked α)) :
    remaining (Place.climb x.subtree x.path) = after x.path := by
  rw [Place.climb_items x.subtree]
  cases Place.climb x.subtree x.path <;> rfl

theorem ready_climb (x : Place (Linked α)) (down : Bool) :
    Ready (Place.climb x.subtree x.path, down && x.path.isEmpty) := by
  cases path : x.path with
  | nil => trivial
  | cons c rest =>
      cases Place.climb x.subtree (c :: rest) with
      | none => trivial
      | some y => simp [Ready]

theorem next_spec (x : Place (Linked α)) (down : Bool) (ready : Ready (some x, down)) :
    remaining (next down x).1 = x.later ∧ Ready (next down x) := by
  cases right : x.right with
  | nil =>
      simp only [next, right, Place.later]
      exact ⟨remaining_climb x, ready_climb x down⟩
  | node l y r =>
      have downward : (down && x.left.isNil || !down) = true := by
        cases down with
        | false => rfl
        | true => rw [ready rfl]; rfl
      simp only [next, right, Place.later, downward, if_true]
      constructor
      · refine (Place.leftmost_items l y r _).trans ?_
        simp [after, Crumb.after]
      · intro _
        exact Place.leftmost_left l y r _

theorem walk_eq (n : ℕ) (x : Option (Place (Linked α)) × Bool) (ready : Ready x)
    (enough : (remaining x.1).length ≤ n) : walk n x = (remaining x.1).map Linked.item := by
  induction n generalizing x with
  | zero =>
      rw [List.eq_nil_of_length_eq_zero (Nat.le_zero.mp enough)]
      rfl
  | succ n ih =>
      obtain ⟨place, down⟩ := x
      cases place with
      | none => rfl
      | some x =>
          obtain ⟨rest, ready'⟩ := next_spec x down ready
          rw [walk, ih _ ready' (by rw [rest]; exact Nat.le_of_succ_le_succ enough), rest]
          rfl

/-- `foreach_rblist` visits the items in their order. -/
theorem foreach_eq (t : Rblist α) : foreach t = items t := by
  cases t with
  | nil => rfl
  | node l x r =>
      have all : remaining (first (.node l x r)) = (BinTree.node l x r).inorder :=
        (Place.leftmost_items l x r []).trans (by simp [after])
      have ready : Ready (first (.node l x r), true) := fun _ => Place.leftmost_left l x r []
      rw [foreach, walk_eq _ _ ready (by rw [all]), all]
      rfl

end Foreach

end Rblist

end Bacula
