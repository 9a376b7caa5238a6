import Bacula.Lib.RblistShape

/-! The links follow the tree: every operation on the pointers is the operation on the tree that they
make, from the way down of `insert` over its rotations to the black head. -/
namespace Bacula.Rblist
open Zipper Zipper.BinTree

variable {ι : Type}

/-- The links make this subtree at this place. -/
structure At (s : State ι) (t : Rblist ι) (path : Path (Linked ι)) : Prop where
  head : s.head = headOf (root t) path
  shape : Shape s.heap (above path) t
  around : Around s.heap (root t) path
  nodup : (items t ++ others path).Nodup
  allocated : ∀ z, (s.heap z).isSome

theorem at_nil {s : State ι} {t : Rblist ι} : At s t [] ↔ Holds s t := by
  constructor
  · intro here
    exact ⟨here.head, here.shape, by simpa [others] using here.nodup, here.allocated⟩
  · intro holds
    exact ⟨holds.head, holds.shape, trivial, by simpa [others] using holds.nodup, holds.allocated⟩

theorem items_fill_perm (c : Crumb (Linked ι)) (t : Rblist ι) :
    (items (c.fill t)).Perm (items t ++ c.item.item :: items c.sibling) := by
  rw [Crumb.fill_eq]
  exact (items_nodeAt_perm _ _ _ _).trans List.perm_middle.symm

/-- A step up. -/
theorem at_cons {s : State ι} {t : Rblist ι} {c : Crumb (Linked ι)} {path : Path (Linked ι)} :
    At s t (c :: path) ↔ At s (c.fill t) path := by
  have filled : root (c.fill t) = some c.item.item := by rw [Crumb.fill_eq, root_nodeAt]
  have same : (items t ++ others (c :: path)).Nodup ↔ (items (c.fill t) ++ others path).Nodup := by
    apply List.Perm.nodup_iff
    refine List.Perm.trans ?_ ((items_fill_perm c t).append_right _).symm
    simp [others]
  have shapes : Shape s.heap (above path) (c.fill t) ∧ Around s.heap (root (c.fill t)) path ↔
      Shape s.heap (above (c :: path)) t ∧ Around s.heap (root t) (c :: path) := by
    rw [filled, Crumb.fill_eq, shape_nodeAt, Around, above]
    constructor
    · rintro ⟨⟨link, near, far⟩, rest⟩
      exact ⟨near, link, far, rest⟩
    · rintro ⟨near, link, far, rest⟩
      exact ⟨⟨link, near, far⟩, rest⟩
  constructor
  · intro here
    obtain ⟨shape, around⟩ := shapes.mpr ⟨here.shape, here.around⟩
    exact ⟨by rw [filled]; exact here.head, shape, around, same.mp here.nodup, here.allocated⟩
  · intro here
    obtain ⟨shape, around⟩ := shapes.mp ⟨here.shape, here.around⟩
    have head := here.head
    rw [filled] at head
    exact ⟨head, shape, around, same.mpr here.nodup, here.allocated⟩

theorem at_plug {s : State ι} {t : Rblist ι} {path : Path (Linked ι)} :
    At s t path ↔ Holds s (plug t path) := by
  induction path generalizing t with
  | nil => exact at_nil
  | cons c path ih => rw [at_cons, ih, plug]

/-! ## Writes -/

section Writes

variable [DecidableEq ι] {s : State ι}

/-- A write changes one link. -/
theorem write_spec {p : ι} {link : Rblink ι} (here : s.heap p = some link)
    (change : Rblink ι → Rblink ι) (allocated : ∀ z, (s.heap z).isSome) :
    ∃ heap, s.write (some p) change = some { s with heap } ∧ heap p = some (change link) ∧
      (∀ z, z ≠ p → heap z = s.heap z) ∧ ∀ z, (heap z).isSome := by
  refine ⟨Function.update s.heap p (some (change link)), by simp [State.write, here],
    Function.update_self .., fun z other => Function.update_of_ne other _ _, ?_⟩
  intro z
  by_cases same : z = p
  · rw [same, Function.update_self]
    rfl
  · rw [Function.update_of_ne same]
    exact allocated z

/-- A subtree gets another parent. -/
theorem adopt {b : Rblist ι} {before : Option ι} (after : Option ι) (shape : Shape s.heap before b)
    (nodup : (items b).Nodup) (allocated : ∀ z, (s.heap z).isSome) :
    ∃ heap, (∀ rest : State ι → Option (State ι),
        (if (root b).isSome then (s.setParent (root b) after).bind rest else rest s) =
          rest { s with heap }) ∧
      Shape heap after b ∧ (∀ z, z ∉ items b → heap z = s.heap z) ∧ ∀ z, (heap z).isSome := by
  cases b with
  | nil => exact ⟨s.heap, fun _ => rfl, trivial, fun _ _ => rfl, allocated⟩
  | node l x r =>
      obtain ⟨link, left, right⟩ := shape
      rw [items_node] at nodup
      obtain ⟨-, nodupR, apart⟩ := List.nodup_append.mp nodup
      obtain ⟨heap, done, now, frame, allocated'⟩ :=
        write_spec link (fun link => { link with parent := after })
        allocated
      refine ⟨heap, fun rest => ?_, ⟨now, left.congr ?_, right.congr ?_⟩, ?_, allocated'⟩
      · rw [root, if_pos Option.isSome_some, State.setParent, done, Option.bind_some]
      · intro z member
        exact frame z fun same => apart z member x.item List.mem_cons_self same
      · intro z member
        refine frame z fun same => (List.nodup_cons.mp nodupR).1 ?_
        rw [← same]
        exact member
      · intro z other
        refine frame z fun same => other ?_
        rw [items_node, same]
        exact List.mem_append_right _ List.mem_cons_self

/-- Another item takes the place below the path. -/
theorem replaceChild_spec {x y : ι} {link : Rblink ι} {path : Path (Linked ι)}
    (here : s.heap x = some link) (parent : link.parent = above path)
    (around : Around s.heap (some x) path) (head : s.head = headOf (some x) path)
    (nodup : (x :: others path).Nodup) (allocated : ∀ z, (s.heap z).isSome) :
    ∃ heap, s.replaceChild (some x) (some y) = some { s with heap, head := headOf (some y) path } ∧
      Around heap (some y) path ∧ (∀ z, z ∉ others path → heap z = s.heap z) ∧
      ∀ z, (heap z).isSome := by
  cases path with
  | nil =>
      refine ⟨s.heap, ?_, trivial, fun _ _ => rfl, allocated⟩
      simp [State.replaceChild, State.parent, State.link, here, parent, above, headOf]
  | cons c path =>
      obtain ⟨up, sibling, rest⟩ := around
      have free : x ∉ others (c :: path) := (List.nodup_cons.mp nodup).1
      rw [others, List.nodup_cons, List.nodup_cons, List.nodup_append] at nodup
      obtain ⟨-, single, -, -, apart⟩ := nodup
      rw [List.mem_append, not_or] at single
      have stored : s.replaceChild (some x) (some y) =
          s.setChild c.side (some c.item.item) (some y) := by
        unfold State.replaceChild
        cases side : c.side with
        | left =>
            rw [side] at up
            simp [State.parent, State.link, here, parent, above, State.left, State.child, up, linkAt,
              Rblink.child, State.setLeft]
        | right =>
            rw [side] at up
            have other : some x ≠ root c.sibling := by
              intro same
              apply free
              rw [others]
              exact List.mem_cons_of_mem _ (List.mem_append_left _ (root_mem same.symm))
            simp [State.parent, State.link, here, parent, above, State.left, State.child, up, linkAt,
              Rblink.child, State.setRight, other]
      obtain ⟨heap, done, now, frame, allocated'⟩ := write_spec up
        (fun link => link.setChild c.side (some y)) allocated
      rw [linkAt_setChild] at now
      refine ⟨heap, ?_, ⟨now, sibling.congr ?_, rest.congr ?_⟩, ?_, allocated'⟩
      · rw [stored, State.setChild, done]
        simp [headOf, head]
      · intro z member
        refine frame z fun same => single.1 ?_
        rw [← same]
        exact member
      · intro z member
        refine frame z fun same => single.2 ?_
        rw [← same]
        exact member
      · intro z other
        refine frame z fun same => other ?_
        rw [others, same]
        exact List.mem_cons_self

end Writes

/-! ## Rotations -/

section Rotations

variable [DecidableEq ι] {s : State ι}

omit [DecidableEq ι] in
theorem nodup_turn {side : Side} {x y : Linked ι} {a b c : Rblist ι} {path : Path (Linked ι)} :
    (items (nodeAt side a x (nodeAt side b y c)) ++ others path).Nodup ↔
      (x.item :: y.item :: (items a ++ (items b ++ (items c ++ others path)))).Nodup := by
  apply List.Perm.nodup_iff
  refine ((items_nodeAt_perm _ _ _ _).append_right _).trans ?_
  rw [List.cons_append, List.append_assoc]
  refine List.Perm.cons _ ?_
  refine (((items_nodeAt_perm side b c y).append_right (others path)).append_left (items a)).trans ?_
  rw [List.cons_append, List.append_assoc]
  exact List.perm_middle

theorem rotate_spec {side : Side} {x y : Linked ι} {a b c : Rblist ι} {path : Path (Linked ι)}
    (here : At s (nodeAt side a x (nodeAt side b y c)) path) :
    ∃ heap head, s.rotate side (some x.item) = some { s with heap, head } ∧
      At { s with heap, head } (nodeAt side (nodeAt side a x b) y c) path := by
  obtain ⟨head, shape, around, nodup, allocated⟩ := here
  rw [root_nodeAt] at head around
  rw [shape_nodeAt, shape_nodeAt, root_nodeAt] at shape
  obtain ⟨linkX, shapeA, linkY, shapeB, shapeC⟩ := shape
  have whole := nodup
  rw [nodup_turn] at nodup
  simp only [List.nodup_cons, List.mem_cons, List.mem_append, not_or, List.nodup_append] at nodup
  obtain ⟨⟨xy, xa, xb, xc, xo⟩, ⟨ya, yb, yc, yo⟩, -, ⟨nodupB, ⟨-, nodupO, co⟩, bco⟩, abco⟩ := nodup
  have childX : s.child side.other (some x.item) = some (some y.item) := by
    simp [State.child, State.link, linkX]
  have childY : s.child side (some y.item) = some (root b) := by simp [State.child, State.link, linkY]
  -- the inner subtree goes below `x`
  obtain ⟨heap1, first, linkX1, frame1, allocated1⟩ := write_spec linkX
    (fun link => link.setChild side.other (root b)) allocated
  rw [linkAt_setChild_other] at linkX1
  have linkY1 : heap1 y.item = some (linkAt side (some x.item) (root b) (root c) y.red) := by
    rw [frame1 _ (Ne.symm xy), linkY]
  have childY1 : State.child side { s with heap := heap1 } (some y.item) = some (root b) := by
    simp [State.child, State.link, linkY1]
  have shapeB1 : Shape heap1 (some y.item) b := by
    refine shapeB.congr fun z member => frame1 z fun same => xb ?_
    rw [← same]
    exact member
  obtain ⟨heap2, second, shapeB2, frame2, allocated2⟩ := adopt (s := { s with heap := heap1 })
    (some x.item) shapeB1 nodupB allocated1
  dsimp only at frame2
  have linkX2 : heap2 x.item = some (linkAt side (above path) (root a) (root b) x.red) := by
    rw [frame2 _ xb, linkX1]
  have linkY2 : heap2 y.item = some (linkAt side (some x.item) (root b) (root c) y.red) := by
    rw [frame2 _ yb, linkY1]
  -- `y` takes the place of `x`
  have parentX : State.parent { s with heap := heap2 } (some x.item) = some (above path) := by
    simp [State.parent, State.link, linkX2]
  obtain ⟨heap3, third, linkY3, frame3, allocated3⟩ := write_spec (s := { s with heap := heap2 }) linkY2
    (fun link => { link with parent := above path }) allocated2
  dsimp only at frame3
  rw [linkAt_setParent] at linkY3
  have linkX3 : heap3 x.item = some (linkAt side (above path) (root a) (root b) x.red) := by
    rw [frame3 _ xy, linkX2]
  have early : ∀ z, z ≠ x.item → z ≠ y.item → z ∉ items b → heap3 z = s.heap z := by
    intro z notX notY notB
    rw [frame3 z notY, frame2 z notB, frame1 z notX]
  have away {z : ι} {p : ι} {l : List ι} (member : z ∈ l) (free : p ∉ l) : z ≠ p := by
    intro same
    rw [same] at member
    exact free member
  have around3 : Around heap3 (some x.item) path :=
    around.congr fun z member => early z (away member xo) (away member yo)
      fun inside => bco z inside z (Or.inr member) rfl
  obtain ⟨heap4, fourth, around4, frame4, allocated4⟩ :=
    replaceChild_spec (s := { s with heap := heap3 })
    (y := y.item) linkX3 (linkAt_parent ..) around3 head (List.nodup_cons.mpr ⟨xo, nodupO⟩) allocated3
  dsimp only at frame4 fourth
  have linkX4 : heap4 x.item = some (linkAt side (above path) (root a) (root b) x.red) := by
    rw [frame4 _ xo, linkX3]
  have linkY4 : heap4 y.item = some (linkAt side (above path) (root b) (root c) y.red) := by
    rw [frame4 _ yo, linkY3]
  -- `x` goes below `y`
  obtain ⟨heap5, fifth, linkY5, frame5, allocated5⟩ := write_spec
    (s := { s with heap := heap4, head := headOf (some y.item) path }) linkY4
    (fun link => link.setChild side (some x.item)) allocated4
  dsimp only at frame5
  rw [linkAt_setChild] at linkY5
  have linkX5 : heap5 x.item = some (linkAt side (above path) (root a) (root b) x.red) := by
    rw [frame5 _ xy, linkX4]
  obtain ⟨heap6, sixth, linkX6, frame6, allocated6⟩ := write_spec
    (s := { s with heap := heap5, head := headOf (some y.item) path }) linkX5
    (fun link => { link with parent := some y.item }) allocated5
  dsimp only at frame6
  rw [linkAt_setParent] at linkX6
  have linkY6 : heap6 y.item = some (linkAt side (above path) (some x.item) (root c) y.red) := by
    rw [frame6 _ (Ne.symm xy), linkY5]
  have late : ∀ z, z ≠ x.item → z ≠ y.item → heap6 z = heap4 z := by
    intro z notX notY
    rw [frame6 z notX, frame5 z notY]
  have kept : ∀ z, z ≠ x.item → z ≠ y.item → z ∉ items b → z ∉ others path → heap6 z = s.heap z := by
    intro z notX notY notB notO
    rw [late z notX notY, frame4 z notO, early z notX notY notB]
  refine ⟨heap6, headOf (some y.item) path, ?_, ?_, ?_, ?_, ?_, allocated6⟩
  · unfold State.rotate
    simp only [Option.bind_eq_bind, childX, childY, Option.bind_some, State.setChild, first, childY1]
    rw [second]
    simp only [Option.bind_some, parentX, State.setParent, third, fourth, fifth, sixth]
  · rw [root_nodeAt]
  · rw [shape_nodeAt, shape_nodeAt, root_nodeAt]
    refine ⟨linkY6, ⟨linkX6, ?_, ?_⟩, ?_⟩
    · refine shapeA.congr fun z member => kept z (away member xa) (away member ya) ?_ ?_
      · exact fun inside => abco z member z (Or.inl inside) rfl
      · exact fun inside => abco z member z (Or.inr (Or.inr inside)) rfl
    · refine shapeB2.congr fun z member => ?_
      have notO : z ∉ others path := fun inside => bco z member z (Or.inr inside) rfl
      exact (late z (away member xb) (away member yb)).trans
        ((frame4 z notO).trans (frame3 z (away member yb)))
    · refine shapeC.congr fun z member => kept z (away member xc) (away member yc) ?_ ?_
      · exact fun inside => bco z inside z (Or.inl member) rfl
      · exact fun inside => co z member z inside rfl
  · rw [root_nodeAt]
    exact around4.congr fun z member => late z (away member xo) (away member yo)
  · refine (List.Perm.nodup_iff (List.Perm.append_right _ ?_)).mp whole
    cases side <;> simp [nodeAt]

end Rotations

/-! ## Reads and colours -/

section Reads

variable {s : State ι} {t l r : Rblist ι} {x : Linked ι} {c : Crumb (Linked ι)} {path : Path (Linked ι)}

theorem At.parent (here : At s (.node l x r) path) : s.parent (some x.item) = some (above path) := by
  simp [State.parent, State.link, here.shape.1]

theorem At.child (here : At s t (c :: path)) : s.child c.side (some c.item.item) = some (root t) := by
  simp [State.child, State.link, here.around.1]

theorem At.sibling (here : At s t (c :: path)) :
    s.child c.side.other (some c.item.item) = some (root c.sibling) := by
  simp [State.child, State.link, here.around.1]

theorem At.parentAbove (here : At s t (c :: path)) :
    s.parent (some c.item.item) = some (above path) := by
  simp [State.parent, State.link, here.around.1]

theorem At.redAbove (here : At s t (c :: path)) : s.red (some c.item.item) = some c.item.red := by
  simp [State.red, State.link, here.around.1]

theorem headOf_mem {child head : ι} (there : headOf (some child) path = some head) :
    head = child ∨ head ∈ others path := by
  induction path generalizing child with
  | nil => exact Or.inl (Option.some_inj.mp there).symm
  | cons c path ih =>
      rw [others]
      rcases ih there with same | inside
      · exact Or.inr (same ▸ List.mem_cons_self)
      · exact Or.inr (List.mem_cons_of_mem _ (List.mem_append_right _ inside))

/-- An item below another one is not the head. -/
theorem At.notHead (here : At s t (c :: path)) {z : ι} (member : z ∈ items t) : some z ≠ s.head := by
  intro same
  have head := here.head
  rw [headOf, ← same] at head
  have apart := (List.nodup_append.mp here.nodup).2.2
  rw [others] at apart
  rcases headOf_mem head.symm with atCrumb | inside
  · exact apart z member c.item.item List.mem_cons_self atCrumb
  · exact apart z member z (List.mem_cons_of_mem _ (List.mem_append_right _ inside)) rfl

variable [DecidableEq ι]

theorem setRed_spec (red : Bool) (here : At s (.node l x r) path) :
    ∃ heap, s.setRed (some x.item) red = some { s with heap } ∧
      At { s with heap } (.node l (x.setRed red) r) path := by
  obtain ⟨head, ⟨link, left, right⟩, around, nodup, allocated⟩ := here
  obtain ⟨heap, done, now, frame, allocated'⟩ :=
    write_spec link (fun link => { link with red }) allocated
  have free : x.item ∉ items l ∧ x.item ∉ items r ∧ x.item ∉ others path := by
    have single := List.perm_middle.nodup_iff.mp (by simpa using nodup)
    simpa using (List.nodup_cons.mp single).1
  have away {z : ι} {l : List ι} (member : z ∈ l) (free : x.item ∉ l) : heap z = s.heap z := by
    refine frame z fun same => free ?_
    rw [← same]
    exact member
  refine ⟨heap, done, head, ⟨now, ?_, ?_⟩, ?_, ?_, allocated'⟩
  · exact left.congr fun z member => away member free.1
  · exact right.congr fun z member => away member free.2.1
  · exact around.congr fun z member => away member free.2.2
  · simpa using nodup

omit [DecidableEq ι] in
theorem fill_node (c : Crumb (Linked ι)) (t : Rblist ι) :
    ∃ l r, ∀ x, ({ c with item := x } : Crumb (Linked ι)).fill t = .node l x r := by
  obtain ⟨side, item, sibling⟩ := c
  cases side with
  | left => exact ⟨t, sibling, fun _ => rfl⟩
  | right => exact ⟨sibling, t, fun _ => rfl⟩

theorem setRedAbove_spec (red : Bool) (here : At s t (c :: path)) :
    ∃ heap, s.setRed (some c.item.item) red = some { s with heap } ∧
      At { s with heap } t (setRedAbove red c :: path) := by
  obtain ⟨l, r, shown⟩ := fill_node c t
  rw [at_cons, show c.fill t = .node l c.item r from shown c.item] at here
  obtain ⟨heap, done, now⟩ := setRed_spec red here
  refine ⟨heap, done, at_cons.mpr ?_⟩
  rw [setRedAbove, shown]
  exact now

end Reads

/-! ## The way up -/

section Balance

variable [DecidableEq ι] {s : State ι}

omit [DecidableEq ι] in
theorem nodeAt_other (side : Side) (a b : Rblist ι) (x : Linked ι) :
    nodeAt side.other b x a = nodeAt side a x b := by
  cases side <;> rfl

/-- The parent becomes black and takes the place of the grandparent. -/
def turned (side : Side) (t : Rblist ι) (parent : Linked ι) (sibling : Rblist ι) (grandpa : Linked ι)
    (uncle : Rblist ι) : Rblist ι :=
  nodeAt side t (parent.setRed false) (nodeAt side sibling (grandpa.setRed true) uncle)

theorem outer_spec {side : Side} {t sibling uncle : Rblist ι} {x : ι} {parent grandpa : Linked ι}
    {path : Path (Linked ι)} (here : At s t (⟨side, parent, sibling⟩ :: ⟨side, grandpa, uncle⟩ :: path))
    (top : root t = some x) :
    ∃ heap head, (do
        let s ← s.setRed (← s.parent (some x)) false
        let s ← s.setRed (← s.parent (← s.parent (some x))) true
        let s ← s.rotate side.other (← s.parent (← s.parent (some x)))
        some (some x, s)) = some (some x, { s with heap, head }) ∧
      At { s with heap, head } (turned side t parent sibling grandpa uncle) path := by
  cases t with
  | nil => cases top
  | node l y r =>
      cases top
      obtain ⟨heap1, black, here1⟩ := setRedAbove_spec false here
      obtain ⟨heap2, red, here2⟩ := setRedAbove_spec true (at_cons.mp here1)
      have below2 := at_cons.mpr here2
      have here3 := at_cons.mp here2
      simp only [setRedAbove, Crumb.fill_eq] at here3
      rw [← nodeAt_other side, ← nodeAt_other side] at here3
      obtain ⟨heap3, head, rotated, here4⟩ := rotate_spec here3
      refine ⟨heap3, head, ?_, ?_⟩
      · have parent1 := here1.parent
        have parent2 := below2.parent
        have grandpa1 := here1.parentAbove
        have grandpa2 := below2.parentAbove
        simp only [above, setRedAbove, Linked.setRed]
          at black red parent1 parent2 grandpa1 grandpa2 rotated
        simp only [Option.bind_eq_bind, Option.bind_some, here.parent, above, black, parent1,
          grandpa1, red, parent2, grandpa2, rotated]
      · rw [nodeAt_other, nodeAt_other] at here4
        exact here4

omit [DecidableEq ι] in
theorem rotateUp_outer {side : Side} (t sibling uncle : Rblist ι) (parent grandpa : Linked ι) :
    Rblist.rotateUp t ⟨side, parent, sibling⟩ ⟨side, grandpa, uncle⟩ =
      turned side t parent sibling grandpa uncle := by
  cases side <;> rfl

omit [DecidableEq ι] in
theorem rotateUp_inner {side : Side} (l r sibling uncle : Rblist ι) (x parent grandpa : Linked ι) :
    Rblist.rotateUp (nodeAt side l x r) ⟨side.other, parent, sibling⟩ ⟨side, grandpa, uncle⟩ =
      turned side (nodeAt side sibling parent l) x r grandpa uncle := by
  cases side <;> rfl

omit [DecidableEq ι] in
theorem exists_nodeAt (side : Side) (l r : Rblist ι) (x : Linked ι) :
    ∃ near far, BinTree.node l x r = nodeAt side near x far := by
  cases side with
  | left => exact ⟨l, r, rfl⟩
  | right => exact ⟨r, l, rfl⟩

/-- After the rotations the loop stands below a black parent. -/
theorem rotateUp_spec {t : Rblist ι} {x : ι} {parent grandpa : Crumb (Linked ι)}
    {path : Path (Linked ι)} (here : At s t (parent :: grandpa :: path)) (top : root t = some x) :
    ∃ y heap head, s.rotateUp grandpa.side (some x) = some (some y, { s with heap, head }) ∧
      At { s with heap, head } (Rblist.rotateUp t parent grandpa) path ∧
      ∃ (below : Rblist ι) (c : Crumb (Linked ι)), root below = some y ∧ c.item.red = false ∧
        Rblist.rotateUp t parent grandpa = c.fill below := by
  obtain ⟨side, item, uncle⟩ := grandpa
  obtain ⟨side', parent, sibling⟩ := parent
  cases t with
  | nil => cases top
  | node l link r =>
      cases top
      have member : link.item ∈ items (.node l link r) := by
        rw [items_node]
        exact List.mem_append_right _ List.mem_cons_self
      by_cases inner : side' = side.other
      · subst inner
        obtain ⟨near, far, shape⟩ := exists_nodeAt side l r link
        have lifted := at_cons.mp here
        rw [Crumb.fill_eq, shape, nodeAt_other] at lifted
        obtain ⟨heap1, head1, rotated, here1⟩ := rotate_spec lifted
        have below : At { s with heap := heap1, head := head1 } (nodeAt side sibling parent near)
            (⟨side, link, far⟩ :: ⟨side, item, uncle⟩ :: path) := by
          rw [at_cons, Crumb.fill_eq]
          exact here1
        obtain ⟨heap2, head2, done, here2⟩ := outer_spec below (root_nodeAt ..)
        rw [shape, rotateUp_inner]
        refine ⟨parent.item, heap2, head2, ?_, here2, nodeAt side sibling parent near,
          ⟨side, link.setRed false, nodeAt side far (item.setRed true) uncle⟩, root_nodeAt .., rfl, ?_⟩
        · have atRoot := here.parent
          have child := here.child
          simp only [above, root] at atRoot child
          simp only [State.rotateUp, Option.bind_eq_bind, Option.bind_some, atRoot, child, if_true,
            rotated, Option.map_some]
          exact done
        · rw [Crumb.fill_eq, turned]
      · have outer : side' = side := by
          cases side <;> cases side' <;> first | rfl | exact absurd rfl inner
        subst outer
        obtain ⟨heap, head, done, here'⟩ := outer_spec here rfl
        rw [rotateUp_outer]
        refine ⟨link.item, heap, head, ?_, here', .node l link r,
          ⟨side', parent.setRed false, nodeAt side' sibling (item.setRed true) uncle⟩, rfl, rfl, ?_⟩
        · have atRoot := here.parent
          have child := here.sibling
          have other : some link.item ≠ root sibling := by
            intro same
            have apart := (List.nodup_append.mp here.nodup).2.2
            refine apart link.item member link.item ?_ rfl
            rw [others]
            exact List.mem_cons_of_mem _ (List.mem_append_left _ (root_mem same.symm))
          simp only [above] at atRoot child
          simp only [State.rotateUp, Option.bind_eq_bind, Option.bind_some, atRoot, child, if_neg other]
          simpa only [Option.bind_eq_bind, Option.bind_some, atRoot] using done
        · rw [Crumb.fill_eq, turned]

theorem balance_head {t : Rblist ι} (here : At s t []) (n : ℕ) :
    s.balance (n + 1) (root t) = some s := by
  have head : root t = s.head := here.head.symm
  rw [State.balance, if_pos head]

theorem balance_black {t : Rblist ι} {x : ι} {c : Crumb (Linked ι)} {path : Path (Linked ι)}
    (here : At s t (c :: path)) (top : root t = some x) (black : c.item.red = false) (n : ℕ) :
    s.balance (n + 1) (some x) = some s := by
  cases t with
  | nil => cases top
  | node l y r =>
      cases top
      have member : y.item ∈ items (.node l y r) := root_mem rfl
      have up := here.parent
      simp only [above] at up
      simp [State.balance, here.notHead member, up, here.redAbove, black]

/-- The last item of a path is the head. -/
def HeadBlack (path : Path (Linked ι)) : Prop := ∀ c ∈ path.getLast?, c.item.red = false

omit [DecidableEq ι] in
theorem headBlack_cons {c d : Crumb (Linked ι)} {path : Path (Linked ι)} :
    HeadBlack (c :: d :: path) ↔ HeadBlack (d :: path) := by
  rw [HeadBlack, List.getLast?_cons_cons, HeadBlack]

theorem setHead_spec {t : Rblist ι} (holds : Holds s t) (filled : (root t).isSome) :
    ∃ heap, s.setRed s.head false = some { s with heap } ∧ Holds { s with heap } (setRed false t) := by
  cases t with
  | nil => cases filled
  | node l x r =>
      obtain ⟨heap, done, here⟩ := setRed_spec false (at_nil.mpr holds)
      exact ⟨heap, (congrArg (fun head => s.setRed head false) holds.head).trans done, at_nil.mp here⟩

omit [DecidableEq ι] in
theorem root_plug_isSome {t : Rblist ι} (filled : (root t).isSome) (path : Path (Linked ι)) :
    (root (plug t path)).isSome := by
  induction path generalizing t with
  | nil => exact filled
  | cons c path ih => exact ih (by rw [Crumb.fill_eq, root_nodeAt]; rfl)

omit [DecidableEq ι] in
theorem headBlack_tail {parent grandpa : Crumb (Linked ι)} {path : Path (Linked ι)}
    (black : HeadBlack (parent :: grandpa :: path)) : HeadBlack path := by
  cases path with
  | nil =>
      intro c none
      cases none
  | cons d path => exact headBlack_cons.mp (headBlack_cons.mp black)

/-- The test of the loop on which side the parent is. -/
theorem side_read {t : Rblist ι} {parent grandpa : Crumb (Linked ι)} {path : Path (Linked ι)}
    (here : At s t (parent :: grandpa :: path)) :
    ∃ q, s.left (some grandpa.item.item) = some q ∧
      (if some parent.item.item = q then Side.left else Side.right) = grandpa.side := by
  have up := at_cons.mp here
  have near := up.child
  have far := up.sibling
  have apart := (List.nodup_append.mp up.nodup).2.2
  have member : parent.item.item ∈ items (parent.fill t) :=
    root_mem (by rw [Crumb.fill_eq, root_nodeAt])
  rw [Crumb.fill_eq, root_nodeAt] at near
  cases side : grandpa.side with
  | left =>
      rw [side] at near
      exact ⟨_, near, if_pos rfl⟩
  | right =>
      rw [side] at far
      refine ⟨_, far, if_neg ?_⟩
      intro same
      refine apart parent.item.item member parent.item.item ?_ rfl
      rw [others]
      exact List.mem_cons_of_mem _ (List.mem_append_left _ (root_mem same.symm))

omit [DecidableEq ι] in
theorem someRed_read {t : Rblist ι} {c : Crumb (Linked ι)} {path : Path (Linked ι)}
    (here : At s t (c :: path)) :
    s.someRed (root c.sibling) = some (isRed c.sibling) := by
  have shape := here.around.2.1
  cases sibling : c.sibling with
  | nil => rfl
  | node l x r =>
      rw [sibling] at shape
      simp [State.someRed, root, isRed, State.red, State.link, shape.1]

theorem setRedSibling_spec {t : Rblist ι} {c : Crumb (Linked ι)} {path : Path (Linked ι)} (red : Bool)
    (here : At s t (c :: path)) (filled : isRed c.sibling) :
    ∃ heap, s.setRed (root c.sibling) red = some { s with heap } ∧
      At { s with heap } t ({ c with sibling := setRed red c.sibling } :: path) := by
  obtain ⟨side, item, sibling⟩ := c
  cases sibling with
  | nil => cases filled
  | node l x r =>
      rw [at_cons, Crumb.fill_eq, ← nodeAt_other] at here
      have across : At s (.node l x r) (⟨side.other, item, t⟩ :: path) := by
        rw [at_cons, Crumb.fill_eq]
        exact here
      obtain ⟨heap, done, now⟩ := setRed_spec red across
      rw [at_cons, Crumb.fill_eq, nodeAt_other] at now
      exact ⟨heap, done, by rw [at_cons, Crumb.fill_eq]; exact now⟩

/-- One round of the loop below a red parent with a red uncle. -/
theorem balance_uncle {t : Rblist ι} {x : ι} {parent grandpa : Crumb (Linked ι)}
    {path : Path (Linked ι)} (here : At s t (parent :: grandpa :: path)) (top : root t = some x)
    (red : parent.item.red = true) (uncle : isRed grandpa.sibling = true) (n : ℕ) :
    ∃ heap, s.balance (n + 1) (some x) = State.balance n { s with heap } (some grandpa.item.item) ∧
      At { s with heap } (({ setRedAbove true grandpa with sibling := setRed false grandpa.sibling } :
        Crumb (Linked ι)).fill ((setRedAbove false parent).fill t)) path := by
  obtain ⟨heap1, first, here1⟩ := setRedAbove_spec false here
  obtain ⟨heap2, second, here2⟩ := setRedSibling_spec false (at_cons.mp here1) uncle
  obtain ⟨heap3, third, here3⟩ := setRedAbove_spec true here2
  refine ⟨heap3, ?_, at_cons.mp here3⟩
  obtain ⟨q, left, side⟩ := side_read here
  have uncleRead := someRed_read (at_cons.mp here)
  have sibling := (at_cons.mp here).sibling
  have grandpaRead := here.parentAbove
  have member := root_mem top
  cases t with
  | nil => cases top
  | node l y r =>
      cases top
      have up := here.parent
      simp only [above] at up grandpaRead
      rw [State.balance, if_neg (here.notHead member)]
      simp only [Option.bind_eq_bind, Option.bind_some, up, here.redAbove, red, grandpaRead, left,
        side, sibling, uncleRead, uncle, first, second, third, if_true, Bool.not_true,
        Bool.false_eq_true, if_false]

/-- One round of the loop below a red parent with a black uncle. -/
theorem balance_rotate {t : Rblist ι} {x : ι} {parent grandpa : Crumb (Linked ι)}
    {path : Path (Linked ι)} (here : At s t (parent :: grandpa :: path)) (top : root t = some x)
    (red : parent.item.red = true) (uncle : ¬isRed grandpa.sibling = true) (n : ℕ) :
    ∃ heap head, s.balance (n + 2) (some x) = some { s with heap, head } ∧
      At { s with heap, head } (Rblist.rotateUp t parent grandpa) path := by
  obtain ⟨y, heap, head, rotated, here', below, c, top', black, shape⟩ := rotateUp_spec here top
  refine ⟨heap, head, ?_, here'⟩
  rw [shape, ← at_cons] at here'
  obtain ⟨q, left, side⟩ := side_read here
  have uncleRead := someRed_read (at_cons.mp here)
  have sibling := (at_cons.mp here).sibling
  have grandpaRead := here.parentAbove
  have member := root_mem top
  cases t with
  | nil => cases top
  | node l z r =>
      cases top
      have up := here.parent
      simp only [above] at up grandpaRead
      rw [State.balance, if_neg (here.notHead member)]
      simp only [Option.bind_eq_bind, Option.bind_some, up, here.redAbove, red, grandpaRead, left,
        side, sibling, uncleRead, uncle, rotated, Bool.not_true, Bool.false_eq_true, if_false]
      exact balance_black here' top' black n

/-- The loop of `insert` and the black head behind it. -/
theorem balance_spec {t : Rblist ι} {path : Path (Linked ι)} {x : ι} {rounds : ℕ} (here : At s t path)
    (top : root t = some x) (black : HeadBlack path) (enough : path.length < rounds) :
    ∃ heap head heap', s.balance rounds (some x) = some { s with heap, head } ∧
      State.setRed { s with heap, head } head false = some { s with heap := heap', head } ∧
      Holds { s with heap := heap', head } (rebalance t path) := by
  obtain ⟨rounds, rfl⟩ := Nat.exists_eq_add_one_of_ne_zero (Nat.ne_zero_of_lt enough)
  have filled : (root t).isSome := by
    rw [top]
    rfl
  induction t, path using rebalance.induct generalizing s x rounds with
  | case1 t =>
      obtain ⟨heap, done, holds⟩ := setHead_spec (at_nil.mp here) filled
      rw [← top]
      exact ⟨s.heap, s.head, heap, balance_head here rounds, done, by rw [rebalance]; exact holds⟩
  | case2 t head =>
      obtain ⟨heap, done, holds⟩ := setHead_spec (at_plug.mp here) (root_plug_isSome filled _)
      exact ⟨s.heap, s.head, heap, balance_black here top (black head rfl) rounds, done,
        by rw [rebalance]; exact holds⟩
  | case3 t parent grandpa path red uncle raised =>
      rename_i ih
      obtain ⟨heap, round, here'⟩ := balance_uncle here top red uncle rounds
      simp only [List.length_cons] at enough
      obtain ⟨rounds, rfl⟩ := Nat.exists_eq_add_one_of_ne_zero (n := rounds) (by omega)
      have top' : root (raised.fill ((setRedAbove false parent).fill t)) = some grandpa.item.item := by
        rw [Crumb.fill_eq, root_nodeAt]
        rfl
      rw [round, rebalance, if_pos red, if_pos uncle]
      exact ih here' top' (headBlack_tail black) rounds (by omega) (by rw [top']; rfl)
  | case4 t parent grandpa path red uncle =>
      simp only [List.length_cons] at enough
      obtain ⟨rounds, rfl⟩ := Nat.exists_eq_add_one_of_ne_zero (n := rounds) (by omega)
      obtain ⟨heap, head, round, here'⟩ := balance_rotate here top red uncle rounds
      have filled' : (root (Rblist.rotateUp t parent grandpa)).isSome := by
        obtain ⟨y, heap, head, -, -, below, c, -, -, shape⟩ := rotateUp_spec here top
        rw [shape, Crumb.fill_eq, root_nodeAt]
        rfl
      obtain ⟨heap', done, holds⟩ := setHead_spec (at_plug.mp here') (root_plug_isSome filled' _)
      refine ⟨heap, head, heap', round, done, ?_⟩
      rw [rebalance, if_pos red, if_neg uncle]
      exact holds
  | case5 t parent grandpa path notRed =>
      obtain ⟨heap, done, holds⟩ := setHead_spec (at_plug.mp here) (root_plug_isSome filled _)
      refine ⟨s.heap, s.head, heap, balance_black here top (by simpa using notRed) rounds, done, ?_⟩
      rw [rebalance, if_neg notRed]
      exact holds

end Balance

end Bacula.Rblist
