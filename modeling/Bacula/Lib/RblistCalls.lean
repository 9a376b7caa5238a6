import Bacula.Lib.RblistRefine

/-! `insert`, `search` and `foreach_rblist` on the pointers are these operations on the tree. -/
namespace Bacula.Rblist
open Zipper Zipper.BinTree

variable {ι : Type}

/-- The state of a list between two calls. -/
structure Stored (s : State ι) (t : Rblist ι) : Prop where
  holds : Holds s t
  count : s.numItems = (items t).length
  black : isRed t = false

theorem Holds.congr {s s' : State ι} {t : Rblist ι} (holds : Holds s t) (head : s'.head = s.head)
    (heap : s'.heap = s.heap) : Holds s' t :=
  ⟨head.trans holds.head, heap ▸ holds.shape, holds.nodup, heap ▸ holds.allocated⟩

theorem Holds.place {s : State ι} {t : Rblist ι} (holds : Holds s t) {p : Place (Linked ι)}
    (inside : p.tree = t) :
    At s (.node p.left p.item p.right) p.path := by
  rw [at_plug]
  change Holds s p.tree
  rw [inside]
  exact holds

/-! ## The way down -/

/-- The last comparison of a way down. -/
def turnOf : Path (Linked ι) → Ordering
  | [] => .eq
  | c :: _ => match c.side with
    | .left => .lt
    | .right => .gt

/-- What the loop of `insert` knows where it ends. -/
def Descent.outcome : Descent ι → Option ι × Option ι × Ordering
  | .found place => (some place.item.item, some place.item.item, .eq)
  | .leaf up => (none, above up, turnOf up)

theorem descend_spec {s : State ι} {t : Rblist ι} {path : Path (Linked ι)} (here : At s t path)
    (compare : ι → ι → Ordering) (item : ι) {rounds : ℕ} (enough : (items t).length ≤ rounds) :
    s.descend compare item rounds (root t) (above path) (turnOf path) =
      some (Rblist.descend compare item t path).outcome := by
  induction t generalizing path rounds with
  | nil => cases rounds <;> rfl
  | node l x r ihl ihr =>
      rw [items_node, List.length_append, List.length_cons] at enough
      obtain ⟨rounds, rfl⟩ := Nat.exists_eq_add_one_of_ne_zero (n := rounds) (by omega)
      have left : s.left (some x.item) = some (root l) := by
        simp [State.left, State.child, State.link, here.shape.1, Rblink.child]
      have right : s.right (some x.item) = some (root r) := by
        simp [State.right, State.child, State.link, here.shape.1, Rblink.child]
      rw [root, State.descend, Rblist.descend]
      cases order : compare item x.item with
      | lt =>
          have below : At s l (⟨.left, x, r⟩ :: path) := at_cons.mpr here
          simp only [left, Option.bind_some]
          exact ihl below (by omega)
      | gt =>
          have below : At s r (⟨.right, x, l⟩ :: path) := at_cons.mpr here
          simp only [right, Option.bind_some]
          exact ihr below (by omega)
      | eq => rfl

theorem search_spec {s : State ι} {t : Rblist ι} (holds : Holds s t) (compare : ι → ι → Ordering)
    (item : ι) {rounds : ℕ} (enough : (items t).length ≤ rounds) :
    s.search rounds compare item =
      some ((Rblist.search compare item t).map fun place => place.item.item) := by
  have down := descend_spec (at_nil.mpr holds) compare item enough
  rw [State.search, holds.head]
  simp only [above, turnOf] at down
  rw [down, Option.map_some, Rblist.search]
  cases Rblist.descend compare item t [] <;> rfl

/-! ## Insertion -/

section Insert

variable [DecidableEq ι] {s : State ι}

/-- A link that is not in the tree is written. -/
theorem writeOutside {t : Rblist ι} {item : ι} (holds : Holds s t) (outside : item ∉ items t)
    (change : Rblink ι → Rblink ι) : ∃ heap link, s.heap item = some link ∧
      s.write (some item) change = some { s with heap } ∧ heap item = some (change link) ∧
      Holds { s with heap } t := by
  obtain ⟨link, here⟩ := Option.isSome_iff_exists.mp (holds.allocated item)
  obtain ⟨heap, done, now, frame, allocated⟩ := write_spec here change holds.allocated
  refine ⟨heap, link, here, done, now, holds.head, holds.shape.congr fun z member => ?_,
    holds.nodup, allocated⟩
  refine frame z fun same => outside ?_
  rw [← same]
  exact member

/-- The new item gets an empty link. -/
theorem clear_spec {t : Rblist ι} {item : ι} (holds : Holds s t) (outside : item ∉ items t) :
    ∃ heap, (∀ rest : State ι → Option (ι × State ι), (do
        let s ← s.setLeft (some item) none
        let s ← s.setRight (some item) none
        let s ← s.setParent (some item) none
        let s ← s.setRed (some item) false
        rest s) = rest { s with heap }) ∧
      heap item = some ⟨none, none, none, false⟩ ∧ Holds { s with heap } t := by
  obtain ⟨heap1, link1, -, first, now1, holds1⟩ :=
    writeOutside holds outside fun link => link.setChild .left none
  obtain ⟨heap2, link2, here2, second, now2, holds2⟩ :=
    writeOutside holds1 outside fun link => link.setChild .right none
  obtain ⟨heap3, link3, here3, third, now3, holds3⟩ :=
    writeOutside holds2 outside fun link => { link with parent := none }
  obtain ⟨heap4, link4, here4, fourth, now4, holds4⟩ :=
    writeOutside holds3 outside fun link => { link with red := false }
  dsimp only at here2 here3 here4
  rw [now1, Option.some_inj] at here2
  rw [now2, Option.some_inj] at here3
  rw [now3, Option.some_inj] at here4
  refine ⟨heap4, fun rest => ?_, ?_, holds4⟩
  · simp only [Option.bind_eq_bind, State.setLeft, State.setRight, State.setChild, State.setParent,
      State.setRed, first, second, third, fourth, Option.bind_some]
  · rw [now4, ← here4, ← here3, ← here2]
    simp [Rblink.setChild]

/-- The new item goes below the last one. -/
theorem hang_spec {item : ι} {c : Crumb (Linked ι)} {path : Path (Linked ι)}
    (here : At s .nil (c :: path)) (outside : item ∉ others (c :: path))
    (empty : s.heap item = some ⟨none, none, none, false⟩) :
    ∃ heap, (∀ rest : State ι → Option (ι × State ι), (do
        let s ← s.setChild c.side (some c.item.item) (some item)
        let s ← s.setRed (some c.item.item) true
        let s ← s.setParent (some item) (some c.item.item)
        rest s) = rest { s with heap }) ∧
      At { s with heap } (.node .nil ⟨false, item⟩ .nil) (setRedAbove true c :: path) := by
  obtain ⟨head, -, ⟨up, sibling, rest⟩, nodup, allocated⟩ := here
  rw [others, List.mem_cons, List.mem_append, not_or, not_or] at outside
  obtain ⟨notLast, notSibling, notRest⟩ := outside
  have nodup' := nodup
  rw [others] at nodup'
  obtain ⟨single, -⟩ := List.nodup_cons.mp nodup'
  rw [List.mem_append, not_or] at single
  obtain ⟨heap1, first, up1, frame1, allocated1⟩ := write_spec up
    (fun link => link.setChild c.side (some item)) allocated
  rw [linkAt_setChild] at up1
  obtain ⟨heap2, second, up2, frame2, allocated2⟩ := write_spec (s := { s with heap := heap1 }) up1
    (fun link => { link with red := true }) allocated1
  rw [linkAt_setRed] at up2
  dsimp only at frame2
  have empty2 : heap2 item = some ⟨none, none, none, false⟩ := by
    rw [frame2 _ notLast, frame1 _ notLast, empty]
  obtain ⟨heap3, third, now3, frame3, allocated3⟩ := write_spec (s := { s with heap := heap2 }) empty2
    (fun link => { link with parent := some c.item.item }) allocated2
  dsimp only at frame3
  have kept : ∀ z, z ≠ item → z ≠ c.item.item → heap3 z = s.heap z := by
    intro z notItem notUp
    rw [frame3 z notItem, frame2 z notUp, frame1 z notUp]
  have away {z p : ι} {l : List ι} (member : z ∈ l) (free : p ∉ l) : z ≠ p := by
    intro same
    rw [same] at member
    exact free member
  refine ⟨heap3, fun rest => ?_, head, ⟨now3, trivial, trivial⟩, ⟨?_, ?_, ?_⟩, ?_, allocated3⟩
  · simp only [Option.bind_eq_bind, State.setChild, State.setRed, State.setParent, first, second, third,
      Option.bind_some]
  · exact (frame3 _ (Ne.symm notLast)).trans up2
  · exact sibling.congr fun z member => kept z (away member notSibling) (away member single.1)
  · exact rest.congr fun z member => kept z (away member notRest) (away member single.2)
  · change (item :: others (c :: path)).Nodup
    refine List.nodup_cons.mpr ⟨?_, nodup⟩
    rw [others, List.mem_cons, List.mem_append]
    rintro (last | inside | inside)
    · exact notLast last
    · exact notSibling inside
    · exact notRest inside

omit [DecidableEq ι] in
theorem length_le_others (path : Path (Linked ι)) : path.length ≤ (others path).length := by
  induction path with
  | nil => exact Nat.le_refl 0
  | cons c path ih =>
      simp only [others, List.length_cons, List.length_append]
      omega

omit [DecidableEq ι] in
theorem headBlack_of_plug {t : Rblist ι} {path : Path (Linked ι)}
    (black : isRed (plug t path) = false) :
    HeadBlack path := by
  induction path generalizing t with
  | nil =>
      intro c none
      cases none
  | cons c path ih =>
      cases path with
      | nil =>
          intro d last
          cases last
          obtain ⟨l, r, shown⟩ := fill_node c t
          have filled : c.fill t = .node l c.item r := shown c.item
          rw [plug, plug, filled] at black
          exact black
      | cons d path => exact headBlack_cons.mpr (ih black)

omit [DecidableEq ι] in
theorem isRed_setRed (t : Rblist ι) : isRed (setRed false t) = false := by
  cases t <;> rfl

omit [DecidableEq ι] in
theorem isRed_rebalance (t : Rblist ι) (path : Path (Linked ι)) : isRed (rebalance t path) = false := by
  induction t, path using rebalance.induct with
  | case1 t => rw [rebalance]; exact isRed_setRed t
  | case2 t head => rw [rebalance]; exact isRed_setRed _
  | case3 t parent grandpa path red uncle grandpa' ih =>
      rw [rebalance, if_pos red, if_pos uncle]; exact ih
  | case4 t parent grandpa path red uncle =>
      rw [rebalance, if_pos red, if_neg uncle]; exact isRed_setRed _
  | case5 t parent grandpa path black => rw [rebalance, if_neg black]; exact isRed_setRed _

omit [DecidableEq ι] in
theorem insert_descend {t : Rblist ι} (stored : Stored s t) (compare : ι → ι → Ordering) (item : ι)
    {rounds : ℕ} (enough : (items t).length ≤ rounds) :
    s.descend compare item rounds s.head none .eq =
      some (Rblist.descend compare item t []).outcome := by
  rw [stored.holds.head]
  exact descend_spec (at_nil.mpr stored.holds) compare item enough

/-- `insert` gives back the item that compares equal and changes nothing. -/
theorem insert_found {t : Rblist ι} (stored : Stored s t) (compare : ι → ι → Ordering) (item : ι)
    {rounds : ℕ} (enough : (items t).length ≤ rounds) {place : Place (Linked ι)}
    (found : Rblist.search compare item t = some place) :
    s.insert rounds compare item = some (place.item.item, s) := by
  have down := insert_descend stored compare item enough
  rw [Rblist.search] at found
  cases result : Rblist.descend compare item t [] with
  | found there =>
      rw [result] at found
      cases found
      rw [result] at down
      simp only [State.insert, Option.bind_eq_bind, down, Option.bind_some, Descent.outcome]
  | leaf up =>
      rw [result] at found
      cases found

/-- `insert` puts a new item where the way down ends. -/
theorem insert_leaf {t : Rblist ι} (stored : Stored s t) (compare : ι → ι → Ordering) (item : ι)
    {rounds : ℕ} (enough : (items t).length < rounds) (room : (items t).length + 1 < 2 ^ 32)
    (outside : item ∉ items t) {up : Path (Linked ι)}
    (result : Rblist.descend compare item t [] = .leaf up) (same : plug .nil up = t) :
    ∃ u s', Rblist.insert compare item t = .inserted u ∧
      s.insert rounds compare item = some (item, s') ∧ Stored s' u := by
  have down := insert_descend stored compare item enough.le
  rw [result, Descent.outcome] at down
  obtain ⟨heap, cleared, empty, holds⟩ := clear_spec stored.holds outside
  have count := stored.count
  cases up with
  | nil =>
      subst same
      have none : s.numItems = 0 := count
      have leaf : Shape heap Option.none (.node .nil ⟨false, item⟩ .nil) := ⟨empty, trivial, trivial⟩
      refine ⟨.node .nil ⟨false, item⟩ .nil, { s with heap, head := some item, numItems := 1 }, ?_, ?_,
        ⟨rfl, leaf, List.nodup_singleton item, holds.allocated⟩, rfl, rfl⟩
      · rw [Rblist.insert, result]
      · simp only [Option.bind_eq_bind] at cleared
        simp only [State.insert, Option.bind_eq_bind, down, Option.bind_some, cleared, none, if_true]
  | cons c path =>
      have here : At { s with heap } .nil (c :: path) := by
        rw [at_plug, same]
        exact holds
      have outside' : item ∉ others (c :: path) := by
        intro inside
        apply outside
        rw [← same]
        exact (items_plug_perm _ _).mem_iff.mpr (List.mem_append_right _ inside)
      obtain ⟨heap', hung, hanging⟩ := hang_spec here outside' empty
      have size : (items t).length = (others (c :: path)).length := by
        rw [← same, (items_plug_perm _ _).length_eq]
        rfl
      have depth := length_le_others (c :: path)
      rw [List.length_cons] at depth
      have filled : s.numItems ≠ 0 := by omega
      have wrapped : (s.numItems + 1) % 2 ^ 32 = s.numItems + 1 := Nat.mod_eq_of_lt (by omega)
      have hanging' : At { s with heap := heap', numItems := s.numItems + 1 }
          ((setRedAbove true c).fill (.node .nil ⟨false, item⟩ .nil)) path :=
        at_cons.mp ⟨hanging.head, hanging.shape, hanging.around, hanging.nodup, hanging.allocated⟩
      have black : HeadBlack path := by
        have whole : HeadBlack (c :: path) := by
          apply headBlack_of_plug (t := .nil)
          rw [same]
          exact stored.black
        cases path with
        | nil =>
            intro d none
            cases none
        | cons d path => exact headBlack_cons.mp whole
      have top : root ((setRedAbove true c).fill (.node .nil ⟨false, item⟩ .nil)) =
          some c.item.item := by
        rw [Crumb.fill_eq, root_nodeAt]
        rfl
      obtain ⟨heap2, head2, heap3, balanced, blackened, holds'⟩ :=
        balance_spec hanging' top black (show path.length < rounds by omega)
      have inserted : Rblist.insert compare item t =
          .inserted (rebalance ((setRedAbove true c).fill (.node .nil ⟨false, item⟩ .nil)) path) := by
        rw [Rblist.insert, result]
      have grown :
        (items (rebalance ((setRedAbove true c).fill (.node .nil ⟨false, item⟩ .nil)) path)).length =
          (items t).length + 1 := by
        obtain ⟨u, insertedU, now⟩ := insert_of_leaf result
        rw [inserted] at insertedU
        cases insertedU
        rw [now, items_leaf same]
        simp only [List.length_append, List.length_cons]
        omega
      refine ⟨_, { s with heap := heap3, head := head2, numItems := s.numItems + 1 }, inserted, ?_,
        holds', ?_, isRed_rebalance _ _⟩
      · simp only [Option.bind_eq_bind] at cleared hung
        simp only [State.insert, Option.bind_eq_bind, down, Option.bind_some, cleared, filled,
          if_false, above]
        cases side : c.side with
        | left =>
            have turn : turnOf (c :: path) = .lt := by simp [turnOf, side]
            rw [side] at hung
            simp only [turn, if_true, State.setLeft, hung, wrapped, balanced, Option.bind_some,
              blackened]
        | right =>
            have turn : turnOf (c :: path) ≠ .lt := by simp [turnOf, side]
            rw [side] at hung
            simp only [turn, if_false, State.setRight, hung, wrapped, balanced, Option.bind_some,
              blackened]
      · change s.numItems + 1 = _
        rw [grown, count]

end Insert

/-! ## The walk over the items -/

section Walk

variable {s : State ι} {t : Rblist ι}

theorem leftmost_tree (l r : Rblist ι) (x : Linked ι) (path : Path (Linked ι)) :
    (Place.leftmost l x r path).tree = plug (.node l x r) path := by
  induction l generalizing x r path with
  | nil => rfl
  | node ll y lr ihl ihr => exact ihl lr y (⟨.left, x, r⟩ :: path)

theorem climb_tree {t : Rblist ι} {path : Path (Linked ι)} {p : Place (Linked ι)}
    (up : Place.climb t path = some p) : p.tree = plug t path := by
  induction path generalizing t with
  | nil => cases up
  | cons c path ih =>
      obtain ⟨side, x, sibling⟩ := c
      cases side with
      | left => cases up; rfl
      | right => exact ih up

/-- The next place is in the same tree. -/
theorem next_tree {p q : Place (Linked ι)} {down : Bool} (goes : (next down p).1 = some q) :
    q.tree = p.tree := by
  unfold next at goes
  cases right : p.right with
  | nil =>
      rw [right] at goes
      exact climb_tree goes
  | node l y r =>
      rw [right] at goes
      dsimp only at goes
      split at goes
      · cases goes
        rw [leftmost_tree, Place.tree, Place.subtree, right]
        rfl
      · exact climb_tree goes

theorem leftmost_spec {parent : Option ι} {l r : Rblist ι} {x : Linked ι}
    (shape : Shape s.heap parent (.node l x r)) (path : Path (Linked ι)) {rounds : ℕ}
    (enough : (items l).length < rounds) :
    s.leftmost rounds (some x.item) = some (some (Place.leftmost l x r path).item.item) := by
  obtain ⟨rounds, rfl⟩ := Nat.exists_eq_add_one_of_ne_zero (Nat.ne_zero_of_lt enough)
  obtain ⟨link, below, -⟩ := shape
  have left : s.left (some x.item) = some (root l) := by
    simp [State.left, State.child, State.link, link, Rblink.child]
  induction l generalizing x r parent path rounds with
  | nil => simp [State.leftmost, left, Place.leftmost]
  | node ll y lr ihl ihr =>
      rw [items_node, List.length_append, List.length_cons] at enough
      obtain ⟨rounds, rfl⟩ := Nat.exists_eq_add_one_of_ne_zero (n := rounds) (by omega)
      have left' : s.left (some y.item) = some (root ll) := by
        simp [State.left, State.child, State.link, below.1, Rblink.child]
      rw [State.leftmost, left, Option.bind_some, root, if_pos Option.isSome_some, Place.leftmost]
      exact ihl (⟨.left, x, r⟩ :: path) rounds (by omega) below.1 below.2.1 left'

variable [DecidableEq ι]

theorem climb_spec {path : Path (Linked ι)} {x : ι} (here : At s t path) (top : root t = some x)
    {rounds : ℕ} (enough : path.length < rounds) :
    s.climb rounds (some x) = some ((Place.climb t path).map fun p => p.item.item,
      { s with down := s.down && path.isEmpty }) := by
  obtain ⟨rounds, rfl⟩ := Nat.exists_eq_add_one_of_ne_zero (Nat.ne_zero_of_lt enough)
  induction path generalizing s t x rounds with
  | nil =>
      cases t with
      | nil => cases top
      | node l y r =>
          cases top
          simp [State.climb, here.parent, above, Place.climb]
  | cons c path ih =>
      have up : s.parent (some x) = some (some c.item.item) := by
        cases t with
        | nil => cases top
        | node l y r =>
            cases top
            exact here.parent
      have near := here.child
      have far := here.sibling
      obtain ⟨side, y, sibling⟩ := c
      cases side with
      | left =>
          have other : root sibling ≠ some x := by
            intro same
            have apart := (List.nodup_append.mp here.nodup).2.2
            refine apart x (root_mem top) x ?_ rfl
            rw [others]
            exact List.mem_cons_of_mem _ (List.mem_append_left _ (root_mem same))
          have right : s.right (some y.item) = some (root sibling) := far
          simp [State.climb, up, right, other, Place.climb]
      | right =>
          have right : s.right (some y.item) = some (root t) := near
          have here' := at_cons.mp here
          simp only [List.length_cons] at enough
          obtain ⟨rounds, rfl⟩ := Nat.exists_eq_add_one_of_ne_zero (n := rounds) (by omega)
          have above' : At { s with down := false } (.node sibling y t) path :=
            ⟨here'.head, here'.shape, here'.around, here'.nodup, here'.allocated⟩
          rw [State.climb, up, Option.bind_some, if_neg (by simp), right, Option.bind_some, top,
            if_pos rfl, ih above' rfl rounds (by omega), Place.climb]
          simp

omit [DecidableEq ι] in
theorem goesDown_spec {p : Place (Linked ι)} (here : At s (.node p.left p.item p.right) p.path) :
    s.goesDown (some p.item.item) =
      some ((s.down && p.left.isNil || !s.down) && !p.right.isNil) := by
  have empty (t : Rblist ι) : (root t).isNone = t.isNil := by
    cases t <;> rfl
  have filled (t : Rblist ι) : (root t).isSome = !t.isNil := by
    cases t <;> rfl
  cases down : s.down <;> simp [State.goesDown, State.link, here.shape.1, empty, filled, down]

theorem next_code {p : Place (Linked ι)} (holds : Holds s t) (inside : p.tree = t) {rounds : ℕ}
    (enough : (items t).length ≤ rounds) :
    s.next rounds (some p.item.item) = some ((Rblist.next s.down p).1.map fun q => q.item.item,
      { s with down := (Rblist.next s.down p).2 }) := by
  have here := holds.place inside
  have size : (items t).length =
      (items p.left).length + 1 + (items p.right).length + (others p.path).length := by
    rw [← inside, Place.tree, (items_plug_perm _ _).length_eq, Place.subtree, items_node]
    simp only [List.length_append, List.length_cons]
    omega
  have depth := length_le_others p.path
  have climbs := climb_spec here rfl (show p.path.length < rounds by omega)
  have test := goesDown_spec here
  simp only [State.next, Option.bind_eq_bind, test, Option.bind_some]
  cases right : p.right with
  | nil =>
      have empty : (BinTree.nil : Rblist ι).isNil = true := rfl
      rw [right] at climbs
      simp only [empty, Bool.not_true, Bool.and_false, Bool.false_eq_true, if_false, climbs,
        Rblist.next, right, Place.subtree]
  | node l y r =>
      rw [right] at climbs here size
      have below : At s (.node l y r) (⟨.right, p.item, p.left⟩ :: p.path) := at_cons.mpr here
      have toRight : s.right (some p.item.item) = some (some y.item) := below.child
      rw [items_node, List.length_append, List.length_cons] at size
      have down := leftmost_spec below.shape (⟨.right, p.item, p.left⟩ :: p.path)
        (show (items l).length < rounds by omega)
      have filled : (BinTree.node l y r).isNil = false := rfl
      simp only [filled, Bool.not_false, Bool.and_true, Rblist.next, right]
      by_cases goes : (s.down && p.left.isNil || !s.down) = true
      · rw [if_pos goes, if_pos goes]
        simp only [State.downRight, toRight, Option.bind_some, down, Option.map_some]
      · rw [if_neg goes, if_neg goes, climbs]
        simp only [Place.subtree, right]

omit [DecidableEq ι] in
theorem first_code (holds : Holds s t) {rounds : ℕ} (enough : (items t).length ≤ rounds) :
    s.first rounds = some ((Rblist.first t).map fun q => q.item.item, { s with down := true }) := by
  cases t with
  | nil => simp [State.first, holds.head, Rblist.first]
  | node l x r =>
      rw [items_node, List.length_append, List.length_cons] at enough
      have here : At { s with down := true } (.node l x r) [] := at_nil.mpr (holds.congr rfl rfl)
      have down := leftmost_spec here.shape [] (show (items l).length < rounds by omega)
      have head : s.head = some x.item := holds.head
      simp only [head] at down
      simp only [State.first, head, down, Option.map_some, Rblist.first]

theorem foreachFrom_spec {p : Place (Linked ι)} (holds : Holds s t) (inside : p.tree = t)
    (ready : Ready (some p, s.down)) {rounds n : ℕ} (enough : (items t).length ≤ rounds)
    (left : (remaining (some p)).length ≤ n) :
    ∃ down, s.foreachFrom rounds n (some p.item.item) =
      some ((remaining (some p)).map Linked.item, { s with down }) := by
  induction n generalizing s p with
  | zero => simp [remaining] at left
  | succ n ih =>
      obtain ⟨rest, ready'⟩ := next_spec p s.down ready
      have goes := next_code holds inside enough
      simp only [State.foreachFrom, Option.bind_eq_bind, goes, Option.bind_some]
      cases next : (Rblist.next s.down p).1 with
      | none =>
          rw [next] at rest
          refine ⟨(Rblist.next s.down p).2, ?_⟩
          simp only [remaining] at rest ⊢
          simp [State.foreachFrom, ← rest]
      | some q =>
          rw [next] at rest
          have holds' : Holds { s with down := (Rblist.next s.down p).2 } t := holds.congr rfl rfl
          have ready'' : Ready (some q, (Rblist.next s.down p).2) := by
            rw [← next]
            exact ready'
          have short : (remaining (some q)).length ≤ n := by
            rw [rest]
            simp only [remaining, List.length_cons] at left
            omega
          obtain ⟨down, done⟩ := ih holds' ((next_tree next).trans inside) ready'' short
          refine ⟨down, ?_⟩
          simp only [Option.map_some, done, Option.bind_some, rest]
          rfl

/-- `foreach_rblist` on the pointers. -/
theorem foreach_spec (holds : Holds s t) {rounds : ℕ} (enough : (items t).length ≤ rounds) :
    ∃ down, s.foreach rounds = some (items t, { s with down }) := by
  cases t with
  | nil =>
      refine ⟨true, ?_⟩
      simp [State.foreach, State.first, holds.head, State.foreachFrom, items]
  | node l x r =>
      have all : remaining (some (Place.leftmost l x r [])) = (BinTree.node l x r).inorder :=
        (Place.leftmost_items l x r []).trans (by simp [after])
      have started := first_code holds enough
      have holds' : Holds { s with down := true } (.node l x r) := holds.congr rfl rfl
      obtain ⟨down, done⟩ :=
        foreachFrom_spec holds' (leftmost_tree l r x []) (fun _ => Place.leftmost_left l x r [])
        enough (n := rounds) (by rw [all]; simpa [items] using enough)
      refine ⟨down, ?_⟩
      simp only [State.foreach, Option.bind_eq_bind, started, Option.bind_some, Rblist.first,
        Option.map_some, done, all]
      rfl

end Walk

end Bacula.Rblist
