import Bacula.Lib.RblistCalls

/-! `rblist::destroy`. It leaves an item for the right subtree before it is done with it, and prunes
it from its parent then; it comes back from there and frees it. -/
namespace Bacula.Rblist
open Zipper Zipper.BinTree

variable {ι : Type} [DecidableEq ι]

/-- The link of the parent after its child was pruned. -/
def Rblink.cut (link : Rblink ι) (x : ι) : Rblink ι :=
  if link.left = some x then { link with left := none }
  else if link.right = some x then { link with right := none }
  else link

theorem Rblink.cut_cut {link : Rblink ι} {x : ι} (once : ¬(link.left = some x ∧ link.right = some x)) :
    (link.cut x).cut x = link.cut x := by
  unfold Rblink.cut
  by_cases left : link.left = some x
  · have right : link.right ≠ some x := fun right => once ⟨left, right⟩
    simp [left, right]
  · by_cases right : link.right = some x
    · simp [left, right]
    · simp [left, right]

/-- Rounds of the loop of `destroy`. -/
def Reaches (rounds k : ℕ) (s : State ι) (x : ι) (s' : State ι) (x' : ι) : Prop :=
  ∀ n, s.destroyFrom rounds (n + k) (some x) = s'.destroyFrom rounds n (some x')

theorem Reaches.refl (rounds : ℕ) (s : State ι) (x : ι) : Reaches rounds 0 s x s x := fun _ => rfl

theorem Reaches.trans {rounds j k : ℕ} {s s' s'' : State ι} {x x' x'' : ι}
    (first : Reaches rounds j s x s' x') (second : Reaches rounds k s' x' s'' x'') :
    Reaches rounds (k + j) s x s'' x'' := by
  intro n
  rw [← Nat.add_assoc, first, second]

/-- An item is pruned from a parent that is still there. -/
theorem prune_spec {s : State ι} {x p : ι} {link up : Rblink ι} (here : s.heap x = some link)
    (parent : link.parent = some p) (there : s.heap p = some up) :
    ∃ heap, s.prune (some x) = some { s with heap } ∧ heap p = some (up.cut x) ∧
      ∀ z, z ≠ p → heap z = s.heap z := by
  have left : s.left (some p) =
      some up.left := by simp [State.left, State.child, State.link, there, Rblink.child]
  have right : s.right (some p) = some up.right := by
    simp [State.right, State.child, State.link, there, Rblink.child]
  have above : s.parent (some x) = some (some p) := by simp [State.parent, State.link, here, parent]
  refine ⟨Function.update s.heap p (some (up.cut x)), ?_, Function.update_self ..,
    fun z other => Function.update_of_ne other _ _⟩
  simp only [State.prune, Option.bind_eq_bind, above, Option.bind_some, left, right]
  unfold Rblink.cut
  by_cases onLeft : up.left = some x
  · simp [onLeft, State.setLeft, State.setChild, State.write, there, Rblink.setChild]
  · have onLeft' : ¬some x = up.left := fun same => onLeft same.symm
    by_cases onRight : up.right = some x
    · simp [onLeft, onLeft', onRight, State.setRight, State.setChild, State.write, there,
        Rblink.setChild]
    · have onRight' : ¬some x = up.right := fun same => onRight same.symm
      simp [onLeft, onLeft', onRight, onRight', ← there, Function.update_eq_self]

/-- An item without children is freed. -/
theorem freeLeaf_spec {s : State ι} {x : ι} {link : Rblink ι} (here : s.heap x = some link)
    (left : link.left = none) (right : link.right = none) (notHead : s.head ≠ some x)
    (count : 0 < s.numItems) (small : s.numItems < 2 ^ 32) :
    ∃ heap, s.freeLeaf (some x) = some { s with heap, numItems := s.numItems - 1 } ∧ heap x = none ∧
      ∀ z, z ≠ x → heap z = s.heap z := by
  have left' : s.left (some x) = some none := by
    simp [State.left, State.child, State.link, here, left, Rblink.child]
  have right' : s.right (some x) = some none := by
    simp [State.right, State.child, State.link, here, right, Rblink.child]
  have fewer : (s.numItems + (2 ^ 32 - 1)) % 2 ^ 32 = s.numItems - 1 := by omega
  refine ⟨Function.update s.heap x none, ?_, Function.update_self ..,
    fun z other => Function.update_of_ne other _ _⟩
  simp only [State.freeLeaf, Option.bind_eq_bind, left', right', Option.bind_some, Option.isNone_none,
    Bool.and_self, if_true, if_neg notHead, State.free, here, fewer]

theorem freeLeaf_inner {s : State ι} {x : ι} {link : Rblink ι} (here : s.heap x = some link)
    (right : link.right.isSome) : s.freeLeaf (some x) = some s := by
  have right' : s.right (some x) = some link.right := by
    simp [State.right, State.child, State.link, here, Rblink.child]
  have left' : s.left (some x) = some link.left := by
    simp [State.left, State.child, State.link, here, Rblink.child]
  have more : link.right.isNone = false := by simpa using right
  simp only [State.freeLeaf, Option.bind_eq_bind, left', right', Option.bind_some, more, Bool.and_false,
    Bool.false_eq_true, if_false]

/-- The round that leaves a finished item for its parent. -/
theorem ascend_spec {s : State ι} {x p : ι} {up : Rblink ι} {red : Bool}
    (here : s.heap x = some ⟨some p, none, none, red⟩) (there : s.heap p = some up) (apart : x ≠ p)
    (notHead : s.head ≠ some x) (count : 0 < s.numItems) (small : s.numItems < 2 ^ 32) (rounds : ℕ) :
    ∃ heap, Reaches rounds 1 s x { s with heap, down := false, numItems := s.numItems - 1 } p ∧
      heap x = none ∧ heap p = some (up.cut x) ∧ ∀ z, z ≠ x → z ≠ p → heap z = s.heap z := by
  obtain ⟨heap1, prunes, cut, frame1⟩ := prune_spec (s := { s with down := false }) here rfl there
  dsimp only at frame1
  have kept : heap1 x = some ⟨some p, none, none, red⟩ := (frame1 x apart).trans here
  obtain ⟨heap2, frees, gone, frame2⟩ :=
    freeLeaf_spec (s := { s with down := false, heap := heap1 }) kept rfl rfl
    notHead count small
  dsimp only at frame2
  refine ⟨heap2, fun n => ?_, gone, (frame2 p (Ne.symm apart)).trans cut, ?_⟩
  · have goes : s.goesDown (some x) = some false := by simp [State.goesDown, State.link, here]
    have parent : s.parent (some x) = some (some p) := by simp [State.parent, State.link, here]
    rw [State.destroyFrom]
    simp only [State.any, Option.bind_eq_bind, goes, parent, Option.bind_some, Bool.false_eq_true,
      if_false, Option.isNone_some, prunes, frees]
  · intro z notX notP
    rw [frame2 z notX, frame1 z notP]

/-- The round that goes on to the right subtree. -/
theorem descend_right {s : State ι} {x : Linked ι} {q : Option ι} {l r : Rblist ι} {y : Linked ι}
    (here : s.heap x.item = some ⟨q, none, some y.item, x.red⟩)
    (below : Shape s.heap (some x.item) (.node l y r)) {rounds : ℕ} (enough : (items l).length < rounds)
    (there : ∀ p, q = some p → ∃ up, s.heap p = some up) (apart : q ≠ some x.item) :
    ∃ heap, Reaches rounds 1 s x.item { s with heap, down := true }
      (Place.leftmost l y r []).item.item ∧
    (∀ p up, q = some p → s.heap p = some up → heap p = some (up.cut x.item)) ∧
      ∀ z, q ≠ some z → heap z = s.heap z := by
  have goes : s.goesDown (some x.item) = some true := by
    cases down : s.down <;> simp [State.goesDown, State.link, here, down]
  have right : s.right (some x.item) = some (some y.item) := by
    simp [State.right, State.child, State.link, here, Rblink.child]
  have leftmost := leftmost_spec below [] enough
  obtain ⟨heap, prunes, cut, frame⟩ : ∃ heap, State.prune { s with down := true } (some x.item) =
      some { s with heap, down := true } ∧
      (∀ p up, q = some p → s.heap p = some up → heap p = some (up.cut x.item)) ∧
      ∀ z, q ≠ some z → heap z = s.heap z := by
    cases q with
    | none =>
        refine ⟨s.heap, ?_, fun p up same => absurd same (Option.some_ne_none p).symm, fun z _ => rfl⟩
        simp [State.prune, State.parent, State.link, here]
    | some p =>
        obtain ⟨up, stays⟩ := there p rfl
        obtain ⟨heap, prunes, cut, frame⟩ := prune_spec (s := { s with down := true }) here rfl stays
        refine ⟨heap, prunes, ?_, fun z other => frame z fun same => other (by rw [same])⟩
        rintro p' up' same found
        cases same
        rw [stays] at found
        cases found
        exact cut
  refine ⟨heap, fun n => ?_, cut, frame⟩
  have kept : heap x.item = some ⟨q, none, some y.item, x.red⟩ := (frame x.item apart).trans here
  have inner := freeLeaf_inner (s := { s with heap, down := true }) kept rfl
  rw [State.destroyFrom]
  simp only [State.any, Option.bind_eq_bind, goes, Option.bind_some, if_true, State.downRight,
    right, leftmost, Option.map_some, Option.isNone_some, Bool.false_eq_true, if_false, prunes, inner]

/-- What is left of a subtree when the loop of `destroy` stands at its root for the last time. -/
structure Emptied (s s' : State ι) (q : Option ι) (x : Linked ι) (t : Rblist ι) : Prop where
  top : s'.heap x.item = some ⟨q, none, none, x.red⟩
  freed : ∀ z ∈ items t, z ≠ x.item → s'.heap z = none
  above : ∀ p up, q = some p → s.heap p = some up →
    s'.heap p = some up ∨ s'.heap p = some (up.cut x.item)
  rest : ∀ z, z ∉ items t → q ≠ some z → s'.heap z = s.heap z
  head : s'.head = s.head
  count : s'.numItems + (items t).length = s.numItems + 1

/-- When the loop of `destroy` may begin with a subtree. -/
structure Ripe (rounds : ℕ) (s : State ι) (q : Option ι) (x : Linked ι) (t : Rblist ι) : Prop where
  shape : Shape s.heap q t
  nodup : (items t).Nodup
  above : ∀ p, q = some p → p ∉ items t ∧ ∃ up, s.heap p = some up
  head : ∀ z ∈ items t, z ≠ x.item → s.head ≠ some z
  count : (items t).length ≤ s.numItems
  small : s.numItems < 2 ^ 32
  enough : (items t).length ≤ rounds

/-- The loop from the first item of a subtree to its root. -/
def Empties (rounds : ℕ) (t : Rblist ι) : Prop :=
  ∀ l x r, t = .node l x r → ∀ s q, s.down = true → Ripe rounds s q x t →
    ∃ s' k, k ≤ 2 * (items t).length - 2 ∧
      Reaches rounds k s (Place.leftmost l x r []).item.item s' x.item ∧ Emptied s s' q x t

omit [DecidableEq ι] in
theorem leftmost_item (l r : Rblist ι) (x : Linked ι) (path path' : Path (Linked ι)) (r' : Rblist ι) :
    (Place.leftmost l x r path).item = (Place.leftmost l x r' path').item := by
  induction l generalizing x r path r' path' with
  | nil => rfl
  | node ll y lr ihl ihr => exact ihl lr y (⟨.left, x, r⟩ :: path) (⟨.left, x, r'⟩ :: path') lr

/-- A child is emptied and left for the item above it. -/
theorem child_done {rounds : ℕ} {l : Rblist ι} {y : Linked ι} {ll lr : Rblist ι} {x : ι} {up : Rblink ι}
    (empties : Empties rounds l) (form : l = .node ll y lr) {s : State ι} (down : s.down = true)
    (ripe : Ripe rounds s (some x) y l) (top : s.head ≠ some y.item) (here : s.heap x = some up)
    (once : ¬(up.left = some y.item ∧ up.right = some y.item)) :
    ∃ s' k, k ≤ 2 * (items l).length - 1 ∧
      Reaches rounds k s (Place.leftmost ll y lr []).item.item s' x ∧ s'.heap x = some (up.cut y.item) ∧
      (∀ z ∈ items l, s'.heap z = none) ∧ (∀ z, z ∉ items l → z ≠ x → s'.heap z = s.heap z) ∧
      s'.head = s.head ∧ s'.numItems + (items l).length = s.numItems := by
  obtain ⟨s1, k, bound, reached, emptied⟩ := empties ll y lr form s (some x) down ripe
  have member : y.item ∈ items l := root_mem (by rw [form]; rfl)
  have size : 0 < (items l).length := List.length_pos_of_mem member
  have outside : x ∉ items l := (ripe.above x rfl).1
  have apart : y.item ≠ x := fun same => outside (same ▸ member)
  have total := emptied.count
  have room := ripe.count
  have small := ripe.small
  obtain ⟨up', there, cut⟩ : ∃ up', s1.heap x = some up' ∧ up'.cut y.item = up.cut y.item := by
    rcases emptied.above x up rfl here with same | cut
    · exact ⟨up, same, rfl⟩
    · exact ⟨up.cut y.item, cut, Rblink.cut_cut once⟩
  obtain ⟨heap, round, gone, now, frame⟩ := ascend_spec emptied.top there apart
    (by rw [emptied.head]; exact top) (by omega) (by omega) rounds
  refine ⟨_, 1 + k, by omega, reached.trans round, ?_, ?_, ?_, emptied.head, ?_⟩
  · rw [← cut]
    exact now
  · intro z inside
    by_cases same : z = y.item
    · rw [same]
      exact gone
    · have notX : z ≠ x := fun same => outside (same ▸ inside)
      exact (frame z same notX).trans (emptied.freed z inside same)
  · intro z notL notX
    have notY : z ≠ y.item := fun same => notL (same ▸ member)
    exact (frame z notY notX).trans
      (emptied.rest z notL fun same => notX (Option.some_inj.mp same).symm)
  · change s1.numItems - 1 + _ = _
    omega

omit [DecidableEq ι] in
theorem Ripe.left {rounds : ℕ} {s : State ι} {q : Option ι} {x y : Linked ι} {l r : Rblist ι}
    (ripe : Ripe rounds s q x (.node l x r)) (top : root l = some y.item) :
    Ripe rounds s (some x.item) y l ∧ s.head ≠ some y.item := by
  obtain ⟨⟨link, shape, -⟩, nodup, -, head, count, small, enough⟩ := ripe
  rw [items_node] at nodup head count enough
  rw [List.length_append, List.length_cons] at count enough
  obtain ⟨nodupL, -, apart⟩ := List.nodup_append.mp nodup
  have free : ∀ z ∈ items l, z ≠ x.item := fun z inside => apart z inside x.item List.mem_cons_self
  refine ⟨⟨shape, nodupL, ?_, ?_, by omega, small, by omega⟩, ?_⟩
  · intro p same
    cases same
    exact ⟨fun inside => free _ inside rfl, _, link⟩
  · exact fun z inside _ => head z (List.mem_append_left _ inside) (free z inside)
  · exact head _ (List.mem_append_left _ (root_mem top)) (free _ (root_mem top))

/-- The state after the left subtree. -/
structure LeftDone (s s' : State ι) (q : Option ι) (l : Rblist ι) (x : Linked ι) (r : Rblist ι) :
    Prop where
  here : s'.heap x.item = some ⟨q, none, root r, x.red⟩
  freed : ∀ z ∈ items l, s'.heap z = none
  rest : ∀ z, z ∉ items l → z ≠ x.item → s'.heap z = s.heap z
  head : s'.head = s.head
  count : s'.numItems + (items l).length = s.numItems

theorem left_done {rounds : ℕ} {l r : Rblist ι} {x : Linked ι} (empties : Empties rounds l)
    {s : State ι} {q : Option ι} (down : s.down = true) (ripe : Ripe rounds s q x (.node l x r)) :
    ∃ s' k, k ≤ 2 * (items l).length ∧
      Reaches rounds k s (Place.leftmost l x r []).item.item s' x.item ∧ LeftDone s s' q l x r := by
  have link := ripe.shape.1
  cases l with
  | nil =>
      refine ⟨s, 0, Nat.zero_le _, Reaches.refl rounds s x.item, link, ?_, fun _ _ _ => rfl, rfl, rfl⟩
      intro z inside
      cases inside
  | node ll y lr =>
      obtain ⟨ripeL, notHead⟩ := ripe.left (y := y) rfl
      have once : ¬(some y.item = some y.item ∧ root r = some y.item) := by
        rintro ⟨-, same⟩
        have nodup := ripe.nodup
        rw [items_node] at nodup
        have apart := (List.nodup_append.mp nodup).2.2
        exact apart y.item (root_mem rfl) y.item (List.mem_cons_of_mem _ (root_mem same)) rfl
      obtain ⟨s', k, bound, reached, now, freed, rest, head, count⟩ :=
        child_done empties rfl down ripeL notHead link once
      refine ⟨s', k, by omega, ?_, ?_, freed, rest, head, count⟩
      · rw [Place.leftmost, leftmost_item ll lr y _ [] lr]
        exact reached
      · rw [now]
        simp [Rblink.cut, root]

section RightDone

variable {rounds : ℕ} {s s1 : State ι} {q : Option ι} {l r : Rblist ι} {x y : Linked ι}

omit [DecidableEq ι] in
theorem mem_node {z : ι} : z ∈ items (.node l x r) ↔ z ∈ items l ∨ z = x.item ∨ z ∈ items r := by
  rw [items_node, List.mem_append, List.mem_cons]

omit [DecidableEq ι] in
/-- An item above the subtree is as it was. -/
theorem LeftDone.stays (done : LeftDone s s1 q l x r) {z : ι} (outside : z ∉ items (.node l x r)) :
    s1.heap z = s.heap z := by
  rw [mem_node, not_or, not_or] at outside
  exact done.rest z outside.1 outside.2.1

theorem LeftDone.emptied (ripe : Ripe rounds s q x (.node l x .nil)) (done : LeftDone s s1 q l x .nil) :
    Emptied s s1 q x (.node l x .nil) := by
  have count := done.count
  refine ⟨done.here, ?_, ?_, fun z outside _ => done.stays outside, done.head, ?_⟩
  · intro z inside notX
    rcases mem_node.mp inside with left | same | right
    · exact done.freed z left
    · exact absurd same notX
    · cases right
  · intro p up same there
    rw [done.stays (ripe.above p same).1]
    exact Or.inl there
  · rw [items_node, List.length_append, List.length_cons]
    change _ + (_ + (0 + 1)) = _
    omega

omit [DecidableEq ι] in
/-- The state with which the loop begins the right subtree. -/
theorem LeftDone.right (ripe : Ripe rounds s q x (.node l x r)) (done : LeftDone s s1 q l x r)
    (top : root r = some y.item) {heap : ι → Option (Rblink ι)}
    (frame : ∀ z, q ≠ some z → heap z = s1.heap z) :
    Ripe rounds { s1 with heap, down := true } (some x.item) y r ∧ s1.head ≠ some y.item := by
  obtain ⟨⟨-, -, shape⟩, nodup, above, headFree, room, small, enough⟩ := ripe
  have total := done.count
  rw [items_node] at nodup room enough
  rw [List.length_append, List.length_cons] at room enough
  obtain ⟨-, nodupXR, apart⟩ := List.nodup_append.mp nodup
  obtain ⟨xR, nodupR⟩ := List.nodup_cons.mp nodupXR
  have free : ∀ z ∈ items r, z ≠ x.item ∧ z ∉ items l ∧ q ≠ some z := by
    intro z inside
    refine ⟨fun same => xR (same ▸ inside), fun left => ?_, fun same => ?_⟩
    · exact apart z left z (List.mem_cons_of_mem _ inside) rfl
    · exact (above z same).1 (mem_node.mpr (Or.inr (Or.inr inside)))
  have notQ : q ≠ some x.item := fun same => (above _ same).1 (mem_node.mpr (Or.inr (Or.inl rfl)))
  have headFree' : ∀ z ∈ items r, s1.head ≠ some z := by
    intro z inside
    rw [done.head]
    exact headFree z (mem_node.mpr (Or.inr (Or.inr inside))) (free z inside).1
  refine ⟨⟨shape.congr ?_, nodupR, ?_, fun z inside _ => headFree' z inside, ?_, ?_, ?_⟩,
    headFree' _ (root_mem top)⟩
  · intro z inside
    obtain ⟨notX, notL, notQ⟩ := free z inside
    exact (frame z notQ).trans (done.rest z notL notX)
  · intro p same
    cases same
    exact ⟨xR, _, (frame x.item notQ).trans done.here⟩
  · change _ ≤ s1.numItems
    omega
  · change s1.numItems < _
    omega
  · omega

end RightDone

/-- The loop of `destroy` empties every subtree. -/
theorem empties (rounds : ℕ) (t : Rblist ι) : Empties rounds t := by
  induction t with
  | nil =>
      intro l x r form
      cases form
  | node l x r ihl ihr =>
      intro _ _ _ form s q down ripe
      cases form
      obtain ⟨s1, k1, bound1, reached1, done⟩ := left_done ihl down ripe
      have size : (items (.node l x r)).length = (items l).length + 1 + (items r).length := by
        rw [items_node, List.length_append, List.length_cons]
        omega
      cases r with
      | nil => exact ⟨s1, k1, by omega, reached1, done.emptied ripe⟩
      | node rl y rr =>
          have notQ : q ≠ some x.item := fun same =>
            (ripe.above _ same).1 (mem_node.mpr (Or.inr (Or.inl rfl)))
          have there : ∀ p, q = some p → ∃ up, s1.heap p = some up := by
            intro p same
            obtain ⟨outside, up, here⟩ := ripe.above p same
            exact ⟨up, (done.stays outside).trans here⟩
          have apart : ∀ z ∈ items l, z ∉ items (.node rl y rr) := by
            intro z left right
            have nodup := ripe.nodup
            rw [items_node] at nodup
            exact (List.nodup_append.mp nodup).2.2 z left z (List.mem_cons_of_mem _ right) rfl
          have enough := ripe.enough
          have sizeR : (items (.node rl y rr)).length = (items rl).length + 1 + (items rr).length := by
            rw [items_node, List.length_append, List.length_cons]
            omega
          have below : Shape s1.heap (some x.item) (.node rl y rr) :=
            (done.right ripe (y := y) rfl fun _ _ => rfl).1.shape
          obtain ⟨heap, round, cut, frame⟩ :=
            descend_right done.here below (show (items rl).length < rounds by omega) there notQ
          obtain ⟨ripeR, notHead⟩ := done.right ripe (y := y) rfl frame
          have here : heap x.item = some ⟨q, none, some y.item, x.red⟩ :=
            (frame x.item notQ).trans done.here
          obtain ⟨s2, k2, bound2, reached2, now, freed, rest, head, count⟩ :=
            child_done ihr rfl rfl ripeR notHead here (by simp)
          refine ⟨s2, k2 + (1 + k1), by omega, (reached1.trans round).trans reached2, ?_, ?_, ?_, ?_,
            head.trans done.head, ?_⟩
          · rw [now]
            simp [Rblink.cut]
          · intro z inside notX
            rcases mem_node.mp inside with left | same | right
            · have notR : z ∉ items (.node rl y rr) := fun right => apart z left right
              have stays : q ≠ some z := fun same => (ripe.above z same).1 inside
              exact (rest z notR notX).trans ((frame z stays).trans (done.freed z left))
            · exact absurd same notX
            · exact freed z right
          · intro p up same there
            obtain ⟨outside, -⟩ := ripe.above p same
            have free := outside
            rw [mem_node, not_or, not_or] at free
            right
            exact (rest p free.2.2 free.2.1).trans (cut p up same ((done.stays outside).trans there))
          · intro z outside stays
            have free := outside
            rw [mem_node, not_or, not_or] at free
            exact (rest z free.2.2 free.2.1).trans ((frame z stays).trans (done.stays outside))
          · have first := done.count
            change _ = s1.numItems at count
            omega

/-- `destroy` frees every item of the list once, and nothing else. -/
theorem destroy_spec {s : State ι} {t : Rblist ι} (stored : Stored s t)
    (small : (items t).length < 2 ^ 32) {rounds : ℕ} (enough : 2 * (items t).length < rounds) :
    ∃ s', s.destroy rounds = some s' ∧ s'.head = none ∧ s'.numItems = 0 ∧
      (∀ z ∈ items t, s'.heap z = none) ∧ ∀ z, z ∉ items t → s'.heap z = s.heap z := by
  have started := first_code stored.holds (show (items t).length ≤ rounds by omega)
  have head := stored.holds.head
  have count := stored.count
  obtain ⟨rounds, rfl⟩ := Nat.exists_eq_add_one_of_ne_zero (Nat.ne_zero_of_lt enough)
  cases t with
  | nil =>
      have empty : s.head = none := head
      refine ⟨{ s with down := true, head := none }, ?_, rfl, count, ?_, fun _ _ => rfl⟩
      · simp [State.destroy, started, Rblist.first, State.destroyFrom, State.any, empty]
      · intro z inside
        cases inside
  | node l x r =>
      have top : s.head = some x.item := head
      have ripe : Ripe (rounds + 1) { s with down := true } none x (.node l x r) := by
        refine ⟨stored.holds.shape, stored.holds.nodup, ?_, ?_, count.ge, ?_, by omega⟩
        · intro p none
          cases none
        · intro z inside notX same
          change s.head = some z at same
          rw [top] at same
          exact notX (Option.some_inj.mp same).symm
        · change s.numItems < _
          omega
      obtain ⟨s1, k, bound, reached, emptied⟩ :=
        empties (rounds + 1) (.node l x r) l x r rfl { s with down := true } none rfl ripe
      have size : 0 < (items (.node l x r)).length := List.length_pos_of_mem (root_mem rfl)
      obtain ⟨n, split⟩ : ∃ n, rounds + 1 = n + 1 + k := ⟨rounds - k, by omega⟩
      have loop : State.destroyFrom (rounds + 1) (rounds + 1) { s with down := true }
          (some (Place.leftmost l x r []).item.item) = some (some x.item, s1) := by
        have goes : s1.goesDown (some x.item) = some false := by
          simp [State.goesDown, State.link, emptied.top]
        have parent : s1.parent (some x.item) =
          some none := by simp [State.parent, State.link, emptied.top]
        have last := reached (n + 1)
        rw [← split] at last
        rw [last, State.destroyFrom]
        simp [State.any, goes, parent]
      have head1 : s1.head = some x.item := emptied.head.trans top
      have count1 : s1.numItems = 1 := by
        have total := emptied.count
        change _ = s.numItems + 1 at total
        omega
      have wrapped : (1 + (2 ^ 32 - 1)) % 2 ^ 32 = 0 := by norm_num
      refine ⟨{ s1 with heap := Function.update s1.heap x.item none, head := none, numItems := 0 },
        ?_, rfl, rfl, ?_, ?_⟩
      · simp only [State.destroy, Option.bind_eq_bind, started, Rblist.first, Option.map_some,
          Option.bind_some, loop, head1, Option.isSome_some, if_true, State.free, emptied.top,
          count1, wrapped]
        rfl
      · intro z inside
        by_cases same : z = x.item
        · rw [same]
          exact Function.update_self ..
        · exact (Function.update_of_ne same _ _).trans (emptied.freed z inside same)
      · intro z outside
        have other : z ≠ x.item := by
          intro same
          exact outside (same ▸ root_mem rfl)
        exact (Function.update_of_ne other _ _).trans
          (emptied.rest z outside (Option.some_ne_none z).symm)

end Bacula.Rblist
