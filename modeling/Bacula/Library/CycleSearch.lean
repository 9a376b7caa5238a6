import Mathlib

/-!
# Searching a graph for a cycle

The depth-first search with three colours: a node is gray while its successors are visited and
black when none of them led to a gray node. It finds a cycle exactly when there is one.
-/
namespace CycleSearch
open Relation

variable {ι : Type}

inductive Color where
  | white
  | black
  | gray
  deriving DecidableEq, Repr

/-- The successors of a node, up to one that is gray or that leads to a cycle. -/
def visitAll (visit : ι → (ι → Color) → Bool × (ι → Color)) : List ι → (ι → Color) → Bool × (ι → Color)
  | [], color => (false, color)
  | n :: ns, color =>
      match color n with
      | .gray => (true, color)
      | .black => visitAll visit ns color
      | .white =>
          if (visit n color).1 then (true, (visit n color).2)
          else visitAll visit ns (visit n color).2

def visit [DecidableEq ι] (succs : ι → List ι) : (fuel : ℕ) → ι → (ι → Color) → Bool × (ι → Color)
  | 0, _, color => (false, color)
  | fuel+1, v, color =>
      let result := visitAll (visit succs fuel) (succs v) (Function.update color v .gray)
      if result.1 then (true, result.2) else (false, Function.update result.2 v .black)

def containsCycle [DecidableEq ι] (succs : ι → List ι) (fuel : ℕ) : List ι → (ι → Color) → Bool
  | [], _ => false
  | n :: ns, color =>
      if color n = .white then
        if (visit succs fuel n color).1 then true
        else containsCycle succs fuel ns (visit succs fuel n color).2
      else containsCycle succs fuel ns color

variable {succs : ι → List ι} {nodes : List ι}

def Edge (succs : ι → List ι) (u w : ι) : Prop := w ∈ succs u

/-- Black nodes lead to black nodes only, and to no cycle. -/
structure Explored (succs : ι → List ι) (color : ι → Color) : Prop where
  closed : ∀ u, color u = .black → ∀ w ∈ succs u, color w = .black
  acyclic : ∀ u, color u = .black → ¬ TransGen (Edge succs) u u

/-- What a search leaves behind when it finds nothing. -/
structure Grown (color color' : ι → Color) : Prop where
  gray : ∀ u, color' u = .gray ↔ color u = .gray
  black : ∀ u, color u = .black → color' u = .black

theorem Grown.refl (color : ι → Color) : Grown color color := ⟨fun _ => Iff.rfl, fun _ => id⟩

theorem Grown.trans {a b c : ι → Color} (first : Grown a b) (second : Grown b c) : Grown a c :=
  ⟨fun u => (second.gray u).trans (first.gray u), fun u black => second.black u (first.black u black)⟩

theorem Explored.reach {color : ι → Color} (explored : Explored succs color) {u w : ι}
    (black : color u = .black) (path : ReflTransGen (Edge succs) u w) : color w = .black := by
  induction path with
  | refl => exact black
  | tail _ edge ih => exact explored.closed _ ih _ edge

def whites (nodes : List ι) (color : ι → Color) : ℕ := nodes.countP (color · = .white)

theorem Grown.whites_le {color color' : ι → Color} (grown : Grown color color') :
    whites nodes color' ≤ whites nodes color := by
  refine List.countP_mono_left fun u _ white => ?_
  rw [decide_eq_true_eq] at white ⊢
  cases old : color u with
  | white => rfl
  | black => rw [grown.black u old] at white; cases white
  | gray => rw [(grown.gray u).mpr old] at white; cases white

variable [DecidableEq ι]

theorem whites_update_lt {color : ι → Color} {v : ι} (inside : v ∈ nodes) (white : color v = .white) :
    whites nodes (Function.update color v .gray) < whites nodes color := by
  rw [whites, whites]
  obtain ⟨before, after, rfl⟩ := List.append_of_mem inside
  have less (l : List ι) : l.countP (Function.update color v .gray · = .white) ≤
      l.countP (color · = .white) := by
    refine List.countP_mono_left fun u _ new => ?_
    by_cases same : u = v
    · rw [same, decide_eq_true_eq]
      exact white
    · rwa [Function.update_of_ne same] at new
  have first := less before
  have last := less after
  simp only [List.countP_append, List.countP_cons, Function.update_self, white]
  simp only [decide_true, reduceCtorEq, decide_false, Bool.false_eq_true, if_true, if_false]
  omega

/-- The result of a search of which all gray nodes lead to its start: a cycle, or a bigger part of
the graph that is explored, with the start. -/
def Searched (succs : ι → List ι) (color : ι → Color) (starts : List ι)
    (result : Bool × (ι → Color)) : Prop :=
  if result.1 then ∃ u, TransGen (Edge succs) u u
  else Explored succs result.2 ∧ Grown color result.2 ∧ ∀ n ∈ starts, result.2 n = .black

omit [DecidableEq ι] in
theorem visitAll_searched {fuel : ℕ} {f : ι → (ι → Color) → Bool × (ι → Color)}
    (ih : ∀ n color, n ∈ nodes → color n = .white → whites nodes color ≤ fuel → Explored succs color →
      (∀ u, color u = .gray → TransGen (Edge succs) u n) → Searched succs color [n] (f n color))
    {ns : List ι} (inside : ∀ n ∈ ns, n ∈ nodes) {color : ι → Color}
    (enough : whites nodes color ≤ fuel) (explored : Explored succs color)
    (path : ∀ n ∈ ns, ∀ u, color u = .gray → TransGen (Edge succs) u n) :
    Searched succs color ns (visitAll f ns color) := by
  induction ns generalizing color with
  | nil => exact ⟨explored, Grown.refl color, fun _ none => absurd none List.not_mem_nil⟩
  | cons n ns rest =>
      have more : ∀ m ∈ ns, m ∈ nodes := fun m h => inside m (List.mem_cons_of_mem n h)
      rw [visitAll]
      cases here : color n with
      | gray => exact ⟨n, path n List.mem_cons_self n here⟩
      | black =>
          have tail := rest more enough explored fun m h => path m (List.mem_cons_of_mem n h)
          dsimp only
          rw [Searched] at tail ⊢
          split
          case isTrue found => rwa [if_pos found] at tail
          case isFalse clean =>
            rw [if_neg clean] at tail
            obtain ⟨explored', grown, blacks⟩ := tail
            refine ⟨explored', grown, fun m h => ?_⟩
            rcases List.mem_cons.mp h with rfl | h
            · exact grown.black m here
            · exact blacks m h
      | white =>
          have first :=
            ih n color (inside n List.mem_cons_self) here enough explored (path n List.mem_cons_self)
          dsimp only
          by_cases found : (f n color).1 = true
          · rw [if_pos found]
            rwa [Searched, if_pos found] at first
          · rw [Searched, if_neg found] at first
            rw [if_neg found]
            obtain ⟨explored', grown, black⟩ := first
            have tail := rest more (grown.whites_le.trans enough) explored' fun m h u gray =>
              path m (List.mem_cons_of_mem n h) u ((grown.gray u).mp gray)
            rw [Searched] at tail ⊢
            split
            case isTrue found => rwa [if_pos found] at tail
            case isFalse clean =>
              rw [if_neg clean] at tail
              obtain ⟨explored'', grown', blacks⟩ := tail
              refine ⟨explored'', grown.trans grown', fun m h => ?_⟩
              rcases List.mem_cons.mp h with rfl | h
              · exact grown'.black m (black m (List.mem_singleton_self m))
              · exact blacks m h

theorem visit_searched (inside : ∀ u ∈ nodes, ∀ w ∈ succs u, w ∈ nodes) (fuel : ℕ) {v : ι}
    (node : v ∈ nodes) {color : ι → Color} (white : color v = .white)
    (enough : whites nodes color ≤ fuel) (explored : Explored succs color)
    (path : ∀ u, color u = .gray → TransGen (Edge succs) u v) :
    Searched succs color [v] (visit succs fuel v color) := by
  induction fuel generalizing v color with
  | zero =>
      have := whites_update_lt node white
      omega
  | succ fuel ih =>
      have less := whites_update_lt node white
      have old {u : ι} {c : Color} (other : c ≠ .gray) (here : Function.update color v .gray u = c) :
          u ≠ v ∧ color u = c := by
        by_cases same : u = v
        · rw [same, Function.update_self] at here
          exact absurd here.symm other
        · exact ⟨same, by rwa [Function.update_of_ne same] at here⟩
      have keeps {u : ι} (black : color u = .black) : Function.update color v .gray u = .black := by
        rwa [Function.update_of_ne]
        rintro rfl
        rw [white] at black
        cases black
      have explored' : Explored succs (Function.update color v .gray) :=
        ⟨fun u black w edge => keeps (explored.closed u (old (by decide) black).2 w edge),
          fun u black => explored.acyclic u (old (by decide) black).2⟩
      have searched :=
        visitAll_searched (f := visit succs fuel) (fun n color node white enough explored path =>
          ih node white enough explored path) (inside v node) (by omega) explored'
            (fun n edge u gray => by
            by_cases same : u = v
            · exact same ▸ .single edge
            · rw [Function.update_of_ne same] at gray
              exact (path u gray).tail edge)
      rw [visit]
      generalize visitAll (visit succs fuel) (succs v) (Function.update color v .gray) =
        result at searched
      obtain ⟨found, color'⟩ := result
      cases found with
      | true => exact searched
      | false =>
          obtain ⟨explored'', grown, blacks⟩ : Explored succs color' ∧ Grown _ color' ∧
            ∀ n ∈ succs v, color' n = .black := searched
          have gray : color' v = .gray := (grown.gray v).mpr (Function.update_self ..)
          have stays {u : ι} (black : color' u = .black) : Function.update color' v .black u =
              .black := by
            by_cases same : u = v
            · rw [same, Function.update_self]
            · rwa [Function.update_of_ne same]
          change Explored succs (Function.update color' v .black) ∧
            Grown color (Function.update color' v .black) ∧
            ∀ n ∈ [v], Function.update color' v .black n = .black
          refine ⟨⟨fun u black w edge => ?_, fun u black => ?_⟩, ⟨fun u => ?_, fun u black => ?_⟩,
            fun n one => ?_⟩
          · by_cases same : u = v
            · exact stays (blacks w (same ▸ edge))
            · rw [Function.update_of_ne same] at black
              exact stays (explored''.closed u black w edge)
          · by_cases same : u = v
            · -- the way back to the node would start at a black successor
              subst same
              intro cycle
              obtain ⟨w, edge, back⟩ := TransGen.head'_iff.mp cycle
              have := explored''.reach (blacks w edge) back
              rw [gray] at this
              cases this
            · rw [Function.update_of_ne same] at black
              exact explored''.acyclic u black
          · by_cases same : u = v
            · rw [same, Function.update_self, white]
              decide
            · rw [Function.update_of_ne same, grown.gray, Function.update_of_ne same]
          · exact stays (grown.black u (keeps black))
          · rw [List.mem_singleton.mp one, Function.update_self]

theorem containsCycle_searched (inside : ∀ u ∈ nodes, ∀ w ∈ succs u, w ∈ nodes) {fuel : ℕ} {ns : List ι}
    (some : ∀ n ∈ ns, n ∈ nodes) {color : ι → Color} (enough : whites nodes color ≤ fuel)
    (explored : Explored succs color) (noGray : ∀ u, color u ≠ .gray) :
    (containsCycle succs fuel ns color = true → ∃ u, TransGen (Edge succs) u u) ∧
      (containsCycle succs fuel ns color = false →
        ∃ color', Explored succs color' ∧ Grown color color' ∧ ∀ n ∈ ns, color' n = .black) := by
  induction ns generalizing color with
  | nil =>
      exact ⟨fun none => absurd none Bool.false_ne_true, fun _ => ⟨color, explored, Grown.refl color,
        fun _ none => absurd none List.not_mem_nil⟩⟩
  | cons n ns ih =>
      have more : ∀ m ∈ ns, m ∈ nodes := fun m h => some m (List.mem_cons_of_mem n h)
      rw [containsCycle]
      by_cases white : color n = .white
      · rw [if_pos white]
        have first := visit_searched inside fuel (some n List.mem_cons_self) white enough explored
          fun u gray => absurd gray (noGray u)
        by_cases found : (visit succs fuel n color).1 = true
        · rw [Searched, if_pos found] at first
          rw [if_pos found]
          exact ⟨fun _ => first, fun clean => by cases clean⟩
        · rw [Searched, if_neg found] at first
          rw [if_neg found]
          obtain ⟨explored', grown, black⟩ := first
          obtain ⟨yes, no⟩ := ih more (grown.whites_le.trans enough) explored' fun u gray =>
            noGray u ((grown.gray u).mp gray)
          refine ⟨yes, fun clean => ?_⟩
          obtain ⟨color', explored'', grown', blacks⟩ := no clean
          refine ⟨color', explored'', grown.trans grown', fun m h => ?_⟩
          rcases List.mem_cons.mp h with rfl | h
          · exact grown'.black m (black m (List.mem_singleton_self m))
          · exact blacks m h
      · rw [if_neg white]
        have black : color n = .black := by
          cases here : color n with
          | white => exact absurd here white
          | black => rfl
          | gray => exact absurd here (noGray n)
        obtain ⟨yes, no⟩ := ih more enough explored noGray
        refine ⟨yes, fun clean => ?_⟩
        obtain ⟨color', explored', grown, blacks⟩ := no clean
        refine ⟨color', explored', grown, fun m h => ?_⟩
        rcases List.mem_cons.mp h with rfl | h
        · exact grown.black m black
        · exact blacks m h

/-- The search finds a cycle exactly when the graph has one. -/
theorem containsCycle_iff (inside : ∀ u w, w ∈ succs u → u ∈ nodes ∧ w ∈ nodes) {fuel : ℕ}
    (enough : nodes.length ≤ fuel) :
    containsCycle succs fuel nodes (fun _ => .white) = true ↔ ∃ u, TransGen (Edge succs) u u := by
  have noBlack : ∀ u : ι, (fun _ : ι => Color.white) u ≠ .black := fun _ black => by cases black
  have noGray : ∀ u : ι, (fun _ : ι => Color.white) u ≠ .gray := fun _ gray => by cases gray
  have start : Explored succs fun _ => .white :=
    ⟨fun u black => absurd black (noBlack u), fun u black => absurd black (noBlack u)⟩
  obtain ⟨yes, no⟩ := containsCycle_searched (fun u _ w edge => (inside u w edge).2) (fun _ h => h)
    (List.countP_le_length.trans enough) start noGray
  refine ⟨yes, fun ⟨u, cycle⟩ => ?_⟩
  by_contra clean
  obtain ⟨color', explored, -, blacks⟩ := no (Bool.not_eq_true _ ▸ clean)
  obtain ⟨w, edge, -⟩ := TransGen.head'_iff.mp cycle
  exact explored.acyclic u (blacks u (inside u w edge).1) cycle

end CycleSearch
