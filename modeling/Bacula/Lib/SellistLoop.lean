import Bacula.Lib.Sellist

/-! Loops over a selection list. A loop that comes to the keyword overwrites the separator
behind it, so that the string ends there for the loops that follow. -/
namespace Bacula.Sellist
open CMemory Iterator

/-- The values of a range. -/
def expand (beg last : ℤ) : List ℤ := 
  (List.range (last + 1 - beg).toNat).map fun i : ℕ => beg + i

theorem expand_cons {beg last : ℤ} (more : beg ≤ last) :
    expand beg last = beg :: expand (beg + 1) last := by
  have count : (last + 1 - beg).toNat = (last + 1 - (beg + 1)).toNat + 1 := by omega
  rw [expand, count, List.range_succ_eq_map, List.map_cons, List.map_map, expand]
  refine congrArg₂ List.cons (by simp) (List.map_congr_left fun i _ => ?_)
  rw [Function.comp_apply, Nat.succ_eq_add_one]
  push_cast
  ring

theorem expand_nil {beg last : ℤ} (done : last < beg) : expand beg last = [] := by
  rw [expand, show (last + 1 - beg).toNat = 0 by omega]
  rfl

theorem mem_expand {beg last x : ℤ} : x ∈ expand beg last ↔ beg ≤ x ∧ x ≤ last := by
  unfold expand
  rw [List.mem_map]
  constructor
  · rintro ⟨i, member, rfl⟩
    have below := List.mem_range.mp member
    omega
  · intro inside
    exact ⟨(x - beg).toNat, List.mem_range.mpr (by omega), by omega⟩

/-- The largest `int64_t`. -/
def maxInt64 : ℤ := 2 ^ 63 - 1

theorem readItem_range {q : List Char} {beg last : ℤ}
    (read : readItem q = .ok (some (beg, last))) : 0 < beg ∧ beg ≤ last ∧ last ≤ maxInt64 := by
  have small (text : List Char) : strToInt64 text ≤ maxInt64 := by
    unfold strToInt64 maxInt64
    split <;> exact Int.le_sub_one_of_lt (int64_lt _)
  unfold readItem at read
  dsimp only at read
  split at read
  · split_ifs at read with first stop start order positive
    obtain ⟨rfl, rfl⟩ := Prod.mk.inj (Option.some.inj (Except.ok.inj read))
    rw [not_or, not_le, not_le] at positive
    exact ⟨positive.1, le_of_lt (not_le.mp order), small _⟩
  · split_ifs at read with cancel all integer positive
    · cases read
    obtain ⟨rfl, rfl⟩ := Prod.mk.inj (Option.some.inj (Except.ok.inj read))
    rw [not_or, not_le] at positive
    exact ⟨positive.1, le_refl _, small _⟩

section Pending

variable {l l' : Sellist} {values : List ℤ}

theorem next_pending (more : l.beg ≤ l.«end») (noError : l.errmsg = none) :
    l.next = (l.beg, { l with beg := int64 (l.beg + 1) }) := by
  unfold next
  dsimp only
  rw [if_pos more, ← noError]

theorem advance_pending (more : l.beg ≤ l.«end») (positive : 0 < l.beg)
    (noError : l.errmsg = none) :
    l.advance = (some l.beg, { l with beg := int64 (l.beg + 1) }) := by
  rw [advance, item, next_pending more noError]
  dsimp only
  rw [if_pos (le_of_lt positive)]

/-- A loop sees the rest of a range, and goes on behind it. -/
theorem pending_drains (positive : 0 < l.beg) (order : l.beg ≤ l.«end» + 1)
    (small : l.«end» < maxInt64) (noError : l.errmsg = none)
    (behind : Drains advance { l with beg := l.«end» + 1 }.advance values l') :
    Drains advance l.advance (expand l.beg l.«end» ++ values) l' := by
  induction left : (l.«end» + 1 - l.beg).toNat generalizing l with
  | zero =>
      have done : l.beg = l.«end» + 1 := by omega
      rw [expand_nil (by omega), List.nil_append]
      rw [← done] at behind
      exact behind
  | succ n ih =>
      have more : l.beg ≤ l.«end» := by omega
      have step : int64 (l.beg + 1) = l.beg + 1 := by
        unfold maxInt64 at small
        exact int64_of_lt (by omega) (by omega)
      rw [advance_pending more positive noError, expand_cons more, step]
      refine .item (ih (l := { l with beg := l.beg + 1 }) ?_ ?_ small noError behind ?_)
      · dsimp only
        omega
      · dsimp only
        omega
      · dsimp only
        omega

/-- The number behind the largest one is negative, so a loop ends with the largest one. -/
theorem pending_max (positive : 0 < l.beg) (order : l.beg ≤ l.«end»)
    (largest : l.«end» = maxInt64) (noError : l.errmsg = none) :
    ∃ beg, Drains advance l.advance (expand l.beg l.«end») { l with beg } := by
  induction left : (l.«end» - l.beg).toNat generalizing l with
  | zero =>
      have same : l.beg = maxInt64 := by omega
      refine ⟨int64 (int64 (l.beg + 1) + 1), ?_⟩
      rw [advance_pending order positive noError, expand_cons order, expand_nil (by omega)]
      refine .item ?_
      have negative : int64 (l.beg + 1) = -2 ^ 63 := by
        rw [same]
        decide
      have more : int64 (l.beg + 1) ≤ l.«end» := by
        rw [negative, largest]
        decide
      have behind : Sellist.advance { l with beg := int64 (l.beg + 1) } =
          (none, { l with beg := int64 (int64 (l.beg + 1) + 1) }) := by
        rw [advance, item, next_pending (l := { l with beg := int64 (l.beg + 1) }) more noError]
        dsimp only
        rw [if_neg (by rw [negative]; decide)]
      rw [behind]
      exact .null _
  | succ n ih =>
      have step : int64 (l.beg + 1) = l.beg + 1 := by
        unfold maxInt64 at largest
        exact int64_of_lt (by omega) (by omega)
      rw [advance_pending order positive noError, expand_cons order, step]
      obtain ⟨beg, rest⟩ := ih (l := { l with beg := l.beg + 1 })
        (by dsimp only; omega) (by dsimp only; omega) largest noError (by dsimp only; omega)
      exact ⟨beg, .item rest⟩

end Pending

/-- The separators of items. -/
abbrev seps : List Char := [',', ' ']

/-- What a loop sees of the items of a string; `none` is an error. A range up to the largest
number is the last item that it sees. -/
def loopValues : List (List Char × Char) → List Char → Option (List ℤ)
  | [], last =>
      if last = [] then some []
      else match readItem last with
        | .error _ => none
        | .ok none => some [0]
        | .ok (some (beg, last)) => some (expand beg last)
  | (q, _) :: pieces, last =>
      match readItem q with
      | .error _ => none
      | .ok none => (loopValues pieces last).map (0 :: ·)
      | .ok (some (beg, stop)) =>
          if stop = maxInt64 then some (expand beg stop)
          else (loopValues pieces last).map (expand beg stop ++ ·)

/-- A loop over the pieces that ends without an error, and its values. -/
inductive Looped (last : List Char) : List (List Char × Char) → List ℤ → Prop where
  | empty : last = [] → Looped last [] []
  | lastNothing : readItem last = .ok none → Looped last [] [0]
  | lastRange {beg stop : ℤ} : readItem last = .ok (some (beg, stop)) → Looped last [] (expand beg stop)
  | nothing {q : List Char} {c : Char} {pieces : List (List Char × Char)} {values : List ℤ} :
      readItem q = .ok none → Looped last pieces values → Looped last ((q, c) :: pieces) (0 :: values)
  | largest {q : List Char} {c : Char} {pieces : List (List Char × Char)} {beg : ℤ} :
      readItem q = .ok (some (beg, maxInt64)) → Looped last ((q, c) :: pieces) (expand beg maxInt64)
  | range {q : List Char} {c : Char} {pieces : List (List Char × Char)} {beg stop : ℤ}
      {values : List ℤ} :
      readItem q = .ok (some (beg, stop)) → stop ≠ maxInt64 → Looped last pieces values →
      Looped last ((q, c) :: pieces) (expand beg stop ++ values)

theorem loopValues_looped {pieces : List (List Char × Char)} {last : List Char} {values : List ℤ}
    (accepted : loopValues pieces last = some values) : Looped last pieces values := by
  induction pieces generalizing values with
  | nil =>
      unfold loopValues at accepted
      split at accepted
      case isTrue none =>
          cases accepted
          exact .empty none
      case isFalse =>
          cases read : readItem last with
          | error errmsg =>
              rw [read] at accepted
              cases accepted
          | ok found =>
              rw [read] at accepted
              cases found with
              | none =>
                  cases accepted
                  exact .lastNothing read
              | some range =>
                  cases accepted
                  exact .lastRange read
  | cons piece pieces ih =>
      obtain ⟨q, c⟩ := piece
      unfold loopValues at accepted
      cases read : readItem q with
      | error errmsg =>
          rw [read] at accepted
          cases accepted
      | ok found =>
          rw [read] at accepted
          cases found with
          | none =>
              obtain ⟨values, rest, rfl⟩ := Option.map_eq_some_iff.mp accepted
              exact .nothing read (ih rest)
          | some range =>
              obtain ⟨beg, stop⟩ := range
              dsimp only at accepted
              split at accepted
              case isTrue all =>
                  cases all
                  cases accepted
                  exact .largest read
              case isFalse more =>
                  obtain ⟨values, rest, rfl⟩ := Option.map_eq_some_iff.mp accepted
                  exact .range read more (ih rest)

/-- The items that a loop leaves in the string: nothing behind the keyword. -/
def leave : List (List Char × Char) → List Char → List (List Char × Char) × List Char
  | [], last => ([], last)
  | (q, c) :: pieces, last =>
      match readItem q with
      | .ok (some (_, stop)) =>
          if stop = maxInt64 then ((q, c) :: pieces, last)
          else ((q, c) :: (leave pieces last).1, (leave pieces last).2)
      | _ => ([], q)

/-- A list that stands in front of a text. -/
structure At (l : Sellist) (pre text junk : List Char) : Prop where
  memory : l.str = pre ++ (text ++ nul :: junk)
  e : l.e = some pre.length
  idle : l.«end» < l.beg
  noError : l.errmsg = none

section Items

variable {l : Sellist} {pre q rest junk : List Char} {x : Char}

theorem next_eq_scanItem (memory : l.str = pre ++ (q ++ x :: rest)) (e : l.e = some pre.length)
    (idle : l.«end» < l.beg) (text : nul ∉ q) (item : q ≠ [] ∨ x ≠ nul) :
    l.next = { l with errmsg := none }.scanItem pre.length := by
  have more : strAt l.str pre.length ≠ [] := by
    rw [memory]
    by_cases last : x = nul
    · subst last
      rw [strAt_append text]
      exact item.resolve_right (fun other => other rfl)
    · rw [strAt_append_cons text last]
      exact List.append_ne_nil_of_right_ne_nil _ (List.cons_ne_nil _ _)
  unfold next
  dsimp only
  rw [if_neg (not_le.mpr idle), e]
  exact if_neg more

/-- At the end of the string a loop ends. -/
theorem At.next_end (here : l.At pre [] junk) :
    l.next = (-1, { l.begin with e := none }) := by
  have done : strAt l.str pre.length = [] := by
    rw [here.memory]
    exact strAt_append (List.not_mem_nil)
  unfold next
  dsimp only
  rw [if_neg (not_le.mpr here.idle), here.e]
  exact if_pos done

/-- The item in front of a list and what `next` makes of it. -/
theorem next_result (memory : l.str = pre ++ (q ++ x :: rest)) (e : l.e = some pre.length)
    (idle : l.«end» < l.beg) (noError : l.errmsg = none) (text : nul ∉ q)
    (piece : ∀ y ∈ q, y ∉ seps) (stop : x = nul ∨ x ∈ seps) (item : q ≠ [] ∨ x ≠ nul) :
    ItemResult l (if x = nul then none else some (pre.length + q.length + 1))
      (pre ++ (q ++ nul :: rest)) l.str l.next (readItem q) := by
  have same : { l with errmsg := none } = l := by rw [← noError]
  rw [next_eq_scanItem memory e idle text item, same]
  exact scanItem_result memory text piece stop

/-- An item that is read as a range starts this range. -/
theorem ItemResult.range {e : Option ℕ} {cut str : List Char} {beg last : ℤ}
    (result : ItemResult l e cut str l.next (.ok (some (beg, last)))) (positive : 0 < beg)
    (order : beg ≤ last) (noError : l.errmsg = none) :
    l.advance = Sellist.advance { l with e, str, beg, «end» := last } := by
  rw [advance_pending (l := { l with e, str, beg, «end» := last }) order positive noError]
  rw [advance, show l.next = _ from result, item]
  dsimp only
  rw [if_pos (le_of_lt positive)]

theorem ItemResult.all {e : Option ℕ} {cut str : List Char}
    (result : ItemResult l e cut str l.next (.ok none)) :
    l.advance = (some 0, { l with e, str := cut, all := true, errmsg := none }) := by
  rw [advance, show l.next = _ from result]
  rfl

theorem ItemResult.error {e : Option ℕ} {cut str : List Char} {errmsg : Errmsg}
    (result : ItemResult l e cut str l.next (.error errmsg)) :
    ∃ l', l.advance = (none, l') ∧ l'.errmsg = some errmsg := by
  obtain ⟨value, error⟩ := result
  refine ⟨l.next.2, ?_, error⟩
  rw [advance, item, value]
  rfl

/-- Without anything to scan a loop ends. -/
theorem null_drains (e : l.e = none) (idle : l.«end» < l.beg) (noError : l.errmsg = none) :
    Drains advance l.advance [] l := by
  have same : { l with errmsg := none, e := none } = l := by rw [← noError, ← e]
  have ended : l.advance = (none, l) := by
    unfold advance next
    dsimp only
    rw [if_neg (not_le.mpr idle), e]
    exact congrArg (none, ·) same
  rw [ended]
  exact .null _

end Items

/-- How a loop over items ends. -/
def LoopEnd (pre : List Char) (pieces : List (List Char × Char)) (last : List Char)
    (values : List ℤ) (l : Sellist) : Prop :=
  match loopValues pieces last with
  | none => l.errmsg ≠ none
  | some expected => values = expected ∧ l.errmsg = none ∧
      ∃ junk, l.str = pre ++ (join (leave pieces last).1 (leave pieces last).2 ++ nul :: junk)

theorem loop_last {l : Sellist} {pre junk : List Char} {last : List Char}
    (here : l.At pre last junk) (pieces : ∀ y ∈ last, y ∉ seps) (text : nul ∉ last) :
    ∃ values l', Drains advance l.advance values l' ∧ LoopEnd pre [] last values l' := by
  unfold LoopEnd loopValues
  by_cases done : last = []
  · subst done
    refine ⟨[], { l.begin with e := none }, ?_, ?_⟩
    · rw [advance, here.next_end]
      exact .null _
    · exact ⟨rfl, rfl, junk, here.memory⟩
  · rw [if_neg done]
    have result := next_result here.memory here.e here.idle here.noError text pieces
      (Or.inl rfl) (Or.inl done)
    rw [if_pos rfl] at result
    cases read : readItem last with
    | error errmsg =>
        rw [read] at result
        obtain ⟨l', ended, error⟩ := result.error
        refine ⟨[], l', ?_, ?_⟩
        · rw [ended]
          exact .null _
        · dsimp only
          rw [error]
          exact Option.some_ne_none errmsg
    | ok found =>
        rw [read] at result
        cases found with
        | none =>
            refine ⟨[0], { l with
              e := none, str := pre ++ (last ++ nul :: junk), all := true, errmsg := none },
              ?_, ⟨rfl, rfl, junk, rfl⟩⟩
            rw [result.all]
            exact .item (null_drains rfl here.idle rfl)
        | some range =>
            obtain ⟨beg, stop⟩ := range
            obtain ⟨positive, order, small⟩ := readItem_range read
            rw [result.range positive order here.noError]
            by_cases largest : stop = maxInt64
            · obtain ⟨beg', drains⟩ := pending_max
                (l := { l with e := none, beg, «end» := stop }) positive order largest
                here.noError
              exact ⟨_, _, drains, rfl, here.noError, junk, here.memory⟩
            · have drains := pending_drains (l := { l with e := none, beg, «end» := stop })
                positive (by dsimp only; omega) (by dsimp only; omega)
                here.noError (null_drains (l := { l with e := none, beg := stop + 1, «end» := stop })
                  rfl (Int.lt_add_one_iff.mpr (le_refl stop)) here.noError)
              rw [List.append_nil] at drains
              exact ⟨_, _, drains, rfl, here.noError, junk, here.memory⟩

theorem nul_ne_sep {c : Char} (sep : c ∈ seps) : c ≠ nul := by
  rintro rfl
  revert sep
  decide

/-- A loop sees the items of the string in front of it, one after the other. -/
theorem loop_spec {pieces : List (List Char × Char)} {last : List Char} {l : Sellist}
    {pre junk : List Char} (here : l.At pre (join pieces last) junk)
    (cut : Pieces seps pieces last) (text : nul ∉ join pieces last) :
    ∃ values l', Drains advance l.advance values l' ∧ LoopEnd pre pieces last values l' := by
  induction pieces generalizing l pre with
  | nil => exact loop_last here cut.last text
  | cons piece pieces ih =>
      obtain ⟨q, c⟩ := piece
      have first := cut.separated (q, c) List.mem_cons_self
      have other : c ≠ nul := nul_ne_sep first.1
      rw [join_cons] at here text
      have textQ : nul ∉ q := fun member => text (List.mem_append_left _ member)
      have textRest : nul ∉ join pieces last := fun member =>
        text (List.mem_append_right _ (List.mem_cons_of_mem _ member))
      have memory : l.str = pre ++ (q ++ c :: (join pieces last ++ nul :: junk)) := by
        rw [here.memory, List.append_assoc, List.cons_append]
      have result := next_result memory here.e here.idle here.noError textQ first.2
        (Or.inr first.1) (Or.inr other)
      rw [if_neg other] at result
      -- behind the separator, which is this character now
      have behind (x : Char) (l' : Sellist) (e : l'.e = some (pre.length + q.length + 1))
          (str : l'.str = pre ++ (q ++ x :: (join pieces last ++ nul :: junk)))
          (idle : l'.«end» < l'.beg) (noError : l'.errmsg = none) :
          l'.At (pre ++ (q ++ [x])) (join pieces last) junk := by
        refine ⟨by rw [str]; simp, ?_, idle, noError⟩
        rw [e, List.length_append, List.length_append, List.length_singleton, Nat.add_assoc]
      unfold LoopEnd loopValues leave
      cases read : readItem q with
      | error errmsg =>
          rw [read] at result
          obtain ⟨l', ended, error⟩ := result.error
          refine ⟨[], l', ?_, ?_⟩
          · rw [ended]
            exact .null _
          · dsimp only
            rw [error]
            exact Option.some_ne_none errmsg
      | ok found =>
          rw [read] at result
          cases found with
          | none =>
              obtain ⟨values, l', drains, ending⟩ := ih
                (l := { l with
                  e := some (pre.length + q.length + 1)
                  str := pre ++ (q ++ nul :: (join pieces last ++ nul :: junk))
                  all := true
                  errmsg := none })
                (behind nul _ rfl rfl here.idle rfl) cut.tail textRest
              refine ⟨0 :: values, l', ?_, ?_⟩
              · rw [result.all]
                exact .item drains
              · unfold LoopEnd at ending
                dsimp only
                cases expected : loopValues pieces last with
                | none =>
                    rw [expected] at ending
                    exact ending
                | some list =>
                    rw [expected] at ending
                    obtain ⟨same, noError, junk', str⟩ := ending
                    refine ⟨congrArg (0 :: ·) same, noError, ?_⟩
                    exact ⟨_, by rw [str, join_nil, List.append_assoc, List.append_assoc]; rfl⟩
          | some range =>
              obtain ⟨beg, stop⟩ := range
              obtain ⟨positive, order, small⟩ := readItem_range read
              rw [result.range positive order here.noError]
              dsimp only
              by_cases largest : stop = maxInt64
              · rw [if_pos largest, if_pos largest]
                obtain ⟨beg', drains⟩ := pending_max
                  (l := { l with e := some (pre.length + q.length + 1), beg, «end» := stop })
                  positive order largest here.noError
                refine ⟨_, _, drains, rfl, here.noError, junk, ?_⟩
                rw [join_cons]
                exact here.memory
              · rw [if_neg largest, if_neg largest]
                obtain ⟨values, l', drains, ending⟩ := ih
                  (l := { l with
                    e := some (pre.length + q.length + 1), beg := stop + 1, «end» := stop })
                  (behind c _ rfl memory (Int.lt_add_one_iff.mpr (le_refl stop)) here.noError)
                  cut.tail textRest
                refine ⟨expand beg stop ++ values, l', pending_drains
                  (l := { l with e := some (pre.length + q.length + 1), beg, «end» := stop })
                  positive (by dsimp only; omega) (by dsimp only; omega) here.noError drains, ?_⟩
                unfold LoopEnd at ending
                cases expected : loopValues pieces last with
                | none =>
                    rw [expected] at ending
                    exact ending
                | some list =>
                    rw [expected] at ending
                    obtain ⟨same, noError, junk', str⟩ := ending
                    refine ⟨congrArg (expand beg stop ++ ·) same, noError, junk', ?_⟩
                    rw [str, join_cons]
                    simp

/-- Items that every loop leaves as they are. -/
def Clean : List (List Char × Char) → List Char → Prop
  | [], last => last = [] ∨ ∃ found, readItem last = .ok found
  | (q, _) :: pieces, last =>
      ∃ beg stop, readItem q = .ok (some (beg, stop)) ∧ (stop = maxInt64 ∨ Clean pieces last)

theorem Clean.values {pieces : List (List Char × Char)} {last : List Char}
    (clean : Clean pieces last) : ∃ values, loopValues pieces last = some values := by
  induction pieces with
  | nil =>
      unfold loopValues
      rcases clean with rfl | ⟨found, read⟩
      · exact ⟨[], rfl⟩
      · split
        · exact ⟨[], rfl⟩
        · rw [read]
          cases found with
          | none => exact ⟨[0], rfl⟩
          | some range => exact ⟨_, rfl⟩
  | cons piece pieces ih =>
      obtain ⟨beg, stop, read, behind⟩ := clean
      unfold loopValues
      rw [read]
      dsimp only
      split
      · exact ⟨_, rfl⟩
      · rename_i more
        obtain ⟨values, rest⟩ := ih (behind.resolve_left more)
        rw [rest]
        exact ⟨_, rfl⟩

theorem leave_spec {pieces : List (List Char × Char)} {last : List Char} {values : List ℤ}
    (accepted : loopValues pieces last = some values) (cut : Pieces seps pieces last) :
    Clean (leave pieces last).1 (leave pieces last).2 ∧
      Pieces seps (leave pieces last).1 (leave pieces last).2 ∧
      ∀ x ∈ join (leave pieces last).1 (leave pieces last).2, x ∈ join pieces last := by
  have looped := loopValues_looped accepted
  clear accepted
  induction looped with
  | empty none => exact ⟨.inl none, cut, fun x member => member⟩
  | lastNothing read => exact ⟨.inr ⟨none, read⟩, cut, fun x member => member⟩
  | lastRange read => exact ⟨.inr ⟨_, read⟩, cut, fun x member => member⟩
  | nothing read looped ih =>
      have first := cut.separated _ List.mem_cons_self
      unfold leave
      rw [read]
      refine ⟨.inr ⟨none, read⟩, ⟨List.forall_mem_nil _, first.2⟩, fun x member => ?_⟩
      rw [join_cons]
      exact List.mem_append_left _ member
  | largest read =>
      unfold leave
      simp only [read, if_true]
      exact ⟨⟨_, _, read, .inl rfl⟩, cut, fun x member => member⟩
  | range read more looped ih =>
      have first := cut.separated _ List.mem_cons_self
      obtain ⟨clean, pieces, within⟩ := ih cut.tail
      unfold leave
      simp only [read, if_neg more]
      refine ⟨⟨_, _, read, .inr clean⟩,
        ⟨List.forall_mem_cons.mpr ⟨first, pieces.separated⟩, pieces.last⟩, fun x member => ?_⟩
      rw [join_cons] at member ⊢
      rcases List.mem_append.mp member with member | member
      · exact List.mem_append_left _ member
      · refine List.mem_append_right _ ?_
        rcases List.mem_cons.mp member with rfl | member
        · exact List.mem_cons_self
        · exact List.mem_cons_of_mem _ (within x member)

/-- A place in front of items that every loop leaves as they are. -/
abbrev Place (memory : List Char) (p : ℕ) : Prop :=
  ∃ pre pieces last junk, memory = pre ++ (join pieces last ++ nul :: junk) ∧
    p = pre.length ∧ Clean pieces last ∧ Pieces seps pieces last ∧ nul ∉ join pieces last

/-- A list whose string no operation changes any more. -/
structure Settled (memory : List Char) (l : Sellist) : Prop where
  str : l.str = memory
  noError : l.errmsg = none
  small : l.beg ≤ maxInt64
  /-- A range up to the largest number has no end. -/
  place : l.«end» = maxInt64 ∨ ∀ p, l.e = some p → Place memory p

theorem Settled.begin {memory : List Char} {l : Sellist} (settled : Settled memory l)
    (start : Place memory 0) : Settled memory l.begin := by
  refine ⟨settled.str, rfl, show (1 : ℤ) ≤ maxInt64 by decide, Or.inr fun p e => ?_⟩
  cases e
  exact start

theorem Settled.scan {memory : List Char} {l : Sellist} (settled : Settled memory l)
    (idle : l.«end» < l.beg) {p : ℕ} (e : l.e = some p) (place : Place memory p) :
    Settled memory l.next.2 := by
  obtain ⟨pre, pieces, last, junk, same, rfl, clean, cut, text⟩ := place
  have memory' : l.str = pre ++ (join pieces last ++ nul :: junk) := settled.str.trans same
  cases pieces with
  | nil =>
      rw [join_nil] at text same memory'
      by_cases done : last = []
      · subst done
        have here : l.At pre [] junk := ⟨memory', e, idle, settled.noError⟩
        rw [here.next_end]
        exact ⟨settled.str, rfl, show (1 : ℤ) ≤ maxInt64 by decide, Or.inr fun p none => by cases none⟩
      · have result := next_result memory' e idle settled.noError text cut.last (Or.inl rfl)
          (Or.inl done)
        obtain ⟨found, read⟩ := clean.resolve_left done
        rw [if_pos rfl, read] at result
        cases found with
        | none =>
            rw [show l.next = _ from result]
            exact ⟨same.symm, rfl, settled.small, Or.inr fun p none => by cases none⟩
        | some range =>
            rw [show l.next = _ from result]
            refine ⟨settled.str, settled.noError, ?_, Or.inr fun p none => by cases none⟩
            exact Int.le_sub_one_of_lt (int64_lt _)
  | cons piece pieces =>
      obtain ⟨q, c⟩ := piece
      obtain ⟨beg, stop, read, behind⟩ := clean
      have first := cut.separated (q, c) List.mem_cons_self
      have other : c ≠ nul := nul_ne_sep first.1
      rw [join_cons] at text same memory'
      rw [List.append_assoc, List.cons_append] at same memory'
      have textQ : nul ∉ q := fun member => text (List.mem_append_left _ member)
      have result := next_result memory' e idle settled.noError textQ first.2 (Or.inr first.1)
        (Or.inr other)
      rw [if_neg other, read] at result
      rw [show l.next = _ from result]
      refine ⟨settled.str, settled.noError, Int.le_sub_one_of_lt (int64_lt _), ?_⟩
      rcases behind with largest | clean
      · exact Or.inl largest
      · refine Or.inr fun p next => ⟨pre ++ (q ++ [c]), pieces, last, junk, ?_, ?_, clean,
          cut.tail, fun member => ?_⟩
        · rw [same]
          simp
        · rw [← Option.some.inj next, List.length_append, List.length_append,
            List.length_singleton, Nat.add_assoc]
        · exact text (List.mem_append_right _ (List.mem_cons_of_mem _ member))

theorem Settled.next {memory : List Char} {l : Sellist} (settled : Settled memory l) :
    Settled memory l.next.2 := by
  by_cases more : l.beg ≤ l.«end»
  · rw [next_pending more settled.noError]
    exact ⟨settled.str, settled.noError, Int.le_sub_one_of_lt (int64_lt _), settled.place⟩
  · have idle := not_le.mp more
    have places := settled.place.resolve_left fun largest =>
      more (settled.small.trans (le_of_eq largest.symm))
    cases e : l.e with
    | some p => exact settled.scan idle e (places p e)
    | none =>
        have ended : l.next = (-1, { l with errmsg := none, e := none }) := by
          unfold Sellist.next
          dsimp only
          rw [if_neg more, e]
          rfl
        rw [ended]
        exact ⟨settled.str, rfl, settled.small, Or.inr fun p none => by cases none⟩

end Bacula.Sellist
