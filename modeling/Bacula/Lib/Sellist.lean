import Bacula.Library.CMemory
import Bacula.Library.Iterator
import Bacula.Lib.Edit

/-! The selection list, `lib/sellist.c`. The pointers into the string are offsets. -/
namespace Bacula
open CMemory Iterator

/-- A string as it is handed over. -/
structure CString where
  chars : List Char
  terminated : nul ∉ chars

namespace Sellist

/-- The texts in `errmsg`. -/
inductive Errmsg where
  /-- `Negative numbers not permitted.` -/
  | negative
  /-- `Range end is not integer.` -/
  | rangeEnd
  /-- `Range start is not an integer.` -/
  | rangeStart
  /-- `Range end not bigger than start.` -/
  | rangeOrder
  /-- `User cancel requested.` -/
  | cancel
  /-- `Input value is not an integer.` -/
  | notInteger
  /-- `Selection items must be be greater than zero.` -/
  | notPositive
  deriving DecidableEq, Repr

end Sellist

/-- `class sellist`. -/
structure Sellist where
  errmsg : Option Sellist.Errmsg
  e : Option ℕ
  all : Bool
  beg : ℤ
  «end» : ℤ
  numItems : ℤ
  str : List Char

namespace Sellist

/-- `sellist::begin`. -/
def begin (l : Sellist) : Sellist :=
  { l with e := some 0, «end» := 0, beg := 1, all := false, errmsg := none }

/-- The exit at `bail_out`. -/
def bailOut (l : Sellist) (errmsg : Option Errmsg) : ℤ × Sellist :=
  (-1, { l with errmsg, e := none })

/-- A character that was overwritten is stored again. -/
def restore (str : List Char) : Option (ℕ × Char) → List Char
  | some (i, c) => str.set i c
  | none => str

/-- The end of a round: the list and the range have their characters back, and the first
value is returned. -/
def accept (l : Sellist) (beg last : ℤ) (str : List Char) : ℤ × Sellist :=
  let l := { l with beg, «end» := last, str }
  if beg ≤ 0 ∨ last ≤ 0 then l.bailOut (some .notPositive)
  else (beg, { l with beg := int64 (beg + 1) })

/-- The check for a list: the item at `p` gets an end, and `e` goes behind it. The other result
is the place of the separator with its character, `esave`. -/
def cutList (l : Sellist) (p : ℕ) : Sellist × Option (ℕ × Char) :=
  match strpbrk l.str p [',', ' '] with
  | some i => ({ l with e := some (i + 1), str := l.str.set i nul }, some (i, l.str.getD i nul))
  | none => ({ l with e := none }, none)

/-- The check for a range, with the `-` at `h`. -/
def scanRange (l : Sellist) (p h : ℕ) (esave : Option (ℕ × Char)) : ℤ × Sellist :=
  let l := { l with str := l.str.set h nul }
  if isAnInteger (strAt l.str (h + 1)) = false then l.bailOut (some .rangeEnd)
  else
    let start := skipSpaces (strAt l.str p)
    if isAnInteger start = false then l.bailOut (some .rangeStart)
    else
      let beg := strToInt64 start
      let last := strToInt64 (strAt l.str (h + 1))
      if last ≤ beg then { l with beg, «end» := last }.bailOut (some .rangeOrder)
      else l.accept beg last ((restore l.str esave).set h '-')

/-- Not a range. -/
def scanValue (l : Sellist) (p : ℕ) (esave : Option (ℕ × Char)) : ℤ × Sellist :=
  let value := skipSpaces (strAt l.str p)
  -- Check for abort (.)
  if value.head? = some '.' then l.bailOut (some .cancel)
  -- This exit leaves the separator overwritten.
  else if (value.take 3).map Char.toLower = ['a', 'l', 'l'] then
    (0, { l with all := true, errmsg := none })
  else if isAnInteger value = false then l.bailOut (some .notInteger)
  else l.accept (strToInt64 value) (strToInt64 value) (restore l.str esave)

/-- The round of the loop in `next` for the item at `p`. There is one round only, as
`beg <= end` holds at its end. -/
def scanItem (l : Sellist) (p : ℕ) : ℤ × Sellist :=
  let (l, esave) := l.cutList p
  match strchr l.str p '-' with
  | some h => if h = p then l.bailOut (some .negative) else l.scanRange p h esave
  | none => l.scanValue p esave

/-- `sellist::next`. -/
def next (l : Sellist) : ℤ × Sellist :=
  let l := { l with errmsg := none }
  if l.beg ≤ l.«end» then (l.beg, { l with beg := int64 (l.beg + 1) })
  else match l.e with
    | none => l.bailOut none
    | some p =>
        if strAt l.str p = [] then (-1, { l.begin with e := none })
        else l.scanItem p

/-- `sellist::first`. -/
def first (l : Sellist) : ℤ × Sellist := l.begin.next

/-- A negative value ends a loop, `foreach_sellist`. -/
def item (r : ℤ × Sellist) : Option ℤ × Sellist := (if 0 ≤ r.1 then some r.1 else none, r.2)

/-- A round of such a loop. -/
def advance (l : Sellist) : Option ℤ × Sellist := item l.next

/-- `sellist::set_string`, with a bound on the rounds of the scan. -/
def setString (rounds : ℕ) (l : Sellist) (string : CString) (scan : Bool) :
    Option (Bool × Sellist) := do
  let l := { begin { l with str := string.chars ++ [nul] } with numItems := 0 }
  let l ← if scan then
      (drain advance rounds l.advance).map fun (values, l) =>
        { l with numItems := Int.bmod values.length (2 ^ 32) }
    else some l
  if scan ∧ l.errmsg ≠ none then pure (false, { l with e := none }) else pure (true, l.begin)

/-- `sellist::size`. -/
def size (l : Sellist) : ℤ := l.numItems

/-- What the text of one item is to `next`: a range, a value, which is a range of its own, or
`none` for the keyword. -/
def readItem (q : List Char) : Except Errmsg (Option (ℤ × ℤ)) :=
  match q.findIdx? ['-'].contains with
  | some h =>
      if h = 0 then .error .negative
      else if isAnInteger (q.drop (h + 1)) = false then .error .rangeEnd
      else
        let start := skipSpaces (q.take h)
        if isAnInteger start = false then .error .rangeStart
        else
          let beg := strToInt64 start
          let last := strToInt64 (q.drop (h + 1))
          if last ≤ beg then .error .rangeOrder
          else if beg ≤ 0 ∨ last ≤ 0 then .error .notPositive
          else .ok (some (beg, last))
  | none =>
      let value := skipSpaces q
      if value.head? = some '.' then .error .cancel
      else if (value.take 3).map Char.toLower = ['a', 'l', 'l'] then .ok none
      else if isAnInteger value = false then .error .notInteger
      else if strToInt64 value ≤ 0 ∨ strToInt64 value ≤ 0 then .error .notPositive
      else .ok (some (strToInt64 value, strToInt64 value))

/-- What a round of `next` does with an item. -/
def ItemResult (l : Sellist) (e : Option ℕ) (cut str : List Char) (r : ℤ × Sellist) :
    Except Errmsg (Option (ℤ × ℤ)) → Prop
  | .error errmsg => r.1 = -1 ∧ r.2.errmsg = some errmsg
  | .ok none => r = (0, { l with e, str := cut, all := true, errmsg := none })
  | .ok (some (beg, last)) => r = (beg, { l with e, str, beg := int64 (beg + 1), «end» := last })

section Round

variable {l : Sellist} {pre q rest : List Char} {x : Char}

theorem cutList_eq (memory : l.str = pre ++ (q ++ x :: rest)) (text : nul ∉ q)
    (piece : ∀ y ∈ q, y ∉ [',', ' ']) (stop : x = nul ∨ x ∈ [',', ' ']) :
    l.cutList pre.length =
      ({ l with
          e := if x = nul then none else some (pre.length + q.length + 1)
          str := pre ++ (q ++ nul :: rest) },
        if x = nul then none else some (pre.length + q.length, x)) := by
  unfold cutList
  by_cases last : x = nul
  · subst last
    rw [memory, strpbrk_none text piece, if_pos rfl, if_pos rfl]
  · rw [memory, strpbrk_append_cons text piece (stop.resolve_left last) last, if_neg last,
      if_neg last]
    dsimp only
    rw [set_append_cons, getD_append_cons]

theorem restore_eq {q' : List Char} (length : q'.length = q.length) :
    restore (pre ++ (q' ++ nul :: rest)) (if x = nul then none else some (pre.length + q.length, x)) =
      pre ++ (q' ++ x :: rest) := by
  split
  · rename_i last
    rw [last]
    rfl
  · rw [restore, ← length, set_append_cons]

theorem accept_result (e : Option ℕ) (cut : List Char) (beg last : ℤ) (str : List Char)
    (l' : Sellist) (same : l' = { l with e, str := l'.str }) :
    ItemResult l e cut str (l'.accept beg last str)
      (if beg ≤ 0 ∨ last ≤ 0 then .error .notPositive else .ok (some (beg, last))) := by
  unfold accept
  dsimp only
  split
  · exact ⟨rfl, rfl⟩
  · rw [ItemResult, same]

theorem scanRange_result {a b : List Char} {e : Option ℕ}
    (memory : l.str = pre ++ ((a ++ '-' :: b) ++ nul :: rest)) (text : nul ∉ a ++ '-' :: b) :
    ItemResult l e l.str (pre ++ ((a ++ '-' :: b) ++ x :: rest))
      ({ l with e }.scanRange pre.length (pre.length + a.length)
        (if x = nul then none else some (pre.length + (a ++ '-' :: b).length, x)))
      (if isAnInteger b = false then .error .rangeEnd
      else if isAnInteger (skipSpaces a) = false then .error .rangeStart
      else if strToInt64 b ≤ strToInt64 (skipSpaces a) then .error .rangeOrder
      else if strToInt64 (skipSpaces a) ≤ 0 ∨ strToInt64 b ≤ 0 then .error .notPositive
      else .ok (some (strToInt64 (skipSpaces a), strToInt64 b))) := by
  have textA : nul ∉ a := fun member => text (List.mem_append_left _ member)
  have textB : nul ∉ b := fun member =>
    text (List.mem_append_right _ (List.mem_cons_of_mem _ member))
  have cut : l.str.set (pre.length + a.length) nul = pre ++ (a ++ nul :: (b ++ nul :: rest)) := by
    rw [memory, List.append_assoc, List.cons_append, set_append_cons]
  have start : strAt (pre ++ (a ++ nul :: (b ++ nul :: rest))) pre.length = a :=
    strAt_append textA
  have stop : strAt (pre ++ (a ++ nul :: (b ++ nul :: rest))) (pre.length + a.length + 1) = b := by
    have here := @strAt_append (pre ++ (a ++ [nul])) b rest textB
    simpa [Nat.add_assoc] using here
  have restored : (restore (pre ++ (a ++ nul :: (b ++ nul :: rest)))
      (if x = nul then none else some (pre.length + (a ++ '-' :: b).length, x))).set
        (pre.length + a.length) '-' = pre ++ ((a ++ '-' :: b) ++ x :: rest) := by
    have list := @restore_eq pre (a ++ '-' :: b) rest x (a ++ nul :: b) (by simp)
    rw [List.append_assoc, List.cons_append] at list
    rw [list, List.append_assoc, List.cons_append, set_append_cons, List.append_assoc,
      List.cons_append]
  unfold scanRange
  dsimp only
  rw [cut, stop, start, restored]
  split
  · exact ⟨rfl, rfl⟩
  · split
    · exact ⟨rfl, rfl⟩
    · split
      · exact ⟨rfl, rfl⟩
      · exact accept_result e _ _ _ _ _ rfl

theorem scanValue_result {e : Option ℕ} (memory : l.str = pre ++ (q ++ nul :: rest))
    (text : nul ∉ q) :
    ItemResult l e l.str (pre ++ (q ++ x :: rest))
      ({ l with e }.scanValue pre.length
        (if x = nul then none else some (pre.length + q.length, x)))
      (if (skipSpaces q).head? = some '.' then .error .cancel
      else if ((skipSpaces q).take 3).map Char.toLower = ['a', 'l', 'l'] then .ok none
      else if isAnInteger (skipSpaces q) = false then .error .notInteger
      else if strToInt64 (skipSpaces q) ≤ 0 ∨ strToInt64 (skipSpaces q) ≤ 0 then
        .error .notPositive
      else .ok (some (strToInt64 (skipSpaces q), strToInt64 (skipSpaces q)))) := by
  unfold scanValue
  dsimp only
  rw [memory, strAt_append text, restore_eq rfl]
  split
  · exact ⟨rfl, rfl⟩
  · split
    · rw [ItemResult]
    · split
      · exact ⟨rfl, rfl⟩
      · exact accept_result e _ _ _ _ _ rfl

/-- A round reads the item up to the separator or the end. Only the exit for the keyword
leaves the separator overwritten. -/
theorem scanItem_result (memory : l.str = pre ++ (q ++ x :: rest)) (text : nul ∉ q)
    (piece : ∀ y ∈ q, y ∉ [',', ' ']) (stop : x = nul ∨ x ∈ [',', ' ']) :
    ItemResult l (if x = nul then none else some (pre.length + q.length + 1))
      (pre ++ (q ++ nul :: rest)) l.str (l.scanItem pre.length) (readItem q) := by
  set e : Option ℕ := if x = nul then none else some (pre.length + q.length + 1)
  set cut : List Char := pre ++ (q ++ nul :: rest)
  have dash : strchr cut pre.length '-' = (q.findIdx? ['-'].contains).map (pre.length + ·) := by
    rw [strchr, strpbrk, strAt_append text]
  unfold scanItem
  rw [cutList_eq memory text piece stop]
  dsimp only
  rw [dash, memory]
  unfold readItem
  cases found : q.findIdx? ['-'].contains with
  | none =>
      exact @scanValue_result { l with str := cut } pre q rest x e rfl text
  | some h =>
      rw [Option.map_some]
      dsimp only
      by_cases first : h = 0
      · rw [if_pos (by omega), if_pos first]
        exact ⟨rfl, rfl⟩
      · rw [if_neg (by omega), if_neg first]
        obtain ⟨inside, here, -⟩ := List.findIdx?_eq_some_iff_getElem.mp found
        have split : q = q.take h ++ '-' :: q.drop (h + 1) := by
          have char : q[h] = '-' := by simpa using here
          rw [← char, List.cons_getElem_drop_succ, List.take_append_drop]
        have length : (q.take h).length = h := List.length_take_of_le (le_of_lt inside)
        have result := @scanRange_result { l with str := cut } pre rest x (q.take h)
          (q.drop (h + 1)) e (by rw [← split]) (by rw [← split]; exact text)
        rw [← split, length] at result
        exact result

end Round

end Sellist
end Bacula
