import Bacula.Lib.SellistLoop

/-! What a selection list means: the sequence of the listed items with their ranges expanded. -/
namespace Bacula.Sellist
open CMemory Iterator

/-- A listed item. A single number is a range from itself to itself. -/
inductive Item where
  | range (beg last : ℕ)
  | all
  deriving DecidableEq

/-- The values that an item stands for. -/
def Item.values : Item → List ℤ
  | .range beg last => expand beg last
  | .all => [0]

/-- The number that a string of digits denotes. -/
def number (text : List Char) : Option ℕ :=
  if isAnInteger text then some (Nat.ofDigitChars 10 text 0) else none

/-- The item that a text denotes. -/
def parseItem (q : List Char) : Option Item :=
  if '-' ∈ q then do
    let beg ← number (skipSpaces (q.take (q.idxOf '-')))
    let last ← number (q.drop (q.idxOf '-' + 1))
    if 0 < beg ∧ beg < last then some (.range beg last) else none
  else if ((skipSpaces q).take 3).map Char.toLower = ['a', 'l', 'l'] then some .all
  else do
    let value ← number (skipSpaces q)
    if 0 < value then some (.range value value) else none

/-- The items of a list of texts. There need not be one behind the last separator. -/
def parsePieces : List (List Char × Char) → List Char → Option (List Item)
  | [], last => if last = [] then some [] else (parseItem last).map ([·])
  | (q, _) :: pieces, last => do
      let item ← parseItem q
      let items ← parsePieces pieces last
      some (item :: items)

/-- The listed items of a string. -/
def listed (string : CString) : Option (List Item) :=
  parsePieces (cut seps string.chars).1 (cut seps string.chars).2

/-- A list after calls of `next`, `begin` and `first`. -/
abbrev Later : Sellist → Sellist → Prop :=
  Relation.ReflTransGen fun l l' => l' = l.next.2 ∨ l' = l.begin

/-- Every loop sees the values of the listed items, and their number is the size. -/
def Lawful (string : CString) (l : Sellist) : Prop :=
  ∃ items, listed string = some items ∧
    (∀ l', Later l l' → ∃ l'', Drains advance (item l'.first) (items.flatMap Item.values) l'') ∧
    (Item.all ∉ items → l.size = (items.flatMap Item.values).length)

/-- An item that the list can hold. -/
def Item.Fits : Item → Prop
  | .range _ last => (last : ℤ) ≤ maxInt64
  | .all => True

/-- An item behind which a loop sees no other one. -/
def Item.Ends : Item → Prop
  | .range _ last => (last : ℤ) = maxInt64
  | .all => True

/-- A string of which every loop sees all items, and with a number of values that an `int`
can hold. -/
def Plain (string : CString) : Prop :=
  ∃ items, listed string = some items ∧ (∀ i ∈ items, i.Fits) ∧ (∀ i ∈ items.dropLast, ¬i.Ends) ∧
    (Item.all ∉ items → (items.flatMap Item.values).length < 2 ^ 31)

/-- An item as `next` reads it. -/
def Item.code : Item → Option (ℤ × ℤ)
  | .range beg last => some (beg, last)
  | .all => none

theorem findIdx?_dash (q : List Char) :
    q.findIdx? ['-'].contains = if '-' ∈ q then some (q.idxOf '-') else none := by
  have same : ['-'].contains = (· == '-') := by
    funext c
    rw [List.contains_cons, List.contains_nil, Bool.or_false]
  rw [same]
  split
  · rename_i found
    exact List.findIdx?_eq_some_of_exists ⟨'-', found, beq_self_eq_true '-'⟩
  · rename_i absent
    exact List.idxOf?_eq_none_iff.mpr absent

theorem number_spec {text : List Char} {n : ℕ} (denotes : number text = some n)
    (small : (n : ℤ) ≤ maxInt64) : isAnInteger text = true ∧ strToInt64 text = n := by
  unfold number at denotes
  split at denotes
  · rename_i digits
    cases denotes
    refine ⟨digits, ?_⟩
    have all := (Bool.and_eq_true_iff.mp digits).2
    unfold maxInt64 at small
    rw [strToInt64_digits all, int64_of_lt (Int.natCast_nonneg _) (by omega)]
  · cases denotes

theorem number_head {text : List Char} {n : ℕ} (denotes : number text = some n) :
    text.head? ≠ some '.' := by
  unfold number at denotes
  split at denotes
  · rename_i digits
    intro dot
    have all := List.all_eq_true.mp (Bool.and_eq_true_iff.mp digits).2
    exact absurd (all '.' (List.mem_of_mem_head? dot)) (by decide)
  · cases denotes

/-- An item that the list can hold is read as what it denotes. -/
theorem readItem_of_parseItem {q : List Char} {i : Item} (denotes : parseItem q = some i)
    (fits : i.Fits) : readItem q = .ok i.code := by
  unfold readItem
  unfold parseItem at denotes
  rw [findIdx?_dash]
  by_cases dash : '-' ∈ q
  · rw [if_pos dash] at denotes ⊢
    dsimp only
    obtain ⟨beg, start, denotes⟩ := Option.bind_eq_some_iff.mp denotes
    obtain ⟨last, stop, denotes⟩ := Option.bind_eq_some_iff.mp denotes
    split at denotes
    · rename_i order
      cases denotes
      have first : q.idxOf '-' ≠ 0 := by
        intro zero
        rw [zero, List.take_zero] at start
        cases start
      have small : (beg : ℤ) ≤ maxInt64 :=
        le_trans (Int.ofNat_le.mpr (le_of_lt order.2)) fits
      obtain ⟨digits, value⟩ := number_spec start small
      obtain ⟨digits', value'⟩ := number_spec stop fits
      rw [if_neg first, digits', digits, value, value', if_neg (by decide),
        if_neg (by decide), if_neg (by omega), if_neg (by omega)]
      rfl
    · cases denotes
  · rw [if_neg dash] at denotes ⊢
    dsimp only
    split at denotes
    · rename_i all
      cases denotes
      have head : (skipSpaces q).head? ≠ some '.' := by
        intro dot
        cases text : skipSpaces q with
        | nil =>
            rw [text] at dot
            cases dot
        | cons c rest =>
            rw [text] at dot all
            cases dot
            cases all
      rw [if_neg head, if_pos all]
      rfl
    · rename_i other
      obtain ⟨value, digits, denotes⟩ := Option.bind_eq_some_iff.mp denotes
      split at denotes
      · rename_i positive
        cases denotes
        obtain ⟨integer, same⟩ := number_spec digits fits
        rw [if_neg (number_head digits), if_neg other, integer, same, if_neg (by decide),
          if_neg (by omega)]
        rfl
      · cases denotes

section Values

variable {pieces : List (List Char × Char)} {last : List Char} {items : List Item}

/-- What the scan sees. -/
def scanned : List Item → List ℤ
  | [] => []
  | .all :: items => 0 :: scanned items
  | .range beg last :: items =>
      if (last : ℤ) = maxInt64 then expand beg last else expand beg last ++ scanned items

/-- What the loops after the scan see. -/
def seen : List Item → List ℤ
  | [] => []
  | .all :: _ => [0]
  | .range beg last :: items =>
      if (last : ℤ) = maxInt64 then expand beg last else expand beg last ++ seen items

theorem loopValues_listed (denotes : parsePieces pieces last = some items)
    (fits : ∀ i ∈ items, i.Fits) :
    loopValues pieces last = some (scanned items) ∧
      loopValues (leave pieces last).1 (leave pieces last).2 = some (seen items) := by
  induction pieces generalizing items with
  | nil =>
      unfold parsePieces at denotes
      unfold leave
      dsimp only
      split at denotes
      · rename_i done
        cases denotes
        rw [loopValues, if_pos done]
        exact ⟨rfl, rfl⟩
      · rename_i more
        obtain ⟨i, parsed, rfl⟩ := Option.map_eq_some_iff.mp denotes
        rw [loopValues, if_neg more, readItem_of_parseItem parsed (fits i List.mem_cons_self)]
        cases i with
        | all => exact ⟨rfl, rfl⟩
        | range beg stop =>
            unfold scanned seen
            simp [Item.code, scanned, seen]
  | cons piece pieces ih =>
      obtain ⟨q, c⟩ := piece
      obtain ⟨i, parsed, denotes⟩ := Option.bind_eq_some_iff.mp denotes
      obtain ⟨rest, parsedRest, same⟩ := Option.bind_eq_some_iff.mp denotes
      cases same
      obtain ⟨once, later⟩ := ih parsedRest fun j member => fits j (List.mem_cons_of_mem _ member)
      have read := readItem_of_parseItem parsed (fits i List.mem_cons_self)
      cases i with
      | all =>
          unfold loopValues leave
          rw [read]
          refine ⟨by rw [once]; rfl, ?_⟩
          dsimp only [Item.code]
          rw [if_neg, read]
          · rfl
          · rintro rfl
            cases read
      | range beg stop =>
          have unfolded : leave ((q, c) :: pieces) last =
              if (stop : ℤ) = maxInt64 then ((q, c) :: pieces, last)
              else ((q, c) :: (leave pieces last).1, (leave pieces last).2) := by
            rw [leave, read]
            rfl
          rw [unfolded]
          split
          · rename_i largest
            rw [loopValues, read]
            dsimp only [Item.code]
            rw [if_pos largest, scanned, seen, if_pos largest, if_pos largest]
            exact ⟨rfl, rfl⟩
          · rename_i more
            rw [loopValues, read, loopValues, read]
            dsimp only [Item.code]
            rw [if_neg more, if_neg more, once, later, scanned, seen, if_neg more, if_neg more]
            exact ⟨rfl, rfl⟩

/-- A listed item stands for one value at least, and the last one is its end. -/
theorem parseItem_values {q : List Char} {i : Item} (denotes : parseItem q = some i) :
    ∃ v rest, i.values = v :: rest ∧
      (∀ beg stop, i = .range beg stop → (stop : ℤ) ∈ i.values) := by
  have range {beg stop : ℕ} (order : beg ≤ stop) : ∃ v rest, (Item.range beg stop).values =
      v :: rest ∧ (∀ b s, Item.range beg stop = .range b s →
        (s : ℤ) ∈ (Item.range beg stop).values) := by
    refine ⟨beg, expand (beg + 1) stop, expand_cons (by omega), fun b s same => ?_⟩
    cases same
    exact mem_expand.mpr ⟨by omega, le_refl _⟩
  unfold parseItem at denotes
  split at denotes
  · obtain ⟨beg, start, denotes⟩ := Option.bind_eq_some_iff.mp denotes
    obtain ⟨last, stop, denotes⟩ := Option.bind_eq_some_iff.mp denotes
    split at denotes
    · rename_i order
      cases denotes
      exact range (le_of_lt order.2)
    · cases denotes
  · split at denotes
    · cases denotes
      exact ⟨0, [], rfl, fun beg stop same => by cases same⟩
    · obtain ⟨value, digits, denotes⟩ := Option.bind_eq_some_iff.mp denotes
      split at denotes
      · cases denotes
        exact range (le_refl value)
      · cases denotes

theorem parsePieces_mem (denotes : parsePieces pieces last = some items) :
    ∀ i ∈ items, ∃ q, parseItem q = some i := by
  induction pieces generalizing items with
  | nil =>
      unfold parsePieces at denotes
      split at denotes
      · cases denotes
        exact List.forall_mem_nil _
      · obtain ⟨i, parsed, rfl⟩ := Option.map_eq_some_iff.mp denotes
        intro j member
        rw [List.mem_singleton.mp member]
        exact ⟨last, parsed⟩
  | cons piece pieces ih =>
      obtain ⟨i, parsed, denotes⟩ := Option.bind_eq_some_iff.mp denotes
      obtain ⟨rest, parsedRest, same⟩ := Option.bind_eq_some_iff.mp denotes
      cases same
      intro j member
      rcases List.mem_cons.mp member with rfl | member
      · exact ⟨piece.1, parsed⟩
      · exact ih parsedRest j member

theorem loopValues_le {values : List ℤ} (result : loopValues pieces last = some values) :
    ∀ v ∈ values, v ≤ maxInt64 := by
  have ends {q : List Char} {beg stop : ℤ} (read : readItem q = .ok (some (beg, stop))) :
      ∀ v ∈ expand beg stop, v ≤ maxInt64 := fun v member =>
    le_trans (mem_expand.mp member).2 (readItem_range read).2.2
  have looped := loopValues_looped result
  clear result
  induction looped with
  | empty none => exact List.forall_mem_nil _
  | lastNothing read => decide
  | lastRange read => exact ends read
  | nothing read looped ih => exact List.forall_mem_cons.mpr ⟨by decide, ih⟩
  | largest read => exact ends read
  | range read more looped ih => exact List.forall_mem_append.mpr ⟨ends read, ih⟩

theorem scanned_eq (more : ∀ i ∈ items.dropLast, ¬i.Ends) :
    scanned items = items.flatMap Item.values := by
  induction items with
  | nil => rfl
  | cons i items ih =>
      rw [List.flatMap_cons]
      cases items with
      | nil =>
          cases i with
          | all => rfl
          | range beg stop =>
              rw [scanned, List.flatMap_nil, scanned, List.append_nil, List.append_nil, ite_self]
              rfl
      | cons j items =>
          rw [List.dropLast_cons_cons, List.forall_mem_cons] at more
          rw [← ih more.2]
          cases i with
          | all => rfl
          | range beg stop =>
              rw [scanned, if_neg (show (stop : ℤ) ≠ maxInt64 from more.1)]
              rfl

/-- All items are seen, if and only if a loop goes on behind each but the last one. -/
theorem seen_eq_iff (some : ∀ i ∈ items, ∃ v rest, i.values = v :: rest) :
    seen items = items.flatMap Item.values ↔ ∀ i ∈ items.dropLast, ¬i.Ends := by
  induction items with
  | nil => exact ⟨fun _ => List.forall_mem_nil _, fun _ => rfl⟩
  | cons i items ih =>
      rw [List.forall_mem_cons] at some
      rw [List.flatMap_cons]
      cases items with
      | nil =>
          refine ⟨fun _ => List.forall_mem_nil _, fun _ => ?_⟩
          cases i with
          | all => rfl
          | range beg stop =>
              rw [seen, List.flatMap_nil, seen, List.append_nil, List.append_nil, ite_self]
              rfl
      | cons j items =>
          have behind : (j :: items).flatMap Item.values ≠ [] := by
            obtain ⟨v, rest, first⟩ := some.2 j List.mem_cons_self
            rw [List.flatMap_cons, first]
            exact List.cons_ne_nil _ _
          rw [List.dropLast_cons_cons, List.forall_mem_cons, ← ih some.2]
          cases i with
          | all =>
              refine ⟨fun same => ?_, fun all => absurd trivial all.1⟩
              exact absurd (List.cons.inj same).2.symm behind
          | range beg stop =>
              rw [seen]
              by_cases largest : (stop : ℤ) = maxInt64
              · rw [if_pos largest]
                refine ⟨fun same => ?_, fun all => absurd largest all.1⟩
                exact absurd (List.append_right_eq_self.mp same.symm) behind
              · rw [if_neg largest]
                refine ⟨fun same => ⟨largest, List.append_cancel_left same⟩, fun all => ?_⟩
                rw [all.2]
                rfl

end Values

/-- The scan ends. When it finds no error the string is settled. -/
theorem setString_scan (l : Sellist) (string : CString) :
    ∃ rounds ok l', setString rounds l string true = some (ok, l') ∧
      ok = (loopValues (cut seps string.chars).1 (cut seps string.chars).2).isSome ∧ (ok = true →
      ∃ values junk,
        loopValues (cut seps string.chars).1 (cut seps string.chars).2 = some values ∧
        l'.numItems = Int.bmod values.length (2 ^ 32) ∧
        Settled (join (leave (cut seps string.chars).1 (cut seps string.chars).2).1
          (leave (cut seps string.chars).1 (cut seps string.chars).2).2 ++ nul :: junk) l') := by
  obtain ⟨whole, pieces⟩ := cut_spec seps string.chars
  set start : Sellist := { begin { l with str := string.chars ++ [nul] } with numItems := 0 }
  have here : start.At [] (join (cut seps string.chars).1 (cut seps string.chars).2) [] := by
    rw [whole]
    exact ⟨rfl, rfl, show (0 : ℤ) < 1 by decide, rfl⟩
  have text : nul ∉ join (cut seps string.chars).1 (cut seps string.chars).2 := by
    rw [whole]
    exact string.terminated
  obtain ⟨values, l', drains, ending⟩ := loop_spec here pieces text
  obtain ⟨rounds, run⟩ := drains_iff.mp drains
  set l₁ : Sellist := { l' with numItems := Int.bmod values.length (2 ^ 32) }
  have scanned (found : List ℤ × Sellist → Sellist) :
      (drain advance rounds start.advance).map found = some (found (values, l')) := by
    rw [run]
    rfl
  by_cases error : l₁.errmsg ≠ none
  · refine ⟨rounds, false, { l₁ with e := none }, ?_, ?_, fun no => by cases no⟩
    · unfold setString
      rw [if_pos rfl, scanned, Option.bind_eq_bind, Option.bind_some]
      exact if_pos ⟨rfl, error⟩
    · unfold LoopEnd at ending
      cases accepted : loopValues (cut seps string.chars).1 (cut seps string.chars).2 with
      | none => rfl
      | some expected =>
          rw [accepted] at ending
          exact absurd ending.2.1 error
  · refine ⟨rounds, true, l₁.begin, ?_, ?_, fun _ => ?_⟩
    · unfold setString
      rw [if_pos rfl, scanned, Option.bind_eq_bind, Option.bind_some]
      exact if_neg fun both => error both.2
    · unfold LoopEnd at ending
      cases accepted : loopValues (cut seps string.chars).1 (cut seps string.chars).2 with
      | none =>
          rw [accepted] at ending
          exact absurd ending error
      | some expected => rfl
    · unfold LoopEnd at ending
      cases accepted : loopValues (cut seps string.chars).1 (cut seps string.chars).2 with
      | none =>
          rw [accepted] at ending
          exact absurd ending error
      | some expected =>
          rw [accepted] at ending
          obtain ⟨same, -, junk, memory⟩ := ending
          obtain ⟨clean, cutLeft, within⟩ := leave_spec accepted pieces
          have number : l₁.begin.numItems = Int.bmod values.length (2 ^ 32) := by
            simp only [l₁, Sellist.begin]
          refine ⟨values, junk, congrArg some same.symm, number,
            ⟨memory, rfl, show (1 : ℤ) ≤ maxInt64 by decide, Or.inr fun p e => ?_⟩⟩
          obtain rfl : 0 = p := Option.some.inj e
          exact ⟨[], _, _, junk, rfl, rfl, clean, cutLeft, fun member => text (within _ member)⟩

/-- Of a settled list every loop sees the same values, those of the items that are left. -/
theorem Settled.loops {l : Sellist} {pieces : List (List Char × Char)} {last junk : List Char}
    (settled : Settled (join pieces last ++ nul :: junk) l) (clean : Clean pieces last)
    (cut : Pieces seps pieces last) (text : nul ∉ join pieces last) :
    ∃ values, loopValues pieces last = some values ∧
      ∀ l', Later l l' → ∃ l'', Drains advance (item l'.first) values l'' := by
  obtain ⟨values, expected⟩ := clean.values
  refine ⟨values, expected, fun l' later => ?_⟩
  have start : Place (join pieces last ++ nul :: junk) 0 :=
    ⟨[], pieces, last, junk, rfl, rfl, clean, cut, text⟩
  have settled' : Settled (join pieces last ++ nul :: junk) l' := by
    induction later with
    | refl => exact settled
    | tail _ step ih =>
        rcases step with rfl | rfl
        · exact ih.next
        · exact ih.begin start
  have here : l'.begin.At [] (join pieces last) junk :=
    ⟨settled'.str, rfl, show (0 : ℤ) < 1 by decide, rfl⟩
  obtain ⟨found, l'', drains, ending⟩ := loop_spec here cut text
  unfold LoopEnd at ending
  rw [expected] at ending
  rw [← ending.1]
  exact ⟨l'', drains⟩

/-- The scan accepts the string when it can read all of its items, and then every loop sees the
items that are left. -/
theorem setString_loops (l : Sellist) (string : CString) :
    ∃ rounds ok l', setString rounds l string true = some (ok, l') ∧
      ok = (loopValues (cut seps string.chars).1 (cut seps string.chars).2).isSome ∧ (ok = true →
      ∃ values loop,
        loopValues (cut seps string.chars).1 (cut seps string.chars).2 = some values ∧
        l'.numItems = Int.bmod values.length (2 ^ 32) ∧
        loopValues (leave (cut seps string.chars).1 (cut seps string.chars).2).1
          (leave (cut seps string.chars).1 (cut seps string.chars).2).2 = some loop ∧
        ∀ l₁, Later l' l₁ → ∃ l₂, Drains advance (item l₁.first) loop l₂) := by
  obtain ⟨rounds, ok, l', result, reads, accept⟩ := setString_scan l string
  refine ⟨rounds, ok, l', result, reads, fun accepted => ?_⟩
  obtain ⟨values, junk, scan, size, settled⟩ := accept accepted
  obtain ⟨whole, pieces⟩ := cut_spec seps string.chars
  obtain ⟨clean, cutLeft, within⟩ := leave_spec scan pieces
  have text : nul ∉ join (leave (cut seps string.chars).1 (cut seps string.chars).2).1
      (leave (cut seps string.chars).1 (cut seps string.chars).2).2 := fun member => by
    refine string.terminated ?_
    rw [← whole]
    exact within _ member
  obtain ⟨loop, expected, loops⟩ := settled.loops clean cutLeft text
  exact ⟨values, loop, scan, size, expected, loops⟩

/-- Of every list that `set_string` accepts, the loops see the listed values, if and only if
the items before the last one are no keyword and no range up to the largest number, the
numbers are in range and the values can be counted. -/
theorem lawful_iff (l : Sellist) (string : CString) :
    ∃ rounds ok l', setString rounds l string true = some (ok, l') ∧
      (ok = true → (Lawful string l' ↔ Plain string)) := by
  obtain ⟨rounds, ok, l', result, -, accept⟩ := setString_loops l string
  refine ⟨rounds, ok, l', result, fun accepted => ?_⟩
  obtain ⟨values, loop, scan, size, expected, loops⟩ := accept accepted
  -- what the loops see, once the listed items are known to fit
  have fitting {items : List Item} (denotes : listed string = some items)
      (fits : ∀ i ∈ items, i.Fits) : values = scanned items ∧ loop = seen items := by
    obtain ⟨once, later⟩ := loopValues_listed denotes fits
    exact ⟨Option.some.inj (scan.symm.trans once), Option.some.inj (expected.symm.trans later)⟩
  have some {items : List Item} (denotes : listed string = some items) :
      ∀ i ∈ items, ∃ v rest, i.values = v :: rest := fun i member => by
    obtain ⟨q, parsed⟩ := parsePieces_mem denotes i member
    obtain ⟨v, rest, first, -⟩ := parseItem_values parsed
    exact ⟨v, rest, first⟩
  constructor
  · rintro ⟨items, denotes, lawful, count⟩
    obtain ⟨l₁, listed⟩ := lawful l' .refl
    obtain ⟨l₂, looped⟩ := loops l' .refl
    have same : loop = items.flatMap Item.values := (looped.unique listed).1
    have fits : ∀ i ∈ items, i.Fits := fun i member => by
      obtain ⟨q, parsed⟩ := parsePieces_mem denotes i member
      obtain ⟨v, rest, -, stops⟩ := parseItem_values parsed
      cases i with
      | all => trivial
      | range beg stop =>
          refine loopValues_le expected stop ?_
          rw [same]
          exact List.mem_flatMap.mpr ⟨_, member, stops beg stop rfl⟩
    obtain ⟨once, later⟩ := fitting denotes fits
    have more := (seen_eq_iff (some denotes)).mp (later.symm.trans same)
    refine ⟨items, denotes, fits, more, fun noAll => ?_⟩
    have number := count noAll
    rw [Sellist.size, size, once, scanned_eq more] at number
    have below := @Int.bmod_lt ((items.flatMap Item.values).length) (2 ^ 32) (by decide)
    rw [number] at below
    omega
  · rintro ⟨items, denotes, fits, more, count⟩
    obtain ⟨once, later⟩ := fitting denotes fits
    have same := later.trans ((seen_eq_iff (some denotes)).mpr more)
    refine ⟨items, denotes, fun l₁ after => ?_, fun noAll => ?_⟩
    · rw [← same]
      exact loops l₁ after
    · have small := count noAll
      rw [Sellist.size, size, once, scanned_eq more]
      exact Int.bmod_eq_of_le (by omega) (by omega)

/-- The keyword cuts the string: the value behind it is counted, but no loop sees it. -/
theorem all_hides_item :
    let string : CString := ⟨"all,5".toList, by decide⟩
    (setString 10 ⟨none, none, false, 0, 0, 0, []⟩ string true).bind (fun (ok, l) =>
      (drain advance 10 (item l.first)).map fun (values, _) => (ok, l.size, values)) =
        some (true, 2, [0]) := by
  decide

end Bacula.Sellist
