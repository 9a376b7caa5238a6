import Bacula.Lib.SellistLaw

/-! The expanded list of values, `sellist::get_expanded_list`. -/
namespace Bacula.Sellist
open CMemory Iterator

/-- The memory that is being filled: its size, and the text in front of `p`. -/
structure Expanded where
  expandedsize : ℕ
  text : List Char

/-- `edit_int64` of a value that is not negative. -/
def edited (val : ℤ) : List Char := Nat.toDigits 10 val.toNat

/-- `strcpy` to `p`, with `p` moved behind the characters. The end of the string must be inside the
memory too. -/
def strcpy (e : Expanded) (s : List Char) : Option Expanded :=
  if e.text.length + s.length + 1 ≤ e.expandedsize then some { e with text := e.text ++ s } else none

/-- Alloc more space if needed. The size is an `int32_t`; there is no memory of a negative size. -/
def moreSpace (e : Expanded) (len : ℕ) : Option Expanded :=
  if e.text.length + len + 1 > e.expandedsize then
    if e.expandedsize * 2 < 2 ^ 31 then some { e with expandedsize := e.expandedsize * 2 } else none
  else some e

/-- The loop for one value. -/
def appendValue (e : Expanded) (val : ℤ) : Option Expanded := do
  let ed1 := edited val
  let e ← moreSpace e ed1.length
  -- If not at the begining of the string, add a ","
  let e ← if e.text ≠ [] then strcpy e [','] else some e
  strcpy e ed1

/-- `get_expanded_list`, with a bound on the rounds. -/
def getExpandedList (rounds : ℕ) (l : Sellist) : Option (List Char) := do
  let (values, _) ← drain advance rounds l.advance
  let e ← values.foldlM appendValue ⟨512, []⟩
  some e.text

/-! ## The text -/

def commaText : List ℤ → List Char
  | [] => []
  | [v] => edited v
  | v :: rest => edited v ++ ',' :: commaText rest

/-- The pieces that the text is cut into. -/
def commaPieces : List ℤ → List (List Char × Char) × List Char
  | [] => ([], [])
  | [v] => ([], edited v)
  | v :: rest => ((edited v, ',') :: (commaPieces rest).1, (commaPieces rest).2)

theorem edited_digits (v : ℤ) : (edited v).all Char.isDigit = true :=
  List.all_eq_true.mpr fun _ member => Nat.isDigit_of_mem_toDigits (by decide) (by decide) member

theorem edited_ne_nil (v : ℤ) : edited v ≠ [] :=
  List.ne_nil_of_length_pos Nat.length_toDigits_pos

theorem not_mem_edited {c : Char} (v : ℤ) (other : c.isDigit = false) : c ∉ edited v := fun member => by
  have digit := List.all_eq_true.mp (edited_digits v) c member
  rw [other] at digit
  cases digit

theorem commaText_ne_nil (v : ℤ) (rest : List ℤ) : commaText (v :: rest) ≠ [] := by
  cases rest with
  | nil => exact edited_ne_nil v
  | cons w rest => exact List.append_ne_nil_of_left_ne_nil (edited_ne_nil v) _

theorem commaText_append (pre : List ℤ) (v : ℤ) :
    commaText (pre ++ [v]) =
      if commaText pre ≠ [] then commaText pre ++ ',' :: edited v else edited v := by
  induction pre with
  | nil => rfl
  | cons u pre ih =>
      rw [if_pos (commaText_ne_nil u pre)]
      cases pre with
      | nil => rfl
      | cons w pre =>
          rw [if_pos (commaText_ne_nil w pre)] at ih
          change edited u ++ ',' :: commaText (w :: pre ++ [v]) = _
          rw [ih]
          simp [commaText]

theorem cut_plain {accept q : List Char} (plain : ∀ x ∈ q, x ∉ accept) : cut accept q = ([], q) := by
  induction q with
  | nil => rfl
  | cons c q ih =>
      rw [cut, if_neg (plain c List.mem_cons_self),
        ih fun x member => plain x (List.mem_cons_of_mem _ member)]

theorem cut_append_cons {accept q : List Char} {c : Char} (plain : ∀ x ∈ q, x ∉ accept)
    (sep : c ∈ accept) (rest : List Char) :
    cut accept (q ++ c :: rest) = ((q, c) :: (cut accept rest).1, (cut accept rest).2) := by
  induction q with
  | nil => rw [List.nil_append, cut, if_pos sep]
  | cons d q ih =>
      rw [List.cons_append, cut, if_neg (plain d List.mem_cons_self),
        ih fun x member => plain x (List.mem_cons_of_mem _ member)]

theorem edited_plain (v : ℤ) : ∀ x ∈ edited v, x ∉ seps := by
  intro x member sep
  have digit := List.all_eq_true.mp (edited_digits v) x member
  rcases List.mem_cons.mp sep with rfl | sep
  · cases digit
  · rw [List.mem_singleton.mp sep] at digit
    cases digit

theorem cut_commaText (values : List ℤ) : cut seps (commaText values) = commaPieces values := by
  induction values with
  | nil => rfl
  | cons v rest ih =>
      cases rest with
      | nil => exact cut_plain (edited_plain v)
      | cons w rest =>
          change cut seps (edited v ++ ',' :: commaText (w :: rest)) = _
          rw [cut_append_cons (edited_plain v) (by decide), ih]
          rfl

theorem commaText_terminated (values : List ℤ) : nul ∉ commaText values := by
  induction values with
  | nil => exact List.not_mem_nil
  | cons v rest ih =>
      cases rest with
      | nil => exact not_mem_edited v (by decide)
      | cons w rest =>
          intro member
          rcases List.mem_append.mp member with digits | later
          · exact not_mem_edited v (by decide) digits
          · rcases List.mem_cons.mp later with comma | behind
            · revert comma
              decide
            · exact ih behind

/-! ## The pieces as they are read again -/

theorem readItem_edited {v : ℤ} (positive : 0 < v) (small : v ≤ maxInt64) :
    readItem (edited v) = .ok (some (v, v)) := by
  have value : ((v.toNat : ℕ) : ℤ) = v := Int.toNat_of_nonneg (le_of_lt positive)
  have number : number (edited v) = some v.toNat := by
    have digits : isAnInteger (edited v) = true := by
      rw [isAnInteger, edited_digits, Bool.and_true, Bool.not_eq_true', List.isEmpty_eq_false_iff]
      exact edited_ne_nil v
    rw [Sellist.number, if_pos digits, edited, Nat.ofDigitChars_ten_toDigits]
  have noKeyword : ((edited v).take 3).map Char.toLower ≠ ['a', 'l', 'l'] := by
    intro same
    cases text : edited v with
    | nil => exact edited_ne_nil v text
    | cons c rest =>
        have digit := List.all_eq_true.mp (edited_digits v) c (text ▸ List.mem_cons_self)
        rw [text, List.take_succ_cons, List.map_cons] at same
        have lower : c.toLower = c := by
          unfold Char.toLower
          unfold Char.isDigit at digit
          grind
        rw [lower] at same
        rw [(List.cons.inj same).1] at digit
        cases digit
  have parsed : parseItem (edited v) = some (.range v.toNat v.toNat) := by
    rw [parseItem, if_neg (not_mem_edited v (by decide)), skipSpaces_digits (edited_digits v),
      if_neg noKeyword, number, Option.bind_eq_bind, Option.bind_some, if_pos (by omega)]
  rw [readItem_of_parseItem parsed (value.trans_le small), Item.code, value]

/-- What loops see: only the last value can be the largest one. -/
theorem expand_ordered {beg last : ℤ} (positive : 0 < beg) (small : last ≤ maxInt64) :
    (∀ v ∈ expand beg last, 0 ≤ v ∧ v ≤ maxInt64) ∧
      (expand beg last).Pairwise fun v _ => v ≠ maxInt64 := by
  refine ⟨fun v member => ?_, ?_⟩
  · have inside := mem_expand.mp member
    omega
  · refine List.Pairwise.imp_of_mem (fun _ member below largest => ?_)
      (List.pairwise_lt_range.map _ fun i j below => ?_ : (expand beg last).Pairwise (· < ·))
    · have inside := mem_expand.mp member
      omega
    · omega

theorem loopValues_ordered {pieces : List (List Char × Char)} {last : List Char} {values : List ℤ}
    (result : loopValues pieces last = some values) :
    (∀ v ∈ values, 0 ≤ v ∧ v ≤ maxInt64) ∧ values.Pairwise fun v _ => v ≠ maxInt64 := by
  have looped := loopValues_looped result
  clear result
  induction looped with
  | empty none => exact ⟨List.forall_mem_nil _, .nil⟩
  | lastNothing read => exact ⟨by decide, List.pairwise_singleton _ _⟩
  | lastRange read =>
      obtain ⟨positive, order, small⟩ := readItem_range read
      exact expand_ordered positive small
  | nothing read looped ih =>
      obtain ⟨bounds, order⟩ := ih
      refine ⟨List.forall_mem_cons.mpr ⟨by decide, bounds⟩, List.pairwise_cons.mpr ⟨?_, order⟩⟩
      intro v member
      decide
  | largest read =>
      obtain ⟨positive, order, small⟩ := readItem_range read
      exact expand_ordered positive small
  | range read more looped ih =>
      obtain ⟨positive, order, small⟩ := readItem_range read
      obtain ⟨bounds, order⟩ := ih
      obtain ⟨bounds', order'⟩ := expand_ordered positive small
      refine ⟨List.forall_mem_append.mpr ⟨bounds', bounds⟩,
        List.pairwise_append.mpr ⟨order', order, ?_⟩⟩
      intro v member w _
      have inside := mem_expand.mp member
      omega

section Reread

variable {values : List ℤ}

/-- The text is read as the values again, unless there is the value of the keyword. -/
theorem loopValues_commaPieces (bounds : ∀ v ∈ values, 0 ≤ v ∧ v ≤ maxInt64)
    (order : values.Pairwise fun v _ => v ≠ maxInt64) :
    loopValues (commaPieces values).1 (commaPieces values).2 =
      if 0 ∈ values then none else some values := by
  induction values with
  | nil => rfl
  | cons v rest ih =>
      have inside := bounds v List.mem_cons_self
      have behind := ih (fun w member => bounds w (List.mem_cons_of_mem _ member)) order.tail
      by_cases zero : v = 0
      · subst zero
        rw [if_pos List.mem_cons_self]
        cases rest with
        | nil => rfl
        | cons w rest => rfl
      · have read := readItem_edited (lt_of_le_of_ne inside.1 (Ne.symm zero)) inside.2
        cases rest with
        | nil =>
            change loopValues [] (edited v) = _
            rw [loopValues, if_neg (edited_ne_nil v), read, if_neg (by simpa using Ne.symm zero)]
            dsimp only
            rw [expand_cons (le_refl v), expand_nil (by omega)]
        | cons w rest =>
            have more : v ≠ maxInt64 := (List.pairwise_cons.mp order).1 w List.mem_cons_self
            change loopValues ((edited v, ',') :: (commaPieces (w :: rest)).1)
              (commaPieces (w :: rest)).2 = _
            rw [loopValues, read]
            dsimp only
            rw [if_neg more, behind, expand_cons (le_refl v), expand_nil (by omega)]
            by_cases member : 0 ∈ w :: rest
            · rw [if_pos member, if_pos (List.mem_cons_of_mem _ member)]
              rfl
            · rw [if_neg member, if_neg (by simpa [Ne.symm zero] using member)]
              rfl

/-- No loop changes the text. -/
theorem leave_commaPieces (bounds : ∀ v ∈ values, 0 ≤ v ∧ v ≤ maxInt64) (noKeyword : 0 ∉ values) :
    leave (commaPieces values).1 (commaPieces values).2 = commaPieces values := by
  induction values with
  | nil => rfl
  | cons v rest ih =>
      rw [List.mem_cons, not_or] at noKeyword
      have inside := bounds v List.mem_cons_self
      cases rest with
      | nil => rfl
      | cons w rest =>
          have behind := ih (fun w member => bounds w (List.mem_cons_of_mem _ member)) noKeyword.2
          change leave ((edited v, ',') :: (commaPieces (w :: rest)).1) (commaPieces (w :: rest)).2 = _
          rw [leave, readItem_edited (lt_of_le_of_ne inside.1 noKeyword.1) inside.2]
          dsimp only
          split
          · rfl
          · rw [behind]
            rfl

end Reread

/-! ## The memory -/

/-- The characters of a text and the end of the string have room. There is none when the text has
the size of the memory that would be there for it, as the check does not count the comma. -/
def Room (text : List Char) : Prop := text.length < 2 ^ 30 ∧ ∀ j, text.length ≠ 512 * 2 ^ j

/-- Each beginning of the list has room. -/
def Fits (values : List ℤ) : Prop := ∀ pre, pre <+: values → Room (commaText pre)

/-- The memory has no more than twice the size that the text needs. -/
structure Grown (e : Expanded) : Prop where
  doubled : ∃ j, e.expandedsize = 512 * 2 ^ j
  small : e.expandedsize < 2 ^ 31
  inside : e.text.length < e.expandedsize
  needed : e.expandedsize ≤ 512 ∨ e.expandedsize < 2 * e.text.length

theorem edited_short {v : ℤ} (small : v ≤ maxInt64) : (edited v).length ≤ 19 := by
  refine (Nat.length_toDigits_le_iff (by decide) (by decide)).mpr ?_
  unfold maxInt64 at small
  omega

theorem strcpy_some {e : Expanded} {s : List Char}
    (room : e.text.length + s.length + 1 ≤ e.expandedsize) :
    strcpy e s = some { e with text := e.text ++ s } := if_pos room

theorem strcpy_none {e : Expanded} {s : List Char}
    (full : e.expandedsize < e.text.length + s.length + 1) :
    strcpy e s = none := if_neg (not_le.mpr full)

/-- The value behind others. -/
theorem appendValue_behind (e : Expanded) (v : ℤ) (behind : e.text ≠ []) :
    appendValue e v = (moreSpace e (edited v).length).bind fun e' =>
      (strcpy e' [',']).bind fun e' => strcpy e' (edited v) := by
  have same {e' : Expanded} (more : moreSpace e (edited v).length = some e') : e'.text = e.text := by
    unfold moreSpace at more
    split_ifs at more <;> cases more <;> rfl
  unfold appendValue
  dsimp only
  cases more : moreSpace e (edited v).length with
  | none => simp only [Option.bind_eq_bind, Option.bind_none]
  | some e' =>
      simp only [Option.bind_eq_bind, Option.bind_some]
      rw [if_pos (same more ▸ behind)]

theorem appendValue_room {e : Expanded} {v : ℤ} {pre : List ℤ} (grown : Grown e)
    (text : e.text = commaText pre) (small : v ≤ maxInt64) :
    (Room (commaText (pre ++ [v])) → ∃ e', appendValue e v = some e' ∧
      e'.text = commaText (pre ++ [v]) ∧ Grown e') ∧
    (¬Room (commaText (pre ++ [v])) → appendValue e v = none) := by
  obtain ⟨⟨j, size⟩, limit, inside, needed⟩ := grown
  have digits := edited_short small
  have one := List.length_pos_iff.mpr (edited_ne_nil v)
  have least : 1 ≤ 2 ^ j := Nat.one_le_two_pow
  have power : 2 ^ j < 2 ^ 22 := by omega
  have exponent := (Nat.pow_lt_pow_iff_right (by decide)).mp power
  have most := Nat.pow_le_pow_right (show 0 < 2 by decide) (show j ≤ 21 from Nat.le_of_lt_succ exponent)
  rw [commaText_append, ← text]
  by_cases behind : e.text ≠ []
  · have some_ := List.length_pos_iff.mpr behind
    rw [if_pos behind, appendValue_behind e v behind]
    have length : (e.text ++ ',' :: edited v).length = e.text.length + (edited v).length + 1 := by
      rw [List.length_append, List.length_cons, Nat.add_assoc]
    constructor
    · intro room
      obtain ⟨short, misses⟩ := room
      rw [length] at short
      have differs := misses j
      rw [length, ← size] at differs
      by_cases more : e.text.length + (edited v).length + 1 > e.expandedsize
      · rw [moreSpace, if_pos more, if_pos (by omega), Option.bind_some,
          strcpy_some (by simp only [List.length_singleton]; omega), Option.bind_some,
          strcpy_some (by simp only [List.length_append, List.length_singleton]; omega)]
        refine ⟨_, rfl, by simp, ⟨j + 1, by simp only [size, pow_succ]; ring⟩, ?_, ?_, ?_⟩
        · dsimp only
          omega
        · simp only [List.length_append, List.length_singleton]
          omega
        · simp only [List.length_append, List.length_singleton]
          omega
      · rw [moreSpace, if_neg more, Option.bind_some,
          strcpy_some (by simp only [List.length_singleton]; omega), Option.bind_some,
          strcpy_some (by simp only [List.length_append, List.length_singleton]; omega)]
        refine ⟨_, rfl, by simp, ⟨j, size⟩, limit, ?_, ?_⟩
        · simp only [List.length_append, List.length_singleton]
          omega
        · simp only [List.length_append, List.length_singleton]
          omega
    · intro full
      by_cases more : e.text.length + (edited v).length + 1 > e.expandedsize
      · -- a text that has grown over the size is no power of two, so it is too long
        have long : 2 ^ 30 ≤ e.text.length + (edited v).length + 1 := by
          by_contra short
          refine full ⟨by rw [length]; exact not_le.mp short, fun i same => ?_⟩
          rw [length] at same
          have above : 2 ^ j < 2 ^ i := by omega
          have below : 2 ^ i < 2 ^ (j + 1) := by rw [pow_succ]; omega
          have := (Nat.pow_lt_pow_iff_right (by decide)).mp above
          have := (Nat.pow_lt_pow_iff_right (by decide)).mp below
          omega
        have large : 2 ^ 29 < 512 * 2 ^ j := by omega
        have power : 2 ^ 20 < 2 ^ j := by omega
        have exponent := (Nat.pow_lt_pow_iff_right (by decide)).mp power
        have least := Nat.pow_le_pow_right (show 0 < 2 by decide) (show 21 ≤ j from exponent)
        rw [moreSpace, if_pos more, if_neg (by omega), Option.bind_none]
      · rw [moreSpace, if_neg more, Option.bind_some,
          strcpy_some (by simp only [List.length_singleton]; omega), Option.bind_some]
        refine strcpy_none ?_
        simp only [List.length_append, List.length_singleton]
        -- a text below the size is above half of it
        by_contra room
        refine full ⟨by omega, fun i same => ?_⟩
        rw [length] at same
        have below : 2 ^ i < 2 ^ j := by omega
        have exponent := (Nat.pow_lt_pow_iff_right (by decide)).mp below
        have half := Nat.pow_le_pow_right (show 0 < 2 by decide) (show i + 1 ≤ j from exponent)
        rw [pow_succ] at half
        have least : 1 ≤ 2 ^ i := Nat.one_le_two_pow
        omega
  · have empty := not_not.mp behind
    rw [if_neg behind]
    have none_ : e.text.length = 0 := by rw [empty]; rfl
    refine ⟨fun _ => ?_, fun full => absurd ⟨by omega, fun i same => ?_⟩ full⟩
    · rw [appendValue]
      dsimp only
      rw [moreSpace, if_neg (by omega)]
      simp only [Option.bind_eq_bind, Option.bind_some]
      rw [if_neg behind, strcpy_some (by omega)]
      refine ⟨_, rfl, by simp [empty], ⟨j, size⟩, limit, ?_, ?_⟩
      · simp only [empty, List.nil_append]
        omega
      · simp only [empty, List.nil_append]
        omega
    · have least : 1 ≤ 2 ^ i := Nat.one_le_two_pow
      omega

/-- The whole loop. -/
theorem foldlM_room {values pre : List ℤ} {e : Expanded} (grown : Grown e)
    (text : e.text = commaText pre) (small : ∀ v ∈ values, v ≤ maxInt64) :
    ((∀ q, q <+: values → q ≠ [] → Room (commaText (pre ++ q))) →
      ∃ e', values.foldlM appendValue e = some e' ∧ e'.text = commaText (pre ++ values)) ∧
    ∀ q, q <+: values → q ≠ [] → ¬Room (commaText (pre ++ q)) → values.foldlM appendValue e = none := by
  induction values generalizing pre e with
  | nil =>
      refine ⟨fun _ => ⟨e, rfl, by rw [text, List.append_nil]⟩, fun q before some => ?_⟩
      exact absurd (List.prefix_nil.mp before) some
  | cons v values ih =>
      obtain ⟨room, full⟩ := appendValue_room grown text (small v List.mem_cons_self)
      have behind := fun w member => small w (List.mem_cons_of_mem v member)
      rw [List.foldlM_cons]
      by_cases first : Room (commaText (pre ++ [v]))
      · obtain ⟨e', appended, text', grown'⟩ := room first
        obtain ⟨later, stops⟩ := ih grown' text' behind
        rw [appended, Option.bind_eq_bind, Option.bind_some]
        constructor
        · intro all
          obtain ⟨e'', whole, text''⟩ := later fun q before some => by
            have step := all (v :: q) (List.cons_prefix_cons.mpr ⟨rfl, before⟩) (List.cons_ne_nil _ _)
            rwa [List.append_assoc]
          exact ⟨e'', whole, by rw [text'', List.append_assoc]; rfl⟩
        · intro q before some noRoom
          cases q with
          | nil => exact absurd rfl some
          | cons w q =>
              obtain ⟨rfl, behind⟩ := List.cons_prefix_cons.mp before
              by_cases more : q = []
              · subst more
                exact absurd first noRoom
              · refine stops q behind more ?_
                rwa [List.append_assoc]
      · rw [full first, Option.bind_eq_bind, Option.bind_none]
        refine ⟨fun all => absurd (all [v] ?_ (List.cons_ne_nil _ _)) first, fun _ _ _ _ => rfl⟩
        exact List.cons_prefix_cons.mpr ⟨rfl, List.nil_prefix⟩

/-- `get_expanded_list` writes inside its memory, if and only if each beginning of the list has
room, and then it returns the list. -/
theorem getExpandedList_iff {l l' : Sellist} {values : List ℤ}
    (loop : Drains advance l.advance values l') (small : ∀ v ∈ values, v ≤ maxInt64) :
    (Fits values → ∃ rounds, getExpandedList rounds l = some (commaText values)) ∧
    (∀ rounds text, getExpandedList rounds l = some text → Fits values ∧ text = commaText values) := by
  obtain ⟨rounds, run⟩ := drains_iff.mp loop
  have start : Grown ⟨512, []⟩ := ⟨⟨0, rfl⟩, by decide, by decide, Or.inl (le_refl _)⟩
  have empty : Expanded.text ⟨512, []⟩ = commaText [] := rfl
  obtain ⟨room, full⟩ := foldlM_room start empty small
  constructor
  · intro fits
    obtain ⟨e, whole, text⟩ := room fun q before _ => fits q before
    refine ⟨rounds, ?_⟩
    rw [getExpandedList, run, Option.bind_eq_bind, Option.bind_some]
    dsimp only
    rw [whole, Option.bind_eq_bind, Option.bind_some, text]
    rfl
  · intro rounds' text result
    unfold getExpandedList at result
    obtain ⟨⟨values', l''⟩, run', result⟩ := Option.bind_eq_some_iff.mp result
    obtain ⟨e, whole, same⟩ := Option.bind_eq_some_iff.mp result
    obtain ⟨rfl, -⟩ := loop.unique (drains_iff.mpr ⟨rounds', run'⟩)
    have fits : Fits values := fun q before => by
      by_contra noRoom
      have some : q ≠ [] := by
        rintro rfl
        refine noRoom ⟨by decide, fun j same => ?_⟩
        have least : 1 ≤ 2 ^ j := Nat.one_le_two_pow
        rw [show (commaText []).length = 0 from rfl] at same
        omega
      rw [full q before some noRoom] at whole
      cases whole
    obtain ⟨e', whole', text'⟩ := room fun q before _ => fits q before
    rw [whole] at whole'
    cases whole'
    exact ⟨fits, (Option.some.inj same).symm.trans text'⟩

/-! ## The list as it is read again -/

/-- `set_string` accepts a text, and a loop over the list sees the values. -/
def Rereads (text : List Char) (values : List ℤ) : Prop :=
  ∃ string : CString, string.chars = text ∧ ∀ l, ∃ rounds l' l'',
    setString rounds l string true = some (true, l') ∧ Drains advance l'.advance values l''

theorem setString_unique {l : Sellist} {string : CString} {rounds rounds' : ℕ}
    {r r' : Bool × Sellist} (first : setString rounds l string true = some r)
    (second : setString rounds' l string true = some r') : r = r' := by
  obtain ⟨l₁, scanned, result⟩ := Option.bind_eq_some_iff.mp first
  obtain ⟨l₂, scanned', result'⟩ := Option.bind_eq_some_iff.mp second
  obtain ⟨⟨values, m⟩, run, same⟩ := Option.map_eq_some_iff.mp scanned
  obtain ⟨⟨values', m'⟩, run', same'⟩ := Option.map_eq_some_iff.mp scanned'
  obtain ⟨rfl, rfl⟩ := (drains_iff.mpr ⟨rounds, run⟩).unique (drains_iff.mpr ⟨rounds', run'⟩)
  rw [← same] at result
  rw [← same'] at result'
  exact Option.some.inj (result.symm.trans result')

theorem setString_begun {l l' : Sellist} {string : CString} {rounds : ℕ}
    (accepted : setString rounds l string true = some (true, l')) : l'.begin = l' := by
  obtain ⟨l₁, -, result⟩ := Option.bind_eq_some_iff.mp accepted
  dsimp only at result
  split at result
  · cases result
  · cases result
    rfl

/-- Behind `set_string` a loop sees the items that are left. -/
theorem setString_advance (l : Sellist) (string : CString) :
    ∃ rounds ok l', setString rounds l string true = some (ok, l') ∧
      ok = (loopValues (cut seps string.chars).1 (cut seps string.chars).2).isSome ∧ (ok = true →
      ∃ values l'', loopValues (leave (cut seps string.chars).1 (cut seps string.chars).2).1
        (leave (cut seps string.chars).1 (cut seps string.chars).2).2 = some values ∧
        Drains advance l'.advance values l'') := by
  obtain ⟨rounds, ok, l', result, reads, accept⟩ := setString_loops l string
  refine ⟨rounds, ok, l', result, reads, ?_⟩
  rintro rfl
  obtain ⟨-, values, -, -, expected, loops⟩ := accept rfl
  obtain ⟨l'', drains⟩ := loops l' .refl
  rw [first, setString_begun result] at drains
  exact ⟨values, l'', expected, drains⟩

theorem rereads_iff {values : List ℤ} (bounds : ∀ v ∈ values, 0 ≤ v ∧ v ≤ maxInt64)
    (order : values.Pairwise fun v _ => v ≠ maxInt64) :
    Rereads (commaText values) values ↔ 0 ∉ values := by
  have read := loopValues_commaPieces bounds order
  constructor
  · rintro ⟨string, text, accepts⟩ keyword
    obtain ⟨rounds, l', -, accepted, -⟩ := accepts ⟨none, none, false, 0, 0, 0, []⟩
    obtain ⟨rounds', ok, l₁, result, refused, -⟩ :=
      setString_advance ⟨none, none, false, 0, 0, 0, []⟩ string
    rw [text, cut_commaText, read, if_pos keyword] at refused
    have same := setString_unique accepted result
    rw [refused] at same
    cases same
  · intro noKeyword
    refine ⟨⟨commaText values, commaText_terminated values⟩, rfl, fun l => ?_⟩
    obtain ⟨rounds, ok, l', result, accepted, loops⟩ :=
      setString_advance l ⟨commaText values, commaText_terminated values⟩
    rw [cut_commaText, read, if_neg noKeyword] at accepted
    obtain ⟨values', l'', same, drains⟩ := loops accepted
    rw [cut_commaText, leave_commaPieces bounds noKeyword, read, if_neg noKeyword] at same
    cases same
    rw [accepted] at result
    exact ⟨rounds, l', l'', result, drains⟩

/-- Behind every accepted string, the list with its commas has room as far as the numbers leave
room for it, and is accepted with the same values when the keyword is not among them. -/
theorem getExpandedList_rereads (l : Sellist) (string : CString) :
    ∃ rounds ok l', setString rounds l string true = some (ok, l') ∧ (ok = true →
      ∃ values l'', Drains advance l'.advance values l'' ∧ (Fits values →
        (∃ rounds', getExpandedList rounds' l' = some (commaText values)) ∧
        (Rereads (commaText values) values ↔ 0 ∉ values))) := by
  obtain ⟨rounds, ok, l', result, -, accept⟩ := setString_advance l string
  refine ⟨rounds, ok, l', result, fun accepted => ?_⟩
  obtain ⟨values, l'', expected, drains⟩ := accept accepted
  obtain ⟨bounds, order⟩ := loopValues_ordered expected
  refine ⟨values, l'', drains, fun fits => ⟨?_, rereads_iff bounds order⟩⟩
  exact (getExpandedList_iff drains fun v member => (bounds v member).2).1 fits

/-- The text for the keyword is its value, which is no selection. -/
theorem keyword_text_refused :
    let string : CString := ⟨"all".toList, by decide⟩
    let text : CString := ⟨"0".toList, by decide⟩
    (setString 10 ⟨none, none, false, 0, 0, 0, []⟩ string true).bind (fun (ok, l) =>
      (getExpandedList 10 l).map fun expanded => (ok, expanded)) = some (true, text.chars) ∧
    (setString 10 ⟨none, none, false, 0, 0, 0, []⟩ text true).map (fun (ok, l) =>
      (ok, l.errmsg)) = some (false, some .notPositive) := by
  decide

end Bacula.Sellist
