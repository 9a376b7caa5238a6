import Bacula.Lib.Duration

/-! What is read back of an edited duration. -/
namespace Bacula.Duration
open Binary64

/-! ## One number and its modifier -/

theorem digits_all (n : ℕ) : (Nat.toDigits 10 n).all Char.isDigit = true :=
  List.all_eq_true.mpr fun _ member => Nat.isDigit_of_mem_toDigits (by decide) (by decide) member

theorem digits_ne_nil (n : ℕ) : Nat.toDigits 10 n ≠ [] :=
  List.ne_nil_of_length_pos Nat.length_toDigits_pos

theorem isANumber_digits {q : List Char} (digits : q.all Char.isDigit = true) (filled : q ≠ []) :
    isANumber q = true := by
  have all := List.all_eq_true.mp digits
  have noSign : ¬(q.head? = some '-' ∨ q.head? = some '+') := by
    rintro (sign | sign)
    · exact absurd (all '-' (List.mem_of_mem_head? sign)) (by decide)
    · exact absurd (all '+' (List.mem_of_mem_head? sign)) (by decide)
  have taken : q.takeWhile Char.isDigit = q := List.takeWhile_eq_self_iff.mpr all
  have behind : q.dropWhile Char.isDigit = [] := List.dropWhile_eq_nil_iff.mpr all
  unfold isANumber
  dsimp only
  rw [if_neg noSign, taken, behind]
  simp [filled]

theorem strtod_digits {n : ℕ} (number : IsDouble n) : strtod (Nat.toDigits 10 n) = n := by
  have all := List.all_eq_true.mp (digits_all n)
  unfold strtod
  rw [List.takeWhile_eq_self_iff.mpr all, List.dropWhile_eq_nil_iff.mpr all,
    Nat.ofDigitChars_ten_toDigits]
  simp [double_of_isDouble number]

theorem isSpace_of_isAlpha {c : Char} (letter : c.isAlpha = true) : isSpace c = false := by
  unfold Char.isAlpha Char.isUpper Char.isLower at letter
  unfold isSpace
  simp only [Bool.and_eq_true, Bool.or_eq_true, decide_eq_true_eq, Bool.or_eq_false_iff,
    beq_eq_false_iff_ne, Bool.and_eq_false_iff, decide_eq_false_iff_not] at letter ⊢
  have letters : (65 : UInt32) ≤ c.val := by
    rcases letter with upper | lower
    · exact upper.1
    · exact UInt32.le_trans (by decide) lower.1
  refine ⟨fun same => ?_, Or.inr fun high => ?_⟩
  · subst same
    exact absurd letters (by decide)
  · have spaces : c.val ≤ 13 := high
    exact absurd (UInt32.le_trans letters spaces) (by decide)

/-- A word of a modifier. -/
structure Word (w : List Char) : Prop where
  letters : w.all Char.isAlpha = true
  filled : w ≠ []
  short : w.length < 20

theorem Word.strip {w : List Char} (word : Word w) (s : List Char) :
    stripTrailingJunk (s ++ w) = s ++ w := by
  obtain ⟨w, c, rfl⟩ := List.eq_nil_or_concat' w |>.resolve_left word.filled
  rw [← List.append_assoc, stripTrailingJunk, List.rdropWhile_concat_neg]
  have letter := List.all_eq_true.mp word.letters c (by simp)
  have space := isSpace_of_isAlpha letter
  rintro junk
  rw [space] at junk
  simp only [Bool.false_or, Bool.or_eq_true, beq_iff_eq] at junk
  rcases junk with rfl | rfl
  · cases letter
  · cases letter

theorem strip_blank (s : List Char) : stripTrailingJunk (s ++ [' ']) = stripTrailingJunk s :=
  List.rdropWhile_concat_pos _ _ _ rfl

/-- The number and the modifier in front of a string that does not end with a blank. -/
theorem getModifier_word {front rest w : List Char} {n : ℕ} (word : Word w)
    (start : front = [] ∨ front = [' ']) (behind : rest = [] ∨ ∃ more, rest = ' ' :: more)
    (length : (Nat.toDigits 10 n).length < 50)
    (stripped : stripTrailingJunk (front ++ (Nat.toDigits 10 n ++ ' ' :: (w ++ rest))) =
      front ++ (Nat.toDigits 10 n ++ ' ' :: (w ++ rest))) :
    getModifier (front ++ (Nat.toDigits 10 n ++ ' ' :: (w ++ rest))) 50 20 =
      some (Nat.toDigits 10 n, w, rest) := by
  have all := List.all_eq_true.mp (digits_all n)
  have letters := List.all_eq_true.mp word.letters
  set text := Nat.toDigits 10 n ++ ' ' :: (w ++ rest)
  have skipped : (front ++ text).dropWhile isSpace = text := by
    have digit : text.dropWhile isSpace = text := by
      obtain ⟨d, ds, digits⟩ := List.exists_cons_of_ne_nil (digits_ne_nil n)
      have first := isSpace_of_isDigit (all d (digits ▸ List.mem_cons_self))
      simp only [text, digits, List.cons_append]
      rw [List.dropWhile_cons, if_neg (by rw [first]; decide)]
    rcases start with rfl | rfl
    · exact digit
    · exact digit
  have run : text.takeWhile (fun c => c.isDigit || c == '.') = Nat.toDigits 10 n := by
    rw [List.takeWhile_append_of_pos fun c member => by rw [all c member]; rfl]
    rw [List.takeWhile_cons, if_neg (by decide), List.append_nil]
  have modifier : (text.drop (Nat.toDigits 10 n).length).dropWhile isSpace = w ++ rest := by
    obtain ⟨c, cs, same⟩ := List.exists_cons_of_ne_nil word.filled
    have first := isSpace_of_isAlpha (letters c (same ▸ List.mem_cons_self))
    rw [List.drop_left, List.dropWhile_cons, if_pos (by decide), same, List.cons_append,
      List.dropWhile_cons, if_neg (by rw [first]; decide)]
  have name : (w ++ rest).takeWhile Char.isAlpha = w := by
    rw [List.takeWhile_append_of_pos fun c member => letters c member]
    rcases behind with rfl | ⟨more, rfl⟩
    · rw [List.takeWhile_nil, List.append_nil]
    · rw [List.takeWhile_cons, if_neg (by decide), List.append_nil]
  have short := word.short
  unfold getModifier
  dsimp only
  rw [stripped, skipped, run, modifier, name, List.drop_left]
  have num : bstrncpy text (min 50 ((Nat.toDigits 10 n).length + 1)) = Nat.toDigits 10 n := by
    rw [bstrncpy,
      show min 50 ((Nat.toDigits 10 n).length + 1) - 1 = (Nat.toDigits 10 n).length by omega]
    exact List.take_left
  have mod : bstrncpy (w ++ rest) (min 20 (w.length + 1)) = w := by
    rw [bstrncpy, show min 20 (w.length + 1) - 1 = w.length by omega]
    exact List.take_left
  have left : bstrncpy rest (front ++ text).length = rest := by
    refine List.take_of_length_le ?_
    simp only [text, List.length_append, List.length_cons]
    omega
  rw [num, mod, left, isANumber_digits (digits_all n) (digits_ne_nil n)]
  rfl

/-- There is no number in front of a sign. -/
theorem getModifier_minus {front more : List Char} (start : front = [] ∨ front = [' '])
    (stripped : stripTrailingJunk (front ++ '-' :: more) = front ++ '-' :: more) :
    getModifier (front ++ '-' :: more) 50 20 = none := by
  have skipped : (front ++ '-' :: more).dropWhile isSpace = '-' :: more := by
    rcases start with rfl | rfl
    · rfl
    · rfl
  unfold getModifier
  dsimp only
  rw [stripped, skipped]
  have run : ('-' :: more).takeWhile (fun c => c.isDigit || c == '.') = [] := by
    rw [List.takeWhile_cons, if_neg (by decide)]
  rw [run]
  rfl

/-! ## The whole text -/

/-- A number with its modifier, and what the modifier stands for. -/
structure Token where
  number : ℕ
  word : List Char
  weight : ℕ

namespace Token

def text (t : Token) : List Char := editInt t.number ++ ' ' :: t.word

/-- The modifier is known as what it stands for, or is not known at all. -/
structure Lexical (t : Token) : Prop where
  number : t.number < 2 ^ 32
  word : Word t.word
  known : multiplier t.word = some t.weight ∨ multiplier t.word = none

/-- What can be read back. -/
def Good (t : Token) : Prop := t.number < 2 ^ 31 ∧ multiplier t.word = some t.weight

instance (t : Token) : Decidable t.Good := inferInstanceAs (Decidable (_ ∧ _))

end Token

/-- The tokens behind another one. -/
def behind : List Token → List Char
  | [] => []
  | t :: tokens => ' ' :: (t.text ++ behind tokens)

/-- What the tokens add up to. -/
def addTokens (total : ℚ) (tokens : List Token) : ℚ :=
  tokens.foldl (fun total t => double (total + double (t.number * t.weight))) total

theorem behind_cases (tokens : List Token) :
    behind tokens = [] ∨ ∃ more, behind tokens = ' ' :: more := by
  cases tokens with
  | nil => exact Or.inl rfl
  | cons t tokens => exact Or.inr ⟨_, rfl⟩

theorem strip_tokens {t : Token} {tokens : List Token} (lexical : ∀ u ∈ t :: tokens, u.Lexical)
    (front : List Char) : stripTrailingJunk (front ++ (t.text ++ behind tokens)) =
      front ++ (t.text ++ behind tokens) := by
  induction tokens generalizing front t with
  | nil =>
      have word := (lexical t List.mem_cons_self).word.strip (front ++ (editInt t.number ++ [' ']))
      have same : front ++ (t.text ++ behind []) = front ++ (editInt t.number ++ [' ']) ++ t.word := by
        simp [Token.text, behind]
      rw [same, word]
  | cons u tokens ih =>
      have later := ih (t := u) (fun v member => lexical v (List.mem_cons_of_mem _ member))
        (front ++ (t.text ++ [' ']))
      have same : front ++ (t.text ++ behind (u :: tokens)) =
          front ++ (t.text ++ [' ']) ++ (u.text ++ behind tokens) := by
        simp [behind]
      rw [same, later]

theorem durationLoop_succ {str : List Char} (filled : str ≠ []) (rounds : ℕ) (total : ℚ) :
    durationLoop (rounds + 1) str total = (getModifier str 50 20).bind fun r =>
      (multiplier r.2.1).bind fun mult =>
        durationLoop rounds r.2.2 (double (total + double (strtod r.1 * mult))) := by
  cases str with
  | nil => exact absurd rfl filled
  | cons c str => rfl

/-- The round for one token. -/
theorem durationLoop_token {t : Token} {tokens : List Token} {front : List Char} (rounds : ℕ)
    (total : ℚ) (lexical : ∀ u ∈ t :: tokens, u.Lexical) (start : front = [] ∨ front = [' ']) :
    durationLoop (rounds + 1) (front ++ (t.text ++ behind tokens)) total =
      if t.Good then durationLoop rounds (behind tokens) (double (total + double (t.number * t.weight)))
      else none := by
  have stripped := strip_tokens lexical front
  obtain ⟨number, word, known⟩ := lexical t List.mem_cons_self
  rw [durationLoop_succ (by simp [Token.text])]
  by_cases small : t.number < 2 ^ 31
  · have text : front ++ (t.text ++ behind tokens) =
        front ++ (Nat.toDigits 10 t.number ++ ' ' :: (t.word ++ behind tokens)) := by
      rw [Token.text, editInt, if_pos small, List.append_assoc, List.cons_append]
    have length : (Nat.toDigits 10 t.number).length < 50 := by
      have := (Nat.length_toDigits_le_iff (b := 10) (n := t.number) (k := 10) (by decide)
        (by decide)).mpr
        (by omega)
      omega
    have value : IsDouble (t.number : ℚ) := isDouble_of_dvd (k := 0) (one_dvd _) (by omega)
    rw [text] at stripped
    rw [text, getModifier_word word start (behind_cases tokens) length stripped, Option.bind_some]
    dsimp only
    rw [strtod_digits value]
    rcases known with known | known
    · rw [known, if_pos ⟨small, known⟩, Option.bind_some]
    · rw [known, if_neg (fun good => Option.some_ne_none _ (good.2.symm.trans known)), Option.bind_none]
  · have text : front ++ (t.text ++ behind tokens) =
        front ++ '-' :: (Nat.toDigits 10 (2 ^ 32 - t.number) ++ ' ' :: (t.word ++ behind tokens)) := by
      rw [Token.text, editInt, if_neg small, List.append_assoc, List.cons_append, List.cons_append]
    rw [text] at stripped
    rw [text, getModifier_minus start stripped, if_neg fun good => small good.1]
    rfl

theorem durationLoop_tokens {tokens : List Token} (lexical : ∀ t ∈ tokens, t.Lexical) {rounds : ℕ}
    (enough : tokens.length ≤ rounds) (total : ℚ) :
    durationLoop rounds (behind tokens) total =
      if ∀ t ∈ tokens, t.Good then some (addTokens total tokens) else none := by
  induction tokens generalizing rounds total with
  | nil => cases rounds <;> rfl
  | cons t tokens ih =>
      cases rounds with
      | zero => cases enough
      | succ rounds =>
          have step := durationLoop_token rounds total lexical (Or.inr rfl)
          change durationLoop (rounds + 1) ([' '] ++ (t.text ++ behind tokens)) total = _
          rw [step, ih (fun u member => lexical u (List.mem_cons_of_mem _ member))
            (Nat.le_of_succ_le_succ enough)]
          simp only [List.forall_mem_cons]
          by_cases good : t.Good
          · rw [if_pos good]
            simp only [good, true_and]
            rfl
          · rw [if_neg good, if_neg fun all => good all.1]

theorem length_behind (tokens : List Token) : tokens.length ≤ (behind tokens).length := by
  induction tokens with
  | nil => exact le_refl 0
  | cons t tokens ih =>
      rw [behind, List.length_cons, List.length_cons, List.length_append]
      omega

/-- The text that the tokens make, with a blank behind it or not. -/
theorem durationToUtime_tokens {t : Token} {tokens : List Token}
    (lexical : ∀ u ∈ t :: tokens, u.Lexical) {trail : List Char} (blank : trail = [] ∨ trail = [' ']) :
    durationToUtime (t.text ++ behind tokens ++ trail) =
      if ∀ u ∈ t :: tokens, u.Good then
        if addTokens 0 (t :: tokens) < 2 ^ 63 then some ⌊addTokens 0 (t :: tokens)⌋ else none
      else none := by
  have same : stripTrailingJunk (t.text ++ behind tokens ++ trail) =
      stripTrailingJunk (t.text ++ behind tokens) := by
    rcases blank with rfl | rfl
    · rw [List.append_nil]
    · exact strip_blank _
  have first : getModifier (t.text ++ behind tokens ++ trail) 50 20 =
      getModifier (t.text ++ behind tokens) 50 20 := by
    unfold getModifier
    rw [same]
  obtain ⟨rounds, length⟩ : ∃ rounds, (t.text ++ behind tokens ++ trail).length = rounds + 1 :=
    Nat.exists_eq_succ_of_ne_zero (by simp [Token.text])
  have enough : tokens.length ≤ rounds := by
    have count := length_behind tokens
    simp only [Token.text, List.length_append, List.length_cons] at length
    omega
  have loop : durationLoop (rounds + 1) (t.text ++ behind tokens ++ trail) 0 =
      if ∀ u ∈ t :: tokens, u.Good then some (addTokens 0 (t :: tokens)) else none := by
    have step := durationLoop_token rounds 0 lexical (Or.inl rfl)
    rw [List.nil_append, durationLoop_succ (by simp [Token.text])] at step
    rw [durationLoop_succ (by simp [Token.text]), first, step,
      durationLoop_tokens (fun u member => lexical u (List.mem_cons_of_mem _ member)) enough]
    simp only [List.forall_mem_cons]
    by_cases good : t.Good
    · rw [if_pos good]
      simp only [good, true_and]
      rfl
    · rw [if_neg good, if_neg fun all => good all.1]
  unfold durationToUtime
  rw [length, loop]
  by_cases good : ∀ u ∈ t :: tokens, u.Good
  · rw [if_pos good, if_pos good]
    rfl
  · rw [if_neg good, if_neg good]
    rfl

/-! ## The edited text -/

/-- What `edit_utime` writes for the units, and what it leaves for the seconds. -/
def unitTokens : List (ℕ × String) → ℕ → List Token
  | [], _ => []
  | u :: us, val =>
      let times := val / u.1 % 2 ^ 32
      let later := unitTokens us (val - times * u.1)
      if times > 0 then ⟨times, u.2.toList ++ plural times, u.1⟩ :: later else later

def unitRest : List (ℕ × String) → ℕ → ℕ
  | [], val => val
  | u :: us, val => unitRest us (val - val / u.1 % 2 ^ 32 * u.1)

/-- What it writes for the seconds. -/
def secondTokens (val : ℕ) : List Token :=
  if unitRest units val = 0 ∧ unitTokens units val = [] then [⟨0, "secs".toList, 1⟩]
  else if unitRest units val ≠ 0 then
    [⟨unitRest units val % 2 ^ 32, "sec".toList ++ plural (unitRest units val), 1⟩]
  else []

def utimeTokens (val : ℕ) : List Token := unitTokens units val ++ secondTokens val

/-- The whole text. -/
def utimeText (val : ℕ) : List Char :=
  (unitTokens units val).flatMap (fun t => t.text ++ [' ']) ++ (secondTokens val).flatMap Token.text

theorem bstrncat_append {dest src : List Char} {maxlen : ℕ} (room : (dest ++ src).length < maxlen) :
    bstrncat dest src maxlen = dest ++ src := by
  rw [List.length_append] at room
  unfold bstrncat
  dsimp only
  by_cases more : dest.length < maxlen - 1
  · rw [if_pos more, List.take_of_length_le (l := src) (by omega), List.take_of_length_le]
    rw [List.length_append]
    omega
  · have empty : src = [] := List.length_eq_zero_iff.mp (by omega)
    rw [if_neg more, empty, List.append_nil, List.take_of_length_le (by omega)]

theorem foldl_editUnit {bufLen : ℕ} (us : List (ℕ × String)) (val : ℕ) (buf : List Char)
    (room : (buf ++ (unitTokens us val).flatMap fun t => t.text ++ [' ']).length < bufLen) :
    us.foldl (editUnit bufLen) (val, buf) =
      (unitRest us val, buf ++ (unitTokens us val).flatMap fun t => t.text ++ [' ']) := by
  induction us generalizing val buf with
  | nil => simp [unitTokens, unitRest]
  | cons u us ih =>
      rw [List.foldl_cons]
      unfold unitTokens unitRest
      unfold unitTokens at room
      by_cases more : val / u.1 % 2 ^ 32 > 0
      · simp only [if_pos more, List.flatMap_cons] at room ⊢
        have appended : editUnit bufLen (val, buf) u = (val - val / u.1 % 2 ^ 32 * u.1,
            buf ++ (editInt (val / u.1 % 2 ^ 32) ++ ' ' ::
              (u.2.toList ++ plural (val / u.1 % 2 ^ 32)) ++ [' '])) := by
          rw [editUnit, if_pos more, bstrncat_append]
          refine lt_of_le_of_lt ?_ room
          simp only [Token.text, List.length_append]
          omega
        rw [appended, ih]
        · simp [Token.text]
        · refine lt_of_le_of_lt (le_of_eq ?_) room
          simp [Token.text]
      · have none : val / u.1 % 2 ^ 32 = 0 := by omega
        simp only [if_neg more] at room ⊢
        have same : editUnit bufLen (val, buf) u = (val - val / u.1 % 2 ^ 32 * u.1, buf) := by
          rw [editUnit, if_neg more, none, Nat.zero_mul, Nat.sub_zero]
        rw [same, ih _ _ room]

theorem editUtime_eq {val bufLen : ℕ} (room : (utimeText val).length < bufLen) :
    editUtime val bufLen = utimeText val := by
  have fits : ([] ++ (unitTokens units val).flatMap fun t : Token => t.text ++ [' ']).length <
      bufLen := by
    refine lt_of_le_of_lt ?_ room
    rw [utimeText, List.nil_append, List.length_append]
    omega
  have units := foldl_editUnit units val [] fits
  unfold editUtime
  rw [units, List.nil_append]
  dsimp only
  unfold utimeText secondTokens at room ⊢
  have empty : (unitTokens Duration.units val).flatMap (fun t => t.text ++ [' ']) = [] ↔
      unitTokens Duration.units val = [] := by
    constructor
    · intro none
      cases tokens : unitTokens Duration.units val with
      | nil => rfl
      | cons t ts =>
          rw [tokens, List.flatMap_cons] at none
          simp at none
    · intro none
      rw [none, List.flatMap_nil]
  simp only [empty]
  have zero : Token.text ⟨0, "secs".toList, 1⟩ = "0 secs".toList := by decide
  split_ifs at room ⊢ with first second
  · rw [List.flatMap_singleton, zero] at room ⊢
    exact bstrncat_append room
  · rw [List.flatMap_singleton, Token.text] at room ⊢
    exact bstrncat_append room
  · rw [List.flatMap_nil, List.append_nil]

theorem behind_append (tokens more : List Token) :
    behind (tokens ++ more) = behind tokens ++ behind more := by
  induction tokens with
  | nil => rfl
  | cons t tokens ih => simp [behind, ih]

theorem blank_flatMap (tokens : List Token) :
    ' ' :: tokens.flatMap (fun t => t.text ++ [' ']) = behind tokens ++ [' '] := by
  induction tokens with
  | nil => rfl
  | cons t tokens ih =>
      rw [List.flatMap_cons, List.append_assoc, List.singleton_append, ih]
      simp [behind]

/-- The text is that of the tokens. -/
theorem utimeText_eq (val : ℕ) : ∃ t tokens trail, utimeTokens val = t :: tokens ∧
    (trail = [] ∨ trail = [' ']) ∧ utimeText val = t.text ++ behind tokens ++ trail := by
  have filled : utimeTokens val ≠ [] := by
    intro none
    obtain ⟨no, last⟩ := List.append_eq_nil_iff.mp none
    unfold secondTokens at last
    rw [no] at last
    split_ifs at last with first second
    exact first ⟨not_not.mp second, rfl⟩
  obtain ⟨t, tokens, all⟩ := List.exists_cons_of_ne_nil filled
  have whole : ∃ trail, (trail = [] ∨ trail = [' ']) ∧
      ' ' :: utimeText val = behind (utimeTokens val) ++ trail := by
    rw [utimeText, utimeTokens, ← List.cons_append, blank_flatMap, behind_append]
    unfold secondTokens
    split_ifs
    · exact ⟨[], Or.inl rfl, by simp [behind]⟩
    · exact ⟨[], Or.inl rfl, by simp [behind]⟩
    · exact ⟨[' '], Or.inr rfl, by simp [behind]⟩
  obtain ⟨trail, blank, same⟩ := whole
  rw [all, behind, List.cons_append] at same
  exact ⟨t, tokens, trail, all, blank, (List.cons.inj same).2⟩

theorem units_known : ∀ u ∈ units, ∀ s ∈ [[], ['s']], (u.2.toList ++ s).all Char.isAlpha = true ∧
    u.2.toList ++ s ≠ [] ∧ (u.2.toList ++ s).length < 20 ∧ multiplier (u.2.toList ++ s) = some u.1 := by
  decide

theorem seconds_known : ∀ s ∈ [[], ['s']], ("sec".toList ++ s).all Char.isAlpha = true ∧
    "sec".toList ++ s ≠ [] ∧ ("sec".toList ++ s).length < 20 ∧
    (multiplier ("sec".toList ++ s) = some 1 ∨ multiplier ("sec".toList ++ s) = none) := by
  decide

theorem plural_cases (times : ℕ) : plural times ∈ [[], ['s']] := by
  unfold plural
  split <;> decide

theorem unitTokens_known {us : List (ℕ × String)} (sub : ∀ u ∈ us, u ∈ units) (val : ℕ) :
    ∀ t ∈ unitTokens us val, t.number < 2 ^ 32 ∧ Word t.word ∧ multiplier t.word = some t.weight := by
  induction us generalizing val with
  | nil => exact List.forall_mem_nil _
  | cons u us ih =>
      have later := ih (fun w member => sub w (List.mem_cons_of_mem _ member))
        (val - val / u.1 % 2 ^ 32 * u.1)
      unfold unitTokens
      dsimp only
      split
      · obtain ⟨letters, filled, short, known⟩ := units_known u (sub u List.mem_cons_self) _
          (plural_cases (val / u.1 % 2 ^ 32))
        exact List.forall_mem_cons.mpr
          ⟨⟨Nat.mod_lt _ (by decide), ⟨letters, filled, short⟩, known⟩, later⟩
      · exact later

theorem utimeTokens_lexical (val : ℕ) : ∀ t ∈ utimeTokens val, t.Lexical := by
  intro t member
  rcases List.mem_append.mp member with unit | second
  · obtain ⟨number, word, known⟩ := unitTokens_known (fun u inside => inside) val t unit
    exact ⟨number, word, Or.inl known⟩
  · unfold secondTokens at second
    split_ifs at second
    · rw [List.mem_singleton.mp second]
      exact ⟨by decide, ⟨by decide, by decide, by decide⟩, by decide⟩
    · rw [List.mem_singleton.mp second]
      obtain ⟨letters, filled, short, known⟩ := seconds_known _ (plural_cases (unitRest units val))
      exact ⟨Nat.mod_lt _ (by decide), ⟨letters, filled, short⟩, known⟩
    · cases second

/-- What is read of the edited text. -/
theorem durationToUtime_utimeText (val : ℕ) : durationToUtime (utimeText val) =
    if ∀ t ∈ utimeTokens val, t.Good then
      if addTokens 0 (utimeTokens val) < 2 ^ 63 then some ⌊addTokens 0 (utimeTokens val)⌋ else none
    else none := by
  obtain ⟨t, tokens, trail, all, blank, text⟩ := utimeText_eq val
  have lexical := utimeTokens_lexical val
  rw [all] at lexical ⊢
  rw [text, durationToUtime_tokens lexical blank]

/-! ## The sum -/

theorem isDouble_addTokens {total : ℚ} (positive : 0 ≤ total) (number : IsDouble total)
    (tokens : List Token) : IsDouble (addTokens total tokens) := by
  induction tokens generalizing total with
  | nil => exact number
  | cons t tokens ih =>
      have sum := add_nonneg positive
        (double_nonneg (show (0 : ℚ) ≤ t.number * t.weight by positivity))
      exact ih (double_nonneg sum) (isDouble_double sum)

/-- What the tokens stand for. -/
def worth (tokens : List Token) : ℕ := (tokens.map fun t => t.number * t.weight).sum

/-- The rounding adds little. -/
theorem addTokens_le {total : ℚ} (positive : 0 ≤ total) (tokens : List Token) :
    addTokens total tokens ≤ (total + worth tokens) * ((1 + 1 / 2 ^ 52) ^ 2) ^ tokens.length := by
  induction tokens generalizing total with
  | nil => simp [addTokens, worth]
  | cons t tokens ih =>
      have product : (0 : ℚ) ≤ t.number * t.weight := by positivity
      have sum := add_nonneg positive (double_nonneg product)
      have step : double (total + double (t.number * t.weight)) ≤
          (total + t.number * t.weight) * (1 + 1 / 2 ^ 52) ^ 2 := by
        have first := double_le product
        have second := double_le sum
        nlinarith
      have later := ih (double_nonneg sum)
      have factor : (1 : ℚ) ≤ (1 + 1 / 2 ^ 52) ^ 2 := by norm_num
      have rest : (worth tokens : ℚ) ≤ worth tokens * (1 + 1 / 2 ^ 52) ^ 2 :=
        le_mul_of_one_le_right (Nat.cast_nonneg _) factor
      have both : double (total + double (t.number * t.weight)) + worth tokens ≤
          (total + worth (t :: tokens)) * (1 + 1 / 2 ^ 52) ^ 2 := by
        have split : ((worth (t :: tokens) : ℕ) : ℚ) = t.number * t.weight + worth tokens := by
          simp [worth]
        rw [split]
        linarith
      calc addTokens total (t :: tokens)
          = addTokens (double (total + double (t.number * t.weight))) tokens := rfl
        _ ≤ _ := later
        _ ≤ (total + worth (t :: tokens)) * (1 + 1 / 2 ^ 52) ^ 2 *
          ((1 + 1 / 2 ^ 52) ^ 2) ^ tokens.length :=
          mul_le_mul_of_nonneg_right both (by positivity)
        _ = _ := by rw [List.length_cons, pow_succ]; ring

theorem worth_unitTokens {us : List (ℕ × String)} {val : ℕ}
    (good : ∀ t ∈ unitTokens us val, t.number < 2 ^ 31) :
    worth (unitTokens us val) ≤ 2 ^ 31 * (us.map Prod.fst).sum ∧
      (unitTokens us val).length ≤ us.length := by
  induction us generalizing val with
  | nil => exact ⟨le_refl 0, le_refl 0⟩
  | cons u us ih =>
      unfold unitTokens at good ⊢
      dsimp only at good ⊢
      split at good
      · rename_i more
        rw [List.forall_mem_cons] at good
        obtain ⟨sum, count⟩ := ih good.2
        have product := Nat.mul_le_mul_right u.1 (le_of_lt good.1)
        dsimp only at product
        rw [if_pos more]
        simp only [worth, List.map_cons, List.sum_cons, List.length_cons] at sum ⊢
        omega
      · rename_i more
        obtain ⟨sum, count⟩ := ih good
        rw [if_neg more]
        simp only [List.map_cons, List.sum_cons, List.length_cons] at sum ⊢
        omega

theorem secondTokens_cases (val : ℕ) :
    secondTokens val = [] ∨ ∃ n w, secondTokens val = [⟨n, w, 1⟩] := by
  unfold secondTokens
  split_ifs
  · exact Or.inr ⟨_, _, rfl⟩
  · exact Or.inr ⟨_, _, rfl⟩
  · exact Or.inl rfl

/-- A number of years that the type does not hold is lost. -/
theorem addTokens_lt {val : ℕ} (large : 2 ^ 32 ≤ val / 31536000)
    (good : ∀ t ∈ utimeTokens val, t.Good) :
    addTokens 0 (utimeTokens val) < val := by
  obtain ⟨sum, count⟩ := worth_unitTokens fun t member =>
    (good t (List.mem_append_left _ member)).1
  have second : worth (secondTokens val) ≤ 2 ^ 31 ∧ (secondTokens val).length ≤ 1 := by
    have bound := fun t member => (good t (List.mem_append_right _ member)).1
    obtain none | ⟨n, w, one⟩ := secondTokens_cases val
    · rw [none]
      exact ⟨Nat.zero_le _, Nat.zero_le _⟩
    · rw [one] at bound ⊢
      have small := bound _ List.mem_cons_self
      simp only [worth, List.map_cons, List.map_nil, List.sum_cons, List.sum_nil, List.length_cons,
        List.length_nil] at small ⊢
      omega
  have total : worth (utimeTokens val) ≤ 2 ^ 31 * 34218061 := by
    have units : (units.map Prod.fst).sum = 34218060 := by decide
    rw [units] at sum
    have split : worth (utimeTokens val) = worth (unitTokens Duration.units val) +
        worth (secondTokens val) := by
      simp [worth, utimeTokens]
    omega
  have length : (utimeTokens val).length ≤ 6 := by
    have five : units.length = 5 := rfl
    rw [utimeTokens, List.length_append]
    omega
  have factor : (((1 : ℚ) + 1 / 2 ^ 52) ^ 2) ^ (utimeTokens val).length ≤ ((1 + 1 / 2 ^ 52) ^ 2) ^ 6 :=
    pow_le_pow_right₀ (by norm_num) length
  have above : 2 ^ 32 * 31536000 ≤ val := (Nat.le_div_iff_mul_le (by decide)).mp large
  calc addTokens 0 (utimeTokens val) ≤ _ := addTokens_le (le_refl 0) _
    _ ≤ (2 ^ 31 * 34218061 : ℕ) * ((1 + 1 / 2 ^ 52) ^ 2) ^ 6 := by
      rw [zero_add]
      exact mul_le_mul (by exact_mod_cast total) factor (by positivity) (by positivity)
    _ < (2 ^ 32 * 31536000 : ℕ) := by norm_num
    _ ≤ val := by exact_mod_cast above

/-- The round for a unit, when there is no rounding. -/
theorem addTokens_unit {u : ℕ × String} {us : List (ℕ × String)} {val total : ℕ}
    (product : IsDouble ((val / u.1 % 2 ^ 32 * u.1 : ℕ)))
    (sum : IsDouble ((total + val / u.1 % 2 ^ 32 * u.1 : ℕ))) :
    addTokens total (unitTokens (u :: us) val) =
      addTokens ((total + val / u.1 % 2 ^ 32 * u.1 : ℕ))
        (unitTokens us (val - val / u.1 % 2 ^ 32 * u.1)) := by
  rw [unitTokens]
  split
  · have exact : double (total + double ((val / u.1 % 2 ^ 32 : ℕ) * u.1)) =
        ((total + val / u.1 % 2 ^ 32 * u.1 : ℕ) : ℚ) := by
      have cast : (((val / u.1 % 2 ^ 32 : ℕ) : ℚ) * u.1) = ((val / u.1 % 2 ^ 32 * u.1 : ℕ) : ℚ) :=
        (Nat.cast_mul _ _).symm
      rw [cast, double_of_isDouble product, ← Nat.cast_add, double_of_isDouble sum]
    rw [addTokens, List.foldl_cons, exact]
    rfl
  · rename_i none
    rw [show val / u.1 % 2 ^ 32 = 0 by omega, Nat.zero_mul, Nat.add_zero]

section Counted

/-! A number of a unit that the type can hold. -/

variable {u : ℕ × String} {us : List (ℕ × String)} {v val : ℕ}

theorem left_eq (small : val / u.1 < 2 ^ 32) : val - val / u.1 % 2 ^ 32 * u.1 = val % u.1 := by
  rw [Nat.mod_eq_of_lt small]
  have parts := Nat.div_add_mod' val u.1
  omega

theorem unitRest_cons (small : val / u.1 < 2 ^ 32) :
    unitRest (u :: us) val = unitRest us (val % u.1) := by
  rw [unitRest, left_eq small]

theorem unitTokens_small (small : val / u.1 < 2 ^ 31)
    (later : ∀ t ∈ unitTokens us (val % u.1), t.number < 2 ^ 31) :
    ∀ t ∈ unitTokens (u :: us) val, t.number < 2 ^ 31 := by
  have fits : val / u.1 < 2 ^ 32 := by omega
  rw [unitTokens, left_eq fits]
  split
  · exact List.forall_mem_cons.mpr ⟨lt_of_le_of_lt (Nat.mod_le _ _) small, later⟩
  · exact later

theorem addTokens_cons (small : val / u.1 < 2 ^ 32) (below : val ≤ v)
    (product : IsDouble ((val - val % u.1 : ℕ))) (sum : IsDouble ((v - val % u.1 : ℕ))) :
    addTokens ((v - val : ℕ)) (unitTokens (u :: us) val) =
      addTokens ((v - val % u.1 : ℕ)) (unitTokens us (val % u.1)) := by
  have parts := Nat.div_add_mod' val u.1
  have taken : val / u.1 % 2 ^ 32 * u.1 = val - val % u.1 := by
    rw [Nat.mod_eq_of_lt small]
    omega
  have total : v - val + (val - val % u.1) = v - val % u.1 := by
    have rest := Nat.mod_le val u.1
    omega
  rw [addTokens_unit (by rw [taken]; exact product) (by rw [taken, total]; exact sum), taken, total,
    Nat.sub_sub_self (Nat.mod_le val u.1)]

end Counted

theorem units_eq : units =
    [(31536000, "year"), (2592000, "month"), (86400, "day"), (3600, "hour"), (60, "min")] := rfl

theorem unitRest_units {v : ℕ} (years : v / 31536000 < 2 ^ 32) : unitRest units v = v % 60 := by
  rw [units_eq, unitRest_cons years, unitRest_cons (by dsimp only; omega),
    unitRest_cons (by dsimp only; omega), unitRest_cons (by dsimp only; omega),
    unitRest_cons (by dsimp only; omega), unitRest]
  dsimp only
  omega

theorem unitTokens_units {v : ℕ} (years : v / 31536000 < 2 ^ 31) :
    ∀ t ∈ unitTokens units v, t.number < 2 ^ 31 := by
  rw [units_eq]
  refine unitTokens_small years (unitTokens_small ?_ (unitTokens_small ?_ (unitTokens_small ?_
    (unitTokens_small ?_ (List.forall_mem_nil _)))))
  all_goals
    dsimp only
    omega

/-- Up to the minutes there is rounding only when the number of minutes is not in the format. -/
theorem addTokens_units {v : ℕ} (years : v / 31536000 < 2 ^ 31)
    (minutes : IsDouble ((v - v % 60 : ℕ))) :
    addTokens 0 (unitTokens units v) = ((v - v % 60 : ℕ) : ℚ) := by
  have small : v < 2 ^ 56 := by omega
  have start : (0 : ℚ) = ((v - v : ℕ) : ℚ) := by rw [Nat.sub_self, Nat.cast_zero]
  have last : v % 31536000 % 2592000 % 86400 % 3600 % 60 = v % 60 := by omega
  rw [units_eq, start]
  rw [addTokens_cons (lt_trans years (by decide)) (le_refl v)
    (isDouble_of_dvd (k := 7) (by dsimp only; omega) (by dsimp only; omega))
    (isDouble_of_dvd (k := 7) (by dsimp only; omega) (by dsimp only; omega))]
  rw [addTokens_cons (by dsimp only; omega) (Nat.mod_le _ _)
    (isDouble_of_dvd (k := 7) (by dsimp only; omega) (by dsimp only; omega))
    (isDouble_of_dvd (k := 7) (by dsimp only; omega) (by dsimp only; omega))]
  rw [addTokens_cons (by dsimp only; omega) (by dsimp only; omega)
    (isDouble_of_dvd (k := 7) (by dsimp only; omega) (by dsimp only; omega))
    (isDouble_of_dvd (k := 7) (by dsimp only; omega) (by dsimp only; omega))]
  rw [addTokens_cons (by dsimp only; omega) (by dsimp only; omega)
    (isDouble_of_dvd (k := 4) (by dsimp only; omega) (by dsimp only; omega))
    (isDouble_of_dvd (k := 4) (by dsimp only; omega) (by dsimp only; omega))]
  rw [addTokens_cons (by dsimp only; omega) (by dsimp only; omega)
    (isDouble_of_dvd (k := 0) (by dsimp only; omega) (by dsimp only; omega))
    (by dsimp only; rw [last]; exact minutes)]
  dsimp only
  rw [last]
  rfl

theorem unitRest_of_nil {us : List (ℕ × String)} {val : ℕ} (none : unitTokens us val = []) :
    unitRest us val = val := by
  induction us generalizing val with
  | nil => rfl
  | cons u us ih =>
      unfold unitTokens at none
      dsimp only at none
      split at none
      · cases none
      · rename_i zero
        have same : val - val / u.1 % 2 ^ 32 * u.1 = val := by
          rw [show val / u.1 % 2 ^ 32 = 0 by omega, Nat.zero_mul, Nat.sub_zero]
        rw [same] at none
        rw [unitRest, same, ih none]

/-- What is written for the seconds, when the years are counted. -/
theorem secondTokens_eq {v : ℕ} (some : v ≠ 0) (years : v / 31536000 < 2 ^ 32) :
    secondTokens v = if v % 60 = 0 then [] else [⟨v % 60, "sec".toList ++ plural (v % 60), 1⟩] := by
  have filled : unitRest units v = 0 → unitTokens units v ≠ [] := fun zero none =>
    some ((unitRest_of_nil none).symm.trans zero)
  have rest := unitRest_units years
  unfold secondTokens
  by_cases whole : v % 60 = 0
  · rw [if_pos whole, if_neg fun both => filled both.1 both.2, if_neg (by omega)]
  · rw [if_neg whole, if_neg (by omega), if_pos (by omega), rest, Nat.mod_eq_of_lt (by omega)]

/-- An edited duration is read back, if and only if it has no seconds or one, the number of years is
in range, and the sum is a number of the format. -/
theorem durationToUtime_editUtime (v bufLen : ℕ) (room : (utimeText v).length < bufLen) :
    durationToUtime (editUtime v bufLen) = some (v : ℤ) ↔
      v ≠ 0 ∧ v % 60 ≤ 1 ∧ v / 31536000 < 2 ^ 31 ∧ ∃ m k : ℕ, m < 2 ^ 53 ∧ v = m * 2 ^ k := by
  rw [editUtime_eq room, durationToUtime_utimeText, ← isDouble_natCast]
  constructor
  · intro read
    split at read
    · rename_i good
      split at read
      · have floor : ⌊addTokens 0 (utimeTokens v)⌋ = (v : ℤ) := Option.some.inj read
        have some : v ≠ 0 := by
          rintro rfl
          exact absurd (good _ (show ⟨0, "secs".toList, 1⟩ ∈ utimeTokens 0 from List.mem_cons_self))
            (by decide)
        have lost : v / 31536000 < 2 ^ 32 := by
          by_contra large
          have less := addTokens_lt (not_lt.mp large) good
          have above := Int.floor_le (addTokens 0 (utimeTokens v))
          rw [floor] at above
          exact absurd less (not_lt.mpr (by exact_mod_cast above))
        have years : v / 31536000 < 2 ^ 31 := by
          by_contra large
          have first :
            ⟨v / 31536000 % 2 ^ 32, "year".toList ++ plural (v / 31536000 % 2 ^ 32), 31536000⟩ ∈
              utimeTokens v := by
            refine List.mem_append_left _ ?_
            rw [units_eq, unitTokens]
            dsimp only
            rw [if_pos (by omega)]
            exact List.mem_cons_self
          have short := (good _ first).1
          dsimp only at short
          omega
        refine ⟨some, ?_, years,
          isDouble_of_floor (isDouble_addTokens (le_refl 0) ⟨0, 0, by norm_num, by norm_num⟩ _) floor⟩
        by_contra more
        have last : ⟨v % 60, "sec".toList ++ plural (v % 60), 1⟩ ∈ utimeTokens v := by
          refine List.mem_append_right _ ?_
          rw [secondTokens_eq some lost, if_neg (by omega)]
          exact List.mem_cons_self
        have known := (good _ last).2
        dsimp only at known
        rw [plural, if_pos (by omega)] at known
        revert known
        decide
      · cases read
    · cases read
  · rintro ⟨some, second, years, number⟩
    have lost : v / 31536000 < 2 ^ 32 := by omega
    have units := unitTokens_units years
    have good : ∀ t ∈ utimeTokens v, t.Good := by
      intro t member
      rcases List.mem_append.mp member with unit | last
      · exact ⟨units t unit, (unitTokens_known (fun u inside => inside) v t unit).2.2⟩
      · rw [secondTokens_eq some lost] at last
        split at last
        · cases last
        · have one : v % 60 = 1 := by omega
          rw [List.mem_singleton.mp last, one]
          decide
    have sum : addTokens 0 (utimeTokens v) = v := by
      have append : addTokens 0 (utimeTokens v) =
          addTokens (addTokens 0 (unitTokens Duration.units v)) (secondTokens v) := List.foldl_append
      rw [append, secondTokens_eq some lost]
      by_cases whole : v % 60 = 0
      · rw [if_pos whole, addTokens_units years (by rw [whole]; exact number), whole]
        rfl
      · have one : v % 60 = 1 := by omega
        -- an odd number of the format is exact as it is
        have short : v < 2 ^ 53 := by
          obtain ⟨m, k, short, same⟩ := (isDouble_natCast v).mp number
          cases k with
          | zero =>
              rw [same, pow_zero, mul_one]
              exact short
          | succ k =>
              rw [pow_succ, ← mul_assoc] at same
              omega
        rw [if_neg whole, one,
          addTokens_units years (isDouble_of_dvd (k := 0) (by omega) (by omega)), one]
        have single : IsDouble ((1 : ℕ) : ℚ) := isDouble_of_dvd (k := 0) (one_dvd _) (by norm_num)
        change double (((v - 1 : ℕ) : ℚ) + double (((1 : ℕ) : ℚ) * ((1 : ℕ) : ℚ))) = v
        have product : ((1 : ℕ) : ℚ) * ((1 : ℕ) : ℚ) = ((1 : ℕ) : ℚ) := by norm_num
        rw [product, double_of_isDouble single, ← Nat.cast_add, Nat.sub_add_cancel (by omega),
          double_of_isDouble number]
    rw [if_pos good, sum, if_pos, Int.floor_natCast]
    have small : v < 2 ^ 63 := by omega
    exact_mod_cast small

theorem durationToUtime_editUtime_61 : (utimeText 61).length < 50 ∧
    (durationToUtime (editUtime 61 50) = some (61 : ℕ) ↔
      61 ≠ 0 ∧ 61 % 60 ≤ 1 ∧ 61 / 31536000 < 2 ^ 31 ∧ ∃ m k : ℕ, m < 2 ^ 53 ∧ 61 = m * 2 ^ k) :=
  ⟨by decide, durationToUtime_editUtime 61 50 (by decide)⟩

/-- The parser does not know the modifier of the printer. -/
theorem two_secs_refused :
    editUtime 2 50 = "2 secs".toList ∧ durationToUtime (editUtime 2 50) = none := by
  decide

end Bacula.Duration
