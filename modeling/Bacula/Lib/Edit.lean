import Mathlib

/-! Numbers in strings, `lib/edit.c` and `skip_spaces` of `lib/scan.c`. The functions get the
characters from the pointer on up to the NUL. -/
namespace Bacula

/-- An `int64_t` after an overflow. -/
def int64 (x : ℤ) : ℤ := Int.bmod x (2 ^ 64)

/-- `B_ISSPACE`. -/
def isSpace (c : Char) : Bool := c == ' ' || ('\t' ≤ c && c ≤ '\x0d')

/-- `B_ISXDIGIT`. -/
def isXDigit (c : Char) : Bool := c.isDigit || ('a' ≤ c.toLower && c.toLower ≤ 'f')

/-- `skip_spaces`. -/
def skipSpaces (p : List Char) : List Char := p.dropWhile isSpace

/-- `is_an_integer`. -/
def isAnInteger (n : List Char) : Bool := !n.isEmpty && n.all Char.isDigit

/-- The value of a digit behind `0x`. -/
def xDigit (c : Char) : ℕ :=
  if c.isDigit then c.toNat - '0'.toNat else c.toLower.toNat - 'a'.toNat + 10

/-- `str_to_uint64`. -/
def strToUint64 (str : List Char) : ℕ :=
  let p := skipSpaces str
  let p := if p.head? = some '+' then p.tail else p
  match p with
  | '0' :: 'x' :: p =>
      (p.takeWhile isXDigit).foldl (fun value c => (value * 16 + xDigit c) % 2 ^ 64) 0
  | p =>
      (p.takeWhile Char.isDigit).foldl
        (fun value c => (value * 10 + (c.toNat - '0'.toNat)) % 2 ^ 64) 0

/-- `str_to_int64`. -/
def strToInt64 (str : List Char) : ℤ :=
  match skipSpaces str with
  | '+' :: p => int64 (strToUint64 p)
  | '-' :: p => int64 (-(strToUint64 p))
  | p => int64 (strToUint64 p)

theorem int64_of_lt {x : ℤ} (positive : 0 ≤ x) (small : x < 2 ^ 63) : int64 x = x :=
  Int.bmod_eq_of_le (by omega) (by omega)

theorem int64_lt (x : ℤ) : int64 x < 2 ^ 63 := Int.bmod_lt (by decide)

theorem isSpace_of_isDigit {c : Char} (digit : c.isDigit) : isSpace c = false := by
  unfold Char.isDigit at digit
  unfold isSpace
  simp only [Bool.and_eq_true, decide_eq_true_eq, Bool.or_eq_false_iff, beq_eq_false_iff_ne,
    Bool.and_eq_false_iff, decide_eq_false_iff_not] at digit ⊢
  refine ⟨fun same => ?_, ?_⟩
  · subst same
    exact absurd digit.1 (by decide)
  · refine Or.inr fun high => ?_
    have digits : (48 : UInt32) ≤ c.val := digit.1
    have spaces : c.val ≤ 13 := high
    exact absurd (UInt32.le_trans digits spaces) (by decide)

theorem skipSpaces_digits {q : List Char} (digits : q.all Char.isDigit) : skipSpaces q = q := by
  cases q with
  | nil => rfl
  | cons c q =>
      rw [List.all_cons, Bool.and_eq_true] at digits
      rw [skipSpaces, List.dropWhile_cons, isSpace_of_isDigit digits.1]
      rfl

theorem foldl_mod (n : ℕ) (q : List Char) (value : ℕ) :
    q.foldl (fun value c => (value * 10 + (c.toNat - '0'.toNat)) % n) (value % n) =
      Nat.ofDigitChars 10 q value % n := by
  induction q generalizing value with
  | nil => rfl
  | cons c q ih =>
      rw [List.foldl_cons, Nat.ofDigitChars_cons, ← ih]
      congr 1
      rw [Nat.mul_comm 10 value, Nat.add_mod, Nat.mul_mod, Nat.mod_mod, ← Nat.mul_mod,
        ← Nat.add_mod]

/-- Digits are read as the number that they denote, in 64 bits. -/
theorem strToUint64_digits {q : List Char} (digits : q.all Char.isDigit) :
    strToUint64 q = Nat.ofDigitChars 10 q 0 % 2 ^ 64 := by
  have taken : q.takeWhile Char.isDigit = q :=
    List.takeWhile_eq_self_iff.mpr (List.all_eq_true.mp digits)
  have noSign : q.head? ≠ some '+' := by
    intro sign
    exact absurd (List.all_eq_true.mp digits '+' (List.mem_of_mem_head? sign)) (by decide)
  unfold strToUint64
  simp only [skipSpaces_digits digits, if_neg noSign]
  split
  · rename_i p
    exact absurd (List.all_eq_true.mp digits 'x' (by simp)) (by decide)
  · rw [taken]
    exact foldl_mod (2 ^ 64) q 0

theorem strToInt64_digits {q : List Char} (digits : q.all Char.isDigit) :
    strToInt64 q = int64 (Nat.ofDigitChars 10 q 0) := by
  have number : int64 (strToUint64 q) = int64 (Nat.ofDigitChars 10 q 0) := by
    rw [strToUint64_digits digits, int64, int64, Int.natCast_mod]
    exact Int.emod_bmod _ _
  unfold strToInt64
  rw [skipSpaces_digits digits]
  split
  · exact absurd (List.all_eq_true.mp digits '+' List.mem_cons_self) (by decide)
  · exact absurd (List.all_eq_true.mp digits '-' List.mem_cons_self) (by decide)
  · exact number

/-- A number is read up to the first character behind it, unless this makes it `0x`. -/
theorem strToUint64_append {q rest : List Char} (digits : q.all Char.isDigit) (some : q ≠ [])
    (stops : ∀ c, rest.head? = .some c → c.isDigit = false ∧ c ≠ 'x') :
    strToUint64 (q ++ rest) = Nat.ofDigitChars 10 q 0 % 2 ^ 64 := by
  obtain ⟨d, q, rfl⟩ := List.exists_cons_of_ne_nil some
  have digit := List.all_eq_true.mp digits d List.mem_cons_self
  have start : skipSpaces (d :: q ++ rest) = d :: q ++ rest := by
    rw [skipSpaces, List.cons_append, List.dropWhile_cons, isSpace_of_isDigit digit]
    rfl
  have noSign : (d :: q ++ rest).head? ≠ .some '+' := by
    intro sign
    rw [Option.some_inj.mp sign] at digit
    exact absurd digit (by decide)
  have taken : (d :: q ++ rest).takeWhile Char.isDigit = d :: q := by
    rw [List.takeWhile_append_of_pos fun c inside => List.all_eq_true.mp digits c inside]
    cases rest with
    | nil => exact List.append_nil _
    | cons c rest => rw [List.takeWhile_cons, (stops c rfl).1]; exact List.append_nil _
  unfold strToUint64
  simp only [start, if_neg noSign]
  split
  · rename_i p same
    cases q with
    | nil =>
        have second := (List.cons.inj same).2
        cases rest with
        | nil => cases second
        | cons c rest => exact absurd (List.cons.inj second).1 (stops c rfl).2
    | cons e q =>
        have second := (List.cons.inj (List.cons.inj same).2).1
        have := List.all_eq_true.mp digits e (by simp)
        rw [second] at this
        exact absurd this (by decide)
  · rw [taken]
    exact foldl_mod (2 ^ 64) (d :: q) 0

theorem strToInt64_append {q rest : List Char} (digits : q.all Char.isDigit) (some : q ≠ [])
    (stops : ∀ c, rest.head? = .some c → c.isDigit = false ∧ c ≠ 'x') :
    strToInt64 (q ++ rest) = int64 (Nat.ofDigitChars 10 q 0) := by
  have number : int64 (strToUint64 (q ++ rest)) = int64 (Nat.ofDigitChars 10 q 0) := by
    rw [strToUint64_append digits some stops, int64, int64, Int.natCast_mod]
    exact Int.emod_bmod _ _
  obtain ⟨d, q, rfl⟩ := List.exists_cons_of_ne_nil some
  have digit := List.all_eq_true.mp digits d List.mem_cons_self
  have start : skipSpaces (d :: q ++ rest) = d :: q ++ rest := by
    rw [skipSpaces, List.cons_append, List.dropWhile_cons, isSpace_of_isDigit digit]
    rfl
  unfold strToInt64
  rw [start]
  split
  · rename_i p same
    rw [(List.cons.inj same).1] at digit
    exact absurd digit (by decide)
  · rename_i p same
    rw [(List.cons.inj same).1] at digit
    exact absurd digit (by decide)
  · exact number

/-- A negative number. -/
theorem strToInt64_minus {q rest : List Char} (digits : q.all Char.isDigit) (some : q ≠ [])
    (stops : ∀ c, rest.head? = .some c → c.isDigit = false ∧ c ≠ 'x') :
    strToInt64 ('-' :: q ++ rest) = int64 (-(Nat.ofDigitChars 10 q 0 : ℤ)) := by
  change int64 (-(strToUint64 (q ++ rest) : ℤ)) = _
  rw [strToUint64_append digits some stops, int64, int64, Int.natCast_mod, ← zero_sub,
    Int.sub_emod_bmod, zero_sub]

end Bacula
