import Bacula.Lib.Edit

/-! Strings and numbers inside a message, `lib/scan.c` and the formats of `bsnprintf`. A pointer into
a message is what stands from there on; behind the message a zero is read. -/
namespace Bacula.Scan

def byteChar (b : UInt8) : Char := Char.ofNat b.toNat

def blank : UInt8 := 32

/-- The string at the pointer. -/
def cstr (p : List UInt8) : List UInt8 := p.takeWhile (· ≠ 0)

/-- `p + strlen(p) + 1`. -/
def afterNul (p : List UInt8) : List UInt8 := (p.dropWhile (· ≠ 0)).tail

/-- `B_ISSPACE`. -/
def bIsSpace (b : UInt8) : Bool := isSpace (byteChar b)

def skipSpaces (p : List UInt8) : List UInt8 := p.dropWhile bIsSpace

def skipNonspaces (p : List UInt8) : List UInt8 := p.dropWhile fun b => b ≠ 0 ∧ ¬ bIsSpace b

/-- `while (*p++ != ' ')`. -/
def pastBlank (p : List UInt8) : List UInt8 := (p.dropWhile (· ≠ blank)).tail

/-- `str_to_int32`. -/
def strToInt32 (p : List UInt8) : Int32 := Int32.ofInt (strToInt64 ((cstr p).map byteChar))

def isDigit (b : UInt8) : Bool := (byteChar b).isDigit

/-- `%d` of `sscanf`: the number and what is behind it. -/
def scanInt (p : List UInt8) : Option (Int32 × List UInt8) :=
  let p := skipSpaces p
  let digits := if p.head? = some 45 ∨ p.head? = some 43 then p.tail else p
  let value : ℤ := Nat.ofDigitChars 10 ((digits.takeWhile isDigit).map byteChar) 0
  if digits.takeWhile isDigit = [] then none
  else some (Int32.ofInt (if p.head? = some 45 then -value else value), digits.dropWhile isDigit)

/-- `%u` and `%d` of a number that is not negative. -/
def decimal (n : ℕ) : List UInt8 := (Nat.toDigits 10 n).map fun c => UInt8.ofNat c.toNat

/-- `%d`. -/
def signed (n : Int32) : List UInt8 :=
  if n < 0 then 45 :: decimal (-n.toInt).toNat else decimal n.toInt.toNat

/-! ## Strings -/

theorem cstr_append {s : List UInt8} (terminated : 0 ∉ s) (rest : List UInt8) :
    cstr (s ++ 0 :: rest) = s := by
  rw [cstr, List.takeWhile_append_of_pos, List.takeWhile_cons]
  · exact List.append_nil s
  · intro b inside
    exact decide_eq_true fun zero => terminated (zero ▸ inside)

theorem afterNul_append {s : List UInt8} (terminated : 0 ∉ s) (rest : List UInt8) :
    afterNul (s ++ 0 :: rest) = rest := by
  rw [afterNul, List.dropWhile_append_of_pos, List.dropWhile_cons]
  · rfl
  · intro b inside
    exact decide_eq_true fun zero => terminated (zero ▸ inside)

/-! ## Numbers -/

theorem byteChar_ofDigit {c : Char} (digit : c.isDigit) : byteChar (UInt8.ofNat c.toNat) = c := by
  have bound : c.toNat ≤ 57 := by
    unfold Char.isDigit at digit
    simp only [Bool.and_eq_true, decide_eq_true_eq] at digit
    exact digit.2
  rw [byteChar, UInt8.toNat_ofNat_of_lt' (lt_of_le_of_lt bound (by decide)), Char.ofNat_toNat]

theorem decimal_isDigit (n : ℕ) : ∀ b ∈ decimal n, isDigit b := by
  intro b inside
  obtain ⟨c, digit, rfl⟩ := List.mem_map.mp inside
  have digit : c.isDigit := Nat.isDigit_of_mem_toDigits (by decide) (by decide) digit
  rw [isDigit, byteChar_ofDigit digit]
  exact digit

theorem decimal_ne_nil (n : ℕ) : decimal n ≠ [] := by
  intro empty
  have := Nat.length_toDigits_pos (b := 10) (n := n)
  rw [decimal, List.map_eq_nil_iff] at empty
  rw [empty] at this
  exact absurd this (lt_irrefl 0)

theorem map_decimal (n : ℕ) : (decimal n).map byteChar = Nat.toDigits 10 n := by
  rw [decimal, List.map_map]
  have same : ∀ c ∈ Nat.toDigits 10 n, (byteChar ∘ fun c => UInt8.ofNat c.toNat) c = id c :=
    fun c inside =>
    byteChar_ofDigit (Nat.isDigit_of_mem_toDigits (by decide) (by decide) inside)
  exact (List.map_congr_left same).trans (List.map_id _)

theorem bIsSpace_of_isDigit {b : UInt8} (digit : isDigit b) : bIsSpace b = false :=
  isSpace_of_isDigit digit

theorem ne_of_isDigit {b c : UInt8} (digit : isDigit b) (other : isDigit c = false) : b ≠ c := by
  rintro rfl
  rw [other] at digit
  cases digit

theorem decimal_terminated (n : ℕ) : 0 ∉ decimal n := fun inside =>
  ne_of_isDigit (decimal_isDigit n 0 inside) (by decide) rfl

theorem skipSpaces_decimal (n : ℕ) (rest : List UInt8) :
    skipSpaces (decimal n ++ rest) = decimal n ++ rest := by
  have digits := decimal_isDigit n
  obtain ⟨b, q, eq⟩ := List.exists_cons_of_ne_nil (decimal_ne_nil n)
  rw [eq] at digits ⊢
  rw [skipSpaces, List.cons_append, List.dropWhile_cons,
    bIsSpace_of_isDigit (digits b List.mem_cons_self)]
  rfl

theorem skipSpaces_blank (rest : List UInt8) : skipSpaces (blank :: rest) = skipSpaces rest := rfl

/-- A word of a message. -/
def Solid (s : List UInt8) : Prop := ∀ b ∈ s, b ≠ 0 ∧ bIsSpace b = false

theorem skipNonspaces_solid {s : List UInt8} (solid : Solid s) (rest : List UInt8) :
    skipNonspaces (s ++ blank :: rest) = blank :: rest := by
  rw [skipNonspaces, List.dropWhile_append_of_pos]
  · rfl
  · intro b inside
    exact decide_eq_true ⟨(solid b inside).1, by rw [(solid b inside).2]; exact Bool.false_ne_true⟩

theorem decimal_solid (n : ℕ) : Solid (decimal n) := fun b inside =>
  ⟨ne_of_isDigit (decimal_isDigit n b inside) (by decide),
    bIsSpace_of_isDigit (decimal_isDigit n b inside)⟩

theorem pastBlank_decimal (n : ℕ) (rest : List UInt8) :
    pastBlank (decimal n ++ blank :: rest) = rest := by
  rw [pastBlank, List.dropWhile_append_of_pos]
  · rfl
  · intro b inside
    exact decide_eq_true (ne_of_isDigit (decimal_isDigit n b inside) (by decide))

theorem ofInt_int64 (x : ℤ) : Int32.ofInt (int64 x) = Int32.ofInt x := by
  apply Int32.toInt_inj.mp
  rw [Int32.toInt_ofInt, Int32.toInt_ofInt, int64]
  exact Int.bmod_bmod_of_dvd (by decide)

/-- What stands behind a number in a message. -/
def EndsNumber (rest : List UInt8) : Prop :=
  ∃ stop more, rest = stop :: more ∧ (stop = 0 ∨ stop = blank)

/-- The characters of a string that starts with a number. -/
theorem chars_decimal (n : ℕ) {rest : List UInt8} (ends : EndsNumber rest) :
    ∃ more : List Char, (cstr (decimal n ++ rest)).map byteChar = Nat.toDigits 10 n ++ more ∧
      ∀ c, more.head? = some c → c.isDigit = false ∧ c ≠ 'x' := by
  obtain ⟨stop, more, rfl, eq⟩ := ends
  have front : cstr (decimal n ++ stop :: more) = decimal n ++ cstr (stop :: more) :=
    List.takeWhile_append_of_pos fun b inside =>
      decide_eq_true (ne_of_isDigit (decimal_isDigit n b inside) (by decide))
  rw [front, List.map_append, map_decimal]
  refine ⟨_, rfl, fun c head => ?_⟩
  rcases eq with rfl | rfl
  · cases head
  · obtain rfl : ' ' = c := Option.some_inj.mp head
    decide

theorem strToInt32_decimal (n : ℕ) {rest : List UInt8} (ends : EndsNumber rest) :
    strToInt32 (decimal n ++ rest) = Int32.ofNat n := by
  obtain ⟨more, chars, stops⟩ := chars_decimal n ends
  have digits : (Nat.toDigits 10 n).all Char.isDigit :=
    List.all_eq_true.mpr fun c inside => Nat.isDigit_of_mem_toDigits (by decide) (by decide) inside
  have some : Nat.toDigits 10 n ≠ [] := List.length_pos_iff.mp Nat.length_toDigits_pos
  rw [strToInt32, chars, strToInt64_append digits some stops, Nat.ofDigitChars_ten_toDigits,
    ofInt_int64]
  rfl

theorem strToInt32_signed (n : Int32) {rest : List UInt8} (ends : EndsNumber rest) :
    strToInt32 (signed n ++ rest) = n := by
  rw [signed]
  split
  case isTrue negative =>
    obtain ⟨more, chars, stops⟩ := chars_decimal (-n.toInt).toNat ends
    have digits : (Nat.toDigits 10 (-n.toInt).toNat).all Char.isDigit :=
      List.all_eq_true.mpr fun c inside => Nat.isDigit_of_mem_toDigits (by decide) (by decide) inside
    have some : Nat.toDigits 10 (-n.toInt).toNat ≠ [] := List.length_pos_iff.mp Nat.length_toDigits_pos
    have below : n.toInt < 0 := Int32.lt_iff_toInt_lt.mp negative
    have front : (cstr (45 :: decimal (-n.toInt).toNat ++ rest)).map byteChar =
        '-' :: Nat.toDigits 10 (-n.toInt).toNat ++ more := by
      rw [List.cons_append, List.cons_append, ← chars]
      rfl
    rw [strToInt32, front, strToInt64_minus digits some stops, Nat.ofDigitChars_ten_toDigits,
      ofInt_int64, Int.toNat_of_nonneg (by omega), neg_neg]
    exact Int32.ofInt_toInt n
  case isFalse positive =>
    have above : 0 ≤ n.toInt := Int32.le_iff_toInt_le.mp (Int32.not_lt.mp positive)
    rw [strToInt32_decimal _ ends, ← Int32.ofInt_eq_ofNat, Int.toNat_of_nonneg above]
    exact Int32.ofInt_toInt n

theorem strToInt32_unsigned (n : Int32) {rest : List UInt8} (ends : EndsNumber rest) :
    strToInt32 (decimal n.toUInt32.toNat ++ rest) = n := by
  rw [strToInt32_decimal _ ends]
  change (UInt32.ofNat n.toUInt32.toNat).toInt32 = n
  rw [UInt32.ofNat_toNat, Int32.toInt32_toUInt32]

theorem takeWhile_decimal (n : ℕ) {rest : List UInt8} (ends : EndsNumber rest) :
    (decimal n ++ rest).takeWhile isDigit = decimal n ∧
    (decimal n ++ rest).dropWhile isDigit = rest := by
  obtain ⟨stop, more, rfl, eq⟩ := ends
  have notDigit : isDigit stop = false := by rcases eq with rfl | rfl <;> decide
  rw [List.takeWhile_append_of_pos (decimal_isDigit n),
    List.dropWhile_append_of_pos (decimal_isDigit n), List.takeWhile_cons, List.dropWhile_cons,
    notDigit]
  exact ⟨List.append_nil _, rfl⟩

theorem scanInt_decimal (n : ℕ) {rest : List UInt8} (ends : EndsNumber rest) :
    scanInt (decimal n ++ rest) = some (Int32.ofNat n, rest) := by
  have head : ∀ b, (decimal n ++ rest).head? = some b → isDigit b := by
    intro b first
    have digits := decimal_isDigit n
    obtain ⟨d, q, eq⟩ := List.exists_cons_of_ne_nil (decimal_ne_nil n)
    rw [eq] at digits first
    rw [← Option.some_inj.mp first]
    exact digits d List.mem_cons_self
  have noMinus : (decimal n ++ rest).head? ≠ some 45 := fun first => absurd (head 45 first) (by decide)
  have noPlus : (decimal n ++ rest).head? ≠ some 43 := fun first => absurd (head 43 first) (by decide)
  obtain ⟨taken, left⟩ := takeWhile_decimal n ends
  rw [scanInt, skipSpaces_decimal]
  simp only [noMinus, noPlus, or_self, if_false, taken, left, decimal_ne_nil, map_decimal,
    Nat.ofDigitChars_ten_toDigits]
  rfl

theorem scanInt_blank (rest : List UInt8) : scanInt (blank :: rest) = scanInt rest := rfl

end Bacula.Scan
