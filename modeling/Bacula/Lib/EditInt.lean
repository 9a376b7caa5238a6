import Bacula.Lib.DurationLaw
import Bacula.Library.CMemory

/-! Whole numbers into strings and back, `edit_uint64` and `edit_int64` of `lib/edit.c`. The number
is edited backward, from the end of a working buffer that holds anything before. -/
namespace Bacula.EditInt
open CMemory
open Duration (bstrncpy digits_all digits_ne_nil)

/-- `mbuf`, and where the next character goes. -/
structure Mbuf where
  chars : Vector Char 50
  i : ℤ

/-- The end of the string is stored first. -/
def Mbuf.start (chars : Vector Char 50) : Mbuf := ⟨chars.set 49 nul, 48⟩

/-- `mbuf[i--] = c`, within the buffer. -/
def Mbuf.put (m : Mbuf) (c : Char) : Option Mbuf :=
  if inside : 0 ≤ m.i ∧ m.i < 50 then some ⟨m.chars.set m.i.toNat c (by omega), m.i - 1⟩ else none

/-- The string at `&mbuf[i+1]`. -/
def Mbuf.text (m : Mbuf) : List Char := strAt m.chars.toList (m.i + 1).toNat

/-- `"0123456789"[k]`; there is nothing to read before the string. -/
def digitAt (k : ℤ) : Option Char :=
  if 0 ≤ k then ("0123456789".toList ++ [nul])[k.toNat]? else none

theorem tdiv_lt {val : ℤ} (more : val ≠ 0) : (val.tdiv 10).natAbs < val.natAbs := by
  rw [Int.natAbs_tdiv]
  exact Nat.div_lt_self (Int.natAbs_pos.mpr more) (by decide)

/-- The digit loop. The remainder has the sign of the number. -/
def editDigits (val : ℤ) (m : Mbuf) : Option Mbuf :=
  if _ : val ≠ 0 then do
    let c ← digitAt (val.tmod 10)
    let m ← m.put c
    editDigits (val.tdiv 10) m
  else some m
termination_by val.natAbs
decreasing_by exact tdiv_lt ‹_›

/-- The remainders in the iterations of the digit loop. -/
def remainders (val : ℤ) : List ℤ :=
  if _ : val ≠ 0 then val.tmod 10 :: remainders (val.tdiv 10) else []
termination_by val.natAbs
decreasing_by exact tdiv_lt ‹_›

/-- `edit_uint64` up to the copy. -/
def uint64Mbuf (chars : Vector Char 50) (val : UInt64) : Option Mbuf :=
  let m := Mbuf.start chars
  if val = 0 then m.put '0' else editDigits val.toNat m

/-- `edit_uint64` -/
def editUint64 (chars : Vector Char 50) (val : UInt64) : Option (List Char) :=
  (uint64Mbuf chars val).map fun m => bstrncpy m.text 27

/-- The number that the digit loop of `edit_int64` starts with; the negation wraps around. -/
def magnitude (val : Int64) : Int64 := if val < 0 then -val else val

/-- `edit_int64` up to the sign. -/
def int64Digits (chars : Vector Char 50) (val : Int64) : Option Mbuf :=
  let m := Mbuf.start chars
  if val = 0 then m.put '0' else editDigits (magnitude val).toInt m

/-- `edit_int64` up to the copy. -/
def int64Mbuf (chars : Vector Char 50) (val : Int64) : Option Mbuf := do
  let m ← int64Digits chars val
  if val < 0 then m.put '-' else some m

/-- `edit_int64` -/
def editInt64 (chars : Vector Char 50) (val : Int64) : Option (List Char) :=
  (int64Mbuf chars val).map fun m => bstrncpy m.text 27

/-! ## The working buffer -/

/-- The text and its end are stored. -/
structure Mbuf.Holds (m : Mbuf) (text : List Char) : Prop where
  place : m.i + text.length = 48
  stored : m.chars.toList.drop (m.i + 1).toNat = text ++ [nul]

theorem Mbuf.start_holds (chars : Vector Char 50) : (start chars).Holds [] := by
  refine ⟨rfl, ?_⟩
  have last : (chars.toList.set 49 nul).drop 49 = [nul] := by
    apply List.ext_getElem
    · simp
    · intro i below inside
      obtain rfl : i = 0 := by simpa using inside
      simp
  rw [start, Vector.toList_set]
  exact last

theorem Mbuf.Holds.put {m : Mbuf} {text : List Char} (holds : m.Holds text) (room : text.length < 49)
    (c : Char) : ∃ m', m.put c = some m' ∧ m'.Holds (c :: text) := by
  have place := holds.place
  have inside : 0 ≤ m.i ∧ m.i < 50 := by omega
  have next : (m.i + 1).toNat = m.i.toNat + 1 := by omega
  refine ⟨_, dif_pos inside, ?_, ?_⟩
  · rw [List.length_cons]
    push_cast
    omega
  · have size : m.i.toNat < (m.chars.toList.set m.i.toNat c).length := by
      rw [List.length_set, Vector.length_toList]
      omega
    have stored := holds.stored
    rw [next] at stored
    change (m.chars.set m.i.toNat c).toList.drop (m.i - 1 + 1).toNat = _
    rw [Vector.toList_set, Int.sub_add_cancel, List.drop_eq_getElem_cons size, List.getElem_set_self,
      List.drop_set_of_lt (Nat.lt_succ_self _), stored]
    rfl

theorem Mbuf.Holds.text_eq {m : Mbuf} {text : List Char} (holds : m.Holds text) (solid : nul ∉ text) :
    m.text = text := by
  rw [Mbuf.text, strAt, holds.stored]
  apply takeWhile_append_cons
  · intro x member
    exact bne_iff_ne.mpr fun same => solid (same ▸ member)
  · exact bne_self_eq_false nul

/-! ## The digit loop -/

theorem digitAt_lt {d : ℕ} (digit : d < 10) : digitAt d = some (Nat.digitChar d) := by
  interval_cases d <;> rfl

theorem tmod_natCast (n : ℕ) : (n : ℤ).tmod 10 = (n % 10 : ℕ) := rfl

theorem tdiv_natCast (n : ℕ) : (n : ℤ).tdiv 10 = (n / 10 : ℕ) := rfl

/-- The loop puts the decimal digits in front of what is stored. -/
theorem editDigits_spec {n : ℕ} (positive : 0 < n) {m : Mbuf} {text : List Char} (holds : m.Holds text)
    (room : (Nat.toDigits 10 n).length + text.length ≤ 49) :
    ∃ m', editDigits n m = some m' ∧ m'.Holds (Nat.toDigits 10 n ++ text) := by
  induction n using Nat.strong_induction_on generalizing m text with
  | _ n ih =>
      have more : (n : ℤ) ≠ 0 := by omega
      have some : 0 < (Nat.toDigits 10 n).length := Nat.length_toDigits_pos
      obtain ⟨m₁, put, holds₁⟩ := holds.put (by omega) (Nat.digitChar (n % 10))
      have first : editDigits n m = editDigits (n / 10 : ℕ) m₁ := by
        rw [editDigits, dif_pos more, tmod_natCast, tdiv_natCast, digitAt_lt (Nat.mod_lt n (by decide))]
        simp [put]
      rw [first]
      by_cases last : n < 10
      · refine ⟨m₁, ?_, ?_⟩
        · rw [Nat.div_eq_of_lt last, editDigits]
          rfl
        · rw [Nat.toDigits_of_lt_base last]
          rwa [Nat.mod_eq_of_lt last] at holds₁
      · have split := Nat.toDigits_of_base_le (b := 10) (by decide) (not_lt.mp last)
        rw [split] at room ⊢
        rw [List.length_append, List.length_singleton] at room
        have rest :=
          ih (n / 10) (Nat.div_lt_self positive (by decide)) (Nat.div_pos (not_lt.mp last) (by decide))
          holds₁ (by rw [List.length_cons]; omega)
        rwa [List.append_assoc]

theorem remainders_natCast (n : ℕ) : ∀ r ∈ remainders n, 0 ≤ r ∧ r ≤ 9 := by
  induction n using Nat.strong_induction_on with
  | _ n ih =>
      intro r member
      rw [remainders] at member
      split at member
      case isTrue more =>
        rw [tmod_natCast, tdiv_natCast] at member
        rcases List.mem_cons.mp member with rfl | member
        · omega
        · exact ih (n / 10) (by omega) r member
      case isFalse => cases member

/-! ## The laws -/

theorem digits_solid (n : ℕ) : nul ∉ Nat.toDigits 10 n := by
  intro member
  exact absurd (List.all_eq_true.mp (digits_all n) nul member) (by decide)

theorem digits_short {n : ℕ} (small : n < 2 ^ 64) : (Nat.toDigits 10 n).length ≤ 20 := by
  apply (Nat.length_toDigits_le_iff (by decide) (by decide)).mpr
  exact small.trans (by decide)

/-- The branch for zero and the digit loop together. -/
theorem stored_digits (chars : Vector Char 50) {n : ℕ} (small : n < 2 ^ 64) :
    ∃ m, (if n = 0 then (Mbuf.start chars).put '0' else editDigits n (Mbuf.start chars)) = some m ∧
      m.Holds (Nat.toDigits 10 n) := by
  have start := Mbuf.start_holds chars
  have short := digits_short small
  by_cases zero : n = 0
  · subst zero
    exact start.put (by decide) '0'
  · have positive : 0 < n := Nat.pos_of_ne_zero zero
    obtain ⟨m, edited, holds⟩ := editDigits_spec positive start (by rw [List.length_nil]; omega)
    rw [List.append_nil] at holds
    exact ⟨m, by rw [if_neg zero, edited], holds⟩

/-- The text fits a buffer of 27 bytes with its end, the remainders of the loop are digits, and the
copy is read as the number. -/
structure Edited (mbuf : Option Mbuf) (val : ℤ) (buf : Option (List Char))
    (reads : List Char → Prop) : Prop where
  fits : ∃ m, mbuf = some m ∧ m.text.length + 1 ≤ 27
  digits : ∀ r ∈ remainders val, 0 ≤ r ∧ r ≤ 9
  read : ∃ text, buf = some text ∧ reads text

def Uint64Law (chars : Vector Char 50) (val : UInt64) : Prop :=
  Edited (uint64Mbuf chars val) val.toNat (editUint64 chars val) fun text =>
    strToUint64 text = val.toNat

def Int64Law (chars : Vector Char 50) (val : Int64) : Prop :=
  Edited (int64Mbuf chars val) (magnitude val).toInt (editInt64 chars val) fun text =>
    strToInt64 text = val.toInt

theorem Mbuf.Holds.edited {m : Mbuf} {text : List Char} (holds : m.Holds text) (solid : nul ∉ text)
    (short : text.length ≤ 26) (n : ℕ) {reads : List Char → Prop} (read : reads text) :
    Edited (some m) n ((some m).map fun m => bstrncpy m.text 27) reads := by
  have same := holds.text_eq solid
  refine ⟨⟨m, rfl, ?_⟩, remainders_natCast n, text, ?_, read⟩
  · rw [same]
    omega
  · rw [Option.map_some, same, bstrncpy, List.take_of_length_le short]

theorem uint64_law (chars : Vector Char 50) (val : UInt64) : Uint64Law chars val := by
  have small := UInt64.toNat_lt val
  obtain ⟨m, stored, holds⟩ := stored_digits chars small
  have mbuf : uint64Mbuf chars val = some m := by
    rw [← stored, uint64Mbuf]
    simp only [← UInt64.toNat_inj]
    rfl
  have value : strToUint64 (Nat.toDigits 10 val.toNat) = val.toNat := by
    rw [strToUint64_digits (digits_all _), Nat.ofDigitChars_ten_toDigits, Nat.mod_eq_of_lt small]
  have short := digits_short small
  rw [Uint64Law, editUint64, mbuf]
  exact holds.edited (digits_solid _) (by omega) val.toNat value

theorem negative_iff (val : Int64) : val < 0 ↔ val.toInt < 0 := Int64.lt_iff_toInt_lt

theorem toInt_magnitude {val : Int64} (other : val ≠ Int64.minValue) :
    (magnitude val).toInt = (val.toInt.natAbs : ℤ) := by
  have low := val.le_toInt
  have high := val.toInt_lt
  have notMin : val.toInt ≠ -2 ^ 63 := fun same => other (Int64.toInt_inj.mp same)
  unfold magnitude
  split
  case isTrue negative =>
    rw [negative_iff] at negative
    rw [Int64.toInt_neg, Int.bmod_eq_of_le (by omega) (by omega)]
    omega
  case isFalse nonneg =>
    rw [negative_iff] at nonneg
    omega

/-- A number as it is written. -/
def signedText (z : ℤ) : List Char :=
  if z < 0 then '-' :: Nat.toDigits 10 z.natAbs else Nat.toDigits 10 z.natAbs

theorem signedText_solid (z : ℤ) : nul ∉ signedText z := by
  unfold signedText
  split
  · intro member
    rcases List.mem_cons.mp member with same | member
    · exact absurd same (by decide)
    · exact digits_solid _ member
  · exact digits_solid _

theorem signedText_short {z : ℤ} (small : z.natAbs < 2 ^ 64) : (signedText z).length ≤ 21 := by
  have short := digits_short small
  unfold signedText
  split
  · rw [List.length_cons]
    omega
  · omega

theorem strToInt64_signedText {z : ℤ} (low : -2 ^ 63 ≤ z) (high : z < 2 ^ 63) :
    strToInt64 (signedText z) = z := by
  have digits := digits_all z.natAbs
  unfold signedText
  split
  case isTrue negative =>
    have ends : ∀ c, [].head? = some c → c.isDigit = false ∧ c ≠ 'x' := by
      intro c head
      cases head
    have read := strToInt64_minus digits (digits_ne_nil _) ends
    rw [List.append_nil, Nat.ofDigitChars_ten_toDigits] at read
    rw [read, int64, Int.bmod_eq_of_le (by omega) (by omega)]
    omega
  case isFalse nonneg =>
    rw [strToInt64_digits digits, Nat.ofDigitChars_ten_toDigits, int64_of_lt (by omega) (by omega)]
    omega

theorem int64Digits_stored {val : Int64} (other : val ≠ Int64.minValue) (chars : Vector Char 50) :
    ∃ m, int64Digits chars val = some m ∧ m.Holds (Nat.toDigits 10 val.toInt.natAbs) := by
  have low := val.le_toInt
  have high := val.toInt_lt
  obtain ⟨m, stored, holds⟩ := stored_digits chars (n := val.toInt.natAbs) (by omega)
  have zero : val = 0 ↔ val.toInt.natAbs = 0 := by
    rw [← Int64.toInt_inj, Int.natAbs_eq_zero]
    rfl
  refine ⟨m, ?_, holds⟩
  rw [← stored, int64Digits]
  simp only [zero, toInt_magnitude other]

theorem int64Mbuf_stored {val : Int64} (other : val ≠ Int64.minValue) (chars : Vector Char 50) :
    ∃ m, int64Mbuf chars val = some m ∧ m.Holds (signedText val.toInt) := by
  have low := val.le_toInt
  have high := val.toInt_lt
  have short := digits_short (n := val.toInt.natAbs) (by omega)
  obtain ⟨m, digits, holds⟩ := int64Digits_stored other chars
  rw [int64Mbuf, digits, signedText]
  by_cases negative : val < 0
  · obtain ⟨m', put, holds'⟩ := holds.put (by omega) '-'
    refine ⟨m', (if_pos negative).trans put, ?_⟩
    rwa [if_pos ((negative_iff val).mp negative)]
  · refine ⟨m, if_neg negative, ?_⟩
    rwa [if_neg (mt (negative_iff val).mpr negative)]

theorem int64_law {val : Int64} (other : val ≠ Int64.minValue) (chars : Vector Char 50) :
    Int64Law chars val := by
  have low := val.le_toInt
  have high := val.toInt_lt
  obtain ⟨m, mbuf, holds⟩ := int64Mbuf_stored other chars
  have short := signedText_short (z := val.toInt) (by omega)
  rw [Int64Law, editInt64, toInt_magnitude other, mbuf]
  exact holds.edited (signedText_solid _) (by omega) _ (strToInt64_signedText low high)

theorem magnitude_min : (magnitude Int64.minValue).toInt = -2 ^ 63 := by decide

/-- The smallest number is its own negative, and the first remainder is no digit. -/
theorem remainders_min : -8 ∈ remainders (magnitude Int64.minValue).toInt := by
  rw [magnitude_min, remainders]
  exact List.mem_cons_self

/-- Every number is edited with digits into the buffer and read back, but for the smallest one. -/
theorem edited_law_iff (chars : Vector Char 50) (val : UInt64) (signed : Int64) :
    Uint64Law chars val ∧ (Int64Law chars signed ↔ signed ≠ Int64.minValue) := by
  refine ⟨uint64_law chars val, ?_, fun other => int64_law other chars⟩
  rintro law rfl
  have digit := law.digits _ remainders_min
  exact absurd digit.1 (by decide)

theorem smallest_not_edited : editInt64 (Vector.replicate 50 nul) Int64.minValue = none ∧
    ¬ Int64Law (Vector.replicate 50 nul) Int64.minValue := by
  constructor
  · have unread : int64Digits (Vector.replicate 50 nul) Int64.minValue = none := by
      rw [int64Digits, magnitude_min, editDigits]
      rfl
    rw [editInt64, int64Mbuf, unread]
    rfl
  · intro law
    have digit := law.digits _ remainders_min
    exact absurd digit.1 (by decide)

end Bacula.EditInt
