import Bacula.Lib.Base64

/-! Binary data out of base 64, `base64_to_bin`. -/
namespace Bacula
open ByteCodec

/-- `base64_map` as the bytes that are stored. -/
def base64Byte (c : UInt8) : UInt8 := (base64Map c).toUInt8

/-- The first byte of a group. -/
def firstByte (a b : UInt8) : UInt8 := base64Byte a <<< 2 ||| base64Byte b >>> 4

def secondByte (b c : UInt8) : UInt8 := base64Byte b <<< 4 ||| base64Byte c >>> 2

def thirdByte (c d : UInt8) : UInt8 := base64Byte c <<< 6 ||| base64Byte d

/-- The bytes that are stored before the end of the string. The last group has up to four
characters, as base 64 strings are not always padded. -/
def storeBytes : List UInt8 → List UInt8
  | a :: b :: c :: d :: e :: bufin =>
      firstByte a b :: secondByte b c :: thirdByte c d :: storeBytes (e :: bufin)
  | [a, b, c, d] => [firstByte a b, secondByte b c, thirdByte c d]
  | [a, b, c] => [firstByte a b, secondByte b c]
  | [a, b] => [firstByte a b]
  | _ => []

/-- The characters that are decoded: up to a blank. -/
def encoded (src : List UInt8) : List UInt8 := src.takeWhile (· ≠ space)

/-- The size that `base64_to_bin` asks for. -/
def neededSize (srclen : ℕ) : ℕ := (srclen + 3) / 4 * 3

/-- `base64_to_bin`: the bytes that are written to the destination, each with its index, and the
result. -/
def base64ToBin (destSize : ℤ) (src : List UInt8) : List (ℕ × UInt8) × ℕ :=
  if destSize < neededSize src.length then ([(0, 0)], 0)
  else
    let plain := storeBytes (encoded src)
    (plain.mapIdx Prod.mk ++ [(plain.length, 0)], plain.length)

/-- The destination is not refused. -/
def Accepts (destSize : ℤ) (src : List UInt8) : Prop := neededSize src.length ≤ destSize

/-- The source is whole groups without a blank, and the destination has just their bytes. -/
def ExactFit (destSize : ℤ) (src : List UInt8) : Prop :=
  space ∉ src ∧ 4 ∣ src.length ∧ destSize = src.length / 4 * 3

/-! ## Groups -/

theorem storeBytes_group (a b c d : UInt8) (rest : List UInt8) :
    storeBytes (a :: b :: c :: d :: rest) =
      firstByte a b :: secondByte b c :: thirdByte c d :: storeBytes rest := by
  cases rest with
  | nil => rfl
  | cons e rest => rw [storeBytes]

theorem length_storeBytes (bufin : List UInt8) : (storeBytes bufin).length = bufin.length * 3 / 4 := by
  fun_induction storeBytes bufin with
  | case1 a b c d e bufin ih =>
      simp only [List.length_cons] at ih ⊢
      omega
  | case2 a b c d =>
      simp only [List.length_cons, List.length_nil, Nat.reduceAdd, Nat.reduceMul, Nat.reduceDiv]
  | case3 a b c =>
      simp only [List.length_cons, List.length_nil, Nat.reduceAdd, Nat.reduceMul, Nat.reduceDiv]
  | case4 a b =>
      simp only [List.length_cons, List.length_nil, Nat.reduceAdd, Nat.reduceMul, Nat.reduceDiv]
  | case5 bufin more four three two =>
      match bufin with
      | [] => rfl
      | [a] => simp only [List.length_cons, List.length_nil, Nat.reduceAdd, Nat.reduceMul,
          Nat.reduceDiv]
      | [a, b] => exact absurd rfl (two a b)
      | [a, b, c] => exact absurd rfl (three a b c)
      | [a, b, c, d] => exact absurd rfl (four a b c d)
      | a :: b :: c :: d :: e :: bufin => exact absurd rfl (more a b c d e bufin)

theorem base64Byte_digit {n : ℕ} (small : n < 64) : base64Byte (base64Digit n) = UInt8.ofNat n := by
  rw [base64Byte, base64Digit, (digit_spec n small).1]
  apply UInt8.toNat_inj.mp
  rw [UInt64.toNat_toUInt8, UInt64.toNat_ofNat', UInt8.toNat_ofNat']
  omega

theorem firstByte_digits {m n : ℕ} (high : m < 64) (low : n < 64) :
    firstByte (base64Digit m) (base64Digit n) = UInt8.ofNat (m * 4 + n / 16) := by
  have all : ∀ m < 64, ∀ n < 64,
      UInt8.ofNat m <<< 2 ||| UInt8.ofNat n >>> 4 = UInt8.ofNat (m * 4 + n / 16) := by decide +kernel
  rw [firstByte, base64Byte_digit high, base64Byte_digit low, all m high n low]

theorem secondByte_digits {m n : ℕ} (high : m < 64) (low : n < 64) :
    secondByte (base64Digit m) (base64Digit n) = UInt8.ofNat (m % 16 * 16 + n / 4) := by
  have all : ∀ m < 64, ∀ n < 64,
      UInt8.ofNat m <<< 4 ||| UInt8.ofNat n >>> 2 = UInt8.ofNat (m % 16 * 16 + n / 4) := by
    decide +kernel
  rw [secondByte, base64Byte_digit high, base64Byte_digit low, all m high n low]

theorem thirdByte_digits {m n : ℕ} (high : m < 64) (low : n < 64) :
    thirdByte (base64Digit m) (base64Digit n) = UInt8.ofNat (m % 4 * 64 + n) := by
  have all : ∀ m < 64, ∀ n < 64,
      UInt8.ofNat m <<< 6 ||| UInt8.ofNat n = UInt8.ofNat (m % 4 * 64 + n) := by decide +kernel
  rw [thirdByte, base64Byte_digit high, base64Byte_digit low, all m high n low]

theorem eq_of_toNat {n : ℕ} {b : UInt8} (same : n = b.toNat) : UInt8.ofNat n = b := by
  rw [same, UInt8.ofNat_toNat]

/-- The groups of the data are decoded. -/
theorem storeBytes_base64 (bin : List UInt8) : storeBytes (base64 bin) = bin := by
  fun_induction base64 bin with
  | case1 => rfl
  | case2 a =>
      have top := a.toNat_lt
      change [firstByte _ _] = _
      rw [firstByte_digits (by omega) (by omega), eq_of_toNat (b := a) (by omega)]
  | case3 a b =>
      have top := a.toNat_lt
      have topb := b.toNat_lt
      change [firstByte _ _, secondByte _ _] = _
      rw [firstByte_digits (by omega) (by omega), secondByte_digits (by omega) (by omega),
        eq_of_toNat (b := a) (by omega), eq_of_toNat (b := b) (by omega)]
  | case4 a b c bin ih =>
      have top := a.toNat_lt
      have topb := b.toNat_lt
      have topc := c.toNat_lt
      rw [storeBytes_group, ih, firstByte_digits (by omega) (by omega),
        secondByte_digits (by omega) (by omega), thirdByte_digits (by omega) (by omega),
        eq_of_toNat (b := a) (by omega), eq_of_toNat (b := b) (by omega),
        eq_of_toNat (b := c) (by omega)]

theorem base64Digit_ne_space (n : ℕ) : base64Digit n ≠ space := by
  by_cases small : n < 64
  · exact (digit_spec n small).2.2.1
  · have behind : base64Digits.length ≤ n := not_lt.mp small
    rw [base64Digit, List.getD_eq_default _ _ behind]
    decide

theorem encoded_base64 (bin : List UInt8) : encoded (base64 bin) = base64 bin := by
  have all : ∀ c ∈ base64 bin, c ≠ space := by
    fun_induction base64 bin with
    | case1 => simp
    | case2 a => simp [base64Digit_ne_space]
    | case3 a b => simp [base64Digit_ne_space]
    | case4 a b c bin ih => simpa [base64Digit_ne_space] using ih
  exact List.takeWhile_eq_self_iff.mpr fun c member => decide_eq_true (all c member)

/-! ## The law -/

/-- Data is decoded to itself, with its length as the result. -/
theorem base64ToBin_binToBase64 {buflen : ℕ} {bin : List UInt8} (room : base64Size bin.length ≤ buflen)
    {destSize : ℤ} (accepts : Accepts destSize (binToBase64 buflen bin)) :
    base64ToBin destSize (binToBase64 buflen bin) =
      (bin.mapIdx Prod.mk ++ [(bin.length, 0)], bin.length) := by
  have text : binToBase64 buflen bin = base64 bin := by
    refine binToBase64_eq ?_
    rw [base64_length]
    unfold base64Size at room
    omega
  rw [text] at accepts ⊢
  rw [base64ToBin, if_neg (not_lt.mpr accepts), encoded_base64, storeBytes_base64]

theorem mem_written {α : Type} {plain : List α} {last : α} {limit : ℤ} :
    (∀ w ∈ plain.mapIdx Prod.mk ++ [(plain.length, last)], (w.1 : ℤ) < limit) ↔
      (plain.length : ℤ) < limit := by
  constructor
  · intro all
    exact all (plain.length, last) (List.mem_append_right _ List.mem_cons_self)
  · intro length w member
    rcases List.mem_append.mp member with stored | behind
    · obtain ⟨i, below, rfl⟩ := List.mem_mapIdx.mp stored
      dsimp only
      omega
    · rw [List.mem_singleton.mp behind]
      exact length

theorem encoded_length (src : List UInt8) :
    (encoded src).length ≤ src.length ∧ ((encoded src).length = src.length ↔ space ∉ src) := by
  have front : encoded src <+: src := List.takeWhile_prefix _
  refine ⟨front.length_le, fun same member => ?_, fun none => ?_⟩
  · have whole := List.takeWhile_eq_self_iff.mp (front.eq_of_length same) space member
    simp at whole
  · have whole : encoded src = src := List.takeWhile_eq_self_iff.mpr fun c member =>
      decide_eq_true fun blank => none (blank ▸ member)
    rw [whole]

/-- The end of the string is behind the destination when the bytes fit exactly. -/
theorem writes_inside_iff {destSize : ℤ} {src : List UInt8} (accepts : Accepts destSize src) :
    (∀ w ∈ (base64ToBin destSize src).1, (w.1 : ℤ) < destSize) ↔ ¬ ExactFit destSize src := by
  obtain ⟨le, whole⟩ := encoded_length src
  rw [base64ToBin, if_neg (not_lt.mpr accepts), mem_written, length_storeBytes, ExactFit, ← whole]
  unfold Accepts neededSize at accepts
  constructor
  · rintro inside ⟨same, divides, fits⟩
    omega
  · intro loose
    by_contra outside
    exact loose (by omega)

/-- `base64_to_bin` gives back what `bin_to_base64` has edited, and every byte it writes is inside
the destination unless the bytes fit exactly. -/
theorem base64ToBin_law (destSize : ℤ) :
    (∀ (bin : List UInt8) (buflen : ℕ), base64Size bin.length ≤ buflen →
        Accepts destSize (binToBase64 buflen bin) →
          base64ToBin destSize (binToBase64 buflen bin) =
            (bin.mapIdx Prod.mk ++ [(bin.length, 0)], bin.length)) ∧
      ∀ src : List UInt8, Accepts destSize src →
        ((∀ w ∈ (base64ToBin destSize src).1, (w.1 : ℤ) < destSize) ↔ ¬ ExactFit destSize src) :=
  ⟨fun _ _ room accepts => base64ToBin_binToBase64 room accepts,
    fun _ accepts => writes_inside_iff accepts⟩

/-- Two bytes, and three characters into a destination of four bytes. -/
theorem base64ToBin_law_man :
    base64ToBin 3 (binToBase64 10 (ascii "Ma")) = ([(0, 77), (1, 97), (2, 0)], 2) ∧
      ∀ w ∈ (base64ToBin 4 (ascii "TWE")).1, (w.1 : ℤ) < 4 :=
  ⟨(base64ToBin_law 3).1 (ascii "Ma") 10 (by decide)
      (by rw [Accepts, binToBase64_eq (by decide)]; decide),
    ((base64ToBin_law 4).2 (ascii "TWE") (by unfold Accepts; decide)).mpr (by unfold ExactFit; decide)⟩

/-- Four characters into a destination of three bytes: the end of the string is written at index 3. -/
theorem terminator_outside : Accepts 3 (ascii "TWFu") ∧
    base64ToBin 3 (ascii "TWFu") = ([(0, 77), (1, 97), (2, 110), (3, 0)], 3) := by
  unfold Accepts
  decide +kernel

end Bacula
