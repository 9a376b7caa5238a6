import Bacula.Library.ByteCodec

/-! Numbers in base 64, `lib/base64.c`. The negation of a signed number wraps around. -/
namespace Bacula
open ByteCodec

def base64Digits : List UInt8 :=
  ascii "ABCDEFGHIJKLMNOPQRSTUVWXYZabcdefghijklmnopqrstuvwxyz0123456789+/"

/-- `base64_map` after `base64_init`: 0 for a character that is no digit. -/
def base64Map (c : UInt8) : UInt64 :=
  if c ∈ base64Digits then UInt64.ofNat (base64Digits.idxOf c) else 0

def minus : UInt8 := 45
def space : UInt8 := 32

/-- The loops of `to_base64`: the first one counts the digits, the second one stores them from
the last to the first. -/
def outputDigits (val : UInt64) : List UInt8 :=
  let digit := base64Digits.getD (val &&& 0x3F).toNat 0
  if val >>> 6 = 0 then [digit] else outputDigits (val >>> 6) ++ [digit]
termination_by val.toNat
decreasing_by
  rename_i more
  have some : (val >>> 6).toNat ≠ 0 := fun zero => more (UInt64.toNat_inj.mp zero)
  rw [UInt64.toNat_shiftRight] at some ⊢
  change val.toNat >>> 6 ≠ 0 at some
  change val.toNat >>> 6 < val.toNat
  rw [Nat.shiftRight_eq_div_pow] at some ⊢
  omega

/-- `to_base64`: the characters stored, not including the end of the string. Their number is the
result. -/
def toBase64 (value : Int64) : List UInt8 :=
  if value < 0 then minus :: outputDigits (-value).toUInt64 else outputDigits value.toUInt64

/-- The loop of `from_base64`: the value and the number of digits. -/
def constructValue : List UInt8 → UInt64 → ℕ → Except Fault (UInt64 × ℕ)
  | [], _, _ => .error .readPastEnd
  | c :: rest, val, i =>
      if c ≠ 0 ∧ c ≠ space then constructValue rest ((val <<< 6) + base64Map c) (i + 1)
      else .ok (val, i)

/-- `from_base64`: the value and the number of characters. -/
def fromBase64 : List UInt8 → Except Fault (Int64 × ℕ)
  | [] => .error .readPastEnd
  | c :: rest =>
      if c = minus then do
        let (val, i) ← constructValue rest 0 1
        pure (-val.toInt64, i)
      else do
        let (val, i) ← constructValue (c :: rest) 0 0
        pure (val.toInt64, i)

/-- A digit is stored while there is room for it. -/
def putDigit (buflen : ℕ) (buf : List UInt8) (reg : UInt32) : List UInt8 :=
  if buf.length < buflen then buf ++ [base64Digits.getD (reg &&& 0x3F).toNat 0] else buf

/-- The loop of `bin_to_base64`: `reg` holds `rem` bits that are not stored yet. -/
def storeDigits (buflen : ℕ) (reg : UInt32) (rem : ℕ) (buf : List UInt8) :
    List UInt8 → UInt32 × ℕ × List UInt8
  | [] => (reg, rem, buf)
  | b :: bin =>
      if rem < 6 then
        let reg := (reg <<< 8) ||| b.toUInt32
        storeDigits buflen reg (rem + 8 - 6)
          (putDigit buflen buf (reg >>> UInt32.ofNat (rem + 8 - 6))) bin
      else storeDigits buflen reg (rem - 6) (putDigit buflen buf (reg >>> UInt32.ofNat (rem - 6)))
        (b :: bin)
  termination_by bin => (bin.length, rem)

/-- `bin_to_base64`, compatible with what the rest of the world uses. -/
def binToBase64 (buflen : ℕ) (bin : List UInt8) : List UInt8 :=
  let (reg, rem, buf) := storeDigits (buflen - 1) 0 0 [] bin
  if rem ≠ 0 then
    putDigit (buflen - 1) buf ((reg &&& ((1 <<< UInt32.ofNat rem) - 1)) <<< UInt32.ofNat (6 - rem))
  else buf

/-- `BASE64_SIZE`. -/
def base64Size (len : ℕ) : ℕ := (4 * len + 2) / 3 + 1

/-- The digit of a number below 64. -/
def base64Digit (n : ℕ) : UInt8 := base64Digits.getD n 0

/-- Three bytes are four digits, and the last digit is filled up with zeros. -/
def base64 : List UInt8 → List UInt8
  | [] => []
  | [a] => [base64Digit (a.toNat / 4), base64Digit (a.toNat % 4 * 16)]
  | [a, b] => [base64Digit (a.toNat / 4), base64Digit (a.toNat % 4 * 16 + b.toNat / 16),
      base64Digit (b.toNat % 16 * 4)]
  | a :: b :: c :: bin =>
      base64Digit (a.toNat / 4) :: base64Digit (a.toNat % 4 * 16 + b.toNat / 16) ::
        base64Digit (b.toNat % 16 * 4 + c.toNat / 64) :: base64Digit (c.toNat % 64) :: base64 bin

/-- Every digit stands for its number, and is neither a sign nor an end. -/
theorem digit_spec : ∀ i < 64, base64Map (base64Digits.getD i 0) = UInt64.ofNat i ∧
    base64Digits.getD i 0 ≠ 0 ∧ base64Digits.getD i 0 ≠ space ∧
      base64Digits.getD i 0 ≠ minus := by
  decide +kernel

theorem low_digit (val : UInt64) : (val &&& 0x3F).toNat < 64 := by
  rw [UInt64.toNat_and]
  exact lt_of_le_of_lt Nat.and_le_right (by decide)

theorem shift_add_low (val : UInt64) : ((val >>> 6) <<< 6) + (val &&& 0x3F) = val := by
  apply UInt64.toNat_inj.mp
  have low : (val &&& 0x3F).toNat = val.toNat % 64 := by
    rw [UInt64.toNat_and]
    exact Nat.and_two_pow_sub_one_eq_mod val.toNat 6
  have high : ((val >>> 6) <<< 6).toNat = val.toNat / 64 * 64 := by
    rw [UInt64.toNat_shiftLeft, UInt64.toNat_shiftRight]
    change (val.toNat >>> 6) <<< 6 % 2 ^ 64 = _
    have bound := val.toNat_lt
    rw [Nat.shiftRight_eq_div_pow, Nat.shiftLeft_eq]
    omega
  have bound := val.toNat_lt
  rw [UInt64.toNat_add, low, high]
  omega

/-- A character of a number in base 64. -/
def IsDigit (c : UInt8) : Prop := c ≠ 0 ∧ c ≠ space ∧ c ≠ minus

theorem outputDigits_isDigit (val : UInt64) : ∀ c ∈ outputDigits val, IsDigit c := by
  have last : IsDigit (base64Digits.getD (val &&& 0x3F).toNat 0) :=
    (digit_spec _ (low_digit val)).2
  fun_induction outputDigits val with
  | case1 val digit done =>
      intro c member
      rw [List.mem_singleton.mp member]
      exact last
  | case2 val digit more ih =>
      intro c member
      rcases List.mem_append.mp member with front | back
      · exact ih (digit_spec _ (low_digit _)).2 c front
      · rw [List.mem_singleton.mp back]
        exact last

theorem constructValue_append {digits : List UInt8} (isDigit : ∀ c ∈ digits, IsDigit c)
    (rest : List UInt8) (val : UInt64) (i : ℕ) :
    constructValue (digits ++ rest) val i =
      constructValue rest (digits.foldl (fun (val : UInt64) c => (val <<< 6) + base64Map c) val)
        (i + digits.length) := by
  induction digits generalizing val i with
  | nil => rfl
  | cons c digits ih =>
      obtain ⟨notEnd, notSpace, -⟩ := isDigit c List.mem_cons_self
      rw [List.cons_append, constructValue, if_pos ⟨notEnd, notSpace⟩,
        ih fun c member => isDigit c (List.mem_cons_of_mem _ member), List.length_cons,
        Nat.add_assoc, Nat.add_comm 1]
      rfl

theorem foldl_outputDigits (val : UInt64) :
    (outputDigits val).foldl (fun (val : UInt64) c => (val <<< 6) + base64Map c) 0 = val := by
  have last (val : UInt64) : base64Map (base64Digits.getD (val &&& 0x3F).toNat 0) =
      val &&& 0x3F := by
    rw [(digit_spec _ (low_digit val)).1]
    exact UInt64.ofNat_toNat
  fun_induction outputDigits val with
  | case1 val digit done =>
      have split := shift_add_low val
      rw [done] at split
      rw [List.foldl_cons, List.foldl_nil, last]
      exact split
  | case2 val digit more ih =>
      rw [List.foldl_append, ih, List.foldl_cons, List.foldl_nil, last]
      exact shift_add_low val

/-- The characters of a number are read up to the end of the number. -/
theorem fromBase64_toBase64 (value : Int64) {stop : UInt8} (stops : stop = 0 ∨ stop = space)
    (rest : List UInt8) :
    fromBase64 (toBase64 value ++ stop :: rest) = .ok (value, (toBase64 value).length) := by
  have ends (val : UInt64) (i : ℕ) : constructValue (stop :: rest) val i = .ok (val, i) := by
    rw [constructValue, if_neg]
    intro ⟨notEnd, notSpace⟩
    exact stops.elim notEnd notSpace
  have run (val : UInt64) (i : ℕ) : constructValue (outputDigits val ++ stop :: rest) 0 i =
      .ok (val, i + (outputDigits val).length) := by
    rw [constructValue_append (outputDigits_isDigit val), foldl_outputDigits, ends]
  unfold toBase64
  by_cases negative : value < 0
  · rw [if_pos negative, List.cons_append, fromBase64, if_pos rfl, run, List.length_cons,
      Nat.add_comm]
    simp
  · rw [if_neg negative]
    have read := run value.toUInt64 0
    have isDigit := outputDigits_isDigit value.toUInt64
    cases digits : outputDigits value.toUInt64 with
    | nil =>
        rw [outputDigits] at digits
        split at digits
        · cases digits
        · exact absurd digits (List.append_ne_nil_of_right_ne_nil _ (List.cons_ne_nil _ _))
    | cons c front =>
        rw [digits] at read isDigit
        have notMinus := (isDigit c List.mem_cons_self).2.2
        rw [List.cons_append] at read ⊢
        rw [fromBase64, if_neg notMinus, read]
        simp

/-! ## Binary data -/

/-- Another byte in the register. -/
theorem toNat_shift_or (reg : UInt32) (b : UInt8) :
    ((reg <<< 8) ||| b.toUInt32).toNat = reg.toNat % 2 ^ 24 * 256 + b.toNat := by
  have top := b.toNat_lt
  have shifted : (reg <<< 8).toNat = (reg.toNat % 2 ^ 24) <<< 8 := by
    rw [UInt32.toNat_shiftLeft]
    change reg.toNat <<< 8 % 2 ^ 32 = _
    rw [Nat.shiftLeft_eq, Nat.shiftLeft_eq]
    omega
  rw [UInt32.toNat_or, shifted, UInt8.toNat_toUInt32, ← Nat.shiftLeft_add_eq_or_of_lt (by omega),
    Nat.shiftLeft_eq]

/-- The six bits above the lowest `k`. -/
theorem toNat_bits (reg : UInt32) {k : ℕ} (small : k < 32) :
    ((reg >>> UInt32.ofNat k) &&& 0x3F).toNat = reg.toNat / 2 ^ k % 64 := by
  have count : (UInt32.ofNat k).toNat = k := UInt32.toNat_ofNat_of_lt' (lt_trans small (by decide))
  rw [UInt32.toNat_and, UInt32.toNat_shiftRight, count, Nat.mod_eq_of_lt small,
    Nat.shiftRight_eq_div_pow]
  exact Nat.and_two_pow_sub_one_eq_mod _ 6

theorem putDigit_room {n : ℕ} {buf : List UInt8} (room : buf.length < n) (reg : UInt32) {k : ℕ}
    (small : k < 32) :
    putDigit n buf (reg >>> UInt32.ofNat k) = buf ++ [base64Digit (reg.toNat / 2 ^ k % 64)] := by
  rw [putDigit, if_pos room, toNat_bits reg small, base64Digit]

/-- The bits that are left are stored last. -/
def putRest (n : ℕ) : UInt32 × ℕ × List UInt8 → List UInt8
  | (reg, rem, buf) =>
      if rem ≠ 0 then
        putDigit n buf ((reg &&& ((1 <<< UInt32.ofNat rem) - 1)) <<< UInt32.ofNat (6 - rem))
      else buf

theorem putRest_room {n : ℕ} {buf : List UInt8} (room : buf.length < n) (reg : UInt32) {rem : ℕ}
    (left : rem = 2 ∨ rem = 4 ∨ rem = 6) :
    putRest n (reg, rem, buf) = buf ++ [base64Digit (reg.toNat % 2 ^ rem * 2 ^ (6 - rem))] := by
  have shifted :
      ((((reg &&& ((1 <<< UInt32.ofNat rem) - 1)) <<< UInt32.ofNat (6 - rem))) &&& 0x3F).toNat =
      reg.toNat % 2 ^ rem * 2 ^ (6 - rem) := by
    have low (k : ℕ) : reg.toNat &&& (2 ^ k - 1) = reg.toNat % 2 ^ k :=
      Nat.and_two_pow_sub_one_eq_mod _ k
    have six (x : ℕ) : x &&& 63 = x % 64 := Nat.and_two_pow_sub_one_eq_mod x 6
    have two : reg.toNat &&& 3 = reg.toNat % 4 := low 2
    have four : reg.toNat &&& 15 = reg.toNat % 16 := low 4
    have all : reg.toNat &&& 63 = reg.toNat % 64 := low 6
    rcases left with rfl | rfl | rfl
    · change ((reg.toNat &&& 3) <<< 4 % 2 ^ 32) &&& 63 = _
      rw [two, six, Nat.shiftLeft_eq]
      omega
    · change ((reg.toNat &&& 15) <<< 2 % 2 ^ 32) &&& 63 = _
      rw [four, six, Nat.shiftLeft_eq]
      omega
    · change ((reg.toNat &&& 63) <<< 0 % 2 ^ 32) &&& 63 = _
      rw [all, six, Nat.shiftLeft_eq]
      omega
  have some : rem ≠ 0 := by omega
  rw [putRest, if_pos some, putDigit, if_pos room, shifted, base64Digit]

theorem storeDigits_byte (n : ℕ) {rem : ℕ} (short : rem < 6) (reg : UInt32) (buf : List UInt8)
    (b : UInt8) (bin : List UInt8) (room : buf.length < n) :
    ∃ next : UInt32, next.toNat = reg.toNat % 2 ^ 24 * 256 + b.toNat ∧
      storeDigits n reg rem buf (b :: bin) =
        storeDigits n next (rem + 2) (buf ++ [base64Digit (next.toNat / 2 ^ (rem + 2) % 64)]) bin := by
  refine ⟨_, toNat_shift_or reg b, ?_⟩
  rw [storeDigits, if_pos short]
  dsimp only
  rw [show rem + 8 - 6 = rem + 2 by omega, putDigit_room room _ (by omega)]

/-- With room for them, the digits are those of the data. -/
theorem putRest_storeDigits {n : ℕ} (bin : List UInt8) (reg : UInt32) (buf : List UInt8)
    (room : buf.length + (base64 bin).length ≤ n) :
    putRest n (storeDigits n reg 0 buf bin) = buf ++ base64 bin := by
  fun_induction base64 bin generalizing reg buf with
  | case1 =>
      rw [storeDigits, List.append_nil]
      rfl
  | case2 a =>
      have top := a.toNat_lt
      rw [List.length_cons, List.length_cons, List.length_nil] at room
      obtain ⟨next, value, step⟩ := storeDigits_byte n (show 0 < 6 by omega) reg buf a [] (by omega)
      rw [step, storeDigits,
        putRest_room (by rw [List.length_append, List.length_singleton]; omega) next (.inl rfl),
        show next.toNat / 2 ^ (0 + 2) % 64 = a.toNat / 4 by omega,
        show next.toNat % 2 ^ 2 * 2 ^ (6 - 2) = a.toNat % 4 * 16 by omega, List.append_assoc]
      rfl
  | case3 a b =>
      have top := a.toNat_lt
      have topb := b.toNat_lt
      rw [List.length_cons, List.length_cons, List.length_cons, List.length_nil] at room
      obtain ⟨first, value, step⟩ := storeDigits_byte n (show 0 < 6 by omega) reg buf a [b] (by omega)
      rw [step]
      obtain ⟨second, value', step'⟩ := storeDigits_byte n (show 0 + 2 < 6 by omega) first
        (buf ++ [base64Digit (first.toNat / 2 ^ (0 + 2) % 64)]) b []
        (by rw [List.length_append, List.length_singleton]; omega)
      rw [step', storeDigits, putRest_room
          (by
            rw [List.length_append, List.length_append, List.length_singleton, List.length_singleton]
            omega)
          second (.inr (.inl rfl)),
        show first.toNat / 2 ^ (0 + 2) % 64 = a.toNat / 4 by omega,
        show second.toNat / 2 ^ (0 + 2 + 2) % 64 = a.toNat % 4 * 16 + b.toNat / 16 by omega,
        show second.toNat % 2 ^ (0 + 2 + 2) * 2 ^ (6 - (0 + 2 + 2)) = b.toNat % 16 * 4 by omega,
        List.append_assoc, List.append_assoc]
      rfl
  | case4 a b c bin ih =>
      have top := a.toNat_lt
      have topb := b.toNat_lt
      have topc := c.toNat_lt
      rw [List.length_cons, List.length_cons, List.length_cons, List.length_cons] at room
      obtain ⟨first, value, step⟩ :=
        storeDigits_byte n (show 0 < 6 by omega) reg buf a (b :: c :: bin) (by omega)
      rw [step]
      obtain ⟨second, value', step'⟩ := storeDigits_byte n (show 0 + 2 < 6 by omega) first
        (buf ++ [base64Digit (first.toNat / 2 ^ (0 + 2) % 64)]) b (c :: bin)
        (by rw [List.length_append, List.length_singleton]; omega)
      rw [step']
      obtain ⟨third, value'', step''⟩ := storeDigits_byte n (show 0 + 2 + 2 < 6 by omega) second
        (buf ++ [base64Digit (first.toNat / 2 ^ (0 + 2) % 64)] ++
          [base64Digit (second.toNat / 2 ^ (0 + 2 + 2) % 64)])
        c bin (by
          rw [List.length_append, List.length_append, List.length_singleton, List.length_singleton]
          omega)
      rw [step'', show first.toNat / 2 ^ (0 + 2) % 64 = a.toNat / 4 by omega,
        show second.toNat / 2 ^ (0 + 2 + 2) % 64 = a.toNat % 4 * 16 + b.toNat / 16 by omega,
        show third.toNat / 2 ^ (0 + 2 + 2 + 2) % 64 = b.toNat % 16 * 4 + c.toNat / 64 by omega]
      generalize digits : buf ++ [base64Digit (a.toNat / 4)] ++
        [base64Digit (a.toNat % 4 * 16 + b.toNat / 16)] ++
        [base64Digit (b.toNat % 16 * 4 + c.toNat / 64)] = stored
      have length : stored.length = buf.length + 3 := by
        rw [← digits]
        simp only [List.length_append, List.length_singleton]
      have all (rest : List UInt8) : stored ++ base64Digit (c.toNat % 64) :: rest =
          buf ++ (base64Digit (a.toNat / 4) :: base64Digit (a.toNat % 4 * 16 + b.toNat / 16) ::
            base64Digit (b.toNat % 16 * 4 + c.toNat / 64) :: base64Digit (c.toNat % 64) :: rest) := by
        rw [← digits]
        simp only [List.append_assoc, List.cons_append, List.nil_append]
      cases bin with
      | nil =>
          rw [storeDigits, putRest_room (by omega) third (.inr (.inr rfl)),
            show third.toNat % 2 ^ (0 + 2 + 2 + 2) * 2 ^ (6 - (0 + 2 + 2 + 2)) = c.toNat % 64 by omega]
          exact all []
      | cons d bin =>
          rw [storeDigits, if_neg (by omega)]
          have last := putDigit_room (show stored.length < n by omega) third (show 0 < 32 by omega)
          rw [show third.toNat / 2 ^ 0 % 64 = c.toNat % 64 by omega] at last
          change putRest n
            (storeDigits n third 0 (putDigit n stored (third >>> UInt32.ofNat 0)) (d :: bin)) = _
          rw [last, ih third _ (by rw [List.length_append, List.length_singleton]; omega),
            List.append_assoc]
          exact all _

theorem base64_length (bin : List UInt8) : (base64 bin).length = (4 * bin.length + 2) / 3 := by
  fun_induction base64 bin with
  | case1 => rfl
  | case2 a =>
      simp only [List.length_cons, List.length_nil, Nat.reduceAdd, Nat.reduceMul, Nat.reduceDiv]
  | case3 a b =>
      simp only [List.length_cons, List.length_nil, Nat.reduceAdd, Nat.reduceMul, Nat.reduceDiv]
  | case4 a b c bin ih =>
      simp only [List.length_cons, ih]
      omega

theorem binToBase64_eq {buflen : ℕ} {bin : List UInt8} (room : (base64 bin).length < buflen) :
    binToBase64 buflen bin = base64 bin :=
  putRest_storeDigits bin 0 [] (by rw [List.length_nil]; omega)

end Bacula
