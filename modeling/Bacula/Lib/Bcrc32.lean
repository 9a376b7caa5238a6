import Bacula.Library.ShiftRegister
import Bacula.Lib.Crc32Lookup

/-! The checksum of the blocks, `lib/bcrc32.c`, on a machine that has the lowest byte first. -/
namespace Bacula.Bcrc32
open ShiftRegister

def Polynomial : UInt32 := 0xEDB88320

/-- The inner loop of `crc32_bitwise`, branch-free. -/
def bits : ℕ → UInt32 → UInt32
  | 0, crc => crc
  | n + 1, crc => bits n ((crc >>> 1) ^^^ (-(crc &&& 1) &&& Polynomial))

/-- `crc32_bitwise`. -/
def crc32Bitwise (data : List UInt8) (previousCrc32 : UInt32) : UInt32 :=
  ~~~data.foldl (fun crc current => bits 8 (crc ^^^ current.toUInt32)) (~~~previousCrc32)

def lookup (slice : ℕ) (i : UInt32) : UInt32 :=
  UInt32.ofNat ((Crc32Lookup.getD slice []).getD i.toNat 0)

/-- The standard algorithm, one byte. -/
def oneByte (crc : UInt32) (current : UInt8) : UInt32 :=
  (crc >>> 8) ^^^ lookup 0 ((crc &&& 0xFF) ^^^ current.toUInt32)

/-- The word at this place of the buffer. -/
def word (buf : List UInt8) (i : ℕ) : UInt32 :=
  (buf.getD i 0).toUInt32 ||| (buf.getD (i + 1) 0).toUInt32 <<< 8 |||
    (buf.getD (i + 2) 0).toUInt32 <<< 16 ||| (buf.getD (i + 3) 0).toUInt32 <<< 24

/-- Slicing-by-16: sixteen bytes at once. -/
def slicing (crc : UInt32) (buf : List UInt8) : UInt32 :=
  let one := word buf 0 ^^^ crc
  let two := word buf 4
  let three := word buf 8
  let four := word buf 12
  lookup 0 ((four >>> 24) &&& 0xFF) ^^^
    lookup 1 ((four >>> 16) &&& 0xFF) ^^^
    lookup 2 ((four >>> 8) &&& 0xFF) ^^^
    lookup 3 (four &&& 0xFF) ^^^
    lookup 4 ((three >>> 24) &&& 0xFF) ^^^
    lookup 5 ((three >>> 16) &&& 0xFF) ^^^
    lookup 6 ((three >>> 8) &&& 0xFF) ^^^
    lookup 7 (three &&& 0xFF) ^^^
    lookup 8 ((two >>> 24) &&& 0xFF) ^^^
    lookup 9 ((two >>> 16) &&& 0xFF) ^^^
    lookup 10 ((two >>> 8) &&& 0xFF) ^^^
    lookup 11 (two &&& 0xFF) ^^^
    lookup 12 ((one >>> 24) &&& 0xFF) ^^^
    lookup 13 ((one >>> 16) &&& 0xFF) ^^^
    lookup 14 ((one >>> 8) &&& 0xFF) ^^^
    lookup 15 (one &&& 0xFF)

def Unroll : ℕ := 4

def BytesAtOnce : ℕ := 16 * Unroll

def prefetchAhead : ℕ := 256

def unrolling : ℕ → UInt32 → List UInt8 → UInt32
  | 0, crc, _ => crc
  | n + 1, crc, buf => unrolling n (slicing crc buf) (buf.drop 16)

/-- The loops of `bcrc32`, with a bound on the rounds of the first one. -/
def rounds : ℕ → UInt32 → List UInt8 → UInt32
  | 0, crc, buf => buf.foldl oneByte crc
  | n + 1, crc, buf =>
      if BytesAtOnce + prefetchAhead ≤ buf.length then
        rounds n (unrolling Unroll crc buf) (buf.drop BytesAtOnce)
      else buf.foldl oneByte crc

/-- `bcrc32`. -/
def bcrc32 (buf : List UInt8) : UInt32 :=
  let previousCrc32 : UInt32 := 0
  ~~~rounds (buf.length / BytesAtOnce) (~~~previousCrc32) buf

/-! ## The tables -/

/-- One step of the register on numbers. -/
def shiftNat (c : ℕ) : ℕ := if c % 2 = 1 then (c / 2) ^^^ 0xEDB88320 else c / 2

/-- A row from the row before it. -/
def advance (row : List ℕ) : List ℕ := row.map fun c => shiftNat^[8] c

theorem Crc32Lookup_rows :
    Crc32Lookup = (List.range MaxSlice).map fun k => advance^[k + 1] (List.range 256) := by
  decide +kernel

abbrev poly : BitVec 32 := 0xEDB88320#32

theorem shift_toNat (c : BitVec 32) : (shift poly c).toNat = shiftNat c.toNat := by
  have low : c.getLsbD 0 = decide (c.toNat % 2 = 1) := by
    rw [BitVec.getLsbD, Nat.testBit_zero]
  unfold shift shiftNat
  rw [low]
  by_cases odd : c.toNat % 2 = 1
  · simp [odd, BitVec.toNat_xor, Nat.shiftRight_eq_div_pow]
  · simp [odd, Nat.shiftRight_eq_div_pow]

theorem shifts_toNat (n : ℕ) (c : BitVec 32) : (shifts poly n c).toNat = shiftNat^[n] c.toNat := by
  induction n with
  | zero => rfl
  | succ n ih => rw [shifts_succ, shift_toNat, ih, Function.iterate_succ_apply']

theorem advance_range (k : ℕ) : advance^[k] (List.range 256) =
    (List.range 256).map fun i => shiftNat^[8 * k] i := by
  induction k with
  | zero => simp
  | succ k ih =>
      rw [Function.iterate_succ_apply', ih, advance, List.map_map]
      refine List.map_congr_left fun i _ => ?_
      rw [Function.comp_apply, ← Function.iterate_add_apply, Nat.mul_succ, Nat.add_comm]

/-- An entry of the table is a byte that has gone through the register. -/
theorem lookup_toBitVec {slice : ℕ} (inside : slice < MaxSlice) {i : UInt32} (byte : i.toNat < 256) :
    (lookup slice i).toBitVec = shifts poly (8 * (slice + 1)) i.toBitVec := by
  have row : Crc32Lookup.getD slice [] = advance^[slice + 1] (List.range 256) := by
    rw [Crc32Lookup_rows]
    simp [List.getD, inside]
  have entry : (Crc32Lookup.getD slice []).getD i.toNat 0 =
      (shifts poly (8 * (slice + 1)) i.toBitVec).toNat := by
    rw [row, advance_range, shifts_toNat]
    simp [List.getD, byte]
  rw [lookup, entry]
  simp

/-! ## The register -/

theorem bits_toBitVec (n : ℕ) (crc : UInt32) : (bits n crc).toBitVec = shifts poly n crc.toBitVec := by
  induction n generalizing crc with
  | zero => rfl
  | succ n ih =>
      have step : ((crc >>> 1) ^^^ (-(crc &&& 1) &&& Polynomial)).toBitVec =
          shift poly crc.toBitVec := by
        have low : (crc &&& 1).toBitVec =
            BitVec.setWidth 32 (BitVec.ofBool (crc.toBitVec.getLsbD 0)) := by
          rw [UInt32.toBitVec_and]
          exact BitVec.and_one_eq_setWidth_ofBool_getLsbD
        unfold shift
        cases bit : crc.toBitVec.getLsbD 0 with
        | false =>
            rw [bit] at low
            have none : crc &&& 1 = 0 := UInt32.toBitVec_inj.mp low
            simp [none]
        | true =>
            rw [bit] at low
            have one : crc &&& 1 = 1 := UInt32.toBitVec_inj.mp low
            simp [one, Polynomial]
      rw [bits, ih, step, shifts, shifts, Function.iterate_succ_apply]

/-- The bytes of a buffer as symbols. -/
def symbols (data : List UInt8) : List (BitVec 8) := data.map UInt8.toBitVec

@[simp] theorem symbols_length (data : List UInt8) : (symbols data).length = data.length :=
  List.length_map _

@[simp] theorem symbols_cons (b : UInt8) (data : List UInt8) :
    symbols (b :: data) = b.toBitVec :: symbols data := rfl

@[simp] theorem symbols_append (data more : List UInt8) :
    symbols (data ++ more) = symbols data ++ symbols more := List.map_append

theorem symbols_injective : Function.Injective symbols :=
  List.map_injective_iff.mpr fun _ _ => UInt8.toBitVec_inj.mp

/-- What all the algorithms compute. -/
theorem bitwise_foldl (data : List UInt8) (crc : UInt32) :
    (data.foldl (fun crc current => bits 8 (crc ^^^ current.toUInt32)) crc).toBitVec =
      (symbols data).foldl (feed poly) crc.toBitVec := by
  induction data generalizing crc with
  | nil => rfl
  | cons b data ih =>
      rw [List.foldl_cons, ih, symbols_cons, List.foldl_cons, bits_toBitVec,
        UInt32.toBitVec_xor, feed]
      rfl

theorem low_byte (x : UInt32) : (x &&& 0xFF).toNat < 256 := by
  have byte : (0xFF : UInt32).toNat < 2 ^ 8 := by decide
  rw [UInt32.toNat_and]
  exact Nat.and_lt_two_pow _ byte

theorem and_byte (x : BitVec 32) (i : ℕ) :
    (x &&& 0xFF#32).getLsbD i = (decide (i < 8) && x.getLsbD i) := by
  rw [BitVec.getLsbD_and, Bool.and_comm]
  congr 1
  have all : (0xFF#32 : BitVec 32).getLsbD i = (2 ^ 8 - 1).testBit i := rfl
  rw [all, Nat.testBit_two_pow_sub_one]

theorem oneByte_toBitVec (crc : UInt32) (b : UInt8) :
    (oneByte crc b).toBitVec = feed poly crc.toBitVec b.toBitVec := by
  have narrow : ((crc &&& 0xFF) ^^^ b.toUInt32).toNat < 256 := by
    rw [UInt32.toNat_xor]
    exact Nat.xor_lt_two_pow (n := 8) (low_byte crc) (by simpa using b.toNat_lt)
  have apart : crc.toBitVec ^^^ b.toBitVec.setWidth 32 =
      (crc.toBitVec &&& ~~~0xFF#32) ^^^ ((crc.toBitVec &&& 0xFF#32) ^^^ b.toBitVec.setWidth 32) := by
    rw [← BitVec.xor_assoc]
    congr 1
    apply BitVec.eq_of_getLsbD_eq
    intro i below
    simp only [BitVec.getLsbD_xor, BitVec.getLsbD_and, BitVec.getLsbD_not, below, decide_true,
      Bool.true_and]
    cases crc.toBitVec.getLsbD i <;> cases (0xFF#32).getLsbD i <;> rfl
  have clear : ∀ i < 8, (crc.toBitVec &&& ~~~0xFF#32).getLsbD i = false := by
    intro i below
    have low := and_byte (BitVec.allOnes 32) i
    simp only [BitVec.getLsbD_and, BitVec.getLsbD_not, below, decide_true, Bool.true_and,
      BitVec.getLsbD_allOnes, show i < 32 by omega] at low ⊢
    simp [low]
  have moved : (crc.toBitVec &&& ~~~0xFF#32) >>> 8 = crc.toBitVec >>> 8 := by
    apply BitVec.eq_of_getLsbD_eq
    intro i below
    have high := and_byte (BitVec.allOnes 32) (8 + i)
    simp only [BitVec.getLsbD_ushiftRight, BitVec.getLsbD_and, BitVec.getLsbD_not,
      BitVec.getLsbD_allOnes] at high ⊢
    by_cases inside : 8 + i < 32
    · simp_all
    · simp [inside, BitVec.getLsbD_of_ge crc.toBitVec (8 + i) (by omega)]
  rw [oneByte, UInt32.toBitVec_xor, lookup_toBitVec (by decide) narrow, feed, apart,
    shifts_xor poly, shifts_clear poly _ 8 clear, moved]
  rfl

/-! ## Slicing -/

theorem word_of_bytes (b₀ b₁ b₂ b₃ : BitVec 8) :
    b₀.setWidth 32 ||| b₁.setWidth 32 <<< 8 ||| b₂.setWidth 32 <<< 16 ||| b₃.setWidth 32 <<< 24 =
      join [b₀, b₁, b₂, b₃] := by
  apply BitVec.eq_of_getLsbD_eq
  intro i below
  have outside (b : BitVec 8) (j : ℕ) (above : 8 ≤ j) : b.getLsbD j = false :=
    BitVec.getLsbD_of_ge b j above
  simp only [join, BitVec.getLsbD_or, BitVec.getLsbD_xor, BitVec.getLsbD_shiftLeft,
    BitVec.getLsbD_setWidth, BitVec.getLsbD_zero]
  rcases Nat.lt_or_ge i 8 with first | first
  · simp [first, show i < 16 by omega, show i < 24 by omega]
  · rw [outside b₀ i first]
    rcases Nat.lt_or_ge i 16 with second | second
    · simp [below, show ¬i < 8 by omega, second, show i - 8 < 8 by omega, show i < 24 by omega]
    · rw [outside b₁ (i - 8) (by omega)]
      rcases Nat.lt_or_ge i 24 with third | third
      · simp [below, show ¬i < 8 by omega, show ¬i < 16 by omega, third, show ¬i - 8 < 8 by omega,
          show i - 8 - 8 = i - 16 by omega, show i - 16 < 8 by omega, show i - 8 < 32 by omega]
      · rw [outside b₂ (i - 16) (by omega), show i - 8 - 8 = i - 16 by omega,
          outside b₂ (i - 16) (by omega), show i - 16 - 8 = i - 24 by omega]
        simp [below, show ¬i < 8 by omega, show ¬i < 16 by omega, show ¬i < 24 by omega,
          show ¬i - 8 < 8 by omega, show ¬i - 16 < 8 by omega, show i - 8 < 32 by omega,
          show i - 16 < 32 by omega]

theorem take_four (buf : List UInt8) (i : ℕ) (inside : i + 4 ≤ buf.length) :
    (buf.drop i).take 4 =
      [buf.getD i 0, buf.getD (i + 1) 0, buf.getD (i + 2) 0, buf.getD (i + 3) 0] := by
  rw [List.getD_eq_getElem buf 0 (show i < buf.length by omega),
    List.getD_eq_getElem buf 0 (show i + 1 < buf.length by omega),
    List.getD_eq_getElem buf 0 (show i + 2 < buf.length by omega),
    List.getD_eq_getElem buf 0 (show i + 3 < buf.length by omega),
    List.drop_eq_getElem_cons (show i < buf.length by omega),
    List.drop_eq_getElem_cons (show i + 1 < buf.length by omega),
    List.drop_eq_getElem_cons (show i + 2 < buf.length by omega),
    List.drop_eq_getElem_cons (show i + 3 < buf.length by omega)]
  rfl

theorem word_toBitVec (buf : List UInt8) (i : ℕ) (inside : i + 4 ≤ buf.length) :
    (word buf i).toBitVec = join (symbols ((buf.drop i).take 4)) := by
  rw [take_four buf i inside]
  exact word_of_bytes _ _ _ _

/-- Four bytes of a word go through the register at their own distance. -/
theorem word_lookup (x : UInt32) (k : ℕ) (inside : k + 3 < MaxSlice) :
    (lookup k ((x >>> 24) &&& 0xFF)).toBitVec ^^^ (lookup (k + 1) ((x >>> 16) &&& 0xFF)).toBitVec ^^^
        (lookup (k + 2) ((x >>> 8) &&& 0xFF)).toBitVec ^^^ (lookup (k + 3) (x &&& 0xFF)).toBitVec =
      shifts poly (8 * (k + 4)) x.toBitVec := by
  have high (c : BitVec 32) (i j : ℕ) (above : 32 ≤ i + j) (room : j ≤ 24) :
      (c &&& 0xFF#32).getLsbD i = false := by
    rw [and_byte, decide_eq_false (by omega), Bool.false_and]
  have apart : x.toBitVec = ((x.toBitVec >>> 24) &&& 0xFF#32) <<< 24 ^^^
      ((x.toBitVec >>> 16) &&& 0xFF#32) <<< 16 ^^^ ((x.toBitVec >>> 8) &&& 0xFF#32) <<< 8 ^^^
        (x.toBitVec &&& 0xFF#32) := by
    apply BitVec.eq_of_getLsbD_eq
    intro i below
    simp only [BitVec.getLsbD_xor, BitVec.getLsbD_shiftLeft, and_byte, BitVec.getLsbD_ushiftRight]
    rcases Nat.lt_or_ge i 8 with first | first
    · simp [first, show i < 16 by omega, show i < 24 by omega]
    · rcases Nat.lt_or_ge i 16 with second | second
      · simp [below, show ¬i < 8 by omega, second, show i < 24 by omega, show i - 8 < 8 by omega,
          show 8 + (i - 8) = i by omega]
      · rcases Nat.lt_or_ge i 24 with third | third
        · simp [below, show ¬i < 8 by omega, show ¬i < 16 by omega, third, show ¬i - 8 < 8 by omega,
            show i - 16 < 8 by omega, show 16 + (i - 16) = i by omega]
        · simp [below, show ¬i < 8 by omega, show ¬i < 16 by omega, show ¬i < 24 by omega,
            show ¬i - 8 < 8 by omega, show ¬i - 16 < 8 by omega, show i - 24 < 8 by omega,
            show 24 + (i - 24) = i by omega]
  have moved (c : BitVec 32) (n j : ℕ) (room : j ≤ 24) :
      shifts poly (n + j) ((c &&& 0xFF#32) <<< j) = shifts poly n (c &&& 0xFF#32) := by
    rw [shifts_add, shifts_shiftLeft poly _ j fun i above => high c i j above room]
  rw [lookup_toBitVec (by omega) (low_byte _), lookup_toBitVec (by omega) (low_byte _),
    lookup_toBitVec (by omega) (low_byte _), lookup_toBitVec (by omega) (low_byte _)]
  conv_rhs => rw [apart]
  rw [shifts_xor, shifts_xor, shifts_xor]
  have first := moved (x.toBitVec >>> 24) (8 * (k + 1)) 24 (by omega)
  have second := moved (x.toBitVec >>> 16) (8 * (k + 2)) 16 (by omega)
  have third := moved (x.toBitVec >>> 8) (8 * (k + 3)) 8 (by omega)
  rw [show 8 * (k + 4) = 8 * (k + 1) + 24 by omega, first,
    show 8 * (k + 1) + 24 = 8 * (k + 2) + 16 by omega, second,
    show 8 * (k + 2) + 16 = 8 * (k + 3) + 8 by omega, third]
  rfl

theorem foldl_four (buf : List UInt8) (i : ℕ) (inside : i + 4 ≤ buf.length) (c : BitVec 32) :
    (symbols ((buf.drop i).take 4)).foldl (feed poly) c =
      shifts poly 32 (c ^^^ (word buf i).toBitVec) := by
  have length : ((buf.drop i).take 4).length = 4 := by simp; omega
  rw [foldl_feed poly _ (by rw [symbols_length, length]), symbols_length, length,
    word_toBitVec buf i inside]

theorem take_more (buf : List UInt8) (i n : ℕ) :
    (buf.drop i).take (4 + n) = (buf.drop i).take 4 ++ (buf.drop (i + 4)).take n := by
  rw [List.take_add, List.drop_drop]

/-- The sixteen look-ups are the same as sixteen bytes one after the other. -/
theorem slicing_toBitVec (crc : UInt32) (buf : List UInt8) (inside : 16 ≤ buf.length) :
    (slicing crc buf).toBitVec = (symbols (buf.take 16)).foldl (feed poly) crc.toBitVec := by
  have parts : buf.take 16 = (buf.drop 0).take 4 ++ ((buf.drop 4).take 4 ++
      ((buf.drop 8).take 4 ++ (buf.drop 12).take 4)) := by
    rw [← take_more buf 8 4, ← take_more buf 4 8, ← take_more buf 0 12, List.drop_zero]
  have one : _ = shifts poly 128 (word buf 0 ^^^ crc).toBitVec := word_lookup _ 12 (by decide)
  have two : _ = shifts poly 96 (word buf 4).toBitVec := word_lookup _ 8 (by decide)
  have three : _ = shifts poly 64 (word buf 8).toBitVec := word_lookup _ 4 (by decide)
  have four : _ = shifts poly 32 (word buf 12).toBitVec := word_lookup _ 0 (by decide)
  have front : crc.toBitVec ^^^ (word buf 0).toBitVec = (word buf 0 ^^^ crc).toBitVec :=
    BitVec.xor_comm _ _
  rw [parts, symbols_append, symbols_append, symbols_append, List.foldl_append, List.foldl_append,
    List.foldl_append, foldl_four buf 0 (by omega), foldl_four buf 4 (by omega),
    foldl_four buf 8 (by omega), foldl_four buf 12 (by omega), front]
  simp only [shifts_xor poly 32, ← shifts_add, Nat.reduceAdd]
  rw [← one, ← two, ← three, ← four]
  simp only [slicing, UInt32.toBitVec_xor, Nat.reduceAdd]
  ac_rfl

theorem unrolling_toBitVec (n : ℕ) (crc : UInt32) (buf : List UInt8)
    (inside : 16 * n ≤ buf.length) : (unrolling n crc buf).toBitVec =
      (symbols (buf.take (16 * n))).foldl (feed poly) crc.toBitVec := by
  induction n generalizing crc buf with
  | zero => rfl
  | succ n ih =>
      have parts : buf.take (16 * (n + 1)) = buf.take 16 ++ (buf.drop 16).take (16 * n) := by
        rw [← List.take_add, Nat.mul_succ, Nat.add_comm]
      rw [unrolling, ih _ _ (by rw [List.length_drop]; omega), slicing_toBitVec crc buf (by omega),
        parts, symbols_append, List.foldl_append]

theorem oneByte_foldl (buf : List UInt8) (crc : UInt32) :
    (buf.foldl oneByte crc).toBitVec = (symbols buf).foldl (feed poly) crc.toBitVec := by
  induction buf generalizing crc with
  | nil => rfl
  | cons b buf ih => rw [List.foldl_cons, ih, oneByte_toBitVec, symbols_cons, List.foldl_cons]

theorem rounds_toBitVec (n : ℕ) (crc : UInt32) (buf : List UInt8) :
    (rounds n crc buf).toBitVec = (symbols buf).foldl (feed poly) crc.toBitVec := by
  induction n generalizing crc buf with
  | zero => exact oneByte_foldl buf crc
  | succ n ih =>
      rw [rounds]
      split
      · next enough =>
          have room : BytesAtOnce ≤ buf.length := by omega
          rw [ih, unrolling_toBitVec Unroll crc buf room, ← List.foldl_append, ← symbols_append]
          exact congrArg (fun data => (symbols data).foldl (feed poly) crc.toBitVec)
            (List.take_append_drop BytesAtOnce buf)
      · exact oneByte_foldl buf crc

theorem bcrc32_toBitVec (buf : List UInt8) :
    (bcrc32 buf).toBitVec = ~~~(symbols buf).foldl (feed poly) (BitVec.allOnes 32) := by
  rw [bcrc32, UInt32.toBitVec_not, rounds_toBitVec]
  rfl

/-- The fast algorithm computes the bitwise checksum. -/
theorem bcrc32_eq_bitwise (buf : List UInt8) : bcrc32 buf = crc32Bitwise buf 0 := by
  apply UInt32.toBitVec_inj.mp
  rw [bcrc32_toBitVec, crc32Bitwise, UInt32.toBitVec_not, bitwise_foldl]
  rfl

example : bcrc32 [0x31, 0x32, 0x33, 0x34, 0x35, 0x36, 0x37, 0x38, 0x39] = 0xCBF43926 := by
  decide +kernel

/-- A change within four bytes changes the checksum. -/
theorem bcrc32_burst {front burst burst' behind : List UInt8}
    (length : burst.length = burst'.length) (short : burst.length ≤ 4)
    (same : bcrc32 (front ++ (burst ++ behind)) = bcrc32 (front ++ (burst' ++ behind))) :
    burst = burst' := by
  have registers := congrArg UInt32.toBitVec same
  rw [bcrc32_toBitVec, bcrc32_toBitVec] at registers
  have states := BitVec.not_inj.mp registers
  simp only [symbols_append] at states
  apply symbols_injective
  exact burst_seen poly (by decide) _ _ _ _ (by simpa using length) (by simp; omega) _ states

end Bacula.Bcrc32
