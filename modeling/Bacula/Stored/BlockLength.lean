import Mathlib

/-! How many bytes of a block are written, `get_len_and_clear_block` of `stored/block_util.c`. -/
namespace Bacula.BlockLength

def MAX_BLOCK_LENGTH : UInt32 := 20000000

def DEFAULT_BLOCK_SIZE : UInt32 := 512 * 126

def TAPE_BSIZE : UInt32 := 1024

/-- The sizes of a device resource. -/
structure DevRes where
  minBlockSize : UInt32
  maxBlockSize : UInt32
  maxVolumeSize : UInt64
  paddingSize : UInt32
  isTape : Bool

structure Device where
  minBlockSize : UInt32
  maxBlockSize : UInt32
  paddingSize : UInt32
  isTape : Bool

/-- The sanity checks of `device_generic_init`; none after an error that ends the program. A size
that is not a multiple of `TAPE_BSIZE` is a warning. -/
def deviceGenericInit (device : DevRes) : Option Device :=
  let maxBs := if device.maxBlockSize = 0 then DEFAULT_BLOCK_SIZE else device.maxBlockSize
  -- Min block size > max
  if device.minBlockSize > maxBs then none
  else
    -- Block size too large, using default
    let maxBlockSize :=
      if device.maxBlockSize > MAX_BLOCK_LENGTH then DEFAULT_BLOCK_SIZE else device.maxBlockSize
    -- Max Vol Size < 8 * Max Block Size
    if device.maxVolumeSize ≠ 0 ∧ device.maxVolumeSize < (maxBlockSize <<< 4).toUInt64 then none
    else some {
      minBlockSize := device.minBlockSize
      maxBlockSize
      paddingSize := device.paddingSize
      isTape := device.isTape }

/-- The `buf_len` of `new_block`. -/
def newBlock (dev : Device) (size : UInt32) : UInt32 :=
  let len := if dev.maxBlockSize = 0 then DEFAULT_BLOCK_SIZE else dev.maxBlockSize
  if size ≠ 0 then size else len

/-- A block that is filled up to `binbuf`. -/
structure DevBlock where
  bufLen : UInt32
  buf : List UInt8
  whole : buf.length = bufLen.toNat
  binbuf : UInt32
  adata : Bool

/-- To the next multiple, as the expression is written. -/
def roundUp (n unit : UInt32) : UInt32 := (n + unit - 1) / unit * unit

/-- The number of bytes to write, the padding, and the buffer with the bytes that are cleared. -/
structure Written where
  wlen : UInt32
  pad : UInt32
  buf : List UInt8

/-- `get_len_and_clear_block`: none when the assertion fails or bytes outside the buffer are
cleared. -/
def getLenAndClearBlock (block : DevBlock) (dev : Device) : Option Written :=
  let wlen := block.binbuf
  if wlen ≠ block.bufLen then
    -- Adjust write size to min/max for tapes and aligned only
    let wlen :=
      if dev.isTape ∨ block.adata then
        if dev.minBlockSize = dev.maxBlockSize then block.bufLen
        else if wlen < dev.minBlockSize then roundUp dev.minBlockSize TAPE_BSIZE
        else roundUp wlen TAPE_BSIZE
      else wlen
    let wlen := if block.adata ∧ dev.paddingSize > 0 then roundUp wlen dev.paddingSize else wlen
    if wlen > block.bufLen then none
    else
      let pad := wlen - block.binbuf
      if block.binbuf.toNat + pad.toNat > block.bufLen.toNat then none
      else some {
        wlen, pad
        buf := block.buf.take block.binbuf.toNat ++ List.replicate pad.toNat 0 ++
          block.buf.drop (block.binbuf.toNat + pad.toNat) }
  else some { wlen, pad := 0, buf := block.buf }

/-- The largest multiple of `unit` up to `n`. -/
def floorTo (unit n : ℕ) : ℕ := n / unit * unit

/-- How much of the buffer can be filled: whole paddings, and of these whole units of the device. -/
def room (block : DevBlock) (dev : Device) : ℕ :=
  floorTo TAPE_BSIZE.toNat
    (if block.adata ∧ dev.paddingSize > 0 then floorTo dev.paddingSize.toNat block.bufLen.toNat
    else block.bufLen.toNat)

/-- Rounding to a multiple wraps around. -/
def Wraps (block : DevBlock) (dev : Device) : Prop :=
  (dev.minBlockSize ≠ dev.maxBlockSize ∧ 2 ^ 32 < dev.minBlockSize.toNat + TAPE_BSIZE.toNat) ∨
    (block.adata = true ∧ 2 ^ 32 < dev.paddingSize.toNat +
      if dev.minBlockSize = dev.maxBlockSize then block.bufLen.toNat
      else (roundUp dev.minBlockSize TAPE_BSIZE).toNat)

/-- A full block; or one that is not adjusted; or a fixed size of whole paddings; or room for the
data and for the smallest block; or nothing in the block, and a length that wraps around to 0. -/
def HasRoom (block : DevBlock) (dev : Device) : Prop :=
  block.binbuf = block.bufLen ∨ ¬ (dev.isTape ∨ block.adata) ∨
    (dev.minBlockSize = dev.maxBlockSize ∧
      (block.adata ∧ dev.paddingSize > 0 → dev.paddingSize.toNat ∣ block.bufLen.toNat)) ∨
    (dev.minBlockSize ≠ dev.maxBlockSize ∧ block.binbuf.toNat ≤ room block dev ∧
      dev.minBlockSize.toNat ≤ room block dev) ∨
    (block.binbuf = 0 ∧ Wraps block dev)

/-- The length that is written covers the data and stays inside the buffer. -/
def Covers (block : DevBlock) (dev : Device) : Prop :=
  ∃ w, getLenAndClearBlock block dev = some w ∧ block.binbuf ≤ w.wlen ∧ w.wlen ≤ block.bufLen

/-! ## Rounding -/

theorem le_floorTo_iff {unit : ℕ} (positive : 0 < unit) (n limit : ℕ) :
    (n + unit - 1) / unit * unit ≤ limit ↔ n ≤ floorTo unit limit := by
  have up := Nat.div_add_mod (n + unit - 1) unit
  have low := Nat.mod_lt (n + unit - 1) positive
  have down := Nat.div_add_mod limit unit
  have rest := Nat.mod_lt limit positive
  unfold floorTo
  rw [mul_comm] at up down
  constructor
  · intro fits
    have fewer := Nat.mul_le_mul_right unit ((Nat.le_div_iff_mul_le positive).mpr fits)
    omega
  · intro fits
    have fewer : (n + unit - 1) / unit ≤ limit / unit := by
      rw [← Nat.lt_succ_iff, Nat.div_lt_iff_lt_mul positive, Nat.succ_mul]
      omega
    have smaller := Nat.mul_le_mul_right unit fewer
    omega

theorem floorTo_le (unit n : ℕ) : floorTo unit n ≤ n := Nat.div_mul_le_self n unit

theorem le_floorTo_self_iff {unit : ℕ} (n : ℕ) : n ≤ floorTo unit n ↔ unit ∣ n := by
  constructor
  · intro le
    exact Dvd.intro_left _ (le_antisymm (floorTo_le unit n) le)
  · intro divides
    exact (Nat.div_mul_cancel divides).ge

theorem toNat_sum (n unit : UInt32) (positive : 0 < unit.toNat) :
    (n + unit - 1).toNat = (n.toNat + unit.toNat - 1) % 2 ^ 32 := by
  have one : (1 : UInt32).toNat = 1 := rfl
  have bound := n.toNat_lt
  have bound' := unit.toNat_lt
  rw [UInt32.toNat_sub, UInt32.toNat_add, one]
  omega

theorem roundUp_toNat {n unit : UInt32} (positive : 0 < unit.toNat)
    (fits : n.toNat + unit.toNat ≤ 2 ^ 32) :
    (roundUp n unit).toNat = (n.toNat + unit.toNat - 1) / unit.toNat * unit.toNat := by
  have small : (n.toNat + unit.toNat - 1) % 2 ^ 32 = n.toNat + unit.toNat - 1 :=
    Nat.mod_eq_of_lt (by omega)
  have le := Nat.div_mul_le_self (n.toNat + unit.toNat - 1) unit.toNat
  rw [roundUp, UInt32.toNat_mul, UInt32.toNat_div, toNat_sum n unit positive, small,
    Nat.mod_eq_of_lt (by omega)]

theorem roundUp_wraps {n unit : UInt32} (wraps : 2 ^ 32 < n.toNat + unit.toNat) :
    roundUp n unit = 0 := by
  have bound := n.toNat_lt
  have small : (n.toNat + unit.toNat - 1) % 2 ^ 32 / unit.toNat = 0 :=
    Nat.div_eq_of_lt (by omega)
  apply UInt32.toNat_inj.mp
  rw [roundUp, UInt32.toNat_mul, UInt32.toNat_div, toNat_sum n unit (by omega), small, Nat.zero_mul]
  rfl

theorem le_roundUp {n unit : UInt32} (positive : 0 < unit.toNat)
    (fits : n.toNat + unit.toNat ≤ 2 ^ 32) : n.toNat ≤ (roundUp n unit).toNat := by
  rw [roundUp_toNat positive fits]
  exact (le_floorTo_iff positive _ _).mp le_rfl |>.trans (floorTo_le _ _)

theorem roundUp_le_iff {n unit : UInt32} (positive : 0 < unit.toNat)
    (fits : n.toNat + unit.toNat ≤ 2 ^ 32) (limit : ℕ) :
    (roundUp n unit).toNat ≤ limit ↔ n.toNat ≤ floorTo unit.toNat limit := by
  rw [roundUp_toNat positive fits]
  exact le_floorTo_iff positive _ _

/-! ## The length that is written -/

/-- The size of the smallest block or of the data, in units of the device. -/
def unitLength (block : DevBlock) (dev : Device) : UInt32 :=
  if dev.isTape ∨ block.adata then
    if dev.minBlockSize = dev.maxBlockSize then block.bufLen
    else if block.binbuf < dev.minBlockSize then roundUp dev.minBlockSize TAPE_BSIZE
    else roundUp block.binbuf TAPE_BSIZE
  else block.binbuf

def paddedLength (block : DevBlock) (dev : Device) : UInt32 :=
  if block.adata ∧ dev.paddingSize > 0 then roundUp (unitLength block dev) dev.paddingSize
  else unitLength block dev

variable {block : DevBlock} {dev : Device}

theorem covers_full (full : block.binbuf = block.bufLen) : Covers block dev :=
  ⟨_, by rw [getLenAndClearBlock, if_neg (not_not.mpr full)], UInt32.le_refl _,
    by rw [full]; exact UInt32.le_refl _⟩

theorem covers_iff (partly : block.binbuf ≠ block.bufLen) :
    Covers block dev ↔ block.binbuf.toNat ≤ (paddedLength block dev).toNat ∧
      (paddedLength block dev).toNat ≤ block.bufLen.toNat := by
  have result : getLenAndClearBlock block dev =
      if paddedLength block dev > block.bufLen then none
      else if block.binbuf.toNat + (paddedLength block dev - block.binbuf).toNat > block.bufLen.toNat then
        none
      else some ⟨paddedLength block dev, paddedLength block dev - block.binbuf,
        block.buf.take block.binbuf.toNat ++
          List.replicate (paddedLength block dev - block.binbuf).toNat 0 ++
          block.buf.drop (block.binbuf.toNat + (paddedLength block dev - block.binbuf).toNat)⟩ := by
    rw [getLenAndClearBlock, if_pos partly]
    rfl
  rw [Covers, result]
  generalize paddedLength block dev = wlen
  have bound := block.bufLen.toNat_lt
  have bound' := wlen.toNat_lt
  constructor
  · rintro ⟨w, eq, above, below⟩
    split at eq
    · cases eq
    split at eq
    · cases eq
    cases eq
    exact ⟨above, below⟩
  · rintro ⟨above, below⟩
    have pad : (wlen - block.binbuf).toNat = wlen.toNat - block.binbuf.toNat :=
      UInt32.toNat_sub_of_le wlen block.binbuf above
    have notAbove : ¬ wlen > block.bufLen := UInt32.not_lt.mpr below
    rw [if_neg notAbove, if_neg (by omega)]
    exact ⟨_, rfl, above, below⟩

/-- Only the sizes that are not fixed depend on the rounding to the unit of the device. -/
theorem unitLength_spec (adjusted : dev.isTape ∨ block.adata)
    (variableSize : dev.minBlockSize ≠ dev.maxBlockSize)
    (small : block.bufLen.toNat ≤ 20000000) (partly : block.binbuf.toNat ≤ block.bufLen.toNat) :
    (2 ^ 32 < dev.minBlockSize.toNat + TAPE_BSIZE.toNat ∧ unitLength block dev = 0) ∨
      (dev.minBlockSize.toNat + TAPE_BSIZE.toNat ≤ 2 ^ 32 ∧
        block.binbuf.toNat ≤ (unitLength block dev).toNat ∧
        (block.binbuf = 0 → unitLength block dev = roundUp dev.minBlockSize TAPE_BSIZE) ∧
        ∀ limit, (unitLength block dev).toNat ≤ limit ↔
          block.binbuf.toNat ≤ floorTo TAPE_BSIZE.toNat limit ∧
            dev.minBlockSize.toNat ≤ floorTo TAPE_BSIZE.toNat limit) := by
  have unit : TAPE_BSIZE.toNat = 1024 := rfl
  have positive : 0 < TAPE_BSIZE.toNat := by decide
  rw [unitLength, if_pos adjusted, if_neg variableSize]
  by_cases wraps : 2 ^ 32 < dev.minBlockSize.toNat + TAPE_BSIZE.toNat
  · have below : block.binbuf < dev.minBlockSize := by
      rw [UInt32.lt_iff_toNat_lt]
      omega
    left
    rw [if_pos below]
    exact ⟨wraps, roundUp_wraps wraps⟩
  · right
    have fits := not_lt.mp wraps
    refine ⟨fits, ?_⟩
    by_cases below : block.binbuf < dev.minBlockSize
    · have less : block.binbuf.toNat < dev.minBlockSize.toNat := below
      rw [if_pos below]
      refine ⟨less.le.trans (le_roundUp positive fits), fun _ => rfl, fun limit => ?_⟩
      rw [roundUp_le_iff positive fits]
      exact ⟨fun min => ⟨less.le.trans min, min⟩, And.right⟩
    · have less : dev.minBlockSize.toNat ≤ block.binbuf.toNat := not_lt.mp below
      have room : block.binbuf.toNat + TAPE_BSIZE.toNat ≤ 2 ^ 32 := by omega
      rw [if_neg below]
      refine ⟨le_roundUp positive room, fun none => ?_, fun limit => ?_⟩
      · have zero : dev.minBlockSize = 0 := by
          apply UInt32.toNat_inj.mp
          rw [none] at less
          exact Nat.le_zero.mp less
        rw [none, zero]
      · rw [roundUp_le_iff positive room]
        exact ⟨fun data => ⟨data, less.trans data⟩, And.left⟩

/-- Rounding to whole paddings. -/
theorem paddedLength_spec (padded : block.adata ∧ dev.paddingSize > 0) :
    (2 ^ 32 < (unitLength block dev).toNat + dev.paddingSize.toNat ∧ paddedLength block dev = 0) ∨
      ((unitLength block dev).toNat + dev.paddingSize.toNat ≤ 2 ^ 32 ∧
        (unitLength block dev).toNat ≤ (paddedLength block dev).toNat ∧
        ∀ limit, (paddedLength block dev).toNat ≤ limit ↔
          (unitLength block dev).toNat ≤ floorTo dev.paddingSize.toNat limit) := by
  have positive : 0 < dev.paddingSize.toNat := padded.2
  rw [paddedLength, if_pos padded]
  by_cases wraps : 2 ^ 32 < (unitLength block dev).toNat + dev.paddingSize.toNat
  · exact .inl ⟨wraps, roundUp_wraps wraps⟩
  · have fits := not_lt.mp wraps
    exact .inr ⟨fits, le_roundUp positive fits, roundUp_le_iff positive fits⟩

/-- With a fixed size only the padding matters. -/
theorem fixed_iff (adjusted : dev.isTape ∨ block.adata)
    (fixed : dev.minBlockSize = dev.maxBlockSize) (some : 0 < block.bufLen.toNat)
    (small : block.bufLen.toNat ≤ 20000000) (partly : block.binbuf.toNat ≤ block.bufLen.toNat) :
    (block.binbuf.toNat ≤ (paddedLength block dev).toNat ∧
        (paddedLength block dev).toNat ≤ block.bufLen.toNat) ↔
      (block.adata ∧ dev.paddingSize > 0 → dev.paddingSize.toNat ∣ block.bufLen.toNat) ∨
        (block.binbuf = 0 ∧ Wraps block dev) := by
  have length : unitLength block dev = block.bufLen := by
    rw [unitLength, if_pos adjusted, if_pos fixed]
  by_cases padded : block.adata ∧ dev.paddingSize > 0
  · rcases paddedLength_spec padded with ⟨wraps, zero⟩ | ⟨fits, above, below⟩
    · rw [length] at wraps
      have whole : Wraps block dev := .inr ⟨padded.1, by rw [if_pos fixed]; omega⟩
      have odd : ¬ dev.paddingSize.toNat ∣ block.bufLen.toNat := by
        intro divides
        have le := Nat.le_of_dvd some divides
        omega
      rw [zero]
      constructor
      · rintro ⟨empty, -⟩
        exact .inr ⟨UInt32.toNat_inj.mp (Nat.le_zero.mp empty), whole⟩
      · rintro (divides | ⟨empty, -⟩)
        · exact absurd (divides padded) odd
        · rw [empty]
          exact ⟨le_rfl, Nat.zero_le _⟩
    · rw [length] at fits above below
      have none : ¬ Wraps block dev := by
        rintro (⟨other, -⟩ | ⟨-, wraps⟩)
        · exact other fixed
        · rw [if_pos fixed] at wraps
          omega
      rw [below, le_floorTo_self_iff]
      constructor
      · exact fun covered => .inl fun _ => covered.2
      · rintro (divides | ⟨-, wraps⟩)
        · exact ⟨partly.trans above, divides padded⟩
        · exact absurd wraps none
  · rw [paddedLength, if_neg padded, length]
    exact iff_of_true ⟨partly, le_rfl⟩ (.inl fun both => absurd both padded)

theorem variable_iff (adjusted : dev.isTape ∨ block.adata)
    (variableSize : dev.minBlockSize ≠ dev.maxBlockSize)
    (small : block.bufLen.toNat ≤ 20000000) (partly : block.binbuf.toNat ≤ block.bufLen.toNat) :
    (block.binbuf.toNat ≤ (paddedLength block dev).toNat ∧
        (paddedLength block dev).toNat ≤ block.bufLen.toNat) ↔
      (block.binbuf.toNat ≤ room block dev ∧ dev.minBlockSize.toNat ≤ room block dev) ∨
        (block.binbuf = 0 ∧ Wraps block dev) := by
  have bound := dev.paddingSize.toNat_lt
  have roomLe : room block dev ≤ block.bufLen.toNat := by
    refine (floorTo_le _ _).trans ?_
    split
    · exact floorTo_le _ _
    · exact le_rfl
  -- a length that wraps around is enough for an empty block only
  have empty (zero : paddedLength block dev = 0) (wraps : block.binbuf = 0 → Wraps block dev)
      (more : ¬ (block.binbuf.toNat ≤ room block dev ∧ dev.minBlockSize.toNat ≤ room block dev)) :
      (block.binbuf.toNat ≤ (paddedLength block dev).toNat ∧
          (paddedLength block dev).toNat ≤ block.bufLen.toNat) ↔
        (block.binbuf.toNat ≤ room block dev ∧ dev.minBlockSize.toNat ≤ room block dev) ∨
          (block.binbuf = 0 ∧ Wraps block dev) := by
    rw [zero]
    constructor
    · rintro ⟨none, -⟩
      have binbuf : block.binbuf = 0 := UInt32.toNat_inj.mp (Nat.le_zero.mp none)
      exact .inr ⟨binbuf, wraps binbuf⟩
    · rintro (fits | ⟨none, -⟩)
      · exact absurd fits more
      · rw [none]
        exact ⟨le_rfl, Nat.zero_le _⟩
  rcases unitLength_spec adjusted variableSize small partly with
    ⟨wraps, zero⟩ | ⟨fits, above, nothing, below⟩
  · have unit : TAPE_BSIZE.toNat = 1024 := rfl
    refine empty ?_ (fun _ => .inl ⟨variableSize, wraps⟩) fun ⟨_, min⟩ => by omega
    by_cases padded : block.adata ∧ dev.paddingSize > 0
    · rcases paddedLength_spec padded with ⟨-, done⟩ | ⟨-, -, le⟩
      · exact done
      · have none := (le 0).mpr (by rw [zero]; exact Nat.zero_le _)
        exact UInt32.toNat_inj.mp (Nat.le_zero.mp none)
    · rw [paddedLength, if_neg padded, zero]
  · by_cases padded : block.adata ∧ dev.paddingSize > 0
    · have whole : room block dev = floorTo TAPE_BSIZE.toNat
          (floorTo dev.paddingSize.toNat block.bufLen.toNat) := by
        rw [room, if_pos padded]
      have positive : 0 < dev.paddingSize.toNat := padded.2
      rcases paddedLength_spec padded with ⟨wraps, zero⟩ | ⟨padFits, padAbove, padBelow⟩
      · refine empty zero (fun none => .inr ⟨padded.1, ?_⟩) fun both => ?_
        · rw [if_neg variableSize, ← nothing none]
          omega
        · rw [whole, ← below] at both
          have le := both.trans (floorTo_le _ _)
          have large : block.bufLen.toNat < dev.paddingSize.toNat := by omega
          rw [floorTo, Nat.div_eq_of_lt large, Nat.zero_mul] at both
          omega
      · have none (binbuf : block.binbuf = 0) : ¬ Wraps block dev := by
          rintro (⟨-, wraps⟩ | ⟨-, wraps⟩)
          · omega
          · rw [if_neg variableSize, ← nothing binbuf] at wraps
            omega
        rw [padBelow, below, ← whole]
        constructor
        · exact fun covered => .inl covered.2
        · rintro (both | ⟨binbuf, wraps⟩)
          · exact ⟨above.trans padAbove, both⟩
          · exact absurd wraps (none binbuf)
    · have whole : room block dev = floorTo TAPE_BSIZE.toNat block.bufLen.toNat := by
        rw [room, if_neg padded]
      have none : ¬ Wraps block dev := by
        rintro (⟨-, wraps⟩ | ⟨adata, wraps⟩)
        · omega
        · have zero : dev.paddingSize.toNat = 0 := by
            by_contra some
            exact padded ⟨adata, Nat.pos_of_ne_zero some⟩
          have unit := (roundUp dev.minBlockSize TAPE_BSIZE).toNat_lt
          rw [if_neg variableSize] at wraps
          omega
      rw [paddedLength, if_neg padded, below, ← whole]
      constructor
      · exact fun covered => .inl covered.2
      · rintro (both | ⟨-, wraps⟩)
        · exact ⟨above, both⟩
        · exact absurd wraps none

theorem newBlock_spec {device : DevRes} (started : deviceGenericInit device = some dev) :
    0 < (newBlock dev 0).toNat ∧ (newBlock dev 0).toNat ≤ 20000000 := by
  have default : DEFAULT_BLOCK_SIZE.toNat = 64512 := by decide
  have limit : MAX_BLOCK_LENGTH.toNat = 20000000 := rfl
  have size : dev.maxBlockSize.toNat ≤ 20000000 := by
    simp only [deviceGenericInit, Option.ite_none_left_eq_some, Option.some.injEq] at started
    obtain ⟨-, -, rfl⟩ := started
    dsimp only
    split
    · omega
    · next notAbove => exact (UInt32.not_lt.mp notAbove : _ ≤ MAX_BLOCK_LENGTH)
  unfold newBlock
  rw [if_neg (not_not.mpr rfl)]
  split
  · omega
  · next some =>
      refine ⟨Nat.pos_of_ne_zero fun zero => some (UInt32.toNat_inj.mp zero), size⟩

/-- For a device that `device_generic_init` lets through and a block of its size, the length that is
written covers the data inside the buffer exactly when there is room. -/
theorem covers_hasRoom_iff {device : DevRes} (started : deviceGenericInit device = some dev)
    (sized : block.bufLen = newBlock dev 0) (fill : block.binbuf ≤ block.bufLen) :
    Covers block dev ↔ HasRoom block dev := by
  obtain ⟨some, small⟩ := newBlock_spec started
  rw [← sized] at some small
  unfold HasRoom
  by_cases full : block.binbuf = block.bufLen
  · exact iff_of_true (covers_full full) (.inl full)
  rw [covers_iff full]
  by_cases adjusted : dev.isTape ∨ block.adata
  · by_cases fixed : dev.minBlockSize = dev.maxBlockSize
    · rw [fixed_iff adjusted fixed some small fill]
      simp [full, adjusted, fixed]
    · rw [variable_iff adjusted fixed small fill]
      simp [full, adjusted, fixed]
  · have plain : ¬ (block.adata ∧ dev.paddingSize > 0) := fun padded => adjusted (.inr padded.1)
    rw [paddedLength, if_neg plain, unitLength, if_neg adjusted]
    exact iff_of_true ⟨le_rfl, fill⟩ (.inr (.inl adjusted))

/-- A tape with blocks of up to 65000 bytes. -/
def oddTape : DevRes := ⟨0, 65000, 0, 0, true⟩

def oddDevice : Device := ⟨0, 65000, 0, true⟩

def blockOf (binbuf : UInt32) : DevBlock :=
  ⟨65000, List.replicate 65000 0, List.length_replicate, binbuf, false⟩

theorem covers_hasRoom_iff_odd : Covers (blockOf 64000) oddDevice ↔ HasRoom (blockOf 64000) oddDevice :=
  covers_hasRoom_iff (show deviceGenericInit oddTape = some oddDevice by rfl) (by decide) (by decide)

/-- 64800 bytes are rounded up to 65536. -/
theorem assertion_fails : deviceGenericInit oddTape = some oddDevice ∧
    (blockOf 64800).bufLen = newBlock oddDevice 0 ∧ (blockOf 64800).binbuf ≤ (blockOf 64800).bufLen ∧
      getLenAndClearBlock (blockOf 64800) oddDevice = none := by
  refine ⟨rfl, by decide, by decide, ?_⟩
  unfold getLenAndClearBlock
  rw [if_pos (by decide)]
  rfl

end Bacula.BlockLength
