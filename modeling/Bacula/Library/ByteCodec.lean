import Mathlib

/-!
# Numbers and terminated strings in a byte string

Fixed width big-endian numbers, zero-terminated strings in fixed size fields,
and a decoder that consumes a byte string from the front. The decoder makes the
two ways in which decoding untagged bytes goes wrong in memory explicit: reading
beyond the input and writing beyond the destination field are faults.
-/
namespace ByteCodec

/-- `width` bytes of `v`, most significant byte first. -/
def bigEndian : ℕ → ℕ → List UInt8
  | 0, _ => []
  | width+1, v => bigEndian width (v / 256) ++ [UInt8.ofNat v]

/-- The number spelled by a byte string, most significant byte first. -/
def number : List UInt8 → ℕ
  | [] => 0
  | b :: rest => b.toNat * 256 ^ rest.length + number rest

@[simp] theorem bigEndian_length (width v : ℕ) : (bigEndian width v).length = width := by
  induction width generalizing v with
  | zero => rfl
  | succ width ih => simp only [bigEndian, List.length_append, ih, List.length_cons, List.length_nil]

theorem number_append (a b : List UInt8) :
    number (a ++ b) = number a * 256 ^ b.length + number b := by
  induction a with
  | nil => simp [number]
  | cons x a ih =>
      simp only [List.cons_append, number, List.length_append, ih, pow_add]
      ring

theorem number_bigEndian (width v : ℕ) : number (bigEndian width v) = v % 256 ^ width := by
  induction width generalizing v with
  | zero => simp [bigEndian, number, Nat.mod_one]
  | succ width ih =>
      rw [bigEndian, number_append, ih]
      have low : number [UInt8.ofNat v] = v % 256 := by simp [number]
      rw [low, List.length_singleton, pow_one, pow_succ', Nat.mod_mul]
      ring

theorem number_lt (digits : List UInt8) : number digits < 256 ^ digits.length := by
  induction digits with
  | nil => exact Nat.one_pos
  | cons b rest ih =>
      have top := b.toNat_lt
      rw [number, List.length_cons, pow_succ]
      nlinarith

/-- The bytes of a number that was read are the bytes that it was read from. -/
theorem bigEndian_number (digits : List UInt8) : bigEndian digits.length (number digits) = digits := by
  induction digits using List.reverseRecOn with
  | nil => rfl
  | append_singleton digits b ih =>
      have low : number [b] = b.toNat := by simp [number]
      have top := b.toNat_lt
      rw [number_append, low, List.length_singleton, pow_one, List.length_append, List.length_singleton,
        bigEndian]
      have high : (number digits * 256 + b.toNat) / 256 = number digits := by omega
      have digit : UInt8.ofNat (number digits * 256 + b.toNat) = b := by
        apply UInt8.toNat_inj.mp
        rw [UInt8.toNat_ofNat']
        omega
      rw [high, ih, digit]

/-- How decoding leaves the memory it may use. -/
inductive Fault where
  | readPastEnd
  | writePastField
  deriving DecidableEq, Repr

/-- A decoder consumes input bytes from the front. -/
abbrev Decoder := StateT (List UInt8) (Except Fault)

@[simp] theorem ok_bind {α β : Type} (a : α) (next : α → Except Fault β) :
    (Except.ok a >>= next) = next a := rfl

/-- A decoder goes on behind what was decoded. -/
theorem run_bind_ok {α β : Type} {first : Decoder α} {next : α → Decoder β}
    {input rest : List UInt8} {a : α} (run : first.run input = .ok (a, rest)) :
    (first >>= next).run input = (next a).run rest := by
  rw [StateT.run_bind, run, ok_bind]

/-- What two decoders read together, each of them read. -/
theorem run_bind_eq_ok {α β : Type} {first : Decoder α} {next : α → Decoder β} {input rest : List UInt8}
    {b : β} (run : (first >>= next).run input = .ok (b, rest)) :
    ∃ a left, first.run input = .ok (a, left) ∧ (next a).run left = .ok (b, rest) := by
  rw [StateT.run_bind] at run
  cases read : first.run input with
  | error fault =>
      rw [read] at run
      cases run
  | ok result =>
      rw [read, ok_bind] at run
      exact ⟨result.1, result.2, rfl, run⟩

/-- The next `n` bytes of the input. -/
def bytes (n : ℕ) : Decoder (List UInt8) := fun input =>
  if n ≤ input.length then .ok (input.take n, input.drop n) else .error .readPastEnd

def natural (width : ℕ) : Decoder ℕ := do
  let taken ← bytes width
  return number taken

@[simp] theorem bytes_append (a rest : List UInt8) (n : ℕ) (h : a.length = n) :
    (bytes n).run (a ++ rest) = .ok (a, rest) := by
  subst h
  simp [bytes, StateT.run]

theorem bytes_run_ok {n : ℕ} {input taken rest : List UInt8}
    (run : (bytes n).run input = .ok (taken, rest)) :
    input = taken ++ rest ∧ taken.length = n := by
  change (if n ≤ input.length then Except.ok (input.take n, input.drop n) else _) = _ at run
  split at run
  case isTrue inside =>
    obtain ⟨rfl, rfl⟩ := Prod.mk.inj (Except.ok.inj run)
    exact ⟨(List.take_append_drop n input).symm, List.length_take_of_le inside⟩
  case isFalse => cases run

@[simp] theorem natural_bigEndian (width v : ℕ) (rest : List UInt8) :
    (natural width).run (bigEndian width v ++ rest) = .ok (v % 256 ^ width, rest) := by
  simp [natural, number_bigEndian]

/-- A decoder consumes exactly `n` bytes when they are there, and what it returns does not
depend on the bytes behind them. -/
def Reads {α : Type} (n : ℕ) (d : Decoder α) : Prop :=
  ∀ taken : List UInt8, taken.length = n → ∃ a, ∀ rest, d.run (taken ++ rest) = .ok (a, rest)

theorem reads_pure {α : Type} (a : α) : Reads 0 (pure a : Decoder α) := by
  intro taken none
  rw [List.length_eq_zero_iff] at none
  subst none
  exact ⟨a, fun rest => rfl⟩

theorem reads_bytes (n : ℕ) : Reads n (bytes n) :=
  fun taken length => ⟨taken, fun rest => bytes_append taken rest n length⟩

theorem Reads.bind {α β : Type} {n m : ℕ} {first : Decoder α} {next : α → Decoder β}
    (reads : Reads n first) (behind : ∀ a, Reads m (next a)) : Reads (n + m) (first >>= next) := by
  intro taken length
  obtain ⟨a, front⟩ := reads (taken.take n) (by rw [List.length_take]; omega)
  obtain ⟨b, back⟩ := behind a (taken.drop n) (by rw [List.length_drop]; omega)
  refine ⟨b, fun rest => ?_⟩
  have split : taken ++ rest = taken.take n ++ (taken.drop n ++ rest) := by
    rw [← List.append_assoc, List.take_append_drop]
  rw [split, run_bind_ok (front _), back]

theorem Reads.map {α β : Type} {n : ℕ} {d : Decoder α} (reads : Reads n d) (f : α → β) :
    Reads n (f <$> d) := by
  intro taken length
  obtain ⟨a, run⟩ := reads taken length
  refine ⟨f a, fun rest => ?_⟩
  rw [StateT.run_map, run]
  rfl

theorem reads_natural (width : ℕ) : Reads width (natural width) :=
  (reads_bytes width).bind fun _ => reads_pure _

/-- Two inputs that agree on their first `k` bytes are decoded alike within these bytes. -/
theorem Reads.agree {α : Type} {n k : ℕ} {d : Decoder α} (reads : Reads n d) (within : n ≤ k)
    {input other : List UInt8} (there : k ≤ input.length) (agree : other.take k = input.take k) :
    ∃ a, d.run input = .ok (a, input.drop n) ∧ d.run other = .ok (a, other.drop n) := by
  obtain ⟨a, run⟩ := reads (input.take n) (List.length_take_of_le (within.trans there))
  have same : other.take n = input.take n := by
    have cut := congrArg (List.take n) agree
    rwa [List.take_take, List.take_take, min_eq_left within] at cut
  refine ⟨a, ?_, ?_⟩
  · have here := run (input.drop n)
    rwa [List.take_append_drop] at here
  · have here := run (other.drop n)
    rwa [← same, List.take_append_drop] at here

/-- The byte order in which a little-endian machine keeps a number in memory. -/
def littleEndian (width v : ℕ) : List UInt8 := (bigEndian width v).reverse

@[simp] theorem littleEndian_length (width v : ℕ) : (littleEndian width v).length = width := by
  simp [littleEndian]

@[simp] theorem number_littleEndian (width v : ℕ) :
    number (littleEndian width v).reverse = v % 256 ^ width := by
  rw [littleEndian, List.reverse_reverse, number_bigEndian]

def naturalLE (width : ℕ) : Decoder ℕ := do
  let taken ← bytes width
  return number taken.reverse

@[simp] theorem naturalLE_littleEndian (width v : ℕ) (rest : List UInt8) :
    (naturalLE width).run (littleEndian width v ++ rest) = .ok (v % 256 ^ width, rest) := by
  simp [naturalLE]

/-- One stray byte before a number moves every digit down by one place: the lowest
digit is left in the input. -/
theorem natural_shifted (width v : ℕ) (x : UInt8) (rest : List UInt8) :
    (natural (width + 1)).run (x :: (bigEndian (width + 1) v ++ rest)) =
      .ok (x.toNat * 256 ^ width + v / 256 % 256 ^ width, UInt8.ofNat v :: rest) := by
  have regroup : x :: (bigEndian (width + 1) v ++ rest) =
      (x :: bigEndian width (v / 256)) ++ (UInt8.ofNat v :: rest) := by
    simp [bigEndian]
  rw [regroup, natural, StateT.run_bind, bytes_append _ _ _ (by simp)]
  change Except.ok (number (x :: bigEndian width (v / 256)), _) = _
  rw [number, bigEndian_length, number_bigEndian]

/-- A zero-terminated string inside an array of `max` bytes. -/
structure Field (max : ℕ) where
  text : List UInt8
  terminated : (0 : UInt8) ∉ text
  fits : text.length < max
  deriving DecidableEq

@[ext] theorem Field.ext {max : ℕ} {f g : Field max} (h : f.text = g.text) : f = g := by
  cases f; cases g; cases h; rfl

def Field.cons {max : ℕ} (b : UInt8) (nonzero : b ≠ 0) (f : Field max) : Field (max + 1) where
  text := b :: f.text
  terminated := by simpa [f.terminated] using nonzero.symm
  fits := Nat.succ_lt_succ f.fits

def Field.empty (max : ℕ) : Field (max + 1) := ⟨[], by simp, Nat.succ_pos max⟩

def ascii (s : String) : List UInt8 := s.toList.map fun c => UInt8.ofNat c.toNat

/-- The bytes of a string with its terminator. -/
def Field.stored {max : ℕ} (f : Field max) : List UInt8 := f.text ++ [0]

/-- Copy up to the terminator. With no terminator among the first `max` bytes
the terminator of the copy would be stored behind the field. -/
def scan : (max : ℕ) → List UInt8 → Except Fault (Field max × List UInt8)
  | 0, _ => .error .writePastField
  | _+1, [] => .error .readPastEnd
  | max+1, b :: rest =>
      if h : b = 0 then .ok (.empty max, rest)
      else match scan max rest with
        | .ok (f, left) => .ok (f.cons b h, left)
        | .error e => .error e

def field (max : ℕ) : Decoder (Field max) := scan max

theorem scan_text (text : List UInt8) (rest : List UInt8) {max : ℕ}
    (terminated : (0 : UInt8) ∉ text) (fits : text.length < max) :
    scan max (text ++ 0 :: rest) = .ok (⟨text, terminated, fits⟩, rest) := by
  induction text generalizing max with
  | nil =>
      cases max with
      | zero => exact absurd fits (Nat.not_lt_zero _)
      | succ max => rfl
  | cons b text ih =>
      cases max with
      | zero => exact absurd fits (Nat.not_lt_zero _)
      | succ max =>
          have hb : b ≠ 0 := fun h => terminated (h ▸ List.mem_cons_self)
          have ht : (0 : UInt8) ∉ text := fun h => terminated (List.mem_cons_of_mem b h)
          rw [List.cons_append, scan, dif_neg hb, ih ht (Nat.lt_of_succ_lt_succ fits)]
          rfl

@[simp] theorem field_stored {max : ℕ} (f : Field max) (rest : List UInt8) :
    (field max).run (f.stored ++ rest) = .ok (f, rest) := by
  have flat : f.stored ++ rest = f.text ++ 0 :: rest := by simp [Field.stored]
  rw [flat]
  exact scan_text f.text rest f.terminated f.fits

theorem Field.stored_length_le {max : ℕ} (f : Field max) : f.stored.length ≤ max := by
  have := f.fits
  simp only [Field.stored, List.length_append, List.length_cons, List.length_nil]
  omega

/-- Bytes are stored over the contents of a memory from a position on. -/
def store (memory : List UInt8) (pos : ℕ) (stored : List UInt8) : List UInt8 :=
  memory.take pos ++ stored ++ memory.drop (pos + stored.length)

theorem store_length {memory : List UInt8} {pos : ℕ} {stored : List UInt8}
    (fits : pos + stored.length ≤ memory.length) :
    (store memory pos stored).length = memory.length := by
  simp only [store, List.length_append, List.length_take, List.length_drop]
  omega

/-- What is in front of the end of the stored bytes. -/
theorem store_take {memory : List UInt8} {pos : ℕ} (stored : List UInt8)
    (inside : pos ≤ memory.length) :
    (store memory pos stored).take (pos + stored.length) = memory.take pos ++ stored := by
  apply List.take_left'
  rw [List.length_append, List.length_take, min_eq_left inside]

end ByteCodec
