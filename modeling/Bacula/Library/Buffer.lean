import Mathlib

/-!
# A buffer with a header in front of it

A buffer is addressed from its first byte; the addresses before it belong to its header. What a
growing buffer reveals is what the memory behind it already held.
-/

/-- Contents by address, and the allocated size. -/
structure Buffer where
  bytes : ℤ → UInt8
  size : ℕ

namespace Buffer

def read (b : Buffer) (p : ℤ) (n : ℕ) : List UInt8 := (List.range n).map fun i : ℕ => b.bytes (p + i)

def write (b : Buffer) (p : ℤ) (data : List UInt8) : Buffer :=
  { b with
    bytes := fun i => if p ≤ i ∧ i < p + data.length then data.getD (i - p).toNat 0 else b.bytes i }

def realloc (b : Buffer) (n : ℕ) : Buffer := { b with size := n }

variable {b c : Buffer} {p q : ℤ} {m n : ℕ} {data : List UInt8}

@[simp] theorem length_read : (b.read p n).length = n := by simp [read]

theorem read_congr (same : ∀ i, p ≤ i → i < p + n → b.bytes i = c.bytes i) :
    b.read p n = c.read p n := by
  refine List.map_congr_left fun i member => same _ (by omega) ?_
  have below := List.mem_range.mp member
  omega

theorem read_eq_iff : b.read p n = c.read p n ↔ ∀ i < n, b.bytes (p + i) = c.bytes (p + i) := by
  simp [read]

theorem read_add : b.read p (m + n) = b.read p m ++ b.read (p + m) n := by
  rw [read, List.range_add, List.map_append, List.map_map]
  simp [read, Function.comp_def, add_assoc]

theorem read_zero : b.read p 0 = [] := rfl

theorem take_read (within : m ≤ n) : (b.read p n).take m = b.read p m := by
  obtain ⟨k, rfl⟩ := Nat.exists_eq_add_of_le within
  rw [read_add, List.take_left' length_read]

theorem drop_read (within : m ≤ n) : (b.read p n).drop m = b.read (p + m) (n - m) := by
  obtain ⟨k, rfl⟩ := Nat.exists_eq_add_of_le within
  rw [read_add, List.drop_left' length_read, Nat.add_sub_cancel_left]

theorem bytes_write_of_lt (before : q < p) : (b.write p data).bytes q = b.bytes q :=
  if_neg fun inside => absurd inside.1 (not_le.mpr before)

theorem bytes_write_of_ge (behind : p + data.length ≤ q) :
    (b.write p data).bytes q = b.bytes q :=
  if_neg fun inside => absurd inside.2 (not_lt.mpr behind)

theorem bytes_write_congr (same : b.bytes q = c.bytes q) :
    (b.write p data).bytes q = (c.write p data).bytes q := by
  simp only [write, same]

theorem read_write : (b.write p data).read p data.length = data := by
  refine List.ext_getElem length_read fun i below inside => ?_
  simp only [read, write, List.getElem_map, List.getElem_range]
  rw [if_pos (by omega), show (p + i - p).toNat = i by omega, List.getD_eq_getElem _ _ inside]

theorem read_write' (same : data.length = n) : (b.write p data).read p n = data := by
  subst same
  exact read_write

theorem read_write_before (before : q + n ≤ p) : (b.write p data).read q n = b.read q n :=
  read_congr fun _ _ below => bytes_write_of_lt (by omega)

theorem read_write_behind (behind : p + data.length ≤ q) :
    (b.write p data).read q n = b.read q n :=
  read_congr fun _ above _ => bytes_write_of_ge (by omega)

/-- A write that changes nothing it covers. -/
theorem write_read_self (same : b.read p data.length = data) (q : ℤ) :
    (b.write p data).bytes q = b.bytes q := by
  by_cases inside : p ≤ q ∧ q < p + data.length
  · have one : q = p + (q - p).toNat := by omega
    have whole : (b.write p data).read p data.length = data := read_write
    have written := congrArg (·.getD (q - p).toNat 0) whole
    have present := congrArg (·.getD (q - p).toNat 0) same
    have short : (q - p).toNat < data.length := by omega
    simp only [read, List.getD_eq_getElem?_getD, List.getElem?_map, List.getElem?_range short,
      Option.map_some, Option.getD_some, ← one] at written present
    rw [written, present]
  · exact if_neg inside

end Buffer
