import Mathlib

/-!
# Windows of a circular array

The cells from a start onwards, which go on at the beginning of the array behind its end.
-/
namespace CircularArray
open Function (update)

variable {β : Type}

/-- The first `n` cells of an array of a size, from `start` onwards. -/
def window (cells : ℕ → β) (size start n : ℕ) : List β :=
  (List.range n).map fun i => cells ((start + i) % size)

variable {cells : ℕ → β} {size start n : ℕ} {b : β}

@[simp] theorem window_length : (window cells size start n).length = n := by simp [window]

theorem window_mod : window cells size (start % size) n = window cells size start n := by
  unfold window
  simp only [Nat.mod_add_mod]

theorem window_succ :
    window cells size start (n + 1) = cells (start % size) :: window cells size (start + 1) n := by
  unfold window
  rw [List.range_succ_eq_map, List.map_cons, List.map_map]
  congr 1
  apply List.map_congr_left
  intro i _
  rw [Function.comp_apply, Nat.add_right_comm, Nat.add_assoc]

theorem window_concat : window cells size start (n + 1) =
    window cells size start n ++ [cells ((start + n) % size)] := by
  simp [window, List.range_succ]

/-- A cell behind the window, less than a turn away, is not in it. -/
theorem behind_ne {i : ℕ} (inside : i < n) (room : n < size) :
    (start + i) % size ≠ (start + n) % size := by
  intro same
  have close : i % size = n % size := Nat.ModEq.add_left_cancel' start same
  rw [Nat.mod_eq_of_lt (inside.trans room), Nat.mod_eq_of_lt room] at close
  exact inside.ne close

theorem window_write (room : n < size) :
    window (update cells ((start + n) % size) b) size start n = window cells size start n := by
  apply List.map_congr_left
  intro i inside
  exact Function.update_of_ne (behind_ne (List.mem_range.mp inside) room) b cells

/-- The cell behind the window is written and taken into it. -/
theorem window_push (room : n < size) :
    window (update cells ((start + n) % size) b) size start (n + 1) =
      window cells size start n ++ [b] := by
  rw [window_concat, window_write room, Function.update_self]

/-- The cell before the window is written. -/
theorem window_clear (room : n < size) :
    window (update cells (start % size) b) size (start + 1) n = window cells size (start + 1) n := by
  apply List.map_congr_left
  intro i inside
  have inside := List.mem_range.mp inside
  apply Function.update_of_ne
  have apart : (start + 0) % size ≠ (start + (i + 1)) % size :=
    behind_ne (Nat.succ_pos i) (Nat.lt_of_le_of_lt inside room)
  rw [Nat.add_assoc, Nat.add_comm 1]
  exact apart.symm

end CircularArray
