import Mathlib

/-!
# Files with holes

A file is the list of its bytes, and what lies behind its end or in a hole reads as zero. Two
files agree when no position tells them apart, so they may still differ in the zeros at the end.
-/
namespace SparseFile

variable {α : Type} [Zero α]

/-- Store `data` from position `pos` on; a gap behind the old end is filled with zeros. -/
def write (file : List α) (pos : ℕ) (data : List α) : List α :=
  if data.isEmpty then file
  else file.take pos ++
    (List.replicate (pos - file.length) 0 ++ (data ++ file.drop (pos + data.length)))

/-- The contents of two files read alike at every position. -/
def Agrees (file content : List α) : Prop := ∀ p, file.getD p 0 = content.getD p 0

theorem Agrees.refl (file : List α) : Agrees file file := fun _ => rfl

@[simp] theorem write_nil (file : List α) (pos : ℕ) : write file pos [] = file := rfl

theorem write_of_ne_nil {data : List α} (some : data ≠ []) (file : List α) (pos : ℕ) :
    write file pos data = file.take pos ++
      (List.replicate (pos - file.length) 0 ++ (data ++ file.drop (pos + data.length))) := by
  rw [write, if_neg (by simpa using some)]

theorem write_length {data : List α} (some : data ≠ []) (file : List α) (pos : ℕ) :
    (write file pos data).length = max file.length (pos + data.length) := by
  rw [write_of_ne_nil some]
  simp only [List.length_append, List.length_take, List.length_replicate, List.length_drop]
  omega

theorem write_end (file data : List α) : write file file.length data = file ++ data := by
  by_cases some : data = []
  · rw [some, write_nil, List.append_nil]
  · rw [write_of_ne_nil some, List.take_length, Nat.sub_self, List.replicate_zero, List.nil_append,
      List.drop_of_length_le (Nat.le_add_right _ _), List.append_nil]

/-- Appending behind what is already written. -/
theorem Agrees.write {file content data : List α} (agrees : Agrees file content)
    (short : file.length ≤ content.length) :
    Agrees (write file content.length data) (content ++ data) := by
  by_cases some : data = []
  · rw [some, write_nil, List.append_nil]
    exact agrees
  have noTail : file.drop (content.length + data.length) = [] :=
    List.drop_of_length_le (by omega)
  intro p
  rw [write_of_ne_nil some, noTail, List.take_of_length_le short, List.append_nil, ← List.append_assoc]
  have padded : (file ++ List.replicate (content.length - file.length) 0).length = content.length := by
    rw [List.length_append, List.length_replicate]
    omega
  rcases lt_or_ge p content.length with old | new
  · rw [List.getD_append _ _ _ _ (by omega), List.getD_append _ _ _ _ old, ← agrees p]
    rcases lt_or_ge p file.length with inside | hole
    · rw [List.getD_append _ _ _ _ inside]
    · rw [List.getD_append_right _ _ _ _ hole, List.getD_eq_default file 0 hole, List.getD_replicate]
      omega
  · rw [List.getD_append_right _ _ _ _ (by omega), List.getD_append_right _ _ _ _ new, padded]

/-- Zeros need not be written. -/
theorem Agrees.skip {file content data : List α} (agrees : Agrees file content)
    (zero : ∀ x ∈ data, x = 0) : Agrees file (content ++ data) := by
  intro p
  rcases lt_or_ge p content.length with old | new
  · rw [List.getD_append _ _ _ _ old]
    exact agrees p
  · rw [List.getD_append_right _ _ _ _ new, agrees p, List.getD_eq_default content 0 new]
    rcases lt_or_ge (p - content.length) data.length with inside | behind
    · rw [List.getD_eq_getElem _ _ inside]
      exact (zero _ (List.getElem_mem inside)).symm
    · exact (List.getD_eq_default _ _ behind).symm

/-- Files that agree have the same bytes as far as both reach. -/
theorem Agrees.take_eq {file content : List α} (agrees : Agrees file content) {n : ℕ}
    (inFile : n ≤ file.length) (inContent : n ≤ content.length) : file.take n = content.take n := by
  apply List.ext_getElem
  · rw [List.length_take, List.length_take, min_eq_left inFile, min_eq_left inContent]
  · intro p left right
    rw [List.length_take] at left
    have same := agrees p
    rw [List.getD_eq_getElem _ _ (by omega), List.getD_eq_getElem _ _ (by omega)] at same
    rw [List.getElem_take, List.getElem_take]
    exact same

end SparseFile
