import Mathlib

/-!
# Strings in memory

A memory is a list of characters, and a pointer into it is an offset. The string at a pointer
goes up to the next NUL.
-/
namespace CMemory

/-- The character that ends a string. -/
def nul : Char := '\x00'

/-- The string at a pointer. -/
def strAt (m : List Char) (p : ℕ) : List Char := (m.drop p).takeWhile (· != nul)

/-- `strpbrk`: the first character of the string that is one of `accept`. -/
def strpbrk (m : List Char) (p : ℕ) (accept : List Char) : Option ℕ :=
  ((strAt m p).findIdx? accept.contains).map (p + ·)

/-- `strchr`. -/
def strchr (m : List Char) (p : ℕ) (c : Char) : Option ℕ := strpbrk m p [c]

variable {pre q rest accept : List Char} {c : Char}

theorem takeWhile_append_cons {p : Char → Bool} (all : ∀ x ∈ q, p x) (stop : p c = false) :
    (q ++ c :: rest).takeWhile p = q := by
  rw [List.takeWhile_append_of_pos all, List.takeWhile_cons, stop]
  exact List.append_nil q

theorem strAt_append (text : nul ∉ q) : strAt (pre ++ (q ++ nul :: rest)) pre.length = q := by
  rw [strAt, List.drop_left]
  refine takeWhile_append_cons (fun x member => ?_) (bne_self_eq_false nul)
  exact bne_iff_ne.mpr fun same => text (same ▸ member)

/-- The string at a pointer goes on behind a character. -/
theorem strAt_append_cons (text : nul ∉ q) (more : c ≠ nul) :
    strAt (pre ++ (q ++ c :: rest)) pre.length =
      q ++ c :: strAt (pre ++ (q ++ c :: rest)) (pre.length + q.length + 1) := by
  have behind : (pre ++ (q ++ c :: rest)).drop (pre.length + q.length + 1) = rest := by
    rw [Nat.add_assoc, ← List.drop_drop, List.drop_left, ← List.drop_drop, List.drop_left,
      List.drop_one, List.tail_cons]
  rw [strAt, strAt, behind, List.drop_left, List.takeWhile_append_of_pos, List.takeWhile_cons,
    if_pos (bne_iff_ne.mpr more)]
  exact fun x member => bne_iff_ne.mpr fun same => text (same ▸ member)

theorem strpbrk_append_cons (text : nul ∉ q) (absent : ∀ x ∈ q, x ∉ accept) (found : c ∈ accept)
    (more : c ≠ nul) :
    strpbrk (pre ++ (q ++ c :: rest)) pre.length accept = some (pre.length + q.length) := by
  rw [strpbrk, strAt_append_cons text more, List.findIdx?_append,
    List.findIdx?_eq_none_iff.mpr fun x member => by simpa using absent x member,
    List.findIdx?_cons, if_pos (List.contains_iff_mem.mpr found)]
  simp

theorem strpbrk_none (text : nul ∉ q) (absent : ∀ x ∈ q, x ∉ accept) :
    strpbrk (pre ++ (q ++ nul :: rest)) pre.length accept = none := by
  rw [strpbrk, strAt_append text,
    List.findIdx?_eq_none_iff.mpr fun x member => by simpa using absent x member]
  rfl

theorem set_append_cons (x : Char) :
    (pre ++ (q ++ c :: rest)).set (pre.length + q.length) x = pre ++ (q ++ x :: rest) := by
  rw [List.set_append_right _ _ (Nat.le_add_right _ _), Nat.add_sub_cancel_left,
    List.set_append_right _ _ (le_refl _), Nat.sub_self, List.set_cons_zero]

theorem getD_append_cons (x : Char) :
    (pre ++ (q ++ c :: rest)).getD (pre.length + q.length) x = c := by
  rw [List.getD_eq_getElem?_getD, List.getElem?_append_right (Nat.le_add_right _ _),
    Nat.add_sub_cancel_left, List.getElem?_append_right (le_refl _), Nat.sub_self]
  rfl

/-- A text is a list of pieces that each end with a separator, and a last piece without. -/
def join (pieces : List (List Char × Char)) (last : List Char) : List Char :=
  pieces.flatMap (fun (q, c) => q ++ [c]) ++ last

@[simp] theorem join_nil (last : List Char) : join [] last = last := rfl

@[simp] theorem join_cons (q : List Char) (c : Char) (pieces : List (List Char × Char))
    (last : List Char) : join ((q, c) :: pieces) last = q ++ c :: join pieces last := by
  simp [join]

/-- Pieces as a search for separators finds them. -/
structure Pieces (accept : List Char) (pieces : List (List Char × Char)) (last : List Char) :
    Prop where
  separated : ∀ piece ∈ pieces, piece.2 ∈ accept ∧ ∀ x ∈ piece.1, x ∉ accept
  last : ∀ x ∈ last, x ∉ accept

theorem Pieces.tail {piece : List Char × Char} {pieces : List (List Char × Char)}
    {last : List Char} (cut : Pieces accept (piece :: pieces) last) :
    Pieces accept pieces last :=
  ⟨fun piece member => cut.separated piece (List.mem_cons_of_mem _ member), cut.last⟩

/-- A text has one decomposition into pieces. -/
def cut (accept : List Char) : List Char → List (List Char × Char) × List Char
  | [] => ([], [])
  | c :: text =>
      if c ∈ accept then (([], c) :: (cut accept text).1, (cut accept text).2)
      else match cut accept text with
        | ([], last) => ([], c :: last)
        | ((q, d) :: pieces, last) => ((c :: q, d) :: pieces, last)

theorem cut_spec (accept text : List Char) :
    join (cut accept text).1 (cut accept text).2 = text ∧
      Pieces accept (cut accept text).1 (cut accept text).2 := by
  induction text with
  | nil => exact ⟨rfl, List.forall_mem_nil _, List.forall_mem_nil _⟩
  | cons c text ih =>
      obtain ⟨same, pieces⟩ := ih
      unfold cut
      split
      · rename_i found
        refine ⟨by rw [join_cons, same, List.nil_append], fun piece member => ?_, pieces.last⟩
        rcases List.mem_cons.mp member with rfl | member
        · exact ⟨found, List.forall_mem_nil _⟩
        · exact pieces.separated piece member
      · rename_i other
        split
        · rename_i last result
          rw [result] at same pieces
          refine ⟨by rw [← same]; rfl, pieces.separated, fun x member => ?_⟩
          rcases List.mem_cons.mp member with rfl | member
          · exact other
          · exact pieces.last x member
        · rename_i q d others last result
          rw [result] at same pieces
          refine ⟨by rw [← same, join_cons, join_cons, List.cons_append],
            fun piece member => ?_, pieces.last⟩
          rcases List.mem_cons.mp member with rfl | member
          · have first := pieces.separated (q, d) List.mem_cons_self
            refine ⟨first.1, fun x member => ?_⟩
            rcases List.mem_cons.mp member with rfl | member
            · exact other
            · exact first.2 x member
          · exact pieces.separated piece (List.mem_cons_of_mem _ member)

end CMemory
