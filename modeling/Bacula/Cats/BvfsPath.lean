import Mathlib

/-! The parent of a directory path in `cats/bvfs.c`. A path is a string of bytes; a directory ends
in a separator. -/
namespace Bacula.Bvfs

abbrev Path := List UInt8

/-- `IsPathSeparator` outside of Windows. -/
def isPathSeparator (c : UInt8) : Bool := c = 47

/-- `B_ISALPHA`. -/
def isAlpha (c : UInt8) : Bool := (65 ≤ c && c ≤ 90) || (97 ≤ c && c ≤ 122)

/-- A drive letter, as in `C:/`. -/
def isDrive : Path → Bool
  | [x, 58, 47] => isAlpha x
  | _ => false

/-- The path up to its last separator. -/
def uptoSeparator (path : Path) : Path := path.rdropWhile fun c => !isPathSeparator c

/-- `bvfs_parent_dir`. The way back to a separator ends at the first byte of the path, which
stays. -/
def bvfsParentDir (path : Path) : Path :=
  if isDrive path then []
  else
    let skipped := if path.getLast? = some 47 then path.dropLast else path
    if 1 < path.length then
      if uptoSeparator skipped = [] then skipped.take 1 else uptoSeparator skipped
    else skipped

/-- The path without its last component. -/
def parentDirectory (path : Path) : Path := uptoSeparator path.dropLast

/-- A path that ends in a separator, or is empty. -/
def Slashed (path : Path) : Prop := path = [] ∨ ∃ body, path = body ++ [47]

/-- A path that begins with a separator or a drive letter, or is empty. -/
def Rooted (path : Path) : Prop := path = [] ∨ path.head? = some 47 ∨ isDrive (path.take 3) = true

section Separator

theorem uptoSeparator_append (a b : Path) :
    uptoSeparator (a ++ 47 :: b) = a ++ 47 :: uptoSeparator b := by
  unfold uptoSeparator
  induction b using List.reverseRecOn with
  | nil => exact List.rdropWhile_concat_neg _ a 47 (by decide)
  | append_singleton b c ih =>
      rw [← List.cons_append, ← List.append_assoc, List.rdropWhile_concat, List.rdropWhile_concat]
      split_ifs
      · exact ih
      · rw [List.append_assoc, List.cons_append]

theorem uptoSeparator_eq_nil_iff (path : Path) : uptoSeparator path = [] ↔ 47 ∉ path := by
  unfold uptoSeparator
  rw [List.rdropWhile_eq_nil_iff]
  constructor
  · intro passed member
    exact absurd (passed 47 member) (by decide)
  · intro none c member
    have other : ¬ c = 47 := fun here => none (here ▸ member)
    simp only [isPathSeparator, other, decide_false, Bool.not_false]

theorem uptoSeparator_slashed (path : Path) : Slashed (uptoSeparator path) := by
  by_cases member : 47 ∈ path
  · obtain ⟨b, a, eq, none⟩ := List.eq_append_cons_of_mem (List.mem_reverse.mpr member)
    have split : path = a.reverse ++ 47 :: b.reverse := by
      rw [← List.reverse_reverse path, eq]
      simp
    have rest : uptoSeparator b.reverse = [] :=
      (uptoSeparator_eq_nil_iff _).mpr fun here => none (List.mem_reverse.mp here)
    rw [split, uptoSeparator_append, rest]
    exact .inr ⟨_, rfl⟩
  · exact .inl ((uptoSeparator_eq_nil_iff path).mpr member)

theorem uptoSeparator_length (path : Path) : (uptoSeparator path).length ≤ path.length :=
  (List.rdropWhile_prefix _ path).length_le

end Separator

section Parent

/-- The parent of a directory, from the path without its last separator. -/
theorem bvfsParentDir_slashed (body : Path) :
    bvfsParentDir (body ++ [47]) =
      if isDrive (body ++ [47]) then [] else if 47 ∈ body then uptoSeparator body
      else body.take 1 := by
  have last : (body ++ [47]).getLast? = some 47 := by simp
  have skipped : (body ++ [47]).dropLast = body := by simp
  unfold bvfsParentDir
  rw [last, skipped, if_pos rfl]
  by_cases drive : isDrive (body ++ [47]) = true
  · rw [if_pos drive, if_pos drive]
  · rw [if_neg drive, if_neg drive]
    cases body with
    | nil => rfl
    | cons c body =>
        have long : 1 < (c :: body ++ [47]).length := by simp
        simp only [long, if_true, uptoSeparator_eq_nil_iff]
        by_cases member : 47 ∈ c :: body
        · rw [if_neg (not_not.mpr member), if_pos member]
        · rw [if_pos member, if_neg member]

theorem parentDirectory_slashed (body : Path) :
    parentDirectory (body ++ [47]) = uptoSeparator body := by
  unfold parentDirectory
  rw [List.dropLast_concat]

/-- A byte that is not a separator is its own parent, and another path has a shorter one. -/
theorem bvfsParentDir_length (path : Path) :
    (bvfsParentDir path).length < path.length ∨ bvfsParentDir path = path ∧ path.length ≤ 1 := by
  by_cases drive : isDrive path = true
  · have some : path ≠ [] := fun empty => by
      rw [empty] at drive
      exact absurd drive (by decide)
    rw [bvfsParentDir, if_pos drive]
    exact .inl (List.length_pos_of_ne_nil some)
  · by_cases last : path.getLast? = some 47
    · have some : path ≠ [] := fun empty => by
        rw [empty] at last
        cases last
      have shorter : path.dropLast.length < path.length := by
        rw [List.length_dropLast]
        exact Nat.sub_lt (List.length_pos_of_ne_nil some) Nat.one_pos
      have upto := uptoSeparator_length path.dropLast
      rw [bvfsParentDir, if_neg drive, if_pos last]
      left
      dsimp only
      split_ifs
      · rw [List.length_take]
        omega
      · omega
      · exact shorter
    · rw [bvfsParentDir, if_neg drive, if_neg last]
      dsimp only
      split_ifs with long none
      · rw [List.length_take]
        omega
      · left
        have upto := uptoSeparator_length path
        refine lt_of_le_of_ne upto fun same => last ?_
        have whole : uptoSeparator path = path :=
          (List.rdropWhile_prefix _ path).eq_of_length same
        rcases uptoSeparator_slashed path with empty | ⟨body, slashed⟩
        · exact absurd empty none
        · rw [← whole, slashed]
          simp
      · exact .inr ⟨rfl, not_lt.mp long⟩

theorem isDrive_iff (path : Path) :
    isDrive path = true ↔ ∃ x, isAlpha x = true ∧ path = [x, 58, 47] := by
  constructor
  · intro drive
    unfold isDrive at drive
    split at drive
    · exact ⟨_, drive, rfl⟩
    · cases drive
  · rintro ⟨x, alpha, rfl⟩
    exact alpha

/-- A path that begins with a separator or a drive letter has its parent directory, of the same
kind. -/
theorem Rooted.parent {path : Path} (rooted : Rooted path) (slashed : Slashed path) :
    bvfsParentDir path = parentDirectory path ∧ Rooted (bvfsParentDir path) ∧
      Slashed (bvfsParentDir path) := by
  rcases slashed with rfl | ⟨body, rfl⟩
  · exact ⟨by decide, .inl (by decide), .inl (by decide)⟩
  · rw [bvfsParentDir_slashed, parentDirectory_slashed]
    by_cases drive : isDrive (body ++ [47]) = true
    · obtain ⟨x, alpha, eq⟩ := (isDrive_iff _).mp drive
      have body_eq : body = [x, 58] :=
        List.append_cancel_right (show body ++ [47] = [x, 58] ++ [47] from eq)
      have none : 47 ∉ [x, 58] := by
        intro member
        rcases List.mem_cons.mp member with rfl | member
        · exact absurd alpha (by decide)
        · exact absurd member (by decide)
      rw [if_pos drive, body_eq, (uptoSeparator_eq_nil_iff _).mpr none]
      exact ⟨rfl, .inl rfl, .inl rfl⟩
    · rw [if_neg drive]
      have slashed := uptoSeparator_slashed body
      rcases rooted with empty | first | drives
      · exact absurd empty (by simp)
      · cases body with
        | nil => exact ⟨by decide, .inl (by decide), .inl (by decide)⟩
        | cons c body =>
            have head : c = 47 := by simpa using first
            subst head
            have upto := uptoSeparator_append [] body
            rw [if_pos List.mem_cons_self]
            refine ⟨rfl, .inr (.inl ?_), slashed⟩
            rw [show (47 :: body : Path) = [] ++ 47 :: body from rfl, upto]
            rfl
      · obtain ⟨x, alpha, eq⟩ := (isDrive_iff _).mp drives
        obtain ⟨rest, rfl⟩ : ∃ rest, body = [x, 58] ++ 47 :: rest := by
          rcases body with _ | ⟨a, _ | ⟨b, _ | ⟨c, rest⟩⟩⟩
          · simp at eq
          · simp at eq
          · exact absurd ((isDrive_iff _).mpr ⟨x, alpha, by simpa using eq⟩) drive
          · obtain ⟨rfl, rfl, rfl⟩ : a = x ∧ b = 58 ∧ c = 47 := by simpa using eq
            exact ⟨rest, rfl⟩
        have upto := uptoSeparator_append [x, 58] rest
        rw [if_pos (by simp)]
        refine ⟨rfl, .inr (.inr ?_), slashed⟩
        rw [upto]
        exact alpha

/-- On the way up from any other path there is one that is taken to its first byte. -/
theorem bvfsParentDir_relative {path : Path} (relative : ¬ Rooted path) (slashed : Slashed path) :
    bvfsParentDir path ≠ parentDirectory path ∨
      (bvfsParentDir path ≠ [] ∧ ¬ Rooted (bvfsParentDir path) ∧ Slashed (bvfsParentDir path)) := by
  rcases slashed with rfl | ⟨body, rfl⟩
  · exact absurd (.inl rfl) relative
  · have noDrive : ¬ isDrive (body ++ [47]) = true := fun drive => by
      obtain ⟨x, alpha, eq⟩ := (isDrive_iff _).mp drive
      refine relative (.inr (.inr ?_))
      rw [eq]
      exact alpha
    rw [bvfsParentDir_slashed, parentDirectory_slashed, if_neg noDrive]
    by_cases member : 47 ∈ body
    · rw [if_pos member]
      obtain ⟨a, b, rfl, none⟩ := List.eq_append_cons_of_mem member
      have slashed := uptoSeparator_slashed (a ++ 47 :: b)
      rw [uptoSeparator_append] at slashed ⊢
      refine .inr ⟨by simp, fun rooted => relative ?_, slashed⟩
      rcases rooted with empty | first | drives
      · simp at empty
      · refine .inr (.inl ?_)
        cases a with
        | nil => rfl
        | cons c a => exact first
      · refine .inr (.inr ?_)
        obtain ⟨x, alpha, eq⟩ := (isDrive_iff _).mp drives
        rw [isDrive_iff]
        refine ⟨x, alpha, ?_⟩
        rcases a with _ | ⟨c, _ | ⟨d, _ | ⟨e, a⟩⟩⟩
        · obtain ⟨rfl, -⟩ : 47 = x ∧ _ := by simpa using eq
          exact absurd alpha (by decide)
        · simp at eq
        · simpa using eq
        · obtain ⟨-, -, rfl⟩ : c = x ∧ d = 58 ∧ e = 47 := by simpa using eq
          exact absurd (by simp) none
    · rw [if_neg member, (uptoSeparator_eq_nil_iff body).mpr member]
      left
      cases body with
      | nil => exact absurd (.inr (.inl rfl)) relative
      | cons c body => exact List.cons_ne_nil _ _

end Parent

end Bacula.Bvfs
