import Bacula.Lib.Scan

/-! The replacement of a matched file name, `lib/breg.c`: the size of the result and its text. -/
namespace Bacula.Breg
open Scan

abbrev Text := List UInt8

/-- `regmatch_t`. -/
structure RegMatch where
  rmSo : ℤ
  rmEo : ℤ

def RegMatch.length (m : RegMatch) : ℤ := m.rmEo - m.rmSo

/-- The registers, for the numbers of one digit. -/
abbrev Registers := Fin 10 → RegMatch

def dollar : UInt8 := 36
def backslash : UInt8 := 92
def letterM : UInt8 := 109

/-- The register of a digit. -/
def register (c : UInt8) : Option (Fin 10) :=
  if h : 48 ≤ c.toNat ∧ c.toNat ≤ 57 then some ⟨c.toNat - 48, by omega⟩ else none

/-- The loop of `compute_dest_len`. The `m` of `$m` is passed as another character. -/
def destLen (breg : Registers) : Text → ℤ
  | [] => 0
  | [_] => 1
  | p :: q :: psubst =>
      -- match a substitution with a struct stat field
      if p = dollar ∧ q = letterM then 50 + destLen breg (q :: psubst)
      else if p = dollar ∨ p = backslash then
        match register q with
        | some no =>
            (if (breg no).rmSo ≥ 0 ∧ (breg no).rmEo ≥ 0 then (breg no).length else 0) +
              destLen breg psubst
        | none => 1 + destLen breg (q :: psubst)
      else 1 + destLen breg (q :: psubst)

/-- `compute_dest_len`. -/
def computeDestLen (fname subst : Text) (breg : Registers) : ℤ :=
  -- match failed ?
  if (breg 0).rmSo < 0 then 0
  -- $0 is replaced by subst
  else destLen breg subst - (breg 0).length + (fname.length + 1)

/-- Bytes are written to the result, or outside of it. -/
def put (result : Text) (i : ℕ) (data : Text) : Option Text :=
  if i + data.length ≤ result.length then
    some (result.take i ++ data ++ result.drop (i + data.length))
  else none

/-- `bstrncpy` of at most `len` characters, with the end of the string. -/
def bstrncpy (result : Text) (i : ℕ) (src : Text) (len : ℕ) : Option Text :=
  put result i (src.take len ++ [0])

/-- The loop of `edit_subst` over the replacement. -/
def editLoop (fname : Text) (mtime : UInt64) (breg : Registers) :
    Text → ℕ → Text → Option (ℕ × Text)
  | [], i, result => some (i, result)
  | [p], i, result => (put result i [p]).map fun result => (i + 1, result)
  | p :: q :: psubst, i, result =>
      -- match specific % variables, coming from struct stat
      if p = dollar ∧ q = letterM then do
        let ed := decimal mtime.toNat
        let result ← bstrncpy result i ed ed.length
        -- Eat m
        editLoop fname mtime breg psubst (i + ed.length) result
      else if p = dollar ∨ p = backslash then
        match register q with
        | some no =>
            -- have a back reference ?
            if (breg no).rmSo ≥ 0 ∧ (breg no).rmEo ≥ 0 then do
              let len := (breg no).length.toNat
              let result ← bstrncpy result i (fname.drop (breg no).rmSo.toNat) len
              editLoop fname mtime breg psubst (i + len) result
            else editLoop fname mtime breg psubst i result
        | none => do
            let result ← put result i [p]
            editLoop fname mtime breg (q :: psubst) (i + 1) result
      else do
        let result ← put result i [p]
        editLoop fname mtime breg (q :: psubst) (i + 1) result

/-- `edit_subst`, with the modification time of the file or 0. -/
def editSubst (fname subst : Text) (mtime : UInt64) (breg : Registers) (result : Text) :
    Option Text := do
  let so := (breg 0).rmSo.toNat
  let result ← put result 0 (fname.take so)
  let (i, result) ← editLoop fname mtime breg subst so result
  -- we copy what is out of the match
  put result i (fname.drop (breg 0).rmEo.toNat ++ [0])

/-! ## What the replacement means -/

/-- A part of the replacement. -/
inductive Piece where
  | char (c : UInt8)
  | mtime
  | reference (no : Fin 10)

def pieces : Text → List Piece
  | [] => []
  | [c] => [.char c]
  | c :: d :: rest =>
      if c = dollar ∧ d = letterM then .mtime :: pieces rest
      else match (if c = dollar ∨ c = backslash then register d else none) with
        | some no => .reference no :: pieces rest
        | none => .char c :: pieces (d :: rest)

/-- The part of the name that a group has matched. -/
def matched (fname : Text) (m : RegMatch) : Text :=
  if m.rmSo ≥ 0 ∧ m.rmEo ≥ 0 then (fname.drop m.rmSo.toNat).take m.length.toNat else []

def Piece.text (fname : Text) (mtime : UInt64) (breg : Registers) : Piece → Text
  | .char c => [c]
  | .mtime => decimal mtime.toNat
  | .reference no => matched fname (breg no)

/-- The replacement with its references expanded. -/
def expand (fname subst : Text) (mtime : UInt64) (breg : Registers) : Text :=
  (pieces subst).flatMap (Piece.text fname mtime breg)

/-- The registers of a successful match: the whole match is inside the name, and a group is unset
or inside the name. -/
structure Matched (fname : Text) (breg : Registers) : Prop where
  whole : 0 ≤ (breg 0).rmSo ∧ (breg 0).rmSo ≤ (breg 0).rmEo ∧ (breg 0).rmEo ≤ fname.length
  group : ∀ no, (breg no).rmSo < 0 ∨ (breg no).rmEo < 0 ∨
    ((breg no).rmSo ≤ (breg no).rmEo ∧ (breg no).rmEo ≤ fname.length)

/-! ## The size of the result -/

variable {fname subst : Text} {mtime : UInt64} {breg : Registers}

theorem decimal_length (n : UInt64) : (decimal n.toNat).length ≤ 20 := by
  have bound := n.toNat_lt
  rw [decimal, List.length_map, Nat.length_toDigits_le_iff (by decide) (by decide)]
  omega

theorem length_matched (valid : Matched fname breg) (no : Fin 10) :
    ((matched fname (breg no)).length : ℤ) =
      if (breg no).rmSo ≥ 0 ∧ (breg no).rmEo ≥ 0 then (breg no).length else 0 := by
  unfold matched
  split
  · next set =>
      rcases valid.group no with unset | unset | inside
      · omega
      · omega
      · rw [List.length_take, List.length_drop, RegMatch.length]
        omega
  · rfl

theorem expand_char {c d : UInt8} {rest : Text} (noTime : ¬ (c = dollar ∧ d = letterM))
    (noReference : c = dollar ∨ c = backslash → register d = none) :
    expand fname (c :: d :: rest) mtime breg = c :: expand fname (d :: rest) mtime breg := by
  have none : (if c = dollar ∨ c = backslash then register d else Option.none) = Option.none := by
    split
    · next escape => exact noReference escape
    · rfl
  rw [expand, pieces, if_neg noTime, none]
  rfl

theorem expand_mtime (rest : Text) : expand fname (dollar :: letterM :: rest) mtime breg =
    decimal mtime.toNat ++ expand fname rest mtime breg := by
  rw [expand, pieces, if_pos ⟨rfl, rfl⟩]
  rfl

theorem expand_reference {c d : UInt8} {rest : Text} {no : Fin 10}
    (noTime : ¬ (c = dollar ∧ d = letterM)) (escape : c = dollar ∨ c = backslash)
    (found : register d = some no) :
    expand fname (c :: d :: rest) mtime breg =
      matched fname (breg no) ++ expand fname rest mtime breg := by
  rw [expand, pieces, if_neg noTime, if_pos escape, found]
  rfl

theorem expand_char_m (rest : Text) :
    expand fname (letterM :: rest) mtime breg = letterM :: expand fname rest mtime breg := by
  cases rest with
  | nil => rfl
  | cons d rest =>
      refine expand_char (fun both => ?_) fun escape => ?_
      · exact absurd both.1 (by decide)
      · exact absurd escape (by decide)

/-- The counted length is enough for the text. -/
theorem expand_le_destLen (valid : Matched fname breg) (subst : Text) :
    ((expand fname subst mtime breg).length : ℤ) ≤ destLen breg subst := by
  fun_induction destLen breg subst with
  | case1 => exact le_rfl
  | case2 c => exact le_rfl
  | case3 p q psubst time ih =>
      -- the m is counted once more, and a number has at most 20 digits
      obtain ⟨rfl, rfl⟩ := time
      have digits := decimal_length mtime
      rw [expand_char_m, List.length_cons] at ih
      rw [expand_mtime, List.length_append]
      omega
  | case4 p q psubst noTime escape no found ih =>
      rw [expand_reference noTime escape found, List.length_append]
      have group := length_matched valid no
      push_cast
      omega
  | case5 p q psubst noTime escape found ih =>
      rw [expand_char noTime fun _ => found, List.length_cons]
      push_cast
      omega
  | case6 p q psubst noTime plain ih =>
      rw [expand_char noTime fun escape => absurd escape plain, List.length_cons]
      push_cast
      omega

/-! ## The text of the result -/

theorem put_eq {result data : Text} {i : ℕ} (room : i + data.length ≤ result.length) :
    ∃ result', put result i data = some result' ∧ result'.length = result.length ∧
      ∀ n ≤ data.length, result'.take (i + n) = result.take i ++ data.take n := by
  refine ⟨_, by rw [put, if_pos room], ?_, fun n within => ?_⟩
  · simp only [List.length_append, List.length_take, List.length_drop]
    omega
  · have front : (result.take i).length = i := List.length_take_of_le (by omega)
    rw [List.append_assoc, List.take_append, front, List.take_of_length_le (by omega),
      Nat.add_sub_cancel_left, List.take_append_of_le_length within]

/-- The text of a piece is written, possibly with an end that is overwritten later. -/
theorem put_text {result text rest : Text} {i : ℕ}
    (room : i + text.length + rest.length ≤ result.length) :
    ∃ result', put result i (text ++ rest) = some result' ∧ result'.length = result.length ∧
      result'.take (i + text.length) = result.take i ++ text := by
  obtain ⟨result', eq, length, taken⟩ := put_eq (show i + (text ++ rest).length ≤ result.length by
    rw [List.length_append]; omega)
  refine ⟨result', eq, length, ?_⟩
  rw [taken text.length (by rw [List.length_append]; omega), List.take_left]

theorem editLoop_spec (valid : Matched fname breg) (subst : Text) (i : ℕ) (result : Text)
    (room : i + (expand fname subst mtime breg).length + 1 ≤ result.length) :
    ∃ result', editLoop fname mtime breg subst i result =
        some (i + (expand fname subst mtime breg).length, result') ∧
      result'.length = result.length ∧
      result'.take (i + (expand fname subst mtime breg).length) =
        result.take i ++ expand fname subst mtime breg := by
  -- a piece, and the loop behind it
  have piece {text rest stop : Text} {i : ℕ} {result : Text}
      (room : i + (text ++ expand fname rest mtime breg).length + 1 ≤ result.length)
      (short : stop.length ≤ 1)
      (ih : ∀ result : Text,
        i + text.length + (expand fname rest mtime breg).length + 1 ≤ result.length →
        ∃ result', editLoop fname mtime breg rest (i + text.length) result =
            some (i + text.length + (expand fname rest mtime breg).length, result') ∧
          result'.length = result.length ∧
          result'.take (i + text.length + (expand fname rest mtime breg).length) =
            result.take (i + text.length) ++ expand fname rest mtime breg) :
      ∃ result', ((put result i (text ++ stop)).bind fun result =>
            editLoop fname mtime breg rest (i + text.length) result) =
          some (i + (text ++ expand fname rest mtime breg).length, result') ∧
        result'.length = result.length ∧
        result'.take (i + (text ++ expand fname rest mtime breg).length) =
          result.take i ++ (text ++ expand fname rest mtime breg) := by
    rw [List.length_append] at room ⊢
    obtain ⟨first, eq, length, taken⟩ :=
      put_text (show i + text.length + stop.length ≤ result.length by omega)
    obtain ⟨result', eq', length', taken'⟩ := ih first (by omega)
    refine ⟨result', ?_, length'.trans length, ?_⟩
    · rw [eq, Option.bind_some, eq', Nat.add_assoc]
    · rw [← Nat.add_assoc, taken', taken, List.append_assoc]
  -- a plain character
  have plain {p q : UInt8} {psubst : Text} {i : ℕ} {result : Text}
    (noTime : ¬ (p = dollar ∧ q = letterM))
      (noReference : p = dollar ∨ p = backslash → register q = none)
      (room : i + (expand fname (p :: q :: psubst) mtime breg).length + 1 ≤ result.length)
      (ih : ∀ result : Text,
        i + 1 + (expand fname (q :: psubst) mtime breg).length + 1 ≤ result.length →
        ∃ result', editLoop fname mtime breg (q :: psubst) (i + 1) result =
            some (i + 1 + (expand fname (q :: psubst) mtime breg).length, result') ∧
          result'.length = result.length ∧
          result'.take (i + 1 + (expand fname (q :: psubst) mtime breg).length) =
            result.take (i + 1) ++ expand fname (q :: psubst) mtime breg) :
      ∃ result', ((put result i [p]).bind fun result =>
            editLoop fname mtime breg (q :: psubst) (i + 1) result) =
          some (i + (expand fname (p :: q :: psubst) mtime breg).length, result') ∧
        result'.length = result.length ∧
        result'.take (i + (expand fname (p :: q :: psubst) mtime breg).length) =
          result.take i ++ expand fname (p :: q :: psubst) mtime breg := by
    rw [expand_char noTime noReference] at room ⊢
    exact @piece [p] (q :: psubst) [] i result room (Nat.zero_le _) ih
  induction subst, i, result using editLoop.induct mtime breg with
  | case1 i result => exact ⟨result, rfl, rfl, by simp [expand, pieces]⟩
  | case2 p i result =>
      obtain ⟨result', eq, length, taken⟩ :=
        put_text (show i + [p].length + [].length ≤ result.length from Nat.le_of_succ_le room)
      rw [List.append_nil] at eq
      exact ⟨result', by rw [editLoop, eq]; rfl, length, taken⟩
  | case3 p q psubst i result time ed ih =>
      obtain ⟨rfl, rfl⟩ := time
      rw [expand_mtime] at room ⊢
      rw [editLoop, if_pos ⟨rfl, rfl⟩]
      simp only [bstrncpy]
      rw [List.take_length]
      exact @piece ed psubst [0] i result room le_rfl ih
  | case4 p q psubst i result noTime escape no found set len ih =>
      have group := length_matched valid no
      have text : (fname.drop (breg no).rmSo.toNat).take (breg no).length.toNat =
          matched fname (breg no) := by
        rw [matched, if_pos set]
      have length : (breg no).length.toNat = (matched fname (breg no)).length := by
        rw [if_pos set] at group
        omega
      rw [expand_reference noTime escape found] at room ⊢
      rw [editLoop, if_neg noTime, if_pos escape, found]
      simp only [if_pos set, bstrncpy]
      rw [text, length]
      rw [show len = (matched fname (breg no)).length from length] at ih
      exact @piece _ psubst [0] i result room le_rfl ih
  | case5 p q psubst i result noTime escape no found unset ih =>
      have none : matched fname (breg no) = [] := if_neg unset
      rw [expand_reference noTime escape found, none, List.nil_append] at room ⊢
      rw [editLoop, if_neg noTime, if_pos escape, found]
      simp only [if_neg unset]
      exact ih room
  | case6 p q psubst i result noTime escape found ih =>
      rw [editLoop, if_neg noTime, if_pos escape, found]
      exact plain noTime (fun _ => found) room ih
  | case7 p q psubst i result noTime other ih =>
      rw [editLoop, if_neg noTime, if_neg other]
      exact plain noTime (fun escape => absurd escape other) room ih

theorem expand_terminated (terminated : 0 ∉ fname) (replacement : 0 ∉ subst) :
    0 ∉ expand fname subst mtime breg := by
  have group (no : Fin 10) : 0 ∉ matched fname (breg no) := by
    unfold matched
    split
    · exact fun member => terminated (List.mem_of_mem_drop (List.mem_of_mem_take member))
    · exact List.not_mem_nil
  fun_induction destLen breg subst with
  | case1 => exact List.not_mem_nil
  | case2 c => exact replacement
  | case3 p q psubst time ih =>
      obtain ⟨rfl, rfl⟩ := time
      have later := ih fun member => replacement (List.mem_cons_of_mem _ member)
      rw [expand_char_m] at later
      rw [expand_mtime]
      intro member
      rcases List.mem_append.mp member with digits | rest
      · exact decimal_terminated _ digits
      · exact later (List.mem_cons_of_mem _ rest)
  | case4 p q psubst noTime escape no found ih =>
      rw [expand_reference noTime escape found]
      intro member
      rcases List.mem_append.mp member with text | rest
      · exact group no text
      · exact ih (fun later => replacement (List.mem_cons_of_mem _ (List.mem_cons_of_mem _ later))) rest
  | case5 p q psubst noTime escape found ih =>
      rw [expand_char noTime fun _ => found]
      intro member
      rcases List.mem_cons.mp member with rfl | rest
      · exact replacement List.mem_cons_self
      · exact ih (fun later => replacement (List.mem_cons_of_mem _ later)) rest
  | case6 p q psubst noTime plain ih =>
      rw [expand_char noTime fun escape => absurd escape plain]
      intro member
      rcases List.mem_cons.mp member with rfl | rest
      · exact replacement List.mem_cons_self
      · exact ih (fun later => replacement (List.mem_cons_of_mem _ later)) rest

/-- The name `abcd`, of which `bc` has matched with the group `c`. -/
def abcd : Text := [97, 98, 99, 100]

def groups : Registers := fun no => if no = 0 then ⟨1, 3⟩ else if no = 1 then ⟨2, 3⟩ else ⟨-1, -1⟩

/-- `$1`, `$m` and a backslash. -/
def replacing : Text := [36, 49, 36, 109, 92]

example : expand abcd replacing 7 groups = [99, 55, 92] := by decide

end Bacula.Breg
