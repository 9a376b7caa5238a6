import Bacula.Lib.NextArg

/-! Command lines as they are written, and the arguments that come back from them. -/
namespace Bacula.CmdLine
open CMemory

/-- An argument, with the choice of quotes where they are not needed. -/
structure Argument extends CString where
  quoted : Bool

def escape (s : List Char) : List Char :=
  s.flatMap fun c => if c = '"' ∨ c = '\\' then ['\\', c] else [c]

def quote (s : List Char) : List Char := '"' :: (escape s ++ ['"'])

/-- `keyword` or `keyword="value"`. -/
def Argument.written (a : Argument) : List Char :=
  (if a.quoted ∨ a.chars = [] ∨ ∃ c ∈ keyword a.chars, isSpace c then quote (keyword a.chars)
    else escape (keyword a.chars)) ++
  match value a.chars with
  | some v => '=' :: quote v
  | none => []

/-- Arguments are joined with blanks. -/
def line : List Argument → List Char
  | [] => []
  | [a] => a.written
  | a :: items => a.written ++ ' ' :: line items

theorem mem_escape {c : Char} {s : List Char} (member : c ∈ escape s) : c ∈ s ∨ c = '\\' := by
  simp only [escape, List.mem_flatMap] at member
  obtain ⟨d, inside, member⟩ := member
  split at member
  · rcases List.mem_cons.mp member with rfl | member
    · exact .inr rfl
    · exact .inl (List.mem_singleton.mp member ▸ inside)
  · exact .inl (List.mem_singleton.mp member ▸ inside)

theorem mem_quote {c : Char} {s : List Char} (member : c ∈ quote s) :
    c ∈ s ∨ c = '\\' ∨ c = '"' := by
  simp only [quote, List.mem_cons, List.mem_append, List.not_mem_nil, or_false] at member
  rcases member with rfl | member | rfl
  · exact .inr (.inr rfl)
  · exact (mem_escape member).imp_right .inl
  · exact .inr (.inr rfl)

theorem keyword_value (arg : List Char) :
    '=' ∉ arg ∧ keyword arg = arg ∧ value arg = none ∨
      ∃ v, value arg = some v ∧ keyword arg ++ '=' :: v = arg := by
  by_cases found : '=' ∈ arg
  · obtain ⟨k, v, rfl, absent⟩ := List.eq_append_cons_of_mem found
    exact .inr ⟨v, value_append absent, by rw [keyword_append absent]⟩
  · exact .inl ⟨found, keyword_self found, if_neg found⟩

theorem Argument.written_text (a : Argument) : nul ∉ a.written := by
  have key (member : nul ∈ keyword a.chars) : False :=
    a.terminated ((List.takeWhile_sublist _).subset member)
  have mark : ¬(nul = '\\' ∨ nul = '"') := by decide
  intro member
  rw [written, List.mem_append] at member
  rcases member with member | member
  · split at member
    · exact (mem_quote member).elim key mark
    · exact (mem_escape member).elim key fun same => mark (.inl same)
  · rcases keyword_value a.chars with ⟨-, -, none⟩ | ⟨v, some, parts⟩
    · rw [none] at member
      exact List.not_mem_nil member
    · rw [some] at member
      have inside : nul ∈ v → nul ∈ a.chars := fun member => by rw [← parts]; simp [member]
      rcases List.mem_cons.mp member with same | member
      · exact absurd same (by decide)
      · exact (mem_quote member).elim (fun member => a.terminated (inside member)) mark

theorem line_text (items : List Argument) : nul ∉ line items := by
  fun_induction line items with
  | case1 => exact List.not_mem_nil
  | case2 a => exact a.written_text
  | case3 a items more ih =>
      simp only [List.mem_append, List.mem_cons, not_or]
      exact ⟨a.written_text, by decide, ih⟩

def commandLine (items : List Argument) : CString := ⟨line items, line_text items⟩

/-! ## What comes back -/

theorem token_escape {inQuote : Bool} {s : List Char} (rest : List Char)
    (inside : inQuote = false → ∀ c ∈ s, isSpace c = false) :
    token inQuote (escape s ++ rest) = (s ++ (token inQuote rest).1, (token inQuote rest).2) := by
  induction s with
  | nil => rfl
  | cons c s ih =>
      have step := ih fun unquoted x member => inside unquoted x (.tail _ member)
      by_cases special : c = '"' ∨ c = '\\'
      · have written : escape (c :: s) = '\\' :: c :: escape s := by simp [escape, special]
        rw [written, List.cons_append, List.cons_append, token_slash, step]
        rfl
      · have written : escape (c :: s) = c :: escape s := by simp [escape, special]
        rw [not_or] at special
        rw [written, List.cons_append, token_other special.2 special.1
          (fun unquoted => inside unquoted c List.mem_cons_self), step]
        rfl

theorem token_quote (s rest : List Char) :
    token false (quote s ++ rest) = (s ++ (token false rest).1, (token false rest).2) := by
  rw [quote, List.cons_append, token_quote_mark, List.append_assoc, Bool.not_false,
    token_escape _ (fun h => absurd h (by decide)), List.singleton_append, token_quote_mark,
    Bool.not_true]

theorem Argument.token_written (a : Argument) (rest : List Char) :
    token false (a.written ++ rest) =
      (a.chars ++ (token false rest).1, (token false rest).2) := by
  have key (more : List Char) : token false ((if a.quoted ∨ a.chars = [] ∨
      ∃ c ∈ keyword a.chars, isSpace c then quote (keyword a.chars)
        else escape (keyword a.chars)) ++ more) =
      (keyword a.chars ++ (token false more).1, (token false more).2) := by
    split
    · exact token_quote _ _
    · rename_i plain
      refine token_escape _ fun _ c member => ?_
      simp only [not_or, not_exists, not_and, Bool.not_eq_true] at plain
      exact plain.2.2 c member
  rw [written, List.append_assoc, key]
  rcases keyword_value a.chars with ⟨-, same, none⟩ | ⟨v, some, parts⟩
  · rw [none, same, List.nil_append]
  · rw [some, List.cons_append, token_other (by decide) (by decide) (fun _ => by decide),
      token_quote]
    nth_rewrite 2 [← parts]
    rw [List.append_assoc, List.cons_append]

/-- No blank at the start and none at the end. -/
structure Solid (s : List Char) : Prop where
  first : ∃ c more, s = c :: more ∧ isSpace c = false
  last : ∃ more c, s = more ++ [c] ∧ isSpace c = false

theorem Solid.around {s t : List Char} (left : Solid s) (right : Solid t) (between : List Char) :
    Solid (s ++ (between ++ t)) := by
  obtain ⟨c, more, rfl, solid⟩ := left.first
  obtain ⟨front, d, rfl, end_solid⟩ := right.last
  exact ⟨⟨c, more ++ (between ++ (front ++ [d])), rfl, solid⟩,
    ⟨c :: more ++ (between ++ front), d, by simp, end_solid⟩⟩

theorem Solid.append {s t : List Char} (left : Solid s) (right : Solid t) : Solid (s ++ t) :=
  left.around right []

theorem Solid.of_all {s : List Char} (some : s ≠ []) (all : ∀ c ∈ s, isSpace c = false) :
    Solid s := by
  refine ⟨?_, ?_⟩
  · obtain ⟨c, more, rfl⟩ := List.exists_cons_of_ne_nil some
    exact ⟨c, more, rfl, all c List.mem_cons_self⟩
  · exact ⟨s.dropLast, s.getLast some, (List.dropLast_append_getLast some).symm,
      all _ (List.getLast_mem some)⟩

theorem quote_solid (s : List Char) : Solid (quote s) :=
  ⟨⟨'"', escape s ++ ['"'], rfl, by decide⟩, ⟨'"' :: escape s, '"', rfl, by decide⟩⟩

theorem escape_solid {s : List Char} (some : s ≠ []) (all : ∀ c ∈ s, isSpace c = false) :
    Solid (escape s) := by
  refine .of_all (fun none => ?_) fun c member => ?_
  · obtain ⟨c, more, rfl⟩ := List.exists_cons_of_ne_nil some
    rw [escape, List.flatMap_cons, List.append_eq_nil_iff] at none
    by_cases special : c = '"' ∨ c = '\\' <;> simp [special] at none
  · rcases mem_escape member with member | rfl
    · exact all c member
    · decide

theorem Argument.written_solid (a : Argument) : Solid a.written := by
  have pair (v : List Char) : Solid ('=' :: quote v) :=
    Solid.append (.of_all (List.cons_ne_nil '=' []) fun c member => by
      rw [List.mem_singleton.mp member]
      decide) (quote_solid v)
  rcases keyword_value a.chars with ⟨-, same, none⟩ | ⟨v, some, parts⟩
  · rw [written, none, same, List.append_nil]
    split
    · exact quote_solid _
    · rename_i plain
      simp only [not_or, not_exists, not_and, Bool.not_eq_true] at plain
      exact escape_solid plain.2.1 plain.2.2
  · rw [written, some]
    split
    · exact (quote_solid _).append (pair v)
    · rename_i plain
      simp only [not_or, not_exists, not_and, Bool.not_eq_true] at plain
      by_cases empty : keyword a.chars = []
      · rw [empty]
        exact pair v
      · exact (escape_solid empty plain.2.2).append (pair v)

theorem line_solid {items : List Argument} (some : items ≠ []) : Solid (line items) := by
  fun_induction line items with
  | case1 => exact absurd rfl some
  | case2 a => exact a.written_solid
  | case3 a items more ih => exact a.written_solid.around (ih more) [' ']

/-- There is nothing to strip. -/
theorem line_strip (items : List Argument) :
    Duration.stripTrailingJunk (line items) = line items := by
  by_cases some : items = []
  · rw [some]
    rfl
  · obtain ⟨more, c, same, solid⟩ := (line_solid some).last
    rw [same]
    refine List.rdropWhile_concat_neg _ _ _ fun junk => ?_
    simp only [solid, Bool.false_or, Bool.or_eq_true, beq_iff_eq] at junk
    rcases junk with rfl | rfl <;> exact absurd solid (by decide)

theorem tokens_written (room : ℕ) (a : Argument) (rest : List Char)
    (stop : (token false rest).1 = []) :
    tokens (room + 1) (a.written ++ rest) =
      if a.chars ≠ [] then (a.chars :: (tokens room (token false rest).2).1,
        (tokens room (token false rest).2).2)
      else ([], (token false rest).2) := by
  have front : (a.written ++ rest).dropWhile isSpace = a.written ++ rest := by
    obtain ⟨c, more, same, solid⟩ := a.written_solid.first
    rw [same, List.cons_append, List.dropWhile_cons, if_neg (by simp [solid])]
  simp only [tokens, front, a.token_written, stop, List.append_nil, cstr_self a.terminated]

theorem tokens_line (room : ℕ) (items : List Argument) (few : items.length ≤ room) :
    tokens room (line items) =
      ((items.map fun a => a.chars).takeWhile (· ≠ []),
        line (items.dropWhile (fun a => a.chars ≠ [])).tail) := by
  fun_induction line items generalizing room with
  | case1 => exact tokens_nil room
  | case2 a =>
      obtain ⟨room, rfl⟩ := Nat.exists_eq_add_of_le' few
      have step := tokens_written room a [] rfl
      rw [List.append_nil] at step
      rw [show token false [] = ([], []) from rfl, tokens_nil] at step
      by_cases some : a.chars = [] <;> simp [step, some, line]
  | case3 a items more ih =>
      cases room with
      | zero => simp at few
      | succ room =>
          have blank : token false (' ' :: line items) = ([], line items) :=
            token_blank (by decide) (by decide) (by decide) _
          have step := tokens_written room a (' ' :: line items) (by rw [blank])
          rw [blank, ih _ (Nat.le_of_succ_le_succ few)] at step
          by_cases some : a.chars = [] <;> simp [step, some]

/-- The arguments come back from `parse_args_only` and from `parse_args`, and the scan went on up to
the end of the line. -/
def GivenBack (items : List Argument) : Prop :=
  let only := parseArgsOnly (commandLine items) maxCmdArgs
  let separated := parseArgs (commandLine items) maxCmdArgs
  (only.argc = items.length ∧ only.keys = items.map (·.chars) ∧
    only.argv = items.map (fun _ => none) ∧ strAt only.args only.p = []) ∧
  separated.argc = items.length ∧ separated.keys = items.map (fun a => keyword a.chars) ∧
    separated.values = items.map fun a => value a.chars

theorem parseArgsOnly_line (items : List Argument) (room : ℕ) :
    ∃ args argk p, parseArgsOnly (commandLine items) room =
        ⟨args, argk.length, argk, argk.map fun _ => none, p⟩ ∧
      Laid 0 args (tokens room (line items)).1 argk ∧
      strAt args p = (tokens room (line items)).2 := by
  obtain ⟨args, argk, p, run, laid, ends⟩ := pickUp_spec room (line items) (line_text items) [] []
  refine ⟨args, argk, p, ?_, laid, ends⟩
  have memory : line items ++ List.replicate ((line items).length - (line items).length + 1) nul =
      [] ++ (line items ++ [nul]) := by simp
  simp only [parseArgsOnly, commandLine, line_strip, memory]
  rw [show pickUp room ([] ++ (line items ++ [nul])) 0 = (args, argk, p) from run]

/-- An argument that is empty ends the scan. -/
theorem givenBack_iff (items : List Argument) (few : items.length ≤ maxCmdArgs) :
    GivenBack items ↔ ∀ a ∈ items, a.chars ≠ [] := by
  obtain ⟨args, argk, p, only, laid, ends⟩ := parseArgsOnly_line items maxCmdArgs
  rw [tokens_line _ _ few] at laid ends
  have strings := laid.strings []
  rw [List.nil_append] at strings
  constructor
  · rintro ⟨⟨-, same, -, -⟩, -⟩ a member
    rw [only, Parsed.keys, strings] at same
    exact of_decide_eq_true (List.takeWhile_eq_self_iff.mp same a.chars (List.mem_map_of_mem member))
  · intro some
    have all : (items.map fun a => a.chars).takeWhile (· ≠ []) = items.map fun a => a.chars :=
      List.takeWhile_eq_self_iff.mpr fun t member => by
        obtain ⟨a, inside, rfl⟩ := List.mem_map.mp member
        exact decide_eq_true (some a inside)
    have none : items.dropWhile (fun a => a.chars ≠ []) = [] :=
      List.dropWhile_eq_nil_iff.mpr fun a member => decide_eq_true (some a member)
    rw [all] at laid strings
    rw [none] at ends
    have count : argk.length = items.length := by
      simpa using congrArg List.length strings
    have separated := separate_spec [] laid
    obtain ⟨args', argv, run, keys, values⟩ := separated
    rw [List.nil_append, List.nil_append] at run
    rw [List.nil_append] at keys values
    refine ⟨?_, ?_⟩
    · rw [only]
      exact ⟨count, strings, by simp [count], ends⟩
    · simp only [parseArgs, only, run, Parsed.keys, Parsed.values, keys, values, List.map_map]
      exact ⟨count, rfl, rfl⟩

theorem givenBack_blank_and_quote : GivenBack
    [⟨⟨['l', 's'], by decide⟩, false⟩, ⟨⟨['p', '=', 'a', ' ', '"'], by decide⟩, false⟩,
      ⟨⟨['q', '='], by decide⟩, true⟩] :=
  (givenBack_iff _ (by decide)).mpr (by simp)

theorem empty_argument_dropped : ¬GivenBack
    [⟨⟨['l', 's'], by decide⟩, false⟩, ⟨⟨[], by decide⟩, false⟩,
      ⟨⟨['j', 'o', 'b'], by decide⟩, false⟩] := by
  rintro ⟨⟨-, same, -⟩, -⟩
  obtain ⟨args, argk, p, only, laid, -⟩ := parseArgsOnly_line [⟨⟨['l', 's'], by decide⟩, false⟩,
    ⟨⟨[], by decide⟩, false⟩, ⟨⟨['j', 'o', 'b'], by decide⟩, false⟩] maxCmdArgs
  have strings := laid.strings []
  rw [List.nil_append, tokens_line _ _ (by decide)] at strings
  rw [only, Parsed.keys, strings] at same
  exact absurd same (by decide)

end Bacula.CmdLine
