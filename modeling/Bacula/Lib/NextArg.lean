import Bacula.Lib.Sellist
import Bacula.Lib.Duration

/-! The command line, `next_arg`, `parse_args_only` and `parse_args` of `lib/scan.c`. The line is
edited in place: arguments are pointers into the memory of `args`. -/
namespace Bacula.CmdLine
open CMemory

def maxCmdArgs : ℕ := 30

/-- The loop of `next_arg`, with a bound on its rounds: the memory, `p` and `q`. -/
def nextArgLoop : ℕ → List Char → ℕ → ℕ → Bool → List Char × ℕ × ℕ
  | 0, args, p, q, _ => (args, p, q)
  | rounds + 1, args, p, q, inQuote =>
      let c := args.getD p nul
      if c = nul then (args, p, q)
      else if c = '\\' then -- slash? yes, skip it
        let d := args.getD (p + 1) nul
        if d ≠ nul then nextArgLoop rounds (args.set q d) (p + 2) (q + 1) inQuote
        else nextArgLoop rounds (args.set q d) (p + 1) (q + 1) inQuote
      else if c = '"' then nextArgLoop rounds args (p + 1) q (!inQuote)
      else if !inQuote && isSpace c then (args, p + 1, q) -- end of field
      else nextArgLoop rounds (args.set q c) (p + 1) (q + 1) inQuote

/-- `next_arg`: the memory, the argument and the pointer to the remainder of the line. -/
def nextArg (args : List Char) (s : ℕ) : List Char × ℕ × ℕ :=
  let n := s + ((strAt args s).takeWhile isSpace).length
  let (args, p, q) := nextArgLoop args.length args n n false
  (args.set q nul, n, p)

/-- The loop of `parse_args_only` with the room that is left: the memory, `argk` and `p`. -/
def pickUp : ℕ → List Char → ℕ → List Char × List ℕ × ℕ
  | 0, args, p => (args, [], p)
  | room + 1, args, p =>
      let (args, n, p) := nextArg args p
      if strAt args n ≠ [] then
        let (args, argk, p) := pickUp room args p
        (args, n :: argk, p)
      else (args, [], p)

/-- What a caller gets, with the pointer `p` at the end of the scan. -/
structure Parsed where
  args : List Char
  argc : ℕ
  argk : List ℕ
  argv : List (Option ℕ)
  p : ℕ

/-- The strings of the arguments. -/
def Parsed.keys (parsed : Parsed) : List (List Char) := parsed.argk.map (strAt parsed.args)

def Parsed.values (parsed : Parsed) : List (Option (List Char)) :=
  parsed.argv.map (Option.map (strAt parsed.args))

/-- `parse_args_only`. What `strip_trailing_junk` takes off is overwritten with ends of strings. -/
def parseArgsOnly (cmd : CString) (maxArgs : ℕ) : Parsed :=
  let line := Duration.stripTrailingJunk cmd.chars
  let args := line ++ List.replicate (cmd.chars.length - line.length + 1) nul
  let (args, argk, p) := pickUp maxArgs args 0
  ⟨args, argk.length, argk, argk.map fun _ => none, p⟩

/-- The separation of keyword and value. -/
def separate : List Char → List ℕ → List Char × List (Option ℕ)
  | args, [] => (args, [])
  | args, k :: argk =>
      match strchr args k '=' with
      | some i =>
          let (args, argv) := separate (args.set i nul) argk
          (args, some (i + 1) :: argv)
      | none =>
          let (args, argv) := separate args argk
          (args, none :: argv)

/-- `parse_args`. -/
def parseArgs (cmd : CString) (maxArgs : ℕ) : Parsed :=
  let parsed := parseArgsOnly cmd maxArgs
  let (args, argv) := separate parsed.args parsed.argk
  { parsed with args, argv }

/-! ## What the loop reads -/

/-- The characters of an argument, and what is left of the line. A slash at the end of the line
stands for the end itself. -/
def token : Bool → List Char → List Char × List Char
  | _, [] => ([], [])
  | inQuote, c :: s =>
      if c = '\\' then
        match s with
        | [] => ([nul], [])
        | d :: s => (d :: (token inQuote s).1, (token inQuote s).2)
      else if c = '"' then token (!inQuote) s
      else if !inQuote && isSpace c then ([], s)
      else (c :: (token inQuote s).1, (token inQuote s).2)

theorem token_slash (inQuote : Bool) (d : Char) (s : List Char) :
    token inQuote ('\\' :: d :: s) = (d :: (token inQuote s).1, (token inQuote s).2) := by
  rw [token.eq_def]
  rfl

theorem token_quote_mark (inQuote : Bool) (s : List Char) :
    token inQuote ('"' :: s) = token (!inQuote) s := by
  rw [token.eq_def]
  rfl

theorem token_blank {c : Char} (blank : isSpace c) (slash : c ≠ '\\') (mark : c ≠ '"')
    (s : List Char) : token false (c :: s) = ([], s) := by
  rw [token.eq_def]
  simp [slash, mark, blank]

theorem token_other {inQuote : Bool} {c : Char} (slash : c ≠ '\\') (mark : c ≠ '"')
    (inside : inQuote = false → isSpace c = false) (s : List Char) :
    token inQuote (c :: s) = (c :: (token inQuote s).1, (token inQuote s).2) := by
  rw [token.eq_def]
  cases inQuote <;> simp_all

/-- The keyword of an argument, and the value if there is one. -/
def keyword (arg : List Char) : List Char := arg.takeWhile (· != '=')

def value (arg : List Char) : Option (List Char) :=
  if '=' ∈ arg then some (arg.dropWhile (· != '=')).tail else none

/-- The string that starts a list of characters. -/
def cstr (t : List Char) : List Char := t.takeWhile (· != nul)

def tokens : ℕ → List Char → List (List Char) × List Char
  | 0, s => ([], s)
  | room + 1, s =>
      let (t, s) := token false (s.dropWhile isSpace)
      if cstr t ≠ [] then (cstr t :: (tokens room s).1, (tokens room s).2) else ([], s)

theorem token_suffix (inQuote : Bool) (s : List Char) : (token inQuote s).2 <:+ s := by
  fun_induction token inQuote s with
  | case1 => exact List.suffix_refl _
  | case2 => exact List.nil_suffix
  | case3 b d s ih => exact (ih.trans (List.suffix_cons _ _)).trans (List.suffix_cons _ _)
  | case4 b s slash ih => exact ih.trans (List.suffix_cons _ _)
  | case5 b c s slash quote blank => exact List.suffix_cons _ _
  | case6 b c s slash quote other ih => exact ih.trans (List.suffix_cons _ _)

variable {pre tok gap rest junk : List Char}

/-- What has been read and not been written over lies between `q` and `p`. -/
theorem getD_read (pre tok gap rest : List Char) (c : Char) :
    (pre ++ (tok ++ (gap ++ c :: rest))).getD (pre.length + tok.length + gap.length) nul = c := by
  have same : pre ++ (tok ++ (gap ++ c :: rest)) = pre ++ ((tok ++ gap) ++ c :: rest) := by simp
  rw [same, Nat.add_assoc, ← List.length_append, getD_append_cons]

theorem getD_read_two (pre tok gap rest : List Char) (c d : Char) :
    (pre ++ (tok ++ (gap ++ c :: d :: rest))).getD (pre.length + tok.length + gap.length + 1) nul =
      d := by
  have read := getD_read pre tok (gap ++ [c]) rest d
  rw [← read]
  simp [Nat.add_assoc]

/-- A character is stored behind the argument, over the first one that has been read. -/
theorem set_read (pre tok gap rest : List Char) {read : List Char} (some : read ≠ []) (c : Char) :
    (pre ++ (tok ++ (gap ++ (read ++ rest)))).set (pre.length + tok.length) c =
      pre ++ ((tok ++ [c]) ++ ((gap ++ read).tail ++ rest)) := by
  obtain ⟨r, left, same⟩ := List.exists_cons_of_ne_nil (List.append_ne_nil_of_right_ne_nil gap some)
  rw [← List.append_assoc gap, same, List.cons_append, set_append_cons]
  simp

theorem read_offset (pre tok gap : List Char) {read : List Char} (some : read ≠ []) (c : Char) :
    pre.length + tok.length + gap.length + read.length =
      pre.length + (tok ++ [c]).length + (gap ++ read).tail.length := by
  have := List.length_pos_of_ne_nil some
  simp
  omega

theorem nextArgLoop_end (pre tok gap rest : List Char) (rounds q : ℕ) (inQuote : Bool) :
    nextArgLoop rounds (pre ++ (tok ++ (gap ++ nul :: rest)))
        (pre.length + tok.length + gap.length) q inQuote =
      (pre ++ (tok ++ (gap ++ nul :: rest)), pre.length + tok.length + gap.length, q) := by
  cases rounds with
  | zero => rfl
  | succ rounds => rw [nextArgLoop, getD_read, if_pos rfl]

theorem nextArgLoop_spec (inQuote : Bool) (s : List Char) (text : nul ∉ s) (rounds : ℕ)
    (enough : s.length ≤ rounds) (pre tok gap junk : List Char) :
    ∃ gap', nextArgLoop rounds (pre ++ (tok ++ (gap ++ (s ++ nul :: junk))))
        (pre.length + tok.length + gap.length) (pre.length + tok.length) inQuote =
      (pre ++ ((tok ++ (token inQuote s).1) ++ (gap' ++ ((token inQuote s).2 ++ nul :: junk))),
        pre.length + (tok ++ (token inQuote s).1).length + gap'.length,
        pre.length + (tok ++ (token inQuote s).1).length) ∧
      (gap' = [] → (token inQuote s).2 = []) := by
  fun_induction token inQuote s generalizing rounds tok gap with
  | case1 b =>
      refine ⟨gap, (nextArgLoop_end pre tok gap junk rounds _ b).trans ?_, fun _ => rfl⟩
      simp
  | case2 b =>
      obtain ⟨rounds, rfl⟩ := Nat.exists_eq_add_of_le' enough
      have store := set_read pre tok gap (nul :: junk) (List.cons_ne_nil '\\' []) nul
      have offset := read_offset pre tok gap (List.cons_ne_nil '\\' []) nul
      refine ⟨(gap ++ ['\\']).tail, ?_, fun _ => rfl⟩
      rw [List.length_singleton, nextArgLoop, List.singleton_append, getD_read, getD_read_two]
      simp only [show ('\\' : Char) ≠ nul by decide, if_true, if_false, ne_eq,
        not_true_eq_false]
      have ends := nextArgLoop_end pre (tok ++ [nul]) (gap ++ ['\\']).tail junk rounds
        (pre.length + (tok ++ [nul]).length) b
      rw [← offset, ← store, @List.length_append _ tok [nul]] at ends
      refine Eq.trans ends ?_
      rw [store, offset]
      simp
  | case3 b d s ih =>
      cases rounds with
      | zero => simp at enough
      | succ rounds =>
          have more : d ≠ nul := fun same => text (same ▸ .tail _ List.mem_cons_self)
          obtain ⟨gap', same, stop⟩ := ih (fun member => text (.tail _ (.tail _ member))) rounds
            (Nat.le_of_succ_le (Nat.le_of_succ_le_succ enough)) (tok ++ [d]) (gap ++ ['\\', d]).tail
          have store := set_read pre tok gap (s ++ nul :: junk) (List.cons_ne_nil '\\' [d]) d
          have offset := read_offset pre tok gap (List.cons_ne_nil '\\' [d]) d
          refine ⟨gap', ?_, stop⟩
          rw [← offset, ← store, @List.length_append _ tok [d]] at same
          rw [nextArgLoop, List.cons_append, List.cons_append, getD_read, getD_read_two]
          simp only [show ('\\' : Char) ≠ nul by decide, more, if_true, if_false, ne_eq,
            not_false_eq_true]
          refine Eq.trans same ?_
          simp
  | case4 b s slash ih =>
      cases rounds with
      | zero => simp at enough
      | succ rounds =>
          obtain ⟨gap', same, stop⟩ := ih (fun member => text (.tail _ member)) rounds
            (Nat.le_of_succ_le_succ enough) tok (gap ++ ['"'])
          refine ⟨gap', ?_, stop⟩
          rw [← same, nextArgLoop, List.cons_append, getD_read]
          simp [nul, Nat.add_assoc]
  | case5 b c s slash quote blank =>
      cases rounds with
      | zero => simp at enough
      | succ rounds =>
          refine ⟨gap ++ [c], ?_, by simp⟩
          rw [nextArgLoop, List.cons_append, getD_read]
          have more : c ≠ nul := fun same => text (same ▸ List.mem_cons_self)
          simp [more, slash, quote, blank, Nat.add_assoc]
  | case6 b c s slash quote other ih =>
      cases rounds with
      | zero => simp at enough
      | succ rounds =>
          have more : c ≠ nul := fun same => text (same ▸ List.mem_cons_self)
          obtain ⟨gap', same, stop⟩ := ih (fun member => text (.tail _ member)) rounds
            (Nat.le_of_succ_le_succ enough) (tok ++ [c]) (gap ++ [c]).tail
          have store := set_read pre tok gap (s ++ nul :: junk) (List.cons_ne_nil c []) c
          have offset := read_offset pre tok gap (List.cons_ne_nil c []) c
          refine ⟨gap', ?_, stop⟩
          rw [← offset, ← store, @List.length_append _ tok [c]] at same
          rw [nextArgLoop, List.cons_append, getD_read, if_neg more, if_neg slash, if_neg quote,
            if_neg other]
          refine Eq.trans same ?_
          simp

/-- The line behind an argument: either there is an end of string in front of it, or the argument
was the last one. -/
theorem nextArg_spec (s : List Char) (text : nul ∉ s) (pre junk : List Char) :
    ∃ more pre', let t := (token false (s.dropWhile isSpace)).1
      let s' := (token false (s.dropWhile isSpace)).2
      nextArg (pre ++ (s ++ nul :: junk)) pre.length =
        (pre' ++ (s' ++ nul :: junk), pre.length + (s.takeWhile isSpace).length, pre'.length) ∧
      (pre' = pre ++ (s.takeWhile isSpace ++ (t ++ nul :: more)) ∨
        s' = [] ∧ pre' = pre ++ (s.takeWhile isSpace ++ t)) := by
  have rest : nul ∉ s.dropWhile isSpace :=
    fun member => text ((List.dropWhile_sublist _).subset member)
  have enough : (s.dropWhile isSpace).length ≤ (pre ++ (s ++ nul :: junk)).length := by
    have := (List.dropWhile_sublist (l := s) isSpace).length_le
    simp only [List.length_append]
    omega
  have memory : pre ++ s.takeWhile isSpace ++ ([] ++ ([] ++ (s.dropWhile isSpace ++ nul :: junk))) =
      pre ++ (s ++ nul :: junk) := by
    rw [List.nil_append, List.nil_append, List.append_assoc, ← List.append_assoc (s.takeWhile _),
      List.takeWhile_append_dropWhile]
  obtain ⟨gap, result, last⟩ := nextArgLoop_spec false (s.dropWhile isSpace) rest
    (pre ++ (s ++ nul :: junk)).length enough (pre ++ s.takeWhile isSpace) [] [] junk
  rw [memory] at result
  simp only [List.length_append, List.length_nil, Nat.add_zero, List.nil_append] at result
  simp only [nextArg, strAt_append text, List.length_append, result]
  generalize (token false (s.dropWhile isSpace)).1 = t,
    (token false (s.dropWhile isSpace)).2 = s' at last ⊢
  rw [← List.length_append]
  cases gap with
  | nil =>
      -- the end of the argument is the end of the line
      rw [last rfl]
      refine ⟨[], pre ++ (s.takeWhile isSpace ++ t), ?_, .inr ⟨rfl, rfl⟩⟩
      rw [List.nil_append, List.nil_append, set_append_cons]
      simp [Nat.add_assoc]
  | cons g gap =>
      refine ⟨gap, pre ++ (s.takeWhile isSpace ++ (t ++ nul :: gap)), ?_, .inl rfl⟩
      rw [List.cons_append, set_append_cons]
      simp [Nat.add_assoc]

theorem nextArg_end : nextArg (pre ++ nul :: junk) pre.length =
    (pre ++ nul :: junk, pre.length, pre.length) := by
  have stop := nextArgLoop_end pre [] [] junk (pre ++ nul :: junk).length pre.length false
  have string : strAt (pre ++ nul :: junk) pre.length = [] :=
    @strAt_append pre [] junk List.not_mem_nil
  simp only [List.nil_append, List.length_nil, Nat.add_zero] at stop
  simp only [nextArg, string, List.takeWhile_nil, List.length_nil, Nat.add_zero, stop]
  rw [show (pre ++ nul :: junk).set pre.length nul = pre ++ nul :: junk from
    @set_append_cons pre [] junk nul nul]

/-! ## The strings of the arguments -/

theorem cstr_text (t : List Char) : nul ∉ cstr t :=
  fun member => by simpa using List.mem_takeWhile_imp member

theorem cstr_self {t : List Char} (text : nul ∉ t) : cstr t = t :=
  List.takeWhile_eq_self_iff.mpr fun _ member => bne_iff_ne.mpr fun same => text (same ▸ member)

theorem cstr_split (t : List Char) :
    ∃ more, ∀ rest, t ++ nul :: rest = cstr t ++ nul :: (more ++ rest) := by
  have parts : cstr t ++ t.dropWhile (· != nul) = t := List.takeWhile_append_dropWhile
  cases behind : t.dropWhile (· != nul) with
  | nil =>
      rw [behind, List.append_nil] at parts
      exact ⟨[], fun rest => by rw [parts, List.nil_append]⟩
  | cons c more =>
      have stop : (c != nul) = false := by
        have := List.head?_dropWhile_not (· != nul) t
        rwa [behind] at this
      rw [behind, bne_eq_false_iff_eq.mp stop] at parts
      refine ⟨more ++ [nul], fun rest => ?_⟩
      calc t ++ nul :: rest = cstr t ++ nul :: more ++ nul :: rest := by rw [parts]
        _ = _ := by simp

theorem strAt_cstr {t : List Char} :
    strAt (pre ++ (gap ++ (t ++ nul :: rest))) (pre.length + gap.length) = cstr t := by
  obtain ⟨more, split⟩ := cstr_split t
  rw [split, ← List.append_assoc pre, ← List.length_append]
  exact strAt_append (cstr_text t)

/-- Strings that lie in a memory one behind the other, from the offset of the memory. -/
inductive Laid : ℕ → List Char → List (List Char) → List ℕ → Prop
  | nil (base : ℕ) (rest : List Char) : Laid base rest [] []
  | cons {base : ℕ} {gap t rest : List Char} {ts : List (List Char)} {ks : List ℕ} :
      nul ∉ t → Laid (base + gap.length + (t.length + 1)) rest ts ks →
      Laid base (gap ++ (t ++ nul :: rest)) (t :: ts) ((base + gap.length) :: ks)

theorem Laid.prepend {base : ℕ} {ts : List (List Char)} {ks : List ℕ}
    (laid : Laid (base + gap.length) rest ts ks) : Laid base (gap ++ rest) ts ks := by
  cases laid with
  | nil => exact .nil _ _
  | @cons _ g t rest ts ks text laid =>
      have longer := @Laid.cons base (gap ++ g) t rest ts ks text
        (by rw [List.length_append, ← Nat.add_assoc base]; exact laid)
      rw [List.length_append, ← Nat.add_assoc, List.append_assoc] at longer
      exact longer

/-- An argument lies in front of what the scan leaves of it. -/
theorem Laid.token {base : ℕ} {t more : List Char} {ts : List (List Char)} {ks : List ℕ}
    (laid : Laid (base + gap.length + (t.length + 1) + more.length) rest ts ks) :
    Laid base (gap ++ (t ++ nul :: (more ++ rest))) (cstr t :: ts) ((base + gap.length) :: ks) := by
  obtain ⟨between, split⟩ := cstr_split t
  have lengths := congrArg List.length (split [])
  rw [split, ← List.append_assoc between]
  refine .cons (cstr_text t) (.prepend ?_)
  convert laid using 1
  simp at lengths ⊢
  omega

theorem Laid.strings (pre : List Char) {ts : List (List Char)} {ks : List ℕ}
    (laid : Laid pre.length rest ts ks) :
    ks.map (strAt (pre ++ rest)) = ts := by
  generalize same : pre.length = base at laid
  induction laid generalizing pre with
  | nil => rfl
  | @cons base gap t rest ts ks text laid ih =>
      have front : (pre ++ (gap ++ (t ++ [nul]))).length = base + gap.length + (t.length + 1) := by
        simp [← same, Nat.add_assoc]
      have first : strAt (pre ++ gap ++ (t ++ nul :: rest)) (pre ++ gap).length = t :=
        strAt_append text
      rw [List.append_assoc, List.length_append, same] at first
      have behind := ih _ front
      rw [List.map_cons, first]
      simpa using behind

theorem tokens_nil (room : ℕ) : tokens room [] = ([], []) := by
  cases room with
  | zero => rfl
  | succ room => rfl

theorem pickUp_end (room : ℕ) : pickUp room (pre ++ nul :: junk) pre.length =
    (pre ++ nul :: junk, [], pre.length) := by
  cases room with
  | zero => rfl
  | succ room =>
      have string : strAt (pre ++ nul :: junk) pre.length = [] :=
        @strAt_append pre [] junk List.not_mem_nil
      simp only [pickUp, nextArg_end, string, ne_eq, not_true_eq_false, if_false]

theorem pickUp_spec (room : ℕ) (s : List Char) (text : nul ∉ s) (pre junk : List Char) :
    ∃ rest argk p, pickUp room (pre ++ (s ++ nul :: junk)) pre.length = (pre ++ rest, argk, p) ∧
      Laid pre.length rest (tokens room s).1 argk ∧ strAt (pre ++ rest) p = (tokens room s).2 := by
  induction room generalizing s pre with
  | zero => exact ⟨s ++ nul :: junk, [], pre.length, rfl, .nil _ _, strAt_append text⟩
  | succ room ih =>
      have left : nul ∉ (token false (s.dropWhile isSpace)).2 := fun member => text
        ((List.dropWhile_sublist _).subset ((token_suffix _ _).subset member))
      obtain ⟨more, pre', result, shape⟩ := nextArg_spec s text pre junk
      simp only [pickUp, tokens, result]
      generalize (token false (s.dropWhile isSpace)).1 = t,
        (token false (s.dropWhile isSpace)).2 = s' at *
      rcases shape with rfl | ⟨rfl, rfl⟩
      · have memory (rest : List Char) :
            pre ++ (s.takeWhile isSpace ++ (t ++ nul :: more)) ++ rest =
              pre ++ (s.takeWhile isSpace ++ (t ++ nul :: (more ++ rest))) := by simp
        rw [memory, strAt_cstr, ← memory]
        by_cases some : cstr t = []
        · simp only [some, ne_eq, not_true_eq_false, if_false]
          exact ⟨_, [], _, congrArg (·, _) (memory _), .nil _ _,
            by rw [← memory]; exact strAt_append left⟩
        · simp only [some, ne_eq, not_false_eq_true, if_true]
          obtain ⟨rest, argk, p, run, laid, ends⟩ :=
            ih s' left (pre ++ (s.takeWhile isSpace ++ (t ++ nul :: more)))
          simp only [run]
          refine ⟨_, _, p, congrArg (·, _, p) (memory rest), ?_, by rw [← memory]; exact ends⟩
          exact Laid.token (by simpa [Nat.add_assoc, Nat.add_comm 1] using laid)
      · have memory : pre ++ (s.takeWhile isSpace ++ t) ++ ([] ++ nul :: junk) =
            pre ++ (s.takeWhile isSpace ++ (t ++ nul :: ([] ++ junk))) := by simp
        rw [memory, strAt_cstr, ← memory, List.nil_append, pickUp_end, tokens_nil]
        have ends : strAt (pre ++ (s.takeWhile isSpace ++ t) ++ nul :: junk)
            (pre ++ (s.takeWhile isSpace ++ t)).length = [] :=
          @strAt_append (pre ++ (s.takeWhile isSpace ++ t)) [] junk List.not_mem_nil
        rw [List.nil_append] at memory
        by_cases some : cstr t = []
        · simp only [some, ne_eq, not_true_eq_false, if_false]
          exact ⟨_, [], _, congrArg (·, _) memory, .nil _ _, by rw [← memory]; exact ends⟩
        · simp only [some, ne_eq, not_false_eq_true, if_true]
          exact ⟨_, _, _, congrArg (·, _) memory, .token (.nil _ _), by rw [← memory]; exact ends⟩

/-! ## Keywords and values -/

theorem keyword_self {arg : List Char} (absent : '=' ∉ arg) : keyword arg = arg :=
  List.takeWhile_eq_self_iff.mpr fun _ member => bne_iff_ne.mpr fun same => absent (same ▸ member)

theorem keyword_append {k v : List Char} (absent : '=' ∉ k) : keyword (k ++ '=' :: v) = k :=
  takeWhile_append_cons (fun _ member => bne_iff_ne.mpr fun same => absent (same ▸ member)) rfl

theorem value_append {k v : List Char} (absent : '=' ∉ k) : value (k ++ '=' :: v) = some v := by
  have front : ∀ x ∈ k, (x != '=') = true :=
    fun _ member => bne_iff_ne.mpr fun same => absent (same ▸ member)
  rw [value, if_pos (by simp), List.dropWhile_append_of_pos front]
  rfl

theorem separate_spec (pre : List Char) {ts : List (List Char)} {ks : List ℕ}
    (laid : Laid pre.length rest ts ks) :
    ∃ rest' argv, separate (pre ++ rest) ks = (pre ++ rest', argv) ∧
      ks.map (strAt (pre ++ rest')) = ts.map keyword ∧
      argv.map (Option.map (strAt (pre ++ rest'))) = ts.map value := by
  generalize same : pre.length = base at laid
  induction laid generalizing pre with
  | nil base rest => exact ⟨rest, [], rfl, rfl, rfl⟩
  | @cons base gap t rest ts ks text laid ih =>
      subst same
      by_cases found : '=' ∈ t
      · obtain ⟨k, v, rfl, absent⟩ := List.eq_append_cons_of_mem found
        have keyText : nul ∉ k := fun member => text (List.mem_append_left _ member)
        have valueText : nul ∉ v := fun member => text (by simp [member])
        have place : strchr (pre ++ (gap ++ (k ++ '=' :: v ++ nul :: rest))) (pre.length + gap.length)
            '=' = some (pre.length + gap.length + k.length) := by
          have := @strpbrk_append_cons (pre ++ gap) k (v ++ nul :: rest) ['='] '=' keyText
            (fun x member inside => absent (List.mem_singleton.mp inside ▸ member))
            (List.mem_singleton_self _) (by decide)
          simpa [strchr] using this
        have cutoff : (pre ++ (gap ++ (k ++ '=' :: v ++ nul :: rest))).set
            (pre.length + gap.length + k.length) nul =
              pre ++ (gap ++ (k ++ nul :: (v ++ [nul]))) ++ rest := by
          have := @set_append_cons (pre ++ gap) k (v ++ nul :: rest) '=' nul
          simpa using this
        obtain ⟨rest', argv, run, keys, values⟩ := ih
          (pre ++ (gap ++ (k ++ nul :: (v ++ [nul])))) (by simp; omega)
        have memory : pre ++ (gap ++ (k ++ nul :: (v ++ [nul]))) ++ rest' =
            pre ++ (gap ++ (k ++ nul :: (v ++ nul :: rest'))) := by simp
        rw [memory] at run keys values
        have key : strAt (pre ++ (gap ++ (k ++ nul :: (v ++ nul :: rest'))))
            (pre.length + gap.length) = k := by rw [strAt_cstr, cstr_self keyText]
        have val : strAt (pre ++ (gap ++ (k ++ nul :: (v ++ nul :: rest'))))
            (pre.length + gap.length + k.length + 1) = v := by
          have := @strAt_append (pre ++ (gap ++ (k ++ [nul]))) v rest' valueText
          simpa [Nat.add_assoc] using this
        refine ⟨gap ++ (k ++ nul :: (v ++ nul :: rest')),
          some (pre.length + gap.length + k.length + 1) :: argv, ?_, ?_, ?_⟩
        · simp only [separate, place, cutoff, run]
        · rw [List.map_cons, List.map_cons, key, keys, keyword_append absent]
        · rw [List.map_cons, List.map_cons, Option.map_some, val, values, value_append absent]
      · obtain ⟨rest', argv, run, keys, values⟩ := ih
          (pre ++ (gap ++ (t ++ [nul]))) (by simp; omega)
        have memory (rest : List Char) : pre ++ (gap ++ (t ++ [nul])) ++ rest =
            pre ++ (gap ++ (t ++ nul :: rest)) := by simp
        rw [memory, memory] at run
        rw [memory] at keys values
        have place : strchr (pre ++ (gap ++ (t ++ nul :: rest))) (pre.length + gap.length) '=' =
            none := by
          have := @strpbrk_none (pre ++ gap) t rest ['='] text
            (fun x member inside => found (List.mem_singleton.mp inside ▸ member))
          simpa [strchr] using this
        have key : strAt (pre ++ (gap ++ (t ++ nul :: rest'))) (pre.length + gap.length) = t := by
          rw [strAt_cstr, cstr_self text]
        refine ⟨gap ++ (t ++ nul :: rest'), none :: argv, ?_, ?_, ?_⟩
        · simp only [separate, place, run]
        · rw [List.map_cons, List.map_cons, key, keys, keyword_self found]
        · rw [List.map_cons, List.map_cons, Option.map_none, values, value, if_neg found]

end Bacula.CmdLine
