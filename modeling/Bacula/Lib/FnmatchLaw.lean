import Bacula.Lib.Fnmatch

/-! What a wild-card pattern means: a product of the languages of its parts. `fnmatch` accepts this
language, as long as it does not have to search too deep. -/
namespace Bacula.Fnmatch

/-- A part of a pattern. A run whose end has to be searched for is told apart from one that ends by
itself, at the next slash or at the end of the string. -/
inductive Token where
  | one (admits : UInt8 → Bool)
  | run (searched : Bool)

def Token.searched : Token → Bool
  | .one _ => false
  | .run searched => searched

def Token.language (flags : Flags) : Token → Language UInt8
  | .one admits => { s | ∃ d, admits d ∧ s = [d] }
  | .run _ => { s | flags.pathname → slash ∉ s }

/-- What may stand behind the text that the pattern describes. -/
def ending (flags : Flags) : Language UInt8 :=
  { s | s = [] ∨ flags.leadingDir ∧ s.head? = some slash }

/-- The characters and ranges of a bracket expression and what stands behind it. -/
inductive Bracket where
  | error
  | blocked
  | items (ranges : List (UInt8 × Option UInt8)) (behind : List UInt8)

def Bracket.add (range : UInt8 × Option UInt8) : Bracket → Bracket
  | .items ranges behind => .items (range :: ranges) behind
  | .error => .error
  | .blocked => .blocked

def bracketItems (flags : Flags) (pattern : List UInt8) : Bracket :=
  match _goes : rangeRound flags pattern with
  | .error => .error
  | .noMatch => .blocked
  | .last range newp => .items [range] newp
  | .next range rest => (bracketItems flags rest).add range
termination_by pattern.length
decreasing_by exact rangeRound_next _goes

def within (flags : Flags) (ranges : List (UInt8 × Option UInt8)) (test : UInt8) : Bool :=
  ranges.any fun range => flags.within range test

def Flags.notSlash (flags : Flags) (d : UInt8) : Bool := !(d = slash && flags.pathname)

def literal (flags : Flags) (c : UInt8) : Token := .one fun d => flags.fold c = flags.fold d

/-- Whether the end of a run is searched for, by what follows it. -/
def searched (flags : Flags) (pattern : List UInt8) : Bool :=
  pattern ≠ [] && !(pattern.head? = some slash && flags.pathname)

/-- The first part of a pattern, and the rest. -/
def token (flags : Flags) : List UInt8 → Option (Token × List UInt8)
  | [] => none
  | c :: pattern =>
      if c = question then some (.one flags.notSlash, pattern)
      else if c = star then
        some (.run (searched flags (pattern.dropWhile (· = star))), pattern.dropWhile (· = star))
      else if c = bracket then
        match bracketItems flags (negated pattern).2 with
        | .error => some (literal flags bracket, pattern)
        | .blocked => some (.one fun _ => false, pattern)
        | .items ranges behind =>
            some (.one fun d => flags.notSlash d &&
              (within flags ranges (flags.fold d) != (negated pattern).1), behind)
      else if c = backslash ∧ flags.noescape = false then
        some (literal flags (pattern.headD backslash), pattern.tail)
      else some (literal flags c, pattern)

/-- What `rangematch` makes of a bracket expression. -/
def Bracket.verdict (flags : Flags) (negate ok : Bool) (test : UInt8) : Bracket → RangeMatch
  | .error => .error
  | .blocked => .noMatch
  | .items ranges behind =>
      if (ok || within flags ranges test) = negate then .noMatch else .found behind

theorem verdict_add (flags : Flags) (negate ok : Bool) (test : UInt8) (range : UInt8 × Option UInt8)
    (bracket : Bracket) : (bracket.add range).verdict flags negate ok test =
      bracket.verdict flags negate (ok || flags.within range test) test := by
  cases bracket with
  | error => rfl
  | blocked => rfl
  | items ranges behind =>
      have joined : (ok || within flags (range :: ranges) test) =
          (ok || flags.within range test || within flags ranges test) := by
        simp [within, Bool.or_assoc]
      simp only [Bracket.add, Bracket.verdict, joined]

theorem bracketItems_round (flags : Flags) (pattern : List UInt8) :
    bracketItems flags pattern =
      match rangeRound flags pattern with
      | .error => .error
      | .noMatch => .blocked
      | .last range newp => .items [range] newp
      | .next range rest => (bracketItems flags rest).add range := by
  rw [bracketItems]
  split <;> simp_all

theorem rangeLoop_round (flags : Flags) (negate : Bool) (test : UInt8) (ok : Bool)
    (pattern : List UInt8) :
    rangeLoop flags negate test ok pattern =
      match rangeRound flags pattern with
      | .error => .error
      | .noMatch => .noMatch
      | .last range newp => if (ok || flags.within range test) = negate then .noMatch else .found newp
      | .next range rest => rangeLoop flags negate test (ok || flags.within range test) rest := by
  rw [rangeLoop]
  split <;> simp_all

theorem rangeLoop_eq (flags : Flags) (negate : Bool) (test : UInt8) (ok : Bool) (pattern : List UInt8) :
    rangeLoop flags negate test ok pattern =
      (bracketItems flags pattern).verdict flags negate ok test := by
  induction pattern using bracketItems.induct flags generalizing ok with
  | case1 pattern goes => rw [rangeLoop_round, bracketItems_round, goes]; rfl
  | case2 pattern goes => rw [rangeLoop_round, bracketItems_round, goes]; rfl
  | case3 pattern range newp goes =>
      rw [rangeLoop_round, bracketItems_round, goes]
      simp [Bracket.verdict, within]
  | case4 pattern range rest goes ih =>
      rw [rangeLoop_round, bracketItems_round, goes]
      simp only [ih, verdict_add]

theorem bracketItems_length {flags : Flags} {pattern : List UInt8}
    {ranges : List (UInt8 × Option UInt8)} {behind : List UInt8}
    (items : bracketItems flags pattern = .items ranges behind) :
    behind.length < pattern.length := by
  induction pattern using bracketItems.induct flags generalizing ranges with
  | case1 pattern goes => rw [bracketItems_round, goes] at items; cases items
  | case2 pattern goes => rw [bracketItems_round, goes] at items; cases items
  | case3 pattern range newp goes =>
      rw [bracketItems_round, goes] at items
      cases items
      exact rangeRound_last goes
  | case4 pattern range rest goes ih =>
      rw [bracketItems_round, goes] at items
      dsimp only at items
      cases inner : bracketItems flags rest with
      | error => rw [inner] at items; cases items
      | blocked => rw [inner] at items; cases items
      | items more behind' =>
          rw [inner] at items
          cases items
          exact (ih inner).trans (rangeRound_next goes)

theorem token_length {flags : Flags} {pattern rest : List UInt8} {t : Token}
    (first : token flags pattern = some (t, rest)) : rest.length < pattern.length := by
  cases pattern with
  | nil => cases first
  | cons c pattern =>
      rw [token] at first
      rw [List.length_cons]
      split at first
      · cases first; omega
      · split at first
        · cases first
          exact Nat.lt_succ_of_le (List.dropWhile_sublist (· = star)).length_le
        · split at first
          · split at first
            · cases first; omega
            · cases first; omega
            · next items =>
                cases first
                have := bracketItems_length items
                have := negated_length pattern
                omega
          · split at first
            · cases first; rw [List.length_tail]; omega
            · cases first; omega

/-- The parts of a pattern. -/
def tokens (flags : Flags) (pattern : List UInt8) : List Token :=
  match _first : token flags pattern with
  | none => []
  | some (t, rest) => t :: tokens flags rest
termination_by pattern.length
decreasing_by exact token_length _first

theorem tokens_eq (flags : Flags) (pattern : List UInt8) :
    tokens flags pattern =
      match token flags pattern with
      | none => []
      | some (t, rest) => t :: tokens flags rest := by
  rw [tokens]
  split <;> simp_all

/-- The strings that a pattern describes. -/
def language (flags : Flags) (pattern : List UInt8) : Language UInt8 :=
  ((tokens flags pattern).map (Token.language flags)).prod * ending flags

def searches (flags : Flags) (pattern : List UInt8) : ℕ := (tokens flags pattern).countP Token.searched

/-! ## The language by its first part -/

section
variable {flags : Flags} {pattern rest string : List UInt8}

theorem language_nil : language flags [] = ending flags := by
  simp [language, tokens_eq, token]

theorem language_cons {t : Token} (first : token flags pattern = some (t, rest)) :
    language flags pattern = t.language flags * language flags rest := by
  simp only [language, tokens_eq flags pattern, first, List.map_cons, List.prod_cons, mul_assoc]

theorem searches_nil : searches flags [] = 0 := by
  simp [searches, tokens_eq, token]

theorem searches_cons {t : Token} (first : token flags pattern = some (t, rest)) :
    searches flags pattern = (if t.searched then 1 else 0) + searches flags rest := by
  simp only [searches, tokens_eq flags pattern, first, List.countP_cons, Nat.add_comm]

theorem mem_ending : string ∈ ending flags ↔
    string = [] ∨ flags.leadingDir ∧ string.head? = some slash :=
  Iff.rfl

theorem mem_one {admits : UInt8 → Bool} {behind : Language UInt8} :
    string ∈ (Token.one admits).language flags * behind ↔
      ∃ d s, string = d :: s ∧ admits d ∧ s ∈ behind := by
  rw [Language.mem_mul]
  constructor
  · rintro ⟨_, ⟨d, fits, rfl⟩, s, inside, rfl⟩
    exact ⟨d, s, rfl, fits, inside⟩
  · rintro ⟨d, s, rfl, fits, inside⟩
    exact ⟨[d], ⟨d, fits, rfl⟩, s, inside, rfl⟩

theorem mem_run {searched : Bool} {behind : Language UInt8} :
    string ∈ (Token.run searched).language flags * behind ↔
      ∃ front back, string = front ++ back ∧ (flags.pathname → slash ∉ front) ∧ back ∈ behind := by
  rw [Language.mem_mul]
  constructor
  · rintro ⟨front, plain, back, inside, rfl⟩
    exact ⟨front, back, rfl, plain, inside⟩
  · rintro ⟨front, back, rfl, plain, inside⟩
    exact ⟨front, plain, back, inside, rfl⟩

end

/-! ## One round -/

section
variable {flags : Flags} {pattern rest string : List UInt8} {prev : Option UInt8}

/-- The round of a part that stands for one character. -/
def taken (admits : UInt8 → Bool) (rest : List UInt8) : List UInt8 → Round
  | [] => .done .noMatch
  | d :: string => if admits d then .next rest (some d) string else .done .noMatch

theorem leadingPeriod_free (free : flags.period = false) : leadingPeriod flags prev string = false := by
  simp [leadingPeriod, free]

theorem barred_cons (free : flags.period = false) (d : UInt8) :
    barred flags prev (d :: string) = !flags.notSlash d := by
  simp [barred, leadingPeriod_free free, Flags.notSlash]

theorem fold_upper {d : UInt8} (upper : 0x41 ≤ d ∧ d ≤ 0x5A) : (d + 0x20).toNat = d.toNat + 0x20 := by
  obtain ⟨low, high⟩ := upper
  rw [UInt8.le_iff_toNat_le] at low high
  rw [UInt8.toNat_add]
  simp only [UInt8.reduceToNat] at low high ⊢
  omega

/-- A character that is no letter matches only itself. -/
theorem fold_eq_iff {c d : UInt8} (low : c.toNat < 0x61) (plain : ¬(0x41 ≤ c ∧ c ≤ 0x5A)) :
    flags.fold c = flags.fold d ↔ d = c := by
  have same : flags.fold c = c := by simp [Flags.fold, plain]
  rw [same]
  unfold Flags.fold
  split
  · next folded =>
      have upper : 0x41 ≤ d ∧ d ≤ 0x5A := by simpa using (Bool.and_eq_true_iff.mp folded).2
      constructor
      · intro equal
        have number := fold_upper upper
        rw [← equal] at number
        have := (UInt8.le_iff_toNat_le.mp upper.1)
        simp only [UInt8.reduceToNat] at this
        omega
      · intro equal
        exact absurd (equal ▸ upper) plain
  · exact eq_comm

theorem fold_slash {d : UInt8} : flags.fold slash = flags.fold d ↔ d = slash :=
  fold_eq_iff (by decide) (by decide)

theorem fold_bracket {d : UInt8} : flags.fold bracket = flags.fold d ↔ d = bracket :=
  fold_eq_iff (by decide) (by decide)

theorem normal_eq (c : UInt8) :
    normal flags c pattern string = taken (fun d => flags.fold c = flags.fold d) pattern string := by
  cases string with
  | nil => rfl
  | cons d string => simp [normal, taken]

theorem rangematch_eq (d : UInt8) : rangematch flags pattern d =
    (bracketItems flags (negated pattern).2).verdict flags (negated pattern).1 false (flags.fold d) :=
  rangeLoop_eq ..

/-- The round of a bracket expression. -/
def bracketRound (flags : Flags) (pattern : List UInt8) (prev : Option UInt8)
    (string : List UInt8) : Round :=
  if barred flags prev string then .done .noMatch
  else
    match rangematch flags pattern (string.headD 0) with
    | .error => normal flags bracket pattern string
    | .found newp => .next newp string.head? string.tail
    | .noMatch => .done .noMatch

theorem bracketRound_nil : bracketRound flags pattern prev [] = .done .noMatch := by
  simp [bracketRound, barred]

theorem bracketRound_error (free : flags.period = false)
    (items : bracketItems flags (negated pattern).2 = .error) :
    bracketRound flags pattern prev string = normal flags bracket pattern string := by
  cases string with
  | nil => rw [bracketRound_nil]; rfl
  | cons d string =>
      rw [bracketRound, barred_cons free, rangematch_eq, items]
      cases plain : flags.notSlash d with
      | true => rfl
      | false =>
          have stop : d = slash := by
            simp [Flags.notSlash] at plain
            exact plain.1
          have other : ¬flags.fold bracket = flags.fold d := by
            rw [fold_bracket, stop]
            decide
          simp [normal, other]

theorem bracketRound_blocked
    (items : bracketItems flags (negated pattern).2 = .blocked) :
    bracketRound flags pattern prev string = .done .noMatch := by
  cases string with
  | nil => exact bracketRound_nil
  | cons d string =>
      rw [bracketRound, rangematch_eq, items]
      simp [Bracket.verdict]

theorem bracketRound_items (free : flags.period = false) {ranges : List (UInt8 × Option UInt8)}
    (items : bracketItems flags (negated pattern).2 = .items ranges rest) :
    bracketRound flags pattern prev string =
      taken (fun d => flags.notSlash d && (within flags ranges (flags.fold d) != (negated pattern).1))
        rest string := by
  cases string with
  | nil => exact bracketRound_nil
  | cons d string =>
      rw [bracketRound, barred_cons free, rangematch_eq, List.headD_cons, items, taken]
      cases flags.notSlash d with
      | false => rfl
      | true =>
          by_cases verdict : within flags ranges (flags.fold d) = (negated pattern).1
          · simp [Bracket.verdict, verdict]
          · simp [Bracket.verdict, verdict]

theorem round_one (free : flags.period = false) {admits : UInt8 → Bool}
    (first : token flags pattern = some (.one admits, rest)) :
    round flags pattern prev string = taken admits rest string := by
  cases pattern with
  | nil => cases first
  | cons c pattern =>
      rw [token] at first
      rw [round]
      split at first
      · next wild =>
          cases first
          cases string with
          | nil => simp [wild, barred, taken]
          | cons d string =>
              cases plain : flags.notSlash d <;> simp [wild, barred_cons free, taken, plain]
      · next plain =>
          rw [if_neg plain]
          split at first
          · cases first
          · next single =>
              rw [if_neg single]
              split at first
              · next opening =>
                  rw [if_pos opening]
                  change bracketRound flags pattern prev string = taken admits rest string
                  split at first
                  · next items => cases first; rw [bracketRound_error free items, normal_eq]
                  · next items =>
                      cases first
                      rw [bracketRound_blocked items]
                      cases string <;> rfl
                  · next items => cases first; exact bracketRound_items free items
              · next ordinary =>
                  rw [if_neg ordinary]
                  split at first
                  · next escaped => cases first; rw [if_pos escaped, normal_eq]
                  · next bare => cases first; rw [if_neg bare, normal_eq]

theorem round_run {deep : Bool} (first : token flags pattern = some (.run deep, rest)) :
    round flags pattern prev string = starRound flags rest prev string ∧ deep = searched flags rest ∧
      rest.head? ≠ some star := by
  cases pattern with
  | nil => cases first
  | cons c pattern =>
      rw [token] at first
      rw [round]
      split at first
      · cases first
      · next plain =>
          rw [if_neg plain]
          split at first
          · next stars =>
              cases first
              refine ⟨if_pos stars, rfl, ?_⟩
              intro more
              have := List.head?_dropWhile_not (fun c => decide (c = star)) pattern
              rw [more] at this
              simp at this
          · split at first
            · split at first <;> cases first
            · split at first <;> cases first

theorem token_one {c : UInt8} (single : c ≠ star) :
    ∃ admits rest, token flags (c :: pattern) = some (.one admits, rest) := by
  rw [token, if_neg single]
  split
  · exact ⟨_, _, rfl⟩
  · split
    · split
      · exact ⟨_, _, rfl⟩
      · exact ⟨_, _, rfl⟩
      · exact ⟨_, _, rfl⟩
    · split
      · exact ⟨_, _, rfl⟩
      · exact ⟨_, _, rfl⟩

theorem nil_not_mem (more : pattern ≠ []) (single : pattern.head? ≠ some star) :
    [] ∉ language flags pattern := by
  cases pattern with
  | nil => exact absurd rfl more
  | cons c pattern =>
      obtain ⟨admits, rest, first⟩ : ∃ admits rest,
          token flags (c :: pattern) = some (.one admits, rest) :=
        token_one (by simpa using single)
      rw [language_cons first, mem_one]
      rintro ⟨d, s, equal, -⟩
      cases equal

end

/-! ## The search for the end of a run -/

section
variable {flags : Flags} {again : List UInt8 → Match} {deep : Prop} {behind : Language UInt8}

theorem mem_run_cons {searched : Bool} {d : UInt8} {string : List UInt8} :
    d :: string ∈ (Token.run searched).language flags * behind ↔
      d :: string ∈ behind ∨
        ((flags.pathname → d ≠ slash) ∧ string ∈ (Token.run searched).language flags * behind) := by
  rw [mem_run, mem_run]
  constructor
  · rintro ⟨front, back, equal, plain, inside⟩
    cases front with
    | nil => exact .inl (equal ▸ inside)
    | cons e front =>
        cases equal
        refine .inr ⟨fun paths same => plain paths (by simp [same]), front, back, rfl, ?_, inside⟩
        exact fun paths found => plain paths (List.mem_cons_of_mem _ found)
  · rintro (inside | ⟨other, front, back, rfl, plain, inside⟩)
    · exact ⟨[], d :: string, rfl, fun _ => List.not_mem_nil, inside⟩
    · refine ⟨d :: front, back, rfl, fun paths found => ?_, inside⟩
      rcases List.mem_cons.mp found with same | later
      · exact other paths same.symm
      · exact plain paths later

theorem search_bounded (bounded : ∀ s, again s ≠ .recursion) (string : List UInt8) :
    search again flags string ≠ .recursion := by
  induction string with
  | nil => simp [search]
  | cons d string ih =>
      rw [search]
      split
      · exact bounded _
      · split
        · simp
        · exact ih

theorem search_found (decides : ∀ s, again s = .found ↔ deep ∧ s ∈ behind)
    (bounded : deep → ∀ s, again s ≠ .recursion) (filled : [] ∉ behind) (string : List UInt8) :
    search again flags string = .found ↔ deep ∧ string ∈ (Token.run true).language flags * behind := by
  induction string with
  | nil =>
      constructor
      · intro found
        cases found
      · rintro ⟨-, inside⟩
        obtain ⟨front, back, equal, -, inside⟩ := mem_run.mp inside
        obtain ⟨rfl, rfl⟩ := List.append_eq_nil_iff.mp equal.symm
        exact absurd inside filled
  | cons d string ih =>
      rw [search, mem_run_cons]
      cases result : again (d :: string) with
      | found =>
          obtain ⟨enough, inside⟩ := (decides _).mp result
          simp [enough, inside]
      | recursion =>
          have shallow : ¬deep := fun enough => bounded enough _ result
          simp [shallow]
      | noMatch =>
          have outside : deep → d :: string ∉ behind := by
            intro enough inside
            rw [(decides _).mpr ⟨enough, inside⟩] at result
            cases result
          by_cases stop : d = slash ∧ flags.pathname
          · simp only [ne_eq, not_true, if_false, if_pos stop]
            constructor
            · intro found
              cases found
            · rintro ⟨enough, inside | ⟨other, -⟩⟩
              · exact absurd inside (outside enough)
              · exact absurd stop.1 (other stop.2)
          · simp only [ne_eq, not_true, if_false, if_neg stop, ih]
            constructor
            · rintro ⟨enough, inside⟩
              exact ⟨enough, .inr ⟨fun paths same => stop ⟨same, paths⟩, inside⟩⟩
            · rintro ⟨enough, inside | ⟨-, inside⟩⟩
              · exact absurd inside (outside enough)
              · exact ⟨enough, inside⟩

end

/-! ## Runs that end by themselves -/

section
variable {flags : Flags} {searched : Bool} {string : List UInt8}

theorem slash_split (found : slash ∈ string) :
    slash ∉ string.takeWhile (· ≠ slash) ∧ ∃ rest, string.dropWhile (· ≠ slash) = slash :: rest := by
  constructor
  · intro inside
    simpa using List.mem_takeWhile_imp inside
  · induction string with
    | nil => cases found
    | cons d string ih =>
        by_cases here : d = slash
        · exact ⟨string, by simp [here]⟩
        · obtain ⟨rest, later⟩ := ih ((List.mem_cons.mp found).resolve_left fun same => here same.symm)
          exact ⟨rest, by simpa [here] using later⟩

theorem run_ending : string ∈ (Token.run searched).language flags * ending flags ↔
    flags.pathname = false ∨ flags.leadingDir ∨ slash ∉ string := by
  rw [mem_run]
  constructor
  · rintro ⟨front, back, rfl, plain, rfl | ⟨leading, -⟩⟩
    · rw [List.append_nil]
      cases paths : flags.pathname with
      | false => exact .inl rfl
      | true => exact .inr (.inr (plain paths))
    · exact .inr (.inl leading)
  · rintro (whole | leading | plain)
    · exact ⟨string, [], (List.append_nil _).symm, fun paths => by simp [whole] at paths, .inl rfl⟩
    · by_cases found : slash ∈ string
      · obtain ⟨before, rest, behind⟩ := slash_split found
        refine ⟨_, _, (List.takeWhile_append_dropWhile).symm, fun _ => before, .inr ⟨leading, ?_⟩⟩
        rw [behind]
        rfl
      · exact ⟨string, [], (List.append_nil _).symm, fun _ => found, .inl rfl⟩
    · exact ⟨string, [], (List.append_nil _).symm, fun _ => plain, .inl rfl⟩

theorem token_slash (pattern : List UInt8) :
    token flags (slash :: pattern) = some (literal flags slash, pattern) := by
  simp [token, slash, question, star, bracket, backslash]

theorem mem_slash {pattern : List UInt8} (inside : string ∈ language flags (slash :: pattern)) :
    string.head? = some slash := by
  rw [language_cons (token_slash pattern), literal, mem_one] at inside
  obtain ⟨d, s, rfl, fits, -⟩ := inside
  rw [decide_eq_true_iff, fold_slash] at fits
  rw [fits]
  rfl

theorem run_slash (paths : flags.pathname) {pattern : List UInt8} :
    string ∈ (Token.run searched).language flags * language flags (slash :: pattern) ↔
      slash ∈ string ∧ string.dropWhile (· ≠ slash) ∈ language flags (slash :: pattern) := by
  rw [mem_run]
  constructor
  · rintro ⟨front, back, rfl, plain, inside⟩
    obtain ⟨rest, rfl⟩ := List.head?_eq_some_iff.mp (mem_slash inside)
    have skipped : (front ++ slash :: rest).dropWhile (· ≠ slash) = slash :: rest := by
      rw [List.dropWhile_append_of_pos]
      · simp
      · intro d here
        simpa using fun same : d = slash => plain paths (same ▸ here)
    exact ⟨by simp, by rw [skipped]; exact inside⟩
  · rintro ⟨found, inside⟩
    exact ⟨_, _, (List.takeWhile_append_dropWhile).symm, fun _ => (slash_split found).1, inside⟩

end

/-! ## The whole pattern -/

/-- A result that is right for every pattern with fewer than `n` searches. -/
structure Decides (flags : Flags) (n : ℕ) (pattern string : List UInt8) (result : Match) : Prop where
  found : result = .found ↔ searches flags pattern < n ∧ string ∈ language flags pattern
  bounded : searches flags pattern < n → result ≠ .recursion

section
variable {flags : Flags} {n : ℕ} {pattern rest string : List UInt8} {prev : Option UInt8}
  {again : List UInt8 → List UInt8 → Match}

theorem Decides.refused (outside : string ∉ language flags pattern) :
    Decides flags n pattern string .noMatch where
  found := by simp [outside]
  bounded := by simp

theorem Decides.accepted (inside : string ∈ language flags pattern) (few : searches flags pattern < n) :
    Decides flags n pattern string .found where
  found := by simp [inside, few]
  bounded := by simp

theorem rounds_eq : rounds again flags pattern prev string =
    match round flags pattern prev string with
    | .done result => result
    | .next next before rest => rounds again flags next before rest
    | .search next => search (again next) flags string := by
  rw [rounds]
  split <;> simp_all

theorem rounds_done {result : Match} (here : round flags pattern prev string = .done result) :
    rounds again flags pattern prev string = result := by
  rw [rounds_eq, here]

theorem rounds_next {next behind : List UInt8} {before : Option UInt8}
    (here : round flags pattern prev string = .next next before behind) :
    rounds again flags pattern prev string = rounds again flags next before behind := by
  rw [rounds_eq, here]

theorem rounds_search {next : List UInt8} (here : round flags pattern prev string = .search next) :
    rounds again flags pattern prev string = search (again next) flags string := by
  rw [rounds_eq, here]

theorem decides_nil : Decides flags (n + 1) [] string (rounds again flags [] prev string) := by
  have whole : string ∈ language flags [] ↔ (flags.leadingDir ∧ string.head? = some slash) ∨
      string = [] := by
    rw [language_nil, mem_ending, or_comm]
  by_cases inside : (flags.leadingDir ∧ string.head? = some slash) ∨ string = []
  · rw [rounds_done (by rw [round, if_pos inside])]
    exact .accepted (whole.mpr inside) (by simp [searches_nil])
  · rw [rounds_done (by rw [round, if_neg inside])]
    exact .refused fun found => inside (whole.mp found)

theorem decides_one {admits : UInt8 → Bool} (free : flags.period = false)
    (first : token flags pattern = some (.one admits, rest))
    (ih : ∀ prev string, Decides flags (n + 1) rest string (rounds again flags rest prev string)) :
    Decides flags (n + 1) pattern string (rounds again flags pattern prev string) := by
  have count : searches flags pattern = searches flags rest := by
    rw [searches_cons first]
    exact Nat.zero_add _
  have here : round flags pattern prev string = taken admits rest string := round_one free first
  cases string with
  | nil =>
      rw [rounds_done here]
      apply Decides.refused
      rw [language_cons first, mem_one]
      rintro ⟨d, s, equal, -⟩
      cases equal
  | cons d string =>
      have split : d :: string ∈ language flags pattern ↔ admits d ∧ string ∈ language flags rest := by
        rw [language_cons first, mem_one]
        constructor
        · rintro ⟨e, s, equal, fits, inside⟩
          cases equal
          exact ⟨fits, inside⟩
        · rintro ⟨fits, inside⟩
          exact ⟨d, string, rfl, fits, inside⟩
      rw [taken] at here
      cases fits : admits d with
      | true =>
          rw [fits, if_pos rfl] at here
          rw [rounds_next here]
          have inner := ih (some d) string
          constructor
          · rw [count, split, fits]
            simpa using inner.found
          · rw [count]
            exact inner.bounded
      | false =>
          rw [fits, if_neg Bool.false_ne_true] at here
          rw [rounds_done here]
          apply Decides.refused
          rw [split, fits]
          simp

theorem decides_run {deep : Bool} (free : flags.period = false)
    (recursive : ∀ pattern string, Decides flags n pattern string (again pattern string))
    (first : token flags pattern = some (.run deep, rest))
    (ih : ∀ prev string, Decides flags (n + 1) rest string (rounds again flags rest prev string)) :
    Decides flags (n + 1) pattern string (rounds again flags pattern prev string) := by
  obtain ⟨here, rfl, single⟩ : round flags pattern prev string = starRound flags rest prev string ∧
    deep = searched flags rest ∧ rest.head? ≠ some star := round_run first
  have count := searches_cons first
  have text := language_cons first
  unfold starRound at here
  rw [leadingPeriod_free free, if_neg Bool.false_ne_true] at here
  cases rest with
  | nil =>
      have whole : string ∈ language flags pattern ↔
          flags.pathname = false ∨ flags.leadingDir ∨ slash ∉ string := by
        rw [text, language_nil, run_ending]
      dsimp only at here
      by_cases inside : flags.pathname = false ∨ flags.leadingDir ∨ slash ∉ string
      · rw [if_pos inside] at here
        rw [rounds_done here]
        refine .accepted (whole.mpr inside) ?_
        rw [count, searches_nil]
        simp [searched, Token.searched]
      · rw [if_neg inside] at here
        rw [rounds_done here]
        exact .refused fun found => inside (whole.mp found)
  | cons c behind =>
      dsimp only at here
      by_cases atSlash : c = slash ∧ flags.pathname
      · obtain ⟨rfl, paths⟩ := atSlash
        have shallow : searched flags (slash :: behind) = false := by simp [searched, paths]
        rw [if_pos ⟨rfl, paths⟩] at here
        rw [shallow] at count text
        have same : searches flags pattern = searches flags (slash :: behind) := by
          rw [count]
          exact Nat.zero_add _
        have split : string ∈ language flags pattern ↔ slash ∈ string ∧
            string.dropWhile (· ≠ slash) ∈ language flags (slash :: behind) := by
          rw [text, run_slash paths]
        by_cases found : slash ∈ string
        · rw [if_pos found] at here
          rw [rounds_next here]
          have inner :=
            ih ((string.takeWhile (· ≠ slash)).getLast?.or prev) (string.dropWhile (· ≠ slash))
          constructor
          · rw [same, split, inner.found]
            simp [found]
          · rw [same]
            exact inner.bounded
        · rw [if_neg found] at here
          rw [rounds_done here]
          exact .refused fun inside => found (split.mp inside).1
      · have deep : searched flags (c :: behind) =
          true := by simpa [searched, imp_iff_not_or] using atSlash
        rw [if_neg atSlash] at here
        rw [rounds_search here]
        rw [deep] at count text
        have few : searches flags pattern < n + 1 ↔ searches flags (c :: behind) < n := by
          rw [count]
          simp only [Token.searched, if_true]
          omega
        have empty : [] ∉ language flags (c :: behind) := nil_not_mem (List.cons_ne_nil c behind) single
        constructor
        · rw [few, text]
          exact search_found (fun s => (recursive (c :: behind) s).found)
            (fun shallow s => (recursive (c :: behind) s).bounded shallow) empty string
        · intro shallow
          exact search_bounded (fun s => (recursive (c :: behind) s).bounded (few.mp shallow)) string

theorem rounds_decides (free : flags.period = false)
    (recursive : ∀ pattern string, Decides flags n pattern string (again pattern string)) :
    Decides flags (n + 1) pattern string (rounds again flags pattern prev string) := by
  induction pattern using tokens.induct flags generalizing prev string with
  | case1 pattern first =>
      cases pattern with
      | nil => exact decides_nil
      | cons c pattern =>
          by_cases single : c = star
          · rw [single] at first
            simp [token, star, question] at first
          · obtain ⟨admits, rest, found⟩ : ∃ admits rest,
                token flags (c :: pattern) = some (.one admits, rest) :=
              token_one single
            rw [first] at found
            cases found
  | case2 pattern t rest first ih =>
      cases t with
      | one admits => exact decides_one free first fun _ _ => ih
      | run deep => exact decides_run free recursive first fun _ _ => ih

theorem rFnmatch_decides (free : flags.period = false) (recur : ℕ) (pattern string : List UInt8) :
    Decides flags recur pattern string (rFnmatch recur flags pattern string) := by
  induction recur generalizing pattern string with
  | zero => exact ⟨by simp [rFnmatch], by simp⟩
  | succ recur ih =>
      have same : { flags with period := false } = flags := by
        rw [← free]
      rw [rFnmatch, same]
      exact rounds_decides free ih

/-- `fnmatch` accepts what the pattern describes, unless the pattern has more runs than it can
search. -/
theorem fnmatch_iff (free : flags.period = false) (pattern string : List UInt8) :
    fnmatch pattern string flags = .found ↔
      string ∈ language flags pattern ∧ searches flags pattern < recursionLimit := by
  have decides := rFnmatch_decides free recursionLimit pattern string
  rw [and_comm, ← decides.found, fnmatch]
  split
  · next deep => simp [deep]
  · rfl

end

/-- The flags of a file set that has no options. -/
def plainFlags : Flags := ⟨false, false, false, false, false⟩

theorem fnmatch_iff_suffix : fnmatch [star, 0x63] [0x61, 0x2F, 0x63] plainFlags = .found := by
  have run : token plainFlags [star, 0x63] = some (.run true, [0x63]) := rfl
  have letter : token plainFlags [0x63] = some (literal plainFlags 0x63, []) := rfl
  refine (fnmatch_iff rfl _ _).mpr ⟨?_, ?_⟩
  · rw [language_cons run, mem_run]
    refine ⟨[0x61, 0x2F], [0x63], rfl, by simp [plainFlags], ?_⟩
    rw [language_cons letter, literal, mem_one, language_nil]
    exact ⟨0x63, [], rfl, by simp, .inl rfl⟩
  · rw [searches_cons run, searches_cons letter, searches_nil]
    decide

end Bacula.Fnmatch
