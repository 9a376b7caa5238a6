import Mathlib

/-! Wild-card patterns, `lib/fnmatch.c`, over the bytes of C strings. -/
namespace Bacula.Fnmatch

/-- The bits of `flags`. -/
structure Flags where
  pathname : Bool
  noescape : Bool
  period : Bool
  leadingDir : Bool
  casefold : Bool
  deriving DecidableEq

inductive Match where
  | found
  | noMatch
  | recursion
  deriving DecidableEq

inductive RangeMatch where
  | error
  | noMatch
  | found (newp : List UInt8)

def recursionLimit : ℕ := 64

def slash : UInt8 := 0x2F
def period : UInt8 := 0x2E
def star : UInt8 := 0x2A
def question : UInt8 := 0x3F
def bracket : UInt8 := 0x5B
def closing : UInt8 := 0x5D
def backslash : UInt8 := 0x5C
def dash : UInt8 := 0x2D
def bang : UInt8 := 0x21
def circumflex : UInt8 := 0x5E

/-- `FOLD`. -/
def Flags.fold (flags : Flags) (c : UInt8) : UInt8 :=
  if flags.casefold && (0x41 ≤ c && c ≤ 0x5A) then c + 0x20 else c

/-- One character of a bracket expression, with its escape; none at the end of the pattern. -/
def rangeChar (flags : Flags) : List UInt8 → Option (UInt8 × List UInt8)
  | [] => none
  | c :: pattern =>
      if c = backslash ∧ flags.noescape = false then
        pattern.head?.map fun c => (c, pattern.tail)
      else some (c, pattern)

/-- The end of a range, when there is one. -/
def rangeEnd (flags : Flags) : List UInt8 → Option (Option UInt8 × List UInt8)
  | d :: c2 :: pattern =>
      if d = dash ∧ c2 ≠ closing then
        (rangeChar flags (c2 :: pattern)).map fun upper => (some upper.1, upper.2)
      else some (none, d :: c2 :: pattern)
  | pattern => some (none, pattern)

theorem rangeChar_length {flags : Flags} {pattern rest : List UInt8} {c : UInt8}
    (read : rangeChar flags pattern = some (c, rest)) : rest.length < pattern.length := by
  cases pattern with
  | nil => cases read
  | cons d pattern =>
      rw [rangeChar] at read
      split at read
      · cases pattern with
        | nil => cases read
        | cons e pattern => cases read; simp
      · cases read; simp

theorem rangeEnd_length {flags : Flags} {pattern rest : List UInt8} {c2 : Option UInt8}
    (read : rangeEnd flags pattern = some (c2, rest)) : rest.length ≤ pattern.length := by
  unfold rangeEnd at read
  split at read
  · next d c pattern =>
      split at read
      · obtain ⟨upper, found, same⟩ := Option.map_eq_some_iff.mp read
        cases same
        have := rangeChar_length found
        simp only [List.length_cons] at this ⊢
        omega
      · cases read; exact le_rfl
  · cases read; exact le_rfl

/-- Whether a character is in a range; the characters are signed. -/
def Flags.within (flags : Flags) (range : UInt8 × Option UInt8) (test : UInt8) : Bool :=
  match range.2 with
  | some c2 => (flags.fold range.1).toInt8 ≤ test.toInt8 && test.toInt8 ≤ (flags.fold c2).toInt8
  | none => flags.fold range.1 = test

/-- One round of the loop of `rangematch`: the range that it reads and what it finds behind. -/
inductive RangeRound where
  | error
  | noMatch
  | last (range : UInt8 × Option UInt8) (newp : List UInt8)
  | next (range : UInt8 × Option UInt8) (pattern : List UInt8)

def rangeRound (flags : Flags) (pattern : List UInt8) : RangeRound :=
  match rangeChar flags pattern with
  | none => .error
  | some (c, rest) =>
      if c = slash ∧ flags.pathname then .noMatch
      else
        match rangeEnd flags rest with
        | none => .error
        | some (_, []) => .error
        | some (c2, d :: newp) =>
            if d = closing then .last (c, c2) newp else .next (c, c2) (d :: newp)

theorem rangeRound_next {flags : Flags} {pattern rest : List UInt8} {range : UInt8 × Option UInt8}
    (goes : rangeRound flags pattern = .next range rest) : rest.length < pattern.length := by
  unfold rangeRound at goes
  split at goes
  · cases goes
  · next read =>
      have before := rangeChar_length read
      split at goes
      · cases goes
      · split at goes
        · cases goes
        · cases goes
        · next readEnd =>
            have behind := rangeEnd_length readEnd
            split at goes
            · cases goes
            · cases goes; omega

theorem rangeRound_last {flags : Flags} {pattern newp : List UInt8} {range : UInt8 × Option UInt8}
    (goes : rangeRound flags pattern = .last range newp) : newp.length < pattern.length := by
  unfold rangeRound at goes
  split at goes
  · cases goes
  · next read =>
      have before := rangeChar_length read
      split at goes
      · cases goes
      · split at goes
        · cases goes
        · cases goes
        · next readEnd =>
            have behind := rangeEnd_length readEnd
            rw [List.length_cons] at behind
            split at goes
            · cases goes; omega
            · cases goes

/-- The loop of `rangematch`, with `c` still in front of the pattern. -/
def rangeLoop (flags : Flags) (negate : Bool) (test : UInt8) (ok : Bool) (pattern : List UInt8) :
    RangeMatch :=
  match _goes : rangeRound flags pattern with
  | .error => .error
  | .noMatch => .noMatch
  | .last range newp => if (ok || flags.within range test) = negate then .noMatch else .found newp
  | .next range rest => rangeLoop flags negate test (ok || flags.within range test) rest
termination_by pattern.length
decreasing_by exact rangeRound_next _goes

/-- The leading `!` or `^`. -/
def negated : List UInt8 → Bool × List UInt8
  | c :: pattern => if c = bang ∨ c = circumflex then (true, pattern) else (false, c :: pattern)
  | [] => (false, [])

theorem negated_length (pattern : List UInt8) : (negated pattern).2.length ≤ pattern.length := by
  unfold negated
  split
  · split <;> simp
  · simp

/-- `rangematch`. -/
def rangematch (flags : Flags) (pattern : List UInt8) (test : UInt8) : RangeMatch :=
  rangeLoop flags (negated pattern).1 (flags.fold test) false (negated pattern).2

/-- A period that only a period of the pattern may match; `prev` stands in front of the string. -/
def leadingPeriod (flags : Flags) (prev : Option UInt8) (string : List UInt8) : Bool :=
  string.head? = some period && flags.period &&
    (prev = none || flags.pathname && prev = some slash)

/-- What one round of the loop of `r_fnmatch` comes to. -/
inductive Round where
  | done (result : Match)
  | next (pattern : List UInt8) (prev : Option UInt8) (string : List UInt8)
  | search (pattern : List UInt8)

/-- The label `normal`. -/
def normal (flags : Flags) (c : UInt8) (pattern : List UInt8) : List UInt8 → Round
  | [] => .done .noMatch
  | d :: string => if flags.fold c = flags.fold d then .next pattern (some d) string else .done .noMatch

/-- `?` and `[` do not match here. -/
def barred (flags : Flags) (prev : Option UInt8) : List UInt8 → Bool
  | [] => true
  | d :: string => d = slash && flags.pathname || leadingPeriod flags prev (d :: string)

/-- The case `*`, with the stars collapsed. -/
def starRound (flags : Flags) (pattern : List UInt8) (prev : Option UInt8) (string : List UInt8) :
    Round :=
  if leadingPeriod flags prev string then .done .noMatch
  else
    match pattern with
    | [] =>
        if flags.pathname = false ∨ flags.leadingDir ∨ slash ∉ string then .done .found
        else .done .noMatch
    | c :: _ =>
        if c = slash ∧ flags.pathname then
          if slash ∈ string then
            .next pattern ((string.takeWhile (· ≠ slash)).getLast?.or prev)
              (string.dropWhile (· ≠ slash))
          else .done .noMatch
        else .search pattern

def round (flags : Flags) (pattern : List UInt8) (prev : Option UInt8) (string : List UInt8) : Round :=
  match pattern with
  | [] =>
      if (flags.leadingDir ∧ string.head? = some slash) ∨ string = [] then .done .found
      else .done .noMatch
  | c :: pattern =>
      if c = question then
        if barred flags prev string then .done .noMatch else .next pattern string.head? string.tail
      else if c = star then starRound flags (pattern.dropWhile (· = star)) prev string
      else if c = bracket then
        if barred flags prev string then .done .noMatch
        else
          match rangematch flags pattern (string.headD 0) with
          | .error => normal flags bracket pattern string
          | .found newp => .next newp string.head? string.tail
          | .noMatch => .done .noMatch
      else if c = backslash ∧ flags.noescape = false then
        normal flags (pattern.headD backslash) pattern.tail string
      else normal flags c pattern string

theorem rangeLoop_length {flags : Flags} {negate : Bool} {test : UInt8} {ok : Bool}
    {pattern newp : List UInt8} (found : rangeLoop flags negate test ok pattern = .found newp) :
    newp.length < pattern.length := by
  fun_induction rangeLoop flags negate test ok pattern with
  | case1 => cases found
  | case2 => cases found
  | case3 => cases found
  | case4 ok pattern range behind goes => cases found; exact rangeRound_last goes
  | case5 ok pattern range rest goes ih => exact (ih found).trans (rangeRound_next goes)

theorem normal_length {flags : Flags} {c : UInt8} {pattern string : List UInt8} {next : List UInt8}
    {prev : Option UInt8} {rest : List UInt8}
    (goes : normal flags c pattern string = .next next prev rest) :
    next = pattern := by
  cases string with
  | nil => cases goes
  | cons d string =>
      rw [normal] at goes
      split at goes
      · cases goes; rfl
      · cases goes

theorem rangematch_length {flags : Flags} {pattern newp : List UInt8} {test : UInt8}
    (found : rangematch flags pattern test = .found newp) : newp.length < pattern.length := by
  have inner := rangeLoop_length found
  have outer := negated_length pattern
  omega

theorem starRound_length {flags : Flags} {pattern string next rest : List UInt8}
    {prev before : Option UInt8}
    (goes : starRound flags pattern prev string = .next next before rest) : next = pattern := by
  unfold starRound at goes
  split at goes
  · cases goes
  · split at goes
    · split at goes <;> cases goes
    · split at goes
      · split at goes
        · cases goes; rfl
        · cases goes
      · cases goes

theorem round_length {flags : Flags} {pattern string next rest : List UInt8}
    {prev before : Option UInt8} (goes : round flags pattern prev string = .next next before rest) :
    next.length < pattern.length := by
  unfold round at goes
  split at goes
  · split at goes <;> cases goes
  · next c pattern =>
      rw [List.length_cons]
      split at goes
      · split at goes
        · cases goes
        · cases goes; omega
      · split at goes
        · rw [starRound_length goes]
          have := (List.dropWhile_sublist (· = star) (l := pattern)).length_le
          omega
        · split at goes
          · split at goes
            · cases goes
            · split at goes
              · rw [normal_length goes]; omega
              · next found => cases goes; exact Nat.lt_succ_of_lt (rangematch_length found)
              · cases goes
          · split at goes
            · rw [normal_length goes, List.length_tail]; omega
            · rw [normal_length goes]; omega

/-- The loop of `r_fnmatch` for the case `*`. -/
def search (again : List UInt8 → Match) (flags : Flags) : List UInt8 → Match
  | [] => .noMatch
  | test :: string =>
      let e := again (test :: string)
      if e ≠ .noMatch then e
      else if test = slash ∧ flags.pathname then .noMatch
      else search again flags string

/-- The rounds of `r_fnmatch`, which calls itself by `again`. -/
def rounds (again : List UInt8 → List UInt8 → Match) (flags : Flags) (pattern : List UInt8)
    (prev : Option UInt8) (string : List UInt8) : Match :=
  match _goes : round flags pattern prev string with
  | .done result => result
  | .next next before rest => rounds again flags next before rest
  | .search next => search (again next) flags string
termination_by pattern.length
decreasing_by exact round_length _goes

/-- `r_fnmatch`. -/
def rFnmatch : ℕ → Flags → List UInt8 → List UInt8 → Match
  | 0, _, _, _ => .recursion
  | recur + 1, flags, pattern, string =>
      rounds (rFnmatch recur {flags with period := false}) flags pattern none string

/-- `fnmatch`. -/
def fnmatch (pattern string : List UInt8) (flags : Flags) : Match :=
  match rFnmatch recursionLimit flags pattern string with
  | .recursion => .noMatch
  | e => e

end Bacula.Fnmatch
