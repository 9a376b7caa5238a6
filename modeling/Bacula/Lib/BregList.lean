import Bacula.Lib.Breg

/-! Lists of replacements, `where=!search!replacement!options,...` in `lib/breg.c`. The regular
expressions are compiled by the system. -/
namespace Bacula.Breg

def comma : UInt8 := 44
def bang : UInt8 := 33
def letterI : UInt8 := 105
def letterG : UInt8 := 103

/-- The characters `! : ; | , & % = ~ / < #`. -/
def separators : Text := [33, 58, 59, 124, 44, 38, 37, 61, 126, 47, 60, 35]

structure BREGEXP where
  expr : Text
  subst : Text
  icase : Bool
  deriving DecidableEq, Repr

/-- What is extracted: the expression and then, behind a separator, the replacement. -/
structure Parts where
  expr : Text
  subst : Option Text

def Parts.store (parts : Parts) (c : UInt8) : Parts :=
  match parts.subst with
  | none => { parts with expr := parts.expr ++ [c] }
  | some subst => { parts with subst := some (subst ++ [c]) }

/-- The loop that extracts the search and the replacement, with the place where it stops; the
separator that ends the replacement is not passed. A character that was escaped is stored, but it is
not passed either. -/
def extractLoop (sep : UInt8) : Text → Parts → Option (Text × Text × Text)
  | [], _ => none
  | c :: search, parts =>
      if c = backslash ∧ search.head? = some sep then extractLoop sep search (parts.store sep)
      else if c = backslash ∧ search.head? = some backslash then
        extractLoop sep search (parts.store backslash)
      -- we found end of expression
      else if c = sep then
        match parts.subst with
        | some subst => some (parts.expr, subst, c :: search)
        | none => extractLoop sep search { parts with subst := some [] }
      else extractLoop sep search (parts.store c)

/-- The character behind the options is passed. -/
def findOptions (sep : UInt8) : Text → Bool → Bool × Text
  | [], icase => (icase, [])
  | c :: search, icase =>
      if c = letterI then findOptions sep search true
      else if c = letterG then findOptions sep search icase
      else if c = sep then findOptions sep search icase
      else (icase, search)

/-- `extract_regexp`, with `eor`. -/
def extractRegexp (regcomp : Text → Bool → Bool) : Text → Option (BREGEXP × Text)
  | [] => none
  | sep :: search => do
      if sep ∉ separators then none
      let (expr, subst, search) ← extractLoop sep search ⟨[], none⟩
      let (icase, eor) := findOptions sep search false
      if regcomp expr icase then some (⟨expr, subst, icase⟩, eor) else none

theorem findOptions_length (sep : UInt8) (search : Text) (icase : Bool) :
    (findOptions sep search icase).2.length ≤ search.length := by
  fun_induction findOptions sep search icase with
  | case1 => exact le_rfl
  | case2 | case3 | case4 => simp only [List.length_cons]; omega
  | case5 => simp

theorem extractLoop_length {sep : UInt8} {search expr subst rest : Text} {parts : Parts}
    (found : extractLoop sep search parts = some (expr, subst, rest)) :
    rest.length ≤ search.length := by
  fun_induction extractLoop sep search parts with
  | case1 => cases found
  | case4 => cases found; exact le_rfl
  | case2 _ _ _ _ ih | case3 _ _ _ _ _ ih | case5 _ _ _ _ _ ih | case6 _ _ _ _ _ _ ih =>
      exact (ih found).trans (Nat.le_succ _)

theorem extractRegexp_length {regcomp : Text → Bool → Bool} {motif eor : Text} {reg : BREGEXP}
    (found : extractRegexp regcomp motif = some (reg, eor)) : eor.length < motif.length := by
  cases motif with
  | nil => cases found
  | cons sep search =>
      rw [extractRegexp] at found
      split at found
      · cases found
      · cases extracts : extractLoop sep search ⟨[], none⟩ with
        | none => simp [extracts] at found
        | some parts =>
            obtain ⟨e, s, rest⟩ := parts
            have first := extractLoop_length extracts
            have second := findOptions_length sep rest false
            simp [extracts] at found
            rw [← found.2.2, List.length_cons]
            omega

/-- The loop of `get_bregexps`. -/
def bregexps (regcomp : Text → Bool → Bool) (p : Text) : List BREGEXP :=
  match _found : extractRegexp regcomp p with
  | none => []
  | some (reg, eor) => reg :: bregexps regcomp eor
termination_by p.length
decreasing_by exact extractRegexp_length _found

def getBregexps (regcomp : Text → Bool → Bool) (p : Text) : Option (List BREGEXP) :=
  match bregexps regcomp p with
  | [] => none
  | list => some list

/-- `bregexp_escape_string`. -/
def escapeString (sep : UInt8) : Text → Text
  | [] => []
  | c :: src =>
      if c = sep then backslash :: c :: escapeString sep src
      else if c = backslash then backslash :: c :: escapeString sep src
      else c :: escapeString sep src

/-! ## One part of an expression -/

/-- A part up to the separator that ends it, and what is behind. -/
def field (sep : UInt8) : Text → Option (Text × Text)
  | [] => none
  | c :: search =>
      if c = backslash ∧ search.head? = some sep then (field sep search).map (Prod.map (sep :: ·) id)
      else if c = backslash ∧ search.head? = some backslash then
        (field sep search).map (Prod.map (backslash :: ·) id)
      else if c = sep then some ([], search)
      else (field sep search).map (Prod.map (c :: ·) id)

theorem extractLoop_subst (sep : UInt8) (search expr subst : Text) :
    extractLoop sep search ⟨expr, some subst⟩ =
      (field sep search).map fun part => (expr, subst ++ part.1, sep :: part.2) := by
  induction search generalizing subst with
  | nil => rfl
  | cons c search ih =>
      rw [extractLoop, field]
      split
      · simp [Parts.store, ih, Function.comp_def]
      · split
        · simp [Parts.store, ih, Function.comp_def]
        · split
          · simp_all
          · simp [Parts.store, ih, Function.comp_def]

theorem extractLoop_expr (sep : UInt8) (search expr : Text) :
    extractLoop sep search ⟨expr, none⟩ =
      (field sep search).bind fun part => extractLoop sep part.2 ⟨expr ++ part.1, some []⟩ := by
  induction search generalizing expr with
  | nil => rfl
  | cons c search ih =>
      rw [extractLoop, field]
      split
      · simp [Parts.store, ih, Option.bind_map]
      · split
        · simp [Parts.store, ih, Option.bind_map]
        · split
          · simp
          · simp [Parts.store, ih, Option.bind_map]

/-- Nothing in the text is escaped. -/
def Clean (sep : UInt8) (text : Text) : Prop := ∀ c ∈ text, c ≠ sep ∧ c ≠ backslash

instance (sep : UInt8) (text : Text) : Decidable (Clean sep text) :=
  inferInstanceAs (Decidable (∀ c ∈ text, c ≠ sep ∧ c ≠ backslash))

variable {sep : UInt8}

theorem field_backslash (differs : sep ≠ backslash) (search : Text) :
    ∃ c, field sep (backslash :: search) = (field sep search).map (Prod.map (c :: ·) id) := by
  rw [field]
  split
  · exact ⟨sep, rfl⟩
  · split
    · exact ⟨backslash, rfl⟩
    · exact ⟨backslash, if_neg differs.symm⟩

theorem field_doubled (differs : sep ≠ backslash) (search : Text) :
    field sep (backslash :: backslash :: search) =
      (field sep (backslash :: search)).map (Prod.map (backslash :: ·) id) := by
  rw [field]
  simp [differs.symm]

theorem field_ordinary {c : UInt8} (notSep : c ≠ sep) (notBackslash : c ≠ backslash) (search : Text) :
    field sep (c :: search) = (field sep search).map (Prod.map (c :: ·) id) := by
  rw [field]
  simp [notSep, notBackslash]

theorem field_sep (differs : sep ≠ backslash) (search : Text) :
    field sep (sep :: search) = some ([], search) := by
  rw [field]
  simp [differs]

theorem replicate_append_cons (j : ℕ) (text : Text) :
    List.replicate j backslash ++ backslash :: text =
      backslash :: (List.replicate j backslash ++ text) := by
  rw [← List.singleton_append, ← List.append_assoc, ← List.replicate_succ', List.replicate_succ,
    List.cons_append]

/-- A backslash behind which an escaped text begins is one too many. -/
theorem field_too_many (differs : sep ≠ backslash) (tail : Text) (b : Text) (j : ℕ) (rest : Text) :
    field sep (List.replicate (j + 1) backslash ++ (escapeString sep b ++ sep :: tail)) ≠
      some (b, rest) := by
  intro found
  induction b generalizing j with
  | nil =>
      obtain ⟨c, first⟩ :=
        field_backslash differs (List.replicate j backslash ++ (escapeString sep [] ++ sep :: tail))
      rw [List.replicate_succ, List.cons_append, first] at found
      obtain ⟨part, -, same⟩ := Option.map_eq_some_iff.mp found
      cases same
  | cons c b ih =>
      by_cases isSep : c = sep
      · subst isSep
        have text : List.replicate (j + 1) backslash ++ (escapeString c (c :: b) ++ c :: tail) =
            backslash :: backslash ::
              (List.replicate j backslash ++ c :: (escapeString c b ++ c :: tail)) := by
          rw [escapeString, if_pos rfl, List.replicate_succ, List.cons_append, List.cons_append,
            replicate_append_cons]
          rfl
        rw [text, field_doubled differs] at found
        obtain ⟨part, -, same⟩ := Option.map_eq_some_iff.mp found
        exact differs (List.cons.inj (Prod.ext_iff.mp same).1).1.symm
      · by_cases isBackslash : c = backslash
        · subst isBackslash
          have text : List.replicate (j + 1) backslash ++
            (escapeString sep (backslash :: b) ++ sep :: tail) =
              backslash :: backslash ::
                (List.replicate (j + 1) backslash ++ (escapeString sep b ++ sep :: tail)) := by
            rw [escapeString, if_neg isSep, if_pos rfl, List.cons_append, List.cons_append,
              replicate_append_cons, replicate_append_cons]
          rw [text, field_doubled differs] at found
          obtain ⟨part, again, same⟩ := Option.map_eq_some_iff.mp found
          apply ih (j + 1)
          rw [List.replicate_succ, List.cons_append, again]
          cases same
          rfl
        · cases j with
          | zero =>
              rw [escapeString, if_neg isSep, if_neg isBackslash, List.replicate_one,
                List.singleton_append, List.cons_append, field] at found
              simp only [List.head?_cons, Option.some.injEq, isSep, isBackslash, and_false, if_false,
                differs.symm] at found
              obtain ⟨part, -, same⟩ := Option.map_eq_some_iff.mp found
              exact isBackslash (List.cons.inj (Prod.ext_iff.mp same).1).1.symm
          | succ j =>
              rw [List.replicate_succ, List.replicate_succ, List.cons_append, List.cons_append,
                field_doubled differs] at found
              obtain ⟨part, -, same⟩ := Option.map_eq_some_iff.mp found
              exact isBackslash (List.cons.inj (Prod.ext_iff.mp same).1).1.symm

/-- A part that was escaped comes back only when there was nothing to escape, or one separator at its
end, behind which the separator that was to end it is left. -/
theorem field_escape_iff (differs : sep ≠ backslash) (s tail rest : Text) :
    field sep (escapeString sep s ++ sep :: tail) = some (s, rest) ↔
      Clean sep s ∧ rest = tail ∨ ∃ a, Clean sep a ∧ s = a ++ [sep] ∧ rest = sep :: tail := by
  induction s with
  | nil =>
      rw [escapeString, List.nil_append, field_sep differs]
      constructor
      · intro same
        cases same
        exact .inl ⟨fun c here => absurd here List.not_mem_nil, rfl⟩
      · rintro (⟨-, rfl⟩ | ⟨a, -, split, -⟩)
        · rfl
        · exact absurd split (by simp)
  | cons c s ih =>
      by_cases isSep : c = sep
      · subst isSep
        have text : field c (escapeString c (c :: s) ++ c :: tail) =
            some ([c], escapeString c s ++ c :: tail) := by
          rw [escapeString, if_pos rfl, List.cons_append, List.cons_append, field]
          simp [field_sep differs]
        rw [text]
        constructor
        · intro same
          simp only [Option.some.injEq, Prod.mk.injEq, List.cons.injEq, true_and] at same
          obtain ⟨rfl, rest⟩ := same
          exact .inr ⟨[], by simp [Clean], rfl, rest.symm⟩
        · rintro (⟨clean, -⟩ | ⟨a, clean, split, rfl⟩)
          · exact absurd rfl (clean c List.mem_cons_self).1
          · cases a with
            | nil =>
                cases split
                rfl
            | cons d a =>
                cases split
                exact absurd rfl (clean c List.mem_cons_self).1
      · by_cases isBackslash : c = backslash
        · subst isBackslash
          have text : escapeString sep (backslash :: s) ++ sep :: tail =
              backslash :: backslash :: (escapeString sep s ++ sep :: tail) := by
            rw [escapeString, if_neg isSep, if_pos rfl]
            rfl
          rw [text, field_doubled differs]
          constructor
          · intro found
            obtain ⟨part, again, same⟩ := Option.map_eq_some_iff.mp found
            cases same
            exact absurd again (field_too_many differs tail part.1 0 part.2)
          · rintro (⟨clean, -⟩ | ⟨a, clean, split, rfl⟩)
            · exact absurd rfl (clean backslash List.mem_cons_self).2
            · cases a with
              | nil =>
                  cases split
                  exact absurd rfl differs
              | cons d a =>
                  cases split
                  exact absurd rfl (clean backslash List.mem_cons_self).2
        · have text : escapeString sep (c :: s) ++ sep :: tail =
              c :: (escapeString sep s ++ sep :: tail) := by
            rw [escapeString, if_neg isSep, if_neg isBackslash]
            rfl
          have head (a : Text) : Clean sep (c :: a) ↔ Clean sep a := by simp [Clean, isSep, isBackslash]
          rw [text, field_ordinary isSep isBackslash]
          constructor
          · intro found
            obtain ⟨part, again, same⟩ := Option.map_eq_some_iff.mp found
            cases same
            rcases ih.mp again with ⟨clean, rest⟩ | ⟨a, clean, split, rest⟩
            · exact .inl ⟨(head _).mpr clean, rest⟩
            · exact .inr ⟨c :: a, (head a).mpr clean, by rw [split]; rfl, rest⟩
          · rintro (⟨clean, rest⟩ | ⟨a, clean, split, rest⟩)
            · rw [ih.mpr (.inl ⟨(head s).mp clean, rest⟩)]
              rfl
            · cases a with
              | nil =>
                  cases split
                  exact absurd rfl isSep
              | cons d a =>
                  cases split
                  rw [ih.mpr (.inr ⟨a, (head a).mp clean, rfl, rest⟩)]
                  rfl

/-! ## Lists of expressions -/

structure Relocation where
  search : Text
  replacement : Text
  options : Text

def Relocation.written (sep : UInt8) (r : Relocation) : Text :=
  sep :: escapeString sep r.search ++ sep :: (escapeString sep r.replacement ++ sep :: r.options)

def Relocation.parsed (r : Relocation) : BREGEXP := ⟨r.search, r.replacement, letterI ∈ r.options⟩

def whereText (sep : UInt8) : List Relocation → Text
  | [] => []
  | [r] => r.written sep
  | r :: rest => r.written sep ++ comma :: whereText sep rest

/-- Nothing is escaped, or only the last character in front of the end of the replacement. -/
def Relocation.Kept (sep : UInt8) (r : Relocation) : Prop :=
  Clean sep r.search ∧ (Clean sep r.replacement ∨ ∃ a, Clean sep a ∧ r.replacement = a ++ [sep]) ∨
    (∃ a, Clean sep a ∧ r.search = a ++ [sep]) ∧ r.replacement = []

theorem findOptions_sep (isSep : sep ∈ separators) (search : Text) (icase : Bool) :
    findOptions sep (sep :: search) icase = findOptions sep search icase := by
  have notI : sep ≠ letterI := by rintro rfl; revert isSep; decide
  have notG : sep ≠ letterG := by rintro rfl; revert isSep; decide
  rw [findOptions, if_neg notI, if_neg notG, if_pos rfl]

theorem findOptions_options {options : Text} (valid : ∀ c ∈ options, c = letterI ∨ c = letterG)
    (search : Text) (icase : Bool) : findOptions sep (options ++ search) icase =
      findOptions sep search (icase || decide (letterI ∈ options)) := by
  induction options generalizing icase with
  | nil => simp
  | cons c options ih =>
      have later := ih fun d here => valid d (List.mem_cons_of_mem c here)
      rw [List.cons_append, findOptions]
      split
      case isTrue isI => simp [later, isI]
      case isFalse notI =>
        have isG : c = letterG := (valid c List.mem_cons_self).resolve_left notI
        have differs : letterI ≠ letterG := by decide
        simp [later, isG, differs]

/-- The comma between two expressions is passed with the options. -/
theorem findOptions_end {tail : Text} (notComma : sep ≠ comma)
    (ends : tail = [] ∨ tail.head? = some comma) (icase : Bool) :
    findOptions sep tail icase = (icase, tail.tail) := by
  cases tail with
  | nil => rfl
  | cons c tail =>
      have isComma : c = comma := by simpa using ends
      have notI : comma ≠ letterI := by decide
      have notG : comma ≠ letterG := by decide
      rw [isComma, findOptions, if_neg notI, if_neg notG, if_neg notComma.symm]
      rfl

theorem extractLoop_eq (search : Text) : extractLoop sep search ⟨[], none⟩ =
    (field sep search).bind fun e => (field sep e.2).map fun s => (e.1, s.1, sep :: s.2) := by
  rw [extractLoop_expr]
  simp only [extractLoop_subst, List.nil_append]

/-- The parts of an expression as it is written, from behind the first separator on. -/
def Relocation.parts (sep : UInt8) (r : Relocation) (tail : Text) : Text :=
  escapeString sep r.search ++ sep :: (escapeString sep r.replacement ++ sep :: tail)

theorem kept_of_extracted (differs : sep ≠ backslash) {r : Relocation} {tail rest : Text}
    (found : extractLoop sep (r.parts sep tail) ⟨[], none⟩ = some (r.search, r.replacement, rest)) :
    r.Kept sep ∧ (rest = sep :: tail ∨ rest = sep :: sep :: tail) := by
  rw [extractLoop_eq] at found
  obtain ⟨e, first, found⟩ := Option.bind_eq_some_iff.mp found
  obtain ⟨s, second, same⟩ := Option.map_eq_some_iff.mp found
  obtain ⟨expr, middle⟩ := e
  obtain ⟨subst, last⟩ := s
  cases same
  rcases (field_escape_iff differs _ _ _).mp first with ⟨clean, rfl⟩ | ⟨a, clean, split, rfl⟩
  · rcases (field_escape_iff differs _ _ _).mp second with ⟨clean', rfl⟩ | ⟨b, clean', split, rfl⟩
    · exact ⟨.inl ⟨clean, .inl clean'⟩, .inl rfl⟩
    · exact ⟨.inl ⟨clean, .inr ⟨b, clean', split⟩⟩, .inr rfl⟩
  · rw [field_sep differs] at second
    have empty : r.replacement = [] := (congrArg Prod.fst (Option.some.inj second)).symm
    have left : last = escapeString sep r.replacement ++ sep :: tail :=
      (congrArg Prod.snd (Option.some.inj second)).symm
    exact ⟨.inr ⟨⟨a, clean, split⟩, empty⟩, .inr (by rw [left, empty]; rfl)⟩

theorem extracted_of_kept (differs : sep ≠ backslash) {r : Relocation} (kept : r.Kept sep)
    (tail : Text) :
    ∃ rest, extractLoop sep (r.parts sep tail) ⟨[], none⟩ = some (r.search, r.replacement, rest) ∧
      (rest = sep :: tail ∨ rest = sep :: sep :: tail) := by
  rcases kept with ⟨clean, kept⟩ | ⟨⟨a, clean, split⟩, empty⟩
  · have first :=
      (field_escape_iff differs r.search (escapeString sep r.replacement ++ sep :: tail) _).mpr
      (.inl ⟨clean, rfl⟩)
    rcases kept with clean' | ⟨b, clean', split⟩
    · have second := (field_escape_iff differs r.replacement tail _).mpr (.inl ⟨clean', rfl⟩)
      exact ⟨_, by rw [extractLoop_eq, Relocation.parts, first]; simp [second], .inl rfl⟩
    · have second := (field_escape_iff differs r.replacement tail _).mpr (.inr ⟨b, clean', split, rfl⟩)
      exact ⟨_, by rw [extractLoop_eq, Relocation.parts, first]; simp [second], .inr rfl⟩
  · have first :=
      (field_escape_iff differs r.search (escapeString sep r.replacement ++ sep :: tail) _).mpr
      (.inr ⟨a, clean, split, rfl⟩)
    refine ⟨sep :: sep :: tail, ?_, .inr rfl⟩
    rw [extractLoop_eq, Relocation.parts, first]
    simp [field_sep differs, empty, escapeString]

theorem separators_backslash (isSep : sep ∈ separators) : sep ≠ backslash := by
  rintro rfl
  revert isSep
  decide

/-- Behind the parts come the options, whether the last separator was passed or not. -/
theorem findOptions_behind (isSep : sep ∈ separators) (notComma : sep ≠ comma) {r : Relocation}
    (valid : ∀ c ∈ r.options, c = letterI ∨ c = letterG) {tail rest : Text}
    (ends : tail = [] ∨ tail.head? = some comma)
    (behind : rest = sep :: (r.options ++ tail) ∨ rest = sep :: sep :: (r.options ++ tail)) :
    findOptions sep rest false = (decide (letterI ∈ r.options), tail.tail) := by
  have ended : findOptions sep (r.options ++ tail) false =
      (decide (letterI ∈ r.options), tail.tail) := by
    rw [findOptions_options valid, findOptions_end notComma ends, Bool.false_or]
  rcases behind with rfl | rfl
  · rw [findOptions_sep isSep, ended]
  · rw [findOptions_sep isSep, findOptions_sep isSep, ended]

theorem extractRegexp_written_iff {regcomp : Text → Bool → Bool} (isSep : sep ∈ separators)
    (notComma : sep ≠ comma) {r : Relocation} (valid : ∀ c ∈ r.options, c = letterI ∨ c = letterG)
    (compiles : regcomp r.search (letterI ∈ r.options) = true) {tail : Text}
    (ends : tail = [] ∨ tail.head? = some comma) (eor : Text) :
    extractRegexp regcomp (r.written sep ++ tail) = some (r.parsed, eor) ↔
      r.Kept sep ∧ eor = tail.tail := by
  have differs := separators_backslash isSep
  have text : r.written sep ++ tail = sep :: r.parts sep (r.options ++ tail) := by
    simp [Relocation.written, Relocation.parts]
  have here : ¬ sep ∉ separators := not_not_intro isSep
  rw [text, extractRegexp]
  constructor
  · intro found
    cases extracts : extractLoop sep (r.parts sep (r.options ++ tail)) ⟨[], none⟩ with
    | none => simp [extracts] at found
    | some parts =>
        obtain ⟨expr, subst, rest⟩ := parts
        simp [extracts, isSep, Relocation.parsed] at found
        obtain ⟨-, ⟨rfl, rfl, -⟩, last⟩ := found
        obtain ⟨kept, behind⟩ := kept_of_extracted differs extracts
        rw [findOptions_behind isSep notComma valid ends behind] at last
        exact ⟨kept, last.symm⟩
  · rintro ⟨kept, rfl⟩
    obtain ⟨rest, extracts, behind⟩ := extracted_of_kept differs kept (r.options ++ tail)
    have options := findOptions_behind isSep notComma valid ends behind
    simp [extracts, isSep, options, compiles, Relocation.parsed]

theorem bregexps_nil (regcomp : Text → Bool → Bool) : bregexps regcomp [] = [] := by
  rw [bregexps]
  rfl

theorem bregexps_some {regcomp : Text → Bool → Bool} {p eor : Text} {reg : BREGEXP}
    (found : extractRegexp regcomp p = some (reg, eor)) :
    bregexps regcomp p = reg :: bregexps regcomp eor := by
  rw [bregexps]
  split <;> simp_all

theorem bregexps_none {regcomp : Text → Bool → Bool} {p : Text}
    (found : extractRegexp regcomp p = none) :
    bregexps regcomp p = [] := by
  rw [bregexps]
  split <;> simp_all

/-- One expression after the other is read back, up to the first one that is not kept. -/
theorem bregexps_written_iff {regcomp : Text → Bool → Bool} (isSep : sep ∈ separators)
    (notComma : sep ≠ comma) {list : List Relocation}
    (valid : ∀ r ∈ list, ∀ c ∈ r.options, c = letterI ∨ c = letterG)
    (compiles : ∀ r ∈ list, regcomp r.search (letterI ∈ r.options) = true) :
    bregexps regcomp (whereText sep list) = list.map Relocation.parsed ↔ ∀ r ∈ list, r.Kept sep := by
  induction list with
  | nil => simp [whereText, bregexps_nil]
  | cons r list ih =>
      obtain ⟨tail, text, ends, later⟩ : ∃ tail, whereText sep (r :: list) = r.written sep ++ tail ∧
          (tail = [] ∨ tail.head? = some comma) ∧ tail.tail = whereText sep list := by
        cases list with
        | nil => exact ⟨[], by rw [whereText, List.append_nil], .inl rfl, rfl⟩
        | cons r' list => exact ⟨comma :: whereText sep (r' :: list), rfl, .inr rfl, rfl⟩
      have first := extractRegexp_written_iff isSep notComma (valid r List.mem_cons_self)
        (compiles r List.mem_cons_self) ends
      have others := ih (fun r' here => valid r' (List.mem_cons_of_mem r here))
        (fun r' here => compiles r' (List.mem_cons_of_mem r here))
      rw [text, List.map_cons, List.forall_mem_cons, ← others]
      constructor
      · intro same
        cases found : extractRegexp regcomp (r.written sep ++ tail) with
        | none =>
            rw [bregexps_none found] at same
            cases same
        | some parsed =>
            obtain ⟨reg, eor⟩ := parsed
            rw [bregexps_some found] at same
            obtain ⟨rfl, rest⟩ := List.cons.inj same
            obtain ⟨kept, rfl⟩ := (first eor).mp found
            rw [later] at rest
            exact ⟨kept, rest⟩
      · rintro ⟨kept, rest⟩
        rw [bregexps_some ((first _).mpr ⟨kept, rfl⟩), later, rest]

/-- A list of relocations comes back from its text exactly when each is kept. -/
theorem relocations_read_back_iff {regcomp : Text → Bool → Bool} (isSep : sep ∈ separators)
    (notComma : sep ≠ comma) {list : List Relocation} (some : list ≠ [])
    (valid : ∀ r ∈ list, ∀ c ∈ r.options, c = letterI ∨ c = letterG)
    (compiles : ∀ r ∈ list, regcomp r.search (letterI ∈ r.options) = true) :
    getBregexps regcomp (whereText sep list) = .some (list.map Relocation.parsed) ↔
      ∀ r ∈ list, r.Kept sep := by
  rw [← bregexps_written_iff isSep notComma valid compiles, getBregexps]
  split
  case h_1 empty => simp [empty, some]
  case h_2 => simp

/-- In `!/p!/t!,!c$!.d!i` nothing is escaped; a search that holds a separator in front of its end
does not come back. -/
theorem relocations_read_back_iff_two :
    getBregexps (fun _ _ => true)
      (whereText bang [⟨[47, 112], [47, 116], []⟩, ⟨[99, 36], [46, 100], [105]⟩]) =
        some [⟨[47, 112], [47, 116], false⟩, ⟨[99, 36], [46, 100], true⟩] ∧
      getBregexps (fun _ _ => true)
        (whereText bang [⟨[33, 46], [46], []⟩]) ≠ some [⟨[33, 46], [46], false⟩] := by
  refine ⟨(relocations_read_back_iff (by decide) (by decide) (by simp) (by simp [letterI, letterG])
    (by simp)).mpr ?_, fun same => ?_⟩
  · rintro r (_ | ⟨_, _ | ⟨_, none⟩⟩)
    · exact .inl ⟨by simp [Clean, bang, backslash], .inl (by simp [Clean, bang, backslash])⟩
    · exact .inl ⟨by simp [Clean, bang, backslash], .inl (by simp [Clean, bang, backslash])⟩
    · cases none
  · have kept :=
      (relocations_read_back_iff (by decide) (by decide) (by simp) (by simp) (by simp)).mp same
    rcases kept _ List.mem_cons_self with ⟨clean, -⟩ | ⟨-, empty⟩
    · simp [Clean, bang] at clean
    · cases empty

/-! ## Relocations from their prefixes and suffix -/

/-- The formats `!%s!!i`, `!^!%s!` and `!([^/])$!$1%s!`. -/
def strStripPrefix (s : Text) : Text := bang :: s ++ [bang, bang, letterI]
def strAddPrefix (s : Text) : Text := [bang, 94, bang] ++ s ++ [bang]
def strAddSuffix (s : Text) : Text := [bang, 40, 91, 94, 47, 93, 41, 36, bang, 36, 49] ++ s ++ [bang]

def edited (dest text : Text) : Text := if dest.length = 0 then text else dest ++ comma :: text

/-- `bregexp_build_where`; the size that the caller gives is large enough. -/
def bregexpBuildWhere (stripPrefix addPrefix addSuffix : Option Text) : Text :=
  let dest := (stripPrefix.map fun s => strStripPrefix (escapeString bang s)).getD []
  let dest := match addSuffix with
    | some s => edited dest (strAddSuffix (escapeString bang s))
    | none => dest
  match addPrefix with
  | some s => edited dest (strAddPrefix (escapeString bang s))
  | none => dest

/-- `bregexp_get_build_where_size`. -/
def bregexpGetBuildWhereSize (stripPrefix addPrefix addSuffix : Option Text) : ℕ :=
  let size (s : Option Text) (format : ℕ) := (s.map fun s => s.length + format).getD 0
  (size stripPrefix 6 + size addPrefix 6 + size addSuffix 14) * 2 + 3 + 1

def builtRelocations (stripPrefix addPrefix addSuffix : Option Text) : List Relocation :=
  (stripPrefix.map fun s => ⟨s, [], [letterI]⟩).toList ++
    ((addSuffix.map fun s => ⟨[40, 91, 94, 47, 93, 41, 36], [36, 49] ++ s, []⟩).toList ++
      (addPrefix.map fun s => ⟨[94], s, []⟩).toList)

theorem escapeString_length (sep : UInt8) (s : Text) : (escapeString sep s).length ≤ 2 * s.length := by
  induction s with
  | nil => exact le_rfl
  | cons c s ih =>
      rw [escapeString]
      split
      · simp only [List.length_cons]; omega
      · split <;> simp only [List.length_cons] <;> omega

theorem bregexpBuildWhere_fits (stripPrefix addPrefix addSuffix : Option Text) :
    (bregexpBuildWhere stripPrefix addPrefix addSuffix).length <
      bregexpGetBuildWhereSize stripPrefix addPrefix addSuffix := by
  have strip := escapeString_length bang (stripPrefix.getD [])
  have before := escapeString_length bang (addPrefix.getD [])
  have behind := escapeString_length bang (addSuffix.getD [])
  cases stripPrefix <;> cases addPrefix <;> cases addSuffix <;>
    simp [bregexpBuildWhere, bregexpGetBuildWhereSize, edited, strStripPrefix, strAddPrefix,
      strAddSuffix]
      at strip before behind ⊢ <;> omega

theorem bregexpBuildWhere_eq (stripPrefix addPrefix addSuffix : Option Text) :
    bregexpBuildWhere stripPrefix addPrefix addSuffix =
      whereText bang (builtRelocations stripPrefix addPrefix addSuffix) := by
  have fixed : escapeString bang [40, 91, 94, 47, 93, 41, 36] = [40, 91, 94, 47, 93, 41, 36] := rfl
  have first : escapeString bang [94] = [94] := rfl
  have group (s : Text) : escapeString bang (36 :: 49 :: s) = 36 :: 49 :: escapeString bang s := rfl
  have empty : escapeString bang [] = [] := rfl
  cases stripPrefix <;> cases addPrefix <;> cases addSuffix <;>
    simp [bregexpBuildWhere, builtRelocations, whereText, Relocation.written, edited,
      strStripPrefix, strAddPrefix, strAddSuffix, fixed, first, group, empty]

/-- What the user asked for is what the File daemon does, unless a text has something to escape in front
of its end. -/
theorem bregexpBuildWhere_read_back_iff {regcomp : Text → Bool → Bool}
    {stripPrefix addPrefix addSuffix : Option Text}
    (compiles : ∀ r ∈ builtRelocations stripPrefix addPrefix addSuffix,
      regcomp r.search (letterI ∈ r.options) = true) :
    bregexps regcomp (bregexpBuildWhere stripPrefix addPrefix addSuffix) =
        (builtRelocations stripPrefix addPrefix addSuffix).map Relocation.parsed ↔
      ∀ r ∈ builtRelocations stripPrefix addPrefix addSuffix, r.Kept bang := by
  rw [bregexpBuildWhere_eq]
  apply bregexps_written_iff (by decide) (by decide) _ compiles
  intro r here c option
  simp only [builtRelocations, List.mem_append, Option.mem_toList, Option.map_eq_some_iff] at here
  rcases here with ⟨s, -, rfl⟩ | ⟨s, -, rfl⟩ | ⟨s, -, rfl⟩
  · exact .inl (List.mem_singleton.mp option)
  · cases option
  · cases option

end Bacula.Breg
