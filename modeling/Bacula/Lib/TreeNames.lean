import Bacula.Lib.TreeInsert

/-! The full name of an entry, as a slash or a drive, its directories, some of which may have no
name, and its filename; and the key that the insertion splits it into. -/
namespace Bacula.Tree

theorem lastPathSeparator_none {name : Name} (noSep : sep ∉ name) : lastPathSeparator name = none := by
  induction name with
  | nil => rfl
  | cons c name ih =>
      rw [List.mem_cons, not_or] at noSep
      rw [lastPathSeparator, ih noSep.2]
      exact if_neg (Ne.symm noSep.1)

theorem lastPathSeparator_append (before : Name) {after : Name} (noSep : sep ∉ after) :
    lastPathSeparator (before ++ sep :: after) = some (before, after) := by
  induction before with
  | nil =>
      rw [List.nil_append, lastPathSeparator, lastPathSeparator_none noSep]
      exact if_pos rfl
  | cons c before ih => rw [List.cons_append, lastPathSeparator, ih]

/-- The path of a directory below the root, or of a Windows drive. -/
def dirPath (lead : Bool) (dirs : List Name) : Name :=
  (if lead then [sep] else []) ++ dirs.flatMap (· ++ [sep])

theorem dirPath_snoc (lead : Bool) (dirs : List Name) (d : Name) :
    dirPath lead (dirs ++ [d]) = dirPath lead dirs ++ d ++ [sep] := by
  simp [dirPath]

/-- The last byte of a path is a separator. -/
theorem dirPath_end {lead : Bool} {dirs : List Name} (some : lead = true ∨ dirs ≠ []) :
    dirPath lead dirs = (dirPath lead dirs).dropLast ++ [sep] := by
  cases List.eq_nil_or_concat dirs with
  | inl none =>
      subst none
      rcases some with rfl | impossible
      · rfl
      · exact absurd rfl impossible
  | inr more =>
      obtain ⟨ds, d, rfl⟩ := more
      rw [List.concat_eq_append, dirPath_snoc, List.dropLast_concat]

/-- Names of directories, of which the first one has a name if it is a drive. -/
structure Dirs (lead : Bool) (dirs : List Name) : Prop where
  noSep : ∀ d ∈ dirs, sep ∉ d
  drive : lead = true ∨ ∀ d ∈ dirs.head?, d ≠ []

theorem Dirs.init {lead : Bool} {dirs more : List Name} (names : Dirs lead (dirs ++ more)) :
    Dirs lead dirs where
  noSep d inside := names.noSep d (List.mem_append_left _ inside)
  drive := by
    refine names.drive.imp_right fun first d head => first d ?_
    cases dirs with
    | nil => cases head
    | cons c dirs => exact head

/-- The last directory of a path stands behind a separator, or alone. -/
theorem dirPath_split (lead : Bool) (dirs : List Name) {d : Name} (noSep : sep ∉ d) :
    (lead = true ∨ dirs ≠ []) ∧
        lastPathSeparator (dirPath lead dirs ++ d) = some ((dirPath lead dirs).dropLast, d) ∨
      dirs = [] ∧ lead = false ∧ dirPath lead dirs ++ d = d ∧ lastPathSeparator d = none := by
  by_cases more : lead = true ∨ dirs ≠ []
  · refine .inl ⟨more, ?_⟩
    rw [dirPath_end more, List.append_assoc, List.singleton_append, lastPathSeparator_append _ noSep,
      List.dropLast_concat]
  · rw [not_or, not_not, Bool.not_eq_true] at more
    obtain ⟨rfl, rfl⟩ := more
    exact .inr ⟨rfl, rfl, rfl, lastPathSeparator_none noSep⟩

theorem pathDirs_some {path before fname : Name} (split : lastPathSeparator path = some (before, fname))
    (len : ℕ) : pathDirs (len + 1) path = pathDirs len before ++ [fname] := by
  cases path with
  | nil => cases split
  | cons c path =>
      rw [pathDirs, split]
      exact fun h => absurd h (List.cons_ne_nil _ _)

theorem pathDirs_none {path : Name} (nonempty : path ≠ []) (split : lastPathSeparator path = none)
    (len : ℕ) :
    pathDirs (len + 1) path = [path] := by
  rw [pathDirs, split]
  exact nonempty

theorem pathDirs_dirs {lead : Bool} {dirs : List Name} (names : Dirs lead dirs)
    {len : ℕ} (enough : (dirPath lead dirs).dropLast.length ≤ len) :
    pathDirs len (dirPath lead dirs).dropLast = dirs := by
  induction dirs using List.reverseRecOn generalizing len with
  | nil => cases lead <;> cases len <;> rfl
  | append_singleton dirs d ih =>
      have noSep := names.noSep d (by simp)
      rw [dirPath_snoc, List.dropLast_concat] at enough ⊢
      rcases dirPath_split lead dirs noSep with ⟨more, split⟩ | ⟨rfl, rfl, alone, split⟩
      · have longer := congrArg List.length (dirPath_end more)
        rw [List.length_append, List.length_singleton] at longer
        rw [List.length_append] at enough
        obtain ⟨len, rfl⟩ : ∃ l, len = l + 1 := ⟨len - 1, by omega⟩
        rw [pathDirs_some split, ih names.init (by omega)]
      · have nonempty : d ≠ [] := names.drive.resolve_left Bool.false_ne_true d rfl
        have some := List.length_pos_iff.mpr nonempty
        rw [alone] at enough ⊢
        obtain ⟨len, rfl⟩ : ∃ l, len = l + 1 := ⟨len - 1, by omega⟩
        exact pathDirs_none nonempty split len

theorem dirPath_head {lead : Bool} {dirs : List Name} (names : Dirs lead dirs)
    (some : lead = true ∨ dirs ≠ []) :
    (dirPath lead dirs).head? = Option.some sep ↔ lead = true := by
  cases lead with
  | true => exact iff_of_true rfl rfl
  | false =>
      cases dirs with
      | nil => exact absurd rfl (some.resolve_left Bool.false_ne_true)
      | cons d dirs =>
          have nonempty : d ≠ [] := names.drive.resolve_left Bool.false_ne_true d rfl
          have noSep := names.noSep d List.mem_cons_self
          refine iff_of_false (fun head => noSep ?_) Bool.false_ne_true
          cases d with
          | nil => exact absurd rfl nonempty
          | cons c d =>
              have first : c = sep := Option.some_inj.mp head
              exact first ▸ List.mem_cons_self

/-- Two names in front of a separator are the same if what begins with them is. -/
theorem name_unique {a b rest rest' : Name} (noSepA : sep ∉ a) (noSepB : sep ∉ b)
    (same : a ++ sep :: rest = b ++ sep :: rest') : a = b ∧ rest = rest' := by
  induction a generalizing b with
  | nil =>
      cases b with
      | nil => exact ⟨rfl, (List.cons.inj same).2⟩
      | cons c b =>
          have first : sep = c := (List.cons.inj same).1
          exact absurd (first ▸ List.mem_cons_self) noSepB
  | cons c a ih =>
      cases b with
      | nil =>
          have first : c = sep := (List.cons.inj same).1
          exact absurd (first ▸ List.mem_cons_self) noSepA
      | cons c' b =>
          obtain ⟨rfl, tails⟩ := List.cons.inj same
          rw [List.mem_cons, not_or] at noSepA noSepB
          obtain ⟨rfl, rests⟩ := ih noSepA.2 noSepB.2 tails
          exact ⟨rfl, rests⟩

/-- Directories that a longer name begins with. -/
theorem flatMap_prefix {a b : List Name} {fname : Name} (noSepA : ∀ d ∈ a, sep ∉ d)
    (noSepB : ∀ d ∈ b, sep ∉ d) (file : sep ∉ fname)
    (start : a.flatMap (· ++ [sep]) <+: b.flatMap (· ++ [sep]) ++ fname) : a <+: b := by
  induction a generalizing b with
  | nil => exact List.nil_prefix
  | cons d a ih =>
      obtain ⟨rest, eq⟩ := start
      rw [List.flatMap_cons, List.append_assoc, List.append_assoc, List.singleton_append] at eq
      cases b with
      | nil =>
          have inside : sep ∈ fname := by
            have last : sep ∈ ([] : List Name).flatMap (· ++ [sep]) ++ fname := eq ▸ by simp
            exact last
          exact absurd inside file
      | cons d' b =>
          rw [List.flatMap_cons, List.append_assoc, List.append_assoc, List.singleton_append] at eq
          obtain ⟨rfl, rests⟩ :=
            name_unique (noSepA d List.mem_cons_self) (noSepB d' List.mem_cons_self) eq
          have below := ih (fun x inside => noSepA x (List.mem_cons_of_mem _ inside))
            (fun x inside => noSepB x (List.mem_cons_of_mem _ inside)) ⟨rest, rests⟩
          exact List.cons_prefix_cons.mpr ⟨rfl, below⟩

theorem dirPath_prefix {lead lead' : Bool} {a b : List Name} {fname : Name} (namesA : Dirs lead a)
    (namesB : Dirs lead' b) (someA : lead = true ∨ a ≠ []) (someB : lead' = true ∨ b ≠ [])
    (file : sep ∉ fname) (start : dirPath lead a <+: dirPath lead' b ++ fname) :
    lead = lead' ∧ a <+: b := by
  have nonempty {l : Bool} {ds : List Name} (some : l = true ∨ ds ≠ []) : dirPath l ds ≠ [] := by
    rw [dirPath_end some]
    exact List.concat_ne_nil _ _
  have heads : (dirPath lead a).head? = (dirPath lead' b).head? := by
    obtain ⟨rest, eq⟩ := start
    have same := congrArg List.head? eq
    rwa [List.head?_append_of_ne_nil _ (nonempty someA),
      List.head?_append_of_ne_nil _ (nonempty someB)] at same
  have leads : lead = lead' := by
    rw [Bool.eq_iff_iff, ← dirPath_head namesA someA, ← dirPath_head namesB someB, heads]
  subst leads
  refine ⟨rfl, flatMap_prefix namesA.noSep namesB.noSep file ?_⟩
  rwa [dirPath, dirPath, List.append_assoc, List.prefix_append_right_inj] at start

theorem dirPath_mono (lead : Bool) {a b : List Name} (start : a <+: b) :
    dirPath lead a <+: dirPath lead b := by
  obtain ⟨rest, rfl⟩ := start
  refine ⟨rest.flatMap (· ++ [sep]), ?_⟩
  simp [dirPath]

/-- Every name is directories and what stands behind the last separator. -/
theorem exists_names (name : Name) : ∃ (ds : List Name) (fname : Name),
    (∀ d ∈ ds, sep ∉ d) ∧ sep ∉ fname ∧ name = ds.flatMap (· ++ [sep]) ++ fname := by
  induction name with
  | nil => exact ⟨[], [], fun _ inside => absurd inside List.not_mem_nil, List.not_mem_nil, rfl⟩
  | cons c name ih =>
      obtain ⟨ds, fname, noSep, file, rfl⟩ := ih
      by_cases slash : c = sep
      · subst slash
        refine ⟨[] :: ds, fname, fun d inside => ?_, file, rfl⟩
        rcases List.mem_cons.mp inside with rfl | below
        · exact List.not_mem_nil
        · exact noSep d below
      · have longer {d : Name} (old : sep ∉ d) : sep ∉ c :: d := by
          rw [List.mem_cons, not_or]
          exact ⟨Ne.symm slash, old⟩
        cases ds with
        | nil => exact ⟨[], c :: fname, noSep, longer file, rfl⟩
        | cons d ds =>
            refine ⟨(c :: d) :: ds, fname, fun d' inside => ?_, file, rfl⟩
            rcases List.mem_cons.mp inside with rfl | below
            · exact longer (noSep d List.mem_cons_self)
            · exact noSep d' (List.mem_cons_of_mem _ below)

/-- Every path that ends in a separator is one of a directory. -/
theorem exists_dirs {path : Name} (last : path.getLast? = some sep) :
    ∃ lead dirs, Dirs lead dirs ∧ (lead = true ∨ dirs ≠ []) ∧ path = dirPath lead dirs := by
  obtain ⟨ds, fname, noSep, file, rfl⟩ := exists_names path
  have none : fname = [] := by
    by_contra some
    rw [List.getLast?_append_of_ne_nil _ some] at last
    exact file (List.mem_of_getLast? last)
  subst none
  rw [List.append_nil] at last ⊢
  cases ds with
  | nil => cases last
  | cons d ds =>
      by_cases slash : d = []
      · subst slash
        exact ⟨true, ds, ⟨fun x inside => noSep x (List.mem_cons_of_mem _ inside), .inl rfl⟩,
          .inl rfl, rfl⟩
      · refine ⟨false, d :: ds, ⟨noSep, .inr fun x head => ?_⟩, .inr (List.cons_ne_nil _ _), rfl⟩
        obtain rfl := Option.some_inj.mp head
        exact slash

/-- A path begins with two separators when the first name below the top is missing. -/
theorem doubled_start_iff {lead : Bool} {dirs : List Name} (names : Dirs lead dirs)
    (some : lead = true ∨ dirs ≠ []) {fname : Name} (file : sep ∉ fname) :
    [sep, sep] <+: dirPath lead dirs ++ fname ↔ dirs.head? = Option.some [] := by
  constructor
  · intro start
    have alone : Dirs true [[]] := by
      refine ⟨fun d inside => ?_, .inl rfl⟩
      rw [List.mem_singleton.mp inside]
      exact List.not_mem_nil
    obtain ⟨-, rest, rfl⟩ := dirPath_prefix alone names (.inl rfl) some file start
    rfl
  · intro head
    have absolute : lead = true := names.drive.resolve_right fun first => first [] head rfl
    cases dirs with
    | nil => cases head
    | cons d dirs =>
        obtain rfl := Option.some_inj.mp head
        subst absolute
        exact ⟨dirs.flatMap (· ++ [sep]) ++ fname, rfl⟩

/-- The name of the last directory stands between two separators. -/
theorem doubled_end {lead : Bool} {dirs : List Name} {d : Name} (named : d ≠ []) (noSep : sep ∉ d) :
    ¬ [sep, sep] <:+ dirPath lead (dirs ++ [d]) := by
  rintro ⟨before, same⟩
  have short : before ++ [sep] = dirPath lead dirs ++ d := by
    have longer : before ++ [sep] ++ [sep] = dirPath lead dirs ++ d ++ [sep] := by
      rw [← dirPath_snoc, ← same, List.append_assoc]
      rfl
    exact List.append_cancel_right longer
  have last := congrArg List.getLast? short
  rw [List.getLast?_concat, List.getLast?_append_of_ne_nil _ named] at last
  exact noSep (List.mem_of_getLast? last.symm)

/-! ## The key of an entry -/

theorem stripTrailing_dirPath {lead : Bool} {dirs : List Name} (some : lead = true ∨ dirs ≠ []) :
    stripTrailing (dirPath lead dirs) = (dirPath lead dirs).dropLast := by
  refine if_pos ?_
  rw [dirPath_end some]
  exact List.getLast?_concat

theorem entryKey_file {lead : Bool} {dirs : List Name} (names : Dirs lead dirs)
    (some : lead = true ∨ dirs ≠ []) {fname : Name} (file : fname ≠ []) :
    entryKey (dirPath lead dirs) fname = dirs ++ [fname] := by
  rw [entryKey, stripTrailing_dirPath some, if_neg file]
  dsimp only
  rw [if_pos file, pathDirs_dirs names (le_refl _)]

theorem entryKey_dir {lead : Bool} {dirs : List Name} {d : Name} (names : Dirs lead (dirs ++ [d]))
    (named : d ≠ []) :
    entryKey (dirPath lead (dirs ++ [d])) [] = dirs ++ [d] := by
  have noSep := names.noSep d (List.mem_append_right _ (List.mem_singleton_self d))
  rw [entryKey, stripTrailing_dirPath (.inr (List.concat_ne_nil _ _)), dirPath_snoc,
    List.dropLast_concat, if_pos rfl]
  rcases dirPath_split lead dirs noSep with ⟨more, split⟩ | ⟨rfl, rfl, alone, split⟩
  · rw [split]
    dsimp only [Option.getD_some]
    rw [if_pos named, pathDirs_dirs names.init (le_refl _)]
  · rw [alone, split]
    rfl

/-- A directory without a name is not looked for below the one before it. -/
theorem entryKey_doubled (before : Name) : entryKey (before ++ [sep, sep]) [] = [before] := by
  have strip : stripTrailing (before ++ [sep, sep]) = before ++ [sep] := by
    have last : before ++ [sep, sep] = (before ++ [sep]) ++ [sep] := by
      rw [List.append_assoc]
      rfl
    rw [last, stripTrailing, List.getLast?_concat, if_pos rfl, List.dropLast_concat]
  rw [entryKey, strip, if_pos rfl, lastPathSeparator_append before List.not_mem_nil]
  rfl

/-! ## The first name -/

/-- The name behind the slash that a full name begins with, or its first one. -/
def firstName (text : Name) : Name :=
  (if text.head? = some sep then text.tail else text).takeWhile (· ≠ sep)

theorem takeWhile_sep {d : Name} (noSep : sep ∉ d) (rest : Name) :
    (d ++ sep :: rest).takeWhile (· ≠ sep) = d := by
  have keeps : ∀ c ∈ d, (decide (c ≠ sep)) = true := by
    intro c inside
    exact decide_eq_true fun same => noSep (same ▸ inside)
  rw [List.takeWhile_append_of_pos keeps, List.takeWhile_cons_of_neg (by simp), List.append_nil]

theorem firstName_dirPath {lead : Bool} {dirs : List Name} (names : Dirs lead dirs)
    (some : lead = true ∨ dirs ≠ []) {fname : Name} (file : sep ∉ fname) :
    firstName (dirPath lead dirs ++ fname) = (dirs ++ [fname]).headD [] := by
  have below : firstName (dirPath lead dirs ++ fname) =
      (dirs.flatMap (· ++ [sep]) ++ fname).takeWhile (· ≠ sep) := by
    rw [firstName]
    cases lead with
    | true =>
        rw [dirPath, if_pos rfl]
        rfl
    | false =>
        have relative : (dirPath false dirs ++ fname).head? ≠ Option.some sep := by
          have nonempty : dirPath false dirs ≠ [] := by
            rw [dirPath_end some]
            exact List.concat_ne_nil _ _
          rw [List.head?_append_of_ne_nil _ nonempty, ne_eq, dirPath_head names some]
          exact Bool.false_ne_true
        rw [if_neg relative]
        rfl
  rw [below]
  cases dirs with
  | nil =>
      refine List.takeWhile_eq_self_iff.mpr fun c inside => ?_
      exact decide_eq_true fun same => file (same ▸ inside)
  | cons d dirs =>
      rw [List.flatMap_cons, List.append_assoc, List.append_assoc, List.singleton_append]
      exact takeWhile_sep (names.noSep d List.mem_cons_self) _

end Bacula.Tree
