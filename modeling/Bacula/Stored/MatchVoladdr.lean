import Mathlib

/-!
# Address ranges of a bootstrap record

A bootstrap record lists ranges of addresses on a volume. A record whose address is past them all
can match no more, and the bootstrap record is done.
-/
namespace Bacula.MatchVoladdr

structure BSR_VOLADDR where
  saddr : UInt64
  eaddr : UInt64
  /-- Local done. -/
  done : Bool
  deriving DecidableEq

structure BSR where
  voladdr : List BSR_VOLADDR
  done : Bool
  /-- Of the root. -/
  reposition : Bool
  deriving DecidableEq

/-- `store_voladdr`: a range goes to the end of the chain. -/
def store_voladdr (bsr : BSR) (saddr eaddr : UInt64) : BSR :=
  { bsr with voladdr := bsr.voladdr ++ [⟨saddr, eaddr, false⟩] }

/-- Set local done once we are past the range. -/
def BSR_VOLADDR.pass (addr : UInt64) (voladdr : BSR_VOLADDR) : BSR_VOLADDR :=
  if voladdr.eaddr < addr then { voladdr with done := true } else voladdr

/-- What a chain of ranges says: whether the address matches, the chain with its flags, whether it
makes the bsr done, and whether it asks to reposition. -/
def matchChain (addr : UInt64) : List BSR_VOLADDR → Bool → Bool × List BSR_VOLADDR × Bool × Bool
  | [], _ => (true, [], false, false)
  | voladdr :: next, done =>
      if voladdr.saddr ≤ addr ∧ addr ≤ voladdr.eaddr then (true, voladdr :: next, false, false)
      else
        let past : Bool := voladdr.eaddr < addr
        let voladdr := voladdr.pass addr
        match next with
        -- once we get past last eblock, we are done
        | [] => (false, [voladdr], past || (voladdr.done && done), voladdr.done && done)
        | _ :: _ =>
            let (found, next, finished, reposition) := matchChain addr next (voladdr.done && done)
            (found, voladdr :: next, finished, reposition)

/-- The call in `match_all`, which passes by a bsr that is done. -/
def match_voladdr (bsr : BSR) (addr : UInt64) : Bool × BSR :=
  if bsr.done then (false, bsr)
  else
    let (found, voladdr, finished, reposition) := matchChain addr bsr.voladdr true
    (found, { voladdr, done := finished, reposition := bsr.reposition || reposition })

/-- The bsr of a list of ranges as it is parsed. -/
def parsed (ranges : List (UInt64 × UInt64)) : BSR :=
  ranges.foldl (fun bsr range => store_voladdr bsr range.1 range.2) ⟨[], false, false⟩

/-- The bsr after records with these addresses. -/
def seen (bsr : BSR) (addrs : List UInt64) : BSR :=
  addrs.foldl (fun bsr addr => (match_voladdr bsr addr).2) bsr

def inRange (addr : UInt64) (range : UInt64 × UInt64) : Prop := range.1 ≤ addr ∧ addr ≤ range.2

/-- The ranges of a chain. -/
def rangesOf (chain : List BSR_VOLADDR) : List (UInt64 × UInt64) :=
  chain.map fun v => (v.saddr, v.eaddr)

/-- The flag of the last element is not set. -/
def Fresh (chain : List BSR_VOLADDR) : Prop := ∀ v, chain.getLast? = some v → v.done = false

theorem rangesOf_parsed (ranges : List (UInt64 × UInt64)) :
    rangesOf (parsed ranges).voladdr = ranges ∧ Fresh (parsed ranges).voladdr ∧
      (parsed ranges).done = false := by
  induction ranges using List.reverseRecOn with
  | nil => exact ⟨rfl, fun _ none => absurd none (by simp [parsed]), rfl⟩
  | append_singleton ranges range ih =>
      obtain ⟨same, -, opened⟩ := ih
      rw [parsed, List.foldl_append, ← parsed]
      refine ⟨?_, fun v last => ?_, opened⟩
      · simp only [List.foldl_cons, List.foldl_nil, store_voladdr, rangesOf, List.map_append,
          List.map_cons, List.map_nil]
        exact congrArg (· ++ [range]) same
      · simp only [List.foldl_cons, List.foldl_nil, store_voladdr, List.getLast?_append,
          List.getLast?_singleton, Option.some_or] at last
        obtain rfl := Option.some.inj last
        rfl

@[simp] theorem pass_saddr (addr : UInt64) (v : BSR_VOLADDR) : (v.pass addr).saddr = v.saddr := by
  unfold BSR_VOLADDR.pass
  split <;> rfl

@[simp] theorem pass_eaddr (addr : UInt64) (v : BSR_VOLADDR) : (v.pass addr).eaddr = v.eaddr := by
  unfold BSR_VOLADDR.pass
  split <;> rfl

/-- The walk along a chain whose last flag is not set: it changes no range, and it makes the bsr
done when no range has the address and the last one is below it. -/
theorem matchChain_spec (addr : UInt64) {chain : List BSR_VOLADDR} (fresh : Fresh chain)
    (done : Bool) :
    rangesOf (matchChain addr chain done).2.1 = rangesOf chain ∧
      ((matchChain addr chain done).2.2.1 = false → Fresh (matchChain addr chain done).2.1) ∧
      ((matchChain addr chain done).2.2.1 = true ↔
        (∀ range ∈ rangesOf chain, ¬inRange addr range) ∧
          ∃ last, (rangesOf chain).getLast? = some last ∧ last.2 < addr) := by
  induction chain generalizing done with
  | nil => exact ⟨rfl, fun _ => fresh, by simp [matchChain, rangesOf]⟩
  | cons v next ih =>
      rw [matchChain]
      by_cases hit : v.saddr ≤ addr ∧ addr ≤ v.eaddr
      · rw [if_pos hit]
        refine ⟨rfl, fun _ => fresh, iff_of_false (by simp) fun both => ?_⟩
        exact both.1 (v.saddr, v.eaddr) (by simp [rangesOf]) hit
      · rw [if_neg hit]
        cases next with
        | nil =>
            have unset : v.done = false := fresh v rfl
            refine ⟨by simp [rangesOf], fun open' w last => ?_, ?_⟩
            · obtain rfl := Option.some.inj last
              by_cases past : v.eaddr < addr
              · simp [past] at open'
              · simp [BSR_VOLADDR.pass, past, unset]
            · have misses : ¬inRange addr (v.saddr, v.eaddr) := hit
              by_cases past : v.eaddr < addr <;>
                simp [BSR_VOLADDR.pass, rangesOf, past, unset, misses]
        | cons w rest =>
            have fresh' : Fresh (w :: rest) := fun u last =>
              fresh u (by rwa [List.getLast?_cons_cons])
            obtain ⟨same, opened, finished⟩ := ih fresh' ((v.pass addr).done && done)
            have misses : ¬inRange addr (v.saddr, v.eaddr) := hit
            have last : (rangesOf (v :: w :: rest)).getLast? = (rangesOf (w :: rest)).getLast? := by
              simp only [rangesOf, List.map_cons, List.getLast?_cons_cons]
            refine ⟨?_, fun unset u behind => ?_, ?_⟩
            · simp only [rangesOf, List.map_cons, pass_saddr, pass_eaddr] at same ⊢
              exact congrArg _ same
            · have longer : (matchChain addr (w :: rest) ((v.pass addr).done && done)).2.1 ≠ [] := by
                intro none
                rw [none] at same
                exact absurd same (by simp [rangesOf])
              rw [List.getLast?_cons_of_ne_nil longer] at behind
              exact opened unset u behind
            · rw [last]
              refine finished.trans ?_
              simp [rangesOf, misses]

/-- Every address above the last range of the list that is not past all of them is in a range. -/
def Closed (ranges : List (UInt64 × UInt64)) : Prop :=
  ∀ last, ranges.getLast? = some last → ∀ range ∈ ranges, ∀ addr,
    last.2 < addr → addr ≤ range.2 → ∃ other ∈ ranges, inRange addr other

theorem match_voladdr_spec {bsr : BSR} (fresh : bsr.done = false → Fresh bsr.voladdr)
    (addr : UInt64) :
    rangesOf (match_voladdr bsr addr).2.voladdr = rangesOf bsr.voladdr ∧
      ((match_voladdr bsr addr).2.done = false → Fresh (match_voladdr bsr addr).2.voladdr) := by
  unfold match_voladdr
  cases finished : bsr.done with
  | true => exact ⟨rfl, fun open' => absurd (finished.symm.trans open') (by decide)⟩
  | false =>
      obtain ⟨same, opened, -⟩ := matchChain_spec addr (fresh finished) true
      exact ⟨same, opened⟩

theorem seen_spec (ranges : List (UInt64 × UInt64)) (addrs : List UInt64) :
    rangesOf (seen (parsed ranges) addrs).voladdr = ranges ∧
      ((seen (parsed ranges) addrs).done = false →
        Fresh (seen (parsed ranges) addrs).voladdr) := by
  induction addrs using List.reverseRecOn with
  | nil =>
      obtain ⟨same, fresh, -⟩ := rangesOf_parsed ranges
      exact ⟨same, fun _ => fresh⟩
  | append_singleton addrs addr ih =>
      obtain ⟨same, fresh⟩ := ih
      obtain ⟨kept, fresh'⟩ := match_voladdr_spec fresh addr
      rw [seen, List.foldl_append, ← seen]
      exact ⟨kept.trans same, fresh'⟩

/-- When an address makes the bsr done, after any others. -/
theorem done_iff {ranges : List (UInt64 × UInt64)} {addrs : List UInt64}
    (unfinished : (seen (parsed ranges) addrs).done = false) (addr : UInt64) :
    (match_voladdr (seen (parsed ranges) addrs) addr).2.done = true ↔
      (∀ range ∈ ranges, ¬inRange addr range) ∧
        ∃ last, ranges.getLast? = some last ∧ last.2 < addr := by
  obtain ⟨same, fresh⟩ := seen_spec ranges addrs
  obtain ⟨-, -, finished⟩ := matchChain_spec addr (fresh unfinished) true
  rw [match_voladdr, unfinished]
  rw [same] at finished
  exact finished

/-- The bsr is made done only past all of its ranges, if and only if the list is closed. -/
theorem done_past_all_iff (ranges : List (UInt64 × UInt64)) :
    (∀ addrs addr, (seen (parsed ranges) addrs).done = false →
      (match_voladdr (seen (parsed ranges) addrs) addr).2.done = true →
        ∀ range ∈ ranges, range.2 < addr) ↔ Closed ranges := by
  constructor
  · intro law last isLast range member addr above below
    by_contra none
    have misses : ∀ other ∈ ranges, ¬inRange addr other := fun other inside hit =>
      none ⟨other, inside, hit⟩
    have unfinished : (seen (parsed ranges) []).done = false := (rangesOf_parsed ranges).2.2
    have past := law [] addr unfinished ((done_iff unfinished addr).mpr ⟨misses, last, isLast, above⟩)
    exact UInt64.not_lt.mpr below (past range member)
  · intro closed addrs addr unfinished finished range member
    obtain ⟨misses, last, isLast, above⟩ := (done_iff unfinished addr).mp finished
    by_contra ahead
    obtain ⟨other, inside, hit⟩ := closed last isLast range member addr above (UInt64.not_lt.mp ahead)
    exact misses other inside hit

/-- Lists whose last range ends last are closed, in whatever order the others come. -/
theorem closed_of_last {ranges : List (UInt64 × UInt64)}
    (ends : ∀ last, ranges.getLast? = some last → ∀ range ∈ ranges, range.2 ≤ last.2) :
    Closed ranges := by
  intro last isLast range member addr above below
  exact absurd (UInt64.lt_of_lt_of_le above below) (UInt64.not_lt.mpr (ends last isLast range member))

/-- A record between a low range that comes last and a high one ends the search. -/
theorem high_range_lost :
    ¬∀ addrs addr, (seen (parsed [(100, 200), (10, 50)]) addrs).done = false →
      (match_voladdr (seen (parsed [(100, 200), (10, 50)]) addrs) addr).2.done = true →
        ∀ range ∈ [((100 : UInt64), (200 : UInt64)), (10, 50)], range.2 < addr := by
  intro law
  exact absurd (law [] 60 (by decide) (by decide) (100, 200) List.mem_cons_self) (by decide)

end Bacula.MatchVoladdr
