import Bacula.Stored.CloudProxy

/-! The proxy of the cloud parts refines a map of records. -/
namespace Bacula.CloudProxy
open CloudParts

variable {T : Type}

/-- A call of `get_size` and its pointer: the record is that of the proxy, or it was freed. -/
def SamePoint (s : Proxy T) (pointer : Option ℕ) (call : SizeCall) : Prop :=
  match pointer, call.record with
  | none, none => True
  | some p, some part => p < s.next ∧
      if call.replaced then s.heap p = none
      else s.at call.volume call.index = some p ∧ s.heap p = some part
  | _, _ => False

def SameCall (s : Proxy T) : Option (Option ℕ) → Option SizeCall → Prop
  | none, none => True
  | some pointer, some call => SamePoint s pointer call
  | _, _ => False

/-- The proxy stands for the map. -/
structure Stands (s : Proxy T) (sp : Spec T) : Prop where
  known : ∀ volume, (s.volumes volume).isSome = (sp.volumes volume).isSome
  shows : Shows s sp
  live : ∀ volume index p, s.at volume index = some p → (s.heap p).isSome ∧ p < s.next
  apart : ∀ volume index volume' index' p, s.at volume index = some p →
    s.at volume' index' = some p → volume = volume' ∧ index = index'
  lists : ∀ volume list, s.volumes volume = some list → list.Tight ∧ list.Tidy
  calls : ∀ t, SameCall s (s.calls t) (sp.calls t)

theorem stands_init : Stands (Proxy.init : Proxy T) Spec.init where
  known _ := rfl
  shows _ _ := rfl
  live volume index p there := by cases there
  apart volume index volume' index' p there := by cases there
  lists volume list there := by cases there
  calls _ := trivial

section Calls

/-- What becomes of the calls when the records at some keys are freed and others come. -/
theorem SameCall.replace {s s' : Proxy T} {sp : Spec T} {at_ : String → ℕ → Bool}
    (next : s.next ≤ s'.next)
    (kept : ∀ volume index, at_ volume index = false → s'.at volume index = s.at volume index)
    (heap : ∀ p, p < s.next → s'.heap p = s.heap p ∨ s'.heap p = none)
    (freed : ∀ volume index p, at_ volume index = true → s.at volume index = some p →
      s'.heap p = none)
    (stay : ∀ volume index p, at_ volume index = false → s.at volume index = some p →
      s'.heap p = s.heap p)
    (t : T) (pointer : Option (Option ℕ)) (same : SameCall s pointer (sp.calls t)) :
    SameCall s' pointer (sp.replace at_ t) := by
  unfold Spec.replace
  cases called : sp.calls t with
  | none =>
      rw [called] at same
      cases pointer with
      | none => trivial
      | some pointer => exact same.elim
  | some call =>
      rw [called] at same
      cases pointer with
      | none => exact same.elim
      | some pointer =>
          cases pointer with
          | none =>
              cases record : call.record with
              | none => simp [SameCall, SamePoint, record]
              | some part => simp [SameCall, SamePoint, record] at same
          | some p =>
              cases record : call.record with
              | none => simp [SameCall, SamePoint, record] at same
              | some part =>
                  simp only [SameCall, SamePoint, record, Option.map_some] at same ⊢
                  obtain ⟨below, state⟩ := same
                  refine ⟨below.trans_le next, ?_⟩
                  by_cases before : call.replaced = true
                  · rw [if_pos before] at state
                    rw [before, Bool.true_or, if_pos rfl]
                    rcases heap p below with eq | gone
                    · rw [eq, state]
                    · exact gone
                  · rw [if_neg before] at state
                    cases now : at_ call.volume call.index with
                    | true =>
                        rw [Bool.or_true, if_pos rfl]
                        exact freed _ _ p now state.1
                    | false =>
                        rw [Bool.or_false, if_neg before, kept _ _ now, stay _ _ p now state.1]
                        exact state

/-- The records at some keys are replaced: they are freed, and new pointers take their place. -/
structure Replaces (s s' : Proxy T) (sp sp' : Spec T) (at_ : String → ℕ → Bool) : Prop where
  next : s.next ≤ s'.next
  kept : ∀ volume index, at_ volume index = false → s'.at volume index = s.at volume index ∧
    sp'.at volume index = sp.at volume index
  stay : ∀ p, p < s.next → (∀ volume index, at_ volume index = true → s.at volume index ≠ some p) →
    s'.heap p = s.heap p
  freed : ∀ volume index p, at_ volume index = true → s.at volume index = some p → s'.heap p = none
  new : ∀ volume index, at_ volume index = true →
    (s'.at volume index).bind s'.heap = sp'.at volume index ∧
      ∀ p, s'.at volume index = some p → s.next ≤ p ∧ p < s'.next ∧ (s'.heap p).isSome
  apart : ∀ volume index volume' index' p, at_ volume index = true → at_ volume' index' = true →
    s'.at volume index = some p → s'.at volume' index' = some p → volume = volume' ∧ index = index'
  known : ∀ volume, (s'.volumes volume).isSome = (sp'.volumes volume).isSome
  lists : ∀ volume list, s'.volumes volume = some list → list.Tight ∧ list.Tidy
  calls : s'.calls = s.calls ∧ sp'.calls = sp.replace at_

theorem Stands.replace {s s' : Proxy T} {sp sp' : Spec T} (at_ : String → ℕ → Bool)
    (stands : Stands s sp) (replaces : Replaces s s' sp sp' at_) : Stands s' sp' := by
  -- a pointer at another key is not freed
  have stay (v : String) (i p : ℕ) (other : at_ v i = false) (there : s.at v i = some p) :
      s'.heap p = s.heap p := by
    refine replaces.stay p (stands.live v i p there).2 fun v' i' key here => ?_
    obtain ⟨rfl, rfl⟩ := stands.apart v i v' i' p there here
    rw [key] at other
    cases other
  refine ⟨replaces.known, ?_, ?_, ?_, replaces.lists, ?_⟩
  · intro v i
    cases key : at_ v i with
    | true => exact (replaces.new v i key).1
    | false =>
        obtain ⟨same, map⟩ := replaces.kept v i key
        rw [same, map, ← stands.shows v i]
        cases there : s.at v i with
        | none => rfl
        | some p => exact stay v i p key there
  · intro v i p there
    cases key : at_ v i with
    | true => exact ((replaces.new v i key).2 p there).2.symm
    | false =>
        rw [(replaces.kept v i key).1] at there
        obtain ⟨live, below⟩ := stands.live v i p there
        rw [stay v i p key there]
        exact ⟨live, below.trans_le replaces.next⟩
  · intro v i v' i' p first second
    cases key : at_ v i with
    | true =>
        cases key' : at_ v' i' with
        | true => exact replaces.apart v i v' i' p key key' first second
        | false =>
            rw [(replaces.kept v' i' key').1] at second
            have old := (stands.live v' i' p second).2
            exact absurd old (not_lt.mpr ((replaces.new v i key).2 p first).1)
    | false =>
        rw [(replaces.kept v i key).1] at first
        cases key' : at_ v' i' with
        | true =>
            have old := (stands.live v i p first).2
            exact absurd old (not_lt.mpr ((replaces.new v' i' key').2 p second).1)
        | false =>
            rw [(replaces.kept v' i' key').1] at second
            exact stands.apart v i v' i' p first second
  · intro t
    rw [replaces.calls.1, replaces.calls.2]
    refine SameCall.replace replaces.next (fun v i other => (replaces.kept v i other).1) ?_
      replaces.freed stay t _ (stands.calls t)
    intro p below
    by_cases gone : ∃ v i, at_ v i = true ∧ s.at v i = some p
    · obtain ⟨v, i, key, there⟩ := gone
      exact .inr (replaces.freed v i p key there)
    · exact .inl (replaces.stay p below fun v i key there => gone ⟨v, i, key, there⟩)

end Calls

section Set

theorem Stands.at_below {s : Proxy T} {sp : Spec T} (stands : Stands s sp) {volume : String}
    {index : ℕ} (behind : 2 ^ 31 ≤ index) : s.at volume index = none := by
  unfold Proxy.at
  cases known : s.volumes volume with
  | none => rfl
  | some list =>
      have last := (stands.lists volume list known).2.last
      exact list.above index (by omega)

theorem Proxy.at_eq {s : Proxy T} {volume : String} {list : Ilist ℕ}
    (known : s.volumes volume = some list) : s.at volume = fun i => slot list.items i := by
  funext i
  rw [Proxy.at, known]
  rfl

theorem get_nat (list : Ilist ℕ) (index : ℕ) : list.get index = slot list.items index := by
  rw [Ilist.get_eq, if_neg (by omega), Int.toNat_natCast]

/-- `set` frees the record that was at the index and puts the new one into the list of the volume,
or into a new list. -/
theorem set_eq (s : Proxy T) (volume : String) {index : UInt32} (part : CloudPart)
    (first : ¬ index < 1) (small : index.toNat < 2 ^ 31) :
    s.set volume index part = s.putPart volume ((s.volumes volume).getD (Ilist.init 100))
      (fun p => if s.at volume index.toNat = some p then none else s.heap p) index.toNat part := by
  unfold Proxy.set Proxy.at
  rw [if_neg first, if_neg (not_le.mpr small)]
  cases s.volumes volume with
  | none => simp
  | some list =>
      have here := get_nat list index.toNat
      dsimp only
      cases old : list.get index.toNat with
      | none =>
          rw [old] at here
          simp [← here]
      | some p =>
          rw [old] at here
          have freed : (fun q => if p = q then none else s.heap q) = Function.update s.heap p none := by
            funext q
            simp only [Function.update_apply, eq_comm]
          simp [← here, freed]

/-- The list of a volume, or a new one for it. -/
theorem Stands.own {s : Proxy T} {sp : Spec T} (stands : Stands s sp) {volume : String} {own : Ilist ℕ}
    (eq : (s.volumes volume).getD (Ilist.init 100) = own) :
    s.room volume = own.items.length ∧ own.Tidy := by
  unfold Proxy.room
  rw [← eq]
  cases known : s.volumes volume with
  | none => exact ⟨rfl, Ilist.init_tidy⟩
  | some list => exact ⟨rfl, (stands.lists volume list known).2⟩

/-- What `set` does to the keys, the records and the lists. -/
theorem set_spec {s : Proxy T} {sp : Spec T} (stands : Stands s sp) (volume : String)
    {index : UInt32} (part : CloudPart) (first : ¬ index < 1)
    (fits : Ilist.fill (s.room volume) index.toNat < 2 ^ 31) :
    ∃ s', s.set volume index part = (.flag true, s') ∧
      (∀ v i, s'.at v i = if v = volume ∧ i = index.toNat then some s.next else s.at v i) ∧
      (∀ p, s'.heap p = if p = s.next then some part
        else if s.at volume index.toNat = some p then none else s.heap p) ∧
      s'.next = s.next + 1 ∧ s'.calls = s.calls ∧
      (∀ v, (s'.volumes v).isSome = if v = volume then true else (s.volumes v).isSome) ∧
      ∀ v list, s'.volumes v = some list → list.Tight ∧ list.Tidy := by
  -- the list of the volume, or the new one
  obtain ⟨own, ownEq⟩ : ∃ own, (s.volumes volume).getD (Ilist.init 100) = own := ⟨_, rfl⟩
  have ownAt (i : ℕ) : slot own.items i = s.at volume i := by
    unfold Proxy.at
    rw [← ownEq]
    cases s.volumes volume with
    | none => rfl
    | some list => rfl
  have ownTight : own.Tight := by
    rw [← ownEq]
    cases known : s.volumes volume with
    | none => exact Ilist.init_tight 100
    | some list => exact (stands.lists volume list known).1
  obtain ⟨slots, ownTidy⟩ := stands.own ownEq
  rw [slots] at fits
  rw [set_eq s volume part first (Ilist.lt_of_fill ownTidy.length fits), ownEq]
  let heap : ℕ → Option CloudPart := fun p =>
    if s.at volume index.toNat = some p then none else s.heap p
  refine ⟨{ s with
    volumes := Function.update s.volumes volume (some (own.put index.toNat (some s.next)))
    heap := Function.update heap s.next (some part)
    next := s.next + 1 }, ?_, ?_, ?_, rfl, rfl, ?_, ?_⟩
  · unfold Proxy.putPart
    rw [ownTidy.putInt_eq fits]
  · intro v i
    by_cases here : v = volume
    · subst here
      change ((Function.update s.volumes v _) v).bind _ = _
      rw [Function.update_self]
      change slot (own.put index.toNat (some s.next)).items i = _
      rw [Ilist.put_slot, ownAt]
      simp only [true_and]
    · change ((Function.update s.volumes volume _) v).bind _ = _
      rw [Function.update_of_ne here, if_neg fun key => here key.1]
      rfl
  · intro p
    change Function.update heap s.next (some part) p = _
    rw [Function.update_apply]
  · intro v
    change ((Function.update s.volumes volume _) v).isSome = _
    rw [Function.update_apply]
    split
    · rfl
    · rfl
  · intro v list there
    change (Function.update s.volumes volume _) v = some list at there
    rw [Function.update_apply] at there
    split at there
    · obtain rfl := Option.some.inj there
      exact ⟨ownTight.put _ _, (ownTidy.put fits _).1⟩
    · exact stands.lists v list there

theorem Stands.set {s : Proxy T} {sp : Spec T} (stands : Stands s sp) (volume : String)
    {index : UInt32} (part : CloudPart) (fits : Ilist.fill (s.room volume) index.toNat < 2 ^ 31) :
    (s.set volume index part).1 = (sp.set volume index.toNat part).1 ∧
      Stands (s.set volume index part).2 (sp.set volume index.toNat part).2 := by
  by_cases first : index < 1
  · have zero : index.toNat < 1 := first
    rw [Proxy.set, if_pos first, Spec.set, if_pos zero]
    exact ⟨rfl, stands⟩
  · obtain ⟨s', eq, at_, heap, next, calls, known, lists⟩ := set_spec stands volume part first fits
    have notZero : ¬ index.toNat < 1 := first
    rw [eq, Spec.set, if_neg notZero]
    refine ⟨rfl, stands.replace (fun v i => v = volume ∧ i = index.toNat) ?_⟩
    refine
      { next := by rw [next]; exact Nat.le_succ _
        kept := ?_, stay := ?_, freed := ?_, new := ?_, apart := ?_, known := ?_, lists := lists
        calls := ⟨calls, rfl⟩ }
    · intro v i other
      have key : ¬ (v = volume ∧ i = index.toNat) := of_decide_eq_false other
      rw [at_, if_neg key]
      refine ⟨rfl, ?_⟩
      unfold Spec.at
      by_cases here : v = volume
      · subst here
        have differs : i ≠ index.toNat := fun same => key ⟨rfl, same⟩
        dsimp only
        rw [Function.update_self, Option.bind_some, Function.update_of_ne differs]
        cases sp.volumes v <;> rfl
      · dsimp only
        rw [Function.update_of_ne here]
    · intro p below untouched
      rw [heap, if_neg (by omega), if_neg (untouched volume index.toNat (by simp))]
    · intro v i p key there
      obtain ⟨rfl, rfl⟩ := of_decide_eq_true key
      have below := (stands.live v _ p there).2
      rw [heap, if_neg (by omega), if_pos there]
    · intro v i key
      obtain ⟨rfl, rfl⟩ := of_decide_eq_true key
      rw [at_, if_pos ⟨rfl, rfl⟩]
      refine ⟨?_, fun p there => ?_⟩
      · rw [Option.bind_some, heap, if_pos rfl]
        unfold Spec.at
        dsimp only
        rw [Function.update_self, Option.bind_some, Function.update_self]
      · obtain rfl := Option.some.inj there
        rw [next, heap, if_pos rfl]
        exact ⟨le_rfl, Nat.lt_succ_self _, rfl⟩
    · intro v i v' i' p key key' _ _
      obtain ⟨rfl, rfl⟩ := of_decide_eq_true key
      obtain ⟨rfl, rfl⟩ := of_decide_eq_true key'
      exact ⟨rfl, rfl⟩
    · intro v
      rw [known]
      dsimp only
      rw [Function.update_apply]
      split
      · rfl
      · exact stands.known v

/-- A record that has no room is written outside of the array. -/
theorem Stands.set_faults {s : Proxy T} {sp : Spec T} (stands : Stands s sp) (volume : String)
    {index : UInt32} (part : CloudPart) (full : ¬ Ilist.fill (s.room volume) index.toNat < 2 ^ 31) :
    (s.set volume index part).1 = .fault := by
  obtain ⟨own, ownEq⟩ : ∃ own, (s.volumes volume).getD (Ilist.init 100) = own := ⟨_, rfl⟩
  obtain ⟨slots, tidy⟩ := stands.own ownEq
  rw [slots] at full
  have length := tidy.length
  have first : ¬ index < 1 := by
    intro zero
    have zero : index.toNat < 1 := zero
    refine full ?_
    unfold Ilist.fill
    split
    · omega
    · split <;> omega
  by_cases small : index.toNat < 2 ^ 31
  · rw [set_eq s volume part first small, ownEq, Proxy.putPart, tidy.putInt_none small full]
  · rw [Proxy.set, if_neg first, if_pos (not_lt.mp small)]

end Set

section Reset

/-- One round of the loop of `reset` when its put has room. -/
def adoptExact (next : ℕ) (list : Ilist CloudPart) (new : Ilist ℕ) (index : ℕ) : Ilist ℕ :=
  match list.get index with
  | some _ => new.put index (some (next + index))
  | none => new

theorem adopt_fits (next : ℕ) {list : Ilist CloudPart} (length : list.items.length < 2 ^ 31) :
    let new := (List.range' 1 list.lastItem).foldl (adoptExact next list) (Ilist.init 100)
    (Ilist.Fits 0 (partIndexes list) → adopt next list = some new ∧ new.Tidy) ∧
      (¬ Ilist.Fits 0 (partIndexes list) → adopt next list = none) := by
  refine Ilist.puts_fit (l := Ilist.init 100) (fun new index => ?_) (fun index inside => ?_)
    Ilist.init_tidy
  · unfold adoptPart adoptExact
    cases list.get index with
    | none => exact .inr ⟨rfl, rfl, rfl⟩
    | some part => exact .inl ⟨rfl, _, rfl, rfl⟩
  · have room := list.room
    rw [List.mem_range'_1] at inside
    omega

/-- The loop of `reset`, after `n` rounds. -/
theorem adopt_spec (next n : ℕ) (list : Ilist CloudPart) :
    let new := (List.range' 1 n).foldl (adoptExact next list) (Ilist.init 100)
    (∀ i, slot new.items i =
      if 1 ≤ i ∧ i ≤ n then (list.get i).map fun _ => next + i else none) ∧
      new.Tight ∧ new.lastItem ≤ n := by
  induction n with
  | zero => exact ⟨fun i => (if_neg (by omega)).symm, Ilist.init_tight 100, le_rfl⟩
  | succ n ih =>
      obtain ⟨slots, tight, last⟩ := ih
      rw [List.range'_concat, List.foldl_append]
      generalize (List.range' 1 n).foldl _ _ = new at slots tight last
      simp only [List.foldl_cons, List.foldl_nil, one_mul, adoptExact]
      cases got : list.get (1 + n : ℕ) with
      | none =>
          refine ⟨fun i => ?_, tight, last.trans (Nat.le_succ n)⟩
          dsimp only
          rw [slots]
          by_cases here : i = 1 + n
          · rw [if_neg (by omega), if_pos (by omega), here, got]
            rfl
          · simp only [show i ≤ n + 1 ↔ i ≤ n by omega]
      | some part =>
          refine ⟨fun i => ?_, tight.put _ _, ?_⟩
          · dsimp only
            rw [Ilist.put_slot, slots]
            by_cases here : i = 1 + n
            · rw [if_pos here, if_pos (by omega), here, got]
              rfl
            · rw [if_neg here]
              simp only [show i ≤ n + 1 ↔ i ≤ n by omega]
          · rw [Ilist.put_lastItem]
            omega

theorem mem_items_iff (list : Ilist ℕ) (p : ℕ) :
    some p ∈ list.items ↔ ∃ i, slot list.items i = some p := by
  constructor
  · intro member
    obtain ⟨i, inside⟩ := List.mem_iff_getElem?.mp member
    exact ⟨i, by rw [slot, inside]; rfl⟩
  · rintro ⟨i, there⟩
    exact List.mem_of_getElem? (Option.join_eq_some_iff.mp there)

theorem Stands.reset {s : Proxy T} {sp : Spec T} (stands : Stands s sp) (volume : String)
    {list : Ilist CloudPart} (length : list.items.length < 2 ^ 31)
    (fits : Ilist.Fits 0 (partIndexes list)) :
    (s.reset volume list).1 = (sp.reset volume list).1 ∧
      Stands (s.reset volume list).2 (sp.reset volume list).2 := by
  obtain ⟨adopted, tidy⟩ := (adopt_fits s.next length).1 fits
  obtain ⟨slots, tight, last⟩ := adopt_spec s.next list.lastItem list
  generalize (List.range' 1 list.lastItem).foldl (adoptExact s.next list) (Ilist.init 100) = new
    at adopted tidy slots tight last
  have run : s.reset volume list = (.flag true, s.renew volume list new) := by
    rw [Proxy.reset, adopted]
  rw [run]
  refine ⟨rfl, stands.replace (fun v _ => v = volume) ?_⟩
  have at_ (v : String) (i : ℕ) : (s.renew volume list new).at v i =
      if v = volume then slot new.items i else s.at v i := by
    change ((Function.update s.volumes volume _) v).bind _ = _
    rw [Function.update_apply]
    split
    · rfl
    · rfl
  have newAt (i p : ℕ) (there : slot new.items i = some p) :
      1 ≤ i ∧ i ≤ list.lastItem ∧ p = s.next + i ∧ (list.get i).isSome := by
    rw [slots] at there
    split at there
    · rename_i inside
      obtain ⟨part, got, rfl⟩ := Option.map_eq_some_iff.mp there
      exact ⟨inside.1, inside.2, rfl, by rw [got]; rfl⟩
    · cases there
  have newHeap (p : ℕ) (first : s.next ≤ p) (inside : p ≤ s.next + list.lastItem) :
      (s.renew volume list new).heap p = list.get (p - s.next : ℕ) := if_pos ⟨first, inside⟩
  have oldHeap (p : ℕ) (old : p < s.next) :
      ((∃ i, s.at volume i = some p) → (s.renew volume list new).heap p = none) ∧
      ((∀ i, s.at volume i ≠ some p) → (s.renew volume list new).heap p = s.heap p) := by
    have elsewhere : ¬ (s.next ≤ p ∧ p ≤ s.next + list.lastItem) := by omega
    cases known : s.volumes volume with
    | none =>
        have before : (s.renew volume list new).heap p = s.heap p := by
          simp only [Proxy.renew, known, if_neg elsewhere]
        rw [before]
        refine ⟨?_, fun _ => rfl⟩
        rintro ⟨i, there⟩
        rw [Proxy.at, known] at there
        cases there
    | some own =>
        have before : (s.renew volume list new).heap p = freeAll own s.heap p := by
          simp only [Proxy.renew, known, if_neg elsewhere]
        rw [before]
        have same : (∃ i, s.at volume i = some p) ↔ some p ∈ own.items := by
          rw [mem_items_iff, Proxy.at_eq known]
        refine ⟨fun there => if_pos (same.mp there), fun none => if_neg fun there => ?_⟩
        obtain ⟨i, here⟩ := same.mpr there
        exact none i here
  refine
    { next := by change s.next ≤ s.next + list.lastItem + 1; omega
      kept := ?_, stay := ?_, freed := ?_, new := ?_, apart := ?_, known := ?_, lists := ?_
      calls := ⟨rfl, rfl⟩ }
  · intro v i other
    have differs : v ≠ volume := of_decide_eq_false other
    rw [at_, if_neg differs]
    refine ⟨rfl, ?_⟩
    change ((Function.update sp.volumes volume _) v).bind _ = _
    rw [Function.update_of_ne differs]
    rfl
  · intro p below untouched
    exact (oldHeap p below).2 fun i => untouched volume i (by simp)
  · intro v i p key there
    obtain rfl := of_decide_eq_true key
    exact (oldHeap p (stands.live v i p there).2).1 ⟨i, there⟩
  · intro v i key
    obtain rfl := of_decide_eq_true key
    have shown : (sp.reset v list).2.at v i = if i < 1 then none else list.get i := by
      change ((Function.update sp.volumes v _) v).bind _ = _
      rw [Function.update_self]
      rfl
    rw [at_, if_pos rfl, shown]
    constructor
    · rw [slots]
      by_cases zero : i < 1
      · rw [if_pos zero, if_neg (by omega)]
        rfl
      · rw [if_neg zero]
        by_cases inside : i ≤ list.lastItem
        · rw [if_pos ⟨by omega, inside⟩]
          cases got : list.get i with
          | none => rfl
          | some part =>
              rw [Option.map_some, Option.bind_some, newHeap _ (by omega) (by omega),
                Nat.add_sub_cancel_left, got]
        · rw [if_neg (by omega), get_above list (by omega)]
          rfl
    · intro p there
      obtain ⟨first, inside, rfl, got⟩ := newAt i p there
      refine ⟨Nat.le_add_right _ _, ?_, ?_⟩
      · change s.next + i < s.next + list.lastItem + 1
        omega
      · rw [newHeap _ (by omega) (by omega), Nat.add_sub_cancel_left]
        exact got
  · intro v i v' i' p key key' first second
    obtain rfl := of_decide_eq_true key
    obtain rfl := of_decide_eq_true key'
    rw [at_, if_pos rfl] at first second
    obtain ⟨-, -, here, -⟩ := newAt i p first
    obtain ⟨-, -, there, -⟩ := newAt i' p second
    exact ⟨rfl, by omega⟩
  · intro v
    change ((Function.update s.volumes volume _) v).isSome =
      ((Function.update sp.volumes volume _) v).isSome
    rw [Function.update_apply, Function.update_apply]
    split
    · rfl
    · exact stands.known v
  · intro v own there
    change (Function.update s.volumes volume _) v = some own at there
    rw [Function.update_apply] at there
    split at there
    · obtain rfl := Option.some.inj there
      exact ⟨tight, tidy⟩
    · exact stands.lists v own there

end Reset

section Reads

variable {s : Proxy T} {sp : Spec T}

/-- `get` finds the pointer of the key. -/
theorem Stands.get (stands : Stands s sp) (volume : String) (index : UInt32) :
    s.get volume index = s.at volume index.toNat := by
  have value : index.toInt32.toInt = (index.toNat : ℤ).bmod (2 ^ 32) := by
    rw [Int32.toInt, UInt32.toBitVec_toInt32, BitVec.toInt_eq_toNat_bmod]
    rfl
  have bound := index.toNat_lt
  by_cases small : index.toNat < 2 ^ 31
  · have same : index.toInt32.toInt = index.toNat := by
      rw [value, Int.bmod]
      split <;> omega
    unfold Proxy.get Proxy.at
    rw [same]
    simp only [get_nat]
  · have negative : index.toInt32.toInt < 0 := by
      rw [value, Int.bmod]
      split <;> omega
    rw [stands.at_below (not_lt.mp small)]
    unfold Proxy.get
    cases s.volumes volume with
    | none => rfl
    | some list =>
        rw [Option.bind_some, Ilist.get_eq, if_pos negative]

theorem Stands.lastIndex (stands : Stands s sp) (volume : String) :
    ((s.volumes volume).map Ilist.lastItem).getD 0 = sp.lastIndex volume := by
  unfold Spec.lastIndex
  simp only [← stands.shows volume]
  cases known : s.volumes volume with
  | none =>
      have empty : { i | (s.at volume i).bind s.heap ≠ none } = ∅ := by
        ext i
        simp [Proxy.at, known]
      rw [empty, csSup_empty]
      rfl
  | some list =>
      have below : ∀ i ∈ { i | (s.at volume i).bind s.heap ≠ none }, i ≤ list.lastItem := by
        intro i member
        by_contra behind
        rw [Set.mem_ofPred_eq, Proxy.at_eq known] at member
        dsimp only at member
        rw [list.above i (by omega)] at member
        exact member rfl
      rw [Option.map_some, Option.getD_some]
      rcases (stands.lists volume list known).1 with zero | last
      · rw [zero] at below ⊢
        symm
        rcases Set.eq_empty_or_nonempty { i | (s.at volume i).bind s.heap ≠ none } with empty | some
        · rw [empty, csSup_empty]
          rfl
        · exact Nat.le_zero.mp (csSup_le some below)
      · refine (IsGreatest.csSup_eq ⟨?_, below⟩).symm
        obtain ⟨p, there⟩ := Option.ne_none_iff_exists'.mp last
        have here : s.at volume list.lastItem = some p := by
          rw [Proxy.at_eq known]
          exact there
        rw [Set.mem_ofPred_eq, here]
        exact Option.isSome_iff_ne_none.mp (stands.live _ _ _ here).1

/-- A filter finds nothing behind the last index that it takes. -/
theorem filter_range {p : ℕ → Bool} {m n : ℕ} (le : m ≤ n) (behind : ∀ i, m ≤ i → p i = false) :
    (List.range n).filter p = (List.range m).filter p := by
  obtain ⟨k, rfl⟩ := Nat.exists_eq_add_of_le le
  have rest : ((List.range k).map (m + ·)).filter p = [] := by
    rw [List.filter_eq_nil_iff]
    intro i inside
    obtain ⟨j, -, rfl⟩ := List.mem_map.mp inside
    rw [behind _ (Nat.le_add_right m j)]
    exact Bool.false_ne_true
  rw [List.range_add, List.filter_append, rest, List.append_nil]

theorem diffPart_round (source dest diff : Ilist CloudPart) (index : ℕ) :
    differs (fun i => source.get i) dest index = true ∧ (∃ item,
      diffPart source dest diff index = diff.putInt index item ∧
        CloudParts.diffPart id source dest diff index = diff.put index item) ∨
    differs (fun i => source.get i) dest index = false ∧
      diffPart source dest diff index = some diff ∧
        CloudParts.diffPart id source dest diff index = diff := by
  unfold diffPart CloudParts.diffPart differs
  dsimp only
  cases source.get index with
  | none =>
      cases dest.get index with
      | none => exact .inr ⟨rfl, rfl, rfl⟩
      | some p2 => exact .inl ⟨rfl, none, rfl, rfl⟩
  | some p1 =>
      cases dest.get index with
      | none => exact .inl ⟨rfl, some p1, rfl, rfl⟩
      | some p2 =>
          by_cases same : p1.same p2 = true
          · exact .inr ⟨congrArg not same, if_pos same, if_pos same⟩
          · exact .inl ⟨congrArg not (Bool.eq_false_iff.mpr same), some p1, if_neg same, if_neg same⟩

/-- `diff_lists` is the exact one, or it leaves the array. -/
theorem diffLists_fits {source dest : Ilist CloudPart} (sourceLast : source.lastItem + 1 < 2 ^ 31)
    (destLast : dest.lastItem + 1 < 2 ^ 31) :
    (Ilist.Fits 0 (differing (fun i => source.get i) dest) → ∃ diff, diffLists source dest = some diff ∧
      CloudParts.diffLists id (some source) (some dest) (some (Ilist.init 100)) = (true, some diff)) ∧
    (¬ Ilist.Fits 0 (differing (fun i => source.get i) dest) → diffLists source dest = none) := by
  obtain ⟨maxSize, max⟩ : ∃ maxSize,
    (if source.lastItem < dest.lastItem then dest.lastItem else source.lastItem) = maxSize := ⟨_, rfl⟩
  have high : source.lastItem ≤ maxSize ∧ dest.lastItem ≤ maxSize ∧ maxSize + 1 < 2 ^ 31 := by
    rw [← max]
    split <;> omega
  have behind (i : ℕ) (above : maxSize + 1 ≤ i) : differs (fun i => source.get i) dest i = false := by
    unfold differs
    dsimp only
    rw [get_above source (by omega), get_above dest (by omega)]
  have ints : ∀ index ∈ List.range (maxSize + 1), index < 2 ^ 31 := by
    intro index inside
    rw [List.mem_range] at inside
    omega
  have differ : differing (fun i => source.get i) dest =
      (List.range (maxSize + 1)).filter (differs (fun i => source.get i) dest) := by
    have le : maxSize + 1 ≤ 2 ^ 31 - 1 := by omega
    unfold differing
    exact filter_range le behind
  have run := Ilist.puts_fit (diffPart_round source dest) ints Ilist.init_tidy
  rw [← differ] at run
  unfold diffLists CloudParts.diffLists
  dsimp only
  rw [max]
  exact ⟨fun fits => ⟨_, (run.1 fits).1, rfl⟩, run.2⟩

theorem Stands.exclude (stands : Stands s sp) (volume : String) {list : Ilist CloudPart}
    (length : list.items.length < 2 ^ 31) :
    (Timely s sp (.exclude volume ⟨list, length⟩) →
      s.exclude volume list = .list (sp.exclude volume list)) ∧
      (¬ Timely s sp (.exclude volume ⟨list, length⟩) → s.exclude volume list = .fault) := by
  have same := stands.known volume
  unfold Timely Proxy.exclude Spec.exclude
  cases known : s.volumes volume with
  | none =>
      rw [known] at same
      have unknown : sp.volumes volume = none := Option.isSome_eq_false_iff.mp same.symm |>
        Option.isNone_iff_eq_none.mp
      rw [unknown]
      refine ⟨fun _ => rfl, fun late => absurd ?_ late⟩
      intro parts there
      rw [unknown] at there
      cases there
  | some own =>
      rw [known] at same
      obtain ⟨parts, map⟩ := Option.isSome_iff_exists.mp same.symm
      have record (i : ℕ) : (own.map s.part).get i = parts i := by
        have shown := stands.shows volume i
        rw [Spec.at, map, Option.bind_some] at shown
        rw [← shown, Proxy.at_eq known, Ilist.get_eq, if_neg (by omega), Int.toNat_natCast]
        change slot (own.items.map (Option.map s.part)) i = (slot own.items i).bind s.heap
        rw [Ilist.slot_map]
        cases there : slot own.items i with
        | none => rfl
        | some p =>
            have live := (stands.live volume i p (by rw [Proxy.at_eq known]; exact there)).1
            obtain ⟨part, here⟩ := Option.isSome_iff_exists.mp live
            rw [Option.map_some, Option.bind_some, Proxy.part, here]
            rfl
      have lasts : (own.map s.part).lastItem + 1 < 2 ^ 31 ∧ list.lastItem + 1 < 2 ^ 31 := by
        have ownLast := (stands.lists volume own known).2.last
        have room := list.room
        exact ⟨ownLast, by omega⟩
      obtain ⟨fits, leaves⟩ := diffLists_fits lasts.1 lasts.2
      simp only [record] at fits leaves
      rw [map]
      dsimp only
      constructor
      · intro all
        obtain ⟨diff, run, exact⟩ := fits (all parts map)
        obtain ⟨diff', same, got⟩ :=
          diffLists_get (id : CloudPart → CloudPart) (own.map s.part) list 100
        rw [exact, Prod.mk.injEq, Option.some_inj] at same
        rw [← same.2] at got
        rw [run, Option.map_some]
        refine congrArg (fun get => Output.list (some get)) (funext fun i => ?_)
        rw [got, wanted, record]
        rfl
      · intro late
        rw [leaves fun all => late fun other same => Option.some.inj (map.symm.trans same) ▸ all]

theorem Stands.size [DecidableEq T] (stands : Stands s sp) (t : T) :
    (Timely s sp (.size t) → (s.size t).1 = (sp.size t).1 ∧ Stands (s.size t).2 (sp.size t).2) ∧
      (¬ Timely s sp (.size t) → (s.size t).1 = .fault) := by
  have same := stands.calls t
  -- the other calls go on
  have others (sp' : Spec T) (volumes : sp'.volumes = sp.volumes)
      (calls : sp'.calls = Function.update sp.calls t none) :
      Stands { s with calls := Function.update s.calls t none } sp' := by
    refine ⟨fun v => volumes ▸ stands.known v, fun v i => ?_, stands.live, stands.apart,
      stands.lists, fun t' => ?_⟩
    · rw [Spec.at, volumes]
      exact stands.shows v i
    · rw [calls]
      dsimp only
      by_cases here : t' = t
      · rw [here, Function.update_self, Function.update_self]
        trivial
      · rw [Function.update_of_ne here, Function.update_of_ne here]
        exact stands.calls t'
  unfold Proxy.size Spec.size
  cases called : sp.calls t with
  | none =>
      rw [called] at same
      cases own : s.calls t with
      | some pointer =>
          rw [own] at same
          exact same.elim
      | none =>
          refine ⟨fun _ => ⟨rfl, stands⟩, fun late => absurd ?_ late⟩
          intro call there
          rw [called] at there
          cases there
  | some call =>
      rw [called] at same
      have timely : Timely s sp (.size t) ↔ (call.record ≠ none → call.replaced = false) := by
        constructor
        · intro all
          exact all call called
        · intro this other there
          rw [called] at there
          exact Option.some.inj there ▸ this
      rw [timely]
      cases own : s.calls t with
      | none =>
          rw [own] at same
          exact same.elim
      | some pointer =>
          rw [own] at same
          change SamePoint s pointer call at same
          unfold SamePoint at same
          cases record : call.record with
          | none =>
              cases pointer with
              | some p =>
                  rw [record] at same
                  exact same.elim
              | none =>
                  simp only [record]
                  refine ⟨fun _ => ⟨rfl, others _ rfl rfl⟩, fun late => ?_⟩
                  exact absurd (fun some => absurd rfl some) late
          | some part =>
              cases pointer with
              | none =>
                  rw [record] at same
                  exact same.elim
              | some p =>
                  rw [record] at same
                  obtain ⟨-, state⟩ := same
                  cases replaced : call.replaced with
                  | true =>
                      rw [replaced, if_pos rfl] at state
                      dsimp only
                      rw [state]
                      refine ⟨fun timely => ?_, fun _ => rfl⟩
                      exact absurd (timely (Option.some_ne_none part)) (by decide)
                  | false =>
                      rw [replaced, if_neg Bool.false_ne_true] at state
                      dsimp only
                      rw [state.2, record]
                      refine ⟨fun _ => ⟨rfl, others _ rfl rfl⟩, fun late => ?_⟩
                      exact absurd (fun _ => rfl) late

end Reads

section Runs

variable [DecidableEq T] {s : Proxy T} {sp : Spec T}

theorem Stands.begin (stands : Stands s sp) (t : T) (volume : String) (index : UInt32) :
    Stands (step s (.get t volume index)).2 (specStep sp (.get t volume index)).2 := by
  refine ⟨stands.known, stands.shows, stands.live, stands.apart, stands.lists, fun t' => ?_⟩
  change SameCall _ (Function.update s.calls t (some (s.get volume index)) t')
    (Function.update sp.calls t
      (some ⟨volume, index.toNat, sp.at volume index.toNat, false⟩) t')
  by_cases here : t' = t
  · subst here
    rw [Function.update_self, Function.update_self, stands.get]
    have shown := stands.shows volume index.toNat
    cases there : s.at volume index.toNat with
    | none =>
        rw [there] at shown
        rw [← shown]
        trivial
    | some p =>
        rw [there] at shown
        obtain ⟨live, below⟩ := stands.live _ _ _ there
        obtain ⟨part, record⟩ := Option.isSome_iff_exists.mp live
        rw [← shown, Option.bind_some, record]
        exact ⟨below, there, record⟩
  · rw [Function.update_of_ne here, Function.update_of_ne here]
    exact stands.calls t'

/-- One call: it returns what the map returns, unless it leaves the allocated memory. -/
theorem Stands.step (stands : Stands s sp) (a : Action T) :
    (Timely s sp a → (CloudProxy.step s a).1 = (specStep sp a).1 ∧
      Stands (CloudProxy.step s a).2 (specStep sp a).2) ∧
      (¬ Timely s sp a → (CloudProxy.step s a).1 = .fault ∧ (specStep sp a).1 ≠ .fault) := by
  cases a with
  | set volume index mtime size hash64 =>
      refine ⟨stands.set volume _, fun large => ⟨stands.set_faults volume _ large, ?_⟩⟩
      change (sp.set volume index.toNat _).1 ≠ .fault
      unfold Spec.set
      split <;> exact Output.noConfusion
  | reset volume list =>
      refine ⟨stands.reset volume list.2, fun large => ⟨?_, Output.noConfusion⟩⟩
      change (s.reset volume list.1).1 = .fault
      rw [Proxy.reset, (adopt_fits s.next list.2).2 large]
  | get t volume index =>
      exact ⟨fun _ => ⟨rfl, stands.begin t volume index⟩, fun late => absurd trivial late⟩
  | size t =>
      obtain ⟨timely, late⟩ := stands.size t
      refine ⟨timely, fun early => ⟨late early, ?_⟩⟩
      change (sp.size t).1 ≠ .fault
      unfold Spec.size
      split <;> exact Output.noConfusion
  | lastIndex volume =>
      refine ⟨fun _ => ⟨?_, stands⟩, fun late => absurd trivial late⟩
      exact congrArg Output.index (stands.lastIndex volume)
  | exclude volume list =>
      obtain ⟨timely, late⟩ := stands.exclude volume list.2
      exact ⟨fun early => ⟨timely early, stands⟩, fun large => ⟨late large, Output.noConfusion⟩⟩

theorem Stands.refines_iff (stands : Stands s sp) (actions : List (Action T)) :
    Refines s sp actions ↔ AllTimely s sp actions := by
  induction actions generalizing s sp with
  | nil => exact Iff.rfl
  | cons a rest ih =>
      obtain ⟨timely, late⟩ := stands.step a
      constructor
      · rintro ⟨same, -, refines⟩
        by_cases early : Timely s sp a
        · exact ⟨early, (ih (timely early).2).mp refines⟩
        · obtain ⟨fault, other⟩ := late early
          exact absurd (same.symm.trans fault) other
      · rintro ⟨early, all⟩
        obtain ⟨same, next⟩ := timely early
        exact ⟨same, next.shows, (ih next).mpr all⟩

end Runs

/-- The proxy refines the map in a run exactly when every step is timely. -/
theorem proxy_refines_iff (T : Type) [DecidableEq T] (actions : List (Action T)) :
    Refines (Proxy.init : Proxy T) Spec.init actions ↔ AllTimely Proxy.init Spec.init actions :=
  stands_init.refines_iff actions

section Instance

/-- A part is set, asked for, and replaced before its size is read. -/
def replacedPart : List (Action Unit) :=
  [.set "Vol" 1 0 10 none, .get () "Vol" 1, .set "Vol" 1 0 20 none, .size ()]

theorem freed_part_read : ¬ Refines (Proxy.init : Proxy Unit) Spec.init replacedPart := by
  rw [stands_init.refines_iff]
  rintro ⟨-, -, -, timely, -⟩
  exact absurd (timely _ rfl (by decide)) (by decide)

end Instance

end Bacula.CloudProxy
