import Bacula.Stored.CloudTruncate

/-! `truncate_cache` loses no data as long as what the other threads write can be told from what is in
the cloud by its size, and exactly when the sizes still agree as a part is removed. -/
namespace Bacula.CloudTruncate
open CloudTransfer (TransferState)
open Transition (Run Guarded)

variable {w : World} {s : State}

theorem put_get (l : Ilist ℕ) (index : ℕ) (item : Option ℕ) (i : ℕ) :
    (l.put index item).get i = if i = index then item else l.get i := by
  have positive : ¬ (i : ℤ) < 0 := by omega
  rw [Ilist.get_eq, Ilist.get_eq, if_neg positive, if_neg positive, Int.toNat_natCast, l.put_slot]

theorem get_above {l : Ilist ℕ} {i : ℕ} (above : l.lastItem < i) : l.get i = none :=
  if_pos (.inr (.inr (by omega)))

theorem init_get (i : ℕ) : (Ilist.init 100 : Ilist ℕ).get i = none := if_pos (.inl rfl)

theorem partsList_get (d : Directory) (i : ℕ) :
    (partsList d).get i = (d.content i).map List.length := by
  have each (d : Directory) (l : Ilist ℕ) (content : Option Content)
    (start : l.get i = content.map List.length) :
      (d.foldl (fun parts entry => parts.put entry.1 (some entry.2.length)) l).get i =
        (d.foldl (fun content entry => if i = entry.1 then some entry.2 else content) content).map
          List.length := by
    induction d generalizing l content with
    | nil => exact start
    | cons entry d ih =>
        refine ih _ _ ?_
        rw [put_get]
        dsimp only
        by_cases same : i = entry.1
        · rw [if_pos same, if_pos same, Option.map_some]
        · rw [if_neg same, if_neg same, start]
  exact each d _ none (init_get i)

theorem partGetSize_eq (d : Directory) (i : ℕ) : partGetSize (partsList d) i = d.size i := by
  rw [partGetSize, Directory.size, ← partsList_get]
  split
  · rfl
  · rw [get_above (by omega)]
    rfl

theorem resetPart_get (parts l : Ilist ℕ) (index i : ℕ) :
    (resetPart parts l index).get i =
      if i = index ∧ (parts.get i).isSome then parts.get i else l.get i := by
  unfold resetPart
  by_cases same : i = index
  · subst same
    split
    case h_1 part there => rw [put_get, if_pos rfl, there, if_pos ⟨rfl, rfl⟩]
    case h_2 none => rw [none, if_neg fun both => absurd both.2 Bool.false_ne_true]
  · rw [if_neg fun both => same both.1]
    split
    · rw [put_get, if_neg same]
    · rfl

/-- The proxy has the parts that were listed, from the first one on. -/
theorem reset_get (parts : Ilist ℕ) {i : ℕ} (first : 1 ≤ i) : (reset parts).get i = parts.get i := by
  have each (indexes : List ℕ) (l : Ilist ℕ) : (indexes.foldl (resetPart parts) l).get i =
      if i ∈ indexes ∧ (parts.get i).isSome then parts.get i else l.get i := by
    induction indexes generalizing l with
    | nil => simp
    | cons index indexes ih =>
        rw [List.foldl_cons, ih, resetPart_get]
        cases here : parts.get (i : ℤ) with
        | none => simp
        | some part => by_cases same : i = index <;> simp [same]
  unfold reset
  rw [each, init_get]
  by_cases above : parts.lastItem < i
  · rw [get_above above]
    exact ite_self _
  · have inside : i ∈ List.range' 1 parts.lastItem := List.mem_range'_1.mpr ⟨first, by omega⟩
    cases here : parts.get (i : ℤ) with
    | none => exact ite_self _
    | some part => exact if_pos ⟨inside, rfl⟩

theorem getSize_eq (d : Directory) {i : ℕ} (first : 1 ≤ i) :
    getSize (reset (partsList d)) i = d.size i := by
  rw [getSize, reset_get _ first, partsList_get, Directory.size]

/-! ## The directories -/

theorem content_remove (d : Directory) (i j : ℕ) :
    (d.remove i).content j = if j = i then none else d.content j := by
  have each (content : Option Content) :
      (d.remove i).foldl (fun content entry => if j = entry.1 then some entry.2 else content) content =
        if j = i then content else d.foldl
          (fun content entry => if j = entry.1 then some entry.2 else content) content := by
    unfold Directory.remove
    induction d generalizing content with
    | nil => exact (ite_self _).symm
    | cons entry d ih =>
        rw [List.filter_cons, List.foldl_cons]
        by_cases here : entry.1 = i
        · rw [if_neg (by simpa using here), ih]
          by_cases same : j = i
          · rw [if_pos same, if_pos same]
          · rw [if_neg same, if_neg same, if_neg (by rw [here]; exact same)]
        · rw [if_pos (by simpa using here), List.foldl_cons, ih]
          by_cases same : j = i
          · rw [if_pos same, if_pos same, if_neg (by rw [same]; exact Ne.symm here)]
          · rw [if_neg same, if_neg same]
  exact each none

theorem content_write (d : Directory) (i : ℕ) (content : Content) (j : ℕ) :
    (d.write i content).content j = if j = i then some content else d.content j := by
  unfold Directory.write Directory.content
  rw [List.foldl_append]
  change (if j = i then some content else (d.remove i).content j) = _
  rw [content_remove]
  split <;> rfl

theorem cached_writeCache (volName : String) (i : ℕ) (content : Content) (v : String) (j : ℕ) :
    (w.writeCache volName i content).cached v j =
      if v = volName ∧ j = i then some content else w.cached v j := by
  unfold World.cached World.writeCache
  dsimp only
  rw [Function.update_apply]
  by_cases vol : v = volName
  · rw [if_pos vol, content_write, vol]
    by_cases same : j = i
    · rw [if_pos same, if_pos ⟨rfl, same⟩]
    · rw [if_neg same, if_neg fun both => same both.2]
  · rw [if_neg vol, if_neg fun both => vol both.1]

theorem uploaded_writeCloud (volName : String) (i : ℕ) (content : Content) (v : String) (j : ℕ) :
    (w.writeCloud volName i content).uploaded v j =
      if v = volName ∧ j = i then some content else w.uploaded v j := by
  unfold World.uploaded World.writeCloud
  dsimp only
  rw [Function.update_apply]
  by_cases vol : v = volName
  · rw [if_pos vol, content_write, vol]
    by_cases same : j = i
    · rw [if_pos same, if_pos ⟨rfl, same⟩]
    · rw [if_neg same, if_neg fun both => same both.2]
  · rw [if_neg vol, if_neg fun both => vol both.1]

/-- A part that is removed is not there, the others stay. -/
theorem removed {files : String → Directory} {volName v : String} {i j : ℕ} {content : Content}
    (there : (Function.update files volName ((files volName).remove i) v).content j = some content) :
    (files v).content j = some content := by
  rw [Function.update_apply] at there
  split at there
  case isTrue vol =>
    rw [content_remove] at there
    split at there
    · cases there
    · rw [vol]
      exact there
  case isFalse => exact there

/-! ## What the other threads write -/

/-- Fewer contents in the cloud, and fewer uploads. -/
theorem Faithful.of_fewer {w' : World} {volName : String} {i : ℕ} {content : Content}
    (faithful : Faithful w volName i content)
    (uploaded : ∀ other, w'.uploaded volName i = some other → w.uploaded volName i = some other)
    (uploads : ∀ t ∈ w'.uploads, t.volumeName = volName → t.part = i → ∀ other, t.data = some other →
      ∃ t ∈ w.uploads, t.volumeName = volName ∧ t.part = i ∧ t.data = some other) :
    Faithful w' volName i content where
  uploaded other there := faithful.uploaded other (uploaded other there)
  uploads t inside vol part other data := by
    obtain ⟨t, inside, vol, part, data⟩ := uploads t inside vol part other data
    exact faithful.uploads t inside vol part other data

theorem CacheFaithful.of_fewer {w' : World} (faithful : CacheFaithful w)
    (cached : ∀ v j content, w'.cached v j = some content → w.cached v j = some content)
    (uploaded : ∀ v j other, w'.uploaded v j = some other → w.uploaded v j = some other)
    (uploads : ∀ t ∈ w'.uploads, ∀ other, t.data = some other →
      ∃ t' ∈ w.uploads, t'.volumeName = t.volumeName ∧ t'.part = t.part ∧ t'.data = some other) :
    CacheFaithful w' := by
  intro v j content second there
  refine (faithful v j content second (cached v j content there)).of_fewer (uploaded v j) ?_
  intro t inside vol part other data
  obtain ⟨t', inside, vol', part', data⟩ := uploads t inside other data
  exact ⟨t', inside, vol'.trans vol, part'.trans part, data⟩

theorem CacheFaithful.writeCache (faithful : CacheFaithful w) {volName : String} {part : ℕ}
    {content : Content} (new : 2 ≤ part → Faithful w volName part content) :
    CacheFaithful (w.writeCache volName part content) := by
  intro v j other second there
  rw [cached_writeCache] at there
  split at there
  case isTrue here =>
    obtain rfl := Option.some_inj.mp there
    obtain ⟨rfl, rfl⟩ := here
    exact ⟨(new second).uploaded, (new second).uploads⟩
  case isFalse =>
    have old := faithful v j other second there
    exact ⟨old.uploaded, old.uploads⟩

/-- An upload puts into the cloud what it has read. -/
theorem CacheFaithful.writeCloud (faithful : CacheFaithful w) {t : Transfer} (inside : t ∈ w.uploads)
    {content : Content} (data : t.data = some content) :
    CacheFaithful (w.writeCloud t.volumeName t.part content) := by
  intro v j other second there
  have old := faithful v j other second there
  refine ⟨fun new there size => ?_, old.uploads⟩
  rw [uploaded_writeCloud] at there
  split at there
  case isTrue here =>
    obtain rfl := Option.some_inj.mp there
    exact old.uploads t inside here.1.symm here.2.symm content data size
  case isFalse => exact old.uploaded new there size

/-- An upload may read the part of the cache. -/
theorem CacheFaithful.setUploads (faithful : CacheFaithful w) {t : Transfer} (k : ℕ)
    (state : TransferState) {data : Option Content}
    (read : data = none ∨ data = w.cached t.volumeName t.part) :
    CacheFaithful { w with uploads := w.uploads.set k { t with state, data } } := by
  intro v j content second there
  have old := faithful v j content second there
  refine ⟨old.uploaded, fun t' inside vol part other data' size => ?_⟩
  rcases List.mem_or_eq_of_mem_set inside with inside | rfl
  · exact old.uploads t' inside vol part other data' size
  · dsimp only at vol part data'
    rcases read with none | read
    · rw [none] at data'
      cases data'
    · change w.cached v j = some content at there
      rw [data', vol, part, there] at read
      exact Option.some_inj.mp read

theorem CacheFaithful.setDownloads (faithful : CacheFaithful w) (downloads : List Transfer) :
    CacheFaithful { w with downloads } :=
  fun v j content second there =>
    ⟨(faithful v j content second there).uploaded, (faithful v j content second there).uploads⟩

theorem CacheFaithful.upload (faithful : CacheFaithful w) (k : ℕ) (state : TransferState) :
    CacheFaithful (w.transition .upload k state) := by
  unfold World.transition
  split
  · exact faithful
  case h_2 t here =>
    dsimp only
    split
    · exact faithful.setUploads k _ (.inl rfl)
    · exact faithful.setUploads k _ (.inl rfl)
    · exact faithful.setUploads k _ (.inr rfl)
    case h_4 content _ data =>
      refine CacheFaithful.of_fewer (faithful.writeCloud (List.mem_of_getElem? here) data)
        (fun _ _ _ there => there) (fun _ _ _ there => there) ?_
      intro t' inside other data'
      rcases List.mem_or_eq_of_mem_set inside with inside | rfl
      · exact ⟨t', inside, rfl, rfl, data'⟩
      · cases data'
    · exact faithful.setUploads k _ (.inl rfl)
    · exact faithful.setUploads k _ (.inl rfl)
    · exact faithful

theorem CacheFaithful.download (faithful : CacheFaithful w) {k : ℕ} {state : TransferState}
    (new : (Change.transition .download k state).Faithful w) :
    CacheFaithful (w.transition .download k state) := by
  unfold World.transition
  split
  · exact faithful
  case h_2 t here =>
    dsimp only
    split
    · exact faithful.setDownloads _
    · exact faithful.setDownloads _
    · exact faithful.setDownloads _
    case h_4 content _ data =>
      refine (faithful.setDownloads _).writeCache fun second => ?_
      have whole := new t here second content data
      exact ⟨whole.uploaded, whole.uploads⟩
    · exact faithful.setDownloads _
    · exact faithful.setDownloads _
    · exact faithful

theorem CacheFaithful.change (faithful : CacheFaithful w) (c : Change) (new : c.Faithful w) :
    CacheFaithful (change w c) := by
  cases c with
  | write volName part content => exact faithful.writeCache new
  | removeCache volName part =>
      exact faithful.of_fewer (fun _ _ _ there => removed there) (fun _ _ _ there => there)
        fun t inside _ data => ⟨t, inside, rfl, rfl, data⟩
  | removeCloud volName part =>
      exact faithful.of_fewer (fun _ _ _ there => there) (fun _ _ _ there => removed there)
        fun t inside _ data => ⟨t, inside, rfl, rfl, data⟩
  | getXfer manager volName part =>
      cases manager with
      | upload =>
          refine faithful.of_fewer (fun _ _ _ there => there) (fun _ _ _ there => there) ?_
          intro t inside other data
          change t ∈ CloudTruncate.getXfer w.uploads volName part at inside
          unfold CloudTruncate.getXfer at inside
          split at inside
          · exact ⟨t, inside, rfl, rfl, data⟩
          · rcases List.mem_append.mp inside with inside | new
            · exact ⟨t, inside, rfl, rfl, data⟩
            · rw [List.mem_singleton.mp new] at data
              cases data
      | download => exact faithful.setDownloads _
  | transition manager k state =>
      cases manager with
      | upload => exact faithful.upload k state
      | download => exact faithful.download new
  | release manager k =>
      cases manager with
      | upload =>
          exact faithful.of_fewer (fun _ _ _ there => there) (fun _ _ _ there => there)
            fun t inside _ data => ⟨t, List.mem_of_mem_eraseIdx inside, rfl, rfl, data⟩
      | download => exact faithful.setDownloads _
  | probe volName => exact fun v j content second there =>
      ⟨(faithful v j content second there).uploaded, (faithful v j content second there).uploads⟩

/-! ## The sizes in the lists -/

theorem proxy_writeCloud (w : World) (volName : String) (part : ℕ) (content : Content) (v : String)
    (i : ℕ) :
    getSize ((w.writeCloud volName part content).proxy v) i = getSize (w.proxy v) i ∨
      getSize ((w.writeCloud volName part content).proxy v) i =
        ((w.writeCloud volName part content).cloud v).size i := by
  unfold World.writeCloud
  dsimp only
  rw [Function.update_apply, Function.update_apply]
  by_cases vol : v = volName
  · rw [if_pos vol, if_pos vol, vol, getSize, put_get, Directory.size, content_write]
    by_cases same : i = part
    · rw [if_pos same, if_pos same]
      exact .inr rfl
    · rw [if_neg same]
      exact .inl rfl
  · rw [if_neg vol]
    exact .inl rfl

theorem transition_proxy (w : World) (manager : Manager) (k : ℕ) (state : TransferState)
    (volName : String) (i : ℕ) :
    getSize ((w.transition manager k state).proxy volName) i = getSize (w.proxy volName) i ∨
      getSize ((w.transition manager k state).proxy volName) i =
        ((w.transition manager k state).cloud volName).size i := by
  unfold World.transition
  split
  · exact .inl rfl
  case h_2 t here =>
    cases manager with
    | download => dsimp only; split <;> exact .inl rfl
    | upload =>
        dsimp only
        split
        case h_4 content _ data => exact proxy_writeCloud _ t.volumeName t.part content volName i
        all_goals exact .inl rfl

/-- What the proxy has of a part is what it had, or the size of the part in the cloud. -/
theorem change_proxy (w : World) (c : Change) (volName : String) {i : ℕ} (first : 1 ≤ i) :
    getSize ((change w c).proxy volName) i = getSize (w.proxy volName) i ∨
      getSize ((change w c).proxy volName) i = ((change w c).cloud volName).size i := by
  cases c with
  | transition manager k state => exact transition_proxy w manager k state volName i
  | probe other =>
      change getSize (Function.update w.proxy other _ volName) i = _ ∨
        getSize (Function.update w.proxy other _ volName) i = (w.cloud volName).size i
      rw [Function.update_apply]
      by_cases vol : volName = other
      · rw [if_pos vol, getSize_eq _ first, vol]
        exact .inr rfl
      · rw [if_neg vol]
        exact .inl rfl
  | getXfer manager v part => cases manager <;> exact .inl rfl
  | release manager k => cases manager <;> exact .inl rfl
  | write v part content => exact .inl rfl
  | removeCache v part => exact .inl rfl
  | removeCloud v part => exact .inl rfl

/-- The parts that are to come are in the proxy, and in the list, as they are in the directories. -/
def Place.Lists (w : World) : Place → Prop
  | .idle => True
  | .probed volName => ∀ j, 2 ≤ j → getSize (w.proxy volName) j = (w.cloud volName).size j
  | .part volName cacheParts i stage => 2 ≤ i ∧
      (∀ j, i ≤ j → getSize (w.proxy volName) j = (w.cloud volName).size j ∧
        partGetSize cacheParts j = (w.cache volName).size j) ∧
      (stage ≠ .size → partGetSize cacheParts i = 0 ∨
        partGetSize cacheParts i = (w.cloud volName).size i)

theorem proxy_steady {c : Change} (steady : c.Steady s) {volName : String} {first : ℕ}
    (truncates : s.place.truncates = some (volName, first)) {j : ℕ} (toCome : first ≤ j)
    (second : 2 ≤ j) (proxy : getSize (s.world.proxy volName) j = (s.world.cloud volName).size j) :
    getSize ((change s.world c).proxy volName) j = ((change s.world c).cloud volName).size j := by
  rcases change_proxy s.world c volName (Nat.le_of_succ_le second) with same | cloud
  · rw [same, proxy, (steady volName first truncates j toCome).2]
  · exact cloud

theorem lists_change {c : Change} (lists : s.place.Lists s.world) (steady : c.Steady s) :
    s.place.Lists (change s.world c) := by
  obtain ⟨w, place, result, unlinked⟩ := s
  cases place with
  | idle => trivial
  | probed volName => exact fun j second => proxy_steady steady rfl second second (lists j second)
  | part volName cacheParts i stage =>
      obtain ⟨second, sizes, compared⟩ := lists
      refine ⟨second, fun j toCome => ⟨?_, ?_⟩, fun later => ?_⟩
      · exact proxy_steady steady rfl toCome (second.trans toCome) (sizes j toCome).1
      · exact (sizes j toCome).2.trans (steady volName i rfl j toCome).1.symm
      · rw [(steady volName i rfl i le_rfl).2]
        exact compared later

/-- The next part, after a change that leaves the parts behind it. -/
theorem lists_loop {w' : World} {volName : String} {cacheParts : Ilist ℕ} {i : ℕ} (second : 2 ≤ i)
    (sizes : ∀ j, i ≤ j → getSize (w'.proxy volName) j = (w'.cloud volName).size j ∧
      partGetSize cacheParts j = (w'.cache volName).size j) : (loop volName cacheParts i).Lists w' := by
  unfold loop
  split
  · exact ⟨second, sizes, fun later => absurd rfl later⟩
  · trivial

theorem removeCache_size (w : World) (volName : String) {i j : ℕ} (other : j ≠ i) :
    ((change w (.removeCache volName i)).cache volName).size j = (w.cache volName).size j := by
  change (Function.update w.cache volName ((w.cache volName).remove i) volName).size j = _
  rw [Function.update_self, Directory.size, content_remove, if_neg other]
  rfl

/-! ## The parts that are unlinked -/

/-- A part whose turn it is has the sizes that were compared. -/
theorem sameSize_of_lists {volName : String} {cacheParts : Ilist ℕ} {i : ℕ} {content : Content}
    (lists : (Place.part volName cacheParts i .unlink).Lists w)
    (there : w.cached volName i = some content) :
    (⟨i, content, w.uploaded volName i⟩ : Unlinked).SameSize := by
  intro nonempty
  change (w.uploaded volName i).map List.length = some content.length
  obtain ⟨-, sizes, compared⟩ := lists
  have cache : partGetSize cacheParts i = ((w.cached volName i).map List.length).getD 0 :=
    (sizes i le_rfl).2
  rw [there, Option.map_some, Option.getD_some] at cache
  have positive : 0 < content.length := List.length_pos_iff.mpr nonempty
  have cloud : content.length = ((w.uploaded volName i).map List.length).getD 0 := by
    rcases compared (by decide) with zero | same
    · omega
    · exact cache.symm.trans same
  cases here : w.uploaded volName i with
  | none =>
      rw [here] at cloud
      exact absurd cloud positive.ne'
  | some other =>
      rw [here] at cloud
      exact congrArg some cloud.symm

/-- The same size is the same contents, when the part was told from the cloud's by its size. -/
theorem kept_of_sameSize {volName : String} {i : ℕ} {content : Content}
    (faithful : Faithful w volName i content)
    (same : (⟨i, content, w.uploaded volName i⟩ : Unlinked).SameSize) :
    (⟨i, content, w.uploaded volName i⟩ : Unlinked).Kept := by
  intro nonempty
  have size : (w.uploaded volName i).map List.length = some content.length := same nonempty
  obtain ⟨other, there, length⟩ := Option.map_eq_some_iff.mp size
  change w.uploaded volName i = some content
  rw [there, faithful.uploaded other there length]

theorem Unlinked.Kept.sameSize {u : Unlinked} (kept : u.Kept) : u.SameSize :=
  fun nonempty => congrArg (Option.map List.length) (kept nonempty)

def Step (s : State) (action : Action) (s' : State) : Prop := step s action = some s'

/-- What every run keeps in which the writes are told from the cloud's parts by their sizes. -/
structure Inv (s : State) : Prop where
  faithful : CacheFaithful s.world
  second : ∀ volName first, s.place.truncates = some (volName, first) → 2 ≤ first
  kept : ∀ u ∈ s.unlinked, u.SameSize → u.Kept

/-- What a run keeps in which the sizes are steady, too. -/
structure Truncating (s : State) : Prop extends Inv s where
  lists : s.place.Lists s.world
  all : ∀ u ∈ s.unlinked, u.SameSize

theorem loop_second {volName v : String} {cacheParts : Ilist ℕ} {i first : ℕ} (second : 2 ≤ i)
    (truncates : (loop volName cacheParts i).truncates = some (v, first)) : 2 ≤ first := by
  unfold loop at truncates
  split at truncates
  · injection truncates with both
    injection both with _ here
    omega
  · cases truncates

theorem idle_second (v : String) (first : ℕ) (truncates : Place.idle.truncates = some (v, first)) :
    2 ≤ first := by
  cases truncates

/-- What a step can do. -/
theorem step_cases {action : Action} {s' : State} (taken : Step s action s') :
    (∃ c, action = .change c ∧ s' = { s with world := change s.world c }) ∨
    (∃ volName ok, s.place = .idle ∧ s' = probe s volName ok) ∨
    (∃ volName ok, s.place = .probed volName ∧ s' = list s volName ok) ∨
    (∃ volName cacheParts i, s.place = .part volName cacheParts i .size ∧
      s' = compareSizes s volName cacheParts i) ∨
    (∃ volName cacheParts i, s.place = .part volName cacheParts i .find ∧
      s' = findDownload s volName cacheParts i) ∨
    ∃ volName cacheParts i removable, s.place = .part volName cacheParts i .unlink ∧
      s' = unlink s volName cacheParts i removable := by
  unfold Step step at taken
  split at taken
  case h_1 _ c => exact .inl ⟨c, rfl, (Option.some_inj.mp taken).symm⟩
  case h_2 volName ok idle => exact .inr (.inl ⟨volName, ok, idle, (Option.some_inj.mp taken).symm⟩)
  case h_3 ok volName probed =>
    exact .inr (.inr (.inl ⟨volName, ok, probed, (Option.some_inj.mp taken).symm⟩))
  case h_4 volName cacheParts i here =>
    exact .inr (.inr (.inr (.inl ⟨volName, cacheParts, i, here, (Option.some_inj.mp taken).symm⟩)))
  case h_5 volName cacheParts i here =>
    exact .inr (.inr
      (.inr (.inr (.inl ⟨volName, cacheParts, i, here, (Option.some_inj.mp taken).symm⟩))))
  case h_6 removable volName cacheParts i here =>
    exact .inr (.inr
      (.inr (.inr (.inr ⟨volName, cacheParts, i, removable, here, (Option.some_inj.mp taken).symm⟩))))
  case h_7 => cases taken

/-- A part that is unlinked goes to the history, and the thread goes on to the next one. -/
theorem unlink_cases (s : State) (volName : String) (cacheParts : Ilist ℕ) (i : ℕ) (removable : Bool) :
    (unlink s volName cacheParts i removable).place = loop volName cacheParts (i + 1) ∧
    ((unlink s volName cacheParts i removable).world = s.world ∧
        (unlink s volName cacheParts i removable).unlinked = s.unlinked ∨
      (unlink s volName cacheParts i removable).world = change s.world (.removeCache volName i) ∧
        ∃ content, s.world.cached volName i = some content ∧
          (unlink s volName cacheParts i removable).unlinked =
            s.unlinked ++ [⟨i, content, s.world.uploaded volName i⟩]) := by
  unfold unlink
  dsimp only
  split
  case h_1 content there =>
    cases removable with
    | false => exact ⟨rfl, .inl ⟨rfl, rfl⟩⟩
    | true => exact ⟨rfl, .inr ⟨rfl, content, there, rfl⟩⟩
  case h_2 => exact ⟨rfl, .inl ⟨rfl, rfl⟩⟩

theorem inv_probe (inv : Inv s) (volName : String) (ok : Bool) : Inv (probe s volName ok) := by
  unfold probe
  split
  · refine ⟨inv.faithful.change (.probe volName) trivial, ?_, inv.kept⟩
    intro v first truncates
    injection truncates with both
    injection both with _ here
    omega
  · exact ⟨inv.faithful, idle_second, inv.kept⟩

theorem inv_list (inv : Inv s) (volName : String) (ok : Bool) : Inv (list s volName ok) := by
  unfold list
  split
  · exact ⟨inv.faithful, fun _ _ truncates => loop_second le_rfl truncates, inv.kept⟩
  · exact ⟨inv.faithful, idle_second, inv.kept⟩

/-- The thread goes on with the part, or to the next one. -/
theorem inv_compareSizes (inv : Inv s) {volName : String} {i : ℕ} (second : 2 ≤ i)
    (cacheParts : Ilist ℕ) :
    Inv (compareSizes s volName cacheParts i) := by
  unfold compareSizes
  dsimp only
  split
  · exact ⟨inv.faithful, fun _ _ truncates => loop_second (by omega) truncates, inv.kept⟩
  · refine ⟨inv.faithful, fun v first truncates => ?_, inv.kept⟩
    injection truncates with both
    injection both with _ here
    omega

theorem inv_findDownload (inv : Inv s) {volName : String} {i : ℕ} (second : 2 ≤ i)
    (cacheParts : Ilist ℕ) :
    Inv (findDownload s volName cacheParts i) := by
  unfold findDownload
  split
  · exact ⟨inv.faithful, fun _ _ truncates => loop_second (by omega) truncates, inv.kept⟩
  · refine ⟨inv.faithful, fun v first truncates => ?_, inv.kept⟩
    injection truncates with both
    injection both with _ here
    omega

theorem inv_unlink (inv : Inv s) {volName : String} {i : ℕ} (second : 2 ≤ i) (cacheParts : Ilist ℕ)
    (removable : Bool) : Inv (unlink s volName cacheParts i removable) := by
  obtain ⟨place, cases⟩ := unlink_cases s volName cacheParts i removable
  have later : ∀ v first,
        (unlink s volName cacheParts i removable).place.truncates = some (v, first) → 2 ≤ first := by
    intro v first truncates
    rw [place] at truncates
    exact loop_second (by omega) truncates
  rcases cases with ⟨world, unlinked⟩ | ⟨world, content, there, unlinked⟩
  · exact ⟨world ▸ inv.faithful, later, unlinked ▸ inv.kept⟩
  · refine ⟨world ▸ inv.faithful.change (.removeCache volName i) trivial, later,
      fun u inside same => ?_⟩
    rw [unlinked] at inside
    rcases List.mem_append.mp inside with old | new
    · exact inv.kept u old same
    · obtain rfl := List.mem_singleton.mp new
      exact kept_of_sameSize (inv.faithful volName i content second there) same

theorem step_inv {action : Action} {s' : State} (inv : Inv s) (writes : WritesFaithful s action)
    (taken : Step s action s') : Inv s' := by
  rcases step_cases taken with ⟨c, rfl, rfl⟩ | ⟨volName, ok, -, rfl⟩ | ⟨volName, ok, -, rfl⟩ |
    ⟨volName, cacheParts, i, here, rfl⟩ | ⟨volName, cacheParts, i, here, rfl⟩ |
    ⟨volName, cacheParts, i, removable, here, rfl⟩
  · exact ⟨inv.faithful.change c writes, inv.second, inv.kept⟩
  · exact inv_probe inv volName ok
  · exact inv_list inv volName ok
  · exact inv_compareSizes inv (inv.second volName i (by rw [here]; rfl)) cacheParts
  · exact inv_findDownload inv (inv.second volName i (by rw [here]; rfl)) cacheParts
  · exact inv_unlink inv (inv.second volName i (by rw [here]; rfl)) cacheParts removable

/-! ## The lists along a run -/

theorem lists_probe (volName : String) (ok : Bool) :
    (probe s volName ok).place.Lists (probe s volName ok).world := by
  unfold probe
  split
  · intro j second
    change getSize (Function.update s.world.proxy volName _ volName) j = _
    rw [Function.update_self, getSize_eq _ (Nat.le_of_succ_le second)]
    rfl
  · trivial

theorem lists_list {volName : String} (lists : (Place.probed volName).Lists s.world) (ok : Bool) :
    (list s volName ok).place.Lists (list s volName ok).world := by
  unfold list
  split
  · exact lists_loop le_rfl fun j second => ⟨lists j second, partGetSize_eq _ j⟩
  · trivial

theorem lists_compareSizes {volName : String} {cacheParts : Ilist ℕ} {i : ℕ}
    (lists : (Place.part volName cacheParts i .size).Lists s.world) :
    (compareSizes s volName cacheParts i).place.Lists (compareSizes s volName cacheParts i).world := by
  obtain ⟨second, sizes, -⟩ := lists
  unfold compareSizes
  dsimp only
  split
  case isTrue => exact lists_loop (by omega) fun j toCome => sizes j (by omega)
  case isFalse equal =>
    refine ⟨second, sizes, fun _ => ?_⟩
    rw [← (sizes i le_rfl).1]
    omega

theorem lists_findDownload {volName : String} {cacheParts : Ilist ℕ} {i : ℕ}
    (lists : (Place.part volName cacheParts i .find).Lists s.world) :
    (findDownload s volName cacheParts i).place.Lists (findDownload s volName cacheParts i).world := by
  obtain ⟨second, sizes, compared⟩ := lists
  unfold findDownload
  split
  · exact lists_loop (by omega) fun j toCome => sizes j (by omega)
  · exact ⟨second, sizes, fun _ => compared (by decide)⟩

theorem lists_unlink {volName : String} {cacheParts : Ilist ℕ} {i : ℕ}
    (lists : (Place.part volName cacheParts i .unlink).Lists s.world) (removable : Bool) :
    (unlink s volName cacheParts i removable).place.Lists
    (unlink s volName cacheParts i removable).world := by
  obtain ⟨second, sizes, -⟩ := lists
  obtain ⟨place, cases⟩ := unlink_cases s volName cacheParts i removable
  rw [place]
  rcases cases with ⟨world, -⟩ | ⟨world, -, -, -⟩
  · rw [world]
    exact lists_loop (by omega) fun j toCome => sizes j (by omega)
  · rw [world]
    refine lists_loop (by omega) fun j toCome => ⟨(sizes j (by omega)).1, ?_⟩
    rw [removeCache_size s.world volName (by omega)]
    exact (sizes j (by omega)).2

/-- A part that is unlinked has the size it has in the cloud. -/
theorem unlink_sameSize {volName : String} {cacheParts : Ilist ℕ} {i : ℕ}
    (lists : (Place.part volName cacheParts i .unlink).Lists s.world) (removable : Bool)
    (all : ∀ u ∈ s.unlinked, u.SameSize) :
    ∀ u ∈ (unlink s volName cacheParts i removable).unlinked, u.SameSize := by
  obtain ⟨-, ⟨-, unlinked⟩ | ⟨-, content, there, unlinked⟩⟩ :=
    unlink_cases s volName cacheParts i removable
  · rwa [unlinked]
  · intro u inside
    rw [unlinked] at inside
    rcases List.mem_append.mp inside with old | new
    · exact all u old
    · obtain rfl := List.mem_singleton.mp new
      exact sameSize_of_lists lists there

theorem writes_of_allowed {action : Action} (allowed : Allowed s action) : WritesFaithful s action := by
  cases action with
  | change c => exact allowed.1
  | probe volName ok => trivial
  | list ok => trivial
  | compareSizes => trivial
  | findDownload => trivial
  | unlink removable => trivial

/-- The sizes that were compared are those of the part that is unlinked. -/
theorem step_truncating {action : Action} {s' : State} (truncating : Truncating s)
    (allowed : Allowed s action) (taken : Step s action s') : Truncating s' := by
  have lists := truncating.lists
  have inv : Inv s' := step_inv truncating.toInv (writes_of_allowed allowed) taken
  rcases step_cases taken with ⟨c, rfl, rfl⟩ | ⟨volName, ok, here, rfl⟩ | ⟨volName, ok, here, rfl⟩ |
    ⟨volName, cacheParts, i, here, rfl⟩ | ⟨volName, cacheParts, i, here, rfl⟩ |
    ⟨volName, cacheParts, i, removable, here, rfl⟩
  · exact ⟨inv, lists_change lists allowed.2, truncating.all⟩
  · refine ⟨inv, lists_probe volName ok, ?_⟩
    unfold probe
    split <;> exact truncating.all
  · rw [here] at lists
    refine ⟨inv, lists_list lists ok, ?_⟩
    unfold list
    split <;> exact truncating.all
  · rw [here] at lists
    refine ⟨inv, lists_compareSizes lists, ?_⟩
    unfold compareSizes
    dsimp only
    split <;> exact truncating.all
  · rw [here] at lists
    refine ⟨inv, lists_findDownload lists, ?_⟩
    unfold findDownload
    split <;> exact truncating.all
  · rw [here] at lists
    exact ⟨inv, lists_unlink lists removable, unlink_sameSize lists removable truncating.all⟩

theorem init_inv (faithful : CacheFaithful w) : Inv (State.init w) :=
  ⟨faithful, idle_second, fun _ inside => absurd inside List.not_mem_nil⟩

theorem init_truncating (faithful : CacheFaithful w) : Truncating (State.init w) :=
  ⟨init_inv faithful, trivial, fun _ inside => absurd inside List.not_mem_nil⟩

/-- No part is lost in a run whose writes can be told from the cloud's parts by their sizes and
leave the sizes of the parts to come. Without the second, the parts are kept that have the cloud's
size as they are unlinked, and no others. -/
theorem truncation_law (w : World) (faithful : CacheFaithful w) :
    (∀ actions s, Run (Guarded Step Allowed) (State.init w) actions s → ∀ u ∈ s.unlinked, u.Kept) ∧
      ∀ actions s, Run (Guarded Step WritesFaithful) (State.init w) actions s →
        ((∀ u ∈ s.unlinked, u.Kept) ↔ ∀ u ∈ s.unlinked, u.SameSize) := by
  constructor
  · intro actions s run u inside
    have truncating : Truncating s := by
      refine run.invariant ?_ (init_truncating faithful)
      exact fun _ _ _ truncating guarded => step_truncating truncating guarded.1 guarded.2
    exact truncating.kept u inside (truncating.all u inside)
  · intro actions s run
    have inv : Inv s := by
      refine run.invariant ?_ (init_inv faithful)
      exact fun _ _ _ inv guarded => step_inv inv guarded.1 guarded.2
    constructor
    · exact fun kept u inside => (kept u inside).sameSize
    · exact fun same u inside => inv.kept u inside (same u inside)

/-- A storage with nothing in it. -/
def nothing : World := ⟨fun _ => [], fun _ => [], [], [], fun _ => Ilist.init 100⟩

/-- A part is written and uploaded. -/
def uploading (content : Content) : List Action :=
  [.change (.write "Vol" 2 content), .change (.getXfer .upload "Vol" 2),
    .change (.transition .upload 0 .queued), .change (.transition .upload 0 .processed),
    .change (.transition .upload 0 .done), .change (.release .upload 0)]

def truncating : List Action :=
  [.probe "Vol" true, .list true, .compareSizes, .findDownload, .unlink true]

theorem idle_steady {place : Place} (idle : place = .idle) (w : World) (result : Result)
    (unlinked : List Unlinked) (c : Change) : c.Steady ⟨w, place, result, unlinked⟩ := by
  intro _ _ truncates
  rw [idle] at truncates
  cases truncates

theorem truncation_law_uploaded :
    ∃ s, Run (Guarded Step Allowed) (State.init nothing)
      (uploading [1, 2] ++ .change (.write "Vol" 3 []) :: truncating ++
        [.change (.getXfer .upload "Vol" 3), .compareSizes, .findDownload, .unlink true]) s ∧
      s.unlinked = [⟨2, [1, 2], some [1, 2]⟩, ⟨3, [], none⟩] ∧ ∀ u ∈ s.unlinked, u.Kept := by
  obtain ⟨s, run, unlinked⟩ : ∃ s, Run (Guarded Step Allowed) (State.init nothing)
      (uploading [1, 2] ++ .change (.write "Vol" 3 []) :: truncating ++
        [.change (.getXfer .upload "Vol" 3), .compareSizes, .findDownload, .unlink true]) s ∧
      s.unlinked = [⟨2, [1, 2], some [1, 2]⟩, ⟨3, [], none⟩] := by
    refine ⟨?s, ?run, ?unlinked⟩
    case run =>
      refine .cons ⟨⟨fun _ => ⟨?_, ?_⟩, idle_steady rfl _ _ _ _⟩, rfl⟩ ?_
      · intro _ there
        cases there
      · intro _ inside
        cases inside
      refine .cons ⟨⟨trivial, idle_steady rfl _ _ _ _⟩, rfl⟩ ?_
      refine .cons ⟨⟨trivial, idle_steady rfl _ _ _ _⟩, rfl⟩ ?_
      refine .cons ⟨⟨trivial, idle_steady rfl _ _ _ _⟩, rfl⟩ ?_
      refine .cons ⟨⟨trivial, idle_steady rfl _ _ _ _⟩, rfl⟩ ?_
      refine .cons ⟨⟨trivial, idle_steady rfl _ _ _ _⟩, rfl⟩ ?_
      refine .cons ⟨⟨fun _ => ⟨?_, ?_⟩, idle_steady rfl _ _ _ _⟩, rfl⟩ ?_
      · intro _ there
        cases there
      · intro _ inside
        cases inside
      refine .cons ⟨trivial, rfl⟩ ?_
      refine .cons ⟨trivial, rfl⟩ ?_
      refine .cons ⟨trivial, rfl⟩ ?_
      refine .cons ⟨trivial, rfl⟩ ?_
      refine .cons ⟨trivial, rfl⟩ ?_
      refine .cons ⟨⟨trivial, fun _ _ _ _ _ => ⟨rfl, rfl⟩⟩, rfl⟩ ?_
      refine .cons ⟨trivial, rfl⟩ ?_
      refine .cons ⟨trivial, rfl⟩ ?_
      refine .cons ⟨trivial, rfl⟩ ?_
      exact .nil _
    case unlinked => rfl
  refine ⟨s, run, unlinked, (truncation_law nothing ?_).1 _ s run⟩
  intro volName i content _ there
  cases there

/-- The part is written again with the same size, and the upload that was created is not queued yet. -/
theorem rewritten_part_lost :
    ¬ ∀ actions s, Run Step (State.init nothing) actions s → ∀ u ∈ s.unlinked, u.Kept := by
  intro law
  obtain ⟨s, run, unlinked⟩ : ∃ s, Run Step (State.init nothing) (uploading [3, 4] ++
      .change (.write "Vol" 2 [1, 2]) :: .change (.getXfer .upload "Vol" 2) :: truncating) s ∧
      s.unlinked = [⟨2, [1, 2], some [3, 4]⟩] := by
    refine ⟨?s, ?run, ?unlinked⟩
    case run =>
      refine .cons rfl ?_
      refine .cons rfl ?_
      refine .cons rfl ?_
      refine .cons rfl ?_
      refine .cons rfl ?_
      refine .cons rfl ?_
      refine .cons rfl ?_
      refine .cons rfl ?_
      refine .cons rfl ?_
      refine .cons rfl ?_
      refine .cons rfl ?_
      refine .cons rfl ?_
      refine .cons rfl ?_
      exact .nil _
    case unlinked => rfl
  have kept :=
    law _ s run ⟨2, [1, 2], some [3, 4]⟩ (by rw [unlinked]; exact List.mem_singleton_self _) (by decide)
  exact absurd kept (by decide)

end Bacula.CloudTruncate
