import Bacula.Filed.Bxattr

/-! When the list of attributes comes back from its stream, and which streams are read to their end
and no further. -/
namespace Bacula.Bxattr
open ByteCodec

def Named (list : List BxattrXattr) : Prop := ∀ xattr ∈ list, xattr.name.val ≠ []

def xattrsBytes (list : List BxattrXattr) : List UInt8 := (list.map serXattr).flatten

theorem xattrsBytes_cons (xattr : BxattrXattr) (list : List BxattrXattr) :
    xattrsBytes (xattr :: list) = serXattr xattr ++ xattrsBytes list := rfl

/-- The size of the stream without any overflow. -/
def streamSize (list : List BxattrXattr) : ℕ :=
  (list.map fun xattr => 12 + xattr.name.val.length + xattr.value.val.length).sum

theorem serXattr_length (xattr : BxattrXattr) :
    (serXattr xattr).length = 12 + xattr.name.val.length + xattr.value.val.length := by
  simp only [serXattr, List.length_append, serialUint32_length]
  omega

theorem xattrsBytes_length (list : List BxattrXattr) : (xattrsBytes list).length = streamSize list := by
  induction list with
  | nil => rfl
  | cons xattr list ih =>
      rw [xattrsBytes_cons, List.length_append, serXattr_length]
      exact congrArg _ ih

theorem len_pos_iff {c : Counted} : c.len > 0 ↔ c.val ≠ [] := by
  rw [gt_iff_lt, UInt32.lt_iff_toNat_lt, len_toNat]
  exact List.length_pos_iff

theorem serXattrs_named {list : List BxattrXattr} (named : Named list) :
    serXattrs list = (xattrsBytes list, true) := by
  induction list with
  | nil => rfl
  | cons xattr list ih =>
      rw [serXattrs, if_pos (len_pos_iff.mpr (named xattr List.mem_cons_self)),
        ih fun other inside => named other (List.mem_cons_of_mem _ inside)]
      rfl

theorem xattrsLen_eq (list : List BxattrXattr) : xattrsLen list = UInt32.ofNat (streamSize list) := by
  have count (len : UInt32) :
    list.foldl (fun len xattr => len + (4 + 4 + xattr.name.len + 4 + xattr.value.len)) len =
      len + UInt32.ofNat (streamSize list) := by
    induction list generalizing len with
    | nil => exact (UInt32.add_zero len).symm
    | cons xattr list ih =>
        have head : 4 + 4 + xattr.name.len + 4 + xattr.value.len =
            UInt32.ofNat (12 + xattr.name.val.length + xattr.value.val.length) := by
          rw [UInt32.ofNat_add, UInt32.ofNat_add]
          change 4 + 4 + xattr.name.len + 4 + xattr.value.len = 12 + xattr.name.len + xattr.value.len
          grind
        have all : streamSize (xattr :: list) =
          12 + xattr.name.val.length + xattr.value.val.length + streamSize list := rfl
        rw [List.foldl_cons, ih, head, all, UInt32.ofNat_add _ (streamSize list), ← UInt32.add_assoc]
  exact (count 0).trans (UInt32.zero_add _)

/-- The buffer has room when the size asked for is a positive signed number, or when it was large
enough before. -/
theorem room_iff (size : Int32) (total : ℕ) :
    (total : ℤ) ≤ (checkPoolMemorySize size (UInt32.ofNat (total + 20)).toInt32).toInt ↔
      total + 20 < 2 ^ 31 ∨ (total : ℤ) ≤ size.toInt := by
  have top := size.toInt_lt
  have needed : (UInt32.ofNat (total + 20)).toInt32.toInt = Int.bmod (total + 20 : ℕ) (2 ^ 32) := by
    rw [UInt32.toInt32_ofNat', Int32.toInt_ofNat']
    rfl
  have range : Int.bmod (total + 20 : ℕ) (2 ^ 32) < 2 ^ 31 := Int.bmod_lt (by decide)
  have below : Int.bmod (total + 20 : ℕ) (2 ^ 32) = (total + 20 : ℕ) ∨
      Int.bmod (total + 20 : ℕ) (2 ^ 32) + 2 ^ 32 ≤ (total + 20 : ℕ) := by
    rw [Int.bmod_def]
    split <;> omega
  have same (small : total + 20 < 2 ^ 31) : Int.bmod (total + 20 : ℕ) (2 ^ 32) = (total + 20 : ℕ) := by
    rw [Int.bmod_def]
    split <;> omega
  rw [checkPoolMemorySize]
  split
  case isTrue enough =>
    rw [Int32.le_iff_toInt_le, needed] at enough
    omega
  case isFalse short =>
    rw [Int32.le_iff_toInt_le, needed] at short
    rw [needed]
    omega

/-- The stream fits when its size is a signed number, or when the buffer has the room already. -/
theorem serializeXattrStream_named {list : List BxattrXattr} (named : Named list) (size : Int32) :
    serializeXattrStream size (xattrsLen list) list =
      if streamSize list + 20 < 2 ^ 31 ∨ (streamSize list : ℤ) ≤ size.toInt then .ok (xattrsBytes list)
      else .writePastContent := by
  have sum : xattrsLen list + 20 = UInt32.ofNat (streamSize list + 20) := by
    rw [xattrsLen_eq]
    exact (UInt32.ofNat_add (streamSize list) 20).symm
  rw [serializeXattrStream, serXattrs_named named, sum]
  dsimp only
  rw [xattrsBytes_length]
  split
  case isTrue outside => rw [if_neg fun room => absurd ((room_iff _ _).mpr room) (not_le.mpr outside)]
  case isFalse inside =>
    have room := (room_iff _ _).mp (not_lt.mp inside)
    have top := size.toInt_lt
    have counted : UInt32.ofNat (streamSize list) ≤ UInt32.ofNat (streamSize list + 20) := by
      rw [UInt32.le_iff_toNat_le, UInt32.toNat_ofNat_of_lt' (show _ < 2 ^ 32 by omega),
        UInt32.toNat_ofNat_of_lt' (show _ < 2 ^ 32 by omega)]
      exact Nat.le_add_right _ 20
    rw [if_pos room, if_neg (not_not.mpr rfl), if_neg (not_not.mpr counted)]

/-! ## Reading -/

/-- A stream of whole attributes, and behind them nothing or what is rejected. -/
def Framed (stream : List UInt8) : Prop :=
  ∃ list rest, Named list ∧ stream = xattrsBytes list ++ rest ∧ (rest = [] ∨ Rejected rest)

theorem unserBytes_run {allocated : UInt32} (c : Counted) (rest : List UInt8)
    (fits : c.len < allocated) :
    (unserBytes allocated c.len).run (c.val ++ rest) = .ok (c, rest) := by
  change (if c.len.toNat ≤ (c.val ++ rest).length then _ else _) = _
  rw [if_pos (by rw [len_toNat, List.length_append]; exact Nat.le_add_right _ _), if_pos fits]
  have taken : (c.val ++ rest).take c.len.toNat = c.val := List.take_left' (len_toNat c).symm
  have left : (c.val ++ rest).drop c.len.toNat = rest := List.drop_left' (len_toNat c).symm
  exact congrArg Except.ok (Prod.ext (Subtype.ext taken) left)

theorem len_lt_succ {c : Counted} (fits : c.val.length + 1 < 2 ^ 32) : c.len < c.len + 1 := by
  rw [UInt32.lt_iff_toNat_lt, UInt32.toNat_add, len_toNat]
  change c.val.length < (c.val.length + 1) % 2 ^ 32
  omega

theorem unserXattr_run {xattr : BxattrXattr} (named : xattr.name.val ≠ [])
    (fits : (serXattr xattr).length < 2 ^ 32) (lastFname : String) (rest : List UInt8) :
    (unserXattr lastFname).run (serXattr xattr ++ rest) = .ok (.ok xattr, rest) := by
  rw [serXattr_length] at fits
  simp only [serXattr, List.append_assoc]
  rw [unserXattr, run_bind_ok (unserialUint32_serial _ _), if_neg (not_not.mpr rfl),
    run_bind_ok (unserialUint32_serial _ _), if_neg (UInt32.pos_iff_ne_zero.mp (len_pos_iff.mpr named)),
    run_bind_ok (unserBytes_run _ _ (len_lt_succ (by omega))), run_bind_ok (unserialUint32_serial _ _)]
  by_cases empty : xattr.value.val = []
  · rw [if_neg fun some => len_pos_iff.mp some empty]
    obtain ⟨name, value, value_fits⟩ := xattr
    subst empty
    rfl
  · rw [if_pos (len_pos_iff.mpr empty), run_bind_ok (unserBytes_run _ _ (len_lt_succ (by omega)))]
    rfl

theorem unserXattr_rejected {input : List UInt8} (rejected : Rejected input) (lastFname : String) :
    ∃ errmsg rest, (unserXattr lastFname).run input = .ok (.error errmsg, rest) := by
  rcases rejected with ⟨magic, rest, wrong, rfl⟩ | ⟨rest, rfl⟩
  · rw [unserXattr, run_bind_ok (unserialUint32_serial _ _), if_pos wrong]
    exact ⟨_, _, rfl⟩
  · rw [unserXattr, run_bind_ok (unserialUint32_serial _ _), if_neg (not_not.mpr rfl),
      run_bind_ok (unserialUint32_serial _ _), if_pos rfl]
    exact ⟨_, _, rfl⟩

theorem unserializeXattrStream_xattr {lastFname : String} {content rest : List UInt8}
    {xattr : BxattrXattr} (read : (unserXattr lastFname).run content = .ok (.ok xattr, rest))
    (list : List BxattrXattr) :
    unserializeXattrStream lastFname content list =
      unserializeXattrStream lastFname rest (list ++ [xattr]) := by
  have some : content ≠ [] := by
    rintro rfl
    cases read
  rw [unserializeXattrStream, if_neg some]
  split
  case h_1 fault eq => cases eq.symm.trans read
  case h_2 errmsg eq => cases eq.symm.trans read
  case h_3 eq =>
    cases eq.symm.trans read
    rfl

theorem unserializeXattrStream_rejected {lastFname : String} {content rest : List UInt8}
    {errmsg : String} (read : (unserXattr lastFname).run content = .ok (.error errmsg, rest))
    (list : List BxattrXattr) :
    unserializeXattrStream lastFname content list = .ok ⟨some errmsg, list⟩ := by
  have some : content ≠ [] := by
    rintro rfl
    cases read
  rw [unserializeXattrStream, if_neg some]
  split
  case h_1 fault eq => cases eq.symm.trans read
  case h_2 eq =>
    cases eq.symm.trans read
    rfl
  case h_3 eq => cases eq.symm.trans read

theorem unserializeXattrStream_fault {lastFname : String} {content : List UInt8}
    (some : content ≠ []) {fault : Fault} (read : (unserXattr lastFname).run content = .error fault)
    (list : List BxattrXattr) :
    unserializeXattrStream lastFname content list = .error fault := by
  rw [unserializeXattrStream, if_neg some]
  split
  case h_1 eq =>
    cases eq.symm.trans read
    rfl
  case h_2 eq => cases eq.symm.trans read
  case h_3 eq => cases eq.symm.trans read

theorem unserializeXattrStream_nil (lastFname : String) (list : List BxattrXattr) :
    unserializeXattrStream lastFname [] list = .ok ⟨none, list⟩ := by
  rw [unserializeXattrStream, if_pos rfl]

/-- Whole attributes are read, and the reading goes on behind them. -/
theorem unserializeXattrStream_append {more : List BxattrXattr} (named : Named more)
    {lastFname : String} (rest : List UInt8) (fits : streamSize more < 2 ^ 32)
    (list : List BxattrXattr) :
    unserializeXattrStream lastFname (xattrsBytes more ++ rest) list =
      unserializeXattrStream lastFname rest (list ++ more) := by
  induction more generalizing list with
  | nil => rw [List.append_nil]; rfl
  | cons xattr more ih =>
      have all : streamSize (xattr :: more) = 12 + xattr.name.val.length + xattr.value.val.length +
        streamSize more := rfl
      have first : (serXattr xattr).length < 2 ^ 32 := by
        rw [serXattr_length]
        omega
      rw [xattrsBytes_cons, List.append_assoc,
        unserializeXattrStream_xattr (unserXattr_run (named xattr List.mem_cons_self) first _ _)]
      rw [List.append_cons list xattr more]
      exact ih (fun other inside => named other (List.mem_cons_of_mem _ inside)) (by omega) _

/-- What is read to its end was whole attributes, up to what is rejected. -/
theorem framed_of_ok {lastFname : String} {content : List UInt8} {list : List BxattrXattr}
    {result : Unserialized} (read : unserializeXattrStream lastFname content list = .ok result) :
    Framed content := by
  induction content, list using unserializeXattrStream.induct lastFname with
  | case1 list => exact ⟨[], [], fun _ inside => absurd inside List.not_mem_nil, rfl, .inl rfl⟩
  | case2 content list some fault run =>
      rw [unserializeXattrStream_fault some run] at read
      cases read
  | case3 content list some errmsg left run =>
      rcases unserXattr_run_ok run with ⟨xattr, eq, -, -⟩ | ⟨-, rejected⟩
      · cases eq
      · exact ⟨[], content, fun _ inside => absurd inside List.not_mem_nil, rfl, .inr rejected⟩
  | case4 content list some xattr left run ih =>
      rw [unserializeXattrStream_xattr run] at read
      obtain ⟨more, rest, named, rfl, ends⟩ := ih read
      rcases unserXattr_run_ok run with ⟨other, eq, front, nonempty⟩ | ⟨⟨_, eq⟩, -⟩
      · cases eq
        refine ⟨xattr :: more, rest, ?_, ?_, ends⟩
        · intro x inside
          rcases List.mem_cons.mp inside with rfl | inside
          · exact len_pos_iff.mp nonempty
          · exact named x inside
        · rw [front, xattrsBytes_cons, List.append_assoc]
      · cases eq

theorem ok_of_framed {content : List UInt8} (framed : Framed content) (fits : content.length < 2 ^ 32)
    (lastFname : String) : ∃ result, unserializeXattrStream lastFname content [] = .ok result := by
  obtain ⟨list, rest, named, rfl, ends⟩ := framed
  rw [List.length_append, xattrsBytes_length] at fits
  rw [unserializeXattrStream_append named rest (by omega)]
  rcases ends with rfl | rejected
  · exact ⟨_, unserializeXattrStream_nil _ _⟩
  · obtain ⟨errmsg, left, run⟩ := unserXattr_rejected rejected lastFname
    exact ⟨_, unserializeXattrStream_rejected run _⟩

/-- A list comes back from its stream when the stream fits, and a stream is read without leaving it
when it does not end inside an attribute. -/
theorem xattr_stream_law (size : Int32) {list : List BxattrXattr} (named : Named list)
    {stream : List UInt8} (fits : stream.length < 2 ^ 32) (lastFname : String) :
    ((∃ content, serializeXattrStream size (xattrsLen list) list = .ok content ∧
          content.length ≤ (xattrsLen list + 20).toNat ∧
          unserializeXattrStream lastFname content [] = .ok ⟨none, list⟩) ↔
        streamSize list + 20 < 2 ^ 31 ∨ (streamSize list : ℤ) ≤ size.toInt) ∧
      ((∃ result, unserializeXattrStream lastFname stream [] = .ok result) ↔ Framed stream) := by
  refine ⟨?_, fun ⟨result, read⟩ => framed_of_ok read, fun framed => ok_of_framed framed fits lastFname⟩
  rw [serializeXattrStream_named named]
  constructor
  · rintro ⟨content, stored, -, -⟩
    split at stored
    case isTrue room => exact room
    case isFalse => cases stored
  · intro room
    have top := size.toInt_lt
    refine ⟨xattrsBytes list, if_pos room, ?_, ?_⟩
    · have sum : xattrsLen list + 20 = UInt32.ofNat (streamSize list + 20) := by
        rw [xattrsLen_eq]
        exact (UInt32.ofNat_add (streamSize list) 20).symm
      rw [xattrsBytes_length, sum, UInt32.toNat_ofNat_of_lt' (show _ < 2 ^ 32 by omega)]
      exact Nat.le_add_right _ 20
    · have read : unserializeXattrStream lastFname (xattrsBytes list ++ []) [] = _ :=
        unserializeXattrStream_append named [] (by omega) []
      rw [List.append_nil, List.nil_append] at read
      exact read.trans (unserializeXattrStream_nil _ _)

/-- Two attributes, one of them with a value, and their stream. -/
theorem two_attributes_law :
    let list : List BxattrXattr :=
  [⟨⟨[117], by decide⟩, ⟨[], by decide⟩⟩, ⟨⟨[118, 119], by decide⟩, ⟨[1, 2, 0], by decide⟩⟩]
    (∃ content, serializeXattrStream 4096 (xattrsLen list) list = .ok content ∧
        unserializeXattrStream "f" content [] = .ok ⟨none, list⟩) ∧
      ∃ result, unserializeXattrStream "f" (xattrsBytes list) [] = .ok result := by
  intro list
  have named : Named list := by
    intro xattr inside
    rcases List.mem_cons.mp inside with rfl | inside
    · exact List.cons_ne_nil _ _
    · rw [List.mem_singleton.mp inside]
      exact List.cons_ne_nil _ _
  obtain ⟨roundTrip, framed⟩ :=
    xattr_stream_law 4096 named (show (xattrsBytes list).length < 2 ^ 32 by decide) "f"
  obtain ⟨content, stored, -, read⟩ := roundTrip.mpr (.inr (by decide))
  exact ⟨⟨content, stored, read⟩, framed.mpr ⟨list, [], named, (List.append_nil _).symm, .inl rfl⟩⟩

/-- A stream that ends behind the magic number: the length of the name is read behind its end. -/
theorem magic_only_reads_on :
    unserializeXattrStream "etc/passwd" [0x00, 0x5C, 0x58, 0x84] [] = .error .readPastEnd :=
  unserializeXattrStream_fault (List.cons_ne_nil _ _) rfl _

end Bacula.Bxattr
