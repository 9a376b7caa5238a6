import Bacula.Lib.Serial

/-! The stream of extended attributes of `filed/bxattr.c`. The content buffer is its size; memory can
always be allocated. The pointers to the job, the buffer and the list are given. -/
namespace Bacula.Bxattr
open ByteCodec

def XATTR_MAGIC : UInt32 := 0x5C5884

/-- Bytes that a 32 bit length counts. -/
abbrev Counted := {stored : List UInt8 // stored.length < 2 ^ 32}

def Counted.len (c : Counted) : UInt32 := UInt32.ofNat c.val.length

structure BxattrXattr where
  name : Counted
  value : Counted
  deriving DecidableEq

/-! ## Writing -/

/-- The length that `generic_backup_xattr` counts while it collects the attributes. -/
def xattrsLen (list : List BxattrXattr) : UInt32 :=
  list.foldl (fun len xattr => len + (4 + 4 + xattr.name.len + 4 + xattr.value.len)) 0

/-- `check_pool_memory_size` takes the size as a signed number. -/
def checkPoolMemorySize (sizeofPoolMemory size : Int32) : Int32 :=
  if size ≤ sizeofPoolMemory then sizeofPoolMemory else size

def serXattr (xattr : BxattrXattr) : List UInt8 :=
  serialUint32 XATTR_MAGIC ++ (serialUint32 xattr.name.len ++ (xattr.name.val ++
    (serialUint32 xattr.value.len ++ xattr.value.val)))

/-- What is stored, up to an empty name. -/
def serXattrs : List BxattrXattr → List UInt8 × Bool
  | [] => ([], true)
  | xattr :: list =>
      if xattr.name.len > 0 then (serXattr xattr ++ (serXattrs list).1, (serXattrs list).2)
      else (serialUint32 XATTR_MAGIC, false)

inductive Serialized where
  | ok (content : List UInt8)
  | error (errmsg : String)
  | writePastContent
  | assertion
  deriving DecidableEq

def serializeXattrStream (sizeofContent : Int32) (len : UInt32) (list : List BxattrXattr) :
    Serialized :=
  let sizeofContent := checkPoolMemorySize sizeofContent (len + 20).toInt32
  let stored := (serXattrs list).1
  if sizeofContent.toInt < stored.length then .writePastContent
  else if ¬ (serXattrs list).2 then .error "Illegal empty xattr attribute name\n"
  else if ¬ UInt32.ofNat stored.length ≤ len + 20 then .assertion
  else .ok stored

/-! ## Reading -/

/-- Copy `len` bytes into a new buffer, and put a zero behind them. -/
def unserBytes (allocated len : UInt32) : Decoder Counted := fun input =>
  if len.toNat ≤ input.length then
    if len < allocated then
      .ok (⟨input.take len.toNat, lt_of_le_of_lt (List.length_take_le _ _) len.toNat_lt⟩,
        input.drop len.toNat)
    else .error .writePastField
  else .error .readPastEnd

/-- One attribute. -/
def unserXattr (lastFname : String) : Decoder (Except String BxattrXattr) := do
  let magic ← unserialUint32
  if magic ≠ XATTR_MAGIC then
    return .error s!"Illegal xattr stream, no XATTR_MAGIC on file \"{lastFname}\"\n"
  let nameLen ← unserialUint32
  if nameLen = 0 then
    return .error s!"Illegal xattr stream, xattr name length <= 0 on file \"{lastFname}\"\n"
  let name ← unserBytes (nameLen + 1) nameLen
  let valueLen ← unserialUint32
  if valueLen > 0 then
    let value ← unserBytes (valueLen + 1) valueLen
    return .ok ⟨name, value⟩
  else
    return .ok ⟨name, ⟨[], Nat.two_pow_pos 32⟩⟩

theorem len_toNat (c : Counted) : c.len.toNat = c.val.length := UInt32.toNat_ofNat_of_lt' c.property

theorem unserBytes_run_ok {allocated len : UInt32} {input rest : List UInt8} {c : Counted}
    (run : (unserBytes allocated len).run input = .ok (c, rest)) :
    input = c.val ++ rest ∧ c.len = len := by
  change (if _ then _ else _) = _ at run
  split at run
  case isFalse => cases run
  case isTrue inside =>
    split at run
    case isFalse => cases run
    case isTrue =>
      obtain ⟨rfl, rfl⟩ := Prod.mk.inj (Except.ok.inj run)
      refine ⟨(List.take_append_drop _ input).symm, UInt32.toNat_inj.mp ?_⟩
      rw [len_toNat]
      exact List.length_take_of_le inside

/-- What ends the reading with an error: a wrong magic number or an empty name. -/
def Rejected (input : List UInt8) : Prop :=
  (∃ magic rest, magic ≠ XATTR_MAGIC ∧ input = serialUint32 magic ++ rest) ∨
    ∃ rest, input = serialUint32 XATTR_MAGIC ++ (serialUint32 0 ++ rest)

theorem unserXattr_run_ok {lastFname : String} {input rest : List UInt8}
    {result : Except String BxattrXattr} (run : (unserXattr lastFname).run input = .ok (result, rest)) :
    (∃ xattr, result = .ok xattr ∧ input = serXattr xattr ++ rest ∧ xattr.name.len > 0) ∨
      (∃ errmsg, result = .error errmsg) ∧ Rejected input := by
  obtain ⟨magic, afterMagic, read, onMagic⟩ := run_bind_eq_ok run
  have front := unserialUint32_run_ok read
  by_cases wrong : magic ≠ XATTR_MAGIC
  · rw [if_pos wrong] at onMagic
    obtain ⟨rfl, -⟩ := Prod.mk.inj (Except.ok.inj onMagic)
    exact .inr ⟨⟨_, rfl⟩, .inl ⟨magic, afterMagic, wrong, front⟩⟩
  · rw [if_neg wrong] at onMagic
    obtain rfl := not_not.mp wrong
    obtain ⟨nameLen, afterLen, readLen, onLen⟩ := run_bind_eq_ok onMagic
    rw [unserialUint32_run_ok readLen] at front
    by_cases empty : nameLen = 0
    · rw [if_pos empty] at onLen
      obtain ⟨rfl, -⟩ := Prod.mk.inj (Except.ok.inj onLen)
      exact .inr ⟨⟨_, rfl⟩, .inr ⟨afterLen, by rw [front, empty]⟩⟩
    · rw [if_neg empty] at onLen
      obtain ⟨name, afterName, readName, onName⟩ := run_bind_eq_ok onLen
      obtain ⟨valueLen, afterValueLen, readValueLen, onValueLen⟩ := run_bind_eq_ok onName
      obtain ⟨named, rfl⟩ := unserBytes_run_ok readName
      rw [named, unserialUint32_run_ok readValueLen] at front
      have nonempty : name.len > 0 := UInt32.pos_iff_ne_zero.mpr empty
      by_cases some : valueLen > 0
      · rw [if_pos some] at onValueLen
        obtain ⟨value, left, readValue, onValue⟩ := run_bind_eq_ok onValueLen
        obtain ⟨rfl, rfl⟩ := Prod.mk.inj (Except.ok.inj onValue)
        obtain ⟨valued, rfl⟩ := unserBytes_run_ok readValue
        refine .inl ⟨⟨name, value⟩, rfl, ?_, nonempty⟩
        rw [front, valued]
        simp only [serXattr, List.append_assoc]
      · rw [if_neg some] at onValueLen
        obtain ⟨rfl, rfl⟩ := Prod.mk.inj (Except.ok.inj onValueLen)
        have zero : valueLen = 0 := UInt32.le_zero_iff.mp (UInt32.not_lt.mp some)
        refine .inl ⟨⟨name, _⟩, rfl, ?_, nonempty⟩
        rw [front, zero, serXattr]
        simp only [List.append_assoc, List.append_nil]
        rfl

/-- The list as far as it was read, with the return code and its message. -/
structure Unserialized where
  error : Option String
  list : List BxattrXattr
  deriving DecidableEq

def unserializeXattrStream (lastFname : String) (content : List UInt8) (list : List BxattrXattr) :
    Except Fault Unserialized :=
  if content = [] then .ok ⟨none, list⟩
  else
    match _read : (unserXattr lastFname).run content with
    | .error fault => .error fault
    | .ok (.error errmsg, _) => .ok ⟨some errmsg, list⟩
    | .ok (.ok xattr, rest) => unserializeXattrStream lastFname rest (list ++ [xattr])
  termination_by content.length
  decreasing_by
    rcases unserXattr_run_ok _read with ⟨xattr, -, rfl, -⟩ | ⟨⟨_, absurd⟩, -⟩
    · simp only [serXattr, List.length_append, serialUint32_length]
      omega
    · cases absurd

end Bacula.Bxattr
