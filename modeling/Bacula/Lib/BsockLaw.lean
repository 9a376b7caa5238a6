import Bacula.Lib.Bsock
import Bacula.Library.WordFlags

/-!
# The packets that are written, and how they are read

`send` writes the words and the bytes that `send_spec` names; `recv` undoes the words, then takes
the bytes as they are or uncompresses them into a buffer of one of a few sizes.
-/
namespace Bacula.Bsock

open WordFlags

/-- What the code relies on: decompressing undoes compressing, into a buffer that is large enough,
and the number of bytes is an int. -/
structure Lz4.Lawful (z : Lz4) : Prop where
  undoes : ∀ {src cap c n}, z.compress_default src cap = .ok c → src.length ≤ n →
    z.decompress_safe c n = .ok src
  refuses : ∀ {src cap c n}, z.compress_default src cap = .ok c → n < src.length →
    ∃ left, z.decompress_safe c n = .error left
  int : ∀ {src n d}, z.decompress_safe src n = .ok d → d.length < 2 ^ 31

/-- What a caller puts into the socket before `send`, and the flags of the call. -/
structure Message where
  msg : Buffer
  msglen : BitVec 32
  flags : BitVec 32

def Message.offset (m : Message) : ℕ := (m.flags &&& 0xFF).toNat

def Message.payload (m : Message) : List UInt8 := m.msg.read 0 m.msglen.toNat

def Message.command (m : Message) : Bool := m.flags &&& BNET_IS_CMD ≠ 0

/-- The messages that callers send. -/
structure Message.Accepted (m : Message) : Prop where
  flags : m.flags &&& ~~~(0xFF ||| BNET_IS_CMD ||| BNET_NOCOMPRESS) = 0
  offset : m.offset < 255
  size : 0 < m.msglen.toInt → m.msglen.toInt ≤ 4000000 ∧ m.offset ≤ m.msglen.toNat

/-- The compressed bytes behind the offset, when the message is sent compressed. -/
def packed (z : Lz4) (m_compress : Bool) (m : Message) : Option (List UInt8) :=
  if 20 < m.msglen.toInt ∧ m_compress ∧ m.flags &&& BNET_NOCOMPRESS = 0 then
    match z.compress_default (m.payload.drop m.offset) (m.msglen.toNat - m.offset) with
    | .ok c => if 0 < c.length ∧ c.length + 10 ≤ m.msglen.toNat - m.offset then some c else none
    | .error _ => none
  else none

/-- The caller's flags with the bit for an offset. -/
def Message.marked (m : Message) : BitVec 32 :=
  if m.offset ≠ 0 then m.flags ||| BNET_OFFSET else m.flags

/-- The flags that are sent. -/
def Message.word (m : Message) (compressed : Bool) : BitVec 32 :=
  if m.offset ≠ 0 ∧ compressed then m.marked ||| BNET_DATACOMPRESSED else m.marked

section flags

variable {m : Message} {k : Bool}

theorem Message.Accepted.clear (accepted : m.Accepted) {i : ℕ} (high : 8 ≤ i) (other : i ≠ 28)
    (another : i ≠ 25) : m.flags.getLsbD i = false := by
  by_cases inside : i < 32
  · have image := congrArg (BitVec.getLsbD · i) accepted.flags
    have mask : (0xFF : BitVec 32).getLsbD i = false := getLsbD_of_lt (j := 8) (by decide) high
    simp only [BitVec.getLsbD_and, BitVec.getLsbD_not, BitVec.getLsbD_or, BNET_IS_CMD,
      BNET_NOCOMPRESS, BitVec.getLsbD_twoPow, mask] at image
    simpa [inside, other.symm, another.symm] using image
  · exact BitVec.getLsbD_of_ge _ _ (not_lt.mp inside)

theorem offset_eq_zero : m.offset = 0 ↔ m.flags &&& 0xFF = 0 := by
  rw [Message.offset, BitVec.toNat_eq]
  rfl

theorem getLsbD_word {i : ℕ} (inside : i < 32) : (m.word k).getLsbD i =
    (m.flags.getLsbD i ||
      (decide (m.offset ≠ 0) && (decide (27 = i) || (k && decide (24 = i))))) := by
  unfold Message.word Message.marked
  by_cases none : m.offset = 0
  · simp [none]
  · cases k <;> simp [none, inside, BNET_OFFSET, BNET_DATACOMPRESSED, Bool.or_assoc, @eq_comm _ i]

theorem word_eq_zero : m.word k = 0 ↔ m.flags = 0 := by
  unfold Message.word Message.marked
  by_cases none : m.offset = 0
  · simp [none]
  · have some : m.flags ≠ 0 := fun zero => none (offset_eq_zero.mpr (by rw [zero]; rfl))
    refine iff_of_false ?_ some
    rw [if_pos none]
    split
    · exact or_flag_ne_zero (by decide)
    · exact or_flag_ne_zero (by decide)

theorem word_command : (m.word k &&& BNET_IS_CMD ≠ 0) ↔ m.command = true := by
  rw [BNET_IS_CMD, and_flag_ne_zero (by decide), getLsbD_word (by decide), Message.command,
    decide_eq_true_iff, BNET_IS_CMD, and_flag_ne_zero (by decide)]
  simp

theorem word_behind (accepted : m.Accepted) :
    (m.word k &&& BNET_OFFSET ≠ 0) ↔ m.offset ≠ 0 := by
  rw [BNET_OFFSET, and_flag_ne_zero (by decide), getLsbD_word (by decide),
    accepted.clear (by decide) (by decide) (by decide)]
  simp

theorem word_offset : (m.word k &&& 0xFF).toNat = m.offset := by
  refine congrArg BitVec.toNat (BitVec.eq_of_getLsbD_eq fun i below => ?_)
  rw [BitVec.getLsbD_and, BitVec.getLsbD_and, getLsbD_word below]
  by_cases low : i < 8
  · simp [show 27 ≠ i by omega, show 24 ≠ i by omega]
  · rw [getLsbD_of_lt (x := 0xFF) (j := 8) (by decide) (not_lt.mp low), Bool.and_false,
      Bool.and_false]

theorem word_strip (accepted : m.Accepted) :
    m.word k &&& ~~~BNET_COMPRESSED = m.word k := by
  refine strip_of_clear ?_
  rw [getLsbD_word (by decide), accepted.clear (by decide) (by decide) (by decide)]
  simp

end flags

@[simp] theorem length_htonl (word : BitVec 32) : (htonl word).length = 4 :=
  ByteCodec.bigEndian_length 4 _

@[simp] theorem ntohl_htonl (word : BitVec 32) : ntohl (htonl word) = word := by
  have small : word.toNat < 256 ^ 4 := word.isLt
  rw [ntohl, htonl, ByteCodec.number_bigEndian, Nat.mod_eq_of_lt small, BitVec.ofNat_toNat,
    BitVec.setWidth_eq]

section sending

variable {z : Lz4} {m : Message}

/-- The socket as `send` hands it to `compressing`. -/
def Message.loaded (m : Message) (b : BSOCK) : BSOCK :=
  { b with msg := m.msg, msglen := m.msglen, m_flags := m.marked }

theorem offset_loaded (b : BSOCK) : (m.loaded b).offset = m.offset := by
  have plain := word_offset (m := m) (k := false)
  rwa [Message.word, if_neg (by simp)] at plain

theorem toNat_of_pos (positive : 0 < m.msglen.toInt) : m.msglen.toInt = m.msglen.toNat := by
  refine BitVec.toInt_eq_toNat_of_lt ?_
  exact BitVec.toInt_pos_iff.mp positive.le

theorem comm_compress_spec (accepted : m.Accepted) (allowed : m.flags &&& BNET_NOCOMPRESS = 0)
    (b : BSOCK) :
    ∃ cmsg, cmsg.read 0 m.offset = b.cmsg.read 0 m.offset ∧
      comm_compress z (m.loaded b) = some (match packed z b.m_compress m with
        | none => (false, { m.loaded b with cmsg })
        | some c => (true, { m.loaded b with
            cmsg := cmsg.write m.offset c, msglen := .ofNat 32 (c.length + m.offset) })) := by
  have behind : m.payload.drop m.offset = m.msg.read m.offset (m.msglen.toNat - m.offset) := by
    by_cases within : m.offset ≤ m.msglen.toNat
    · rw [Message.payload, Buffer.drop_read within, zero_add]
    · rw [Nat.sub_eq_zero_of_le (not_le.mp within).le, List.drop_eq_nil_of_le]
      · rfl
      · rw [Message.payload, Buffer.length_read]
        exact (not_le.mp within).le
  unfold comm_compress packed
  rw [offset_loaded, behind]
  change ∃ cmsg, _ ∧ (if 20 < m.msglen.toInt ∧ b.m_compress = true then _ else _) = _
  by_cases long : 20 < m.msglen.toInt ∧ b.m_compress = true
  · obtain ⟨large, on⟩ := long
    have size := accepted.size (by omega)
    have value := toNat_of_pos (m := m) (by omega)
    rw [if_pos ⟨large, on⟩, if_pos ⟨by rw [show (m.loaded b).msglen = m.msglen from rfl]; omega,
      accepted.offset⟩, if_pos ⟨large, on, allowed⟩]
    have kept (n : ℕ) : (reserve b.cmsg n (n + 100)).read 0 m.offset = b.cmsg.read 0 m.offset := by
      unfold reserve
      split <;> rfl
    simp only [show (m.loaded b).msglen = m.msglen from rfl,
      show (m.loaded b).msg = m.msg from rfl, show (m.loaded b).cmsg = b.cmsg from rfl]
    cases z.compress_default (m.msg.read m.offset (m.msglen.toNat - m.offset))
      (m.msglen.toNat - m.offset) with
    | ok c =>
        by_cases saved : 0 < c.length ∧ c.length + 10 ≤ m.msglen.toNat - m.offset
        · simp only [if_pos saved]
          exact ⟨_, kept _, rfl⟩
        · simp only [if_neg saved]
          refine ⟨_, ?_, rfl⟩
          rw [Buffer.read_write_before (by simp), kept]
    | error left =>
        refine ⟨_, ?_, rfl⟩
        rw [Buffer.read_write_before (by simp), kept]
  · rw [if_neg long, if_neg fun all => long ⟨all.1, all.2.1⟩]
    exact ⟨b.cmsg, rfl, rfl⟩

/-- The part of `send` that may compress. -/
theorem compressing_spec (accepted : m.Accepted) (b : BSOCK) :
    ∃ cmsg, cmsg.read 0 m.offset = b.cmsg.read 0 m.offset ∧
      compressing z (m.loaded b) = some (match packed z b.m_compress m with
        | none => (false, false, { m.loaded b with cmsg })
        | some c => (true, true, { m.loaded b with
            cmsg := cmsg.write m.offset c, msglen := .ofNat 32 (c.length + m.offset) })) := by
  have bit {k : ℕ} (inside : k < 32) (other : k ≠ 27) :
      m.marked.getLsbD k = m.flags.getLsbD k := by
    have known := getLsbD_word (m := m) (k := false) inside
    rw [Message.word, if_neg (by simp)] at known
    simpa [other.symm] using known
  have fresh : m.marked &&& BNET_DATACOMPRESSED = 0 := by
    rw [BNET_DATACOMPRESSED, and_flag_eq_zero (by decide), bit (by decide) (by decide)]
    exact accepted.clear (by decide) (by decide) (by decide)
  have same : m.marked &&& BNET_NOCOMPRESS = 0 ↔ m.flags &&& BNET_NOCOMPRESS = 0 := by
    rw [BNET_NOCOMPRESS, and_flag_eq_zero (by decide), and_flag_eq_zero (by decide),
      bit (by decide) (by decide)]
  unfold compressing
  change ∃ cmsg, _ ∧ (if m.marked &&& BNET_DATACOMPRESSED ≠ 0 then _
    else if m.marked &&& BNET_NOCOMPRESS ≠ 0 then _ else _) = _
  rw [if_neg (not_not.mpr fresh)]
  by_cases allowed : m.flags &&& BNET_NOCOMPRESS = 0
  · obtain ⟨cmsg, kept, done⟩ := comm_compress_spec (z := z) accepted allowed b
    refine ⟨cmsg, kept, ?_⟩
    rw [if_neg (not_not.mpr (same.mpr allowed)), done]
    cases packed z b.m_compress m <;> rfl
  · refine ⟨b.cmsg, rfl, ?_⟩
    rw [if_pos (mt same.mp allowed), packed, if_neg fun all => allowed all.2.2]
    rfl

/-- The first word of a packet. -/
def firstWord (msglen m_flags : BitVec 32) (compressed : Bool) : BitVec 32 :=
  let word := if compressed then msglen ||| BNET_COMPRESSED else msglen
  if m_flags ≠ 0 then word ||| BNET_HDR_EXTEND else word

/-- The second word of a packet. -/
def secondWord (m_flags : BitVec 32) : List UInt8 := if m_flags ≠ 0 then htonl m_flags else []

variable {x : Buffer} {msglen f : BitVec 32} {k : Bool}

/-- Without data the flags overwrite the message. -/
theorem frame_quiet (quiet : msglen.toInt ≤ 0) :
    (frame x msglen f false).2 = htonl (firstWord msglen f false) ∧
      ∀ i, 0 ≤ i → (frame x msglen f false).1.bytes i =
        (x.write 0 (secondWord f)).bytes i := by
  simp only [frame, if_pos quiet, Bool.false_and, Bool.false_eq_true, if_false, firstWord,
    secondWord]
  by_cases none : f = 0
  · simp only [none, ne_eq, not_true_eq_false, if_false]
    refine ⟨Buffer.read_write' (length_htonl _), fun i above => ?_⟩
    rw [Buffer.bytes_write_of_ge (by simpa using above),
      Buffer.bytes_write_of_ge (by simpa using above)]
  · simp only [ne_eq, none, not_false_eq_true, if_true]
    constructor
    · rw [Buffer.read_write_before (by simp)]
      exact Buffer.read_write' (length_htonl _)
    · intro i above
      change (Buffer.write _ 0 _).bytes i = _
      by_cases inside : i < 4
      · simp only [Buffer.write, length_htonl]
        rw [if_pos ⟨above, by omega⟩, if_pos ⟨above, by omega⟩]
      · rw [Buffer.bytes_write_of_ge (by simpa using inside),
          Buffer.bytes_write_of_ge (by simpa using above),
          Buffer.bytes_write_of_ge (by simpa using inside)]

theorem frame_data (data : 0 < msglen.toInt) :
    (frame x msglen f k).2 =
        htonl (firstWord msglen f (k && f &&& BNET_OFFSET = 0)) ++
          (secondWord f ++ x.read 0 msglen.toNat) ∧
      ∀ i, 0 ≤ i → (frame x msglen f k).1.bytes i = x.bytes i := by
  simp only [frame, if_neg (not_le.mpr data), firstWord, secondWord]
  by_cases none : f = 0
  · simp only [none, ne_eq, not_true_eq_false, if_false, List.nil_append]
    constructor
    · rw [Nat.add_comm, Buffer.read_add, Buffer.read_write' (length_htonl _),
        Buffer.read_write_behind (by simp)]
      rfl
    · intro i above
      exact Buffer.bytes_write_of_ge (by simpa using above)
  · simp only [ne_eq, none, not_false_eq_true, if_true]
    constructor
    · rw [Nat.add_comm, show 8 = 4 + 4 from rfl, Buffer.read_add, Buffer.read_add,
        List.append_assoc, Buffer.read_write_before (by simp),
        Buffer.read_write' (length_htonl _),
        show (-((4 + 4 : ℕ) : ℤ) + (4 : ℕ)) = 4 - ((4 + 4 : ℕ) : ℤ) from rfl,
        Buffer.read_write' (length_htonl _),
        Buffer.read_write_behind (by simp), Buffer.read_write_behind (by simp)]
      rfl
    · intro i above
      rw [Buffer.bytes_write_of_ge (by simpa using above)]
      exact Buffer.bytes_write_of_ge (by simp; omega)

/-- The bytes behind the header. -/
def body (z : Lz4) (b : BSOCK) (m : Message) : List UInt8 :=
  match packed z b.m_compress m with
  | none => m.payload
  | some c => b.cmsg.read 0 m.offset ++ c

/-- `send` on a socket that the caller has loaded. -/
def Message.send (z : Lz4) (b : BSOCK) (m : Message) : Option (Bool × BSOCK × List UInt8) :=
  Bsock.send z { b with msg := m.msg, msglen := m.msglen } m.flags

theorem small_of_accepted (accepted : m.Accepted) : ¬4000000 < m.msglen.toInt := by
  by_cases positive : 0 < m.msglen.toInt
  · exact not_lt.mpr (accepted.size positive).1
  · omega

theorem length_packed {on : Bool} {c : List UInt8} (some : packed z on m = some c) :
    20 < m.msglen.toInt ∧ 0 < c.length ∧ c.length + 10 ≤ m.msglen.toNat - m.offset ∧
      z.compress_default (m.payload.drop m.offset) (m.msglen.toNat - m.offset) = .ok c := by
  unfold packed at some
  split at some
  · rename_i asked
    split at some
    · rename_i c' answer
      split at some
      · rename_i saved
        obtain rfl := Option.some.inj some
        exact ⟨asked.1, saved.1, saved.2, answer⟩
      · exact absurd some (by simp)
    · exact absurd some (by simp)
  · exact absurd some (by simp)

/-- What `send` writes and what it leaves in the socket. -/
theorem send_spec (accepted : m.Accepted) (b : BSOCK) (ready : b.is_stop = false) :
    ∃ b' packet, m.send z b = some (true, b', packet) ∧ b'.msglen = m.msglen ∧
      b'.is_stop = false ∧
      (m.msglen.toInt ≤ 0 → packet = htonl (firstWord m.msglen (m.word false) false) ∧
        ∀ i, 0 ≤ i → b'.msg.bytes i = (m.msg.write 0 (secondWord (m.word false))).bytes i) ∧
      (0 < m.msglen.toInt → packet = htonl (firstWord (.ofNat 32 (body z b m).length)
          (m.word (packed z b.m_compress m).isSome)
          ((packed z b.m_compress m).isSome && m.offset = 0)) ++
            (secondWord (m.word (packed z b.m_compress m).isSome) ++ body z b m) ∧
        ∀ i, 0 ≤ i → b'.msg.bytes i = m.msg.bytes i) := by
  obtain ⟨cmsg, kept, done⟩ := compressing_spec (z := z) accepted b
  unfold Message.send Bsock.send
  rw [if_neg (not_or.mpr ⟨by simpa [BSOCK.is_stop] using ready, small_of_accepted accepted⟩)]
  simp only [ne_eq, ← offset_eq_zero]
  have loaded : (BSOCK.mk m.msg b.cmsg m.msglen
      (if ¬m.offset = 0 then m.flags ||| BNET_OFFSET else m.flags) b.errors b.m_terminated
      b.m_closed b.m_compress) = m.loaded b := rfl
  rw [loaded, done]
  cases answer : packed z b.m_compress m with
  | none =>
      have same : m.marked &&& ~~~BNET_COMPRESSED = m.word false := by
        have known := word_strip (k := false) accepted
        rwa [Message.word, if_neg (by simp)] at known ⊢
      simp only [Bool.false_eq_true, and_false, if_false]
      rw [show (m.loaded b).m_flags &&& ~~~BNET_COMPRESSED = m.word false from same]
      refine ⟨_, _, rfl, rfl, ready, fun quiet => frame_quiet quiet, fun positive => ?_⟩
      have data := frame_data (x := m.msg) (f := m.word false) (k := false)
        positive
      have whole : body z b m = m.payload := by rw [body, answer]
      rw [whole, Message.payload, Buffer.length_read, BitVec.ofNat_toNat, BitVec.setWidth_eq]
      exact data
  | some c =>
      obtain ⟨long, filled, saved, -⟩ := length_packed answer
      simp only [and_true, if_true]
      have value := toNat_of_pos (m := m) (by omega)
      have size := accepted.size (by omega)
      have known : (if ¬m.offset = 0 then (m.loaded b).m_flags ||| BNET_DATACOMPRESSED
          else (m.loaded b).m_flags) = m.word true := by
        by_cases none : m.offset = 0 <;> simp [Message.word, none, Message.loaded]
      rw [known]
      have sum : (BitVec.ofNat 32 (c.length + m.offset)).toNat = c.length + m.offset :=
        Nat.mod_eq_of_lt (by omega)
      have positive : 0 < (BitVec.ofNat 32 (c.length + m.offset)).toInt := by
        rw [BitVec.toInt_eq_toNat_of_lt (by omega)]
        omega
      refine ⟨_, _, rfl, rfl, ready, fun quiet => absurd long (by omega), fun _ => ?_⟩
      have data := frame_data (x := cmsg.write m.offset c) (f := m.word true)
        (k := true) positive
      have whole : (cmsg.write m.offset c).read 0 (c.length + m.offset) = body z b m := by
        rw [body, answer, Nat.add_comm, Buffer.read_add, Buffer.read_write_before (by simp), kept,
          zero_add, Buffer.read_write]
      have behind : (decide (m.word true &&& BNET_OFFSET = 0)) = decide (m.offset = 0) :=
        decide_eq_decide.mpr (not_iff_not.mp (word_behind accepted))
      refine ⟨?_, fun _ _ => rfl⟩
      rw [data.1, sum, whole, behind, ← whole, Buffer.length_read]
      rfl

end sending

section receiving

variable {z : Lz4} {p : BSOCK} {tail : List UInt8}

/-- The socket once `recv` has read the header. -/
def BSOCK.reset (p : BSOCK) (m_flags : BitVec 32) : BSOCK :=
  { p with cmsg := p.cmsg.write 0 [0], msg := p.msg.write 0 [0], msglen := 0, m_flags }

theorem read_nbytes_append {n : ℕ} {data : List UInt8} (same : data.length = n) :
    read_nbytes n (data ++ tail) = (some data, tail) := by
  subst same
  rw [read_nbytes, if_pos (by simp), List.take_left, List.drop_left]

theorem recv_header (ready : p.is_stop = false) (word : BitVec 32) :
    recv z p (htonl word ++ tail) =
      if 0 < word.toInt ∧ word &&& BNET_HDR_EXTEND ≠ 0 then
        match read_nbytes 4 tail with
        | (none, stream) =>
            (BNET_HARDEOF, { p.reset 0 with errors := p.errors + 1 }, stream)
        | (some flags, stream) =>
            recvLength z (p.reset (ntohl flags)) (word &&& ~~~BNET_HDR_EXTEND) stream
      else recvLength z (p.reset 0) word tail := by
  have open' : (p.reset 0).is_stop = false := ready
  unfold recv
  rw [read_nbytes_append (length_htonl word)]
  change (if (p.reset 0).is_stop = true then _ else _) = _
  rw [if_neg (Bool.eq_false_iff.mp open')]
  simp only [ntohl_htonl]
  rfl

theorem plain (nbytes : ℤ) :
    got (decide ((p.reset 0).m_flags &&& BNET_IS_CMD ≠ 0)) nbytes = nbytes := by
  simp [got, BSOCK.reset]

theorem recv_signal (ready : p.is_stop = false) {word : BitVec 32} (negative : word.toInt < 0) :
    recv z p (htonl word ++ tail) = (BNET_SIGNAL,
      { p.reset 0 with m_terminated := p.m_terminated || word = BNET_TERMINATE, msglen := word },
      tail) := by
  have nonzero : word ≠ 0 := fun zero => absurd negative (by rw [zero]; decide)
  rw [recv_header ready, if_neg (by omega), recvLength, if_neg (by omega), recvPacket,
    if_neg nonzero, if_pos (Or.inl negative), if_neg (by omega), plain]
  rfl

theorem recv_empty (ready : p.is_stop = false) :
    recv z p (htonl 0 ++ tail) = (0, p.reset 0, tail) := by
  rw [recv_header ready, if_neg (by simp), recvLength, if_neg (by simp), recvPacket, if_pos rfl,
    plain]
  rfl

/-- An empty message with flags is sent without the second word that its first word announces. -/
theorem recv_announced (ready : p.is_stop = false)
    (same : (recv z p (htonl BNET_HDR_EXTEND ++ tail)).2.2 = tail) :
    (recv z p (htonl BNET_HDR_EXTEND ++ tail)).1 = BNET_HARDEOF := by
  have set : 0 < BNET_HDR_EXTEND.toInt ∧ BNET_HDR_EXTEND &&& BNET_HDR_EXTEND ≠ 0 := by decide
  rw [recv_header ready, if_pos set] at same ⊢
  by_cases enough : 4 ≤ tail.length
  · rw [read_nbytes, if_pos enough] at same
    have none : BNET_HDR_EXTEND &&& ~~~BNET_HDR_EXTEND = 0 := by decide
    simp only [none] at same
    rw [recvLength, if_neg (by simp), recvPacket, if_pos rfl] at same
    have shorter := congrArg List.length same
    rw [List.length_drop] at shorter
    omega
  · rw [read_nbytes, if_neg enough]

theorem toInt_pos {x : BitVec 32} (top : x.getLsbD 31 = false) (nonzero : x ≠ 0) :
    0 < x.toInt := by
  rw [BitVec.toInt_eq_toNat_of_msb (by rw [BitVec.msb_eq_getLsbD_last]; exact top)]
  have some : x.toNat ≠ 0 := fun zero => nonzero (BitVec.eq_of_toNat_eq zero)
  omega

theorem recvLength_frame {L : BitVec 32} (small : L.toNat < 2 ^ 24)
    (comm : Bool) (b : BSOCK) :
    recvLength z b (if comm then L ||| BNET_COMPRESSED else L) tail =
      recvPacket z b comm L tail := by
  have clear {k : ℕ} (high : 24 ≤ k) : L.getLsbD k = false := getLsbD_of_lt small high
  cases comm with
  | false =>
      have unset : L &&& BNET_COMPRESSED = 0 := (and_flag_eq_zero (by decide)).mpr (clear (by decide))
      simp only [Bool.false_eq_true, if_false]
      rw [recvLength, if_neg fun both => both.2 unset]
  | true =>
      have top : (L ||| BNET_COMPRESSED).getLsbD 31 = false := by
        rw [BitVec.getLsbD_or, clear (by decide), BNET_COMPRESSED, BitVec.getLsbD_twoPow]
        rfl
      have set : (L ||| BNET_COMPRESSED) &&& BNET_COMPRESSED ≠ 0 := by
        rw [BNET_COMPRESSED, and_flag_ne_zero (by decide), BitVec.getLsbD_or, BitVec.getLsbD_twoPow]
        simp
      simp only [if_true]
      rw [recvLength, if_pos ⟨toInt_pos top (or_flag_ne_zero (by decide)), set⟩]
      rw [BNET_COMPRESSED, strip (clear (by decide))]

/-- The two words of the header are undone. -/
theorem recv_frame (ready : p.is_stop = false) {L F : BitVec 32} {comm : Bool}
    {rest : List UInt8} (small : L.toNat < 2 ^ 24) :
    recv z p (htonl (firstWord L F comm) ++ (secondWord F ++ rest)) =
      recvPacket z (p.reset F) comm L rest := by
  have clear {k : ℕ} (high : 24 ≤ k) : L.getLsbD k = false := getLsbD_of_lt small high
  have bits {k : ℕ} (high : 24 ≤ k) (other : k ≠ 30) :
      (if comm then L ||| BNET_COMPRESSED else L).getLsbD k = false := by
    cases comm
    · exact clear high
    · simp only [if_true]
      rw [BitVec.getLsbD_or, clear high, BNET_COMPRESSED, BitVec.getLsbD_twoPow]
      simp [other.symm]
  rw [← recvLength_frame small, recv_header ready]
  unfold firstWord secondWord
  by_cases none : F = 0
  · have unset : (if comm then L ||| BNET_COMPRESSED else L) &&& BNET_HDR_EXTEND = 0 :=
      (and_flag_eq_zero (by decide)).mpr (bits (by decide) (by decide))
    subst none
    simp only [ne_eq, not_true_eq_false, if_false, unset, and_false, List.nil_append]
  · have top : ((if comm then L ||| BNET_COMPRESSED else L) ||| BNET_HDR_EXTEND).getLsbD 31 =
        false := by
      rw [BitVec.getLsbD_or, bits (by decide) (by decide), BNET_HDR_EXTEND, BitVec.getLsbD_twoPow]
      rfl
    have set : ((if comm then L ||| BNET_COMPRESSED else L) ||| BNET_HDR_EXTEND) &&&
        BNET_HDR_EXTEND ≠ 0 := by
      rw [BNET_HDR_EXTEND, and_flag_ne_zero (by decide), BitVec.getLsbD_or, BitVec.getLsbD_twoPow]
      simp
    simp only [ne_eq, none, not_false_eq_true, if_true]
    rw [if_pos ⟨toInt_pos top (or_flag_ne_zero (by decide)), set⟩,
      read_nbytes_append (length_htonl F)]
    simp only [ntohl_htonl]
    rw [BNET_HDR_EXTEND, strip (bits (by decide) (by decide))]

/-- The sizes that `recv` tries. -/
def capacities : ℕ → ℕ → List ℕ
  | 0, _ => []
  | tries+1, psize => psize :: capacities tries (if psize < 65536 then 65536 else psize * 2)

/-- The decompressed bytes, if one of the sizes is large enough. -/
def unpacked (z : Lz4) (src : List UInt8) (tries psize : ℕ) : Option (List UInt8) :=
  (capacities tries psize).findSome? fun cap => (z.decompress_safe src cap).toOption

theorem grow_spec (src : List UInt8) (tries psize : ℕ) (cmsg : Buffer) :
    match unpacked z src tries psize with
    | none => (grow z src tries psize cmsg).1 = none
    | some d => ∃ cmsg' : Buffer, grow z src tries psize cmsg = (some d.length, cmsg'.write 0 d) := by
  induction tries generalizing psize cmsg with
  | zero => rfl
  | succ tries ih =>
      rw [unpacked, capacities, List.findSome?_cons, grow]
      cases z.decompress_safe src psize with
      | ok d => exact ⟨cmsg, rfl⟩
      | error left => exact ih _ _

theorem capacities_high {tries psize : ℕ} (high : 65536 ≤ psize) :
    capacities (tries + 1) psize = psize :: capacities tries (psize * 2) := by
  rw [capacities, if_neg (not_lt.mpr high)]

/-- A buffer below 65536 bytes ends at 2097152 bytes, any other reaches what `send` accepts. -/
theorem capacities_reach {psize size : ℕ} (bounded : size ≤ 4000000) :
    (∃ cap ∈ capacities 7 psize, size ≤ cap) ↔ size ≤ 2097152 ∨ 65536 ≤ psize := by
  by_cases high : 65536 ≤ psize
  · refine iff_of_true ⟨psize * 64, ?_, by omega⟩ (Or.inr high)
    rw [capacities_high high, capacities_high (by omega), capacities_high (by omega),
      capacities_high (by omega), capacities_high (by omega), capacities_high (by omega),
      capacities_high (by omega)]
    simp [mul_assoc]
  · have sizes : capacities 7 psize =
        [psize, 65536, 131072, 262144, 524288, 1048576, 2097152] := by
      rw [capacities, if_pos (not_le.mp high)]
      rfl
    rw [sizes]
    constructor
    · rintro ⟨cap, member, enough⟩
      simp only [List.mem_cons, List.not_mem_nil, or_false] at member
      omega
    · rintro (enough | absurd')
      · exact ⟨2097152, by simp, enough⟩
      · exact absurd absurd' high

theorem unpacked_packed (lawful : z.Lawful) {src c : List UInt8} {cap tries psize : ℕ}
    (answer : z.compress_default src cap = .ok c) :
    unpacked z c tries psize =
      if ∃ n ∈ capacities tries psize, src.length ≤ n then some src else none := by
  unfold unpacked
  induction capacities tries psize with
  | nil => rfl
  | cons n rest ih =>
      rw [List.findSome?_cons]
      by_cases enough : src.length ≤ n
      · rw [lawful.undoes answer enough, if_pos ⟨n, List.mem_cons_self, enough⟩]
        rfl
      · obtain ⟨left, refused⟩ := lawful.refuses answer (not_le.mp enough)
        rw [refused]
        simpa [Except.toOption, enough] using ih

/-- Whether `recv` finds room for `size` bytes, compressed into a packet of `pktsiz` bytes. -/
def BSOCK.Fits (p : BSOCK) (pktsiz size : ℕ) : Prop :=
  size ≤ 2097152 ∨ 65536 ≤ max p.cmsg.size (pktsiz * 4)

theorem size_reserve (buffer : Buffer) (n : ℕ) : (reserve buffer n n).size = max buffer.size n := by
  unfold reserve
  split
  · rename_i small
    exact (max_eq_right small).symm
  · rename_i large
    exact (max_eq_left (not_le.mp large).le).symm

/-- The bytes behind the offset as `recv` reads them out of a packet. -/
def behind (F : BitVec 32) (packet : List UInt8) : List UInt8 :=
  if F &&& BNET_OFFSET ≠ 0 then packet.drop (F &&& 0xFF).toNat else packet

theorem read_behind {b : BSOCK} {packet : List UInt8} {pktsiz : ℕ}
    (holds : b.msg.read 0 pktsiz = packet) :
    b.msg.read (if b.m_flags &&& BNET_OFFSET ≠ 0 then b.offset else 0 : ℕ)
      (pktsiz - if b.m_flags &&& BNET_OFFSET ≠ 0 then b.offset else 0) =
        behind b.m_flags packet := by
  subst holds
  unfold behind
  split
  · by_cases within : b.offset ≤ pktsiz
    · rw [← BSOCK.offset, Buffer.drop_read within, zero_add]
    · rw [Nat.sub_eq_zero_of_le (not_le.mp within).le, List.drop_eq_nil_of_le]
      · rfl
      · rw [Buffer.length_read]
        exact (not_le.mp within).le
  · rfl

variable {b : BSOCK} {k : Bool} {packet : List UInt8} {pktsiz : ℕ}

theorem uncompress_none (holds : b.msg.read 0 pktsiz = packet)
    (fails : unpacked z (behind b.m_flags packet) 7 (max b.cmsg.size (pktsiz * 4)) = none) :
    (uncompress z b k pktsiz).1 = BNET_ERROR := by
  have loop := grow_spec (z := z) (behind b.m_flags packet) 7 (max b.cmsg.size (pktsiz * 4))
    (reserve b.cmsg (pktsiz * 4) (pktsiz * 4))
  rw [fails, ← read_behind holds, ← size_reserve] at loop
  unfold uncompress
  dsimp only at loop ⊢
  revert loop
  generalize grow z _ 7 _ _ = out
  obtain ⟨found, cmsg⟩ := out
  rintro rfl
  simp [got, BNET_ERROR]

theorem uncompress_some {d : List UInt8} (holds : b.msg.read 0 pktsiz = packet)
    (succeeds : unpacked z (behind b.m_flags packet) 7 (max b.cmsg.size (pktsiz * 4)) = some d) :
    ∃ cmsg msg : Buffer, msg.bytes = b.msg.bytes ∧ uncompress z b k pktsiz =
      (got k d.length, { b with
        cmsg := cmsg.write 0 d
        msg := (if b.m_flags &&& BNET_OFFSET = 0 then msg.write 0 d else msg).write d.length [0]
        msglen := .ofNat 32 d.length }) := by
  have loop := grow_spec (z := z) (behind b.m_flags packet) 7 (max b.cmsg.size (pktsiz * 4))
    (reserve b.cmsg (pktsiz * 4) (pktsiz * 4))
  rw [succeeds, ← read_behind holds, ← size_reserve] at loop
  obtain ⟨cmsg, loop⟩ := loop
  refine ⟨cmsg, reserve b.msg d.length (d.length + 100), ?_, ?_⟩
  · unfold reserve
    split <;> rfl
  · unfold uncompress
    simp only [loop, Buffer.read_write]

theorem recvPacket_big {comm : Bool} {L : BitVec 32} (big : 1000000 < L.toInt) :
    recvPacket z b comm L tail = (got (decide (b.m_flags &&& BNET_IS_CMD ≠ 0)) BNET_SIGNAL,
      { b with m_terminated := true, msglen := BNET_TERMINATE }, tail) := by
  have nonzero : L ≠ 0 := fun zero => absurd big (by rw [zero]; decide)
  rw [recvPacket, if_neg nonzero, if_pos (Or.inr big), if_pos (by omega)]
  simp

/-- The socket once the bytes of a packet are in `msg`. -/
def BSOCK.filled (b : BSOCK) (packet : List UInt8) (L : BitVec 32) : BSOCK :=
  { b with msg := (reserve b.msg L.toNat (L.toNat + 100)).write 0 packet, msglen := L }

theorem recvPacket_data {comm : Bool} {L : BitVec 32} (positive : 0 < L.toInt)
    (fits : L.toInt ≤ 1000000) (same : packet.length = L.toNat) :
    recvPacket z b comm L (packet ++ tail) =
      if comm || b.m_flags &&& BNET_OFFSET ≠ 0 then
        ((uncompress z (b.filled packet L) (b.m_flags &&& BNET_IS_CMD ≠ 0) L.toNat).1,
          (uncompress z (b.filled packet L) (b.m_flags &&& BNET_IS_CMD ≠ 0) L.toNat).2, tail)
      else (got (b.m_flags &&& BNET_IS_CMD ≠ 0) L.toNat,
        { b.filled packet L with msg := (b.filled packet L).msg.write L.toNat [0] }, tail) := by
  have nonzero : L ≠ 0 := fun zero => absurd positive (by rw [zero]; decide)
  rw [recvPacket, if_neg nonzero, if_neg (by omega), read_nbytes_append same]
  rfl

theorem read_nbytes_more {n : ℕ} {stream : List UInt8} (enough : n ≤ stream.length) :
    read_nbytes n (stream ++ tail) = (some (stream.take n), stream.drop n ++ tail) := by
  rw [read_nbytes, if_pos (by rw [List.length_append]; omega), List.take_append_of_le_length enough,
    List.drop_append_of_le_length enough]

theorem recvPacket_more {comm : Bool} {L : BitVec 32} {stream : List UInt8}
    (read : (recvPacket z b comm L stream).1 ≠ BNET_ERROR) :
    recvPacket z b comm L (stream ++ tail) =
      ((recvPacket z b comm L stream).1, (recvPacket z b comm L stream).2.1,
        (recvPacket z b comm L stream).2.2 ++ tail) := by
  unfold recvPacket at read ⊢
  dsimp only at read ⊢
  by_cases none : L = 0
  · simp only [none, if_true]
  · by_cases refused : L.toInt < 0 ∨ 1000000 < L.toInt
    · simp only [none, if_false, refused, if_true]
    · simp only [none, if_false, refused] at read ⊢
      by_cases enough : L.toNat ≤ stream.length
      · rw [read_nbytes_more enough, read_nbytes, if_pos enough]
        dsimp only
        split <;> rfl
      · rw [read_nbytes, if_neg enough] at read
        exact absurd (by simp [got]) read

theorem recvLength_more {L : BitVec 32} {stream : List UInt8}
    (read : (recvLength z b L stream).1 ≠ BNET_ERROR) :
    recvLength z b L (stream ++ tail) = ((recvLength z b L stream).1,
      (recvLength z b L stream).2.1, (recvLength z b L stream).2.2 ++ tail) := by
  unfold recvLength at read ⊢
  split at read
  · rename_i set
    rw [if_pos set, if_pos set]
    exact recvPacket_more read
  · rename_i unset
    rw [if_neg unset, if_neg unset]
    exact recvPacket_more read

/-- What lies behind a packet is left alone. -/
theorem recv_more {stream : List UInt8} (whole : (recv z p stream).1 ≠ BNET_HARDEOF)
    (read : (recv z p stream).1 ≠ BNET_ERROR) :
    recv z p (stream ++ tail) =
      ((recv z p stream).1, (recv z p stream).2.1, (recv z p stream).2.2 ++ tail) := by
  unfold recv at whole read ⊢
  dsimp only at whole read ⊢
  split at whole
  · exact absurd rfl whole
  · rename_i ready
    rw [if_neg ready] at read
    rw [if_neg ready, if_neg ready]
    by_cases enough : 4 ≤ stream.length
    · rw [read_nbytes, if_pos enough] at whole read
      rw [read_nbytes_more enough, read_nbytes, if_pos enough]
      dsimp only at whole read ⊢
      split at whole
      · rename_i set
        rw [if_pos set] at read
        rw [if_pos set, if_pos set]
        by_cases more : 4 ≤ (stream.drop 4).length
        · rw [read_nbytes, if_pos more] at whole read
          rw [read_nbytes_more more, read_nbytes, if_pos more]
          exact recvLength_more read
        · rw [read_nbytes, if_neg more] at whole
          exact absurd rfl whole
      · rename_i unset
        rw [if_neg unset] at read
        rw [if_neg unset, if_neg unset]
        exact recvLength_more read
    · rw [read_nbytes, if_neg enough] at whole
      exact absurd rfl whole

end receiving

end Bacula.Bsock
